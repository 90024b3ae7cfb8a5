import Caju.CommandLine.Args
import Caju.Compile
import Caju.FileTree
import Caju.Report

/-! A run of the compiler as a dialogue with the file system: at most one file is
read, then at most one is written. The answers of the file system come from a
`FileTree`, or from the machine the program runs on. -/

namespace Caju.CommandLine

/-- What a run ends with. -/
structure Output where
  code : Nat
  stdout : String
  stderr : String
  deriving DecidableEq, Inhabited

inductive Dialogue where
  | done (output : Output)
  | read (path : OsText) (next : Except FileError ByteArray → Dialogue)
  | write (path : OsText) (content : String) (next : Except FileError Unit → Dialogue)

/-- Text as a line. -/
def asLine (text : String) : String := text ++ "\n"

/-- How diagnostics are told to the user. -/
def diagnosticLines (diagnostics : List Diagnostic) : String :=
  if diagnostics.isEmpty then asLine (Check.summary diagnostics)
  else
    asLine (Check.summary diagnostics ++ ":") ++
      String.join (diagnostics.map fun d => asLine ("- " ++ d.message))

def failed (fault : Fault) : Output := ⟨1, "", asLine fault.report⟩

/-- Loads a program and goes on with it; a fault ends the run. -/
def loading (path : OsText) (next : Program → Dialogue) : Dialogue :=
  match Path.source? path with
  | none => .done (failed (.unsupportedSuffix path))
  | some _ =>
    .read path fun content =>
      match Program.ofContent path content with
      | .error fault => .done (failed fault)
      | .ok program => next program

/-- What a build ends with once it tried to write its output. -/
def written (path : OsText) (quiet : Bool) (c : Compilation) (result : Except FileError Unit) :
    Output :=
  match result with
  | .ok () =>
    ⟨0, if quiet then "" else c.generated,
      diagnosticLines c.diagnostics ++ asLine ("Generated C code: " ++ path.shown)⟩
  | .error error =>
    ⟨1, "", diagnosticLines c.diagnostics ++ asLine
      (FaultCategory.fileAccess.text ++ ": cannot write '" ++ path.shown ++ "': " ++ error.text)⟩

/-- Compiles a file. Diagnostics never keep the output from being written. -/
def buildFile (input : OsText) (output : Option OsText) (quiet : Bool) : Dialogue :=
  loading input fun program =>
    let target : Except Fault OsText := match output with
      | some path => .ok path
      | none => Path.defaultOutput input
    match target with
    | .error fault => .done (failed fault)
    | .ok path =>
      let c := program.compile
      .write path c.generated fun result => .done (written path quiet c result)

/-- Checks a file; anything found wrong makes the run fail. -/
def checkFile (input : OsText) (json : Bool) : Dialogue :=
  loading input fun program =>
    let found := program.diagnostics
    let code := if found.isEmpty then 0 else 1
    if json then .done ⟨code, asLine (Report.ofDiagnostics input.shown found).text, ""⟩
    else .done ⟨code, "", diagnosticLines found⟩

def versionLine : String := asLine "cajuc 0.1.0"

def usageLine : String := asLine "Usage: cajuc <FILE> or cajuc build <FILE>"

def Command.run : Command → Dialogue
  | .build input output quiet => buildFile input output quiet
  | .check input json => checkFile input json
  | .version => .done ⟨0, versionLine ++ asLine "Caju Compiler" ++ asLine "License: Apache-2.0", ""⟩
  | .noInput => .done ⟨1, "", asLine "Error: No input file specified" ++ usageLine⟩

/-- What a run does that gets no further than its arguments. -/
def Stop.output : Stop → Output
  | .misused => ⟨2, "", ""⟩
  | .versionAsked => ⟨0, versionLine, ""⟩
  | .helpAsked => ⟨0, usageLine, ""⟩

/-- The run that a command line asks for. -/
def start (args : List OsText) : Dialogue :=
  match parseArgs args with
  | .error stop => .done stop.output
  | .ok command => command.run

/-- Carries a dialogue through on a tree of files. -/
def Dialogue.runOn : Dialogue → FileTree → Output × FileTree
  | .done output, tree => (output, tree)
  | .read path next, tree => (next (tree.read path)).runOn tree
  | .write path content next, tree =>
    match tree.write path content.toUTF8 with
    | .ok changed => (next (.ok ())).runOn changed
    | .error error => (next (.error error)).runOn tree

/-- Runs the compiler on a tree of files. -/
def run (args : List OsText) (tree : FileTree) : Output × FileTree := (start args).runOn tree

end Caju.CommandLine
