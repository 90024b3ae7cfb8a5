import Caju.OsText

/-! The arguments of the command line. A command may be named anywhere among the
options of the program itself, which then count for nothing. -/

namespace Caju.CommandLine

/-- What the command line asks for. -/
inductive Command where
  | build (input : OsText) (output : Option OsText) (quiet : Bool)
  | check (input : OsText) (json : Bool)
  | version
  | noInput
  deriving DecidableEq, Inhabited

/-- Why reading the arguments stopped without a command. -/
inductive Stop where
  | misused
  | versionAsked
  | helpAsked
  deriving DecidableEq, Inhabited

/-- Whose arguments are being read: the program's own, or those of a command. -/
inductive Scope where
  | program
  | build
  | check
  | version
  deriving DecidableEq, Inhabited

inductive Opt where
  | output
  | quiet
  | json
  | version
  | help
  deriving DecidableEq, Inhabited

/-- The options that can be given. -/
def Scope.options : Scope → List Opt
  | .program => [.output, .quiet, .version, .help]
  | .build => [.output, .quiet, .help]
  | .check => [.json, .help]
  | .version => [.help]

/-- Whether a file can be given. -/
def Scope.takesFile : Scope → Bool
  | .version => false
  | _ => true

def Opt.all : List Opt := [.output, .quiet, .json, .version, .help]

/-- The letter that an option may be given by. -/
def Opt.letter? : Opt → Option UInt8
  | .output => some 'o'.toUInt8
  | .quiet => some 'q'.toUInt8
  | .json => none
  | .version => some 'V'.toUInt8
  | .help => some 'h'.toUInt8

/-- The word that an option may be given by. -/
def Opt.word : Opt → OsText
  | .output => .ofString "output"
  | .quiet => .ofString "quiet"
  | .json => .ofString "json"
  | .version => .ofString "version"
  | .help => .ofString "help"

def Opt.ofLetter? (letter : UInt8) : Option Opt := all.find? (·.letter? == some letter)

def Opt.ofWord? (word : OsText) : Option Opt := all.find? (·.word == word)

/-- The name of a command. -/
def Scope.name? : Scope → Option OsText
  | .program => none
  | .build => some (.ofString "build")
  | .check => some (.ofString "check")
  | .version => some (.ofString "version")

/-- The command of a name. -/
def Scope.ofName? (name : OsText) : Option Scope :=
  [build, check, version].find? (·.name? == some name)

/-- The word that asks for help, in the place of a command. -/
def helpName : OsText := .ofString "help"

/-- Whether help can be given on this: on the program, or on a single command. -/
def isHelpTopic : List OsText → Bool
  | [] => true
  | [name] => (Scope.ofName? name).isSome || name == helpName
  | _ => false

/-- What was given so far. -/
structure Given where
  file : Option OsText
  output : Option OsText
  quiet : Bool
  json : Bool
  deriving DecidableEq, Inhabited

def Given.nothing : Given := ⟨none, none, false, false⟩

def dash : UInt8 := '-'.toUInt8

def equals : UInt8 := '='.toUInt8

/-- The form of a single argument. -/
inductive Form where
  /-- Two dashes alone: only files follow. -/
  | escape
  | long (word : OsText) (attached : Option OsText)
  | short (letters : OsText)
  | plain
  deriving DecidableEq

/-- What stands behind two dashes: a word, with or without a value. -/
def longForm (text : OsText) : Form :=
  match text.dropWhile (· != equals) with
  | [] => .long text none
  | _ :: attached => .long (text.takeWhile (· != equals)) (some attached)

def form (arg : OsText) : Form :=
  match arg with
  | first :: second :: rest =>
    if first = dash then
      if second = dash then if rest = [] then .escape else longForm rest
      else .short (second :: rest)
    else .plain
  | _ => .plain

/-- Takes a file. Only one may be given, and it must have a name. -/
def Given.setFile (scope : Scope) (file : OsText) (given : Given) : Except Stop Given :=
  if scope.takesFile && given.file.isNone && !file.isEmpty then .ok { given with file := some file }
  else .error .misused

/-- Takes an output path. Only one may be given, and it must have a name. -/
def Given.setOutput (output : OsText) (given : Given) : Except Stop Given :=
  if given.output.isNone && !output.isEmpty then .ok { given with output := some output }
  else .error .misused

/-- Takes an option without a value; none may be repeated. -/
def Given.setFlag (scope : Scope) (opt : Opt) (given : Given) : Except Stop Given :=
  if scope.options.contains opt then
    match opt with
    | .quiet => if given.quiet then .error .misused else .ok { given with quiet := true }
    | .json => if given.json then .error .misused else .ok { given with json := true }
    | .version => .error .versionAsked
    | .help => .error .helpAsked
    | .output => .error .misused
  else .error .misused

/-- What an argument of options leads to: all is said, or a value must follow. -/
inductive After where
  | done (given : Given)
  | needsOutput (given : Given)

/-- The value that stands behind a letter in one argument, with or without an equals sign. -/
def attachedValue (text : OsText) : OsText :=
  if text.head? = some equals then text.tail else text

/-- Takes the letters of one argument. The letter of the output may have its value
behind it. -/
def Given.setLetters (scope : Scope) : OsText → Given → Except Stop After
  | [], given => .ok (.done given)
  | letter :: rest, given =>
    match Opt.ofLetter? letter with
    | none => .error .misused
    | some .output =>
      if scope.options.contains .output then
        if rest = [] then .ok (.needsOutput given)
        else (given.setOutput (attachedValue rest)).map .done
      else .error .misused
    | some opt =>
      match given.setFlag scope opt with
      | .error stop => .error stop
      | .ok given => setLetters scope rest given

/-- Takes an option that is spelled out. -/
def Given.setWord (scope : Scope) (word : OsText) (attached : Option OsText) (given : Given) :
    Except Stop After :=
  match Opt.ofWord? word with
  | none => .error .misused
  | some .output =>
    if scope.options.contains .output then
      match attached with
      | none => .ok (.needsOutput given)
      | some value => (given.setOutput value).map .done
    else .error .misused
  | some opt =>
    match attached with
    | some _ => .error .misused
    | none => (given.setFlag scope opt).map .done

/-- What was read: the options of a scope, or the name of a command on the way, or
the word `help`, and the arguments after it. -/
inductive Parsed where
  | all (given : Given)
  | command (scope : Scope) (rest : List OsText)
  | help (topics : List OsText)

/-- Takes files up to the end. -/
def takeFiles (scope : Scope) : List OsText → Given → Except Stop Given
  | [], given => .ok given
  | file :: rest, given =>
    match given.setFile scope file with
    | .error stop => .error stop
    | .ok given => takeFiles scope rest given

/-- Takes the options of one argument. -/
def Given.setOptions (scope : Scope) (options : Form) (given : Given) : Except Stop After :=
  match options with
  | .long word attached => given.setWord scope word attached
  | .short letters => given.setLetters scope letters
  | _ => .ok (.done given)

/-- Reads the arguments of a scope. The value of an option may be any argument that
is no option itself. -/
def parse (scope : Scope) : List OsText → Given → Except Stop Parsed
  | [], given => .ok (.all given)
  | arg :: rest, given =>
    match form arg with
    | .escape => (takeFiles scope rest given).map .all
    | .plain =>
      match if scope = .program then Scope.ofName? arg else none with
      | some command => .ok (.command command rest)
      | none =>
        if scope = .program ∧ arg = helpName then .ok (.help rest)
        else
          match given.setFile scope arg with
          | .error stop => .error stop
          | .ok given => parse scope rest given
    | options =>
      match given.setOptions scope options with
      | .error stop => .error stop
      | .ok (.done given) => parse scope rest given
      | .ok (.needsOutput given) =>
        match rest with
        | [] => .error .misused
        | value :: rest =>
          if form value = .plain then
            match given.setOutput value with
            | .error stop => .error stop
            | .ok given => parse scope rest given
          else .error .misused

/-- The command that a scope's options make up. -/
def command (scope : Scope) (given : Given) : Except Stop Command :=
  match scope, given.file with
  | .program, none => .ok .noInput
  | .program, some file => .ok (.build file given.output given.quiet)
  | .build, some file => .ok (.build file given.output given.quiet)
  | .check, some file => .ok (.check file given.json)
  | .version, none => .ok .version
  | _, _ => .error .misused

/-- Reads the command line. -/
def parseArgs (args : List OsText) : Except Stop Command := do
  match ← parse .program args .nothing with
  | .all given => command .program given
  | .help topics => .error (if isHelpTopic topics then .helpAsked else .misused)
  | .command scope rest =>
    match ← parse scope rest .nothing with
    | .all given => command scope given
    | _ => .error .misused

end Caju.CommandLine
