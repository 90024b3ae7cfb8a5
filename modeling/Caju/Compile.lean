import Caju.C.Program
import Caju.Check.Program

/-! Compiling a program: what the checker finds, what the generator writes, and the
log of both. Code is generated whatever is found. -/

namespace Caju

structure Compilation where
  diagnostics : List Diagnostic
  generated : String
  deriving DecidableEq, Inhabited

/-- Whether nothing was found wrong. -/
def Compilation.isClean (c : Compilation) : Bool := c.diagnostics.isEmpty

def Program.compile (p : Program) : Compilation := ⟨p.diagnostics, p.toC⟩

/-- How the outcome of a check is summed up. -/
def Check.summary (diagnostics : List Diagnostic) : String :=
  if diagnostics.isEmpty then "semantic analysis finished without errors"
  else "semantic analysis found " ++ toString diagnostics.length ++ " error(s)"

namespace Log

inductive Level where
  | trace
  | debug
  | info
  | warn
  deriving DecidableEq, Inhabited

def Level.text : Level → String
  | .trace => "TRACE"
  | .debug => "DEBUG"
  | .info => "INFO"
  | .warn => "WARN"

structure Entry where
  level : Level
  message : String
  deriving DecidableEq, Inhabited

def Entry.text (entry : Entry) : String := entry.level.text ++ " " ++ entry.message

/-- What the log says about an event of a check, if anything. -/
def ofEvent? : Check.Event → Option Entry
  | .entered depth => some ⟨.trace, "enter scope (depth " ++ toString depth ++ ")"⟩
  | .left depth => some ⟨.trace, "exit scope (depth " ++ toString depth ++ ")"⟩
  | .checking function => some ⟨.debug, "checking function '" ++ function ++ "'"⟩
  | .reported diagnostic => some ⟨.debug, diagnostic.message⟩
  | _ => none

/-- The log of checking a program. -/
def ofCheck (p : Program) : List Entry :=
  [⟨.info, "semantic analysis started (" ++ toString p.items.length ++ " items)"⟩] ++
    p.check.journal.filterMap ofEvent? ++ [⟨.info, Check.summary p.diagnostics⟩]

/-- The log of generating code for a program. -/
def ofGeneration (p : Program) : List Entry :=
  let size := toString p.toC.utf8ByteSize
  p.functions.map (fun f => ⟨.debug, "generating function '" ++ f.name ++ "'"⟩) ++
    [⟨.info, "generated " ++ size ++ " bytes of C"⟩, ⟨.info, "C backend produced " ++ size ++ " bytes"⟩]

/-- The log of compiling a program. -/
def ofCompilation (p : Program) : List Entry :=
  let warning : List Entry :=
    if p.diagnostics.isEmpty then []
    else [⟨.warn, "generating code despite " ++ toString p.diagnostics.length ++
      " semantic diagnostic(s)"⟩]
  ofCheck p ++ warning ++ ofGeneration p

end Log

end Caju
