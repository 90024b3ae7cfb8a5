import Caju.OsText
import Caju.Tree.Reader

/-! Conditions that stop a run before there is a program to check. -/

namespace Caju

/-- Why no program could be loaded. Positions are those of the text it was in. -/
inductive Fault where
  | access (path : OsText) (reason : String)
  | unsupportedSuffix (path : OsText)
  | lexical (message : String) (line column : Nat)
  | shape (message : String) (line column : Nat)
  | unexpected (message : String)
  deriving DecidableEq, Inhabited

/-- What a fault is reported as. -/
inductive FaultCategory where
  | fileAccess
  | lexical
  | syntactic
  | unclassified
  deriving DecidableEq, Inhabited

def FaultCategory.text : FaultCategory → String
  | .fileAccess => "file access error"
  | .lexical => "error during lexical analysis"
  | .syntactic => "error during syntactic analysis"
  | .unclassified => "unexpected error"

namespace Fault

def category : Fault → FaultCategory
  | access .. | unsupportedSuffix .. => .fileAccess
  | lexical .. => .lexical
  | shape .. => .syntactic
  | unexpected .. => .unclassified

def message : Fault → String
  | access path reason => "cannot access '" ++ path.shown ++ "': " ++ reason
  | unsupportedSuffix path =>
    "unsupported source suffix for '" ++ path.shown ++ "' (expected .caju or .cj)"
  | lexical message line column =>
    "malformed input at line " ++ toString line ++ ", column " ++ toString column ++ ": " ++ message
  | shape message line column =>
    "invalid parse tree at line " ++ toString line ++ ", column " ++ toString column ++ ": " ++ message
  | unexpected message => message

/-- The fault on one line with its category in front and what caused it behind. -/
def report (fault : Fault) : String :=
  let cause := match fault with
    | access _ reason => ": " ++ reason
    | _ => ""
  fault.category.text ++ ": " ++ fault.message ++ cause

/-- A message with its position in the text behind it. -/
def located (message : String) (position : Json.Position) : String :=
  message ++ " at line " ++ toString position.line ++ " column " ++ toString position.column

/-- What a reader's error amounts to, given the text that was read. -/
def ofReadError (text : List Char) : Tree.ReadError → Fault
  | .malformed failure =>
    let position := failure.place.position text
    lexical (located failure.flaw.message position) position.line position.column
  | .misshapen mismatch place =>
    let position := place.position text
    shape (located mismatch.message position) position.line position.column

end Fault

/-- The program that a text describes. -/
def Program.ofText (text : String) : Except Fault Program :=
  (Tree.read text.toList).mapError (Fault.ofReadError text.toList)

end Caju
