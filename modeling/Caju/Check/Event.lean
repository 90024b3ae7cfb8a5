import Caju.Diagnostic
import Caju.Scope

/-! The journal of a check: everything the checker does, in order. Diagnostics and
log lines are read off it. -/

namespace Caju.Check

inductive Event where
  | entered (depth : Nat)
  | left (depth : Nat)
  /-- A declaration, with the symbol of the same scope that it replaced. -/
  | declared (symbol : Symbol) (replaced : Option Symbol)
  | misused (fault : ScopeFault)
  | checking (function : String)
  | read (name : String)
  | assigned (name : String)
  | reported (diagnostic : Diagnostic)
  deriving DecidableEq, Inhabited

def Event.diagnostic? : Event → Option Diagnostic
  | .reported diagnostic => some diagnostic
  | _ => none

/-- The diagnostics of a journal, in the order they were found. -/
def diagnostics (journal : List Event) : List Diagnostic := journal.filterMap Event.diagnostic?

@[simp] theorem diagnostics_nil : diagnostics [] = [] := rfl

@[simp] theorem diagnostics_append (first second : List Event) :
    diagnostics (first ++ second) = diagnostics first ++ diagnostics second :=
  List.filterMap_append

/-- Reports a diagnostic unless a condition holds. -/
def require (holds : Bool) (diagnostic : Diagnostic) : List Event :=
  if holds then [] else [.reported diagnostic]

end Caju.Check
