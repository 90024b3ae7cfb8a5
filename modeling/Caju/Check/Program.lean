import Caju.Check.Stmt

/-! Checking a whole program, item by item. An item sees what the items before it
declared and, if it is a function, itself. -/

namespace Caju

open Check

/-- The body of a function with a result must come past a `retorne` somewhere; the
entry point need not. -/
def checkReturned (f : Function) (returned : Bool) : List Event :=
  require (f.result.isVoid || returned || f.name == entryPoint) (.missingReturn f.name f.result)

/-- Checks parameters and body of a function inside its own scope. A later parameter
takes the place of an earlier one of the same name. -/
def Function.checkBody (f : Function) (scopes : ScopeStack) : Outcome :=
  let body := (sequence (fun param => declare (.param param.name param.ty)) f.params scopes).andThen
    (Stmt.checkAll (some ⟨f.name, f.result⟩) f.body)
  body.andThen (.noting (checkReturned f body.returned))

/-- Checks a function: its name is declared first, so its body may call it. -/
def Function.check (f : Function) (scopes : ScopeStack) : Outcome :=
  ((declareNew (.duplicateFunction f.name)
    (.function f.name (f.params.map Param.ty) f.result) scopes).andThen
    (.noting [.checking f.name])).andThen (inScope f.checkBody)

def Item.check : Item → ScopeStack → Outcome
  | .declare decl => decl.check
  | .function f => f.check

namespace Program

/-- Checks a program in a global scope of its own. -/
def check (p : Program) : Outcome := inScope (sequence Item.check p.items) .empty

/-- What is wrong with a program, in the order it is found. -/
def diagnostics (p : Program) : List Diagnostic := Check.diagnostics p.check.journal

end Program

end Caju
