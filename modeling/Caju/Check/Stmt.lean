import Caju.Check.Expr

/-! Checking statements. A check takes the open scopes and gives back the scopes
after it with the journal of what happened; nothing found wrong cuts it short. -/

namespace Caju

namespace Check

/-- What a check leaves behind: the scopes, its journal, and whether it came past
a `retorne`. -/
structure Outcome where
  scopes : ScopeStack
  journal : List Event
  returned : Bool
  deriving DecidableEq, Inhabited

namespace Outcome

/-- Nothing happened. -/
def idle (scopes : ScopeStack) : Outcome := ⟨scopes, [], false⟩

/-- Something was noted, and the scopes stayed as they were. -/
def noting (journal : List Event) (scopes : ScopeStack) : Outcome := ⟨scopes, journal, false⟩

/-- One check after another. -/
def andThen (first : Outcome) (next : ScopeStack → Outcome) : Outcome :=
  let second := next first.scopes
  ⟨second.scopes, first.journal ++ second.journal, first.returned || second.returned⟩

@[simp] theorem idle_andThen (scopes : ScopeStack) (next : ScopeStack → Outcome) :
    (idle scopes).andThen next = next scopes := by
  simp [idle, andThen]

@[simp] theorem andThen_idle (first : Outcome) : first.andThen idle = first := by
  simp [idle, andThen]

theorem andThen_assoc (first : Outcome) (second third : ScopeStack → Outcome) :
    (first.andThen second).andThen third =
      first.andThen fun scopes => (second scopes).andThen third := by
  simp [andThen, Bool.or_assoc]

end Outcome

def enter (scopes : ScopeStack) : Outcome :=
  ⟨scopes.enter, [.entered scopes.enter.depth], false⟩

def leave (scopes : ScopeStack) : Outcome :=
  match scopes.leave with
  | .ok (_, outer) => ⟨outer, [.left outer.depth], false⟩
  | .error fault => .noting [.misused fault] scopes

def declare (symbol : Symbol) (scopes : ScopeStack) : Outcome :=
  match scopes.declare symbol.name symbol with
  | .ok (replaced, scopes) => ⟨scopes, [.declared symbol replaced], false⟩
  | .error fault => .noting [.misused fault] scopes

/-- A check in a scope of its own. -/
def inScope (body : ScopeStack → Outcome) (scopes : ScopeStack) : Outcome :=
  (enter scopes).andThen fun scopes => (body scopes).andThen leave

/-- Checks things one after another. -/
def sequence {α : Type} (check : α → ScopeStack → Outcome) : List α → ScopeStack → Outcome
  | [], scopes => .idle scopes
  | x :: rest, scopes => (check x scopes).andThen (sequence check rest)

/-- Checking one list after another is checking the two as one. -/
theorem sequence_append {α : Type} (check : α → ScopeStack → Outcome) (first second : List α)
    (scopes : ScopeStack) :
    sequence check (first ++ second) scopes =
      (sequence check first scopes).andThen (sequence check second) := by
  induction first generalizing scopes with
  | nil => simp [sequence]
  | cons x rest ih =>
    have step : sequence check (rest ++ second) =
        fun scopes => (sequence check rest scopes).andThen (sequence check second) := funext ih
    simp only [List.cons_append, sequence, Outcome.andThen_assoc, step]

/-- Declares a symbol unless its scope holds the name already. -/
def declareNew (duplicate : Diagnostic) (symbol : Symbol) (scopes : ScopeStack) : Outcome :=
  if scopes.holds symbol.name then .noting [.reported duplicate] scopes else declare symbol scopes

/-- The function a statement is in, as far as its returns are concerned. -/
structure Context where
  name : String
  result : Ty
  deriving DecidableEq, Inhabited

end Check

open Check

def VarDecl.check (decl : VarDecl) : ScopeStack → Outcome :=
  sequence (fun name => declareNew (.duplicateVariable name) (.var name decl.ty)) decl.names

/-- Nothing is said about the value given to a name that is not declared. Otherwise
the name holds a value from here on, whether or not its type fits. -/
def Assign.check (assign : Assign) (scopes : ScopeStack) : Outcome :=
  match scopes.lookup assign.target with
  | none => .noting [.reported (.undeclaredVariable assign.target)] scopes
  | some symbol =>
    let (found, journal) := assign.value.infer scopes
    ⟨scopes.markInitialized assign.target,
      journal ++
        require (symbol.ty.accepts found) (.assignmentMismatch assign.target symbol.ty found) ++
        [.assigned assign.target],
      false⟩

/-- The container of a `para cada` must be an array whose elements fit the variable. -/
def checkContainer (ty : Ty) (name container : String) (scopes : ScopeStack) : List Event :=
  match scopes.lookup container with
  | none => [.reported (.undeclaredVariable container)]
  | some symbol =>
    match symbol.ty.element? with
    | none => [.reported (.notAnArray container)]
    | some element => require (ty.accepts element) (.elementMismatch name element ty)

/-- A returned value must fit the function's result, and a bare `retorne` is for
functions without one. -/
def checkReturnValue (context : Context) (value : Option Expr) (scopes : ScopeStack) :
    List Event :=
  match value with
  | some value =>
    let (found, journal) := value.infer scopes
    journal ++
      require (context.result.accepts found) (.returnMismatch context.name context.result found)
  | none => require context.result.isVoid (.missingReturnValue context.name context.result)

/-- Nothing is said about the value of a `retorne` that is in no function. -/
def checkReturn (context : Option Context) (value : Option Expr) (scopes : ScopeStack) : Outcome :=
  match context with
  | none => .noting [.reported .returnOutsideFunction] scopes
  | some context => ⟨scopes, checkReturnValue context value scopes, true⟩

/-- Checks what is inside a `para`. The steps are looked at both before and after the
condition. -/
def checkLoop (start : List Assign) (condition : Option Expr) (step : List Assign)
    (body : ScopeStack → Outcome) (scopes : ScopeStack) : Outcome :=
  ((((sequence Assign.check start scopes).andThen (sequence Assign.check step)).andThen
    fun scopes =>
      .noting ((condition.map (Expr.checkCondition .forDo scopes)).getD []) scopes).andThen
    (sequence Assign.check step)).andThen body

/-- Checks what is inside a `para cada`. The variable is declared before the container
is looked up. -/
def checkEach (ty : Ty) (name container : String) (body : ScopeStack → Outcome)
    (scopes : ScopeStack) : Outcome :=
  ((Check.declare (.bound name ty) scopes).andThen fun scopes =>
    .noting (checkContainer ty name container scopes) scopes).andThen body

mutual

/-- Checks a statement, of a function or outside of any. -/
def Stmt.check (context : Option Context) : Stmt → ScopeStack → Outcome
  | .declare decl, scopes => decl.check scopes
  | .assign step, scopes => step.check scopes
  | .call callee args, scopes => .noting ((Expr.call callee args).infer scopes).2 scopes
  | .ifElse condition yes none, scopes =>
    (Outcome.noting (Expr.checkCondition .ifElse scopes condition) scopes).andThen
      (inScope (Stmt.checkAll context yes))
  | .ifElse condition yes (some no), scopes =>
    ((Outcome.noting (Expr.checkCondition .ifElse scopes condition) scopes).andThen
      (inScope (Stmt.checkAll context yes))).andThen (inScope (Stmt.checkAll context no))
  | .whileDo condition body, scopes =>
    (Outcome.noting (Expr.checkCondition .whileDo scopes condition) scopes).andThen
      (inScope (Stmt.checkAll context body))
  | .forDo start condition step body, scopes =>
    inScope (checkLoop start condition step (Stmt.checkAll context body)) scopes
  | .forEach ty name container body, scopes =>
    inScope (checkEach ty name container (Stmt.checkAll context body)) scopes
  | .ret value, scopes => checkReturn context value scopes

/-- Checks statements in order. -/
def Stmt.checkAll (context : Option Context) : List Stmt → ScopeStack → Outcome
  | [], scopes => .idle scopes
  | stmt :: rest, scopes => (stmt.check context scopes).andThen (Stmt.checkAll context rest)

end

end Caju
