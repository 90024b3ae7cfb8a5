import Caju.C.Name
import Caju.Proofs.CheckPlans
import Mathlib.Logic.Function.Basic

/-! Names are nothing but names to the checker: it compares them with one another, and one of
them with that of the entry point. If all names of a program are changed, different ones to
different ones, and the entry point keeps its own, then the whole journal of checking it is
that of the program before, with the names in it changed alike. -/

namespace Caju

open Check

/-! ### Other names -/

section Definitions

variable (respell : String → String)

namespace Expr

mutual

/-- An expression with other names. -/
def rename : Expr → Expr
  | .number value => .number value
  | .character value => .character value
  | .boolean value => .boolean value
  | .var name => .var (respell name)
  | .binary op left right => .binary op left.rename right.rename
  | .not operand => .not operand.rename
  | .neg operand => .neg operand.rename
  | .call callee args => .call (respell callee) (renameAll args)

def renameAll : List Expr → List Expr
  | [] => []
  | expr :: rest => expr.rename :: renameAll rest

end

end Expr

def VarDecl.rename (decl : VarDecl) : VarDecl := { decl with names := decl.names.map respell }

def Assign.rename (assign : Assign) : Assign :=
  ⟨respell assign.target, assign.value.rename respell⟩

namespace Stmt

mutual

/-- A statement with other names: those it declares, assigns to, calls, runs through and
reads. -/
def rename : Stmt → Stmt
  | .declare decl => .declare (decl.rename respell)
  | .assign step => .assign (step.rename respell)
  | .call callee args => .call (respell callee) (Expr.renameAll respell args)
  | .ifElse condition yes none => .ifElse (condition.rename respell) (renameAll yes) none
  | .ifElse condition yes (some no) =>
    .ifElse (condition.rename respell) (renameAll yes) (some (renameAll no))
  | .whileDo condition body => .whileDo (condition.rename respell) (renameAll body)
  | .forDo start condition step body =>
    .forDo (start.map (Assign.rename respell)) (condition.map (Expr.rename respell))
      (step.map (Assign.rename respell)) (renameAll body)
  | .forEach ty name container body =>
    .forEach ty (respell name) (respell container) (renameAll body)
  | .ret value => .ret (value.map (Expr.rename respell))

def renameAll : List Stmt → List Stmt
  | [] => []
  | stmt :: rest => stmt.rename :: renameAll rest

end

end Stmt

def Param.rename (param : Param) : Param := { param with name := respell param.name }

def Function.rename (f : Function) : Function :=
  ⟨respell f.name, f.params.map (Param.rename respell), f.result, Stmt.renameAll respell f.body⟩

def Item.rename : Item → Item
  | .declare decl => .declare (decl.rename respell)
  | .function f => .function (f.rename respell)

/-- A program with other names. -/
def Program.rename (p : Program) : Program := ⟨p.items.map (Item.rename respell)⟩

/-- A diagnostic about other names; types, positions and counts stay. -/
def Diagnostic.rename : Diagnostic → Diagnostic
  | .duplicateVariable name => .duplicateVariable (respell name)
  | .duplicateFunction name => .duplicateFunction (respell name)
  | .undeclaredVariable name => .undeclaredVariable (respell name)
  | .uninitializedVariable name => .uninitializedVariable (respell name)
  | .undeclaredFunction name => .undeclaredFunction (respell name)
  | .notAFunction name => .notAFunction (respell name)
  | .assignmentMismatch target expected found =>
    .assignmentMismatch (respell target) expected found
  | .argumentCount function expected found => .argumentCount (respell function) expected found
  | .argumentMismatch function position expected found =>
    .argumentMismatch (respell function) position expected found
  | .conditionNotBoolean construct found => .conditionNotBoolean construct found
  | .notAnArray name => .notAnArray (respell name)
  | .elementMismatch name element found => .elementMismatch (respell name) element found
  | .notOperand found => .notOperand found
  | .negOperand found => .negOperand found
  | .returnOutsideFunction => .returnOutsideFunction
  | .returnMismatch function expected found => .returnMismatch (respell function) expected found
  | .missingReturnValue function expected => .missingReturnValue (respell function) expected
  | .missingReturn function expected => .missingReturn (respell function) expected
  | .unsupportedCharacter value => .unsupportedCharacter value

def Symbol.rename (symbol : Symbol) : Symbol := { symbol with name := respell symbol.name }

/-- A frame whose symbols have other names, and other keys with them. -/
def Frame.rename (frame : Frame) : Frame :=
  ⟨frame.entries.map (Prod.map respell (Symbol.rename respell))⟩

def ScopeStack.rename (scopes : ScopeStack) : ScopeStack :=
  ⟨scopes.frames.map (Frame.rename respell)⟩

namespace Check

def Event.rename : Event → Event
  | .entered depth => .entered depth
  | .left depth => .left depth
  | .declared symbol replaced =>
    .declared (symbol.rename respell) (replaced.map (Symbol.rename respell))
  | .misused fault => .misused fault
  | .checking function => .checking (respell function)
  | .read name => .read (respell name)
  | .assigned name => .assigned (respell name)
  | .reported diagnostic => .reported (diagnostic.rename respell)

def Outcome.rename (outcome : Outcome) : Outcome :=
  ⟨outcome.scopes.rename respell, outcome.journal.map (Event.rename respell), outcome.returned⟩

def Context.rename (context : Context) : Context := { context with name := respell context.name }

/-- The same task under other names. -/
def Task.rename : Task → Task
  | .var name ty => .var (respell name) ty
  | .bound name ty => .bound (respell name) ty
  | .param p => .param (p.rename respell)
  | .function f => .function (f.rename respell)
  | .checking name => .checking (respell name)
  | .assign step => .assign (step.rename respell)
  | .call callee args => .call (respell callee) (Expr.renameAll respell args)
  | .condition construct expr => .condition construct (expr.rename respell)
  | .container ty name array => .container ty (respell name) (respell array)
  | .ret context value =>
    .ret (context.map (Context.rename respell)) (value.map (Expr.rename respell))
  | .ending f returned => .ending (f.rename respell) returned

/-- Two checks of which the second does under other names what the first does. -/
def Mirrors (check renamed : ScopeStack → Outcome) : Prop :=
  ∀ scopes, renamed (scopes.rename respell) = (check scopes).rename respell

end Check

end Definitions

/-! ### Scopes under other names -/

section Scopes

variable {respell : String → String} (distinct : Function.Injective respell)

include distinct

theorem Frame.find?_rename (frame : Frame) (key : String) :
    (frame.rename respell).find? (respell key) = (frame.find? key).map (Symbol.rename respell) := by
  obtain ⟨entries⟩ := frame
  unfold Frame.find? Frame.rename
  induction entries with
  | nil => rfl
  | cons entry rest ih =>
    obtain ⟨held, symbol⟩ := entry
    simp only [List.map_cons, Prod.map_apply, List.lookup_cons]
    by_cases same : key = held
    · subst same
      simp
    · have different : respell key ≠ respell held := fun equal => same (distinct equal)
      rw [beq_false_of_ne same, beq_false_of_ne different]
      exact ih

theorem Frame.rename_insert (frame : Frame) (key : String) (symbol : Symbol) :
    (frame.insert key symbol).rename respell =
      (frame.rename respell).insert (respell key) (symbol.rename respell) := by
  obtain ⟨entries⟩ := frame
  unfold Frame.insert Frame.rename
  congr 1
  induction entries with
  | nil => rfl
  | cons entry rest ih =>
    obtain ⟨held, old⟩ := entry
    simp only [List.map_cons, Prod.map_apply, Association.insert, distinct.eq_iff]
    by_cases same : key = held
    · simp [same]
    · simp [same, ih]

namespace ScopeStack

theorem lookup_rename (scopes : ScopeStack) (key : String) :
    (scopes.rename respell).lookup (respell key) =
      (scopes.lookup key).map (Symbol.rename respell) := by
  obtain ⟨frames⟩ := scopes
  unfold lookup rename
  induction frames with
  | nil => rfl
  | cons frame frames ih =>
    simp only [List.map_cons, List.findSome?_cons, frame.find?_rename distinct]
    cases frame.find? key with
    | none => exact ih
    | some symbol => rfl

theorem holds_rename (scopes : ScopeStack) (key : String) :
    (scopes.rename respell).holds (respell key) = scopes.holds key := by
  obtain ⟨frames⟩ := scopes
  cases frames with
  | nil => rfl
  | cons frame frames => simp [holds, rename, frame.find?_rename distinct]

theorem markInitialized_rename (scopes : ScopeStack) (key : String) :
    (scopes.rename respell).markInitialized (respell key) =
      (scopes.markInitialized key).rename respell := by
  obtain ⟨frames⟩ := scopes
  unfold markInitialized rename
  congr 1
  induction frames with
  | nil => rfl
  | cons frame frames ih =>
    simp only [List.map_cons, markFrames, frame.find?_rename distinct]
    cases frame.find? key with
    | none => simp [ih]
    | some symbol =>
      simp only [Option.map_some, List.map_cons, frame.rename_insert distinct]
      rfl

end ScopeStack

end Scopes

/-! ### Expressions under other names -/

theorem Expr.length_renameAll (respell : String → String) (exprs : List Expr) :
    (Expr.renameAll respell exprs).length = exprs.length := by
  induction exprs with
  | nil => rfl
  | cons expr rest ih => simp [Expr.renameAll, ih]

@[simp] theorem Check.require_rename (respell : String → String) (holds : Bool)
    (diagnostic : Diagnostic) :
    (require holds diagnostic).map (Event.rename respell) =
      require holds (diagnostic.rename respell) := by
  cases holds <;> rfl

section Expressions

variable {respell : String → String}

mutual

theorem Expr.infer_rename (distinct : Function.Injective respell) (scopes : ScopeStack) :
    ∀ expr : Expr, (expr.rename respell).infer (scopes.rename respell) =
      ((expr.infer scopes).1, (expr.infer scopes).2.map (Event.rename respell))
  | .number _ => by simp [Expr.rename, Expr.infer]
  | .character _ => by simp [Expr.rename, Expr.infer, Diagnostic.rename]
  | .boolean _ => by simp [Expr.rename, Expr.infer]
  | .var name => by
    simp only [Expr.rename, Expr.infer, scopes.lookup_rename distinct]
    cases scopes.lookup name with
    | none => rfl
    | some symbol => simp [Event.rename, Diagnostic.rename, Symbol.rename]
  | .binary op left right => by
    simp [Expr.rename, Expr.infer, Expr.infer_rename distinct scopes left,
      Expr.infer_rename distinct scopes right]
  | .not operand => by
    simp [Expr.rename, Expr.infer, Expr.infer_rename distinct scopes operand, Diagnostic.rename]
  | .neg operand => by
    simp [Expr.rename, Expr.infer, Expr.infer_rename distinct scopes operand, Diagnostic.rename]
  | .call callee args => by
    simp only [Expr.rename, Expr.infer, scopes.lookup_rename distinct]
    cases scopes.lookup callee with
    | none => rfl
    | some symbol =>
      obtain ⟨name, kind, ty, initialized⟩ := symbol
      cases kind with
      | var => rfl
      | param => rfl
      | function params result =>
        simp only [Option.map_some, Symbol.rename, Expr.length_renameAll]
        by_cases arity : args.length = params.length
        · simp [arity, Expr.checkArgs_rename distinct scopes callee 1 params args]
        · simp [arity, Event.rename, Diagnostic.rename]

theorem Expr.checkArgs_rename (distinct : Function.Injective respell) (scopes : ScopeStack)
    (callee : String) : ∀ (position : Nat) (params : List Ty) (args : List Expr),
      Expr.checkArgs (scopes.rename respell) (respell callee) position params
          (Expr.renameAll respell args) =
        (Expr.checkArgs scopes callee position params args).map (Event.rename respell)
  | _, [], _ => by simp [Expr.checkArgs]
  | _, _ :: _, [] => by simp [Expr.checkArgs, Expr.renameAll]
  | position, expected :: params, arg :: args => by
    simp [Expr.checkArgs, Expr.renameAll, Expr.infer_rename distinct scopes arg, Diagnostic.rename,
      Expr.checkArgs_rename distinct scopes callee (position + 1) params args]

end

variable (distinct : Function.Injective respell) (scopes : ScopeStack)

include distinct

theorem Expr.checkCondition_rename (construct : Construct) (condition : Expr) :
    (condition.rename respell).checkCondition construct (scopes.rename respell) =
      (condition.checkCondition construct scopes).map (Event.rename respell) := by
  simp [Expr.checkCondition, condition.infer_rename distinct, Diagnostic.rename]

theorem checkContainer_rename (ty : Ty) (name container : String) :
    checkContainer ty (respell name) (respell container) (scopes.rename respell) =
      (checkContainer ty name container scopes).map (Event.rename respell) := by
  simp only [checkContainer, scopes.lookup_rename distinct]
  cases scopes.lookup container with
  | none => rfl
  | some symbol =>
    simp only [Option.map_some, Symbol.rename]
    cases symbol.ty.element? with
    | none => rfl
    | some element => simp [Diagnostic.rename]

theorem checkReturnValue_rename (context : Context) (value : Option Expr) :
    checkReturnValue (context.rename respell) (value.map (Expr.rename respell))
        (scopes.rename respell) =
      (checkReturnValue context value scopes).map (Event.rename respell) := by
  cases value with
  | none => simp [checkReturnValue, Context.rename, Diagnostic.rename]
  | some value =>
    simp [checkReturnValue, Context.rename, value.infer_rename distinct, Diagnostic.rename]

end Expressions

/-! ### Checks under other names -/

namespace Check.Mirrors

variable {respell : String → String} {check renamed next renamedNext : ScopeStack → Outcome}

theorem idle : Mirrors respell .idle .idle := fun _ => rfl

theorem noting {journal renamedJournal : ScopeStack → List Event}
    (same : ∀ scopes, renamedJournal (scopes.rename respell) =
      (journal scopes).map (Event.rename respell)) :
    Mirrors respell (fun scopes => .noting (journal scopes) scopes)
      (fun scopes => .noting (renamedJournal scopes) scopes) := by
  intro scopes
  simp [Outcome.noting, Outcome.rename, same]

theorem andThen (first : Mirrors respell check renamed)
    (second : Mirrors respell next renamedNext) :
    Mirrors respell (fun scopes => (check scopes).andThen next)
      (fun scopes => (renamed scopes).andThen renamedNext) := by
  intro scopes
  simp only [Outcome.andThen, first scopes]
  simp [Outcome.rename, second (check scopes).scopes]

theorem enter : Mirrors respell enter enter := by
  intro scopes
  simp [Check.enter, Outcome.rename, ScopeStack.rename, ScopeStack.enter, ScopeStack.depth,
    Event.rename, Frame.rename, Frame.empty]

theorem leave : Mirrors respell leave leave := by
  rintro ⟨frames⟩
  cases frames with
  | nil => rfl
  | cons frame frames =>
    simp [Check.leave, ScopeStack.leave, Outcome.rename, ScopeStack.rename, ScopeStack.depth,
      Event.rename]

theorem parallel : Parallel (Mirrors respell) where
  idle := idle
  andThen := andThen
  inScope body := enter.andThen (body.andThen leave)

section Declarations

variable (distinct : Function.Injective respell)

include distinct

theorem declare (symbol : Symbol) :
    Mirrors respell (declare symbol) (declare (symbol.rename respell)) := by
  rintro ⟨frames⟩
  cases frames with
  | nil => rfl
  | cons frame frames =>
    have found := frame.find?_rename distinct symbol.name
    have inserted := frame.rename_insert distinct symbol.name symbol
    simp only [Symbol.rename] at found inserted
    simp [Check.declare, ScopeStack.declare, ScopeStack.rename, Outcome.rename, Symbol.rename,
      Event.rename, found, inserted]

theorem declareNew (duplicate : Diagnostic) (symbol : Symbol) :
    Mirrors respell (declareNew duplicate symbol)
      (declareNew (duplicate.rename respell) (symbol.rename respell)) := by
  intro scopes
  have held : (scopes.rename respell).holds (symbol.rename respell).name =
      scopes.holds symbol.name := scopes.holds_rename distinct symbol.name
  unfold Check.declareNew
  rw [held]
  split
  · rfl
  · exact declare distinct symbol scopes

end Declarations

end Check.Mirrors

section Tasks

variable {respell : String → String} (distinct : Function.Injective respell)
  (entry : respell entryPoint = entryPoint)

include distinct

theorem Assign.mirrors (assign : Assign) :
    Mirrors respell assign.check (assign.rename respell).check := by
  intro scopes
  simp only [Assign.check, Assign.rename, scopes.lookup_rename distinct]
  cases scopes.lookup assign.target with
  | none => rfl
  | some symbol =>
    simp [assign.value.infer_rename distinct, scopes.markInitialized_rename distinct,
      Outcome.rename, Symbol.rename, Event.rename, Diagnostic.rename]

private theorem checkReturn_mirrors (context : Option Context) (value : Option Expr) :
    Mirrors respell (checkReturn context value)
      (checkReturn (context.map (Context.rename respell)) (value.map (Expr.rename respell))) := by
  intro scopes
  cases context with
  | none => rfl
  | some context =>
    simp [checkReturn, checkReturnValue_rename distinct, Outcome.rename]

include entry

/-- Only here does a name matter by itself, and that one is kept. -/
theorem checkReturned_rename (f : Function) (returned : Bool) :
    checkReturned (f.rename respell) returned =
      (checkReturned f returned).map (Event.rename respell) := by
  have same : (respell f.name == entryPoint) = (f.name == entryPoint) := by
    apply Bool.eq_iff_iff.mpr
    rw [beq_iff_eq, beq_iff_eq]
    constructor
    · intro renamed
      exact distinct (renamed.trans entry.symm)
    · intro main
      rw [main, entry]
  simp [checkReturned, Function.rename, same, Diagnostic.rename]

theorem Check.Task.mirrors (task : Task) :
    Mirrors respell task.check (task.rename respell).check := by
  cases task with
  | var name ty => exact .declareNew distinct (.duplicateVariable name) (.var name ty)
  | bound name ty => exact .declare distinct (.bound name ty)
  | param p => exact .declare distinct (.param p.name p.ty)
  | function f =>
    have tys : (f.rename respell).params.map Param.ty = f.params.map Param.ty := by
      simp [Function.rename, Param.rename]
    rw [Task.rename, Task.check, Task.check, tys]
    exact .declareNew distinct (.duplicateFunction f.name)
      (.function f.name (f.params.map Param.ty) f.result)
  | checking name => exact .noting fun _ => rfl
  | assign step => exact step.mirrors distinct
  | call callee args =>
    refine .noting fun scopes => ?_
    have same := (Expr.call callee args).infer_rename distinct scopes
    rw [Expr.rename] at same
    rw [same]
  | condition construct expr =>
    exact .noting fun scopes => expr.checkCondition_rename distinct scopes construct
  | container ty name array =>
    exact .noting fun scopes => checkContainer_rename distinct scopes ty name array
  | ret context value => exact checkReturn_mirrors distinct context value
  | ending f returned => exact .noting fun _ => checkReturned_rename distinct entry f returned

end Tasks

/-! ### Plans under other names -/

section Plans

variable (respell : String → String)

mutual

/-- The plan of a statement with other names is its plan with other names. -/
theorem Stmt.plan_rename (context : Option Context) : ∀ stmt : Stmt,
    (stmt.rename respell).plan (context.map (Context.rename respell)) =
      Plan.changeAll (Task.rename respell) (stmt.plan context)
  | .declare decl => by
    simp [Stmt.rename, Stmt.plan, VarDecl.rename, Task.rename, Function.comp_def]
  | .assign step => by simp [Stmt.rename, Stmt.plan, Plan.changeAll, Plan.change, Task.rename]
  | .call callee args => by
    simp [Stmt.rename, Stmt.plan, Plan.changeAll, Plan.change, Task.rename]
  | .ret value => by simp [Stmt.rename, Stmt.plan, Plan.changeAll, Plan.change, Task.rename]
  | .ifElse condition yes none => by
    simp [Stmt.rename, Stmt.plan, Plan.changeAll, Plan.change, Task.rename,
      Stmt.planAll_rename context yes]
  | .ifElse condition yes (some no) => by
    simp [Stmt.rename, Stmt.plan, Plan.changeAll, Plan.change, Task.rename,
      Stmt.planAll_rename context yes, Stmt.planAll_rename context no]
  | .whileDo condition body => by
    simp [Stmt.rename, Stmt.plan, Plan.changeAll, Plan.change, Task.rename,
      Stmt.planAll_rename context body]
  | .forDo start condition step body => by
    simp [Stmt.rename, Stmt.plan, Plan.changeAll, Plan.change, Task.rename, Function.comp_def,
      Option.toList_map, Stmt.planAll_rename context body]
  | .forEach ty name container body => by
    simp [Stmt.rename, Stmt.plan, Plan.changeAll, Plan.change, Task.rename,
      Stmt.planAll_rename context body]

theorem Stmt.planAll_rename (context : Option Context) : ∀ stmts : List Stmt,
    Stmt.planAll (context.map (Context.rename respell)) (Stmt.renameAll respell stmts) =
      Plan.changeAll (Task.rename respell) (Stmt.planAll context stmts)
  | [] => by simp [Stmt.renameAll, Stmt.planAll, Plan.changeAll]
  | stmt :: rest => by
    simp [Stmt.renameAll, Stmt.planAll, Stmt.plan_rename context stmt,
      Stmt.planAll_rename context rest]

end

theorem Function.bodyPlan_rename (f : Function) :
    (f.rename respell).bodyPlan = Plan.changeAll (Task.rename respell) f.bodyPlan := by
  have body : Stmt.planAll (some ⟨respell f.name, f.result⟩) (Stmt.renameAll respell f.body) = _ :=
    Stmt.planAll_rename respell (some ⟨f.name, f.result⟩) f.body
  simp [Function.bodyPlan, Function.rename, body, Task.rename, Function.comp_def]

theorem Function.plan_rename (f : Function) :
    (f.rename respell).plan = Plan.changeAll (Task.rename respell) f.plan := by
  have same : Task.returns ∘ Task.rename respell = Task.returns := by
    funext task
    cases task with
    | ret context value => cases context <;> rfl
    | _ => rfl
  have name : (f.rename respell).name = respell f.name := rfl
  -- The end of the body has a `retorne` behind it if it had one before.
  simp [Function.plan, Plan.changeAll, Plan.change, Task.rename, f.bodyPlan_rename,
    Plan.tasksAll_changeAll, same, name]

theorem Item.plan_rename (item : Item) :
    (item.rename respell).plan = Plan.changeAll (Task.rename respell) item.plan := by
  cases item with
  | declare decl => exact Stmt.plan_rename respell none (.declare decl)
  | function f => exact f.plan_rename respell

theorem Program.plan_rename (p : Program) :
    (p.rename respell).plan = p.plan.change (Task.rename respell) := by
  rw [Program.plan, Program.plan, Plan.change, Plan.changeAll_flatMap, Program.rename,
    List.flatMap_map]
  simp only [Item.plan_rename]

end Plans

/-- The journal of a program with other names is its journal with other names. -/
theorem Program.check_rename {respell : String → String} (distinct : Function.Injective respell)
    (entry : respell entryPoint = entryPoint) (p : Program) :
    (p.rename respell).check = p.check.rename respell := by
  have mirrors := Plan.related (Task.rename respell) Mirrors.parallel p.plan
    fun task _ => task.mirrors distinct entry
  rw [p.check_eq, Program.check_eq, p.plan_rename]
  exact mirrors .empty

theorem Check.diagnostics_rename (respell : String → String) (journal : List Event) :
    diagnostics (journal.map (Event.rename respell)) =
      (diagnostics journal).map (Diagnostic.rename respell) := by
  unfold diagnostics
  rw [List.filterMap_map, List.map_filterMap]
  congr 1
  funext event
  cases event <;> rfl

/-- If different names are changed to different names and the entry point keeps its own, the
diagnostics of a program are what they were, with the names in them changed. -/
theorem Program.diagnostics_respelled (respell : String → String)
    (distinct : Function.Injective respell) (entry : respell entryPoint = entryPoint)
    (p : Program) :
    (p.rename respell).diagnostics = p.diagnostics.map (Diagnostic.rename respell) := by
  unfold Program.diagnostics
  rw [p.check_rename distinct entry]
  exact Check.diagnostics_rename respell p.check.journal

/-- Different names stay different in C. -/
theorem C.ident_injective : Function.Injective C.ident := by
  have marked (name : String) : C.needsMark (name ++ "_") = true := by simp [C.needsMark]
  intro first second same
  unfold C.ident at same
  by_cases one : C.needsMark first = true
  · by_cases two : C.needsMark second = true
    · rw [if_pos one, if_pos two] at same
      exact (String.append_left_inj "_").mp same
    · rw [if_pos one, if_neg two] at same
      exact absurd (same ▸ marked first) two
  · by_cases two : C.needsMark second = true
    · rw [if_neg one, if_pos two] at same
      exact absurd (same ▸ marked second) one
    · rwa [if_neg one, if_neg two] at same

/-- A program with the names that it gets in C, where `int` is spelled `int_`. -/
theorem Program.diagnostics_respelled_ident :
    let p : Program := ⟨[.declare ⟨.number, ["int", "int_", "int"]⟩, .function ⟨"main", [], .number,
      [.assign ⟨"int", .boolean true⟩, .forEach .number "for" "int_" [], .call "main" [.var "x"]]⟩]⟩
    Function.Injective C.ident ∧ C.ident entryPoint = entryPoint ∧
    (p.rename C.ident).diagnostics =
      [.duplicateVariable "int_", .assignmentMismatch "int_" .number .boolean, .notAnArray "int__",
        .argumentCount "main" 0 1] := by
  intro p
  have entry : C.ident entryPoint = entryPoint := by decide
  refine ⟨C.ident_injective, entry, ?_⟩
  rw [p.diagnostics_respelled C.ident C.ident_injective entry]
  decide

end Caju
