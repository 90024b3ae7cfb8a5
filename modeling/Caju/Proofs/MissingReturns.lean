import Caju.Proofs.ForwardReferences

/-! Functions that promise a result and never return one. What the checker says about a
function comes in three stretches: its name, its body, and at the very end the missing
`retorne`, if there is none in any of its statements. -/

namespace Caju

open Check

/-- A function that has a result to give back and no `retorne` at any depth of its body. The
entry point is let off. -/
structure Function.LacksReturn (f : Function) : Prop where
  promises : f.result ≠ .void
  ordinary : f.name ≠ entryPoint
  never : ∀ value, Stmt.ret value ∉ Stmt.partsAll f.body

/-! ### A `retorne` at any depth -/

mutual

theorem Stmt.returns_iff : ∀ stmt : Stmt,
    stmt.returns = true ↔ ∃ value, Stmt.ret value ∈ stmt.parts
  | .declare _ => by simp [Stmt.returns, Stmt.parts]
  | .assign _ => by simp [Stmt.returns, Stmt.parts]
  | .call _ _ => by simp [Stmt.returns, Stmt.parts]
  | .ret value => by simp [Stmt.returns, Stmt.parts]
  | .ifElse _ yes none => by simp [Stmt.returns, Stmt.parts, Stmt.returnsAny_iff yes]
  | .ifElse _ yes (some no) => by
    simp [Stmt.returns, Stmt.parts, Stmt.returnsAny_iff yes, Stmt.returnsAny_iff no, exists_or]
  | .whileDo _ body => by simp [Stmt.returns, Stmt.parts, Stmt.returnsAny_iff body]
  | .forDo _ _ _ body => by simp [Stmt.returns, Stmt.parts, Stmt.returnsAny_iff body]
  | .forEach _ _ _ body => by simp [Stmt.returns, Stmt.parts, Stmt.returnsAny_iff body]

theorem Stmt.returnsAny_iff : ∀ stmts : List Stmt,
    Stmt.returnsAny stmts = true ↔ ∃ value, Stmt.ret value ∈ Stmt.partsAll stmts
  | [] => by simp [Stmt.returnsAny, Stmt.partsAll]
  | stmt :: rest => by
    simp [Stmt.returnsAny, Stmt.partsAll, Stmt.returns_iff stmt, Stmt.returnsAny_iff rest,
      exists_or]

end

/-- The test that the checker makes when it has come to the end of a body. -/
theorem Function.lacksReturn_iff (f : Function) :
    f.LacksReturn ↔
      (f.result.isVoid || Stmt.returnsAny f.body || f.name == entryPoint) = false := by
  have void : f.result.isVoid = false ↔ f.result ≠ .void := by cases f.result <;> simp [Ty.isVoid]
  have never : Stmt.returnsAny f.body = false ↔ ∀ value, Stmt.ret value ∉ Stmt.partsAll f.body := by
    rw [Bool.eq_false_iff, Ne, Stmt.returnsAny_iff, not_exists]
  rw [Bool.or_eq_false_iff, Bool.or_eq_false_iff, void, never, beq_eq_false_iff_ne]
  constructor
  · intro lacks
    exact ⟨⟨lacks.promises, lacks.never⟩, lacks.ordinary⟩
  · rintro ⟨⟨promises, never⟩, ordinary⟩
    exact ⟨promises, ordinary, never⟩

instance (f : Function) : Decidable f.LacksReturn := decidable_of_iff' _ f.lacksReturn_iff

/-! ### What is said about a body -/

/-- Whether a diagnostic may be about a statement inside a function. -/
def Diagnostic.isOfBody : Diagnostic → Bool
  | .duplicateFunction _ => false
  | .returnOutsideFunction => false
  | .missingReturn .. => false
  | _ => true

namespace Check

theorem ofBody_of_notes {journal : List Event} (notes : ∀ event ∈ journal, event.isNote = true) :
    ∀ diagnostic ∈ diagnostics journal, diagnostic.isOfBody = true := by
  intro diagnostic member
  obtain ⟨event, noted, reports⟩ := List.mem_filterMap.mp member
  have note := notes event noted
  cases event with
  | reported found =>
    cases Option.some.inj reports
    cases diagnostic <;> simp_all [Event.isNote, Diagnostic.isOfBody]
  | _ => cases reports

/-- Whether a task may be one of a statement inside a function. -/
def Task.isOfBody : Task → Bool
  | .param _ => false
  | .function _ => false
  | .checking _ => false
  | .ret none _ => false
  | .ending .. => false
  | _ => true

theorem Task.diagnostics_ofBody {task : Task} (own : task.isOfBody = true) (scopes : ScopeStack) :
    ∀ diagnostic ∈ diagnostics (task.check scopes).journal, diagnostic.isOfBody = true := by
  cases task with
  | var name ty =>
    rw [Task.check, diagnostics_declareNew]
    split <;> simp [Diagnostic.isOfBody]
  | bound name ty =>
    rw [Task.check, diagnostics_declare]
    exact List.forall_mem_nil _
  | assign step =>
    rw [Task.check]
    obtain refused | ⟨notes, noted, assigned⟩ := step.check_eq scopes
    · rw [refused]
      exact List.forall_mem_singleton.mpr rfl
    · rw [assigned, diagnostics_append]
      exact List.forall_mem_append.mpr ⟨ofBody_of_notes noted, List.forall_mem_nil _⟩
  | call callee args => exact ofBody_of_notes (Expr.infer_note scopes _)
  | condition construct expr => exact ofBody_of_notes (expr.checkCondition_note construct scopes)
  | container ty name array => exact ofBody_of_notes (checkContainer_note ty name array scopes)
  | ret context value =>
    cases context with
    | none => cases own
    | some context => exact ofBody_of_notes (checkReturnValue_note context value scopes)
  | _ => cases own

theorem Plan.diagnostics_ofBody {plans : List Plan}
    (own : ∀ task ∈ Plan.tasksAll plans, task.isOfBody = true) (scopes : ScopeStack) :
    ∀ diagnostic ∈ diagnostics (Plan.checkAll plans scopes).journal,
      diagnostic.isOfBody = true := by
  intro diagnostic reported
  obtain ⟨task, present, before, told⟩ := Plan.mem_diagnostics reported
  exact Task.diagnostics_ofBody (own task present) before diagnostic told

end Check

section Tasks

variable (context : Context)

mutual

theorem Stmt.plan_ofBody : ∀ stmt : Stmt,
    ∀ task ∈ Plan.tasksAll (stmt.plan (some context)), task.isOfBody = true
  | .declare _ => by simp [Stmt.plan, Task.isOfBody]
  | .assign _ => by simp [Stmt.plan, Plan.tasksAll, Plan.tasks, Task.isOfBody]
  | .call _ _ => by simp [Stmt.plan, Plan.tasksAll, Plan.tasks, Task.isOfBody]
  | .ret _ => by simp [Stmt.plan, Plan.tasksAll, Plan.tasks, Task.isOfBody]
  | .ifElse _ yes none => by
    simpa [Stmt.plan, Plan.tasksAll, Plan.tasks, Task.isOfBody] using Stmt.planAll_ofBody yes
  | .ifElse _ yes (some no) => by
    simpa [Stmt.plan, Plan.tasksAll, Plan.tasks, Task.isOfBody, or_imp, forall_and] using
      ⟨Stmt.planAll_ofBody yes, Stmt.planAll_ofBody no⟩
  | .whileDo _ body => by
    simpa [Stmt.plan, Plan.tasksAll, Plan.tasks, Task.isOfBody] using Stmt.planAll_ofBody body
  | .forDo _ _ _ body => by
    simpa [Stmt.plan, Plan.tasksAll, Plan.tasks, Task.isOfBody, or_imp, forall_and] using
      Stmt.planAll_ofBody body
  | .forEach _ _ _ body => by
    simpa [Stmt.plan, Plan.tasksAll, Plan.tasks, Task.isOfBody] using Stmt.planAll_ofBody body

theorem Stmt.planAll_ofBody : ∀ stmts : List Stmt,
    ∀ task ∈ Plan.tasksAll (Stmt.planAll (some context) stmts), task.isOfBody = true
  | [] => by simp [Stmt.planAll, Plan.tasksAll]
  | stmt :: rest => by
    rw [Stmt.planAll, Plan.tasksAll_append]
    exact List.forall_mem_append.mpr ⟨Stmt.plan_ofBody stmt, Stmt.planAll_ofBody rest⟩

end

end Tasks

theorem VarDecl.diagnostics_ofBody (decl : VarDecl) (scopes : ScopeStack) :
    ∀ diagnostic ∈ diagnostics (decl.check scopes).journal, diagnostic.isOfBody = true := by
  rw [decl.check_eq]
  exact Plan.diagnostics_ofBody (by simp [Task.isOfBody]) scopes

/-! ### What is said about a function -/

namespace Check

theorem sequence_silent {α : Type} {check : α → ScopeStack → Outcome}
    (each : ∀ x scopes, diagnostics (check x scopes).journal = []) (xs : List α)
    (scopes : ScopeStack) : diagnostics (sequence check xs scopes).journal = [] := by
  induction xs generalizing scopes with
  | nil => rfl
  | cons x rest ih => simp [sequence, Outcome.andThen, each, ih]

end Check

namespace Function

/-- What the checker finds wrong with the body of a function. -/
def bodyDiagnostics (f : Function) (scopes : ScopeStack) : List Diagnostic :=
  Check.diagnostics (Stmt.checkAll (some f.context) f.body (f.bodyScopes scopes)).journal

theorem checkBody_diagnostics (f : Function) (scopes : ScopeStack) :
    let bodyScopes :=
      (sequence (fun param => Check.declare (.param param.name param.ty)) f.params scopes).scopes
    Check.diagnostics (f.checkBody scopes).journal =
      Check.diagnostics (Stmt.checkAll (some f.context) f.body bodyScopes).journal ++
        if f.LacksReturn then [.missingReturn f.name f.result] else [] := by
  intro bodyScopes
  have silent := sequence_silent (fun param : Param => diagnostics_declare (.param param.name param.ty))
    f.params scopes
  have asked : Check.diagnostics (checkReturned f (Stmt.returnsAny f.body)) =
      if f.LacksReturn then [.missingReturn f.name f.result] else [] := by
    unfold checkReturned
    by_cases lacks : f.LacksReturn
    · rw [f.lacksReturn_iff.mp lacks, if_pos lacks]
      rfl
    · rw [Bool.of_not_eq_false (mt f.lacksReturn_iff.mpr lacks), if_neg lacks]
      rfl
  rw [f.checkBody_ending]
  simp only [Outcome.andThen, Outcome.noting, diagnostics_append, silent, List.nil_append, asked]
  rfl

/-- The diagnostics of a function: its name, its body, the missing `retorne`. -/
theorem check_diagnostics (f : Function) (scopes : ScopeStack) :
    Check.diagnostics (f.check scopes).journal =
      (if scopes.holds f.name then [.duplicateFunction f.name] else []) ++
        f.bodyDiagnostics scopes ++
        if f.LacksReturn then [.missingReturn f.name f.result] else [] := by
  have named : Check.diagnostics (declareNew (.duplicateFunction f.name)
      (.function f.name (f.params.map Param.ty) f.result) scopes).journal =
        if scopes.holds f.name then [.duplicateFunction f.name] else [] :=
    diagnostics_declareNew _ _ scopes
  have inside (scopes : ScopeStack) := diagnostics_inScope
    (f.checkBody_contained scopes.enter_opened)
  simp only [check, Outcome.andThen, Outcome.noting, diagnostics_append, named, inside,
    f.checkBody_diagnostics]
  simp [bodyDiagnostics, bodyScopes, Event.diagnostic?]

theorem bodyDiagnostics_ofBody (f : Function) (scopes : ScopeStack) :
    ∀ diagnostic ∈ f.bodyDiagnostics scopes, diagnostic.isOfBody = true := by
  rw [bodyDiagnostics, Stmt.checkAll_eq]
  exact Plan.diagnostics_ofBody (Stmt.planAll_ofBody f.context f.body) _

end Function

/-- The function that is said to lack a `retorne`, by its name and result. -/
def Diagnostic.missingReturn? : Diagnostic → Option (String × Ty)
  | .missingReturn name result => some (name, result)
  | _ => none

theorem Diagnostic.missingReturn?_of_isOfBody {diagnostics : List Diagnostic}
    (own : ∀ diagnostic ∈ diagnostics, diagnostic.isOfBody = true) :
    diagnostics.filterMap missingReturn? = [] := by
  refine List.filterMap_eq_nil_iff.mpr fun diagnostic member => ?_
  have ofBody := own diagnostic member
  cases diagnostic with
  | missingReturn name result => cases ofBody
  | _ => rfl

namespace Item

/-- The functions among items that lack a `retorne`. -/
theorem missingReturns (items : List Item) (scopes : ScopeStack) :
    (Check.diagnostics (sequence Item.check items scopes).journal).filterMap
        Diagnostic.missingReturn? =
      ((Program.functions ⟨items⟩).filter (·.LacksReturn)).map fun f => (f.name, f.result) := by
  induction items generalizing scopes with
  | nil => rfl
  | cons item rest ih =>
    rw [Check.sequence, Outcome.andThen, diagnostics_append, List.filterMap_append, ih]
    cases item with
    | declare decl =>
      have silent := Diagnostic.missingReturn?_of_isOfBody (decl.diagnostics_ofBody scopes)
      simp [Item.check, silent, Program.functions]
    | function f =>
      have silent := Diagnostic.missingReturn?_of_isOfBody (f.bodyDiagnostics_ofBody scopes)
      have named : (if scopes.holds f.name then [Diagnostic.duplicateFunction f.name]
          else []).filterMap Diagnostic.missingReturn? = [] := by
        split <;> rfl
      rw [Item.check, f.check_diagnostics, List.filterMap_append, List.filterMap_append, named,
        silent]
      by_cases lacks : f.LacksReturn
      · simp [Program.functions, lacks, Diagnostic.missingReturn?]
      · simp [Program.functions, lacks]

/-- Every `retorne` of items is inside a function. -/
theorem returns_inside (items : List Item) (scopes : ScopeStack) :
    Diagnostic.returnOutsideFunction ∉
      Check.diagnostics (sequence Item.check items scopes).journal := by
  induction items generalizing scopes with
  | nil => exact List.not_mem_nil
  | cons item rest ih =>
    rw [Check.sequence, Outcome.andThen, diagnostics_append, List.mem_append, not_or]
    refine ⟨fun member => ?_, ih _⟩
    cases item with
    | declare decl => exact absurd (decl.diagnostics_ofBody scopes _ member) (by decide)
    | function f =>
      rw [Item.check, f.check_diagnostics, List.mem_append, List.mem_append] at member
      rcases member with (named | inBody) | missing
      · split at named <;> simp at named
      · exact absurd (f.bodyDiagnostics_ofBody scopes _ inBody) (by decide)
      · split at missing <;> simp at missing

end Item

namespace Program

/-- Going on to one more function adds the diagnostics of that function. -/
theorem diagnostics_function (before : List Item) (f : Function) :
    Program.diagnostics ⟨before ++ [.function f]⟩ = Program.diagnostics ⟨before⟩ ++
      Check.diagnostics
        (f.check (sequence Item.check before ScopeStack.empty.enter).scopes).journal := by
  rw [diagnostics_eq, diagnostics_eq, sequence_append, Outcome.andThen, diagnostics_append]
  simp [Check.sequence, Item.check]

/-- Whether or not its name is taken, a function is said to lack a `retorne` exactly if it
promises a result, is not the entry point and has no `retorne` at any depth. This is said once,
with its own name and result, behind everything that is said about its body, and it is said
about no other function; no `retorne` is ever said to be outside of a function. -/
theorem missing_returns :
    (∀ (before : List Item) (f : Function) (after : List Item),
      let scopes := (sequence Item.check before ScopeStack.empty.enter).scopes
      let duplicate := if scopes.holds f.name then [Diagnostic.duplicateFunction f.name] else []
      let body := Check.diagnostics
        (Stmt.checkAll (some f.context) f.body (f.bodyScopes scopes)).journal
      let missing := if f.LacksReturn then [Diagnostic.missingReturn f.name f.result] else []
      Program.diagnostics ⟨before ++ [.function f]⟩ =
          Program.diagnostics ⟨before⟩ ++ (duplicate ++ body ++ missing) ∧
        (∀ name result, Diagnostic.missingReturn name result ∉ duplicate ++ body) ∧
        Program.diagnostics ⟨before ++ [.function f]⟩ <+:
          Program.diagnostics ⟨before ++ .function f :: after⟩) ∧
    ∀ p : Program,
      p.diagnostics.filterMap Diagnostic.missingReturn? =
          (p.functions.filter (·.LacksReturn)).map (fun f => (f.name, f.result)) ∧
        Diagnostic.returnOutsideFunction ∉ p.diagnostics := by
  refine ⟨fun before f after => ⟨?_, fun name result member => ?_, ?_⟩, fun p => ?_⟩
  · rw [diagnostics_function, f.check_diagnostics]
    rfl
  · rcases List.mem_append.mp member with named | inBody
    · split at named <;> simp at named
    · exact absurd (f.bodyDiagnostics_ofBody _ _ inBody) (by simp [Diagnostic.isOfBody])
  · have grown := diagnostics_grow (before ++ [.function f]) after
    rwa [List.append_assoc, List.singleton_append] at grown
  · rw [p.diagnostics_eq]
    exact ⟨Item.missingReturns p.items _, Item.returns_inside p.items _⟩

end Program

end Caju
