import Caju.Check.Program
import Mathlib.Data.List.Infix

/-! Checks as plans. All that the checker does is made up of tasks of a few sorts, done one after
another, some of them in scopes of their own. The plan of a statement, a function or a program says
which; carrying it out is the check (`Stmt.check_eq`, `Program.check_eq`). So whatever holds of the
tasks, and is kept when checks are put together, holds of every check (`Plan.lawfulAll`), and what
relates each task to another relates the checks made of them (`Plan.related`). A journal tells of
the tasks of its plan and of nothing else (`Plan.mem_journal`, `Plan.carries`). -/

namespace Caju

namespace Check

/-- What a check is made of. -/
inductive Task where
  | var (name : String) (ty : Ty)
  | bound (name : String) (ty : Ty)
  | param (p : Param)
  | function (f : Function)
  | checking (name : String)
  | assign (step : Assign)
  | call (callee : String) (args : List Expr)
  | condition (construct : Construct) (expr : Expr)
  | container (ty : Ty) (name array : String)
  | ret (context : Option Context) (value : Option Expr)
  | ending (f : Function) (returned : Bool)

theorem diagnostics_declare (symbol : Symbol) (scopes : ScopeStack) :
    diagnostics (declare symbol scopes).journal = [] := by
  unfold declare
  cases scopes.declare symbol.name symbol <;> rfl

theorem diagnostics_declareNew (duplicate : Diagnostic) (symbol : Symbol) (scopes : ScopeStack) :
    diagnostics (declareNew duplicate symbol scopes).journal =
      if scopes.holds symbol.name then [duplicate] else [] := by
  unfold declareNew
  split
  · rfl
  · exact diagnostics_declare symbol scopes

/-- Tasks in order, some of them in scopes of their own. -/
inductive Plan where
  | task (t : Task)
  | block (plans : List Plan)

namespace Task

def check : Task → ScopeStack → Outcome
  | .var name ty => declareNew (.duplicateVariable name) (.var name ty)
  | .bound name ty => declare (.bound name ty)
  | .param p => declare (.param p.name p.ty)
  | .function f =>
    declareNew (.duplicateFunction f.name) (.function f.name (f.params.map Param.ty) f.result)
  | .checking name => .noting [.checking name]
  | .assign step => step.check
  | .call callee args => fun scopes => .noting ((Expr.call callee args).infer scopes).2 scopes
  | .condition construct expr => fun scopes => .noting (expr.checkCondition construct scopes) scopes
  | .container ty name array => fun scopes => .noting (checkContainer ty name array scopes) scopes
  | .ret context value => checkReturn context value
  | .ending f returned => .noting (checkReturned f returned)

/-- Whether a task comes past a `retorne` of a function. -/
def returns : Task → Bool
  | .ret (some _) _ => true
  | _ => false

theorem check_returned (task : Task) (scopes : ScopeStack) :
    (task.check scopes).returned = task.returns := by
  have declared (symbol : Symbol) : (declare symbol scopes).returned = false := by
    unfold declare
    cases scopes.declare symbol.name symbol <;> rfl
  have declaredNew (duplicate : Diagnostic) (symbol : Symbol) :
      (declareNew duplicate symbol scopes).returned = false := by
    unfold declareNew
    split
    · rfl
    · exact declared symbol
  cases task with
  | var name ty => exact declaredNew _ _
  | function f => exact declaredNew _ _
  | bound name ty => exact declared _
  | param p => exact declared _
  | assign step =>
    simp only [check, returns, Assign.check]
    cases scopes.lookup step.target <;> rfl
  | ret context value => cases context <;> rfl
  | _ => rfl

end Task

namespace Plan

mutual

/-- Carries out a plan. -/
def check : Plan → ScopeStack → Outcome
  | .task t => t.check
  | .block plans => inScope (checkAll plans)

def checkAll : List Plan → ScopeStack → Outcome
  | [] => .idle
  | plan :: rest => fun scopes => (plan.check scopes).andThen (checkAll rest)

end

mutual

/-- The tasks of a plan, in scopes of their own or not. -/
def tasks : Plan → List Task
  | .task t => [t]
  | .block plans => tasksAll plans

def tasksAll : List Plan → List Task
  | [] => []
  | plan :: rest => plan.tasks ++ tasksAll rest

end

mutual

/-- A plan with other tasks. -/
def change (other : Task → Task) : Plan → Plan
  | .task t => .task (other t)
  | .block plans => .block (changeAll other plans)

def changeAll (other : Task → Task) : List Plan → List Plan
  | [] => []
  | plan :: rest => plan.change other :: changeAll other rest

end

/-- Tasks that are all done in the scope that is open. -/
def ofTasks (tasks : List Task) : List Plan := tasks.map .task

@[simp] theorem tasksAll_append (first second : List Plan) :
    tasksAll (first ++ second) = tasksAll first ++ tasksAll second := by
  induction first with
  | nil => rfl
  | cons plan rest ih => simp [tasksAll, ih]

theorem tasksAll_flatMap {α : Type} (plans : α → List Plan) (xs : List α) :
    tasksAll (xs.flatMap plans) = xs.flatMap fun x => tasksAll (plans x) := by
  induction xs with
  | nil => rfl
  | cons x rest ih => rw [List.flatMap_cons, tasksAll_append, ih, List.flatMap_cons]

@[simp] theorem tasksAll_ofTasks (tasks : List Task) : tasksAll (ofTasks tasks) = tasks := by
  induction tasks with
  | nil => rfl
  | cons task rest ih => exact congrArg (task :: ·) ih

@[simp] theorem changeAll_append (other : Task → Task) (first second : List Plan) :
    changeAll other (first ++ second) = changeAll other first ++ changeAll other second := by
  induction first with
  | nil => rfl
  | cons plan rest ih => simp [changeAll, ih]

@[simp] theorem changeAll_ofTasks (other : Task → Task) (tasks : List Task) :
    changeAll other (ofTasks tasks) = ofTasks (tasks.map other) := by
  induction tasks with
  | nil => rfl
  | cons task rest ih => exact congrArg (.task (other task) :: ·) ih

theorem changeAll_flatMap {α : Type} (other : Task → Task) (plans : α → List Plan) (xs : List α) :
    changeAll other (xs.flatMap plans) = xs.flatMap fun x => changeAll other (plans x) := by
  induction xs with
  | nil => rfl
  | cons x rest ih => rw [List.flatMap_cons, changeAll_append, ih, List.flatMap_cons]

mutual

theorem tasks_change (other : Task → Task) : ∀ plan : Plan,
    (plan.change other).tasks = plan.tasks.map other
  | .task _ => rfl
  | .block plans => tasksAll_changeAll other plans

theorem tasksAll_changeAll (other : Task → Task) : ∀ plans : List Plan,
    tasksAll (changeAll other plans) = (tasksAll plans).map other
  | [] => rfl
  | plan :: rest => by
    rw [changeAll, tasksAll, tasksAll, List.map_append, tasks_change other plan,
      tasksAll_changeAll other rest]

end

theorem checkAll_append (first second : List Plan) (scopes : ScopeStack) :
    checkAll (first ++ second) scopes = (checkAll first scopes).andThen (checkAll second) := by
  induction first generalizing scopes with
  | nil => simp [checkAll]
  | cons plan rest ih =>
    have step : checkAll (rest ++ second) =
        fun scopes => (checkAll rest scopes).andThen (checkAll second) := funext ih
    simp only [List.cons_append, checkAll, Outcome.andThen_assoc, step]

@[simp] theorem checkAll_singleton (plan : Plan) : checkAll [plan] = plan.check := by
  funext scopes
  simp [checkAll]

theorem checkAll_ofTasks (tasks : List Task) : checkAll (ofTasks tasks) = sequence Task.check tasks := by
  induction tasks with
  | nil => rfl
  | cons task rest ih =>
    funext scopes
    exact congrArg ((task.check scopes).andThen ·) ih

end Plan

/-! ### Closure -/

/-- A relation between checks that is kept when checks are put together in the same way. -/
structure Parallel (law : (ScopeStack → Outcome) → (ScopeStack → Outcome) → Prop) : Prop where
  idle : law .idle .idle
  andThen : ∀ {check next other another : ScopeStack → Outcome}, law check other →
    law next another →
    law (fun scopes => (check scopes).andThen next) (fun scopes => (other scopes).andThen another)
  inScope : ∀ {check other : ScopeStack → Outcome}, law check other →
    law (inScope check) (inScope other)

/-- A property of checks that is kept when checks are put together. -/
structure Lawful (law : (ScopeStack → Outcome) → Prop) : Prop where
  idle : law .idle
  andThen : ∀ {check next : ScopeStack → Outcome}, law check → law next →
    law fun scopes => (check scopes).andThen next
  inScope : ∀ {check : ScopeStack → Outcome}, law check → law (inScope check)

theorem Lawful.sequence {law : (ScopeStack → Outcome) → Prop} (lawful : Lawful law) {α : Type}
    {check : α → ScopeStack → Outcome} {xs : List α} (each : ∀ x ∈ xs, law (check x)) :
    law (sequence check xs) := by
  induction xs with
  | nil => exact lawful.idle
  | cons x rest ih =>
    obtain ⟨first, later⟩ := List.forall_mem_cons.mp each
    exact lawful.andThen first (ih later)

theorem Lawful.parallel {law : (ScopeStack → Outcome) → Prop} (lawful : Lawful law) :
    Parallel fun check _ => law check where
  idle := lawful.idle
  andThen := lawful.andThen
  inScope := lawful.inScope

namespace Plan

section Parallel

variable {law : (ScopeStack → Outcome) → (ScopeStack → Outcome) → Prop} (other : Task → Task)

mutual

/-- What relates each task of a plan to another relates the plan to one made of the others. -/
theorem related (parallel : Parallel law) : ∀ plan : Plan,
    (∀ task ∈ plan.tasks, law task.check (other task).check) →
    law plan.check (plan.change other).check
  | .task t, each => by
    rw [check, change, check]
    exact each t (List.mem_singleton_self t)
  | .block plans, each => by
    rw [check, change, check]
    exact parallel.inScope (relatedAll parallel plans each)

theorem relatedAll (parallel : Parallel law) : ∀ plans : List Plan,
    (∀ task ∈ tasksAll plans, law task.check (other task).check) →
    law (checkAll plans) (checkAll (changeAll other plans))
  | [], _ => by
    rw [changeAll, checkAll]
    exact parallel.idle
  | plan :: rest, each => by
    rw [changeAll, checkAll, checkAll]
    obtain ⟨first, later⟩ := List.forall_mem_append.mp each
    exact parallel.andThen (related parallel plan first) (relatedAll parallel rest later)

end

end Parallel

/-- What holds of every task of a plan holds of the plan. -/
theorem lawfulAll {law : (ScopeStack → Outcome) → Prop} (lawful : Lawful law) (plans : List Plan)
    (each : ∀ task ∈ tasksAll plans, law task.check) : law (checkAll plans) :=
  relatedAll id lawful.parallel plans each

end Plan

/-- Whether an event neither opens nor closes a scope, nor misuses the stack. -/
def Event.isQuiet : Event → Bool
  | .entered _ => false
  | .left _ => false
  | .misused _ => false
  | _ => true

theorem inScope_journal (body : ScopeStack → Outcome) (scopes : ScopeStack) :
    (inScope body scopes).journal = .entered scopes.enter.depth :: (body scopes.enter).journal ++
      (leave (body scopes.enter).scopes).journal := by
  simp [inScope, enter, Outcome.andThen]

theorem leave_unquiet (scopes : ScopeStack) :
    ∀ event ∈ (leave scopes).journal, event.isQuiet = false := by
  unfold leave
  cases scopes.leave <;> simp [Outcome.noting, Event.isQuiet]

/-- Telling of the stack of scopes, and otherwise of some of the tasks only. -/
theorem lawful_tells (tasks : List Task) :
    Lawful fun check => ∀ scopes, ∀ event ∈ (check scopes).journal, event.isQuiet = false ∨
      ∃ task ∈ tasks, ∃ before, event ∈ (task.check before).journal where
  idle _ := List.forall_mem_nil _
  andThen first second scopes := List.forall_mem_append.mpr ⟨first scopes, second _⟩
  inScope inside scopes := by
    rw [inScope_journal]
    refine List.forall_mem_append.mpr ⟨List.forall_mem_cons.mpr ⟨.inl rfl, inside _⟩, ?_⟩
    exact fun event member => .inl (leave_unquiet _ event member)

theorem inScope_returned (body : ScopeStack → Outcome) (scopes : ScopeStack) :
    (inScope body scopes).returned = (body scopes.enter).returned := by
  have closed (scopes : ScopeStack) : (leave scopes).returned = false := by
    unfold leave
    cases scopes.leave <;> rfl
  simp [inScope, Outcome.andThen, enter, closed]

namespace Plan

/-- A journal tells of nothing but the tasks of its plan and the stack of scopes. -/
theorem mem_journal {plans : List Plan} {scopes : ScopeStack} {event : Event}
    (member : event ∈ (checkAll plans scopes).journal) :
    event.isQuiet = false ∨
      ∃ task ∈ tasksAll plans, ∃ before, event ∈ (task.check before).journal :=
  lawfulAll (lawful_tells (tasksAll plans)) plans
    (fun task present before _ member => .inr ⟨task, present, before, member⟩) scopes event member

/-- What is found wrong in a plan is found wrong in one of its tasks. -/
theorem mem_diagnostics {plans : List Plan} {scopes : ScopeStack} {diagnostic : Diagnostic}
    (reported : diagnostic ∈ diagnostics (checkAll plans scopes).journal) :
    ∃ task ∈ tasksAll plans, ∃ before, diagnostic ∈ diagnostics (task.check before).journal := by
  obtain ⟨event, member, same⟩ := List.mem_filterMap.mp reported
  rcases mem_journal member with scope | ⟨task, present, before, told⟩
  · cases event <;> simp [Event.isQuiet, Event.diagnostic?] at scope same
  · exact ⟨task, present, before, List.mem_filterMap.mpr ⟨event, told, same⟩⟩

mutual

/-- The journal of every task of a plan is part of the plan's. -/
theorem carries {task : Task} : ∀ (plan : Plan) (scopes : ScopeStack), task ∈ plan.tasks →
    ∃ before, (task.check before).journal <:+: (plan.check scopes).journal
  | .task t, scopes, member => by
    obtain rfl : task = t := List.mem_singleton.mp member
    rw [check]
    exact ⟨scopes, List.infix_rfl⟩
  | .block plans, scopes, member => by
    obtain ⟨before, part⟩ := carriesAll plans scopes.enter member
    rw [check, inScope_journal]
    exact ⟨before, (part.trans (List.suffix_cons _ _).isInfix).trans (List.prefix_append _ _).isInfix⟩

theorem carriesAll {task : Task} : ∀ (plans : List Plan) (scopes : ScopeStack),
    task ∈ tasksAll plans →
    ∃ before, (task.check before).journal <:+: (checkAll plans scopes).journal
  | [], scopes, member => by cases member
  | plan :: rest, scopes, member => by
    rw [checkAll]
    rcases List.mem_append.mp member with first | later
    · obtain ⟨before, part⟩ := carries plan scopes first
      exact ⟨before, part.trans (List.prefix_append _ _).isInfix⟩
    · obtain ⟨before, part⟩ := carriesAll rest (plan.check scopes).scopes later
      exact ⟨before, part.trans (List.suffix_append _ _).isInfix⟩

end

mutual

/-- A check comes past a `retorne` exactly if there is one in its plan. -/
theorem check_returned : ∀ (plan : Plan) (scopes : ScopeStack),
    (plan.check scopes).returned = plan.tasks.any Task.returns
  | .task t, scopes => by
    rw [check, t.check_returned]
    simp [tasks]
  | .block plans, scopes => by
    rw [check, inScope_returned, tasks]
    exact checkAll_returned plans scopes.enter

theorem checkAll_returned : ∀ (plans : List Plan) (scopes : ScopeStack),
    (checkAll plans scopes).returned = (tasksAll plans).any Task.returns
  | [], _ => rfl
  | plan :: rest, scopes => by
    simp only [checkAll, Outcome.andThen, tasksAll, List.any_append, check_returned plan,
      checkAll_returned rest]

end

end Plan

theorem sequence_map {α β : Type} (check : β → ScopeStack → Outcome) (make : α → β) (xs : List α) :
    sequence check (xs.map make) = sequence (fun x => check (make x)) xs := by
  induction xs with
  | nil => rfl
  | cons x rest ih =>
    funext scopes
    exact congrArg ((check (make x) scopes).andThen ·) ih

end Check

open Check

/-! ### The plans of programs -/

mutual

/-- What is to be checked of a statement, of a function or outside of any. -/
def Stmt.plan (context : Option Context) : Stmt → List Plan
  | .declare decl => Plan.ofTasks (decl.names.map fun name => .var name decl.ty)
  | .assign step => [.task (.assign step)]
  | .call callee args => [.task (.call callee args)]
  | .ifElse condition yes none =>
    [.task (.condition .ifElse condition), .block (Stmt.planAll context yes)]
  | .ifElse condition yes (some no) =>
    [.task (.condition .ifElse condition), .block (Stmt.planAll context yes),
      .block (Stmt.planAll context no)]
  | .whileDo condition body =>
    [.task (.condition .whileDo condition), .block (Stmt.planAll context body)]
  | .forDo start condition step body =>
    [.block (Plan.ofTasks (start.map .assign ++ step.map .assign ++
      condition.toList.map (.condition .forDo) ++ step.map .assign) ++ Stmt.planAll context body)]
  | .forEach ty name container body =>
    [.block (Plan.ofTasks [.bound name ty, .container ty name container] ++
      Stmt.planAll context body)]
  | .ret value => [.task (.ret context value)]

def Stmt.planAll (context : Option Context) : List Stmt → List Plan
  | [] => []
  | stmt :: rest => stmt.plan context ++ Stmt.planAll context rest

end

namespace Function

/-- What is to be checked of the body of a function, up to its end. -/
def bodyPlan (f : Function) : List Plan :=
  Plan.ofTasks (f.params.map .param) ++ Stmt.planAll (some ⟨f.name, f.result⟩) f.body

def plan (f : Function) : List Plan :=
  [.task (.function f), .task (.checking f.name),
    .block (f.bodyPlan ++ [.task (.ending f ((Plan.tasksAll f.bodyPlan).any Task.returns))])]

end Function

theorem Function.plan_tasks (f : Function) :
    Plan.tasksAll f.plan = [.function f, .checking f.name] ++ f.params.map .param ++
      Plan.tasksAll (Stmt.planAll (some ⟨f.name, f.result⟩) f.body) ++
        [.ending f ((Plan.tasksAll f.bodyPlan).any Task.returns)] := by
  simp [Function.plan, Plan.tasksAll, Plan.tasks, Function.bodyPlan]

def Item.plan : Item → List Plan
  | .declare decl => Plan.ofTasks (decl.names.map fun name => .var name decl.ty)
  | .function f => f.plan

def Program.plan (p : Program) : Plan := .block (p.items.flatMap Item.plan)

theorem Program.mem_plan_tasks {p : Program} {task : Task} :
    task ∈ p.plan.tasks ↔ ∃ item ∈ p.items, task ∈ Plan.tasksAll item.plan := by
  rw [Program.plan, Plan.tasks, Plan.tasksAll_flatMap, List.mem_flatMap]

theorem VarDecl.check_eq (decl : VarDecl) :
    decl.check = Plan.checkAll (Plan.ofTasks (decl.names.map fun name => .var name decl.ty)) := by
  rw [Plan.checkAll_ofTasks, sequence_map]
  rfl

theorem checkLoop_eq (start : List Assign) (condition : Option Expr) (step : List Assign)
    (plans : List Plan) :
    checkLoop start condition step (Plan.checkAll plans) =
      Plan.checkAll (Plan.ofTasks (start.map .assign ++ step.map .assign ++
        condition.toList.map (.condition .forDo) ++ step.map .assign) ++ plans) := by
  have assigns (steps : List Assign) :
      sequence Task.check (steps.map .assign) = sequence Assign.check steps := sequence_map ..
  have looked : sequence Task.check (condition.toList.map (.condition .forDo)) = fun scopes =>
      .noting ((condition.map (Expr.checkCondition .forDo scopes)).getD []) scopes := by
    funext scopes
    cases condition with
    | none => rfl
    | some condition => exact Outcome.andThen_idle _
  funext scopes
  rw [Plan.checkAll_append, Plan.checkAll_ofTasks, sequence_append, sequence_append,
    sequence_append, assigns, assigns, looked]
  rfl

theorem checkEach_eq (ty : Ty) (name container : String) (plans : List Plan) :
    checkEach ty name container (Plan.checkAll plans) =
      Plan.checkAll (Plan.ofTasks [.bound name ty, .container ty name container] ++ plans) := by
  funext scopes
  exact Outcome.andThen_assoc ..

mutual

/-- Checking a statement is carrying out its plan. -/
theorem Stmt.check_eq (context : Option Context) : ∀ stmt : Stmt,
    stmt.check context = Plan.checkAll (stmt.plan context)
  | .declare decl => by
    funext scopes
    rw [Stmt.check, Stmt.plan, decl.check_eq]
  | .assign step => by
    funext scopes
    rw [Stmt.check, Stmt.plan, Plan.checkAll_singleton]
    rfl
  | .call callee args => by
    funext scopes
    rw [Stmt.check, Stmt.plan, Plan.checkAll_singleton]
    rfl
  | .ifElse condition yes none => by
    funext scopes
    rw [Stmt.check, Stmt.plan, Stmt.checkAll_eq context yes]
    simp only [Plan.checkAll, Plan.check, Task.check, Outcome.andThen_idle]
  | .ifElse condition yes (some no) => by
    funext scopes
    rw [Stmt.check, Stmt.plan, Stmt.checkAll_eq context yes, Stmt.checkAll_eq context no]
    simp only [Plan.checkAll, Plan.check, Task.check, Outcome.andThen_idle, Outcome.andThen_assoc]
  | .whileDo condition body => by
    funext scopes
    rw [Stmt.check, Stmt.plan, Stmt.checkAll_eq context body]
    simp only [Plan.checkAll, Plan.check, Task.check, Outcome.andThen_idle]
  | .forDo start condition step body => by
    funext scopes
    rw [Stmt.check, Stmt.plan, Stmt.checkAll_eq context body, Plan.checkAll_singleton, checkLoop_eq,
      Plan.check]
  | .forEach ty name container body => by
    funext scopes
    rw [Stmt.check, Stmt.plan, Stmt.checkAll_eq context body, Plan.checkAll_singleton, checkEach_eq,
      Plan.check]
  | .ret value => by
    funext scopes
    rw [Stmt.check, Stmt.plan, Plan.checkAll_singleton]
    rfl

theorem Stmt.checkAll_eq (context : Option Context) : ∀ stmts : List Stmt,
    Stmt.checkAll context stmts = Plan.checkAll (Stmt.planAll context stmts)
  | [] => by
    funext scopes
    rw [Stmt.checkAll, Stmt.planAll, Plan.checkAll]
  | stmt :: rest => by
    funext scopes
    rw [Stmt.checkAll, Stmt.planAll, Plan.checkAll_append, Stmt.check_eq context stmt,
      Stmt.checkAll_eq context rest]

end

theorem Function.bodyPlan_check (f : Function) (scopes : ScopeStack) :
    Plan.checkAll f.bodyPlan scopes =
      (sequence (fun param => declare (.param param.name param.ty)) f.params scopes).andThen
        (Stmt.checkAll (some ⟨f.name, f.result⟩) f.body) := by
  have params : sequence (fun param => declare (.param param.name param.ty)) f.params =
      Plan.checkAll (Plan.ofTasks (f.params.map .param)) := by
    rw [Plan.checkAll_ofTasks, sequence_map]
    rfl
  rw [params, Stmt.checkAll_eq, Function.bodyPlan, Plan.checkAll_append]

theorem Function.checkBody_eq (f : Function) :
    f.checkBody = Plan.checkAll (f.bodyPlan ++
      [.task (.ending f ((Plan.tasksAll f.bodyPlan).any Task.returns))]) := by
  funext scopes
  rw [Function.checkBody, ← f.bodyPlan_check, Plan.checkAll_append, Plan.checkAll_singleton,
    Plan.checkAll_returned]
  rfl

theorem Function.check_eq (f : Function) : f.check = Plan.checkAll f.plan := by
  funext scopes
  rw [Function.check, f.checkBody_eq, Function.plan]
  simp only [Plan.checkAll, Plan.check, Task.check, Outcome.andThen_idle, Outcome.andThen_assoc]

theorem Item.check_eq (item : Item) : item.check = Plan.checkAll item.plan := by
  cases item with
  | declare decl => exact decl.check_eq
  | function f => exact f.check_eq

theorem items_eq (items : List Item) :
    sequence Item.check items = Plan.checkAll (items.flatMap Item.plan) := by
  induction items with
  | nil => rfl
  | cons item rest ih =>
    funext scopes
    rw [Check.sequence, ih, item.check_eq, List.flatMap_cons, Plan.checkAll_append]

/-- Checking a program is carrying out its plan. -/
theorem Program.check_eq (p : Program) : p.check = p.plan.check .empty := by
  rw [Program.check, items_eq, Program.plan, Plan.check]

/-- The journal of a program tells of nothing but the tasks of its items and the stack of
scopes. -/
theorem Program.mem_journal {p : Program} {event : Event} (member : event ∈ p.check.journal) :
    event.isQuiet = false ∨ ∃ task ∈ p.plan.tasks, ∃ scopes, event ∈ (task.check scopes).journal := by
  rw [p.check_eq, ← Plan.checkAll_singleton] at member
  simpa [Plan.tasksAll] using Plan.mem_journal member

theorem Program.mem_diagnostics {p : Program} {diagnostic : Diagnostic}
    (reported : diagnostic ∈ p.diagnostics) :
    ∃ task ∈ p.plan.tasks, ∃ scopes, diagnostic ∈ Check.diagnostics (task.check scopes).journal := by
  rw [Program.diagnostics, p.check_eq, ← Plan.checkAll_singleton] at reported
  simpa [Plan.tasksAll] using Plan.mem_diagnostics reported

/-- A program without diagnostics has none in any of its tasks. -/
theorem Program.task_clean {p : Program} (clean : p.diagnostics = []) {task : Task}
    (present : task ∈ p.plan.tasks) :
    ∃ scopes, Check.diagnostics (task.check scopes).journal = [] := by
  obtain ⟨scopes, part⟩ := Plan.carries p.plan .empty present
  rw [← p.check_eq] at part
  refine ⟨scopes, List.eq_nil_iff_forall_not_mem.mpr fun diagnostic reported => ?_⟩
  have whole : diagnostic ∈ p.diagnostics := (part.filterMap Event.diagnostic?).subset reported
  rw [clean] at whole
  exact List.not_mem_nil whole

end Caju
