import Caju.Proofs.Acceptance
import Caju.Proofs.Declarations
import Caju.Proofs.EarlyReads

/-! What comes later in a program cannot help what comes before. Checking some items is the
beginning of checking them and others, so nothing that was found is lost or changed; and a name
that is declared nowhere so far is missing, whatever follows. It is reported unless the checker
never gets to it: the arguments of a call that cannot be made are passed over, and so is what is
assigned to an unknown name. Then that is reported in its place. -/

namespace Caju

open Check

/-! ### References and what stands before them -/

/-- A name that is used, for its value or to be called. -/
inductive Reference where
  | value (name : String)
  | callee (name : String)
  deriving DecidableEq

def Reference.name : Reference → String
  | .value name => name
  | .callee name => name

/-- What is reported of a reference to a name that is not declared. -/
def Reference.undeclared : Reference → Diagnostic
  | .value name => .undeclaredVariable name
  | .callee name => .undeclaredFunction name

/-- Something that must be in order before the checker looks at what it holds. -/
inductive Hurdle where
  | call (callee : String) (arguments : Nat)
  | assignment (target : String)
  deriving DecidableEq

/-- A reference, with the hurdles before it, outermost first. -/
structure Use where
  reference : Reference
  hurdles : List Hurdle
  deriving DecidableEq

def Use.name (use : Use) : String := use.reference.name

def Use.behind (hurdle : Hurdle) (use : Use) : Use := { use with hurdles := hurdle :: use.hurdles }

mutual

/-- The references in an expression. -/
def Expr.uses : Expr → List Use
  | .number _ => []
  | .character _ => []
  | .boolean _ => []
  | .var name => [⟨.value name, []⟩]
  | .binary _ left right => left.uses ++ right.uses
  | .not operand => operand.uses
  | .neg operand => operand.uses
  | .call callee args =>
    ⟨.callee callee, []⟩ :: (Expr.usesAll args).map (Use.behind (.call callee args.length))

def Expr.usesAll : List Expr → List Use
  | [] => []
  | arg :: args => arg.uses ++ Expr.usesAll args

end

/-- The references that a statement makes itself, those of the statements inside it apart. A
`para cada` over its own variable refers to nothing else. -/
def Stmt.uses : Stmt → List Use
  | .declare _ => []
  | .assign step =>
    ⟨.value step.target, []⟩ :: step.value.uses.map (Use.behind (.assignment step.target))
  | .call callee args => (Expr.call callee args).uses
  | .ifElse condition _ _ => condition.uses
  | .whileDo condition _ => condition.uses
  | .forDo _ condition _ _ => (condition.map Expr.uses).getD []
  | .forEach _ name container _ => if container = name then [] else [⟨.value container, []⟩]
  | .ret value => (value.map Expr.uses).getD []

/-- What sort of thing a name stands for. -/
def ScopeStack.kind? (scopes : ScopeStack) (name : String) : Option SymbolKind :=
  (scopes.lookup name).map Symbol.kind

/-- What is reported of a hurdle that is not in order. -/
def Hurdle.fault? (scopes : ScopeStack) : Hurdle → Option Diagnostic
  | .call callee arguments =>
    match scopes.kind? callee with
    | none => some (.undeclaredFunction callee)
    | some (.function params _) =>
      if arguments = params.length then none
      else some (.argumentCount callee params.length arguments)
    | some _ => some (.notAFunction callee)
  | .assignment target =>
    match scopes.kind? target with
    | none => some (.undeclaredVariable target)
    | some _ => none

namespace Use

/-- What is reported of a reference to a name that is not declared: the first hurdle before it
that is not in order, or else the reference. -/
def report (scopes : ScopeStack) (use : Use) : Diagnostic :=
  (use.hurdles.findSome? (Hurdle.fault? scopes)).getD use.reference.undeclared

variable {scopes : ScopeStack} {hurdle : Hurdle} {use : Use}

theorem report_behind_fault {fault : Diagnostic} (stops : hurdle.fault? scopes = some fault) :
    (use.behind hurdle).report scopes = fault := by
  simp [report, behind, stops]

theorem report_behind_passed (passes : hurdle.fault? scopes = none) :
    (use.behind hurdle).report scopes = use.report scopes := by
  simp [report, behind, passes]

end Use

/-! ### The checker reports them -/

theorem ScopeStack.kind?_eq_none {scopes : ScopeStack} {name : String} :
    scopes.kind? name = none ↔ scopes.lookup name = none :=
  Option.map_eq_none_iff

namespace Check

/-- A journal that reports every one of the uses whose name is not declared. -/
def Reports (scopes : ScopeStack) (journal : List Event) (uses : List Use) : Prop :=
  ∀ use ∈ uses, scopes.kind? use.name = none → Event.reported (use.report scopes) ∈ journal

namespace Reports

variable {scopes : ScopeStack} {journal later : List Event} {uses others : List Use}

theorem none : Reports scopes journal [] := by simp [Reports]

theorem append (early : Reports scopes journal uses) (late : Reports scopes later others) :
    Reports scopes (journal ++ later) (uses ++ others) := by
  intro use member missing
  rcases List.mem_append.mp member with first | second
  · exact List.mem_append_left _ (early use first missing)
  · exact List.mem_append_right _ (late use second missing)

theorem within (reports : Reports scopes journal uses) (kept : journal ⊆ later) :
    Reports scopes later uses :=
  fun use member missing => kept (reports use member missing)

/-- A use that no hurdle stands before is reported itself. -/
theorem single {reference : Reference}
    (reported : scopes.kind? reference.name = Option.none →
      Event.reported reference.undeclared ∈ journal) :
    Reports scopes journal [⟨reference, []⟩] :=
  List.forall_mem_singleton.mpr reported

theorem cons {use : Use} (first : Reports scopes journal [use])
    (rest : Reports scopes journal uses) : Reports scopes journal (use :: uses) :=
  List.forall_mem_cons.mpr ⟨first use (List.mem_singleton_self use), rest⟩

/-- A hurdle that is not in order is reported in place of what stands behind it. -/
theorem behind_fault {hurdle : Hurdle} {fault : Diagnostic}
    (stops : hurdle.fault? scopes = some fault) (reported : Event.reported fault ∈ journal) :
    Reports scopes journal (uses.map (Use.behind hurdle)) := by
  intro use member _
  obtain ⟨inner, _, rfl⟩ := List.mem_map.mp member
  rw [Use.report_behind_fault stops]
  exact reported

theorem behind_passed {hurdle : Hurdle} (passes : hurdle.fault? scopes = Option.none)
    (reports : Reports scopes journal uses) :
    Reports scopes journal (uses.map (Use.behind hurdle)) := by
  intro use member missing
  obtain ⟨inner, among, rfl⟩ := List.mem_map.mp member
  rw [Use.report_behind_passed passes]
  exact reports inner among missing

/-- Only the sort of thing that names stand for matters. -/
theorem of_kinds {before : ScopeStack} (same : before.kind? = scopes.kind?)
    (reports : Reports scopes journal uses) : Reports before journal uses := by
  have faults : Hurdle.fault? before = Hurdle.fault? scopes := by
    funext hurdle
    cases hurdle <;> simp only [Hurdle.fault?, same]
  intro use member missing
  have reported := reports use member (same ▸ missing)
  rwa [Use.report, ← faults] at reported

end Reports

end Check

section Expressions

variable (scopes : ScopeStack)

mutual

theorem Expr.infer_reports : ∀ expr : Expr, Reports scopes (expr.infer scopes).2 expr.uses
  | .number _ => by
    rw [Expr.uses]
    exact .none
  | .character _ => by
    rw [Expr.uses]
    exact .none
  | .boolean _ => by
    rw [Expr.uses]
    exact .none
  | .var name => by
    rw [Expr.uses]
    refine .single fun missing => ?_
    have absent := ScopeStack.kind?_eq_none.mp missing
    rw [Reference.name] at absent
    simp [Expr.infer, absent, Reference.undeclared]
  | .binary op left right => by
    rw [Expr.uses, Expr.infer]
    exact (Expr.infer_reports left).append (Expr.infer_reports right)
  | .not operand => by
    rw [Expr.uses, Expr.infer]
    exact (Expr.infer_reports operand).within (List.subset_append_left _ _)
  | .neg operand => by
    rw [Expr.uses, Expr.infer]
    exact (Expr.infer_reports operand).within (List.subset_append_left _ _)
  | .call callee args => by
    rw [Expr.uses, Expr.infer]
    cases found : scopes.lookup callee with
    | none =>
      have fault : (Hurdle.call callee args.length).fault? scopes =
          some (.undeclaredFunction callee) := by
        simp [Hurdle.fault?, ScopeStack.kind?, found]
      exact .cons (.single fun _ => List.mem_singleton_self _)
        (.behind_fault fault (List.mem_singleton_self _))
    | some symbol =>
      have known : scopes.kind? callee = some symbol.kind := by simp [ScopeStack.kind?, found]
      refine .cons (.single fun missing => ?_) ?_
      · rw [Reference.name, known] at missing
        simp at missing
      · cases kind : symbol.kind with
        | function params result =>
          by_cases fits : args.length = params.length
          · have passes : (Hurdle.call callee args.length).fault? scopes = none := by
              simp [Hurdle.fault?, known, kind, fits]
            simp only [kind, fits, if_true]
            rw [fits] at passes
            exact .behind_passed passes (Expr.checkArgs_reports callee 1 params args fits)
          · have fault : (Hurdle.call callee args.length).fault? scopes =
                some (.argumentCount callee params.length args.length) := by
              simp [Hurdle.fault?, known, kind, fits]
            simp only [kind, fits, if_false]
            exact .behind_fault fault (List.mem_singleton_self _)
        | _ =>
          have fault : (Hurdle.call callee args.length).fault? scopes =
              some (.notAFunction callee) := by
            simp [Hurdle.fault?, known, kind]
          simp only [kind]
          exact .behind_fault fault (List.mem_singleton_self _)

theorem Expr.checkArgs_reports (callee : String) : ∀ (position : Nat) (params : List Ty)
    (args : List Expr), args.length = params.length →
    Reports scopes (Expr.checkArgs scopes callee position params args) (Expr.usesAll args)
  | _, _, [], _ => by
    rw [Expr.usesAll]
    exact .none
  | _, [], _ :: _, fits => by simp at fits
  | position, expected :: params, arg :: args, fits => by
    rw [Expr.usesAll, Expr.checkArgs]
    have rest := Expr.checkArgs_reports callee (position + 1) params args (Nat.succ.inj fits)
    exact ((Expr.infer_reports arg).within (List.subset_append_left _ _)).append rest

end

theorem Expr.checkCondition_reports (construct : Construct) (condition : Expr) :
    Reports scopes (condition.checkCondition construct scopes) condition.uses :=
  (Expr.infer_reports scopes condition).within (List.subset_append_left _ _)

end Expressions

/-- Assignments do not change what names stand for. -/
theorem Assign.check_kinds (step : Assign) (scopes : ScopeStack) :
    (step.check scopes).scopes.kind? = scopes.kind? := by
  unfold Assign.check
  cases found : scopes.lookup step.target with
  | none => rfl
  | some symbol =>
    funext name
    by_cases same : name = step.target
    · simp [ScopeStack.kind?, ScopeStack.lookup_markInitialized, same, found]
    · simp [ScopeStack.kind?, ScopeStack.lookup_markInitialized, same]

theorem Check.assigns_kinds (steps : List Assign) (scopes : ScopeStack) :
    (sequence Assign.check steps scopes).scopes.kind? = scopes.kind? := by
  induction steps generalizing scopes with
  | nil => rfl
  | cons step rest ih => exact (ih _).trans (step.check_kinds scopes)

namespace Check

namespace Reports

variable {scopes before : ScopeStack} {outcome : Outcome} {next body : ScopeStack → Outcome}
  {uses : List Use}

theorem first (reports : Reports scopes outcome.journal uses) :
    Reports scopes (outcome.andThen next).journal uses :=
  reports.within (List.subset_append_left _ _)

theorem second (reports : Reports scopes (next outcome.scopes).journal uses) :
    Reports scopes (outcome.andThen next).journal uses :=
  reports.within (List.subset_append_right _ _)

theorem inScope (reports : Reports scopes (body before.enter).journal uses) :
    Reports scopes (inScope body before).journal uses :=
  second (first reports)

end Reports

/-- The condition of a `para` is looked at after its assignments. -/
theorem checkLoop_reports (start : List Assign) (condition : Option Expr) (step : List Assign)
    (body : ScopeStack → Outcome) (scopes : ScopeStack) :
    Reports scopes (checkLoop start condition step body scopes).journal
      ((condition.map Expr.uses).getD []) := by
  cases condition with
  | none => exact .none
  | some condition =>
    let once := (sequence Assign.check start scopes).andThen (sequence Assign.check step)
    have same : scopes.kind? = once.scopes.kind? := by
      have stepped : once.scopes.kind? = (sequence Assign.check start scopes).scopes.kind? :=
        assigns_kinds step _
      rw [stepped, assigns_kinds]
    have noted := Reports.of_kinds same (condition.checkCondition_reports once.scopes .forDo)
    exact Reports.first (Reports.first (Reports.second noted))

/-- The container of a `para cada` is looked for once the variable is declared. -/
theorem checkEach_reports (ty : Ty) (name container : String) (body : ScopeStack → Outcome)
    (frame : Frame) (frames : List Frame) :
    Reports ⟨frame :: frames⟩ (checkEach ty name container body ⟨frame :: frames⟩).journal
      (if container = name then [] else [⟨.value container, []⟩]) := by
  by_cases itself : container = name
  · rw [if_pos itself]
    exact .none
  · rw [if_neg itself]
    let bound := Check.declare (.bound name ty) ⟨frame :: frames⟩
    refine Reports.first (Reports.second (.single fun missing => ?_))
    have absent : bound.scopes.lookup container = none := by
      have outer := ScopeStack.kind?_eq_none.mp missing
      have declared : (⟨frame :: frames⟩ : ScopeStack).declare name (.bound name ty) =
        .ok (frame.find? name, bound.scopes) := rfl
      rw [ScopeStack.lookup_declare declared, if_neg itself]
      exact outer
    show Event.reported (.undeclaredVariable container) ∈
      checkContainer ty name container bound.scopes
    simp [checkContainer, absent]

end Check

/-- At a statement, what it refers to and is not declared is reported. -/
theorem Stmt.check_reports (context : Context) (stmt : Stmt) (scopes : ScopeStack) :
    Reports scopes (stmt.check (some context) scopes).journal stmt.uses := by
  cases stmt with
  | declare decl => exact .none
  | assign step =>
    rw [Stmt.check, Stmt.uses, Assign.check]
    cases found : scopes.lookup step.target with
    | none =>
      have fault : (Hurdle.assignment step.target).fault? scopes =
          some (.undeclaredVariable step.target) := by
        simp [Hurdle.fault?, ScopeStack.kind?, found]
      exact .cons (.single fun _ => List.mem_singleton_self _)
        (.behind_fault fault (List.mem_singleton_self _))
    | some symbol =>
      have known : scopes.kind? step.target = some symbol.kind := by simp [ScopeStack.kind?, found]
      have passes : (Hurdle.assignment step.target).fault? scopes = none := by
        simp [Hurdle.fault?, known]
      refine .cons (.single fun missing => ?_) (.behind_passed passes ?_)
      · rw [Reference.name, known] at missing
        simp at missing
      · refine (step.value.infer_reports scopes).within ?_
        exact List.Subset.trans (List.subset_append_left _ _) (List.subset_append_left _ _)
  | call callee args =>
    rw [Stmt.check, Stmt.uses]
    exact Expr.infer_reports scopes _
  | ifElse condition yes no =>
    have noted := condition.checkCondition_reports scopes .ifElse
    cases no with
    | none =>
      rw [Stmt.check, Stmt.uses]
      exact .first noted
    | some no =>
      rw [Stmt.check, Stmt.uses]
      exact .first (.first noted)
  | whileDo condition body =>
    rw [Stmt.check, Stmt.uses]
    exact .first (condition.checkCondition_reports scopes .whileDo)
  | forDo start condition step body =>
    rw [Stmt.check, Stmt.uses]
    have inside := checkLoop_reports start condition step (Stmt.checkAll (some context) body)
      scopes.enter
    exact Reports.of_kinds rfl inside.inScope
  | forEach ty name container body =>
    rw [Stmt.check, Stmt.uses]
    have inside := checkEach_reports ty name container (Stmt.checkAll (some context) body) .empty
      scopes.frames
    exact Reports.of_kinds rfl inside.inScope
  | ret value =>
    rw [Stmt.check, Stmt.uses]
    cases value with
    | none => exact .none
    | some value => exact (value.infer_reports scopes).within (List.subset_append_left _ _)

/-! ### Names that are declared nowhere -/

namespace Check

/-- The symbols that a task declares. -/
def Task.symbols : Task → List Symbol
  | .var name ty => [.var name ty]
  | .bound name ty => [.bound name ty]
  | .param p => [p.symbol]
  | .function f => [f.symbol]
  | _ => []

theorem eq_of_declared {symbol other : Symbol} {replaced : Option Symbol} {scopes : ScopeStack}
    (declared : Event.declared other replaced ∈ (declare symbol scopes).journal) :
    other = symbol := by
  unfold declare at declared
  cases made : scopes.declare symbol.name symbol <;> simp_all [Outcome.noting]

theorem eq_of_declaredNew {duplicate : Diagnostic} {symbol other : Symbol}
    {replaced : Option Symbol} {scopes : ScopeStack}
    (declared : Event.declared other replaced ∈ (declareNew duplicate symbol scopes).journal) :
    other = symbol := by
  unfold declareNew at declared
  split at declared
  · simp [Outcome.noting] at declared
  · exact eq_of_declared declared

theorem not_declared_of_notes {journal : List Event}
    (notes : ∀ event ∈ journal, event.isNote = true) (symbol : Symbol) (replaced : Option Symbol) :
    Event.declared symbol replaced ∉ journal := by
  intro member
  simpa [Event.isNote] using notes _ member

/-- What is declared in the course of a task is a symbol of it. -/
theorem Task.declares {task : Task} {scopes : ScopeStack} {symbol : Symbol}
    {replaced : Option Symbol}
    (declared : Event.declared symbol replaced ∈ (task.check scopes).journal) :
    symbol ∈ task.symbols := by
  cases task with
  | var name ty => exact List.mem_singleton.mpr (eq_of_declaredNew declared)
  | function f => exact List.mem_singleton.mpr (eq_of_declaredNew declared)
  | bound name ty => exact List.mem_singleton.mpr (eq_of_declared declared)
  | param p => exact List.mem_singleton.mpr (eq_of_declared declared)
  | checking name => simp [Task.check, Outcome.noting] at declared
  | assign step =>
    rw [Task.check] at declared
    obtain refused | ⟨notes, noted, assigned⟩ := step.check_eq scopes
    · simp [refused, Outcome.noting] at declared
    · rw [assigned] at declared
      rcases List.mem_append.mp declared with early | last
      · exact absurd early (not_declared_of_notes noted symbol replaced)
      · simp at last
  | call callee args =>
    exact absurd declared (not_declared_of_notes (Expr.infer_note scopes _) symbol replaced)
  | condition construct expr =>
    have notes := expr.checkCondition_note construct scopes
    exact absurd declared (not_declared_of_notes notes symbol replaced)
  | container ty name array =>
    have notes := checkContainer_note ty name array scopes
    exact absurd declared (not_declared_of_notes notes symbol replaced)
  | ret context value =>
    cases context with
    | none => simp [Task.check, checkReturn, Outcome.noting] at declared
    | some context =>
      have notes := checkReturnValue_note context value scopes
      exact absurd declared (not_declared_of_notes notes symbol replaced)
  | ending f returned => cases eq_of_mem_require declared

end Check

/-- The symbols that blocks declare. -/
def Block.allSymbols (blocks : List Block) : List Symbol := blocks.flatMap Block.declarations

theorem Block.allSymbols_append (first second : List Block) :
    allSymbols (first ++ second) = allSymbols first ++ allSymbols second :=
  List.flatMap_append

theorem Block.allSymbols_singleton (block : Block) :
    allSymbols [block] = block.bound ++ block.declared :=
  List.flatMap_singleton Block.declarations block

section Symbols

variable (context : Option Context)

mutual

/-- The symbols of the tasks of a statement are declared in it or in a block of it. -/
theorem Stmt.plan_symbols : ∀ stmt : Stmt, ∀ task ∈ Plan.tasksAll (stmt.plan context),
    ∀ symbol ∈ task.symbols, symbol ∈ stmt.symbols ++ Block.allSymbols stmt.blocks
  | .declare decl => by
    simp only [Stmt.plan, Plan.tasksAll_ofTasks, List.forall_mem_map, Task.symbols,
      List.forall_mem_singleton]
    exact fun name member => List.mem_append_left _ (List.mem_map_of_mem member)
  | .assign step => by simp [Stmt.plan, Plan.tasksAll, Plan.tasks, Task.symbols]
  | .call callee args => by simp [Stmt.plan, Plan.tasksAll, Plan.tasks, Task.symbols]
  | .ret value => by simp [Stmt.plan, Plan.tasksAll, Plan.tasks, Task.symbols]
  | .ifElse condition yes none => by
    have inside := Stmt.planAll_symbols yes
    simp only [Stmt.plan, Plan.tasksAll, Plan.tasks, Stmt.blocks, Block.allSymbols_append,
      Block.allSymbols_singleton]
    grind [Task.symbols]
  | .ifElse condition yes (some no) => by
    have first := Stmt.planAll_symbols yes
    have second := Stmt.planAll_symbols no
    simp only [Stmt.plan, Plan.tasksAll, Plan.tasks, Stmt.blocks, Block.allSymbols_append,
      Block.allSymbols_singleton]
    grind [Task.symbols]
  | .whileDo condition body => by
    have inside := Stmt.planAll_symbols body
    simp only [Stmt.plan, Plan.tasksAll, Plan.tasks, Stmt.blocks, Block.allSymbols_append,
      Block.allSymbols_singleton]
    grind [Task.symbols]
  | .forDo start condition step body => by
    have inside := Stmt.planAll_symbols body
    simp only [Stmt.plan, Plan.tasksAll, Plan.tasks, Plan.tasksAll_append, Plan.tasksAll_ofTasks,
      Stmt.blocks, Block.allSymbols_append, Block.allSymbols_singleton]
    grind [Task.symbols]
  | .forEach ty name container body => by
    have inside := Stmt.planAll_symbols body
    simp only [Stmt.plan, Plan.tasksAll, Plan.tasks, Plan.tasksAll_append, Plan.tasksAll_ofTasks,
      Stmt.blocks, Block.allSymbols_append, Block.allSymbols_singleton]
    grind [Task.symbols]

theorem Stmt.planAll_symbols : ∀ stmts : List Stmt,
    ∀ task ∈ Plan.tasksAll (Stmt.planAll context stmts), ∀ symbol ∈ task.symbols,
      symbol ∈ stmts.flatMap Stmt.symbols ++ Block.allSymbols (Stmt.blocksAll stmts)
  | [] => by simp [Stmt.planAll, Plan.tasksAll]
  | stmt :: rest => by
    have first := Stmt.plan_symbols stmt
    have later := Stmt.planAll_symbols rest
    simp only [Stmt.planAll, Plan.tasksAll_append, Stmt.blocksAll, Block.allSymbols_append]
    grind

end

end Symbols

theorem Item.plan_symbols (item : Item) : ∀ task ∈ Plan.tasksAll item.plan,
    ∀ symbol ∈ task.symbols, symbol ∈ item.symbols ++ Block.allSymbols item.blocks := by
  cases item with
  | declare decl => exact Stmt.plan_symbols none (.declare decl)
  | function f =>
    have inside := Stmt.planAll_symbols (some ⟨f.name, f.result⟩) f.body
    simp only [Item.plan, f.plan_tasks, Item.symbols, Item.blocks, Block.allSymbols_append,
      Block.allSymbols_singleton]
    grind [Task.symbols]

namespace Program

/-- Everything that is declared anywhere in a program. -/
def symbols (p : Program) : List Symbol := Block.allSymbols p.blocks

theorem declares (p : Program) (symbol : Symbol) (replaced : Option Symbol)
    (declared : Event.declared symbol replaced ∈ p.check.journal) : symbol ∈ p.symbols := by
  obtain scope | ⟨task, present, scopes, told⟩ := Program.mem_journal declared
  · cases scope
  obtain ⟨item, member, planned⟩ := Program.mem_plan_tasks.mp present
  have own := item.plan_symbols task planned symbol (Task.declares told)
  simp only [symbols, Block.allSymbols, Program.blocks, List.flatMap_append, List.mem_append]
  rcases List.mem_append.mp own with outermost | inside
  · right
    rw [List.flatMap_singleton]
    exact List.mem_flatMap.mpr ⟨item, member, outermost⟩
  · left
    obtain ⟨block, present, holds⟩ := List.mem_flatMap.mp inside
    exact List.mem_flatMap.mpr ⟨block, List.mem_flatMap.mpr ⟨item, member, present⟩, holds⟩

end Program

/-- A name goes back to a declaration that was made. -/
theorem Check.origin?_declared {name : String} {skipped : Nat} {past : List Event}
    {origin : Origin} (found : origin? name skipped past = some origin) :
    ∃ symbol replaced, Event.declared symbol replaced ∈ past ∧ symbol.name = name := by
  fun_induction origin? name skipped past with
  | case1 => simp at found
  | case2 _ _ past ih =>
    obtain ⟨symbol, replaced, member, named⟩ := ih found
    exact ⟨symbol, replaced, List.mem_cons_of_mem _ member, named⟩
  | case3 _ _ past ih =>
    obtain ⟨symbol, replaced, member, named⟩ := ih found
    exact ⟨symbol, replaced, List.mem_cons_of_mem _ member, named⟩
  | case4 symbol replaced past named => exact ⟨symbol, replaced, List.mem_cons_self, named⟩
  | case5 _ _ past _ ih =>
    obtain ⟨symbol, replaced, member, named⟩ := ih found
    exact ⟨symbol, replaced, List.mem_cons_of_mem _ member, named⟩
  | case6 _ _ past _ _ _ ih =>
    obtain ⟨symbol, replaced, member, named⟩ := ih found
    exact ⟨symbol, replaced, List.mem_cons_of_mem _ member, named⟩

/-- Whatever a name stands for after a run has been declared on the way. -/
theorem Check.Run.lookup_declared {journal : List Event} {scopes : ScopeStack}
    (run : Run .empty journal scopes) {name : String} {found : Symbol}
    (known : scopes.lookup name = some found) :
    ∃ symbol replaced, Event.declared symbol replaced ∈ journal ∧ symbol.name = name := by
  have recalled := run.recalls.lookup name
  rw [show scopes.frames.findSome? (·.find? name) = some found from known] at recalled
  generalize traced : origin? name 0 journal.reverse = origin at recalled
  cases recalled with
  | some _ =>
    obtain ⟨symbol, replaced, member, named⟩ := origin?_declared traced
    exact ⟨symbol, replaced, List.mem_reverse.mp member, named⟩

namespace Program

/-- A name that a program declares nowhere is missing wherever the checker comes past. -/
theorem lookup_missing (p : Program) {name : String} (absent : name ∉ p.symbols.map Symbol.name)
    {visit : Visit} (member : visit ∈ p.visits) : visit.scopes.lookup name = none := by
  obtain ⟨before, after, split, run⟩ := p.makes.reached visit member
  by_contra present
  obtain ⟨found, known⟩ := Option.ne_none_iff_exists'.mp present
  obtain ⟨symbol, replaced, declared, named⟩ := run.lookup_declared known
  have whole : Event.declared symbol replaced ∈ p.check.journal := by
    rw [split]
    exact List.mem_append_left _ (List.mem_append_left _ declared)
  exact absent (List.mem_map.mpr ⟨symbol, p.declares symbol replaced whole, named⟩)

/-! ### Nothing is lost by what follows -/

theorem diagnostics_eq (p : Program) : p.diagnostics =
    Check.diagnostics (sequence Item.check p.items ScopeStack.empty.enter).journal := by
  exact diagnostics_inScope (items_contained p.items (ScopeStack.enter_opened .empty))

theorem diagnostics_grow (items later : List Item) :
    Program.diagnostics ⟨items⟩ <+: Program.diagnostics ⟨items ++ later⟩ := by
  rw [diagnostics_eq, diagnostics_eq, sequence_append, Outcome.andThen, diagnostics_append]
  exact List.prefix_append _ _

theorem use_reported (p : Program) {visit : Visit} (visited : visit ∈ p.visits) {use : Use}
    (used : use ∈ visit.stmt.uses) (missing : visit.scopes.lookup use.name = none) :
    use.report visit.scopes ∈ p.diagnostics := by
  obtain ⟨before, after, split, _⟩ := p.makes.reached visit visited
  have reported := visit.stmt.check_reports visit.function.context visit.scopes use used
    (ScopeStack.kind?_eq_none.mpr missing)
  have whole : Event.reported (use.report visit.scopes) ∈ p.check.journal := by
    rw [split]
    exact List.mem_append_left _ (List.mem_append_right _ reported)
  exact List.mem_filterMap.mpr ⟨_, whole, rfl⟩

/-- Items that follow take no diagnostic away from the items before them and change none, and
cannot supply what those refer to: a name that the items before declare nowhere is missing at
every statement of them, and wherever a name is missing, it is reported whatever follows, or
else the first thing is that keeps the checker from getting to it. -/
theorem later_items (items later : List Item) :
    Program.diagnostics ⟨items⟩ <+: Program.diagnostics ⟨items ++ later⟩ ∧
    ∀ visit ∈ Program.visits ⟨items⟩, ∀ use ∈ visit.stmt.uses,
      (use.name ∉ (Program.symbols ⟨items⟩).map Symbol.name →
        visit.scopes.lookup use.name = none) ∧
      (visit.scopes.lookup use.name = none →
        use.report visit.scopes ∈ Program.diagnostics ⟨items ++ later⟩) := by
  refine ⟨diagnostics_grow items later, ?_⟩
  intro visit visited use used
  refine ⟨fun absent => lookup_missing _ absent visited, fun missing => ?_⟩
  have reported := use_reported _ visited used missing
  exact (diagnostics_grow items later).subset reported

/-- A name that is read inside a loop is missing, even if it is declared right after. -/
theorem later_items_loop :
    let f : Function := ⟨"f", [], .number, [.whileDo (.boolean true) [.ret (some (.var "y"))]]⟩
    let scopes : ScopeStack := ⟨[.empty, .empty, ⟨[("f", f.symbol)]⟩]⟩
    (⟨f, .ret (some (.var "y")), scopes⟩ : Visit) ∈ Program.visits ⟨[.function f]⟩ ∧
    scopes.lookup "y" = none ∧
    Diagnostic.undeclaredVariable "y" ∈
      Program.diagnostics ⟨[.function f] ++ [.declare ⟨.number, ["y"]⟩]⟩ := by
  intro f scopes
  let visit : Visit := ⟨f, .ret (some (.var "y")), scopes⟩
  have visited : visit ∈ Program.visits ⟨[.function f]⟩ := List.mem_of_getElem? (i := 1) rfl
  have used : (⟨.value "y", []⟩ : Use) ∈ visit.stmt.uses := List.mem_singleton_self _
  obtain ⟨missing, reported⟩ :=
    (later_items [.function f] [.declare ⟨.number, ["y"]⟩]).2 visit visited _ used
  have absent := missing (by decide)
  exact ⟨visited, absent, reported absent⟩

/-- Not every call of something that is declared only later is reported: if it is an argument
of such a call itself, the outer one is. -/
theorem later_items_arguments :
    let f : Function := ⟨"f", [], .void, [.call "g" [.call "h" []]]⟩
    let one (name : String) (params : List Param) : Item :=
      .function ⟨name, params, .number, [.ret (some (.number 1))]⟩
    let later : List Item := [one "g" [⟨"x", .number⟩], one "h" []]
    (f.body.flatMap Stmt.uses).map Use.reference = [.callee "g", .callee "h"] ∧
    "h" ∉ (Program.symbols ⟨[.function f]⟩).map Symbol.name ∧
    "h" ∈ (Program.symbols ⟨later⟩).map Symbol.name ∧
    Program.diagnostics ⟨.function f :: later⟩ = [.undeclaredFunction "g"] ∧
    (Reference.callee "h").undeclared ∉ Program.diagnostics ⟨.function f :: later⟩ := by
  decide

end Program

end Caju
