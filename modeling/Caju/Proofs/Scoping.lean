import Caju.Proofs.CheckPlans
import Mathlib.Data.List.Forall2

/-! Lexical scoping as a law of frames. A check may give values to symbols of any
open scope, but it moves none, forgets none, and adds names to the innermost scope
only where a declaration says so. Every scope it opens it also closes. -/

namespace Caju

/-- The same declaration at a later time: at most it has been given a value. -/
structure Symbol.Ages (earlier later : Symbol) : Prop where
  name : later.name = earlier.name
  kind : later.kind = earlier.kind
  ty : later.ty = earlier.ty
  initialized : earlier.initialized = true → later.initialized = true

/-- The same frame at a later time: every symbol is still under its key, and no
keys are new but those of the given names. -/
structure Frame.Ages (names : List String) (earlier later : Frame) : Prop where
  kept : ∀ key symbol, earlier.find? key = some symbol →
    ∃ aged, later.find? key = some aged ∧ symbol.Ages aged
  fresh : ∀ key, earlier.find? key = none → later.find? key ≠ none → key ∈ names

/-- The same scopes at a later time. No outer frame has new keys; what has become
of the innermost one is told by the given relation. -/
inductive ScopeStack.Ages (innermost : Frame → Frame → Prop) : ScopeStack → ScopeStack → Prop where
  | empty : Ages innermost ⟨[]⟩ ⟨[]⟩
  | opened {frame later : Frame} {frames laters : List Frame} (inner : innermost frame later)
      (outer : List.Forall₂ (Frame.Ages []) frames laters) :
      Ages innermost ⟨frame :: frames⟩ ⟨later :: laters⟩

namespace Symbol.Ages

theorem refl (symbol : Symbol) : symbol.Ages symbol := ⟨rfl, rfl, rfl, id⟩

theorem trans {first second third : Symbol} (early : first.Ages second)
    (late : second.Ages third) : first.Ages third where
  name := late.name.trans early.name
  kind := late.kind.trans early.kind
  ty := late.ty.trans early.ty
  initialized := late.initialized ∘ early.initialized

end Symbol.Ages

namespace Frame.Ages

theorem refl (names : List String) (frame : Frame) : frame.Ages names frame where
  kept _ symbol found := ⟨symbol, found, .refl symbol⟩
  fresh _ absent present := absurd absent present

theorem trans {names : List String} {first second third : Frame}
    (early : first.Ages names second) (late : second.Ages names third) :
    first.Ages names third where
  kept key symbol found := by
    obtain ⟨middle, foundMiddle, agedMiddle⟩ := early.kept key symbol found
    obtain ⟨last, foundLast, agedLast⟩ := late.kept key middle foundMiddle
    exact ⟨last, foundLast, agedMiddle.trans agedLast⟩
  fresh key absent present := by
    by_cases middle : second.find? key = none
    · exact late.fresh key middle present
    · exact early.fresh key absent middle

instance (names : List String) : IsPreorder Frame (Frame.Ages names) where
  refl := refl names
  trans _ _ _ := trans

theorem mono {names others : List String} {earlier later : Frame} (ages : earlier.Ages names later)
    (included : names ⊆ others) : earlier.Ages others later where
  kept := ages.kept
  fresh key absent present := included (ages.fresh key absent present)

/-- A symbol put under a key that the frame does not hold. -/
theorem insert_new {frame : Frame} {key : String} (absent : frame.find? key = none)
    (symbol : Symbol) : frame.Ages [key] (frame.insert key symbol) where
  kept other held found := by
    have different : other ≠ key := by
      rintro rfl
      simp [absent] at found
    exact ⟨held, by simp [Frame.find?_insert, different, found], .refl held⟩
  fresh other unheld present := by
    by_cases same : other = key
    · simp [same]
    · simp [Frame.find?_insert, same, unheld] at present

/-- A symbol put in the place of one that it is a later state of. -/
theorem insert_aged {frame : Frame} {key : String} {symbol aged : Symbol}
    (found : frame.find? key = some symbol) (ages : symbol.Ages aged) :
    frame.Ages [] (frame.insert key aged) where
  kept other held present := by
    by_cases same : other = key
    · subst same
      have unique : symbol = held := Option.some.inj (found.symm.trans present)
      exact ⟨aged, by simp [Frame.find?_insert], unique ▸ ages⟩
    · exact ⟨held, by simp [Frame.find?_insert, same, present], .refl held⟩
  fresh other unheld present := by
    by_cases same : other = key
    · subst same
      simp [found] at unheld
    · simp [Frame.find?_insert, same, unheld] at present

end Frame.Ages

private theorem framesAge_refl (frames : List Frame) : List.Forall₂ (Frame.Ages []) frames frames :=
  List.forall₂_same.mpr fun frame _ => .refl [] frame

private theorem framesAge_trans {first second third : List Frame}
    (early : List.Forall₂ (Frame.Ages []) first second)
    (late : List.Forall₂ (Frame.Ages []) second third) :
    List.Forall₂ (Frame.Ages []) first third := by
  induction early generalizing third with
  | nil => exact late
  | cons head _ ih =>
    cases late with
    | cons headLate tailLate => exact .cons (head.trans headLate) (ih tailLate)

theorem ScopeStack.enter_opened (scopes : ScopeStack) : scopes.enter.frames ≠ [] :=
  List.cons_ne_nil _ _

namespace ScopeStack.Ages

variable {innermost : Frame → Frame → Prop}

theorem refl [IsPreorder Frame innermost] (scopes : ScopeStack) :
    scopes.Ages innermost scopes := by
  obtain ⟨frames⟩ := scopes
  cases frames with
  | nil => exact .empty
  | cons frame frames => exact .opened (Std.Refl.refl frame) (framesAge_refl frames)

theorem trans [IsPreorder Frame innermost] {first second third : ScopeStack}
    (before : first.Ages innermost second) (after : second.Ages innermost third) :
    first.Ages innermost third := by
  cases before with
  | empty =>
    cases after with
    | empty => exact .empty
  | opened inner outer =>
    cases after with
    | opened innerLate outerLate =>
      exact .opened (IsTrans.trans _ _ _ inner innerLate) (framesAge_trans outer outerLate)

theorem mono {weaker : Frame → Frame → Prop} {before after : ScopeStack}
    (ages : before.Ages innermost after)
    (implied : ∀ {frame later}, innermost frame later → weaker frame later) :
    before.Ages weaker after := by
  cases ages with
  | empty => exact .empty
  | opened inner outer => exact .opened (implied inner) outer

theorem depth_eq {before after : ScopeStack} (ages : before.Ages innermost after) :
    after.depth = before.depth := by
  cases ages with
  | empty => rfl
  | opened _ outer => simp [depth, outer.length_eq]

theorem of_frames {before after : List Frame} (frames : List.Forall₂ (Frame.Ages []) before after) :
    Ages (Frame.Ages []) ⟨before⟩ ⟨after⟩ := by
  cases frames with
  | nil => exact .empty
  | cons inner outer => exact .opened inner outer

theorem of_enter {before after : ScopeStack} (ages : before.enter.Ages innermost after) :
    ∃ frame frames, after = ⟨frame :: frames⟩ ∧
      List.Forall₂ (Frame.Ages []) before.frames frames := by
  cases ages with
  | opened _ outer => exact ⟨_, _, rfl, outer⟩

end ScopeStack.Ages

private theorem markFrames_ages (key : String) (frames : List Frame) :
    List.Forall₂ (Frame.Ages []) frames (ScopeStack.markFrames key frames) := by
  induction frames with
  | nil => exact .nil
  | cons frame frames ih =>
    unfold ScopeStack.markFrames
    cases found : frame.find? key with
    | none => exact .cons (.refl [] frame) ih
    | some symbol =>
      exact .cons (.insert_aged found ⟨rfl, rfl, rfl, fun _ => rfl⟩) (framesAge_refl frames)

/-- Recording a value adds no key to any frame, whichever frame holds the name. -/
theorem ScopeStack.markInitialized_ages (scopes : ScopeStack) (key : String) :
    scopes.Ages (Frame.Ages []) (scopes.markInitialized key) :=
  .of_frames (markFrames_ages key scopes.frames)

namespace Check

/-- Whether an event is something that was looked at, or found wrong, within a statement of a
function that declares nothing. -/
def Event.isNote : Event → Bool
  | .read _ => true
  | .reported (.duplicateVariable _) => false
  | .reported (.duplicateFunction _) => false
  | .reported .returnOutsideFunction => false
  | .reported (.missingReturn ..) => false
  | .reported _ => true
  | _ => false

theorem quiet_of_notes {journal : List Event} (notes : ∀ event ∈ journal, event.isNote = true) :
    ∀ event ∈ journal, event.isQuiet = true := by
  intro event member
  have note := notes event member
  cases event <;> simp [Event.isNote, Event.isQuiet] at note ⊢

/-- A journal in which every scope opened at some depth is closed at that depth
again, with everything in between one level deeper, and the stack is never misused. -/
inductive Nested : Nat → List Event → Prop where
  | nil {depth : Nat} : Nested depth []
  | quiet {depth : Nat} {event : Event} {journal : List Event} (silent : event.isQuiet = true)
      (rest : Nested depth journal) : Nested depth (event :: journal)
  | scope {depth : Nat} {inside journal : List Event} (inner : Nested (depth + 1) inside)
      (rest : Nested depth journal) :
      Nested depth (.entered (depth + 1) :: inside ++ .left depth :: journal)

namespace Nested

theorem append {depth : Nat} {first second : List Event} (before : Nested depth first)
    (after : Nested depth second) : Nested depth (first ++ second) := by
  induction before with
  | nil => exact after
  | quiet silent _ ih => exact .quiet silent (ih after)
  | scope inner _ _ ih =>
    rw [List.append_assoc]
    exact .scope inner (ih after)

theorem of_quiet {depth : Nat} {journal : List Event}
    (silent : ∀ event ∈ journal, event.isQuiet = true) : Nested depth journal := by
  induction journal with
  | nil => exact .nil
  | cons event journal ih =>
    have rest : ∀ later ∈ journal, later.isQuiet = true :=
      fun later member => silent later (List.mem_cons_of_mem event member)
    exact .quiet (silent event List.mem_cons_self) (ih rest)

theorem not_misused {depth : Nat} {journal : List Event} (nested : Nested depth journal)
    (fault : ScopeFault) : Event.misused fault ∉ journal := by
  induction nested with
  | nil => simp
  | @quiet depth event journal silent _ ih =>
    intro member
    rcases List.mem_cons.mp member with same | later
    · simp [← same, Event.isQuiet] at silent
    · exact ih later
  | scope _ _ ihInner ihRest => simp [ihInner, ihRest]

end Nested

theorem require_quiet (holds : Bool) (diagnostic : Diagnostic) :
    ∀ event ∈ require holds diagnostic, event.isQuiet = true := by
  cases holds <;> simp [require, Event.isQuiet]

theorem require_note (holds : Bool) {diagnostic : Diagnostic}
    (note : (Event.reported diagnostic).isNote = true) :
    ∀ event ∈ require holds diagnostic, event.isNote = true := by
  cases holds <;> simp [require, note]

end Check

open Check

mutual

/-- Looking at an expression declares nothing, and opens and closes no scope. -/
theorem Expr.infer_note (scopes : ScopeStack) :
    ∀ (expr : Expr), ∀ event ∈ (expr.infer scopes).2, event.isNote = true
  | .number _ => by simp [Expr.infer]
  | .boolean _ => by simp [Expr.infer]
  | .character _ => by
    rw [Expr.infer]
    exact require_note _ rfl
  | .var name => by
    rw [Expr.infer]
    cases scopes.lookup name with
    | none => simp [Event.isNote]
    | some symbol => exact List.forall_mem_cons.mpr ⟨rfl, require_note _ rfl⟩
  | .binary _ left right => by
    rw [Expr.infer]
    exact List.forall_mem_append.mpr ⟨Expr.infer_note scopes left, Expr.infer_note scopes right⟩
  | .not operand => by
    rw [Expr.infer]
    exact List.forall_mem_append.mpr ⟨Expr.infer_note scopes operand, require_note _ rfl⟩
  | .neg operand => by
    rw [Expr.infer]
    exact List.forall_mem_append.mpr ⟨Expr.infer_note scopes operand, require_note _ rfl⟩
  | .call callee args => by
    rw [Expr.infer]
    cases scopes.lookup callee with
    | none => simp [Event.isNote]
    | some symbol =>
      cases kind : symbol.kind with
      | var => simp [kind, Event.isNote]
      | param => simp [kind, Event.isNote]
      | function params result =>
        by_cases arity : args.length = params.length
        · simpa [kind, arity] using Expr.checkArgs_note scopes callee 1 params args
        · simp [kind, arity, Event.isNote]

theorem Expr.checkArgs_note (scopes : ScopeStack) (callee : String) :
    ∀ (position : Nat) (params : List Ty) (args : List Expr),
      ∀ event ∈ Expr.checkArgs scopes callee position params args, event.isNote = true
  | _, [], _ => by simp [Expr.checkArgs]
  | _, _ :: _, [] => by simp [Expr.checkArgs]
  | position, expected :: params, arg :: args => by
    rw [Expr.checkArgs]
    refine List.forall_mem_append.mpr ⟨?_, ?_⟩
    · exact List.forall_mem_append.mpr ⟨Expr.infer_note scopes arg, require_note _ rfl⟩
    · exact Expr.checkArgs_note scopes callee (position + 1) params args

end

theorem Expr.checkCondition_note (construct : Construct) (scopes : ScopeStack)
    (condition : Expr) :
    ∀ event ∈ condition.checkCondition construct scopes, event.isNote = true :=
  List.forall_mem_append.mpr ⟨condition.infer_note scopes, require_note _ rfl⟩

theorem forCondition_note (condition : Option Expr) (scopes : ScopeStack) :
    ∀ event ∈ (condition.map (Expr.checkCondition .forDo scopes)).getD [], event.isNote = true := by
  cases condition with
  | none => exact List.forall_mem_nil _
  | some condition => exact condition.checkCondition_note .forDo scopes

theorem checkContainer_note (ty : Ty) (name container : String) (scopes : ScopeStack) :
    ∀ event ∈ checkContainer ty name container scopes, event.isNote = true := by
  unfold checkContainer
  cases scopes.lookup container with
  | none => simp [Event.isNote]
  | some symbol =>
    dsimp only
    cases symbol.ty.element? with
    | none => simp [Event.isNote]
    | some element => exact require_note _ rfl

theorem checkReturnValue_note (context : Context) (value : Option Expr) (scopes : ScopeStack) :
    ∀ event ∈ checkReturnValue context value scopes, event.isNote = true := by
  cases value with
  | none => exact require_note _ rfl
  | some value => exact List.forall_mem_append.mpr ⟨value.infer_note scopes, require_note _ rfl⟩

namespace Check

/-- What the scoping law says of a check made while the given scopes were open: the
scopes it leaves are these at a later time, and its journal is well nested. -/
structure Lexical (innermost : Frame → Frame → Prop) (before : ScopeStack) (outcome : Outcome) :
    Prop where
  ages : before.Ages innermost outcome.scopes
  nested : Nested before.depth outcome.journal

namespace Lexical

variable {scopes : ScopeStack} {innermost : Frame → Frame → Prop}

theorem noting [IsPreorder Frame innermost] {journal : List Event}
    (silent : ∀ event ∈ journal, event.isQuiet = true) :
    Lexical innermost scopes (.noting journal scopes) :=
  ⟨.refl scopes, .of_quiet silent⟩

theorem andThen [IsPreorder Frame innermost] {first : Outcome} {next : ScopeStack → Outcome}
    (before : Lexical innermost scopes first)
    (after : Lexical innermost first.scopes (next first.scopes)) :
    Lexical innermost scopes (first.andThen next) := by
  refine ⟨before.ages.trans after.ages, before.nested.append ?_⟩
  simpa only [before.ages.depth_eq] using after.nested

theorem mono {weaker : Frame → Frame → Prop} {outcome : Outcome}
    (lexical : Lexical innermost scopes outcome)
    (implied : ∀ {frame later}, innermost frame later → weaker frame later) :
    Lexical weaker scopes outcome :=
  ⟨lexical.ages.mono implied, lexical.nested⟩

theorem opened {outcome : Outcome} (lexical : Lexical innermost scopes outcome)
    (nonempty : scopes.frames ≠ []) : outcome.scopes.frames ≠ [] := by
  have depths : outcome.scopes.frames.length = scopes.frames.length := lexical.ages.depth_eq
  intro closed
  rw [closed] at depths
  exact nonempty (List.length_eq_zero_iff.mp depths.symm)

/-- A check in a scope of its own: the innermost of the frames it ends with is dropped,
and its journal stands between the opening and the closing of the scope. -/
theorem inScope_eq {body : ScopeStack → Outcome}
    (inside : Lexical innermost scopes.enter (body scopes.enter)) :
    ∃ frame frames, (body scopes.enter).scopes = ⟨frame :: frames⟩ ∧
      List.Forall₂ (Frame.Ages []) scopes.frames frames ∧
      Check.inScope body scopes =
        ⟨⟨frames⟩, .entered (scopes.depth + 1) :: (body scopes.enter).journal ++
          [.left scopes.depth], (body scopes.enter).returned⟩ := by
  -- Only the frame that was entered may have new keys, and it is the one that is dropped.
  obtain ⟨frame, frames, left, outer⟩ := inside.ages.of_enter
  have closed : leave (body scopes.enter).scopes = ⟨⟨frames⟩, [.left scopes.depth], false⟩ := by
    simp [leave, left, ScopeStack.leave, ScopeStack.depth, outer.length_eq]
  refine ⟨frame, frames, left, outer, ?_⟩
  simp [Check.inScope, Outcome.andThen, enter, closed]

/-- Whatever a check does in a scope of its own, outside of it no key is new. -/
theorem inScope {body : ScopeStack → Outcome}
    (inside : Lexical innermost scopes.enter (body scopes.enter)) :
    Lexical (Frame.Ages []) scopes (inScope body scopes) := by
  obtain ⟨_, frames, _, outer, result⟩ := inside.inScope_eq
  rw [result]
  exact ⟨.of_frames outer, .scope inside.nested .nil⟩

/-- A declaration replaces at most something in the innermost scope. -/
theorem declare_any (symbol : Symbol) (nonempty : scopes.frames ≠ []) :
    Lexical (fun _ _ => True) scopes (declare symbol scopes) := by
  obtain ⟨frames⟩ := scopes
  cases frames with
  | nil => exact absurd rfl nonempty
  | cons frame frames => exact ⟨.opened trivial (framesAge_refl frames), .quiet rfl .nil⟩

theorem declare_new {symbol : Symbol} (nonempty : scopes.frames ≠ [])
    (absent : scopes.holds symbol.name = false) :
    Lexical (Frame.Ages [symbol.name]) scopes (declare symbol scopes) := by
  obtain ⟨frames⟩ := scopes
  cases frames with
  | nil => exact absurd rfl nonempty
  | cons frame frames =>
    have unheld : frame.find? symbol.name = none := by simpa [ScopeStack.holds] using absent
    exact ⟨.opened (.insert_new unheld symbol) (framesAge_refl frames), .quiet rfl .nil⟩

/-- A declaration that is refused where the name is held already adds its name at most. -/
theorem declareNew (duplicate : Diagnostic) (symbol : Symbol) (nonempty : scopes.frames ≠ []) :
    Lexical (Frame.Ages [symbol.name]) scopes (declareNew duplicate symbol scopes) := by
  unfold Check.declareNew
  cases held : scopes.holds symbol.name with
  | true => exact noting (by simp [Event.isQuiet])
  | false => exact declare_new nonempty held

end Lexical

/-- A check that obeys the scoping law whenever a scope is open. -/
def Obeys (innermost : Frame → Frame → Prop) (check : ScopeStack → Outcome) : Prop :=
  ∀ ⦃scopes : ScopeStack⦄, scopes.frames ≠ [] → Lexical innermost scopes (check scopes)

theorem obeys_lawful {innermost : Frame → Frame → Prop} [IsPreorder Frame innermost]
    (implied : ∀ {frame later : Frame}, frame.Ages [] later → innermost frame later) :
    Lawful (Obeys innermost) where
  idle _ _ := ⟨.refl _, .nil⟩
  andThen first second _ nonempty :=
    (first nonempty).andThen (second ((first nonempty).opened nonempty))
  inScope inside scopes _ := (Lexical.inScope (inside scopes.enter_opened)).mono implied

end Check

theorem VarDecl.check_lexical (decl : VarDecl) :
    Obeys (Frame.Ages decl.names) decl.check := by
  have lawful : Lawful (Obeys (Frame.Ages decl.names)) :=
    obeys_lawful fun ages => ages.mono (List.nil_subset _)
  refine lawful.sequence fun name member => ?_
  intro scopes nonempty
  have declared := Lexical.declareNew (.duplicateVariable name) (.var name decl.ty) nonempty
  exact declared.mono fun ages => ages.mono (List.cons_subset.mpr ⟨member, List.nil_subset _⟩)

theorem Assign.check_lexical (assign : Assign) (scopes : ScopeStack) :
    Lexical (Frame.Ages []) scopes (assign.check scopes) := by
  unfold Assign.check
  cases scopes.lookup assign.target with
  | none => exact .noting (by simp [Event.isQuiet])
  | some symbol =>
    refine ⟨scopes.markInitialized_ages assign.target, .of_quiet ?_⟩
    refine List.forall_mem_append.mpr ⟨?_, by simp [Event.isQuiet]⟩
    exact quiet_of_notes
      (List.forall_mem_append.mpr ⟨assign.value.infer_note scopes, require_note _ rfl⟩)

/-- The names that a statement itself declares; those declared inside it are not among
them. -/
def Stmt.declaredNames : Stmt → List String
  | .declare decl => decl.names
  | _ => []

theorem assigns_lexical (steps : List Assign) :
    Obeys (Frame.Ages []) (sequence Assign.check steps) :=
  (obeys_lawful id).sequence fun step _ scopes _ => step.check_lexical scopes

namespace Check

/-- Whether a task declares nothing. -/
def Task.isStill : Task → Bool
  | .var .. => false
  | .bound .. => false
  | .param _ => false
  | .function _ => false
  | _ => true

theorem Task.check_still {task : Task} (still : task.isStill = true) (scopes : ScopeStack) :
    Lexical (Frame.Ages []) scopes (task.check scopes) := by
  cases task with
  | assign step => exact step.check_lexical scopes
  | checking name => exact .noting (by simp [Event.isQuiet])
  | call callee args => exact .noting (quiet_of_notes (Expr.infer_note scopes (.call callee args)))
  | condition construct expr =>
    exact .noting (quiet_of_notes (expr.checkCondition_note construct scopes))
  | container ty name array =>
    exact .noting (quiet_of_notes (checkContainer_note ty name array scopes))
  | ret context value =>
    cases context with
    | none => exact .noting (by simp [Event.isQuiet])
    | some context =>
      exact ⟨.refl scopes, .of_quiet (quiet_of_notes (checkReturnValue_note context value scopes))⟩
  | ending f returned => exact .noting (require_quiet _ _)
  | _ => cases still

instance : IsPreorder Frame fun _ _ => True where
  refl _ := trivial
  trans _ _ _ _ _ := trivial

/-- A check that obeys the scoping law, and may declare anything in the innermost scope. -/
abbrev Contained : (ScopeStack → Outcome) → Prop := Obeys fun _ _ => True

theorem Task.contained (task : Task) : Contained task.check := by
  intro scopes nonempty
  cases task with
  | var name ty => exact (Lexical.declareNew _ _ nonempty).mono fun _ => trivial
  | function f => exact (Lexical.declareNew _ _ nonempty).mono fun _ => trivial
  | bound name ty => exact .declare_any _ nonempty
  | param p => exact .declare_any _ nonempty
  | _ => exact (Task.check_still rfl scopes).mono fun _ => trivial

/-- The scoping law of whatever the checker does. -/
theorem Plan.contained (plans : List Plan) : Contained (Plan.checkAll plans) :=
  Plan.lawfulAll (obeys_lawful fun _ => trivial) plans fun task _ => task.contained

/-- The scoping law of a plan that declares nothing but in scopes of its own. -/
theorem Plan.check_still {plan : Plan} (still : ∀ task, plan = .task task → task.isStill = true)
    (scopes : ScopeStack) : Lexical (Frame.Ages []) scopes (plan.check scopes) := by
  cases plan with
  | task t =>
    rw [Plan.check]
    exact Task.check_still (still t rfl) scopes
  | block plans =>
    rw [Plan.check]
    exact .inScope (Plan.contained plans scopes.enter_opened)

theorem Plan.checkAll_still {plans : List Plan}
    (still : ∀ task, Plan.task task ∈ plans → task.isStill = true) (scopes : ScopeStack) :
    Lexical (Frame.Ages []) scopes (Plan.checkAll plans scopes) := by
  induction plans generalizing scopes with
  | nil => exact ⟨.refl scopes, .nil⟩
  | cons plan rest ih =>
    rw [Plan.checkAll]
    have first : Lexical (Frame.Ages []) scopes (plan.check scopes) :=
      Plan.check_still (fun task same => still task (same ▸ List.mem_cons_self)) scopes
    exact first.andThen (ih (fun task member => still task (List.mem_cons_of_mem plan member)) _)

end Check

/-- The scoping law of statements. -/
theorem Stmt.check_lexical (context : Option Context) (stmt : Stmt) :
    Obeys (Frame.Ages stmt.declaredNames) (stmt.check context) := by
  intro scopes nonempty
  cases stmt with
  | declare decl =>
    rw [Stmt.check]
    exact decl.check_lexical nonempty
  | ifElse condition yes no =>
    rw [Stmt.check_eq]
    cases no <;> exact Plan.checkAll_still (by simp [Stmt.plan, Task.isStill]) scopes
  | _ =>
    rw [Stmt.check_eq]
    exact Plan.checkAll_still (by simp [Stmt.plan, Task.isStill]) scopes

/-- Statements in a row may declare anything in the innermost scope. -/
theorem Stmt.checkAll_contained (context : Option Context) (stmts : List Stmt) :
    Contained (Stmt.checkAll context stmts) := by
  rw [Stmt.checkAll_eq]
  exact Plan.contained _

theorem checkLoop_contained (start : List Assign) (condition : Option Expr) (step : List Assign)
    (context : Option Context) (body : List Stmt) :
    Contained (checkLoop start condition step (Stmt.checkAll context body)) := by
  rw [Stmt.checkAll_eq, checkLoop_eq]
  exact Plan.contained _

theorem checkEach_contained (ty : Ty) (name container : String) (context : Option Context)
    (body : List Stmt) : Contained (checkEach ty name container (Stmt.checkAll context body)) := by
  rw [Stmt.checkAll_eq, checkEach_eq]
  exact Plan.contained _

theorem Function.checkBody_contained (f : Function) : Contained f.checkBody := by
  rw [f.checkBody_eq]
  exact Plan.contained _

theorem Item.check_contained (item : Item) : Contained item.check := by
  rw [item.check_eq]
  exact Plan.contained _

theorem items_contained (items : List Item) : Contained (sequence Item.check items) := by
  rw [items_eq]
  exact Plan.contained _

/-- The scoping law of programs: they start and end without open scopes. -/
theorem Program.check_lexical (p : Program) : Lexical (Frame.Ages []) .empty p.check :=
  .inScope (items_contained p.items (ScopeStack.enter_opened _))

/-- What a statement leaves of the open scopes, the innermost of which is at level 0:
each frame where it was, with its symbols under their keys, and no new keys but
those of a declaration in the innermost frame. -/
structure Stmt.Preserves (stmt : Stmt) (before after : ScopeStack) : Prop where
  depth : after.depth = before.depth
  kept : ∀ (level : Nat) (frame : Frame), before.frames[level]? = some frame →
    ∃ later : Frame, after.frames[level]? = some later ∧
      ∀ key symbol, frame.find? key = some symbol →
        ∃ aged, later.find? key = some aged ∧ symbol.Ages aged
  fresh : ∀ (level : Nat) (frame later : Frame) key, before.frames[level]? = some frame →
    after.frames[level]? = some later → frame.find? key = none → later.find? key ≠ none →
      level = 0 ∧ ∃ decl, stmt = .declare decl ∧ key ∈ decl.names

private theorem framesAge_at {frames laters : List Frame}
    (ages : List.Forall₂ (Frame.Ages []) frames laters) {level : Nat} {frame : Frame}
    (found : frames[level]? = some frame) :
    ∃ later, laters[level]? = some later ∧ frame.Ages [] later := by
  induction ages generalizing level with
  | nil => simp at found
  | @cons _ later _ _ head _ ih =>
    cases level with
    | zero =>
      simp only [List.getElem?_cons_zero, Option.some.injEq] at found
      exact ⟨later, by simp, found ▸ head⟩
    | succ level =>
      simp only [List.getElem?_cons_succ] at found
      simpa using ih found

private theorem ScopeStack.Ages.at_level {names : List String} {before after : ScopeStack}
    (ages : before.Ages (Frame.Ages names) after) {level : Nat} {frame : Frame}
    (found : before.frames[level]? = some frame) :
    ∃ later, after.frames[level]? = some later ∧
      frame.Ages (if level = 0 then names else []) later := by
  cases ages with
  | empty => simp at found
  | @opened _ later _ _ inner outer =>
    cases level with
    | zero =>
      simp only [List.getElem?_cons_zero, Option.some.injEq] at found
      exact ⟨later, by simp, by simpa [← found] using inner⟩
    | succ level =>
      simp only [List.getElem?_cons_succ] at found
      simpa using framesAge_at outer found

private theorem Stmt.mem_declaredNames {stmt : Stmt} {key : String}
    (member : key ∈ stmt.declaredNames) : ∃ decl, stmt = .declare decl ∧ key ∈ decl.names := by
  cases stmt with
  | declare decl => exact ⟨decl, rfl, member⟩
  | _ => simp [Stmt.declaredNames] at member

theorem Stmt.preserves_of_ages {stmt : Stmt} {before after : ScopeStack}
    (ages : before.Ages (Frame.Ages stmt.declaredNames) after) : stmt.Preserves before after where
  depth := ages.depth_eq
  kept level frame found := by
    obtain ⟨later, foundLater, aged⟩ := ages.at_level found
    exact ⟨later, foundLater, aged.kept⟩
  fresh level frame later key found foundLater absent present := by
    obtain ⟨other, foundOther, aged⟩ := ages.at_level found
    have same : other = later := Option.some.inj (foundOther.symm.trans foundLater)
    subst same
    have member := aged.fresh key absent present
    cases level with
    | zero => exact ⟨rfl, Stmt.mem_declaredNames (by simpa using member)⟩
    | succ level => simp at member

/-- Checking a statement moves and forgets no symbol of the open scopes, declares
nothing but what the statement itself declares, and only adds to the diagnostics; and
checking a program opens and closes its scopes in pairs, ends without any open, and
never closes one or declares in one when there is none. -/
theorem check_respects_scopes :
    (∀ (context : Option Context) (stmt : Stmt) (before : Outcome), before.scopes.frames ≠ [] →
      stmt.Preserves before.scopes (before.andThen (stmt.check context)).scopes ∧
      diagnostics before.journal <+:
        diagnostics (before.andThen (stmt.check context)).journal) ∧
    ∀ p : Program, (∀ fault, Event.misused fault ∉ p.check.journal) ∧
      Nested 0 p.check.journal ∧ p.check.scopes = .empty := by
  refine ⟨fun context stmt before nonempty => ⟨?_, ?_⟩, fun p => ⟨?_, ?_, ?_⟩⟩
  · exact Stmt.preserves_of_ages (stmt.check_lexical context nonempty).ages
  · simp [Outcome.andThen]
  · exact p.check_lexical.nested.not_misused
  · exact p.check_lexical.nested
  · have ages := p.check_lexical.ages
    generalize p.check.scopes = after at ages
    cases ages with
    | empty => rfl

/-- A loop whose body hides an outer `x` and gives a value to the `y` outside of it. -/
theorem check_respects_scopes_while :
    (⟨[⟨[("y", .var "y" .number)]⟩, ⟨[("x", .var "x" .number)]⟩]⟩ : ScopeStack).frames ≠ [] ∧
    Stmt.Preserves
      (.whileDo (.boolean true) [.declare ⟨.number, ["x"]⟩, .assign ⟨"y", .number 1⟩])
      ⟨[⟨[("y", .var "y" .number)]⟩, ⟨[("x", .var "x" .number)]⟩]⟩
      ⟨[⟨[("y", .bound "y" .number)]⟩, ⟨[("x", .var "x" .number)]⟩]⟩ :=
  ⟨by simp, (check_respects_scopes.1 none
    (.whileDo (.boolean true) [.declare ⟨.number, ["x"]⟩, .assign ⟨"y", .number 1⟩])
    ⟨⟨[⟨[("y", .var "y" .number)]⟩, ⟨[("x", .var "x" .number)]⟩]⟩, [], false⟩ (by simp)).1⟩

end Caju
