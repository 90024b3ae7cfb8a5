import Caju.Proofs.Scoping

/-! What it matters to a check which symbols hold a value. Two runs of one check, in scopes
that differ only in that more symbols hold a value in the second, find the same things
wrong but for variables read too early: of these the second run reports some of those that
the first does. The steps of a `para`, which are checked twice, are such a pair of runs. -/

namespace Caju

open Check

/-- Whether a diagnostic is about a variable that was read before it held a value. -/
def Diagnostic.isUninitialized : Diagnostic → Bool
  | .uninitializedVariable _ => true
  | _ => false

/-- The second list of diagnostics is the first one, in the same order, without some of its
reports of variables read too early. -/
structure Check.Spares (first second : List Diagnostic) : Prop where
  sublist : second.Sublist first
  others : second.filter (!·.isUninitialized) = first.filter (!·.isUninitialized)

/-- The same symbols in the same scopes, where those that hold a value in the first stack
hold one in the second as well. -/
def ScopeStack.GainsValues (fewer more : ScopeStack) : Prop :=
  List.Forall₂ (Frame.Ages []) fewer.frames more.frames

namespace Check.Spares

theorem refl (diagnostics : List Diagnostic) : Spares diagnostics diagnostics :=
  ⟨.refl diagnostics, rfl⟩

theorem append {first second first' second' : List Diagnostic} (before : Spares first second)
    (after : Spares first' second') : Spares (first ++ first') (second ++ second') where
  sublist := before.sublist.append after.sublist
  others := by rw [List.filter_append, List.filter_append, before.others, after.others]

theorem uninitialized {first second : List Diagnostic} (spares : Spares first second) :
    (second.filter (·.isUninitialized)).Sublist (first.filter (·.isUninitialized)) :=
  spares.sublist.filter _

/-- A variable that holds a value is not reported, and nothing else depends on that. -/
theorem require_uninitialized (name : String) {early late : Bool}
    (gained : early = true → late = true) :
    Spares (diagnostics (require early (.uninitializedVariable name)))
      (diagnostics (require late (.uninitializedVariable name))) := by
  cases early with
  | true => exact gained rfl ▸ .refl _
  | false =>
    cases late with
    | false => exact .refl _
    | true => exact ⟨List.nil_sublist _, rfl⟩

end Check.Spares

/-- A frame ages without new keys if each key finds the same symbol at a later time. -/
theorem Frame.ages_iff {earlier later : Frame} :
    earlier.Ages [] later ↔
      ∀ key, Option.Rel Symbol.Ages (earlier.find? key) (later.find? key) := by
  constructor
  · intro ages key
    cases found : earlier.find? key with
    | none =>
      have absent : later.find? key = none := by
        by_contra present
        exact List.not_mem_nil (ages.fresh key found present)
      rw [absent]
      exact .none
    | some symbol =>
      obtain ⟨aged, present, older⟩ := ages.kept key symbol found
      rw [present]
      exact .some older
  · intro related
    refine ⟨fun key symbol found => ?_, fun key absent present => ?_⟩
    · have aged := related key
      rw [found] at aged
      generalize later.find? key = after at aged
      cases aged with
      | some older => exact ⟨_, rfl, older⟩
    · have aged := related key
      rw [absent] at aged
      generalize later.find? key = after at aged present
      cases aged
      exact absurd rfl present

theorem Frame.Ages.insert {earlier later : Frame} {symbol aged : Symbol}
    (ages : earlier.Ages [] later) (older : symbol.Ages aged) (key : String) :
    (earlier.insert key symbol).Ages [] (later.insert key aged) := by
  refine Frame.ages_iff.mpr fun other => ?_
  rw [Frame.find?_insert, Frame.find?_insert]
  by_cases same : other = key
  · rw [if_pos same, if_pos same]
    exact .some older
  · rw [if_neg same, if_neg same]
    exact Frame.ages_iff.mp ages other

private theorem markFrames_gain {frames laters : List Frame}
    (gains : List.Forall₂ (Frame.Ages []) frames laters) (key : String) :
    List.Forall₂ (Frame.Ages []) (ScopeStack.markFrames key frames)
      (ScopeStack.markFrames key laters) := by
  induction gains with
  | nil => exact .nil
  | @cons frame later frames laters head tail ih =>
    have found := Frame.ages_iff.mp head key
    unfold ScopeStack.markFrames
    -- Both lists are marked in the same frame, since the frames have the same keys.
    generalize frame.find? key = held at found
    generalize later.find? key = heldLater at found
    cases found with
    | none => exact .cons head ih
    | @some symbol aged older =>
      have marked : ({ symbol with initialized := true } : Symbol).Ages
          { aged with initialized := true } := ⟨older.name, older.kind, older.ty, fun _ => rfl⟩
      exact .cons (head.insert marked key) tail

namespace ScopeStack.GainsValues

variable {fewer more : ScopeStack}

theorem lookup (gains : fewer.GainsValues more) (key : String) :
    Option.Rel Symbol.Ages (fewer.lookup key) (more.lookup key) := by
  obtain ⟨frames⟩ := fewer
  obtain ⟨laters⟩ := more
  have frames : List.Forall₂ (Frame.Ages []) frames laters := gains
  unfold ScopeStack.lookup
  induction frames with
  | nil => exact .none
  | @cons frame later _ _ head tail ih =>
    have found := Frame.ages_iff.mp head key
    rw [List.findSome?_cons, List.findSome?_cons]
    generalize frame.find? key = held at found
    generalize later.find? key = heldLater at found
    cases found with
    | none => exact ih tail
    | some older => exact .some older

theorem holds_eq (gains : fewer.GainsValues more) (key : String) :
    more.holds key = fewer.holds key := by
  obtain ⟨frames⟩ := fewer
  obtain ⟨laters⟩ := more
  cases gains with
  | nil => rfl
  | @cons frame later _ _ head _ =>
    have found := Frame.ages_iff.mp head key
    simp only [ScopeStack.holds]
    generalize frame.find? key = held at found
    generalize later.find? key = heldLater at found
    cases found <;> rfl

theorem enter (gains : fewer.GainsValues more) : fewer.enter.GainsValues more.enter :=
  .cons (.refl [] .empty) gains

theorem markInitialized (gains : fewer.GainsValues more) (key : String) :
    (fewer.markInitialized key).GainsValues (more.markInitialized key) :=
  markFrames_gain gains key

end ScopeStack.GainsValues

theorem ScopeStack.Ages.gainsValues {before after : ScopeStack}
    (ages : before.Ages (Frame.Ages []) after) : before.GainsValues after := by
  cases ages with
  | empty => exact .nil
  | opened inner outer => exact .cons inner outer

section Expressions

variable {fewer more : ScopeStack}

mutual

/-- The type of an expression does not depend on which symbols hold a value. -/
theorem Expr.infer_spares (gains : fewer.GainsValues more) : ∀ expr : Expr,
    (expr.infer more).1 = (expr.infer fewer).1 ∧
      Spares (diagnostics (expr.infer fewer).2) (diagnostics (expr.infer more).2)
  | .number _ => by
    simp only [Expr.infer]
    exact ⟨trivial, .refl _⟩
  | .boolean _ => by
    simp only [Expr.infer]
    exact ⟨trivial, .refl _⟩
  | .character _ => by
    simp only [Expr.infer]
    exact ⟨trivial, .refl _⟩
  | .var name => by
    have found := gains.lookup name
    simp only [Expr.infer]
    generalize fewer.lookup name = early at found
    generalize more.lookup name = late at found
    cases found with
    | none => exact ⟨rfl, .refl _⟩
    | some older => exact ⟨older.ty, Spares.require_uninitialized name older.initialized⟩
  | .binary op left right => by
    simp only [Expr.infer, diagnostics_append]
    exact ⟨trivial, (Expr.infer_spares gains left).2.append (Expr.infer_spares gains right).2⟩
  | .not operand => by
    obtain ⟨same, spares⟩ := Expr.infer_spares gains operand
    simp only [Expr.infer, diagnostics_append, same]
    exact ⟨trivial, spares.append (.refl _)⟩
  | .neg operand => by
    obtain ⟨same, spares⟩ := Expr.infer_spares gains operand
    simp only [Expr.infer, diagnostics_append, same]
    exact ⟨trivial, spares.append (.refl _)⟩
  | .call callee args => by
    have found := gains.lookup callee
    simp only [Expr.infer]
    generalize fewer.lookup callee = early at found
    generalize more.lookup callee = late at found
    cases found with
    | none => exact ⟨rfl, .refl _⟩
    | @some symbol aged older =>
      simp only [older.kind]
      cases symbol.kind with
      | var => exact ⟨rfl, .refl _⟩
      | param => exact ⟨rfl, .refl _⟩
      | function params result =>
        by_cases arity : args.length = params.length
        · simp only [arity, if_true]
          exact ⟨trivial, Expr.checkArgs_spares gains callee 1 params args⟩
        · simp only [arity, if_false]
          exact ⟨trivial, .refl _⟩

theorem Expr.checkArgs_spares (gains : fewer.GainsValues more) (callee : String) :
    ∀ (position : Nat) (params : List Ty) (args : List Expr),
      Spares (diagnostics (Expr.checkArgs fewer callee position params args))
        (diagnostics (Expr.checkArgs more callee position params args))
  | _, [], _ => by
    simp only [Expr.checkArgs]
    exact .refl _
  | _, _ :: _, [] => by
    simp only [Expr.checkArgs]
    exact .refl _
  | position, expected :: params, arg :: args => by
    obtain ⟨same, spares⟩ := Expr.infer_spares gains arg
    simp only [Expr.checkArgs, diagnostics_append, same]
    exact (spares.append (.refl _)).append
      (Expr.checkArgs_spares gains callee (position + 1) params args)

end

theorem Expr.checkCondition_spares (gains : fewer.GainsValues more) (construct : Construct)
    (condition : Expr) :
    Spares (diagnostics (condition.checkCondition construct fewer))
      (diagnostics (condition.checkCondition construct more)) := by
  obtain ⟨same, spares⟩ := condition.infer_spares gains
  simp only [Expr.checkCondition, diagnostics_append, same]
  exact spares.append (.refl _)

theorem checkContainer_spares (gains : fewer.GainsValues more) (ty : Ty) (name container : String) :
    Spares (diagnostics (checkContainer ty name container fewer))
      (diagnostics (checkContainer ty name container more)) := by
  have found := gains.lookup container
  unfold checkContainer
  generalize fewer.lookup container = early at found
  generalize more.lookup container = late at found
  cases found with
  | none => exact .refl _
  | some older =>
    simp only [older.ty]
    exact .refl _

theorem checkReturnValue_spares (gains : fewer.GainsValues more) (context : Context)
    (value : Option Expr) :
    Spares (diagnostics (checkReturnValue context value fewer))
      (diagnostics (checkReturnValue context value more)) := by
  cases value with
  | none => exact .refl _
  | some value =>
    obtain ⟨same, spares⟩ := value.infer_spares gains
    simp only [checkReturnValue, diagnostics_append, same]
    exact spares.append (.refl _)

end Expressions

namespace Check

/-- Two outcomes of one check, of which the second came of more symbols with a value. -/
structure Outcome.Spares (first second : Outcome) : Prop where
  diagnostics : Check.Spares (diagnostics first.journal) (diagnostics second.journal)
  returned : second.returned = first.returned
  scopes : first.scopes.GainsValues second.scopes

/-- A check for which more symbols with a value make no difference but to the reports of
variables read too early. -/
def Steady (check : ScopeStack → Outcome) : Prop :=
  ∀ fewer more : ScopeStack, fewer.GainsValues more → (check fewer).Spares (check more)

namespace Steady

variable {check next : ScopeStack → Outcome}

theorem idle : Steady .idle := fun _ _ gains => ⟨.refl _, rfl, gains⟩

theorem noting {journal : ScopeStack → List Event}
    (spares : ∀ {fewer more : ScopeStack}, fewer.GainsValues more →
      Check.Spares (diagnostics (journal fewer)) (diagnostics (journal more))) :
    Steady fun scopes => .noting (journal scopes) scopes :=
  fun _ _ gains => ⟨spares gains, rfl, gains⟩

theorem andThen (first : Steady check) (second : Steady next) :
    Steady fun scopes => (check scopes).andThen next := by
  intro fewer more gains
  have before := first fewer more gains
  have after := second _ _ before.scopes
  refine ⟨?_, ?_, after.scopes⟩
  · simp only [Outcome.andThen, diagnostics_append]
    exact before.diagnostics.append after.diagnostics
  · simp only [Outcome.andThen, before.returned, after.returned]

theorem enter : Steady enter := fun _ _ gains => ⟨.refl _, rfl, gains.enter⟩

theorem leave : Steady leave := by
  rintro ⟨frames⟩ ⟨laters⟩ gains
  cases gains with
  | nil => exact ⟨.refl _, rfl, .nil⟩
  | cons _ tail => exact ⟨.refl _, rfl, tail⟩

theorem lawful : Lawful Steady where
  idle := idle
  andThen := andThen
  inScope body := enter.andThen (body.andThen leave)

theorem declare (symbol : Symbol) : Steady (declare symbol) := by
  rintro ⟨frames⟩ ⟨laters⟩ gains
  cases gains with
  | nil => exact ⟨.refl _, rfl, .nil⟩
  | cons head tail => exact ⟨.refl _, rfl, .cons (head.insert (.refl symbol) symbol.name) tail⟩

theorem declareNew (duplicate : Diagnostic) (symbol : Symbol) :
    Steady (declareNew duplicate symbol) := by
  intro fewer more gains
  unfold Check.declareNew
  rw [gains.holds_eq symbol.name]
  split
  · exact ⟨.refl _, rfl, gains⟩
  · exact declare symbol fewer more gains

end Steady

end Check

theorem Assign.steady (assign : Assign) : Steady assign.check := by
  intro fewer more gains
  have found := gains.lookup assign.target
  obtain ⟨same, spares⟩ := assign.value.infer_spares gains
  unfold Assign.check
  generalize fewer.lookup assign.target = early at found
  generalize more.lookup assign.target = late at found
  cases found with
  | none => exact ⟨.refl _, rfl, gains⟩
  | some older =>
    refine ⟨?_, rfl, gains.markInitialized assign.target⟩
    simp only [diagnostics_append, same, older.ty]
    exact (spares.append (.refl _)).append (.refl _)

theorem assigns_steady (steps : List Assign) : Steady (sequence Assign.check steps) :=
  Steady.lawful.sequence fun step _ => step.steady

theorem Check.Task.steady (task : Task) : Steady task.check := by
  cases task with
  | var name ty => exact .declareNew _ _
  | function f => exact .declareNew _ _
  | bound name ty => exact .declare _
  | param p => exact .declare _
  | checking name => exact .noting fun _ => .refl _
  | assign step => exact step.steady
  | call callee args => exact .noting fun gains => ((Expr.call callee args).infer_spares gains).2
  | condition construct expr =>
    exact .noting fun gains => expr.checkCondition_spares gains construct
  | container ty name array => exact .noting fun gains => checkContainer_spares gains ty name array
  | ret context value =>
    intro fewer more gains
    cases context with
    | none => exact ⟨.refl _, rfl, gains⟩
    | some context => exact ⟨checkReturnValue_spares gains context value, rfl, gains⟩
  | ending f returned => exact .noting fun _ => .refl _

theorem Stmt.steadyAll (context : Option Context) (stmts : List Stmt) :
    Steady (Stmt.checkAll context stmts) := by
  rw [Stmt.checkAll_eq]
  exact Plan.lawfulAll Steady.lawful _ fun task _ => task.steady

/-- The journal of a `para` has two passes over its steps, and the second begins with the
scopes that the first left. -/
theorem Stmt.forDo_journal (context : Option Context) (start : List Assign)
    (condition : Option Expr) (step : List Assign) (body : List Stmt) (scopes : ScopeStack) :
    let started := sequence Assign.check start scopes.enter
    let first := sequence Assign.check step started.scopes
    let second := sequence Assign.check step first.scopes
    ∃ rest, ((Stmt.forDo start condition step body).check context scopes).journal =
      .entered scopes.enter.depth :: (started.journal ++ first.journal ++
        (condition.map (Expr.checkCondition .forDo first.scopes)).getD [] ++ second.journal ++
        rest) := by
  intro started first second
  rw [Stmt.check]
  simp only [inScope, enter, checkLoop, Outcome.andThen, Outcome.noting, List.append_assoc,
    List.cons_append, List.nil_append]
  exact ⟨_, rfl⟩

/-- Assignments that are made once more find their targets with values. -/
theorem assigns_again_spare (steps : List Assign) {scopes : ScopeStack}
    (nonempty : scopes.frames ≠ []) :
    Spares (diagnostics (sequence Assign.check steps scopes).journal)
      (diagnostics
        (sequence Assign.check steps (sequence Assign.check steps scopes).scopes).journal) := by
  have gained := (assigns_lexical steps nonempty).ages.gainsValues
  exact (assigns_steady steps _ _ gained).diagnostics

/-- If more symbols hold a value, checking statements finds the same things wrong, in the same
order, except that some variables are no longer reported as read too early; it comes past
the same returns, and leaves scopes that differ in the same way. In particular, the second
pass over the steps of a `para` reports what the first does, but for some such variables. -/
theorem Stmt.checkAll_spares_early_reads :
    (∀ (context : Option Context) (stmts : List Stmt) (fewer more : ScopeStack),
      fewer.GainsValues more →
      let first := Stmt.checkAll context stmts fewer
      let second := Stmt.checkAll context stmts more
      (diagnostics second.journal).filter (!·.isUninitialized) =
        (diagnostics first.journal).filter (!·.isUninitialized) ∧
      ((diagnostics second.journal).filter (·.isUninitialized)).Sublist
        ((diagnostics first.journal).filter (·.isUninitialized)) ∧
      second.returned = first.returned ∧ first.scopes.GainsValues second.scopes) ∧
    ∀ (context : Option Context) (start : List Assign) (condition : Option Expr)
      (step : List Assign) (body : List Stmt) (scopes : ScopeStack),
      let started := sequence Assign.check start scopes.enter
      let first := sequence Assign.check step started.scopes
      let second := sequence Assign.check step first.scopes
      (∃ rest, ((Stmt.forDo start condition step body).check context scopes).journal =
        .entered scopes.enter.depth :: (started.journal ++ first.journal ++
          (condition.map (Expr.checkCondition .forDo first.scopes)).getD [] ++ second.journal ++
          rest)) ∧
      Spares (diagnostics first.journal) (diagnostics second.journal) := by
  constructor
  · intro context stmts fewer more gains first second
    have spares := Stmt.steadyAll context stmts fewer more gains
    exact ⟨spares.diagnostics.others, spares.diagnostics.uninitialized, spares.returned,
      spares.scopes⟩
  · intro context start condition step body scopes started first second
    have opened := (assigns_lexical start scopes.enter_opened).opened scopes.enter_opened
    exact ⟨Stmt.forDo_journal context start condition step body scopes,
      assigns_again_spare step opened⟩

/-- A loop that counts with an `x` of the outer scope, which holds a value in one run only. -/
theorem Stmt.checkAll_spares_early_reads_count :
    let fewer : ScopeStack := ⟨[⟨[]⟩, ⟨[("x", .var "x" .number)]⟩]⟩
    let more : ScopeStack := ⟨[⟨[]⟩, ⟨[("x", .bound "x" .number)]⟩]⟩
    let stmts : List Stmt :=
      [.forDo [⟨"y", .number 0⟩] none [⟨"x", .binary .add (.var "x") (.var "z")⟩] [],
        .ret (some (.var "x"))]
    let first := Stmt.checkAll (some ⟨"f", .boolean⟩) stmts fewer
    let second := Stmt.checkAll (some ⟨"f", .boolean⟩) stmts more
    fewer.GainsValues more ∧
    diagnostics first.journal = [.undeclaredVariable "y", .uninitializedVariable "x",
      .undeclaredVariable "z", .undeclaredVariable "z", .returnMismatch "f" .boolean .number] ∧
    (diagnostics second.journal).filter (!·.isUninitialized) = [.undeclaredVariable "y",
      .undeclaredVariable "z", .undeclaredVariable "z", .returnMismatch "f" .boolean .number] ∧
    second.returned = true ∧ first.scopes.GainsValues second.scopes := by
  intro fewer more stmts first second
  have aged : (⟨[("x", .var "x" .number)]⟩ : Frame).Ages [] ⟨[("x", .bound "x" .number)]⟩ :=
    .insert_aged (by decide : Frame.find? ⟨[("x", .var "x" .number)]⟩ "x" = some (.var "x" .number))
      ⟨rfl, rfl, rfl, nofun⟩
  have gains : fewer.GainsValues more := .cons (.refl [] _) (.cons aged .nil)
  obtain ⟨others, _, returned, scopes⟩ :=
    checkAll_spares_early_reads.1 (some ⟨"f", .boolean⟩) stmts fewer more gains
  exact ⟨gains, by decide, others.trans (by decide), returned.trans (by decide), scopes⟩

end Caju
