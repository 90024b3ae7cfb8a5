import Caju.Proofs.Scoping
import Caju.Proofs.StaticSemantics

/-! The checker finds nothing wrong with exactly the well-formed programs. Open scopes
are read as a situation of the static semantics, and each check is shown to decide the
rule it stands for: it reports nothing if and only if the rule applies, and then leaves
the scopes of the situation that the rule leads to. -/

namespace Caju

open Check Static

/-- What a symbol says of its name, apart from whether it holds a value. -/
def Symbol.binding (symbol : Symbol) : Binding := ⟨symbol.kind, symbol.ty⟩

def Frame.table (frame : Frame) : Table := fun name => (frame.find? name).map Symbol.binding

/-- The declarations in a list of frames, innermost first, that hold a value. -/
def initialisedIn : List Frame → Set Declaration
  | [] => ∅
  | frame :: frames =>
    {declaration | declaration.1 = frames.length ∧
      ∃ symbol, frame.find? declaration.2 = some symbol ∧ symbol.initialized = true} ∪
    initialisedIn frames

/-- The situation that open scopes stand for. -/
def ScopeStack.situation (scopes : ScopeStack) : Situation :=
  ⟨scopes.frames.map Frame.table, initialisedIn scopes.frames⟩

theorem Static.Resolves.level_lt {scopes : List Table} {name : String} {declaration : Declaration}
    {binding : Binding} (resolved : Resolves scopes name declaration binding) :
    declaration.1 < scopes.length := by
  induction resolved with
  | here _ => simp
  | outward _ _ ih => exact Nat.lt_succ_of_lt ih

private theorem level_lt_of_initialised {frames : List Frame} {declaration : Declaration}
    (member : declaration ∈ initialisedIn frames) : declaration.1 < frames.length := by
  induction frames with
  | nil => exact absurd member (Set.notMem_empty declaration)
  | cons frame frames ih =>
    rcases member with ⟨level, _⟩ | outer
    · simp [level]
    · exact Nat.lt_succ_of_lt (ih outer)

private theorem table_eq_some {frame : Frame} {name : String} {binding : Binding}
    (declared : frame.table name = some binding) :
    ∃ symbol, frame.find? name = some symbol ∧ symbol.binding = binding :=
  Option.map_eq_some_iff.mp declared

private theorem table_eq_none {frame : Frame} {name : String} :
    frame.table name = none ↔ frame.find? name = none :=
  Option.map_eq_none_iff

/-- A frame whose keys stayed the same stands for the same table. -/
theorem Frame.Ages.table_eq {earlier later : Frame} (ages : earlier.Ages [] later) :
    later.table = earlier.table := by
  funext name
  unfold Frame.table
  cases before : earlier.find? name with
  | none =>
    have absent : later.find? name = none := by
      by_contra present
      exact absurd (ages.fresh name before present) List.not_mem_nil
    rw [absent]
  | some symbol =>
    obtain ⟨aged, found, same⟩ := ages.kept name symbol before
    simp [found, Symbol.binding, same.kind, same.ty]

private theorem tables_eq {frames laters : List Frame}
    (ages : List.Forall₂ (Frame.Ages []) frames laters) :
    laters.map Frame.table = frames.map Frame.table := by
  induction ages with
  | nil => rfl
  | cons head _ ih => simp [head.table_eq, ih]

/-- A symbol with a value, put under a key of the innermost frame. -/
private theorem initialisedIn_insert (frame : Frame) (frames : List Frame) (key : String)
    {symbol : Symbol} (valued : symbol.initialized = true) :
    initialisedIn (frame.insert key symbol :: frames) =
      insert (frames.length, key) (initialisedIn (frame :: frames)) := by
  ext ⟨level, name⟩
  by_cases same : name = key
  · subst same
    simp only [initialisedIn, Frame.find?_insert, Set.mem_union, Set.mem_ofPred_eq, if_true,
      Option.some.injEq, exists_eq_left', valued, and_true, Set.mem_insert_iff, Prod.mk.injEq]
    tauto
  · simp [initialisedIn, Frame.find?_insert, same]

/-- A symbol without a value under a new key. -/
private theorem initialisedIn_insert_new {frame : Frame} (frames : List Frame) {key : String}
    {symbol : Symbol} (absent : frame.find? key = none) (valueless : symbol.initialized = false) :
    initialisedIn (frame.insert key symbol :: frames) = initialisedIn (frame :: frames) := by
  ext ⟨level, name⟩
  by_cases same : name = key
  · subst same
    simp [initialisedIn, Frame.find?_insert, absent, valueless]
  · simp [initialisedIn, Frame.find?_insert, same]

theorem ScopeStack.exists_resolves {scopes : ScopeStack} {name : String} {symbol : Symbol}
    (found : scopes.lookup name = some symbol) :
    ∃ declaration, Resolves scopes.situation.scopes name declaration symbol.binding := by
  obtain ⟨frames⟩ := scopes
  simp only [lookup, situation] at found ⊢
  induction frames with
  | nil => simp at found
  | cons frame frames ih =>
    rw [List.findSome?_cons] at found
    cases here : frame.find? name with
    | some held =>
      have same : held = symbol := by simpa [here] using found
      exact ⟨_, .here (by simp [Frame.table, here, same])⟩
    | none =>
      obtain ⟨declaration, resolved⟩ := ih (by simpa [here] using found)
      exact ⟨declaration, .outward (table_eq_none.mpr here) resolved⟩

/-- The symbol behind a declaration that a name stands for. Whether it holds a value
agrees with the situation, and giving it one is giving the declaration one. -/
private theorem resolves_frames {frames : List Frame} {name : String} {declaration : Declaration}
    {binding : Binding} (resolved : Resolves (frames.map Frame.table) name declaration binding) :
    ∃ symbol, frames.findSome? (·.find? name) = some symbol ∧ symbol.binding = binding ∧
      (declaration ∈ initialisedIn frames ↔ symbol.initialized = true) ∧
      initialisedIn (ScopeStack.markFrames name frames) =
        insert declaration (initialisedIn frames) := by
  induction frames with
  | nil => cases resolved
  | cons frame frames ih =>
    cases resolved with
    | here declared =>
      obtain ⟨symbol, found, same⟩ := table_eq_some declared
      have inner : (frames.length, name) ∉ initialisedIn frames :=
        fun member => Nat.lt_irrefl _ (level_lt_of_initialised member)
      refine ⟨symbol, by simp [found], same, ?_, ?_⟩
      · simp [initialisedIn, found, inner]
      · simp [ScopeStack.markFrames, found, initialisedIn_insert]
    | outward undeclared resolved =>
      have absent := table_eq_none.mp undeclared
      obtain ⟨symbol, found, same, valued, marked⟩ := ih resolved
      have outer : declaration.1 ≠ frames.length := by
        have level := resolved.level_lt
        simp only [List.length_map] at level
        exact Nat.ne_of_lt level
      have length : (ScopeStack.markFrames name frames).length = frames.length :=
        ScopeStack.depth_markInitialized ⟨frames⟩ name
      refine ⟨symbol, by simp [absent, found], same, ?_, ?_⟩
      · simp [initialisedIn, outer, valued]
      · simp only [ScopeStack.markFrames, absent, initialisedIn, marked, length]
        exact Set.union_insert

theorem ScopeStack.Ages.scopes_eq {before after : ScopeStack}
    (ages : before.Ages (Frame.Ages []) after) :
    after.situation.scopes = before.situation.scopes := by
  cases ages with
  | empty => rfl
  | opened inner outer => simp [situation, inner.table_eq, tables_eq outer]

namespace ScopeStack

theorem of_resolves {scopes : ScopeStack} {name : String} {declaration : Declaration}
    {binding : Binding} (resolved : Resolves scopes.situation.scopes name declaration binding) :
    ∃ symbol, scopes.lookup name = some symbol ∧ symbol.binding = binding ∧
      (declaration ∈ scopes.situation.initialised ↔ symbol.initialized = true) ∧
      (scopes.markInitialized name).situation = scopes.situation.initialise declaration := by
  obtain ⟨symbol, found, same, valued, marked⟩ := resolves_frames resolved
  exact ⟨symbol, found, same, valued,
    Situation.ext (scopes.markInitialized_ages name).scopes_eq marked⟩

@[simp] theorem situation_enter (scopes : ScopeStack) :
    scopes.enter.situation = scopes.situation.within := by
  refine Situation.ext rfl ?_
  simp [situation, enter, Situation.within, initialisedIn, Frame.find?, Frame.empty]

theorem lacks_iff {scopes : ScopeStack} (nonempty : scopes.frames ≠ []) (name : String) :
    scopes.situation.Lacks name ↔ scopes.holds name = false := by
  obtain ⟨frames⟩ := scopes
  cases frames with
  | nil => exact absurd rfl nonempty
  | cons frame frames => simp [situation, Situation.Lacks, holds, table_eq_none]

end ScopeStack

private theorem table_insert (frame : Frame) (key : String) (symbol : Symbol) :
    (frame.insert key symbol).table = Function.update frame.table key (some symbol.binding) := by
  funext name
  by_cases same : name = key
  · subst same
    simp [Frame.table, Frame.find?_insert]
  · simp [Frame.table, Frame.find?_insert, same]

/-- Declaring a symbol that holds a value. -/
theorem Check.declare_bind {scopes : ScopeStack} {symbol : Symbol}
    (nonempty : scopes.frames ≠ []) (valued : symbol.initialized = true) :
    (Check.declare symbol scopes).scopes.situation =
      scopes.situation.bind symbol.name symbol.binding := by
  obtain ⟨frames⟩ := scopes
  cases frames with
  | nil => exact absurd rfl nonempty
  | cons frame frames =>
    simp [Check.declare, ScopeStack.declare, ScopeStack.situation, Situation.bind,
      Situation.declare, Situation.initialise, table_insert, initialisedIn_insert _ _ _ valued]

/-- Declaring a symbol without a value, under a new name. -/
theorem Check.declare_new {scopes : ScopeStack} {symbol : Symbol} (nonempty : scopes.frames ≠ [])
    (absent : scopes.holds symbol.name = false) (valueless : symbol.initialized = false) :
    (Check.declare symbol scopes).scopes.situation =
      scopes.situation.declare symbol.name symbol.binding := by
  obtain ⟨frames⟩ := scopes
  cases frames with
  | nil => exact absurd rfl nonempty
  | cons frame frames =>
    have unheld : frame.find? symbol.name = none := by simpa [ScopeStack.holds] using absent
    simp [Check.declare, ScopeStack.declare, ScopeStack.situation, Situation.declare, table_insert,
      initialisedIn_insert_new frames unheld valueless]

/-- A check in a scope of its own ends where a block ends. -/
theorem Check.inScope_after {scopes : ScopeStack} {innermost : Frame → Frame → Prop}
    {body : ScopeStack → Outcome} (inside : Lexical innermost scopes.enter (body scopes.enter)) :
    (inScope body scopes).scopes.situation =
      scopes.situation.after (body scopes.enter).scopes.situation := by
  obtain ⟨frame, frames, ended, outer, result⟩ := inside.inScope_eq
  rw [result, ended]
  refine Situation.ext (tables_eq outer) ?_
  ext declaration
  have level := @level_lt_of_initialised frames declaration
  simp only [ScopeStack.situation, Situation.after, initialisedIn, List.length_map,
    outer.length_eq, Set.mem_ofPred_eq, Set.mem_union]
  constructor
  · intro member
    exact ⟨.inr member, level member⟩
  · rintro ⟨⟨innermost, _⟩ | member, lower⟩
    · omega
    · exact member

@[simp] theorem Check.diagnostics_cons (event : Event) (journal : List Event) :
    diagnostics (event :: journal) = event.diagnostic?.toList ++ diagnostics journal := by
  cases found : event.diagnostic? <;> simp [diagnostics, found]

@[simp] theorem Check.diagnostics_require (holds : Bool) (diagnostic : Diagnostic) :
    diagnostics (require holds diagnostic) = [] ↔ holds = true := by
  cases holds <;> simp [require, Event.diagnostic?]

theorem Check.diagnostics_inScope {scopes : ScopeStack} {innermost : Frame → Frame → Prop}
    {body : ScopeStack → Outcome} (inside : Lexical innermost scopes.enter (body scopes.enter)) :
    diagnostics (inScope body scopes).journal = diagnostics (body scopes.enter).journal := by
  obtain ⟨frame, frames, ended, outer, result⟩ := inside.inScope_eq
  rw [result]
  simp [Event.diagnostic?]

/-- Operators work on anything, and what they give depends on nothing else. -/
theorem Static.hasType_binary_iff {s : Situation} {op : BinOp} {left right : Expr} {ty : Ty} :
    HasType s (.binary op left right) ty ↔
      op.opClass.result = ty ∧ (∃ found, HasType s left found) ∧ ∃ found, HasType s right found := by
  constructor
  · intro typed
    cases typed with
    | arithmetic computes first second =>
      refine ⟨?_, ⟨_, first⟩, ⟨_, second⟩⟩
      revert computes
      cases op <;> decide
    | truth decides first second =>
      refine ⟨?_, ⟨_, first⟩, ⟨_, second⟩⟩
      revert decides
      cases op <;> decide
  · rintro ⟨rfl, ⟨_, first⟩, ⟨_, second⟩⟩
    cases op with
    | add | sub | mul | div | mod => exact .arithmetic (by decide) first second
    | _ => exact .truth (by decide) first second

mutual

/-- The type that the checker works out without complaint is the type of an expression. -/
theorem Expr.hasType_iff (scopes : ScopeStack) : ∀ (expr : Expr) (ty : Ty),
    HasType scopes.situation expr ty ↔
      diagnostics (expr.infer scopes).2 = [] ∧ (expr.infer scopes).1 = ty
  | .number value, ty => by
    constructor
    · intro typed
      cases typed
      simp [Expr.infer]
    · rintro ⟨-, rfl⟩
      exact .number
  | .boolean value, ty => by
    constructor
    · intro typed
      cases typed
      simp [Expr.infer]
    · rintro ⟨-, rfl⟩
      exact .boolean
  | .character value, ty => by
    rw [Expr.infer]
    constructor
    · intro typed
      cases typed with
      | character fits => simpa using fits
    · rintro ⟨fits, rfl⟩
      exact .character (by simpa using fits)
  | .var name, ty => by
    rw [Expr.infer]
    constructor
    · intro typed
      cases typed with
      | var resolved initialised =>
        obtain ⟨symbol, found, rfl, valued, _⟩ := ScopeStack.of_resolves resolved
        simp [found, valued.mp initialised, Event.diagnostic?, Symbol.binding]
    · cases found : scopes.lookup name with
      | none => simp [Event.diagnostic?]
      | some symbol =>
        rintro ⟨clean, rfl⟩
        obtain ⟨declaration, resolved⟩ := ScopeStack.exists_resolves found
        obtain ⟨other, foundOther, same, valued, _⟩ := ScopeStack.of_resolves resolved
        obtain rfl : symbol = other := Option.some.inj (found.symm.trans foundOther)
        have initialised : symbol.initialized = true := by simpa [Event.diagnostic?] using clean
        exact .var resolved (valued.mpr initialised)
  | .binary op left right, ty => by
    rw [Expr.infer, Static.hasType_binary_iff]
    simp only [diagnostics_append, List.append_eq_nil_iff, left.hasType_iff scopes,
      right.hasType_iff scopes]
    simp [and_comm]
  | .not operand, ty => by
    rw [Expr.infer]
    simp only [diagnostics_append, List.append_eq_nil_iff, diagnostics_require]
    constructor
    · intro typed
      cases typed with
      | not typed accepted =>
        obtain ⟨clean, rfl⟩ := (operand.hasType_iff scopes _).mp typed
        exact ⟨⟨clean, accepted⟩, rfl⟩
    · rintro ⟨⟨clean, accepted⟩, rfl⟩
      exact .not ((operand.hasType_iff scopes _).mpr ⟨clean, rfl⟩) accepted
  | .neg operand, ty => by
    rw [Expr.infer]
    simp only [diagnostics_append, List.append_eq_nil_iff, diagnostics_require]
    constructor
    · intro typed
      cases typed with
      | neg typed accepted =>
        obtain ⟨clean, rfl⟩ := (operand.hasType_iff scopes _).mp typed
        exact ⟨⟨clean, accepted⟩, rfl⟩
    · rintro ⟨⟨clean, accepted⟩, rfl⟩
      exact .neg ((operand.hasType_iff scopes _).mpr ⟨clean, rfl⟩) accepted
  | .call callee args, ty => by
    rw [Expr.infer]
    constructor
    · intro typed
      cases typed with
      | call resolved fit =>
        obtain ⟨symbol, found, same, _, _⟩ := ScopeStack.of_resolves resolved
        obtain ⟨arity, clean⟩ := (Expr.argumentsFit_iff scopes callee 1 args _).mp fit
        have kind : symbol.kind = _ := congrArg Binding.kind same
        simp [found, kind, arity, clean]
    · cases found : scopes.lookup callee with
      | none => simp [Event.diagnostic?]
      | some symbol =>
        obtain ⟨declaration, resolved⟩ := ScopeStack.exists_resolves found
        cases kind : symbol.kind with
        | var => simp [kind, Event.diagnostic?]
        | param => simp [kind, Event.diagnostic?]
        | function params result =>
          by_cases arity : args.length = params.length
          · simp only [kind, arity, if_true]
            rintro ⟨clean, rfl⟩
            have fit := (Expr.argumentsFit_iff scopes callee 1 args params).mpr ⟨arity, clean⟩
            simp only [Symbol.binding, kind] at resolved
            exact .call resolved fit
          · simp [kind, arity, Event.diagnostic?]

theorem Expr.argumentsFit_iff (scopes : ScopeStack) (callee : String) :
    ∀ (position : Nat) (args : List Expr) (params : List Ty),
      ArgumentsFit scopes.situation args params ↔
        args.length = params.length ∧
          diagnostics (Expr.checkArgs scopes callee position params args) = []
  | _, [], [] => by simp [Expr.checkArgs, ArgumentsFit.nil]
  | _, [], _ :: _ => ⟨nofun, by simp⟩
  | _, _ :: _, [] => ⟨nofun, by simp⟩
  | position, arg :: args, expected :: params => by
    rw [Expr.checkArgs]
    simp only [diagnostics_append, List.append_eq_nil_iff, diagnostics_require, List.length_cons,
      Nat.add_right_cancel_iff]
    constructor
    · intro fit
      cases fit with
      | cons typed accepted rest =>
        obtain ⟨clean, rfl⟩ := (arg.hasType_iff scopes _).mp typed
        obtain ⟨arity, others⟩ :=
          (Expr.argumentsFit_iff scopes callee (position + 1) args params).mp rest
        exact ⟨arity, ⟨clean, accepted⟩, others⟩
    · rintro ⟨arity, ⟨clean, accepted⟩, others⟩
      exact .cons ((arg.hasType_iff scopes _).mpr ⟨clean, rfl⟩) accepted
        ((Expr.argumentsFit_iff scopes callee (position + 1) args params).mpr ⟨arity, others⟩)

end

theorem Expr.accepted_iff (scopes : ScopeStack) (expr : Expr) (expected : Ty) :
    (∃ found, HasType scopes.situation expr found ∧ expected.accepts found = true) ↔
      diagnostics (expr.infer scopes).2 = [] ∧ expected.accepts (expr.infer scopes).1 = true := by
  constructor
  · rintro ⟨found, typed, accepted⟩
    obtain ⟨clean, rfl⟩ := (expr.hasType_iff scopes found).mp typed
    exact ⟨clean, accepted⟩
  · rintro ⟨clean, accepted⟩
    exact ⟨_, (expr.hasType_iff scopes _).mpr ⟨clean, rfl⟩, accepted⟩

theorem Expr.isCondition_iff (construct : Construct) (scopes : ScopeStack) (condition : Expr) :
    IsCondition scopes.situation condition ↔
      diagnostics (condition.checkCondition construct scopes) = [] := by
  simp only [IsCondition, condition.accepted_iff, Expr.checkCondition, diagnostics_append,
    List.append_eq_nil_iff, diagnostics_require]

namespace Check

/-- A check decides a rule if, whenever a scope is open, it reports nothing exactly
where the rule applies, and ends in the situation that the rule leads to. -/
def Decides (check : ScopeStack → Outcome) (rule : Situation → Situation → Prop) : Prop :=
  ∀ scopes : ScopeStack, scopes.frames ≠ [] → ∀ last,
    rule scopes.situation last ↔
      diagnostics (check scopes).journal = [] ∧ (check scopes).scopes.situation = last

/-- The rule of a block whose inside has the given rule. -/
def InBlock (rule : Situation → Situation → Prop) (s last : Situation) : Prop :=
  ∃ inner, rule s.within inner ∧ s.after inner = last

/-- One check after another decides one rule after another. -/
theorem Decides.andThen {check next : ScopeStack → Outcome}
    {rule later : Situation → Situation → Prop} (first : Decides check rule)
    (second : Decides next later) {scopes : ScopeStack} (nonempty : scopes.frames ≠ [])
    (opened : (check scopes).scopes.frames ≠ []) (last : Situation) :
    (∃ middle, rule scopes.situation middle ∧ later middle last) ↔
      diagnostics ((check scopes).andThen next).journal = [] ∧
        ((check scopes).andThen next).scopes.situation = last := by
  simp only [Outcome.andThen, diagnostics_append, List.append_eq_nil_iff]
  constructor
  · rintro ⟨middle, before, after⟩
    obtain ⟨clean, rfl⟩ := (first scopes nonempty middle).mp before
    obtain ⟨cleanNext, ended⟩ := (second _ opened last).mp after
    exact ⟨⟨clean, cleanNext⟩, ended⟩
  · rintro ⟨⟨clean, cleanNext⟩, ended⟩
    exact ⟨_, (first scopes nonempty _).mpr ⟨clean, rfl⟩, (second _ opened last).mpr ⟨cleanNext, ended⟩⟩

theorem Decides.sequence {α : Type} {check : α → ScopeStack → Outcome}
    {rule : Situation → α → Situation → Prop} (xs : List α)
    (each : ∀ x, Decides (check x) fun s last => rule s x last)
    (opened : ∀ x scopes, scopes.frames ≠ [] → (check x scopes).scopes.frames ≠ []) :
    Decides (sequence check xs) fun s last => InOrder rule s xs last := by
  induction xs with
  | nil =>
    intro scopes _ last
    constructor
    · intro ordered
      cases ordered
      exact ⟨rfl, rfl⟩
    · rintro ⟨-, rfl⟩
      exact .nil
  | cons x rest ih =>
    intro scopes nonempty last
    have both := (each x).andThen ih nonempty (opened x scopes nonempty) last
    rw [Check.sequence, ← both]
    constructor
    · intro ordered
      cases ordered with
      | cons first later => exact ⟨_, first, later⟩
    · rintro ⟨middle, first, later⟩
      exact .cons first later

theorem Decides.inScope {body : ScopeStack → Outcome} {rule : Situation → Situation → Prop}
    (decides : Decides body rule) (lexical : Contained body) :
    Decides (inScope body) (InBlock rule) := by
  intro scopes _ last
  have inside := lexical scopes.enter_opened
  rw [diagnostics_inScope inside, inScope_after inside, InBlock]
  have decided := decides scopes.enter scopes.enter_opened
  rw [ScopeStack.situation_enter] at decided
  constructor
  · rintro ⟨inner, applies, rfl⟩
    obtain ⟨clean, rfl⟩ := (decided inner).mp applies
    exact ⟨clean, rfl⟩
  · rintro ⟨clean, rfl⟩
    exact ⟨_, (decided _).mpr ⟨clean, rfl⟩, rfl⟩

end Check

private theorem declareNew_of_lacks {scopes : ScopeStack} {symbol : Symbol}
    (nonempty : scopes.frames ≠ []) (lacks : scopes.situation.Lacks symbol.name)
    (duplicate : Diagnostic) :
    declareNew duplicate symbol scopes = declare symbol scopes := by
  simp [declareNew, (ScopeStack.lacks_iff nonempty symbol.name).mp lacks]

private theorem declareNew_clean_iff {scopes : ScopeStack} (nonempty : scopes.frames ≠ [])
    (duplicate : Diagnostic) (symbol : Symbol) :
    diagnostics (declareNew duplicate symbol scopes).journal = [] ↔
      scopes.situation.Lacks symbol.name := by
  rw [ScopeStack.lacks_iff nonempty, diagnostics_declareNew]
  cases scopes.holds symbol.name <;> simp

theorem VarDecl.decides (decl : VarDecl) :
    Decides decl.check fun s last => InOrder (DeclaresName decl.ty) s decl.names last := by
  refine .sequence decl.names (fun name scopes nonempty last => ?_)
    fun _ _ nonempty => (Lexical.declareNew _ _ nonempty).opened nonempty
  have clean := declareNew_clean_iff nonempty (.duplicateVariable name) (.var name decl.ty)
  rw [clean]
  have declared (lacks : scopes.situation.Lacks name) :
      (declareNew (.duplicateVariable name) (.var name decl.ty) scopes).scopes.situation =
        scopes.situation.declare name ⟨.var, decl.ty⟩ := by
    rw [declareNew_of_lacks nonempty lacks]
    exact declare_new nonempty ((ScopeStack.lacks_iff nonempty name).mp lacks) rfl
  constructor
  · intro declares
    cases declares with
    | new unused => exact ⟨unused, declared unused⟩
  · rintro ⟨unused, rfl⟩
    rw [declared unused]
    exact .new unused

theorem Assign.decides (assign : Assign) :
    Decides assign.check fun s last => Assigns s assign last := by
  intro scopes _ last
  unfold Assign.check
  constructor
  · intro assigns
    cases assigns with
    | fits resolved typed accepted =>
      obtain ⟨symbol, found, rfl, _, marked⟩ := ScopeStack.of_resolves resolved
      obtain ⟨clean, rfl⟩ := (assign.value.hasType_iff scopes _).mp typed
      have fits : symbol.ty.accepts (assign.value.infer scopes).1 = true := accepted
      simp [found, clean, fits, marked, Event.diagnostic?]
  · cases found : scopes.lookup assign.target with
    | none => simp [Outcome.noting, Event.diagnostic?]
    | some symbol =>
      simp only [diagnostics_append, List.append_eq_nil_iff, diagnostics_require]
      rintro ⟨⟨⟨clean, accepted⟩, _⟩, rfl⟩
      obtain ⟨declaration, resolved⟩ := ScopeStack.exists_resolves found
      obtain ⟨_, _, _, _, marked⟩ := ScopeStack.of_resolves resolved
      rw [marked]
      exact .fits resolved ((assign.value.hasType_iff scopes _).mpr ⟨clean, rfl⟩) accepted

theorem assigns_decides (steps : List Assign) :
    Decides (sequence Assign.check steps) fun s last => InOrder Assigns s steps last :=
  .sequence steps Assign.decides fun step scopes nonempty =>
    (step.check_lexical scopes).opened nonempty

mutual

/-- More declarations with values change no type. -/
theorem Static.HasType.mono {s t : Situation} (scopes : t.scopes = s.scopes)
    (initialised : s.initialised ⊆ t.initialised) :
    ∀ {expr : Expr} {ty : Ty}, HasType s expr ty → HasType t expr ty
  | _, _, .number => .number
  | _, _, .character fits => .character fits
  | _, _, .boolean => .boolean
  | _, _, .var resolved valued => .var (scopes ▸ resolved) (initialised valued)
  | _, _, .arithmetic computes first second =>
    .arithmetic computes (first.mono scopes initialised) (second.mono scopes initialised)
  | _, _, .truth decides first second =>
    .truth decides (first.mono scopes initialised) (second.mono scopes initialised)
  | _, _, .not typed accepted => .not (typed.mono scopes initialised) accepted
  | _, _, .neg typed accepted => .neg (typed.mono scopes initialised) accepted
  | _, _, .call resolved fit => .call (scopes ▸ resolved) (fit.mono scopes initialised)

theorem Static.ArgumentsFit.mono {s t : Situation} (scopes : t.scopes = s.scopes)
    (initialised : s.initialised ⊆ t.initialised) :
    ∀ {args : List Expr} {params : List Ty}, ArgumentsFit s args params → ArgumentsFit t args params
  | _, _, .nil => .nil
  | _, _, .cons typed accepted rest =>
    .cons (typed.mono scopes initialised) accepted (rest.mono scopes initialised)

end

private theorem assigns_grows {s last : Situation} {steps : List Assign}
    (assigned : InOrder Assigns s steps last) :
    last.scopes = s.scopes ∧ s.initialised ⊆ last.initialised := by
  induction assigned with
  | nil => exact ⟨rfl, subset_rfl⟩
  | cons first _ ih =>
    cases first with
    | fits _ _ _ => exact ⟨ih.1, (Set.subset_insert _ _).trans ih.2⟩

/-- Assignments made once may be made again, and the second time change nothing. -/
theorem assigns_again {s last : Situation} {steps : List Assign}
    (assigned : InOrder Assigns s steps last) : InOrder Assigns last steps last := by
  induction assigned with
  | nil => exact .nil
  | @cons s middle last step rest first later ih =>
    obtain ⟨scopes, initialised⟩ := assigns_grows later
    cases first with
    | @fits declaration _ _ resolved typed accepted =>
      have valued : declaration ∈ last.initialised := initialised (Set.mem_insert _ _)
      have unchanged : last.initialise declaration = last :=
        Situation.ext rfl (Set.insert_eq_of_mem valued)
      have grown := (Set.subset_insert declaration s.initialised).trans initialised
      have same : last.scopes = s.scopes := scopes
      have step := Assigns.fits (same ▸ resolved) (typed.mono same grown) accepted
      rw [unchanged] at step
      exact .cons step ih

theorem checkContainer_iff (scopes : ScopeStack) (ty : Ty) (name container : String) :
    IsContainer scopes.situation ty container ↔
      diagnostics (checkContainer ty name container scopes) = [] := by
  unfold checkContainer
  constructor
  · rintro ⟨declaration, binding, element, resolved, array, accepted⟩
    obtain ⟨symbol, found, rfl, _, _⟩ := ScopeStack.of_resolves resolved
    have elements : symbol.ty.element? = some element := by
      have symbolTy : symbol.ty = .array element := array
      simp [symbolTy, Ty.element?]
    simp [found, elements, accepted]
  · cases found : scopes.lookup container with
    | none => simp [Event.diagnostic?]
    | some symbol =>
      dsimp only
      cases elements : symbol.ty.element? with
      | none => simp [Event.diagnostic?]
      | some element =>
        simp only [diagnostics_require]
        intro accepted
        obtain ⟨declaration, resolved⟩ := ScopeStack.exists_resolves found
        have array : symbol.ty = .array element := by
          cases symbolTy : symbol.ty <;> simp_all [Ty.element?]
        exact ⟨declaration, _, element, resolved, array, accepted⟩

theorem checkReturnValue_iff (scopes : ScopeStack) (context : Context) (value : Option Expr) :
    MayReturn context.result scopes.situation value ↔
      diagnostics (checkReturnValue context value scopes) = [] := by
  cases value with
  | none => cases result : context.result <;> simp [checkReturnValue, MayReturn, Ty.isVoid, result]
  | some value =>
    simp only [MayReturn, value.accepted_iff, checkReturnValue, diagnostics_append,
      List.append_eq_nil_iff, diagnostics_require]

private theorem forCondition_iff (scopes : ScopeStack) (condition : Option Expr) :
    (∀ expr ∈ condition, IsCondition scopes.situation expr) ↔
      diagnostics ((condition.map (Expr.checkCondition .forDo scopes)).getD []) = [] := by
  cases condition with
  | none => simp
  | some condition => simpa using condition.isCondition_iff .forDo scopes

/-- A condition, and then a block. -/
private theorem guarded_decides {body : ScopeStack → Outcome} {rule : Situation → Situation → Prop}
    (construct : Construct) (condition : Expr) (decides : Decides (inScope body) rule) :
    Decides
      (fun scopes => (Outcome.noting (condition.checkCondition construct scopes) scopes).andThen
        (inScope body))
      fun s last => IsCondition s condition ∧ rule s last := by
  intro scopes nonempty last
  dsimp only
  rw [condition.isCondition_iff construct scopes, decides scopes nonempty last]
  simp [Outcome.andThen, Outcome.noting, and_assoc]

/-- The steps of a loop that nothing is wrong with are fine the second time as well, and
leave the situation as it is. -/
theorem checkLoop_decides (start : List Assign) (condition : Option Expr) (step : List Assign)
    {body : ScopeStack → Outcome} {rule : Situation → Situation → Prop}
    (inside : Decides body rule) :
    Decides (checkLoop start condition step body) fun s last =>
      ∃ started stepped, InOrder Assigns s start started ∧ InOrder Assigns started step stepped ∧
        (∀ expr ∈ condition, IsCondition stepped expr) ∧ rule stepped last := by
  intro scopes nonempty last
  have startedOpen := (assigns_lexical start nonempty).opened nonempty
  have steppedOpen := (assigns_lexical step startedOpen).opened startedOpen
  have againOpen := (assigns_lexical step steppedOpen).opened steppedOpen
  simp only [checkLoop, Outcome.andThen, Outcome.noting, diagnostics_append,
    List.append_eq_nil_iff]
  constructor
  · rintro ⟨started, stepped, starts, steps, decided, applies⟩
    obtain ⟨startClean, rfl⟩ := (assigns_decides start scopes nonempty _).mp starts
    obtain ⟨stepClean, rfl⟩ := (assigns_decides step _ startedOpen _).mp steps
    -- The second pass over the steps finds all of them clean and nothing left to initialise.
    obtain ⟨againClean, same⟩ := (assigns_decides step _ steppedOpen _).mp (assigns_again steps)
    rw [← same] at applies
    obtain ⟨bodyClean, ended⟩ := (inside _ againOpen last).mp applies
    exact ⟨⟨⟨⟨⟨startClean, stepClean⟩, (forCondition_iff _ condition).mp decided⟩, againClean⟩,
      bodyClean⟩, ended⟩
  · rintro ⟨⟨⟨⟨⟨startClean, stepClean⟩, decided⟩, _⟩, bodyClean⟩, ended⟩
    have starts := (assigns_decides start scopes nonempty _).mpr ⟨startClean, rfl⟩
    have steps := (assigns_decides step _ startedOpen _).mpr ⟨stepClean, rfl⟩
    obtain ⟨_, same⟩ := (assigns_decides step _ steppedOpen _).mp (assigns_again steps)
    have applies := (inside _ againOpen last).mpr ⟨bodyClean, ended⟩
    rw [same] at applies
    exact ⟨_, _, starts, steps, (forCondition_iff _ condition).mpr decided, applies⟩

theorem checkEach_decides (ty : Ty) (name container : String) {body : ScopeStack → Outcome}
    {rule : Situation → Situation → Prop} (inside : Decides body rule) :
    Decides (checkEach ty name container body) fun s last =>
      IsContainer (s.bind name ⟨.var, ty⟩) ty container ∧ rule (s.bind name ⟨.var, ty⟩) last := by
  intro scopes nonempty last
  have boundOpen := (Lexical.declare_any (.bound name ty) nonempty).opened nonempty
  have bound : (Check.declare (.bound name ty) scopes).scopes.situation =
      scopes.situation.bind name ⟨.var, ty⟩ := declare_bind nonempty rfl
  have quiet : diagnostics (Check.declare (.bound name ty) scopes).journal = [] :=
    diagnostics_declare (.bound name ty) _
  dsimp only
  rw [← bound, checkContainer_iff _ ty name container, inside _ boundOpen last]
  simp [checkEach, Outcome.andThen, Outcome.noting, quiet, and_assoc]

mutual

/-- Checking a statement decides its rule. -/
theorem Stmt.decides (context : Context) : ∀ stmt : Stmt,
    Decides (stmt.check (some context)) fun s last => Checks context.result s stmt last
  | .declare decl => by
    intro scopes nonempty last
    rw [Stmt.check, ← decl.decides scopes nonempty last]
    constructor
    · intro checks
      cases checks with
      | declare names => exact names
    · exact .declare
  | .assign step => by
    intro scopes nonempty last
    rw [Stmt.check, ← step.decides scopes nonempty last]
    constructor
    · intro checks
      cases checks with
      | assign assigned => exact assigned
    · exact .assign
  | .call callee args => by
    intro scopes nonempty last
    rw [Stmt.check]
    constructor
    · intro checks
      cases checks with
      | call typed => exact ⟨((Expr.call callee args).hasType_iff scopes _).mp typed |>.1, rfl⟩
    · rintro ⟨clean, rfl⟩
      exact .call (((Expr.call callee args).hasType_iff scopes _).mpr ⟨clean, rfl⟩)
  | .ifElse condition yes none => by
    intro scopes nonempty last
    have taken := Decides.inScope (Stmt.decidesAll context yes)
      (Stmt.checkAll_contained (some context) yes)
    rw [Stmt.check, ← guarded_decides .ifElse condition taken scopes nonempty last]
    constructor
    · intro checks
      cases checks with
      | ifOnly decided taken => exact ⟨decided, _, taken, rfl⟩
    · rintro ⟨decided, inner, taken, rfl⟩
      exact .ifOnly decided taken
  | .ifElse condition yes (some no) => by
    intro scopes nonempty last
    have taken := Decides.inScope (Stmt.decidesAll context yes)
      (Stmt.checkAll_contained (some context) yes)
    have otherwise := Decides.inScope (Stmt.decidesAll context no)
      (Stmt.checkAll_contained (some context) no)
    have opened := ((Stmt.ifElse condition yes none).check_lexical (some context) nonempty).opened
      nonempty
    rw [Stmt.check] at opened
    have both := (guarded_decides .ifElse condition taken).andThen otherwise nonempty opened last
    rw [Stmt.check, ← both]
    constructor
    · intro checks
      cases checks with
      | ifElse decided taken otherwise => exact ⟨_, ⟨decided, _, taken, rfl⟩, _, otherwise, rfl⟩
    · rintro ⟨_, ⟨decided, _, taken, rfl⟩, _, otherwise, rfl⟩
      exact .ifElse decided taken otherwise
  | .whileDo condition body => by
    intro scopes nonempty last
    have inside := Decides.inScope (Stmt.decidesAll context body)
      (Stmt.checkAll_contained (some context) body)
    rw [Stmt.check, ← guarded_decides .whileDo condition inside scopes nonempty last]
    constructor
    · intro checks
      cases checks with
      | whileDo decided inside => exact ⟨decided, _, inside, rfl⟩
    · rintro ⟨decided, inner, inside, rfl⟩
      exact .whileDo decided inside
  | .forDo start condition step body => by
    intro scopes nonempty last
    have inside := Decides.inScope
      (checkLoop_decides start condition step (Stmt.decidesAll context body))
      (checkLoop_contained start condition step (some context) body)
    rw [Stmt.check, ← inside scopes nonempty last]
    constructor
    · intro checks
      cases checks with
      | forDo starts steps decided inside => exact ⟨_, ⟨_, _, starts, steps, decided, inside⟩, rfl⟩
    · rintro ⟨_, ⟨_, _, starts, steps, decided, inside⟩, rfl⟩
      exact .forDo starts steps decided inside
  | .forEach ty name container body => by
    intro scopes nonempty last
    have inside := Decides.inScope
      (checkEach_decides ty name container (Stmt.decidesAll context body))
      (checkEach_contained ty name container (some context) body)
    rw [Stmt.check, ← inside scopes nonempty last]
    constructor
    · intro checks
      cases checks with
      | forEach visited inside => exact ⟨_, ⟨visited, inside⟩, rfl⟩
    · rintro ⟨_, ⟨visited, inside⟩, rfl⟩
      exact .forEach visited inside
  | .ret value => by
    intro scopes nonempty last
    rw [Stmt.check]
    constructor
    · intro checks
      cases checks with
      | ret returned => exact ⟨(checkReturnValue_iff scopes context value).mp returned, rfl⟩
    · rintro ⟨clean, rfl⟩
      exact .ret ((checkReturnValue_iff scopes context value).mpr clean)

theorem Stmt.decidesAll (context : Context) : ∀ stmts : List Stmt,
    Decides (Stmt.checkAll (some context) stmts) fun s last =>
      ChecksAll context.result s stmts last
  | [] => by
    intro scopes _ last
    rw [Stmt.checkAll]
    constructor
    · intro checks
      cases checks
      exact ⟨rfl, rfl⟩
    · rintro ⟨-, rfl⟩
      exact .nil
  | stmt :: rest => by
    intro scopes nonempty last
    have opened := (stmt.check_lexical (some context) nonempty).opened nonempty
    have both := (Stmt.decides context stmt).andThen (Stmt.decidesAll context rest) nonempty opened last
    rw [Stmt.checkAll, ← both]
    constructor
    · intro checks
      cases checks with
      | cons first later => exact ⟨_, first, later⟩
    · rintro ⟨middle, first, later⟩
      exact .cons first later

end

section Returns

variable (context : Context)

mutual

/-- There is a `retorne` in the plan of a statement exactly if there is one in the statement. -/
theorem Stmt.plan_returns : ∀ stmt : Stmt,
    (Plan.tasksAll (stmt.plan (some context))).any Task.returns = stmt.returns
  | .declare decl => by simp [Stmt.plan, Stmt.returns, Task.returns]
  | .assign _ => rfl
  | .call _ _ => rfl
  | .ret _ => rfl
  | .ifElse _ yes none => by
    simp [Stmt.plan, Stmt.returns, Plan.tasksAll, Plan.tasks, Task.returns,
      Stmt.planAll_returns yes]
  | .ifElse _ yes (some no) => by
    simp [Stmt.plan, Stmt.returns, Plan.tasksAll, Plan.tasks, Task.returns,
      Stmt.planAll_returns yes, Stmt.planAll_returns no]
  | .whileDo _ body => by
    simp [Stmt.plan, Stmt.returns, Plan.tasksAll, Plan.tasks, Task.returns,
      Stmt.planAll_returns body]
  | .forDo start condition step body => by
    have silent (steps : List Assign) : steps.any (Task.returns ∘ Task.assign) = false := by
      simp [Task.returns]
    have looked : condition.toList.any (Task.returns ∘ Task.condition .forDo) = false := by
      simp [Task.returns]
    simp [Stmt.plan, Stmt.returns, Plan.tasksAll, Plan.tasks, silent, looked,
      Stmt.planAll_returns body]
  | .forEach _ _ _ body => by
    simp [Stmt.plan, Stmt.returns, Plan.tasksAll, Plan.tasks, Task.returns,
      Stmt.planAll_returns body]

theorem Stmt.planAll_returns : ∀ stmts : List Stmt,
    (Plan.tasksAll (Stmt.planAll (some context) stmts)).any Task.returns = Stmt.returnsAny stmts
  | [] => rfl
  | stmt :: rest => by
    simp [Stmt.planAll, Stmt.returnsAny, Stmt.plan_returns stmt, Stmt.planAll_returns rest]

end

end Returns

/-- At the end of a function, the check has come past a `retorne` exactly if there is one. -/
theorem Function.checkBody_ending (f : Function) (scopes : ScopeStack) :
    f.checkBody scopes =
      ((sequence (fun param => Check.declare (.param param.name param.ty)) f.params scopes).andThen
        (Stmt.checkAll (some ⟨f.name, f.result⟩) f.body)).andThen
          (.noting (checkReturned f (Stmt.returnsAny f.body))) := by
  have returned : (Plan.checkAll f.bodyPlan scopes).returned = Stmt.returnsAny f.body := by
    rw [Plan.checkAll_returned, Function.bodyPlan, Plan.tasksAll_append, List.any_append,
      Stmt.planAll_returns]
    simp [Task.returns]
  rw [Function.checkBody, ← f.bodyPlan_check, returned]

/-- Declaring parameters one after the other. -/
private theorem params_situation (params : List Param) {scopes : ScopeStack}
    (nonempty : scopes.frames ≠ []) :
    let declared := sequence (fun param => Check.declare (.param param.name param.ty)) params scopes
    declared.scopes.frames ≠ [] ∧ diagnostics declared.journal = [] ∧
      declared.scopes.situation =
        params.foldl (fun s param => s.bind param.name ⟨.param, param.ty⟩) scopes.situation := by
  induction params generalizing scopes with
  | nil => exact ⟨nonempty, rfl, rfl⟩
  | cons param rest ih =>
    have opened := (Lexical.declare_any (.param param.name param.ty) nonempty).opened nonempty
    have bound : (Check.declare (.param param.name param.ty) scopes).scopes.situation =
        scopes.situation.bind param.name ⟨.param, param.ty⟩ := declare_bind nonempty rfl
    obtain ⟨still, quiet, ended⟩ := ih opened
    rw [bound] at ended
    exact ⟨still, by simp [Check.sequence, Outcome.andThen, diagnostics_declare, quiet], ended⟩

private theorem checkReturned_iff (f : Function) :
    (f.result = .void ∨ Stmt.returnsAny f.body = true ∨ f.name = entryPoint) ↔
      diagnostics (checkReturned f (Stmt.returnsAny f.body)) = [] := by
  have void : f.result.isVoid = true ↔ f.result = .void := by
    cases f.result <;> simp [Ty.isVoid]
  simp [checkReturned, void, or_assoc]

theorem Function.checkBody_decides (f : Function) :
    Decides f.checkBody fun s last =>
      ChecksAll f.result
        (f.params.foldl (fun s param => s.bind param.name ⟨.param, param.ty⟩) s) f.body last ∧
      (f.result = .void ∨ Stmt.returnsAny f.body = true ∨ f.name = entryPoint) := by
  intro scopes nonempty last
  obtain ⟨opened, quiet, bound⟩ := params_situation f.params nonempty
  have body := Stmt.decidesAll ⟨f.name, f.result⟩ f.body _ opened last
  dsimp only at body ⊢
  rw [← bound, checkReturned_iff, body, f.checkBody_ending]
  simp only [Outcome.andThen, Outcome.noting, diagnostics_append, quiet, List.nil_append,
    List.append_eq_nil_iff]
  tauto

private theorem functionName_decides (f : Function) :
    Decides
      (fun scopes => (declareNew (.duplicateFunction f.name)
        (.function f.name (f.params.map Param.ty) f.result) scopes).andThen
        (.noting [.checking f.name]))
      fun s last => s.Lacks f.name ∧ s.bind f.name (functionBinding f) = last := by
  intro scopes nonempty last
  have clean := declareNew_clean_iff nonempty (.duplicateFunction f.name)
    (.function f.name (f.params.map Param.ty) f.result)
  have bound (lacks : scopes.situation.Lacks f.name) :
      (declareNew (.duplicateFunction f.name)
        (.function f.name (f.params.map Param.ty) f.result) scopes).scopes.situation =
          scopes.situation.bind f.name (functionBinding f) := by
    rw [declareNew_of_lacks nonempty lacks]
    exact declare_bind nonempty rfl
  simp only [Outcome.andThen, Outcome.noting, diagnostics_append, List.append_eq_nil_iff, clean]
  constructor
  · rintro ⟨lacks, rfl⟩
    exact ⟨⟨lacks, rfl⟩, bound lacks⟩
  · rintro ⟨⟨lacks, _⟩, rfl⟩
    exact ⟨lacks, (bound lacks).symm⟩

theorem Function.decides (f : Function) :
    Decides f.check fun s last => ChecksFunction s f last := by
  intro scopes nonempty last
  have named := Lexical.declareNew (.duplicateFunction f.name)
    (.function f.name (f.params.map Param.ty) f.result) nonempty
  have body := Decides.inScope f.checkBody_decides f.checkBody_contained
  have both := (functionName_decides f).andThen body nonempty (named.opened nonempty) last
  rw [Function.check, ← both]
  constructor
  · intro checks
    cases checks with
    | body unused inside returned => exact ⟨_, ⟨unused, rfl⟩, _, ⟨inside, returned⟩, rfl⟩
  · rintro ⟨_, ⟨unused, rfl⟩, _, ⟨inside, returned⟩, rfl⟩
    exact .body unused inside returned

theorem Item.decides (item : Item) : Decides item.check fun s last => ChecksItem s item last := by
  intro scopes nonempty last
  cases item with
  | declare decl =>
    rw [Item.check, ← decl.decides scopes nonempty last]
    constructor
    · intro checks
      cases checks with
      | declare names => exact names
    · exact .declare
  | function f =>
    rw [Item.check, ← f.decides scopes nonempty last]
    constructor
    · intro checks
      cases checks with
      | function checked => exact checked
    · exact .function

/-- The checker accepts the well-formed programs and no others. -/
theorem Program.diagnostics_eq_nil_iff (p : Program) : p.diagnostics = [] ↔ p.WellFormed := by
  have decides : Decides (sequence Item.check p.items) fun s last =>
      InOrder ChecksItem s p.items last :=
    .sequence p.items Item.decides fun item _ nonempty => (item.check_contained nonempty).opened nonempty
  have inside : Lexical (fun _ _ => True) ScopeStack.empty.enter
      (sequence Item.check p.items ScopeStack.empty.enter) :=
    items_contained p.items (ScopeStack.enter_opened _)
  have situation : ScopeStack.empty.enter.situation = .start := ScopeStack.situation_enter .empty
  have decided := decides ScopeStack.empty.enter (ScopeStack.enter_opened _)
  rw [situation] at decided
  unfold Program.diagnostics Program.check
  rw [diagnostics_inScope inside]
  constructor
  · intro clean
    exact ⟨_, (decided _).mpr ⟨clean, rfl⟩⟩
  · rintro ⟨last, ordered⟩
    exact ((decided last).mp ordered).1

end Caju
