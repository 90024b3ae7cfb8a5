import Caju.Proofs.Visits
import Mathlib.Data.List.Induction

/-! Reading a variable before it holds a value, told from the journal alone. Symbols have no
identity of their own in the scopes, but in the journal a declaration has one, its place.
A name goes back to the latest declaration of it in a scope that is still open, and a
variable holds a value once an assignment has been made whose target goes back to the same
declaration: not to one that hides it or that it hides, but from whichever block. -/

namespace Caju

namespace Check

/-- A declaration in a journal, known by the number of events before it. -/
structure Origin where
  time : Nat
  symbol : Symbol

/-- The declaration that a name goes back to, given what has happened, latest first, with
some of the innermost scopes left out. Going back in time, a scope that was closed is to be
left out up to where it was opened. -/
def origin? (name : String) : Nat → List Event → Option Origin
  | _, [] => none
  | skipped, .left _ :: past => origin? name (skipped + 1) past
  | skipped, .entered _ :: past => origin? name (skipped - 1) past
  | 0, .declared symbol _ :: past =>
    if symbol.name = name then some ⟨past.length, symbol⟩ else origin? name 0 past
  | skipped, _ :: past => origin? name skipped past

/-- The declaration that a name goes back to after the events of a journal. -/
def resolve (journal : List Event) (name : String) : Option Origin := origin? name 0 journal.reverse

/-- The declaration of a name in one open scope, where the innermost is at level 0. -/
def held? (name : String) : Nat → List Event → Option Origin
  | _, [] => none
  | level, .left _ :: past => held? name (level + 1) past
  | 0, .entered _ :: _ => none
  | level + 1, .entered _ :: past => held? name level past
  | 0, .declared symbol _ :: past =>
    if symbol.name = name then some ⟨past.length, symbol⟩ else held? name 0 past
  | level, _ :: past => held? name level past

/-- Whether an assignment has been made to the declaration of some time. -/
def Valued (time : Nat) : List Event → Prop
  | [] => False
  | .assigned target :: past =>
    (origin? target 0 past).map Origin.time = some time ∨ Valued time past
  | _ :: past => Valued time past

/-- A name goes back to a declaration in the scope at a level, or else further out. -/
theorem origin?_eq (name : String) (level : Nat) (past : List Event) :
    origin? name level past = (held? name level past).or (origin? name (level + 1) past) := by
  induction past generalizing level with
  | nil => rfl
  | cons event past ih =>
    cases event with
    | entered depth =>
      cases level with
      | zero => rfl
      | succ level => exact ih level
    | left depth => exact ih (level + 1)
    | declared symbol replaced =>
      cases level with
      | zero =>
        by_cases same : symbol.name = name
        · simp [origin?, held?, same]
        · simpa [origin?, held?, same] using ih 0
      | succ level => simpa [origin?, held?] using ih (level + 1)
    | _ => simpa [origin?, held?] using ih level

theorem held?_name {name : String} {level : Nat} {past : List Event} {origin : Origin}
    (held : held? name level past = some origin) : origin.symbol.name = name := by
  fun_induction held? name level past with
  | case1 => simp at held
  | case2 _ _ _ ih => exact ih held
  | case3 => simp at held
  | case4 _ _ _ ih => exact ih held
  | case5 symbol _ past same =>
    obtain rfl := Option.some.inj held
    exact same
  | case6 _ _ _ _ ih => exact ih held
  | case7 _ _ _ _ _ _ _ ih => exact ih held

theorem held?_lt {name : String} {level : Nat} {past : List Event} {origin : Origin}
    (held : held? name level past = some origin) : origin.time < past.length := by
  fun_induction held? name level past with
  | case1 => simp at held
  | case2 _ _ _ ih => exact Nat.lt_succ_of_lt (ih held)
  | case3 => simp at held
  | case4 _ _ _ ih => exact Nat.lt_succ_of_lt (ih held)
  | case5 symbol _ past same =>
    obtain rfl := Option.some.inj held
    exact Nat.lt_succ_self _
  | case6 _ _ _ _ ih => exact Nat.lt_succ_of_lt (ih held)
  | case7 _ _ _ _ _ _ _ ih => exact Nat.lt_succ_of_lt (ih held)

/-- What a name goes back to is held by one of the scopes that were not left out. -/
theorem held?_of_origin? {name : String} {skipped : Nat} {past : List Event} {origin : Origin}
    (found : origin? name skipped past = some origin) :
    ∃ level, skipped ≤ level ∧ held? name level past = some origin := by
  induction past generalizing skipped with
  | nil => simp [origin?] at found
  | cons event past ih =>
    cases event with
    | entered depth =>
      obtain ⟨level, above, held⟩ := ih found
      exact ⟨level + 1, Nat.sub_le_iff_le_add.mp above, held⟩
    | left depth =>
      obtain ⟨level, above, held⟩ := ih found
      obtain ⟨inner, rfl⟩ : ∃ inner, level = inner + 1 := ⟨level - 1, by omega⟩
      exact ⟨inner, by omega, held⟩
    | declared symbol replaced =>
      cases skipped with
      | zero =>
        by_cases same : symbol.name = name
        · exact ⟨0, Nat.le_refl 0, by simpa [origin?, held?, same] using found⟩
        · obtain ⟨level, above, held⟩ := ih (by simpa [origin?, same] using found)
          refine ⟨level, above, ?_⟩
          cases level with
          | zero => simpa [held?, same] using held
          | succ level => simpa [held?] using held
      | succ skipped =>
        obtain ⟨level, above, held⟩ := ih (by simpa [origin?] using found)
        obtain ⟨inner, rfl⟩ : ∃ inner, level = inner + 1 := ⟨level - 1, by omega⟩
        exact ⟨inner + 1, above, by simpa [held?] using held⟩
    | _ =>
      obtain ⟨level, above, held⟩ := ih (by simpa [origin?] using found)
      exact ⟨level, above, by simpa [held?] using held⟩

theorem held?_declared {name : String} {level : Nat} {symbol : Symbol} {replaced : Option Symbol}
    {past : List Event} {origin : Origin}
    (held : held? name level (.declared symbol replaced :: past) = some origin) :
    (level = 0 ∧ symbol.name = name ∧ origin.time = past.length) ∨
      held? name level past = some origin := by
  cases level with
  | zero =>
    by_cases same : symbol.name = name
    · obtain rfl : ⟨past.length, symbol⟩ = origin := by simpa [held?, same] using held
      exact .inl ⟨rfl, same, rfl⟩
    · exact .inr (by simpa [held?, same] using held)
  | succ level => exact .inr (by simpa [held?] using held)

/-- A declaration stands in one scope only, and under one name. -/
theorem held?_inj {name other : String} {level level' : Nat} {past : List Event}
    {origin origin' : Origin} (held : held? name level past = some origin)
    (held' : held? other level' past = some origin') (same : origin.time = origin'.time) :
    name = other ∧ level = level' := by
  induction past generalizing level level' with
  | nil => simp [held?] at held
  | cons event past ih =>
    cases event with
    | entered depth =>
      cases level with
      | zero => simp [held?] at held
      | succ level =>
        cases level' with
        | zero => simp [held?] at held'
        | succ level' =>
          obtain ⟨names, levels⟩ := ih held held'
          exact ⟨names, by rw [levels]⟩
    | left depth =>
      obtain ⟨names, levels⟩ := ih held held'
      exact ⟨names, Nat.succ.inj levels⟩
    | declared symbol replaced =>
      rcases held?_declared held with ⟨rfl, rfl, new⟩ | old
      · rcases held?_declared held' with ⟨rfl, rfl, _⟩ | old'
        · exact ⟨rfl, rfl⟩
        · exact absurd (new.symm.trans same) (Nat.ne_of_gt (held?_lt old'))
      · rcases held?_declared held' with ⟨_, _, new'⟩ | old'
        · exact absurd (same.trans new') (Nat.ne_of_lt (held?_lt old))
        · exact ih old old'
    | _ => exact ih (by simpa [held?] using held) (by simpa [held?] using held')

/-- Values are given to declarations that have been made. -/
theorem valued_lt {time : Nat} {past : List Event} (valued : Valued time past) :
    time < past.length := by
  induction past with
  | nil => exact valued.elim
  | cons event past ih =>
    cases event with
    | assigned target =>
      rcases valued with now | before
      · obtain ⟨origin, found, rfl⟩ := Option.map_eq_some_iff.mp now
        obtain ⟨level, _, held⟩ := held?_of_origin? found
        exact Nat.lt_succ_of_lt (held?_lt held)
      · exact Nat.lt_succ_of_lt (ih before)
    | _ => exact Nat.lt_succ_of_lt (ih valued)

theorem valued_iff (time : Nat) (journal : List Event) :
    Valued time journal.reverse ↔
      ∃ earlier target later, journal = earlier ++ .assigned target :: later ∧
        (resolve earlier target).map Origin.time = some time := by
  induction journal using List.reverseRecOn with
  | nil => simp [Valued]
  | append_singleton journal event ih =>
    rw [List.reverse_append, List.reverse_singleton, List.singleton_append]
    constructor
    · intro valued
      have before (valued : Valued time journal.reverse) : ∃ earlier target later,
          journal ++ [event] = earlier ++ .assigned target :: later ∧
            (resolve earlier target).map Origin.time = some time := by
        obtain ⟨earlier, target, later, rfl, found⟩ := ih.mp valued
        exact ⟨earlier, target, later ++ [event], by simp, found⟩
      cases event with
      | assigned target =>
        rcases valued with now | valued
        · exact ⟨journal, target, [], rfl, now⟩
        · exact before valued
      | _ => exact before valued
    · rintro ⟨earlier, target, later, split, found⟩
      rcases List.eq_nil_or_concat later with rfl | ⟨later, last, rfl⟩
      · obtain ⟨rfl, rfl⟩ : journal = earlier ∧ event = .assigned target := by
          simpa using List.append_inj' split rfl
        exact .inl found
      · have shorter : journal ++ [event] = (earlier ++ .assigned target :: later) ++ [last] := by
          simpa using split
        obtain ⟨rfl, rfl⟩ : journal = earlier ++ .assigned target :: later ∧ event = last := by
          simpa using List.append_inj' shorter rfl
        have before := ih.mpr ⟨earlier, target, later, rfl, found⟩
        cases event with
        | assigned _ => exact .inr before
        | _ => exact before

/-- Whether an event neither changes the scopes nor gives a value. -/
def Event.isStill : Event → Bool
  | .checking _ => true
  | .misused _ => true
  | .read _ => true
  | .reported _ => true
  | _ => false

/-- The symbol that a declaration has become: it holds a value if it was declared with one,
or has been given one. Only variables are declared without. -/
structure Origin.Becomes (past : List Event) (origin : Origin) (symbol : Symbol) : Prop where
  initialized : symbol.initialized = true ↔
    origin.symbol.initialized = true ∨ Valued origin.time past
  valueless : origin.symbol.initialized = false → ∃ ty, origin.symbol = .var origin.symbol.name ty

/-- Frames, of which the first is at the given level, hold what the past has declared in
their scopes, and there are no scopes beyond them. -/
def Recalls (past : List Event) : Nat → List Frame → Prop
  | level, [] => ∀ name, origin? name level past = none
  | level, frame :: frames =>
    (∀ name, Option.Rel (Origin.Becomes past) (held? name level past) (frame.find? name)) ∧
      Recalls past (level + 1) frames

private theorem becomes_congr {past later : List Event} {held : Option Origin}
    {found : Option Symbol} (becomes : Option.Rel (Origin.Becomes past) held found)
    (valued : ∀ origin, held = some origin →
      (Valued origin.time later ↔ Valued origin.time past)) :
    Option.Rel (Origin.Becomes later) held found := by
  cases becomes with
  | none => exact .none
  | some becomes =>
    refine .some ⟨?_, becomes.valueless⟩
    rw [valued _ rfl]
    exact becomes.initialized

namespace Recalls

variable {past later : List Event} {level : Nat} {frames : List Frame}

/-- The symbol found for a name is the one that its declaration has become. -/
theorem lookup (recalls : Recalls past level frames) (name : String) :
    Option.Rel (Origin.Becomes past) (origin? name level past)
      (frames.findSome? (·.find? name)) := by
  induction frames generalizing level with
  | nil =>
    rw [recalls name]
    exact .none
  | cons frame frames ih =>
    obtain ⟨inner, outer⟩ := recalls
    have here := inner name
    rw [origin?_eq, List.findSome?_cons]
    generalize held? name level past = held at here
    generalize frame.find? name = found at here
    cases here with
    | none => simpa using ih outer
    | some becomes => exact .some becomes

/-- Scopes that go on holding the same declarations, perhaps at another level. -/
theorem shift {level' : Nat} (recalls : Recalls past level frames)
    (held : ∀ name above, held? name (level' + above) later = held? name (level + above) past)
    (origin : ∀ name above, origin? name (level' + above) later = origin? name (level + above) past)
    (valued : ∀ name above origin, held? name (level + above) past = some origin →
      (Valued origin.time later ↔ Valued origin.time past)) :
    Recalls later level' frames := by
  induction frames generalizing level level' with
  | nil => exact fun name => (origin name 0).trans (recalls name)
  | cons frame frames ih =>
    obtain ⟨inner, outer⟩ := recalls
    refine ⟨fun name => ?_, ih outer (fun name above => ?_) (fun name above => ?_)
      fun name above => ?_⟩
    · have here : held? name level' later = held? name level past := held name 0
      rw [here]
      exact becomes_congr (inner name) (valued name 0)
    · rw [Nat.add_assoc, Nat.add_assoc]
      exact held name (1 + above)
    · rw [Nat.add_assoc, Nat.add_assoc]
      exact origin name (1 + above)
    · rw [Nat.add_assoc]
      exact valued name (1 + above)

theorem still {event : Event} (recalls : Recalls past level frames) (still : event.isStill = true) :
    Recalls (event :: past) level frames := by
  cases event with
  | entered _ => simp [Event.isStill] at still
  | left _ => simp [Event.isStill] at still
  | declared _ _ => simp [Event.isStill] at still
  | assigned _ => simp [Event.isStill] at still
  | _ => exact recalls.shift (by simp [held?]) (by simp [origin?]) (by simp [Valued])

theorem entered (recalls : Recalls past 0 frames) (depth : Nat) :
    Recalls (.entered depth :: past) 0 (.empty :: frames) := by
  refine ⟨fun _ => .none, recalls.shift ?_ ?_ (fun _ _ _ _ => Iff.rfl)⟩
  · intro name above
    rw [Nat.zero_add, Nat.zero_add, Nat.add_comm]
    rfl
  · intro name above
    rw [Nat.zero_add, Nat.zero_add, Nat.add_comm]
    rfl

theorem left {frame : Frame} (recalls : Recalls past 0 (frame :: frames)) (depth : Nat) :
    Recalls (.left depth :: past) 0 frames := by
  refine recalls.2.shift ?_ ?_ (fun _ _ _ _ => Iff.rfl)
  · intro name above
    rw [Nat.zero_add, Nat.zero_add, Nat.add_comm]
    rfl
  · intro name above
    rw [Nat.zero_add, Nat.zero_add, Nat.add_comm]
    rfl

theorem declared {frame : Frame} {symbol : Symbol} {depth : Nat}
    (recalls : Recalls past 0 (frame :: frames)) (arises : symbol.Arises depth)
    (replaced : Option Symbol) :
    Recalls (.declared symbol replaced :: past) 0 (frame.insert symbol.name symbol :: frames) := by
  have valued (time : Nat) : Valued time (.declared symbol replaced :: past) ↔ Valued time past :=
    Iff.rfl
  refine ⟨fun name => ?_, recalls.2.shift ?_ ?_ (fun _ _ _ _ => Iff.rfl)⟩
  · rw [Frame.find?_insert]
    by_cases same : name = symbol.name
    · subst same
      -- Nothing was assigned to this declaration before it was made.
      have unvalued : ¬ Valued past.length past := fun valued => Nat.lt_irrefl _ (valued_lt valued)
      have becomes : Origin.Becomes (.declared symbol replaced :: past) ⟨past.length, symbol⟩
          symbol := by
        refine ⟨by simp [valued, unvalued], fun valueless => ?_⟩
        cases arises with
        | var _ name ty => exact ⟨ty, rfl⟩
        | bound _ name ty => simp [Symbol.bound] at valueless
        | param _ name ty => simp [Symbol.param] at valueless
        | function name params result => simp [Symbol.function] at valueless
      simpa [held?] using Option.Rel.some becomes
    · have other : symbol.name ≠ name := fun equal => same equal.symm
      have here := becomes_congr (recalls.1 name) fun origin _ => valued origin.time
      simpa [held?, same, other] using here
  · intro name above
    rw [Nat.zero_add, Nat.add_comm]
    simp [held?]
  · intro name above
    rw [Nat.zero_add, Nat.add_comm]
    simp [origin?]

/-- An assignment gives a value to the declaration that its target goes back to, and to no
other. -/
theorem assigned {target : String} {origin : Origin} (recalls : Recalls past level frames)
    (resolved : origin? target 0 past = some origin)
    (found : origin? target level past = some origin) :
    Recalls (.assigned target :: past) level (ScopeStack.markFrames target frames) := by
  have others {time : Nat} (different : origin.time ≠ time) :
      Valued time (.assigned target :: past) ↔ Valued time past := by
    simp [Valued, resolved, different]
  induction frames generalizing level with
  | nil => simp [recalls target] at found
  | cons frame frames ih =>
    obtain ⟨inner, outer⟩ := recalls
    have here := inner target
    rw [origin?_eq] at found
    unfold ScopeStack.markFrames
    cases held : held? target level past with
    | none =>
      rw [held] at here found
      generalize unmarked : frame.find? target = symbol at here
      cases here
      refine ⟨fun name => ?_, ih outer found⟩
      -- The declaration stands in a scope further out, so it is none of this frame.
      obtain ⟨outside, above, there⟩ := held?_of_origin? found
      refine becomes_congr (inner name) fun other present => others fun same => ?_
      obtain ⟨_, levels⟩ := held?_inj there present same
      omega
    | some holder =>
      rw [held] at here found
      obtain rfl : holder = origin := Option.some.inj found
      generalize frame.find? target = symbol at here
      cases here with
      | some becomes =>
        refine ⟨fun name => ?_, outer.shift (fun _ _ => rfl) (fun _ _ => rfl) ?_⟩
        · rw [Frame.find?_insert]
          by_cases same : name = target
          · subst same
            have valued : Valued holder.time (.assigned name :: past) := .inl (by simp [resolved])
            rw [if_pos rfl]
            refine held ▸ .some ⟨iff_of_true rfl (.inr valued), becomes.valueless⟩
          · rw [if_neg same]
            refine becomes_congr (inner name) fun other present => others fun equal => same ?_
            exact (held?_inj present held equal.symm).1
        · refine fun name above other present => others fun equal => ?_
          obtain ⟨_, levels⟩ := held?_inj held present equal
          omega

end Recalls

/-- Every action keeps the scopes in step with what the journal tells. -/
theorem Action.recalls {past events : List Event} {before after : ScopeStack}
    (action : Action before events after) (recalls : Recalls past.reverse 0 before.frames) :
    Recalls (past ++ events).reverse 0 after.frames := by
  rw [List.reverse_append]
  cases action with
  | enter _ => exact recalls.entered _
  | leave frame frames => exact recalls.left _
  | @declare _ _ symbol replaced arises declared =>
    obtain ⟨frames⟩ := before
    cases frames with
    | nil => simp [ScopeStack.declare] at declared
    | cons frame frames =>
      simp only [ScopeStack.declare, Except.ok.injEq, Prod.mk.injEq] at declared
      obtain ⟨_, rfl⟩ := declared
      exact recalls.declared arises replaced
  | @assign _ name symbol found =>
    have becomes := recalls.lookup name
    have present : before.frames.findSome? (·.find? name) = some symbol := found
    rw [present] at becomes
    generalize resolved : origin? name 0 past.reverse = origin at becomes
    cases becomes with
    | some _ => exact recalls.assigned resolved resolved
  | @read _ name symbol found =>
    cases symbol.initialized with
    | true => exact recalls.still rfl
    | false => exact (recalls.still rfl).still rfl
  | readUndeclared missing => exact recalls.still rfl
  | @aside _ event aside =>
    refine recalls.still ?_
    cases event with
    | reported diagnostic => rfl
    | _ => simp_all [Event.isAside, Event.isStill]

theorem Run.recalls {journal : List Event} {scopes : ScopeStack}
    (run : Run .empty journal scopes) : Recalls journal.reverse 0 scopes.frames := by
  have start : Recalls [].reverse 0 ScopeStack.empty.frames := fun _ => rfl
  have told := run.preserves (fun past scopes => Recalls past.reverse 0 scopes.frames)
    Action.recalls [] start
  rwa [List.nil_append] at told

/-- No action begins with the report of a variable that holds no value. -/
theorem Run.head_ne {scopes last : ScopeStack} {journal : List Event} (run : Run scopes journal last)
    (name : String) : journal.head? ≠ some (.reported (.uninitializedVariable name)) := by
  cases run with
  | done _ => simp
  | next action _ =>
    cases action with
    | aside aside =>
      rintro starts
      obtain rfl := Option.some.inj starts
      simp [Event.isAside] at aside
    | _ => simp

/-- A read is followed by a report exactly if the symbol it finds holds no value. -/
theorem Run.at_read {last : ScopeStack} {before after : List Event} {name : String}
    (run : Run .empty (before ++ .read name :: after) last) :
    ∃ here : ScopeStack, Run .empty before here ∧
      (after.head? = some (.reported (.uninitializedVariable name)) ↔
        ∃ symbol, here.lookup name = some symbol ∧ symbol.initialized = false) := by
  obtain ⟨front, inner, outer, rest, here, beyond, rfl, rfl, ran, action, goesOn⟩ := run.at_event
  generalize split : inner ++ .read name :: outer = events at action
  have silent := goesOn.head_ne name
  cases action with
  | @read _ other symbol found =>
    cases inner with
    | nil =>
      obtain ⟨rfl, rfl⟩ : name = other ∧
          outer = require symbol.initialized (.uninitializedVariable other) := by simpa using split
      refine ⟨here, by rwa [List.append_nil], ?_⟩
      cases valued : symbol.initialized with
      | true => simp [require, silent, found, valued]
      | false => simp [require, found, valued]
    | cons first inner =>
      have later : inner ++ .read name :: outer =
          require symbol.initialized (.uninitializedVariable other) := (List.cons.inj split).2
      have member : .read name ∈ inner ++ .read name :: outer := by simp
      rw [later] at member
      simpa using eq_of_mem_require member
  | @readUndeclared _ other missing =>
    obtain ⟨rfl, rfl, rfl⟩ : inner = [] ∧ name = other ∧ outer = [] := by
      simpa [List.append_eq_singleton_iff] using split
    exact ⟨here, by rwa [List.append_nil], by simp [silent, missing]⟩
  | aside aside =>
    obtain ⟨_, rfl, _⟩ : inner = [] ∧ _ ∧ outer = [] := by
      simpa [List.append_eq_singleton_iff] using split
    simp [Event.isAside] at aside
  | _ => simp [List.append_eq_singleton_iff] at split

/-- Where a variable is reported to hold no value, it has just been read. -/
theorem Run.at_report {scopes last : ScopeStack} {before after : List Event} {name : String}
    (run : Run scopes (before ++ .reported (.uninitializedVariable name) :: after) last) :
    before.getLast? = some (.read name) := by
  obtain ⟨front, inner, outer, _, here, _, rfl, _, _, action, _⟩ := run.at_event
  generalize split : inner ++ .reported (.uninitializedVariable name) :: outer = events at action
  cases action with
  | @read _ other symbol found =>
    cases inner with
    | nil => simp at split
    | cons first inner =>
      obtain ⟨rfl, later⟩ := List.cons.inj split
      have member : .reported (.uninitializedVariable name) ∈
          inner ++ .reported (.uninitializedVariable name) :: outer := by simp
      rw [show inner ++ _ :: outer = _ from later] at member
      obtain rfl : name = other := by simpa using eq_of_mem_require member
      cases valued : symbol.initialized with
      | true => simp [require, valued] at later
      | false =>
        obtain ⟨rfl, _⟩ : inner = [] ∧ outer = [] := by
          simpa [require, valued, List.append_eq_singleton_iff] using later
        simp
  | aside aside =>
    obtain ⟨_, rfl, _⟩ : inner = [] ∧ _ ∧ outer = [] := by
      simpa [List.append_eq_singleton_iff] using split
    simp [Event.isAside] at aside
  | _ => simp [List.append_eq_singleton_iff] at split

/-- A name stands for a symbol without a value exactly if it goes back to a variable to which
no assignment has been made. -/
theorem Run.valueless_iff {journal : List Event} {scopes : ScopeStack}
    (run : Run .empty journal scopes) (name : String) :
    (∃ symbol, scopes.lookup name = some symbol ∧ symbol.initialized = false) ↔
      ∃ origin ty, resolve journal name = some origin ∧ origin.symbol = .var name ty ∧
        ¬ Valued origin.time journal.reverse := by
  have becomes : Option.Rel (Origin.Becomes journal.reverse) (resolve journal name)
      (scopes.lookup name) := run.recalls.lookup name
  generalize resolved : resolve journal name = held at becomes
  generalize scopes.lookup name = found at becomes
  cases becomes with
  | none => simp
  | @some origin symbol becomes =>
    obtain ⟨level, _, there⟩ := held?_of_origin? resolved
    have named := held?_name there
    have initialized := becomes.initialized
    constructor
    · rintro ⟨same, found, valueless⟩
      obtain rfl := Option.some.inj found
      rw [valueless] at initialized
      obtain ⟨undeclared, unvalued⟩ := not_or.mp (initialized.not.mp Bool.false_ne_true)
      obtain ⟨ty, isVar⟩ := becomes.valueless (Bool.eq_false_iff.mpr undeclared)
      exact ⟨origin, ty, rfl, named ▸ isVar, unvalued⟩
    · rintro ⟨same, ty, found, isVar, unvalued⟩
      obtain rfl := Option.some.inj found
      refine ⟨symbol, rfl, Bool.eq_false_iff.mpr fun valued => ?_⟩
      rcases initialized.mp valued with declared | assigned
      · simp [isVar, Symbol.var] at declared
      · exact unvalued assigned

end Check

open Check

/-- A variable that is read is reported to hold no value exactly if its name goes back to a
variable declaration, and so far no assignment has been made whose target went back to the
same declaration; and it is reported nowhere else. The assignments made are those of the
program whose target was declared when the checker came to them, in that order. -/
theorem Program.early_read_iff (p : Program) :
    (∀ before name after, p.check.journal = before ++ .read name :: after →
      (after.head? = some (.reported (.uninitializedVariable name)) ↔
        ∃ origin ty, resolve before name = some origin ∧ origin.symbol = .var name ty ∧
          ∀ earlier target later, before = earlier ++ .assigned target :: later →
            (resolve earlier target).map Origin.time ≠ some origin.time)) ∧
    (∀ before name after,
      p.check.journal = before ++ .reported (.uninitializedVariable name) :: after →
        before.getLast? = some (.read name)) ∧
    p.visits.map Visit.part = p.parts ∧
    p.check.journal.filterMap Event.assigned? = p.visits.filterMap Visit.assigned? := by
  have run := p.makes.run
  refine ⟨fun before name after split => ?_, fun before name after split => ?_, p.visits_parts,
    p.makes.assigned⟩
  · rw [split] at run
    obtain ⟨here, ran, reported⟩ := run.at_read
    rw [reported, ran.valueless_iff name]
    simp only [valued_iff, not_exists, not_and]
  · rw [split] at run
    exact run.at_report

/-- A global variable is given a value in a block of one function. In another function it is
read, and then hidden by a variable of the same name, for which that assignment does not
count. -/
theorem Program.early_read_iff_hidden :
    let give : Function :=
      ⟨"give", [], .void, [.ifElse (.boolean true) [.assign ⟨"x", .number 1⟩] none]⟩
    let take : Function := ⟨"take", [⟨"y", .number⟩], .void,
      [.assign ⟨"y", .var "x"⟩, .declare ⟨.number, ["x"]⟩, .assign ⟨"x", .var "x"⟩,
        .assign ⟨"y", .var "x"⟩]⟩
    let p : Program := ⟨[.declare ⟨.number, ["x"]⟩, .function give, .function take]⟩
    let journal := p.check.journal
    p.diagnostics = [.uninitializedVariable "x"] ∧
    journal = journal.take 13 ++ .read "x" :: journal.drop 14 ∧
    (resolve (journal.take 13) "x").map Origin.time = some 1 ∧
    journal = journal.take 16 ++ .read "x" :: journal.drop 17 ∧
    (resolve (journal.take 16) "x").map Origin.time = some 15 ∧
    ∀ earlier target later, journal.take 16 = earlier ++ .assigned target :: later →
      (resolve earlier target).map Origin.time ≠ some 15 := by
  intro give take p journal
  have split : journal = journal.take 16 ++ .read "x" :: journal.drop 17 := by decide
  have hidden : (resolve (journal.take 16) "x").map Origin.time = some 15 := by decide
  obtain ⟨origin, ty, found, _, unassigned⟩ :=
    (p.early_read_iff.1 _ _ _ split).mp (by decide)
  have time : origin.time = 15 := by simpa [found] using hidden
  exact ⟨by decide, by decide, by decide, split, hidden, time ▸ unassigned⟩

end Caju
