import Caju.Scope
import Mathlib.Data.List.Induction

/-! Scope stacks and their history. A stack keeps frames and forgets how they came about. Here
the steps that were made are kept instead, each at its time, and what a name stands for is told
from them: the latest declaration of the name in a scope that has not been left, with a value if
it was declared with one or a later step found it and gave it one. Main statement: after any
steps, the stack agrees with its history (`after_agrees`). -/

namespace Caju.ScopeStack

/-- What can be done to a stack. -/
inductive Step where
  | enter
  | leave
  | declare (key : String) (symbol : Symbol)
  | init (key : String)

/-- The stack after a step. One that misuses the stack leaves it as it was. -/
def step (scopes : ScopeStack) : Step → ScopeStack
  | .enter => scopes.enter
  | .leave =>
    match scopes.leave with
    | .ok (_, outer) => outer
    | .error _ => scopes
  | .declare key symbol =>
    match scopes.declare key symbol with
    | .ok (_, after) => after
    | .error _ => scopes
  | .init key => scopes.markInitialized key

/-- The stack that steps lead to. -/
def after (steps : List Step) : ScopeStack := steps.foldl step .empty

/-! ### History

The time of a step is the number of steps before it. -/

def Step.climb (level : Nat) : Step → Nat
  | .enter => level + 1
  | .leave => level - 1
  | _ => level

/-- How many scopes are open after the steps. -/
def height (steps : List Step) : Nat := steps.foldl Step.climb 0

/-- There was a scope at this time, and the innermost one has not been left since. -/
structure StaysOpen (steps : List Step) (time : Nat) : Prop where
  inside : 0 < height (steps.take time)
  since : ∀ later, time ≤ later → later ≤ steps.length →
    height (steps.take time) ≤ height (steps.take later)

/-- A declaration of a key whose scope has not been left. -/
structure Standing (steps : List Step) (key : String) (time : Nat) (symbol : Symbol) : Prop where
  made : steps[time]? = some (.declare key symbol)
  stays : StaysOpen steps time

/-- The latest such declaration. -/
structure Latest (steps : List Step) (key : String) (time : Nat) (symbol : Symbol) : Prop where
  standing : Standing steps key time symbol
  last : ∀ later other, Standing steps key later other → later ≤ time

/-- A step that gives a value to a key finds the declaration of some time. -/
def Finds (steps : List Step) (now : Nat) (key : String) (time : Nat) : Prop :=
  steps[now]? = some (.init key) ∧ ∃ symbol, Latest (steps.take now) key time symbol

/-- The symbol that a declaration has become: the same one, with a value if it was declared with
one or has been given one. -/
structure Becomes (steps : List Step) (key : String) (time : Nat) (symbol found : Symbol) :
    Prop where
  name : found.name = symbol.name
  kind : found.kind = symbol.kind
  ty : found.ty = symbol.ty
  initialized : found.initialized = true ↔
    symbol.initialized = true ∨ ∃ now, Finds steps now key time

/-- The innermost scope was entered at this time. -/
structure Innermost (steps : List Step) (time : Nat) : Prop where
  entered : steps[time]? = some .enter
  stays : StaysOpen steps (time + 1)
  last : ∀ later, steps[later]? = some .enter → StaysOpen steps (later + 1) → later ≤ time

/-! ### One more step -/

section Concat

variable {steps : List Step} {last : Step} {key : String} {time now : Nat} {symbol : Symbol}

theorem height_concat (steps : List Step) (last : Step) :
    height (steps ++ [last]) = last.climb (height steps) := by
  simp [height]

theorem after_concat (steps : List Step) (last : Step) :
    after (steps ++ [last]) = (after steps).step last := by
  simp [after]

theorem Standing.time_lt (standing : Standing steps key time symbol) : time < steps.length :=
  (List.getElem?_eq_some_iff.mp standing.made).1

theorem StaysOpen.le_height (stays : StaysOpen steps time) (past : time ≤ steps.length) :
    height (steps.take time) ≤ height steps := by
  have now := stays.since steps.length past (Nat.le_refl _)
  rwa [List.take_length] at now

theorem Standing.le_height (standing : Standing steps key time symbol) :
    height (steps.take time) ≤ height steps :=
  standing.stays.le_height (Nat.le_of_lt standing.time_lt)

theorem staysOpen_concat (past : time ≤ steps.length) :
    StaysOpen (steps ++ [last]) time ↔
      StaysOpen steps time ∧ height (steps.take time) ≤ height (steps ++ [last]) := by
  have before {earlier : Nat} (past : earlier ≤ steps.length) :
      (steps ++ [last]).take earlier = steps.take earlier := List.take_append_of_le_length past
  have whole : (steps ++ [last]).take (steps.length + 1) = steps ++ [last] := by
    rw [List.take_of_length_le (by simp)]
  constructor
  · rintro ⟨inside, since⟩
    rw [before past] at inside since
    refine ⟨⟨inside, fun later behind within => ?_⟩, ?_⟩
    · have stays := since later behind (by simp; omega)
      rwa [before within] at stays
    · have stays := since (steps.length + 1) (by omega) (by simp)
      rwa [whole] at stays
  · rintro ⟨⟨inside, since⟩, ended⟩
    refine ⟨by rwa [before past], fun later behind within => ?_⟩
    rw [before past]
    by_cases earlier : later ≤ steps.length
    · rw [before earlier]
      exact since later behind earlier
    · obtain rfl : later = steps.length + 1 := by
        simp only [List.length_append, List.length_singleton] at within
        omega
      rwa [whole]

theorem staysOpen_now (inside : 0 < height steps) : StaysOpen steps steps.length := by
  refine ⟨by rwa [List.take_length], fun later behind within => ?_⟩
  exact Nat.le_of_eq (by rw [Nat.le_antisymm within behind])

/-- What stands after one more step: what stood before, unless the step has left its scope, and
the declaration that the step makes. -/
theorem standing_concat :
    Standing (steps ++ [last]) key time symbol ↔
      (Standing steps key time symbol ∧ height (steps.take time) ≤ height (steps ++ [last])) ∨
        (time = steps.length ∧ last = .declare key symbol ∧ 0 < height steps) := by
  constructor
  · rintro ⟨made, stays⟩
    have within := (List.getElem?_eq_some_iff.mp made).1
    rw [List.length_append, List.length_singleton] at within
    obtain ⟨stays, ended⟩ := (staysOpen_concat (Nat.le_of_lt_succ within)).mp stays
    rcases Nat.lt_succ_iff_lt_or_eq.mp within with earlier | rfl
    · rw [List.getElem?_append_left earlier] at made
      exact .inl ⟨⟨made, stays⟩, ended⟩
    · have inside := stays.inside
      rw [List.take_length] at inside
      exact .inr ⟨rfl, by simpa using made, inside⟩
  · rintro (⟨standing, ended⟩ | ⟨rfl, rfl, inside⟩)
    · have earlier := standing.time_lt
      refine ⟨?_, (staysOpen_concat (Nat.le_of_lt earlier)).mpr ⟨standing.stays, ended⟩⟩
      rw [List.getElem?_append_left earlier]
      exact standing.made
    · refine ⟨by simp, (staysOpen_concat (Nat.le_refl _)).mpr ⟨staysOpen_now inside, ?_⟩⟩
      rw [List.take_length, height_concat]
      exact Nat.le_refl _

theorem finds_concat :
    Finds (steps ++ [last]) now key time ↔
      Finds steps now key time ∨
        (now = steps.length ∧ last = .init key ∧ ∃ symbol, Latest steps key time symbol) := by
  unfold Finds
  rcases Nat.lt_trichotomy now steps.length with earlier | rfl | later
  · rw [List.getElem?_append_left earlier, List.take_append_of_le_length (Nat.le_of_lt earlier)]
    simp [Nat.ne_of_lt earlier]
  · simp
  · have ended : (steps ++ [last])[now]? = none := by simp; omega
    have before : steps[now]? = none := by simp; omega
    simp [ended, before, Nat.ne_of_gt later]

/-- A step finds only what was declared before it. -/
theorem Finds.time_lt (finds : Finds steps now key time) : time < now := by
  obtain ⟨_, symbol, latest⟩ := finds
  have within := latest.standing.time_lt
  rw [List.length_take] at within
  omega

end Concat

/-- The further inside a declaration stands, the later it was made. -/
theorem Standing.lt_of_height_lt {steps : List Step} {key other : String} {time later : Nat}
    {symbol symbol' : Symbol} (outer : Standing steps key time symbol)
    (inner : Standing steps other later symbol')
    (deeper : height (steps.take time) < height (steps.take later)) : time < later := by
  by_contra earlier
  have since := inner.stays.since time (by omega) (Nat.le_of_lt outer.time_lt)
  omega

/-! ### Frames and history -/

/-- A declaration that stands in the scope at some level, the outermost being at level 1. -/
def StandsAt (steps : List Step) (level : Nat) (key : String) (time : Nat) (symbol : Symbol) :
    Prop :=
  Standing steps key time symbol ∧ height (steps.take time) = level

/-- What the scope at a level holds under a key, as history tells. -/
inductive Keeps (steps : List Step) (level : Nat) (key : String) : Option Symbol → Prop where
  | none (never : ∀ time symbol, ¬StandsAt steps level key time symbol) : Keeps steps level key none
  | some {time : Nat} {symbol found : Symbol} (stands : StandsAt steps level key time symbol)
      (last : ∀ later other, StandsAt steps level key later other → later ≤ time)
      (becomes : Becomes steps key time symbol found) : Keeps steps level key (some found)

/-- Each of the frames, the innermost first, holds what history tells of its scope. -/
def Records (steps : List Step) : List Frame → Prop
  | [] => True
  | frame :: frames =>
    (∀ key, Keeps steps (frames.length + 1) key (frame.find? key)) ∧ Records steps frames

section Records

variable {steps later : List Step} {frame : Frame} {frames : List Frame} {key : String}
  {level : Nat} {found : Option Symbol}

/-- A scope goes on holding the same if the same declarations stand in it, and those found by
steps that give a value are the same. -/
theorem Keeps.transfer (keeps : Keeps steps level key found)
    (stands : ∀ time symbol,
      StandsAt later level key time symbol ↔ StandsAt steps level key time symbol)
    (finds : ∀ time symbol, StandsAt steps level key time symbol →
      ((∃ now, Finds later now key time) ↔ ∃ now, Finds steps now key time)) :
    Keeps later level key found := by
  cases keeps with
  | none never => exact .none fun time symbol => mt (stands time symbol).mp (never time symbol)
  | @some time symbol _ here last becomes =>
    refine .some ((stands time symbol).mpr here) (fun after other stood => ?_)
      ⟨becomes.name, becomes.kind, becomes.ty, ?_⟩
    · exact last after other ((stands after other).mp stood)
    · rw [finds time symbol here]
      exact becomes.initialized

theorem Records.transfer (records : Records steps frames)
    (keeps : ∀ level ≤ frames.length, ∀ key found,
      Keeps steps level key found → Keeps later level key found) : Records later frames := by
  induction frames with
  | nil => trivial
  | cons frame frames ih =>
    obtain ⟨inner, outer⟩ := records
    refine ⟨fun key => keeps _ (Nat.le_refl _) key _ (inner key), ih outer fun level within => ?_⟩
    exact keeps level (Nat.le_succ_of_le within)

/-- A step that neither leaves a scope nor declares the key in it. -/
theorem standsAt_concat {last : Step} {time : Nat} {symbol : Symbol}
    (within : level ≤ height (steps ++ [last]))
    (elsewhere : ∀ symbol, last = .declare key symbol → height steps ≠ level) :
    StandsAt (steps ++ [last]) level key time symbol ↔ StandsAt steps level key time symbol := by
  have before {time : Nat} (past : time ≤ steps.length) :
      (steps ++ [last]).take time = steps.take time := List.take_append_of_le_length past
  constructor
  · rintro ⟨standing, here⟩
    rcases standing_concat.mp standing with ⟨stood, _⟩ | ⟨rfl, declares, _⟩
    · rw [before (Nat.le_of_lt stood.time_lt)] at here
      exact ⟨stood, here⟩
    · rw [before (Nat.le_refl _), List.take_length] at here
      exact absurd here (elsewhere symbol declares)
  · rintro ⟨stood, here⟩
    refine ⟨standing_concat.mpr (.inl ⟨stood, here ▸ within⟩), ?_⟩
    rwa [before (Nat.le_of_lt stood.time_lt)]

/-- Such a step changes nothing in the scope, unless it gives a value to what stands there. -/
theorem Keeps.concat {last : Step} (keeps : Keeps steps level key found)
    (within : level ≤ height (steps ++ [last]))
    (elsewhere : ∀ symbol, last = .declare key symbol → height steps ≠ level)
    (unfound : ∀ time symbol, StandsAt steps level key time symbol → last = .init key →
      ¬∃ symbol, Latest steps key time symbol) :
    Keeps (steps ++ [last]) level key found := by
  refine keeps.transfer (fun _ _ => standsAt_concat within elsewhere) fun time symbol here => ?_
  constructor
  · rintro ⟨now, finds⟩
    rcases finds_concat.mp finds with found | ⟨_, gives, latest⟩
    · exact ⟨now, found⟩
    · exact absurd latest (unfound time symbol here gives)
  · rintro ⟨now, finds⟩
    exact ⟨now, finds_concat.mpr (.inl finds)⟩

theorem Records.enter (records : Records steps frames) (levels : frames.length = height steps) :
    Records (steps ++ [.enter]) (.empty :: frames) := by
  have higher : height (steps ++ [.enter]) = height steps + 1 := height_concat steps .enter
  refine ⟨fun key => .none fun time symbol stands => ?_,
    records.transfer fun level within _ _ keeps => ?_⟩
  · obtain ⟨standing, here⟩ := stands
    rcases standing_concat.mp standing with ⟨stood, _⟩ | ⟨_, never, _⟩
    · rw [List.take_append_of_le_length (Nat.le_of_lt stood.time_lt), levels] at here
      have below := stood.le_height
      omega
    · cases never
  · exact keeps.concat (by omega) (by simp) (by simp)

theorem Records.leave (records : Records steps (frame :: frames))
    (levels : frames.length + 1 = height steps) : Records (steps ++ [.leave]) frames := by
  have lower : height (steps ++ [.leave]) = height steps - 1 := height_concat steps .leave
  refine records.2.transfer fun level within _ _ keeps => ?_
  exact keeps.concat (by omega) (by simp) (by simp)

theorem Records.declare (records : Records steps (frame :: frames))
    (levels : frames.length + 1 = height steps) (key : String) (symbol : Symbol) :
    Records (steps ++ [.declare key symbol]) (frame.insert key symbol :: frames) := by
  have same : height (steps ++ [.declare key symbol]) = height steps := height_concat steps _
  refine ⟨fun other => ?_, records.2.transfer fun level within _ _ keeps => ?_⟩
  · rw [Frame.find?_insert]
    split
    · rename_i equal
      subst equal
      have newest : StandsAt (steps ++ [.declare other symbol]) (frames.length + 1) other
          steps.length symbol := by
        refine ⟨standing_concat.mpr (.inr ⟨rfl, rfl, by omega⟩), ?_⟩
        rw [List.take_append_of_le_length (Nat.le_refl _), List.take_length, levels]
      refine .some newest (fun later _ stands => ?_) ⟨rfl, rfl, rfl, ?_⟩
      · have past := stands.1.time_lt
        rw [List.length_append, List.length_singleton] at past
        omega
      · -- No step up to now can have found what is declared only now.
        have unfound : ¬∃ now, Finds (steps ++ [.declare other symbol]) now other steps.length := by
          rintro ⟨now, finds⟩
          have past := (List.getElem?_eq_some_iff.mp finds.1).1
          have order := finds.time_lt
          rw [List.length_append, List.length_singleton] at past
          omega
        simp [unfound]
    · rename_i different
      refine (records.1 other).concat (by omega) (fun _ declares => ?_) (by simp)
      cases declares
      exact absurd rfl different
  · refine keeps.concat (by omega) (fun _ _ => by omega) (by simp)

/-- What stands under a key in the innermost scope that holds it is the latest declaration. -/
theorem latest_of_standsAt {time : Nat} {symbol : Symbol}
    (here : StandsAt steps level key time symbol)
    (last : ∀ later other, StandsAt steps level key later other → later ≤ time)
    (above : ∀ later other, Standing steps key later other → height (steps.take later) ≤ level) :
    Latest steps key time symbol := by
  refine ⟨here.1, fun later other standing => ?_⟩
  rcases Nat.lt_or_eq_of_le (above later other standing) with outer | same
  · rw [← here.2] at outer
    exact Nat.le_of_lt (standing.lt_of_height_lt here.1 outer)
  · exact last later other ⟨standing, same⟩

theorem Latest.unique {time time' : Nat} {symbol symbol' : Symbol}
    (one : Latest steps key time symbol) (other : Latest steps key time' symbol') : time = time' :=
  Nat.le_antisymm (other.last time symbol one.standing) (one.last time' symbol' other.standing)

/-- If a scope does not hold a key, what stands under it stands further out. -/
theorem Keeps.outside (keeps : Keeps steps (level + 1) key Option.none)
    (above : ∀ time symbol, Standing steps key time symbol → height (steps.take time) ≤ level + 1) :
    ∀ time symbol, Standing steps key time symbol → height (steps.take time) ≤ level := by
  cases keeps with
  | none never =>
    intro time symbol standing
    have within := above time symbol standing
    have elsewhere : height (steps.take time) ≠ level + 1 := fun here =>
      never time symbol ⟨standing, here⟩
    omega

/-- Giving a value marks the declaration that is the latest, in the scope where it stands. -/
theorem Records.init (records : Records steps frames) (levels : frames.length ≤ height steps)
    (above : ∀ time symbol, Standing steps key time symbol →
      height (steps.take time) ≤ frames.length) :
    Records (steps ++ [.init key]) (markFrames key frames) := by
  have same : height (steps ++ [.init key]) = height steps := height_concat steps _
  -- on the frames: those passed over do not hold the key
  induction frames with
  | nil => trivial
  | cons frame frames ih =>
    obtain ⟨inner, outer⟩ := records
    rw [List.length_cons] at levels above
    have marked : (markFrames key frames).length = frames.length :=
      depth_markInitialized ⟨frames⟩ key
    have here := inner key
    unfold markFrames
    cases held : frame.find? key with
    | none =>
      rw [held] at here
      refine ⟨fun other => ?_, ih outer (by omega) (here.outside above)⟩
      rw [marked]
      refine (inner other).concat (by omega) (by simp) fun time symbol stands gives => ?_
      cases gives
      cases here with
      | none never => exact absurd stands (never time symbol)
    | some found =>
      rw [held] at here
      cases here with
      | @some time symbol _ stands last becomes =>
        have latest := latest_of_standsAt stands last above
        refine ⟨fun other => ?_, outer.transfer fun level within other _ keeps => ?_⟩
        · rw [Frame.find?_insert]
          split
          · rename_i equal
            subst equal
            have stays (time : Nat) (symbol : Symbol) :
                StandsAt (steps ++ [.init other]) (frames.length + 1) other time symbol ↔
                  StandsAt steps (frames.length + 1) other time symbol :=
              standsAt_concat (by omega) (by simp)
            have finds := finds_concat.mpr (.inr ⟨rfl, rfl, symbol, latest⟩)
            refine .some ((stays time symbol).mpr stands) (fun later _ after => ?_)
              ⟨becomes.name, becomes.kind, becomes.ty, iff_of_true rfl (.inr ⟨_, finds⟩)⟩
            exact last later _ ((stays later _).mp after)
          · rename_i different
            refine (inner other).concat (by omega) (by simp) fun _ _ _ gives => ?_
            cases gives
            exact absurd rfl different
        · refine keeps.concat (by omega) (by simp) fun time' symbol' stands' gives => ?_
          cases gives
          rintro ⟨_, latest'⟩
          -- One declaration cannot stand in two scopes.
          obtain rfl := latest.unique latest'
          have one := stands.2
          have other := stands'.2
          omega

/-- What the frames hold under a key is the latest declaration of it. -/
theorem Records.lookup (records : Records steps frames)
    (above : ∀ time symbol, Standing steps key time symbol →
      height (steps.take time) ≤ frames.length) :
    (frames.findSome? (·.find? key) = none ∧ ∀ time symbol, ¬Standing steps key time symbol) ∨
      ∃ time symbol found, frames.findSome? (·.find? key) = some found ∧
        Latest steps key time symbol ∧ Becomes steps key time symbol found := by
  induction frames with
  | nil =>
    refine .inl ⟨rfl, fun time symbol standing => ?_⟩
    have inside := standing.stays.inside
    have outside := above time symbol standing
    rw [List.length_nil] at outside
    omega
  | cons frame frames ih =>
    obtain ⟨inner, outer⟩ := records
    have here := inner key
    rw [List.findSome?_cons]
    cases held : frame.find? key with
    | none =>
      rw [held] at here
      exact ih outer (here.outside above)
    | some found =>
      rw [held] at here
      cases here with
      | @some time symbol _ stands last becomes =>
        exact .inr ⟨time, symbol, found, rfl, latest_of_standsAt stands last above, becomes⟩

end Records

/-- A stack whose frames are as history tells, one for each open scope. -/
structure Told (steps : List Step) (scopes : ScopeStack) : Prop where
  records : Records steps scopes.frames
  levels : scopes.depth = height steps

theorem depth_step (scopes : ScopeStack) (last : Step) :
    (scopes.step last).depth = Step.climb scopes.depth last := by
  obtain ⟨frames⟩ := scopes
  cases last with
  | enter => rfl
  | leave => cases frames <;> rfl
  | declare key symbol => cases frames <;> rfl
  | init key => exact depth_markInitialized ⟨frames⟩ key

theorem Told.step {steps : List Step} {scopes : ScopeStack} (told : Told steps scopes)
    (last : Step) : Told (steps ++ [last]) (scopes.step last) := by
  refine ⟨?_, by rw [height_concat, ← told.levels, depth_step]⟩
  obtain ⟨frames⟩ := scopes
  obtain ⟨records, levels⟩ := told
  have levels : frames.length = height steps := levels
  cases last with
  | enter => exact records.enter levels
  | leave =>
    cases frames with
    | nil => trivial
    | cons frame frames => exact records.leave levels
  | declare key symbol =>
    cases frames with
    | nil => trivial
    | cons frame frames => exact records.declare levels key symbol
  | init key =>
    exact records.init (Nat.le_of_eq levels) fun time symbol standing =>
      levels ▸ standing.le_height

theorem after_told (steps : List Step) : Told steps (after steps) := by
  induction steps using List.reverseRecOn with
  | nil => exact ⟨trivial, rfl⟩
  | append_singleton steps last ih =>
    rw [after_concat]
    exact ih.step last

/-! ### The innermost scope -/

section Innermost

variable {steps : List Step} {key : String} {time : Nat} {symbol : Symbol}

theorem height_take_enter (entered : steps[time]? = some .enter) :
    height (steps.take (time + 1)) = height (steps.take time) + 1 := by
  rw [List.take_add_one, entered]
  exact height_concat _ .enter

/-- Every open scope was entered at some time. -/
theorem exists_entered {level : Nat} (inside : 0 < level) (within : level ≤ height steps) :
    ∃ time, steps[time]? = some .enter ∧ StaysOpen steps (time + 1) ∧
      height (steps.take (time + 1)) = level := by
  induction steps using List.reverseRecOn with
  | nil =>
    have outside : height [] = 0 := rfl
    omega
  | append_singleton steps last ih =>
    by_cases before : level ≤ height steps
    · obtain ⟨time, entered, stays, here⟩ := ih before
      have past := (List.getElem?_eq_some_iff.mp entered).1
      refine ⟨time, ?_, (staysOpen_concat past).mpr ⟨stays, here ▸ within⟩, ?_⟩
      · rw [List.getElem?_append_left past]
        exact entered
      · rwa [List.take_append_of_le_length past]
    · have climbs := height_concat steps last
      cases last with
      | enter =>
        have now : (steps ++ [Step.enter]).length = steps.length + 1 := by simp
        refine ⟨steps.length, by simp, now ▸ staysOpen_now (by omega), ?_⟩
        rw [← now, List.take_length]
        simp only [Step.climb] at climbs
        omega
      | _ =>
        simp only [Step.climb] at climbs
        omega

theorem innermost_of_height (entered : steps[time]? = some .enter)
    (stays : StaysOpen steps (time + 1)) (here : height (steps.take (time + 1)) = height steps) :
    Innermost steps time := by
  refine ⟨entered, stays, fun later enteredLater staysLater => ?_⟩
  by_contra behind
  have past := (List.getElem?_eq_some_iff.mp enteredLater).1
  have since := stays.since later (by omega) (Nat.le_of_lt past)
  have below := staysLater.le_height past
  rw [height_take_enter enteredLater] at below
  omega

theorem exists_innermost (inside : 0 < height steps) : ∃ time, Innermost steps time := by
  obtain ⟨time, entered, stays, here⟩ := exists_entered inside (Nat.le_refl _)
  exact ⟨time, innermost_of_height entered stays here⟩

theorem Innermost.time_lt (innermost : Innermost steps time) : time < steps.length :=
  (List.getElem?_eq_some_iff.mp innermost.entered).1

theorem Innermost.inside (innermost : Innermost steps time) : 0 < height steps :=
  Nat.lt_of_lt_of_le innermost.stays.inside (innermost.stays.le_height innermost.time_lt)

theorem Innermost.height_eq (innermost : Innermost steps time) :
    height (steps.take (time + 1)) = height steps := by
  obtain ⟨other, entered, stays, here⟩ := exists_entered innermost.inside (Nat.le_refl _)
  have same : other = time := Nat.le_antisymm (innermost.last other entered stays)
    ((innermost_of_height entered stays here).last time innermost.entered innermost.stays)
  rwa [same] at here

/-- A declaration stands in the innermost scope exactly if it was made since that was entered. -/
theorem Innermost.standing_iff {opened : Nat} (innermost : Innermost steps opened)
    (standing : Standing steps key time symbol) :
    height (steps.take time) = height steps ↔ opened < time := by
  have whole := innermost.height_eq
  have below := standing.le_height
  constructor
  · intro here
    by_contra earlier
    have past := innermost.time_lt
    have since := standing.stays.since opened (by omega) (Nat.le_of_lt past)
    rw [height_take_enter innermost.entered] at whole
    omega
  · intro later
    have since := innermost.stays.since time later (Nat.le_of_lt standing.time_lt)
    omega

end Innermost

theorem Told.eq_empty {steps : List Step} {scopes : ScopeStack} (told : Told steps scopes)
    (outside : height steps = 0) : scopes = .empty := by
  obtain ⟨frames⟩ := scopes
  have none : frames.length = 0 := told.levels.trans outside
  rw [List.length_eq_zero_iff.mp none, ScopeStack.empty]

theorem Told.exists_frame {steps : List Step} {scopes : ScopeStack} (told : Told steps scopes)
    (inside : 0 < height steps) : ∃ frame frames, scopes = ⟨frame :: frames⟩ := by
  obtain ⟨_ | ⟨frame, frames⟩⟩ := scopes
  · have outside : 0 = height steps := told.levels
    omega
  · exact ⟨frame, frames, rfl⟩

theorem Told.holds_iff {steps : List Step} {scopes : ScopeStack} (told : Told steps scopes)
    (key : String) :
    scopes.holds key = true ↔ ∃ opened time symbol, Innermost steps opened ∧
      Latest steps key time symbol ∧ opened < time := by
  obtain ⟨frames⟩ := scopes
  obtain ⟨records, levels⟩ := told
  cases frames with
  | nil =>
    have outside : 0 = height steps := levels
    refine iff_of_false Bool.false_ne_true ?_
    rintro ⟨opened, time, symbol, _, latest, _⟩
    have inside := latest.standing.stays.inside
    have below := latest.standing.le_height
    omega
  | cons frame frames =>
    have levels : frames.length + 1 = height steps := levels
    have here := records.1 key
    rw [levels] at here
    have holds : holds ⟨frame :: frames⟩ key = (frame.find? key).isSome := rfl
    rw [holds]
    generalize frame.find? key = found at here
    cases here with
    | none never =>
      refine iff_of_false Bool.false_ne_true ?_
      rintro ⟨opened, time, symbol, innermost, latest, since⟩
      exact never time symbol ⟨latest.standing, (innermost.standing_iff latest.standing).mpr since⟩
    | @some time symbol found stands last becomes =>
      refine iff_of_true rfl ?_
      obtain ⟨opened, innermost⟩ := exists_innermost (by omega : 0 < height steps)
      refine ⟨opened, time, symbol, innermost, ?_, (innermost.standing_iff stands.1).mp stands.2⟩
      exact latest_of_standsAt stands last fun _ _ standing => standing.le_height

/-! ### What a stack shows -/

section Lookup

variable {steps : List Step} {scopes : ScopeStack} {key : String}

theorem Told.lookup_cases (told : Told steps scopes) (key : String) :
    (scopes.lookup key = none ∧ ∀ time symbol, ¬Standing steps key time symbol) ∨
      ∃ time symbol found, scopes.lookup key = some found ∧ Latest steps key time symbol ∧
        Becomes steps key time symbol found := by
  refine told.records.lookup fun time symbol standing => ?_
  have levels : scopes.frames.length = height steps := told.levels
  exact levels ▸ standing.le_height

theorem Becomes.unique {time : Nat} {symbol found found' : Symbol}
    (one : Becomes steps key time symbol found) (other : Becomes steps key time symbol found') :
    found = found' := by
  obtain ⟨name, kind, ty, initialized⟩ := found
  obtain ⟨name', kind', ty', initialized'⟩ := found'
  have names : name = name' := one.name.trans other.name.symm
  have kinds : kind = kind' := one.kind.trans other.kind.symm
  have types : ty = ty' := one.ty.trans other.ty.symm
  have values : initialized = initialized' :=
    Bool.eq_iff_iff.mpr (one.initialized.trans other.initialized.symm)
  rw [names, kinds, types, values]

theorem Told.lookup_eq_none (told : Told steps scopes) :
    scopes.lookup key = none ↔ ∀ time symbol, ¬Standing steps key time symbol := by
  rcases told.lookup_cases key with ⟨missing, never⟩ | ⟨time, symbol, found, held, latest, _⟩
  · exact iff_of_true missing never
  · exact iff_of_false (by simp [held]) fun never => never time symbol latest.standing

theorem Told.lookup_eq_some (told : Told steps scopes) {found : Symbol} :
    scopes.lookup key = some found ↔ ∃ time symbol, Latest steps key time symbol ∧
      Becomes steps key time symbol found := by
  rcases told.lookup_cases key with ⟨missing, never⟩ | ⟨time, symbol, found', held, latest, becomes⟩
  · refine iff_of_false (by simp [missing]) ?_
    rintro ⟨time, symbol, latest, _⟩
    exact never time symbol latest.standing
  · rw [held]
    constructor
    · intro same
      cases same
      exact ⟨time, symbol, latest, becomes⟩
    · rintro ⟨time', symbol', latest', becomes'⟩
      obtain rfl := latest.unique latest'
      have made := latest.standing.made.symm.trans latest'.standing.made
      cases made
      rw [becomes.unique becomes']

end Lookup

/-- The frame where a name is looked up: the first one that holds it. -/
structure Reaches (frames : List Frame) (key : String) (symbol : Symbol)
    (inner : List Frame) (frame : Frame) (outer : List Frame) : Prop where
  split : frames = inner ++ frame :: outer
  passed : ∀ other ∈ inner, other.find? key = none
  held : frame.find? key = some symbol

theorem exists_reaches {frames : List Frame} {key : String} {symbol : Symbol}
    (found : frames.findSome? (·.find? key) = some symbol) :
    ∃ inner frame outer, Reaches frames key symbol inner frame outer := by
  obtain ⟨inner, frame, outer, split, held, passed⟩ := List.findSome?_eq_some_iff.mp found
  exact ⟨inner, frame, outer, split, passed, held⟩

theorem Reaches.markFrames {frames : List Frame} {key : String} {symbol : Symbol}
    {inner : List Frame} {frame : Frame} {outer : List Frame}
    (reaches : Reaches frames key symbol inner frame outer) :
    markFrames key frames =
      inner ++ frame.insert key { symbol with initialized := true } :: outer := by
  obtain ⟨rfl, passed, held⟩ := reaches
  induction inner with
  | nil => simp [ScopeStack.markFrames, held]
  | cons first inner ih =>
    have missing := passed first (List.mem_cons_self ..)
    have rest := ih fun other within => passed other (List.mem_cons_of_mem _ within)
    simp [ScopeStack.markFrames, missing, rest]

theorem markFrames_of_missing {frames : List Frame} {key : String}
    (missing : frames.findSome? (·.find? key) = none) : markFrames key frames = frames := by
  induction frames with
  | nil => rfl
  | cons frame frames ih =>
    obtain ⟨here, further⟩ : frame.find? key = none ∧ frames.findSome? (·.find? key) = none := by
      simpa using missing
    simp [markFrames, here, ih further]

/-- What the innermost frame holds under a key is what the key stands for. -/
theorem find?_eq_some_iff {frame : Frame} {frames : List Frame} {key : String} {symbol : Symbol} :
    frame.find? key = some symbol ↔
      holds ⟨frame :: frames⟩ key = true ∧ lookup ⟨frame :: frames⟩ key = some symbol := by
  simp only [holds, lookup, List.findSome?_cons]
  cases frame.find? key <;> simp

/-! ### Leaving a scope -/

section Leave

variable {steps : List Step} {key : String} {opened time now : Nat} {symbol : Symbol}

theorem take_take_of_le {earlier past : Nat} (within : earlier ≤ past) :
    (steps.take past).take earlier = steps.take earlier := by
  rw [List.take_take, Nat.min_eq_left within]

/-- What a step finds is settled by the steps before it. -/
theorem finds_take {past : Nat} (before : now < past) :
    Finds (steps.take past) now key time ↔ Finds steps now key time := by
  unfold Finds
  rw [List.getElem?_take_of_lt before, take_take_of_le (Nat.le_of_lt before)]

/-- What a step has found, it found before some time or since then. -/
theorem exists_finds_iff (past : Nat) :
    (∃ now, Finds steps now key time) ↔
      (∃ now, Finds (steps.take past) now key time) ∨
        ∃ now, past ≤ now ∧ Finds steps now key time := by
  constructor
  · rintro ⟨now, finds⟩
    rcases Nat.lt_or_ge now past with before | since
    · exact .inl ⟨now, (finds_take before).mpr finds⟩
    · exact .inr ⟨now, since, finds⟩
  · rintro (⟨now, finds⟩ | ⟨now, _, finds⟩)
    · have before := (List.getElem?_eq_some_iff.mp finds.1).1
      rw [List.length_take] at before
      exact ⟨now, (finds_take (by omega)).mp finds⟩
    · exact ⟨now, finds⟩

/-- A scope that is still open was so at any time before. -/
theorem StaysOpen.take {past : Nat} (stays : StaysOpen steps time) (before : time ≤ past) :
    StaysOpen (steps.take past) time := by
  refine ⟨by rw [take_take_of_le before]; exact stays.inside, fun later behind within => ?_⟩
  rw [List.length_take] at within
  rw [take_take_of_le before, take_take_of_le (by omega)]
  exact stays.since later behind (by omega)

/-- A scope that was open at some time still is, if there were never fewer open since. -/
theorem StaysOpen.extend {past : Nat} (stays : StaysOpen (steps.take past) time)
    (before : time ≤ past) (above : ∀ later, past < later → later ≤ steps.length →
      height (steps.take time) ≤ height (steps.take later)) : StaysOpen steps time := by
  obtain ⟨inside, since⟩ := stays
  rw [take_take_of_le before] at inside since
  refine ⟨inside, fun later behind within => ?_⟩
  rcases Nat.lt_or_ge past later with inner | outer
  · exact above later inner within
  · have earlier := since later behind (by rw [List.length_take]; omega)
    rwa [take_take_of_le outer] at earlier

/-- When a scope is left, what stands is what stood when it was entered. -/
theorem Innermost.standing_leave (innermost : Innermost steps opened) :
    Standing (steps ++ [.leave]) key time symbol ↔
      Standing (steps.take opened) key time symbol := by
  have past := innermost.time_lt
  have opens := height_take_enter innermost.entered
  have whole := innermost.height_eq
  have ended : height (steps ++ [.leave]) = height (steps.take opened) := by
    have closes : height (steps ++ [.leave]) = height steps - 1 := height_concat steps .leave
    omega
  rw [standing_concat, ended]
  constructor
  · rintro (⟨⟨made, stays⟩, outside⟩ | ⟨_, never, _⟩)
    · have earlier : time < opened := by
        rcases Nat.lt_trichotomy time opened with earlier | same | later
        · exact earlier
        · rw [same, innermost.entered] at made
          cases made
        · have within := (List.getElem?_eq_some_iff.mp made).1
          have above := innermost.stays.since time later (Nat.le_of_lt within)
          omega
      exact ⟨by rwa [List.getElem?_take_of_lt earlier], stays.take (Nat.le_of_lt earlier)⟩
    · cases never
  · intro standing
    have below := standing.le_height
    have earlier := standing.time_lt
    rw [List.length_take, Nat.min_eq_left (Nat.le_of_lt past)] at earlier
    obtain ⟨made, stays⟩ := standing
    rw [List.getElem?_take_of_lt earlier] at made
    rw [take_take_of_le (Nat.le_of_lt earlier)] at below
    refine .inl ⟨⟨made, stays.extend (Nat.le_of_lt earlier) fun later inner within => ?_⟩, below⟩
    have above := innermost.stays.since later inner within
    omega

theorem Innermost.latest_leave (innermost : Innermost steps opened) :
    Latest (steps ++ [.leave]) key time symbol ↔ Latest (steps.take opened) key time symbol := by
  constructor
  · rintro ⟨standing, last⟩
    exact ⟨innermost.standing_leave.mp standing, fun later other stood =>
      last later other (innermost.standing_leave.mpr stood)⟩
  · rintro ⟨standing, last⟩
    exact ⟨innermost.standing_leave.mpr standing, fun later other stood =>
      last later other (innermost.standing_leave.mp stood)⟩

end Leave

/-- What a name stood for at some time, and what it stands for now: the same declaration, with a
value now if it had one then or a step since has found it and given it one. -/
inductive Restored (steps : List Step) (since : Nat) (key : String) :
    Option Symbol → Option Symbol → Prop where
  | missing : Restored steps since key none none
  | found {time : Nat} {symbol earlier later : Symbol} (latest : Latest steps key time symbol)
      (name : later.name = earlier.name) (kind : later.kind = earlier.kind)
      (ty : later.ty = earlier.ty)
      (initialized : later.initialized = true ↔
        earlier.initialized = true ∨ ∃ now, since ≤ now ∧ Finds steps now key time) :
      Restored steps since key (some earlier) (some later)

theorem Innermost.restored {steps : List Step} {opened : Nat} (innermost : Innermost steps opened)
    (key : String) :
    Restored (steps ++ [.leave]) opened key ((after (steps.take opened)).lookup key)
      ((after (steps ++ [.leave])).lookup key) := by
  have past := innermost.time_lt
  rcases (after_told (steps.take opened)).lookup_cases key with
    ⟨missing, never⟩ | ⟨time, symbol, earlier, held, latest, became⟩
  · have still := (after_told (steps ++ [.leave])).lookup_eq_none.mpr fun time symbol standing =>
      never time symbol (innermost.standing_leave.mp standing)
    rw [missing, still]
    exact .missing
  · have latest := innermost.latest_leave.mpr latest
    rcases (after_told (steps ++ [.leave])).lookup_cases key with
      ⟨_, never⟩ | ⟨time', symbol', later, held', latest', becomes⟩
    · exact absurd latest.standing (never time symbol)
    · obtain rfl := latest.unique latest'
      have made := latest.standing.made.symm.trans latest'.standing.made
      cases made
      rw [held, held']
      refine .found latest (becomes.name.trans became.name.symm)
        (becomes.kind.trans became.kind.symm) (becomes.ty.trans became.ty.symm) ?_
      rw [becomes.initialized, became.initialized, or_assoc]
      refine or_congr_right ?_
      rw [exists_finds_iff opened, List.take_append_of_le_length (Nat.le_of_lt past)]

/-! ### Main statement -/

/-- All that the stack shows after some steps, told from these steps. -/
structure Agrees (steps : List Step) : Prop where
  depth : (after steps).depth = height steps
  /-- As long as a scope is open, the innermost one was entered at some time. -/
  innermost : 0 < height steps → ∃ opened, Innermost steps opened
  /-- A name stands for nothing if no declaration of it stands. -/
  missing (key : String) :
    (after steps).lookup key = none ↔ ∀ time symbol, ¬Standing steps key time symbol
  /-- Otherwise it stands for what the latest one has become. -/
  found (key : String) (found : Symbol) :
    (after steps).lookup key = some found ↔
      ∃ time symbol, Latest steps key time symbol ∧ Becomes steps key time symbol found
  /-- The innermost scope holds a name if that one was made since the scope was entered. -/
  holds (key : String) :
    (after steps).holds key = true ↔ ∃ opened time symbol, Innermost steps opened ∧
      Latest steps key time symbol ∧ opened < time
  /-- Giving a value reaches the symbol that the name stands for, where it was found, and changes
  nothing else. -/
  marked (key : String) (symbol : Symbol) : (after steps).lookup key = some symbol →
    ∃ inner frame outer, Reaches (after steps).frames key symbol inner frame outer ∧
      (after (steps ++ [.init key])).frames =
        inner ++ frame.insert key { symbol with initialized := true } :: outer
  unmarked (key : String) :
    (after steps).lookup key = none → after (steps ++ [.init key]) = after steps
  /-- With a scope to declare in, what is replaced is what that scope held. -/
  declared (key : String) (symbol : Symbol) : 0 < height steps →
    ∃ replaced, (after steps).declare key symbol =
        .ok (replaced, after (steps ++ [.declare key symbol])) ∧
      ∀ old, replaced = some old ↔
        (after steps).holds key = true ∧ (after steps).lookup key = some old
  /-- What is misused stays as it was. -/
  misused (key : String) (symbol : Symbol) : height steps = 0 →
    (after steps).declare key symbol = .error .nowhereToDeclare ∧
      after (steps ++ [.declare key symbol]) = after steps ∧
      (after steps).leave = .error .nothingToLeave ∧ after (steps ++ [.leave]) = after steps
  /-- Leaving a scope brings back what each name stood for when it was entered. -/
  restored (opened : Nat) (key : String) : Innermost steps opened →
    (∃ frame, (after steps).leave = .ok (frame, after (steps ++ [.leave]))) ∧
      Restored (steps ++ [.leave]) opened key ((after (steps.take opened)).lookup key)
        ((after (steps ++ [.leave])).lookup key)

/-- After any steps, the stack shows what their history tells. -/
theorem after_agrees (steps : List Step) : Agrees steps where
  depth := (after_told steps).levels
  innermost := exists_innermost
  missing _ := (after_told steps).lookup_eq_none
  found _ _ := (after_told steps).lookup_eq_some
  holds := (after_told steps).holds_iff
  marked key symbol held := by
    obtain ⟨inner, frame, outer, reaches⟩ := exists_reaches held
    rw [after_concat]
    exact ⟨inner, frame, outer, reaches, reaches.markFrames⟩
  unmarked key absent := by
    rw [after_concat]
    exact congrArg ScopeStack.mk (markFrames_of_missing absent)
  declared key symbol inside := by
    obtain ⟨frame, frames, split⟩ := (after_told steps).exists_frame inside
    rw [after_concat, split]
    exact ⟨frame.find? key, rfl, fun old => find?_eq_some_iff⟩
  misused key symbol outside := by
    rw [after_concat, after_concat, (after_told steps).eq_empty outside]
    exact ⟨rfl, rfl, rfl, rfl⟩
  restored opened key innermost := by
    refine ⟨?_, innermost.restored key⟩
    obtain ⟨frame, frames, split⟩ := (after_told steps).exists_frame innermost.inside
    rw [after_concat, split]
    exact ⟨frame, rfl⟩

-- A value that is given to a name inside a scope does not reach one that is hidden there.
example : (after [.enter, .declare "x" (.var "x" .number), .enter,
    .declare "x" (.var "x" .boolean), .init "x", .leave]).lookup "x" =
      some (.var "x" .number) := by decide

end Caju.ScopeStack
