import Caju.Proofs.ProgramAgreement

/-! What a reader finds is a stretch of the text, whatever comes behind it, and so is what it
finds to have another shape. Main statement: a text that is stopped at a shape is stopped by
what stands up to there and the next character, so no text that begins with it is a program
(`program_spoils`). -/

namespace Caju.Tree

open Caju.Json

/-! ### What is found -/

theorem Agrees.shortens {α : Type} {portrays : Value → α → Prop} {levels : Nat}
    {text rest : List Char} {a : α} {read : Except ReadError (α × List Char)}
    (agrees : Agrees portrays (value levels text) read) (found : read = .ok (a, rest)) :
    rest.length < text.length := by
  rw [found] at agrees
  obtain ⟨_, valued, _⟩ := agrees
  exact value_shortens valued

theorem itemKind_stretch {text rest : List Char} {kind : ItemKind}
    (found : itemKind text = .ok (kind, rest)) :
    Stretch (fun t r => itemKind t = .ok (kind, r)) text rest := by
  unfold itemKind at found
  split at found
  · rename_i after quote
    split at found
    · cases found
    · rename_i name _ spelled
      split at found
      · cases found
      · rename_i known
        cases found
        refine ((skipBlanks_stretch quote).andThen (stringBody_stretch spelled)).mono ?_
        intro t r holds
        rcases holds with ⟨m, quote, spelled⟩
        simp only [itemKind, quote, spelled, known]
  · cases found

section Members

variable {budget : Nat} {first : Bool} {text rest : List Char} {kind? : Option ItemKind}
  {before : List (String × Value)} {parts : ItemKind × Value}

theorem itemMembers_halts (found : itemMembers budget false kind? before text = .ok (parts, rest)) :
    Halts text := by
  cases budget with
  | zero => cases found
  | succ budget =>
    cases step : objectStep false text with
    | error failure =>
      simp only [itemMembers, step] at found
      cases found
    | ok next => exact objectStep_halts step

theorem itemMembers_stretch
    (found : itemMembers budget first kind? before text = .ok (parts, rest)) :
    Stretch (fun t r => ∀ budget', t.length ≤ budget' →
      itemMembers budget' first kind? before t = .ok (parts, r)) text rest := by
  induction budget generalizing first kind? before text with
  | zero => cases found
  | succ budget ih =>
    cases step : objectStep first text with
    | error failure =>
      simp only [itemMembers, step] at found
      cases found
    | ok next =>
      cases next with
      | closed after =>
        simp only [itemMembers, step] at found
        cases kind? with
        | none => cases found
        | some kind =>
          cases found
          refine (objectStep_stretch step).mono fun t r step budget' enough => ?_
          obtain ⟨budget', rfl⟩ := exists_budget enough (objectStep_ne_nil step)
          simp only [itemMembers, step, ObjectStep.onto]
      | key name key =>
        cases colonRead : colon key with
        | error failure =>
          simp only [itemMembers, step, colonRead] at found
          split at found
          · split at found <;> cases found
          · cases found
        | ok start =>
          by_cases isKind : name = kindField
          · subst isKind
            cases kind? with
            | some kind =>
              simp only [itemMembers, step, if_true] at found
              cases found
            | none =>
              rw [itemMembers_kindAt step colonRead] at found
              obtain ⟨⟨kind, middle⟩, named, found⟩ := bind_eq_ok_iff.mp found
              refine ((objectStep_stretch step).andThen ((colon_stretch colonRead).andThen
                ((itemKind_stretch named).andThen (ih found)))).mono ?_
              intro t r holds budget' enough
              rcases holds with ⟨k, step, start, colonRead, m, named, later⟩
              have inside := member_shortens step colonRead
              have behind := (itemKind_stretch named).length_le
              obtain ⟨budget', rfl⟩ := exists_budget enough (objectStep_ne_nil step)
              rw [itemMembers_kindAt step colonRead, named]
              exact later budget' (by omega)
          · rw [itemMembers_otherAt isKind step colonRead] at found
            obtain ⟨⟨v, middle⟩, valued, found⟩ := bind_eq_ok_iff.mp found
            have valued := scanned_eq_ok valued
            refine ((objectStep_stretch step).andThen ((colon_stretch colonRead).andThen
              ((value_stretch itemNesting valued).andThen (ih found)))).mono ?_
            intro t r holds budget' enough
            rcases holds with ⟨k, step, start, colonRead, m, valued, later⟩
            have taken := valued (itemMembers_halts (later _ (Nat.le_refl _)))
            have inside := member_shortens step colonRead
            have shorter := value_shortens taken
            obtain ⟨budget', rfl⟩ := exists_budget enough (objectStep_ne_nil step)
            rw [itemMembers_otherAt isKind step colonRead, taken]
            exact later budget' (by omega)

end Members

theorem itemParts_stretch {text rest : List Char} {parts : ItemKind × Value}
    (found : itemParts text = .ok (parts, rest)) :
    Stretch (fun t r => itemParts t = .ok (parts, r)) text rest := by
  unfold itemParts at found
  split at found
  · rename_i after opened
    refine ((skipBlanks_stretch opened).andThen (itemMembers_stretch found)).mono ?_
    intro t r holds
    rcases holds with ⟨m, opened, found⟩
    simp only [itemParts, opened]
    exact found _ (Nat.le_refl _)
  · rename_i after opened
    obtain ⟨step, stepped, found⟩ := bind_eq_ok_iff.mp found
    have stepped := scanned_eq_ok stepped
    cases step with
    | closed _ => cases found
    | element start =>
      obtain ⟨⟨kind, middle⟩, named, found⟩ := bind_eq_ok_iff.mp found
      obtain ⟨⟨fields, _⟩, listed, same⟩ := bind_eq_ok_iff.mp found
      cases same
      have named := (itemKind_stretch named).sameHead ((itemKind_agrees 0 start).shortens named)
      have listed := elements_stretch (value_stretch itemNesting) (scanned_eq_ok listed)
      refine ((skipBlanks_stretch opened).andThen ((listStep_element_stretch stepped).andThen
        (named.andThen listed))).mono ?_
      intro t r holds
      rcases holds with ⟨m, opened, start, stepped, middle, ⟨head, named⟩, listed⟩
      simp only [itemParts, opened, stepped head, named, scanned, listed _ (Nat.le_refl _), bind,
        Except.bind]
      rfl
  · cases found

theorem item_eq_ok {text rest : List Char} {i : Item} (found : item text = .ok (i, rest)) :
    ∃ parts, itemParts text = .ok (parts, rest) ∧ decodeItem parts.1 parts.2 = .ok i := by
  unfold item at found
  split at found
  · cases found
  · rename_i taken
    split at found
    · cases found
    · rename_i decoded
      cases found
      exact ⟨_, taken, decoded⟩

theorem item_shortens {text rest : List Char} {i : Item} (found : item text = .ok (i, rest)) :
    rest.length < text.length := by
  obtain ⟨parts, taken, _⟩ := item_eq_ok found
  exact (itemParts_agrees text).shortens taken

theorem item_stretch {text rest : List Char} {i : Item} (found : item text = .ok (i, rest)) :
    Stretch (fun t r => item t = .ok (i, r)) text rest := by
  obtain ⟨parts, taken, decoded⟩ := item_eq_ok found
  refine (itemParts_stretch taken).mono fun t r taken => ?_
  simp only [item, taken, decoded]

theorem items_stretch {budget : Nat} {first : Bool} {text rest : List Char}
    {before all : List Item} (found : items budget first before text = .ok (all, rest)) :
    Stretch (fun t r => ∀ budget', t.length ≤ budget' →
      items budget' first before t = .ok (all, r)) text rest := by
  induction budget generalizing first before text with
  | zero => cases found
  | succ budget ih =>
    cases step : listStep first text with
    | error failure =>
      simp only [items, step] at found
      cases found
    | ok next =>
      cases next with
      | closed after =>
        simp only [items, step] at found
        cases found
        refine (listStep_closed_stretch step).mono fun t r step budget' enough => ?_
        obtain ⟨budget', rfl⟩ := exists_budget enough (listStep_ne_nil step)
        simp only [items, step]
      | element start =>
        simp only [items, step] at found
        split at found
        · cases found
        · rename_i i middle taken
          have element := (item_stretch taken).sameHead (item_shortens taken)
          refine ((listStep_element_stretch step).andThen (element.andThen (ih found))).mono ?_
          intro t r holds budget' enough
          rcases holds with ⟨s, step, m, ⟨head, taken⟩, later⟩
          have entered := step head
          have inside : s.length ≤ t.length :=
            ((listStep_remains first t).suffix entered).length_le
          have shorter := item_shortens taken
          obtain ⟨budget', rfl⟩ := exists_budget enough (listStep_ne_nil entered)
          simp only [items, entered, taken]
          exact later budget' (by omega)

theorem itemList_stretch {text rest : List Char} {all : List Item}
    (found : itemList text = .ok (all, rest)) :
    Stretch (fun t r => itemList t = .ok (all, r)) text rest := by
  unfold itemList at found
  split at found
  · rename_i after opened
    refine ((skipBlanks_stretch opened).andThen (items_stretch found)).mono ?_
    intro t r holds
    rcases holds with ⟨m, opened, found⟩
    simp only [itemList, opened]
    exact found _ (Nat.le_refl _)
  · cases found

/-! ### What is stopped -/

theorem leaveObject_suffix (text : List Char) : leaveObject text <:+ text := by
  have blanks := skipBlanks_suffix text
  unfold leaveObject
  split
  · rename_i found
    rw [found] at blanks
    exact (List.suffix_cons _ _).trans blanks
  · exact blanks

theorem leaveList_suffix (text : List Char) : leaveList text <:+ text := by
  have blanks := skipBlanks_suffix text
  unfold leaveList
  split
  · rename_i found
    rw [found] at blanks
    exact (List.suffix_cons _ _).trans blanks
  · rename_i found
    rw [found] at blanks
    exact (skipBlanks_suffix _).trans ((List.suffix_cons _ _).trans blanks)
  · exact blanks

/-- Behind a misfit and the next character, nothing is left but what follows the first. -/
theorem misfit_behind {expected : Expectation} {c : Char} {after : List Char}
    {mismatch : Mismatch} {place : Place}
    (missed : misfit expected (c :: after) = .misshapen mismatch place) :
    place.rest.drop 1 <:+ after := by
  unfold misfit at missed
  split at missed
  · rename_i same
    cases same
    cases missed
    exact List.suffix_rfl
  · rename_i same
    cases same
    cases missed
    exact List.suffix_rfl
  · split at missed
    · cases missed
    · rename_i v rest scanned
      cases missed
      have shorter := scalar_shortens scanned
      have inside : rest <:+ c :: after := (scalar_remains (c :: after)).suffix scanned
      rcases List.suffix_cons_iff.mp inside with rfl | inside
      · exact absurd shorter (Nat.lt_irrefl _)
      · exact (List.drop_suffix 1 rest).trans inside

/-- The reader stops at the place, and in every text that begins like this one up to the
character behind it. -/
def Spoils {α : Type} (read : List Char → Except ReadError α) (text : List Char) (place : Place) :
    Prop :=
  Stretch (fun t _ => t.head? = text.head? ∧ ∀ found, read t ≠ .ok found) text
    (place.rest.drop 1)

theorem opening_stretch {text rest : List Char} {c : Char} (found : skipBlanks text = c :: rest) :
    Stretch (fun t r => t.head? = text.head? ∧ skipBlanks t = c :: r) text rest := by
  have blanks := length_skipBlanks text
  rw [found, List.length_cons] at blanks
  exact (skipBlanks_stretch found).sameHead (by omega)

theorem misfit_spoils {α : Type} {read : List Char → Except ReadError α} {expected : Expectation}
    {text : List Char} {mismatch : Mismatch} {place : Place}
    (missed : misfit expected (skipBlanks text) = .misshapen mismatch place)
    (never : ∀ c after after' t, skipBlanks text = c :: after → skipBlanks t = c :: after' →
      ∀ found, read t ≠ .ok found) : Spoils read text place := by
  cases opened : skipBlanks text with
  | nil =>
    rw [opened] at missed
    cases missed
  | cons c after =>
    rw [opened] at missed
    refine Stretch.extend ?_ (misfit_behind missed)
    refine (opening_stretch opened).mono ?_
    intro t r holds
    rcases holds with ⟨head, found⟩
    exact ⟨head, never c after r t opened found⟩

theorem itemKind_spoils {text : List Char} {mismatch : Mismatch} {place : Place}
    (stopped : itemKind text = .error (.misshapen mismatch place)) :
    Spoils itemKind text place := by
  unfold itemKind at stopped
  split at stopped
  · rename_i after quote
    split at stopped
    · cases stopped
    · rename_i name rest spelled
      split at stopped
      · rename_i unknown
        cases stopped
        refine Stretch.extend ?_ (List.drop_suffix 1 rest)
        refine ((opening_stretch quote).andThen (stringBody_stretch spelled)).mono ?_
        intro t r holds
        rcases holds with ⟨m, ⟨head, quote⟩, spelled⟩
        refine ⟨head, fun found accepted => ?_⟩
        simp only [itemKind, quote, spelled, unknown] at accepted
        cases accepted
      · cases stopped
  · rename_i noQuote
    refine misfit_spoils (Except.error.inj stopped)
      fun c after after' t opened opened' found accepted => ?_
    unfold itemKind at accepted
    split at accepted
    · rename_i quote
      cases opened'.symm.trans quote
      exact noQuote after opened
    · cases accepted

theorem Spoils.bind {α β : Type} {read : List Char → Except ReadError α}
    {further : Nat → α → Except ReadError β} {text : List Char} {place : Place}
    (spoils : Spoils read text place) :
    Stretch (fun t _ => ∀ budget found, (read t >>= further budget) ≠ .ok found) text
      (place.rest.drop 1) := by
  refine spoils.mono fun t r holds budget found accepted => ?_
  obtain ⟨taken, read, _⟩ := bind_eq_ok_iff.mp accepted
  exact holds.2 taken read

section Steps

variable {α : Type} {run onwards : Nat → List Char → Except ReadError α} {first : Bool}
  {text : List Char} {place : Place}

/-- A reader of members stops at the place, on any budget, and in every text that begins like
this one up to the character behind it. -/
def SpoilsMembers (run : Nat → List Char → Except ReadError α) (text : List Char) (place : Place) :
    Prop :=
  Stretch (fun t _ => Halts t ∧ ∀ budget found, run budget t ≠ .ok found) text (place.rest.drop 1)

theorem never_of_step {next : ObjectStep} (empty : ∀ t, ∃ error, run 0 t = .error error)
    (step : objectStep first text = .ok next)
    (never : ∀ budget found, run (budget + 1) text ≠ .ok found) :
    Halts text ∧ ∀ budget found, run budget text ≠ .ok found := by
  refine ⟨objectStep_halts step, fun budget found accepted => ?_⟩
  cases budget with
  | zero =>
    obtain ⟨error, stuck⟩ := empty text
    cases stuck.symm.trans accepted
  | succ budget => exact never budget found accepted

/-- The step itself rules out what follows. -/
theorem spoils_of_step {next : ObjectStep} (empty : ∀ t, ∃ error, run 0 t = .error error)
    (step : objectStep first text = .ok next) (behind : place.rest <:+ next.behind)
    (never : ∀ budget t r, objectStep first t = .ok (next.onto r) →
      ∀ found, run (budget + 1) t ≠ .ok found) : SpoilsMembers run text place := by
  refine Stretch.extend ?_ ((List.drop_suffix 1 _).trans behind)
  refine (objectStep_stretch step).mono fun t r step => ?_
  exact never_of_step empty step fun budget => never budget t r step

/-- The member that the step leads to is spoiled, or what follows it. -/
theorem spoils_of_member {name : String} {key start : List Char}
    (empty : ∀ t, ∃ error, run 0 t = .error error)
    (step : objectStep first text = .ok (.key name key)) (colonRead : colon key = .ok start)
    (enters : ∀ {budget t k s}, objectStep first t = .ok (.key name k) → colon k = .ok s →
      run (budget + 1) t = onwards budget s)
    (spoiled : Stretch (fun t _ => ∀ budget found, onwards budget t ≠ .ok found) start
      (place.rest.drop 1)) : SpoilsMembers run text place := by
  refine ((objectStep_stretch step).andThen ((colon_stretch colonRead).andThen spoiled)).mono ?_
  intro t r holds
  rcases holds with ⟨k, step, s, colonRead, never⟩
  refine never_of_step empty step fun budget => ?_
  rw [enters step colonRead]
  exact never budget

end Steps

theorem itemMembers_spoils {budget : Nat} {first : Bool} {text : List Char}
    {kind? : Option ItemKind} {before : List (String × Value)} {mismatch : Mismatch} {place : Place}
    (stopped : itemMembers budget first kind? before text = .error (.misshapen mismatch place)) :
    SpoilsMembers (itemMembers · first kind? before) text place := by
  induction budget generalizing first kind? before text with
  | zero => cases stopped
  | succ budget ih =>
    cases step : objectStep first text with
    | error failure =>
      simp only [itemMembers, step] at stopped
      cases stopped
    | ok next =>
      cases next with
      | closed after =>
        simp only [itemMembers, step] at stopped
        cases kind? with
        | some kind => cases stopped
        | none =>
          cases stopped
          refine spoils_of_step (fun _ => ⟨_, rfl⟩) step List.suffix_rfl
            fun _ t r step found accepted => ?_
          simp only [itemMembers, step, ObjectStep.onto] at accepted
          cases accepted
      | key name key =>
        by_cases isKind : name = kindField
        · subst isKind
          cases kind? with
          | some kind =>
            simp only [itemMembers, step, if_true] at stopped
            cases stopped
            refine spoils_of_step (fun _ => ⟨_, rfl⟩) step (leaveObject_suffix key)
              fun _ t r step found accepted => ?_
            simp only [itemMembers, step, ObjectStep.onto, if_true] at accepted
            cases accepted
          | none =>
            cases colonRead : colon key with
            | error failure =>
              simp only [itemMembers, step, if_true, colonRead] at stopped
              cases stopped
            | ok start =>
              rw [itemMembers_kindAt step colonRead] at stopped
              refine spoils_of_member (fun _ => ⟨_, rfl⟩) step colonRead itemMembers_kindAt ?_
              cases named : itemKind start with
              | error error =>
                rw [named] at stopped
                cases stopped
                exact (itemKind_spoils named).bind
              | ok found =>
                rw [named] at stopped
                refine ((itemKind_stretch named).andThen (ih stopped)).mono ?_
                intro t r holds budget
                rcases holds with ⟨m, named, _, never⟩
                rw [named]
                exact never budget
        · cases colonRead : colon key with
          | error failure =>
            simp only [itemMembers, step, if_neg isKind, colonRead] at stopped
            cases stopped
          | ok start =>
            rw [itemMembers_otherAt isKind step colonRead] at stopped
            refine spoils_of_member (fun _ => ⟨_, rfl⟩) step colonRead
              (itemMembers_otherAt isKind) ?_
            cases valued : value itemNesting start with
            | error failure =>
              rw [valued] at stopped
              cases stopped
            | ok found =>
              rw [valued] at stopped
              refine ((value_stretch itemNesting valued).andThen (ih stopped)).mono ?_
              intro t r holds budget
              rcases holds with ⟨m, valued, halts, never⟩
              rw [valued halts]
              exact never budget

theorem itemParts_spoils {text : List Char} {mismatch : Mismatch} {place : Place}
    (stopped : itemParts text = .error (.misshapen mismatch place)) :
    Spoils itemParts text place := by
  unfold itemParts at stopped
  split at stopped
  · rename_i after opened
    refine ((opening_stretch opened).andThen (itemMembers_spoils stopped)).mono ?_
    intro t r holds
    rcases holds with ⟨m, ⟨head, opened⟩, _, never⟩
    refine ⟨head, fun found accepted => ?_⟩
    simp only [itemParts, opened] at accepted
    exact never _ _ accepted
  · rename_i after opened
    cases stepped : listStep true after with
    | error failure =>
      rw [stepped] at stopped
      cases stopped
    | ok next =>
      rw [stepped] at stopped
      cases next with
      | closed rest =>
        cases stopped
        refine Stretch.extend ?_ (List.drop_suffix 1 rest)
        refine ((opening_stretch opened).andThen (listStep_closed_stretch stepped)).mono ?_
        intro t r holds
        rcases holds with ⟨m, ⟨head, opened⟩, stepped⟩
        refine ⟨head, fun found accepted => ?_⟩
        simp only [itemParts, opened, stepped] at accepted
        cases accepted
      | element start =>
        cases named : itemKind start with
        | error error =>
          simp only [scanned, bind, Except.bind, named] at stopped
          cases stopped
          refine ((opening_stretch opened).andThen ((listStep_element_stretch stepped).andThen
            (itemKind_spoils named))).mono ?_
          intro t r holds
          rcases holds with ⟨m, ⟨head, opened⟩, s, stepped, sameHead, never⟩
          refine ⟨head, fun found accepted => ?_⟩
          simp only [itemParts, opened, stepped sameHead] at accepted
          obtain ⟨_, same, accepted⟩ := bind_eq_ok_iff.mp accepted
          cases same
          obtain ⟨found, named, _⟩ := bind_eq_ok_iff.mp accepted
          exact never found named
        | ok found =>
          simp only [scanned, bind, Except.bind, named] at stopped
          cases listed : elements (value itemNesting) found.2.length false [] found.2 <;>
            rw [listed] at stopped <;> cases stopped
  · rename_i noObject noList
    refine misfit_spoils (Except.error.inj stopped)
      fun c after after' t opened opened' found accepted => ?_
    unfold itemParts at accepted
    split at accepted
    · rename_i object
      cases opened'.symm.trans object
      exact noObject after opened
    · rename_i list
      cases opened'.symm.trans list
      exact noList after opened
    · cases accepted

theorem item_spoils {text : List Char} {mismatch : Mismatch} {place : Place}
    (stopped : item text = .error (.misshapen mismatch place)) : Spoils item text place := by
  unfold item at stopped
  split at stopped
  · rename_i taken
    cases stopped
    refine (itemParts_spoils taken).mono ?_
    intro t r holds
    rcases holds with ⟨head, never⟩
    refine ⟨head, fun found accepted => ?_⟩
    obtain ⟨parts, taken, _⟩ := item_eq_ok accepted
    exact never _ taken
  · rename_i kind fields rest taken
    split at stopped
    · rename_i unshaped
      cases stopped
      have taken' := (itemParts_stretch taken).sameHead ((itemParts_agrees text).shortens taken)
      refine Stretch.extend ?_ ((List.drop_suffix 1 _).trans (leaveList_suffix rest))
      refine taken'.mono ?_
      intro t r holds
      rcases holds with ⟨head, taken⟩
      refine ⟨head, fun found accepted => ?_⟩
      simp only [item, taken, unshaped] at accepted
      cases accepted
    · cases stopped

theorem items_spoils {budget : Nat} {first : Bool} {text : List Char} {before : List Item}
    {mismatch : Mismatch} {place : Place}
    (stopped : items budget first before text = .error (.misshapen mismatch place)) :
    Stretch (fun t _ => ∀ budget' found, items budget' first before t ≠ .ok found)
      text (place.rest.drop 1) := by
  induction budget generalizing first before text with
  | zero => cases stopped
  | succ budget ih =>
    cases step : listStep first text with
    | error failure =>
      simp only [items, step] at stopped
      cases stopped
    | ok next =>
      cases next with
      | closed after =>
        simp only [items, step] at stopped
        cases stopped
      | element start =>
        simp only [items, step] at stopped
        cases taken : item start with
        | error error =>
          rw [taken] at stopped
          cases stopped
          refine ((listStep_element_stretch step).andThen (item_spoils taken)).mono ?_
          intro t r holds budget' found accepted
          rcases holds with ⟨s, step, head, never⟩
          cases budget' with
          | zero => cases accepted
          | succ budget' =>
            simp only [items, step head] at accepted
            split at accepted
            · cases accepted
            · rename_i taken
              exact never _ taken
        | ok found =>
          rw [taken] at stopped
          have element := (item_stretch taken).sameHead (item_shortens taken)
          refine ((listStep_element_stretch step).andThen (element.andThen (ih stopped))).mono ?_
          intro t r holds budget' found accepted
          rcases holds with ⟨s, step, m, ⟨head, taken⟩, never⟩
          cases budget' with
          | zero => cases accepted
          | succ budget' =>
            simp only [items, step head, taken] at accepted
            exact never budget' found accepted

theorem itemList_spoils {text : List Char} {mismatch : Mismatch} {place : Place}
    (stopped : itemList text = .error (.misshapen mismatch place)) :
    Spoils itemList text place := by
  unfold itemList at stopped
  split at stopped
  · rename_i after opened
    refine ((opening_stretch opened).andThen (items_spoils stopped)).mono ?_
    intro t r holds
    rcases holds with ⟨m, ⟨head, opened⟩, never⟩
    refine ⟨head, fun found accepted => ?_⟩
    simp only [itemList, opened] at accepted
    exact never _ _ accepted
  · rename_i noList
    refine misfit_spoils (Except.error.inj stopped)
      fun c after after' t opened opened' found accepted => ?_
    unfold itemList at accepted
    split at accepted
    · rename_i list
      cases opened'.symm.trans list
      exact noList after opened
    · cases accepted

/-! ### Programs -/

theorem programMembers_spoils {budget : Nat} {first : Bool} {text : List Char}
    {items? : Option (List Item)} {mismatch : Mismatch} {place : Place}
    (stopped : programMembers budget first items? text = .error (.misshapen mismatch place)) :
    SpoilsMembers (programMembers · first items?) text place := by
  induction budget generalizing first items? text with
  | zero => cases stopped
  | succ budget ih =>
    cases step : objectStep first text with
    | error failure =>
      simp only [programMembers, step] at stopped
      cases stopped
    | ok next =>
      cases next with
      | closed after =>
        simp only [programMembers, step] at stopped
        cases items? with
        | some found => cases stopped
        | none =>
          cases stopped
          refine spoils_of_step (fun _ => ⟨_, rfl⟩) step List.suffix_rfl
            fun _ t r step found accepted => ?_
          simp only [programMembers, step, ObjectStep.onto] at accepted
          cases accepted
      | key name key =>
        by_cases isItems : name = itemsField
        · subst isItems
          cases items? with
          | some found =>
            simp only [programMembers, step, if_true] at stopped
            cases stopped
            refine spoils_of_step (fun _ => ⟨_, rfl⟩) step (leaveObject_suffix key)
              fun _ t r step found accepted => ?_
            simp only [programMembers, step, ObjectStep.onto, if_true] at accepted
            cases accepted
          | none =>
            cases colonRead : colon key with
            | error failure =>
              simp only [programMembers, step, if_true, colonRead] at stopped
              cases stopped
            | ok start =>
              rw [programMembers_itemsAt step colonRead] at stopped
              refine spoils_of_member (fun _ => ⟨_, rfl⟩) step colonRead programMembers_itemsAt ?_
              cases listed : itemList start with
              | error error =>
                rw [listed] at stopped
                cases stopped
                exact (itemList_spoils listed).bind
              | ok found =>
                rw [listed] at stopped
                refine ((itemList_stretch listed).andThen (ih stopped)).mono ?_
                intro t r holds budget
                rcases holds with ⟨m, listed, _, never⟩
                rw [listed]
                exact never budget
        · cases colonRead : colon key with
          | error failure =>
            simp only [programMembers, step, if_neg isItems, colonRead] at stopped
            cases stopped
          | ok start =>
            rw [programMembers_otherAt isItems step colonRead] at stopped
            refine spoils_of_member (fun _ => ⟨_, rfl⟩) step colonRead
              (programMembers_otherAt isItems) ?_
            cases skimmed : skim start with
            | error failure =>
              rw [skimmed] at stopped
              cases stopped
            | ok rest =>
              rw [skimmed] at stopped
              refine ((skim_stretch skimmed).andThen (ih stopped)).mono ?_
              intro t r holds budget
              rcases holds with ⟨m, skimmed, halts, never⟩
              rw [skimmed halts]
              exact never budget

/-- A text that is stopped at a shape stays so, whatever follows the character behind. -/
theorem program_spoils {text : List Char} {mismatch : Mismatch} {place : Place}
    (stopped : program text = .error (.misshapen mismatch place)) :
    Spoils program text place := by
  by_cases object : ∃ after, skipBlanks text = '{' :: after
  · obtain ⟨after, opened⟩ := object
    rw [program_objectAt opened] at stopped
    refine ((opening_stretch opened).andThen (programMembers_spoils stopped)).mono ?_
    intro t r holds
    rcases holds with ⟨m, ⟨head, opened⟩, _, never⟩
    refine ⟨head, fun found accepted => ?_⟩
    rw [program_objectAt opened] at accepted
    exact never _ found accepted
  · by_cases list : ∃ after, skipBlanks text = '[' :: after
    · obtain ⟨after, opened⟩ := list
      cases stepped : listStep true after with
      | error failure =>
        simp only [program, opened, stepped] at stopped
        cases stopped
      | ok next =>
        cases next with
        | closed rest =>
          simp only [program, opened, stepped] at stopped
          cases stopped
          refine Stretch.extend ?_ (List.drop_suffix 1 rest)
          refine ((opening_stretch opened).andThen (listStep_closed_stretch stepped)).mono ?_
          intro t r holds
          rcases holds with ⟨m, ⟨head, opened⟩, stepped⟩
          refine ⟨head, fun found accepted => ?_⟩
          simp only [program, opened, stepped] at accepted
          cases accepted
        | element start =>
          rw [program_listAt opened stepped] at stopped
          cases listed : itemList start with
          | error error =>
            rw [listed] at stopped
            cases stopped
            refine ((opening_stretch opened).andThen ((listStep_element_stretch stepped).andThen
              (itemList_spoils listed))).mono ?_
            intro t r holds
            rcases holds with ⟨m, ⟨head, opened⟩, s, stepped, sameHead, never⟩
            refine ⟨head, fun found accepted => ?_⟩
            rw [program_listAt opened (stepped sameHead)] at accepted
            obtain ⟨found, listed, _⟩ := bind_eq_ok_iff.mp accepted
            exact never found listed
          | ok found =>
            rw [listed] at stopped
            simp only [bind, Except.bind] at stopped
            cases ended : endOfProgramList found.2 <;> rw [ended] at stopped <;> cases stopped
    · rw [program_other object list] at stopped
      refine misfit_spoils (Except.error.inj stopped)
        fun c after after' t opened opened' found accepted => ?_
      have object' : ¬∃ rest, skipBlanks t = '{' :: rest := by
        rintro ⟨rest, same⟩
        cases opened'.symm.trans same
        exact object ⟨after, opened⟩
      have list' : ¬∃ rest, skipBlanks t = '[' :: rest := by
        rintro ⟨rest, same⟩
        cases opened'.symm.trans same
        exact list ⟨after, opened⟩
      rw [program_other object' list'] at accepted
      cases accepted

end Caju.Tree
