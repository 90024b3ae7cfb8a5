import Caju.Proofs.JsonGrammar

/-! Passing over a value, and the grammar. The loop keeps the open brackets on a stack, so
what is left to do is said for a value, for an entry of a bracket and for what follows
either. Main statement: a text is well formed exactly if one value can be passed over and
nothing but blanks is left (`wellFormed_iff`). -/

namespace Caju.Json

/-! ### Scalars -/

theorem skimScalar_literal :
    ∀ letters ∈ literals, ∀ rest, skimScalar (letters ++ rest) = .ok rest := by
  simp only [literals, List.forall_mem_cons]
  exact ⟨word_append ['u', 'l', 'l'], word_append ['r', 'u', 'e'], word_append ['a', 'l', 's', 'e'],
    List.forall_mem_nil _⟩

theorem skimScalar_number {c : Char} (first : BeginsNumber c) (rest : List Char) :
    skimScalar (c :: rest) = (Numeral.scan .invalidNumber (c :: rest)).map Prod.snd := by
  have null : c ≠ 'n' := first.ne (by decide) rfl
  have yes : c ≠ 't' := first.ne (by decide) rfl
  have no : c ≠ 'f' := first.ne (by decide) rfl
  have quote : c ≠ '"' := first.ne (by decide) rfl
  rw [skimScalar, if_neg null, if_neg yes, if_neg no, if_neg quote]
  exact if_pos first

theorem skimScalar_sound {text rest : List Char} (read : skimScalar text = .ok rest) (depth : Nat) :
    Phrase .none depth .value text rest := by
  revert read
  fun_cases skimScalar text
  all_goals intro read
  case case2 =>
    have known : ['n', 'u', 'l', 'l'] ∈ literals := by decide
    rw [word_sound read]
    exact Phrase.literal known rest
  case case3 =>
    have known : ['t', 'r', 'u', 'e'] ∈ literals := by decide
    rw [word_sound read]
    exact Phrase.literal known rest
  case case4 =>
    have known : ['f', 'a', 'l', 's', 'e'] ∈ literals := by decide
    rw [word_sound read]
    exact Phrase.literal known rest
  case case5 => exact .string (skimString_sound read)
  case case6 =>
    obtain ⟨⟨numeral, after⟩, scanned, same⟩ := map_eq_ok_iff.mp read
    cases same
    exact .number ⟨numeral, Numeral.scan_sound scanned⟩
  all_goals cases read

/-! ### Passing over a value -/

/-- Passes over a value that `stack` is open around, and over all that closes it. -/
def skimFrom (stack : List Bracket) (text : List Char) : Except Failure (List Char) :=
  skimLoop (text.length + 1) stack text

/-- Goes on where a step has come to. -/
def SkimStep.resume : SkimStep → Except Failure (List Char)
  | .closed rest => .ok rest
  | .value stack start => skimFrom stack start

/-- Goes on behind a value. -/
def skimAfter (stack : List Bracket) (text : List Char) : Except Failure (List Char) :=
  closeBrackets stack text >>= SkimStep.resume

/-- Goes on in front of an element or a member. -/
def skimEntry (bracket : Bracket) (stack : List Bracket) (text : List Char) :
    Except Failure (List Char) :=
  bracket.lead text >>= skimFrom (bracket :: stack)

/-- Goes on behind an opening bracket. -/
def skimInside (bracket : Bracket) (stack : List Bracket) (text : List Char) :
    Except Failure (List Char) :=
  openBracket bracket stack text >>= SkimStep.resume

theorem skimKey_sound {text start : List Char} (read : skimKey text = .ok start) :
    ∃ after middle, skipBlanks text = '"' :: after ∧ StringText AnyEscape after middle ∧
      skipBlanks middle = ':' :: start := by
  unfold skimKey at read
  split at read
  · cases read
  · rename_i c after found
    split at read
    · rename_i quote
      obtain ⟨middle, skimmed, read⟩ := bind_eq_ok_iff.mp read
      exact ⟨after, middle, by rw [found, quote], skimString_sound skimmed, colon_sound read⟩
    · cases read

theorem Bracket.lead_sound {bracket : Bracket} {depth : Nat} {text start rest : List Char}
    (read : bracket.lead text = .ok start) (value : Phrase .none depth .value start rest) :
    Phrase .none depth (.entry bracket) text rest := by
  cases bracket with
  | list =>
    cases read
    exact .element value
  | object =>
    obtain ⟨after, middle, found, key, colon⟩ := skimKey_sound read
    apply Phrase.of_skipBlanks
    rw [found]
    refine .member key (.of_skipBlanks ?_)
    rw [colon]
    exact .named value

theorem Bracket.lead_length {bracket : Bracket} {text start : List Char}
    (read : bracket.lead text = .ok start) : start.length ≤ text.length := by
  cases bracket with
  | list =>
    cases read
    exact Nat.le_refl _
  | object =>
    obtain ⟨after, middle, found, key, colon⟩ := skimKey_sound read
    have := length_skipBlanks text
    have := length_skipBlanks middle
    have := key.shortens
    simp only [found, colon, List.length_cons] at *
    omega

theorem closeBrackets_length {stack stack' : List Bracket} {text start : List Char}
    (taken : closeBrackets stack text = .ok (.value stack' start)) :
    start.length < text.length := by
  induction stack generalizing text with
  | nil => cases taken
  | cons bracket stack ih =>
    have blanks := length_skipBlanks text
    unfold closeBrackets at taken
    split at taken
    · cases taken
    · rename_i c rest found
      rw [found, List.length_cons] at blanks
      split at taken
      · have := ih taken
        omega
      · split at taken
        · obtain ⟨_, read, same⟩ := map_eq_ok_iff.mp taken
          cases same
          have := Bracket.lead_length read
          omega
        · cases taken

theorem openBracket_length {bracket : Bracket} {stack stack' : List Bracket}
    {text start : List Char} (taken : openBracket bracket stack text = .ok (.value stack' start)) :
    start.length ≤ text.length := by
  have blanks := length_skipBlanks text
  unfold openBracket at taken
  split at taken
  · cases taken
  · rename_i c rest found
    rw [found, List.length_cons] at blanks
    split at taken
    · have := closeBrackets_length taken
      omega
    · obtain ⟨_, read, same⟩ := map_eq_ok_iff.mp taken
      cases same
      have := Bracket.lead_length read
      rw [List.length_cons] at this
      omega

theorem skimStep_length {stack stack' : List Bracket} {text start : List Char}
    (taken : skimStep stack text = .ok (.value stack' start)) : start.length < text.length := by
  have blanks := length_skipBlanks text
  unfold skimStep at taken
  split at taken
  · rename_i rest found
    rw [found, List.length_cons] at blanks
    have := openBracket_length taken
    omega
  · rename_i rest found
    rw [found, List.length_cons] at blanks
    have := openBracket_length taken
    omega
  · obtain ⟨rest, skimmed, taken⟩ := bind_eq_ok_iff.mp taken
    have := (skimScalar_sound skimmed 0).shortens
    have := closeBrackets_length taken
    omega

/-- The loop on a budget that lasts, one step at a time. -/
theorem skimLoop_eq {budget : Nat} {stack : List Bracket} {text : List Char}
    (enough : text.length < budget) :
    skimLoop budget stack text = skimStep stack text >>= SkimStep.resume := by
  induction budget using Nat.strong_induction_on generalizing stack text with
  | _ budget ih =>
    obtain ⟨budget, rfl⟩ := Nat.exists_eq_add_one.mpr (Nat.zero_lt_of_lt enough)
    rw [skimLoop]
    cases taken : skimStep stack text with
    | error failure => rfl
    | ok step =>
      cases step with
      | closed rest => rfl
      | value stack' start =>
        have shorter := skimStep_length taken
        have fits : start.length < budget := by omega
        -- both budgets last, so both loops go on with the same step
        calc skimLoop budget stack' start
          _ = skimStep stack' start >>= SkimStep.resume := ih budget (Nat.lt_succ_self _) fits
          _ = skimFrom stack' start :=
            (ih (start.length + 1) (Nat.succ_lt_succ fits) (Nat.lt_succ_self _)).symm

theorem skimFrom_eq (stack : List Bracket) (text : List Char) :
    skimFrom stack text = skimStep stack text >>= SkimStep.resume :=
  skimLoop_eq (Nat.lt_succ_self _)

theorem skimFrom_skipBlanks (stack : List Bracket) (text : List Char) :
    skimFrom stack (skipBlanks text) = skimFrom stack text := by
  rw [skimFrom_eq, skimFrom_eq]
  simp only [skimStep, skipBlanks_skipBlanks]

theorem skimFrom_bracket {bracket : Bracket} {stack : List Bracket} {text rest : List Char}
    (found : skipBlanks text = bracket.opening :: rest) :
    skimFrom stack text = skimInside bracket stack rest := by
  rw [skimFrom_eq]
  cases bracket <;> simp only [skimStep, found, Bracket.opening] <;> rfl

/-- What the next word of a text is not: a bracket that opens. -/
def OpensNone (text : List Char) : Prop :=
  ∀ (bracket : Bracket) (rest : List Char), skipBlanks text ≠ bracket.opening :: rest

theorem opensNone_or_opens (text : List Char) :
    OpensNone text ∨ ∃ (bracket : Bracket) (rest : List Char),
      skipBlanks text = bracket.opening :: rest := by
  by_cases opensNone : OpensNone text
  · exact .inl opensNone
  · simp only [OpensNone, ne_eq, not_forall, not_not] at opensNone
    exact .inr opensNone

theorem skimFrom_scalar {stack : List Bracket} {text : List Char} (scalar : OpensNone text) :
    skimFrom stack text = skimScalar (skipBlanks text) >>= skimAfter stack := by
  rw [skimFrom_eq]
  unfold skimStep
  split
  · rename_i found
    exact absurd found (scalar .list _)
  · rename_i found
    exact absurd found (scalar .object _)
  · exact bind_assoc _ _ _

section Steps

variable {bracket : Bracket} {stack : List Bracket} {text rest : List Char}

theorem skimEntry_eq :
    (bracket.lead text).map (.value (bracket :: stack)) >>= SkimStep.resume =
      skimEntry bracket stack text := by
  unfold skimEntry
  cases bracket.lead text <;> rfl

theorem skimEntry_skipBlanks : skimEntry bracket stack (skipBlanks text) =
    skimEntry bracket stack text := by
  cases bracket with
  | list => exact skimFrom_skipBlanks _ text
  | object => simp only [skimEntry, Bracket.lead, skimKey, skipBlanks_skipBlanks]

theorem skimAfter_closing (found : skipBlanks text = bracket.closing :: rest) :
    skimAfter (bracket :: stack) text = skimAfter stack rest := by
  simp only [skimAfter, closeBrackets, found, if_true]

theorem skimAfter_comma (found : skipBlanks text = ',' :: rest) :
    skimAfter (bracket :: stack) text = skimEntry bracket stack rest := by
  have notClosing : ',' ≠ bracket.closing := by cases bracket <;> decide
  rw [← skimEntry_eq]
  simp only [skimAfter, closeBrackets, found, if_neg notClosing, if_true]

theorem skimInside_closing (found : skipBlanks text = bracket.closing :: rest) :
    skimInside bracket stack text = skimAfter stack rest := by
  simp only [skimInside, openBracket, found, if_true, skimAfter]

theorem skimInside_entry {c : Char} (found : skipBlanks text = c :: rest)
    (other : c ≠ bracket.closing) :
    skimInside bracket stack text = skimEntry bracket stack text := by
  rw [← skimEntry_skipBlanks, ← skimEntry_eq]
  simp only [skimInside, openBracket, found, if_neg other]

end Steps

/-! ### Passing over a value, and the grammar -/

/-- What follows a value closes every bracket of the stack, from `text` up to `rest`. -/
def Unwinds : List Bracket → List Char → List Char → Prop
  | [], text, rest => text = rest
  | bracket :: stack, text, rest => ∃ middle,
    Phrase .none (stack.length + 1) (.more bracket) text middle ∧ Unwinds stack middle rest

/-- From where a step has come to, the grammar leads to `rest`. -/
def SkimStep.Leads (rest : List Char) : SkimStep → Prop
  | .closed after => after = rest
  | .value stack start => ∃ middle,
    Phrase .none stack.length .value start middle ∧ Unwinds stack middle rest

theorem unwinds_skipBlanks {stack : List Bracket} {text rest : List Char} {bracket : Bracket}
    (unwinds : Unwinds (bracket :: stack) (skipBlanks text) rest) :
    Unwinds (bracket :: stack) text rest := by
  obtain ⟨middle, phrase, outer⟩ := unwinds
  exact ⟨middle, phrase.of_skipBlanks, outer⟩

theorem closeBrackets_sound {stack : List Bracket} {text rest : List Char} {step : SkimStep}
    (taken : closeBrackets stack text = .ok step) (leads : step.Leads rest) :
    Unwinds stack text rest := by
  induction stack generalizing text with
  | nil =>
    cases taken
    exact leads
  | cons bracket stack ih =>
    apply unwinds_skipBlanks
    unfold closeBrackets at taken
    split at taken
    · cases taken
    · rename_i c after found
      rw [found]
      split at taken
      · rename_i closing
        rw [closing]
        exact ⟨after, .close after, ih taken⟩
      · split at taken
        · rename_i comma
          rw [comma]
          obtain ⟨start, read, same⟩ := map_eq_ok_iff.mp taken
          cases same
          obtain ⟨middle, value, end_, more, outer⟩ := leads
          exact ⟨end_, .next (Bracket.lead_sound read value) more, outer⟩
        · cases taken

theorem openBracket_sound {bracket : Bracket} {stack : List Bracket} {text rest : List Char}
    {step : SkimStep} (taken : openBracket bracket stack text = .ok step)
    (leads : step.Leads rest) :
    ∃ middle, Phrase .none (stack.length + 1) (.inside bracket) text middle ∧
      Unwinds stack middle rest := by
  suffices inside : ∃ middle, Phrase .none (stack.length + 1) (.inside bracket) (skipBlanks text)
      middle ∧ Unwinds stack middle rest by
    obtain ⟨middle, phrase, outer⟩ := inside
    exact ⟨middle, phrase.of_skipBlanks, outer⟩
  unfold openBracket at taken
  split at taken
  · cases taken
  · rename_i c after found
    rw [found]
    split at taken
    · rename_i closing
      rw [closing]
      exact ⟨after, .empty after, closeBrackets_sound taken leads⟩
    · obtain ⟨start, read, same⟩ := map_eq_ok_iff.mp taken
      cases same
      obtain ⟨middle, value, end_, more, outer⟩ := leads
      exact ⟨end_, .first (Bracket.lead_sound read value) more, outer⟩

theorem skimStep_sound {stack : List Bracket} {text rest : List Char} {step : SkimStep}
    (taken : skimStep stack text = .ok step) (leads : step.Leads rest) :
    (SkimStep.value stack text).Leads rest := by
  suffices phrase : ∃ middle, Phrase .none stack.length .value (skipBlanks text) middle ∧
      Unwinds stack middle rest by
    obtain ⟨middle, phrase, outer⟩ := phrase
    exact ⟨middle, phrase.of_skipBlanks, outer⟩
  unfold skimStep at taken
  split at taken
  · rename_i after found
    rw [found]
    obtain ⟨middle, inside, outer⟩ := openBracket_sound taken leads
    exact ⟨middle, Phrase.bracket trivial inside, outer⟩
  · rename_i after found
    rw [found]
    obtain ⟨middle, inside, outer⟩ := openBracket_sound taken leads
    exact ⟨middle, Phrase.bracket trivial inside, outer⟩
  · obtain ⟨after, skimmed, taken⟩ := bind_eq_ok_iff.mp taken
    exact ⟨after, skimScalar_sound skimmed _, closeBrackets_sound taken leads⟩

theorem skimLoop_sound {budget : Nat} {stack : List Bracket} {text rest : List Char}
    (read : skimLoop budget stack text = .ok rest) : (SkimStep.value stack text).Leads rest := by
  induction budget generalizing stack text with
  | zero => cases read
  | succ budget ih =>
    unfold skimLoop at read
    split at read
    · cases read
    · rename_i taken
      cases read
      exact skimStep_sound taken rfl
    · rename_i taken
      exact skimStep_sound taken (ih read)

theorem skim_sound {text rest : List Char} (read : skim text = .ok rest) :
    Phrase .none 0 .value text rest := by
  obtain ⟨middle, phrase, same⟩ := skimLoop_sound read
  cases same
  exact phrase

/-- How a part is passed over: the loop goes on behind it. A number is passed over as a
whole only if what follows it cannot belong to it. -/
def Skims : Part → List Char → List Char → Prop
  | .value, text, rest => Halts rest → ∀ stack, skimFrom stack text = skimAfter stack rest
  | .named, text, rest => ∃ start, skipBlanks text = ':' :: start ∧
    (Halts rest → ∀ stack, skimFrom stack start = skimAfter stack rest)
  | .entry bracket, text, rest =>
    Halts rest → ∀ stack, skimEntry bracket stack text = skimAfter (bracket :: stack) rest
  | .inside bracket, text, rest => ∀ stack, skimInside bracket stack text = skimAfter stack rest
  | .more bracket, text, rest => ∀ stack, skimAfter (bracket :: stack) text = skimAfter stack rest

theorem Skims.blank {part : Part} {c : Char} {text rest : List Char} (space : isBlank c = true)
    (skims : Skims part text rest) : Skims part (c :: text) rest := by
  have skipped := skipBlanks_blank space text
  cases part with
  | value =>
    intro halts stack
    rw [← skimFrom_skipBlanks, skipped, skimFrom_skipBlanks]
    exact skims halts stack
  | named =>
    obtain ⟨start, found, onwards⟩ := skims
    exact ⟨start, skipped.trans found, onwards⟩
  | entry bracket =>
    intro halts stack
    rw [← skimEntry_skipBlanks, skipped, skimEntry_skipBlanks]
    exact skims halts stack
  | inside bracket =>
    intro stack
    rw [← skims stack]
    simp only [skimInside, openBracket, skipped]
  | more bracket =>
    intro stack
    rw [← skims stack]
    simp only [skimAfter, closeBrackets, skipped]

theorem opensNone_cons {c : Char} (visible : isBlank c = false)
    (other : ∀ bracket : Bracket, c ≠ bracket.opening) (rest : List Char) :
    OpensNone (c :: rest) := by
  intro bracket after same
  rw [skipBlanks_cons visible] at same
  cases same
  exact other bracket rfl

theorem skims_scalar {c : Char} {text rest : List Char} (visible : isBlank c = false)
    (other : ∀ bracket : Bracket, c ≠ bracket.opening)
    (skimmed : Halts rest → skimScalar (c :: text) = .ok rest) : Skims .value (c :: text) rest := by
  intro halts stack
  rw [skimFrom_scalar (opensNone_cons visible other text), skipBlanks_cons visible, skimmed halts]
  rfl

theorem Phrase.skims {depth : Nat} {part : Part} {text rest : List Char}
    (phrase : Phrase .none depth part text rest) : Skims part text rest := by
  induction phrase with
  | blank space _ ih => exact ih.blank space
  | literal known rest =>
    have skimmed := skimScalar_literal _ known rest
    obtain ⟨c, after, rfl, visible, other⟩ := literals_start _ known
    exact skims_scalar visible (fun bracket => (other bracket).1) fun _ => skimmed
  | string spelled =>
    refine skims_scalar rfl (fun bracket => by cases bracket <;> decide) fun _ => ?_
    exact skimString_complete spelled
  | number written =>
    obtain ⟨numeral, written⟩ := written
    obtain ⟨c, after, rfl, first⟩ := written.begins
    refine skims_scalar first.not_blank (fun bracket => ?_) fun halts => ?_
    · cases bracket <;> exact first.ne (by decide) rfl
    · rw [skimScalar_number first, Numeral.scan_complete _ written halts]
      rfl
  | @bracket _ bracket _ _ _ _ ih =>
    intro _ stack
    have visible : isBlank bracket.opening = false := by cases bracket <;> rfl
    rw [skimFrom_bracket (skipBlanks_cons visible _)]
    exact ih stack
  | @empty _ bracket rest =>
    intro stack
    have visible : isBlank bracket.closing = false := by cases bracket <;> rfl
    exact skimInside_closing (skipBlanks_cons visible rest)
  | first entry more entered onwards =>
    intro stack
    obtain ⟨c, after, found, other⟩ := entry.begins trivial
    rw [skimInside_entry found (other _), entered more.halts stack, onwards stack]
  | @close _ bracket rest =>
    intro stack
    have visible : isBlank bracket.closing = false := by cases bracket <;> rfl
    exact skimAfter_closing (skipBlanks_cons visible rest)
  | next entry more entered onwards =>
    intro stack
    rw [skimAfter_comma (skipBlanks_cons rfl _), entered more.halts stack, onwards stack]
  | element _ ih => exact fun halts stack => ih halts (.list :: stack)
  | @member _ text middle _ key _ ih =>
    intro halts stack
    obtain ⟨start, found, onwards⟩ := ih
    have lead : Bracket.object.lead ('"' :: text) = .ok start :=
      calc skimKey ('"' :: text)
        _ = skimString text >>= colon := rfl
        _ = colon middle := by rw [skimString_complete key]; rfl
        _ = .ok start := colon_complete found
    rw [skimEntry, lead]
    exact onwards halts (.object :: stack)
  | named _ ih => exact ⟨_, skipBlanks_cons rfl _, ih⟩

/-- A text is well formed exactly if one value can be passed over and nothing but blanks
is left. -/
theorem wellFormed_iff {text : List Char} :
    WellFormed text ↔ ∃ rest, skim text = .ok rest ∧ finish rest = .ok () := by
  constructor
  · rintro ⟨rest, phrase, blanks⟩
    exact ⟨rest, phrase.skims (halts_of_blanks blanks) [], finish_eq_ok_iff.mpr blanks⟩
  · rintro ⟨rest, skimmed, finished⟩
    exact ⟨rest, skim_sound skimmed, finish_eq_ok_iff.mp finished⟩

end Caju.Json
