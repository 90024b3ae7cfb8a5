import Caju.Proofs.JsonFlaws
import Caju.Proofs.JsonSkimming

/-! Reading a value and passing over it. The two share no code but the smallest words, and a
value that is passed over is held to the grammar only. Main statements: a value is passed
over as far as it is read, and not at all if the grammar forbids it (`value_tracks`); so what
is read as a document is well formed (`wellFormed_of_document`). -/

namespace Caju.Json

/-- What is passed over where a scan succeeds goes on from what it found, and what a flaw of
the grammar stops is not passed over either. -/
def Tracks {α : Type} (onwards : α → Except Failure (List Char)) (scan : Except Failure α)
    (skimmed : Except Failure (List Char)) : Prop :=
  match scan with
  | .ok found => skimmed = onwards found
  | .error failure => failure.flaw.isLimit = false → ∃ other, skimmed = .error other

section Tracks

variable {α β : Type} {onwards : α → Except Failure (List Char)}
  {onwards' : β → Except Failure (List Char)} {scan : Except Failure α}
  {skimmed : Except Failure (List Char)}

theorem Tracks.map {f : α → β} (tracks : Tracks onwards scan skimmed)
    (same : ∀ found, onwards found = onwards' (f found)) :
    Tracks onwards' (scan.map f) skimmed := by
  cases scan with
  | ok found => exact Eq.trans tracks (same found)
  | error failure => exact tracks

theorem Tracks.bind {next : α → Except Failure β} (tracks : Tracks onwards scan skimmed)
    (more : ∀ found, scan = .ok found → Tracks onwards' (next found) (onwards found)) :
    Tracks onwards' (scan >>= next) skimmed := by
  cases scan with
  | ok found =>
    have same : skimmed = onwards found := tracks
    rw [same]
    exact more found rfl
  | error failure => exact tracks

theorem tracks_itself (scan : Except Failure (List Char)) : Tracks .ok scan scan := by
  cases scan with
  | ok rest => rfl
  | error failure => exact fun _ => ⟨failure, rfl⟩

/-- Both go on alike behind what was passed over. -/
theorem Tracks.andThen {behind : α → List Char} {further : List Char → Except Failure (List Char)}
    (tracks : Tracks (.ok ∘ behind) scan skimmed) :
    Tracks (further ∘ behind) scan (skimmed >>= further) := by
  cases scan with
  | ok found =>
    have same : skimmed = .ok (behind found) := tracks
    rw [same]
    rfl
  | error failure =>
    intro grammar
    obtain ⟨other, failed⟩ := tracks grammar
    rw [failed]
    exact ⟨other, rfl⟩

end Tracks

theorem skimString_notUnit {a b c d : Char} (unknown : hexUnit? a b c d = none)
    (rest : List Char) : skimString ('\\' :: 'u' :: a :: b :: c :: d :: rest) =
      .error (badHexEscape (a :: b :: c :: d :: rest)) := by
  rw [skimString]
  simp only [unknown]

theorem skimString_fewDigits {digits : List Char}
    (few : ∀ a b c d rest, digits = a :: b :: c :: d :: rest → False) :
    skimString ('\\' :: 'u' :: digits) = .error (badHexEscape digits) := by
  rw [skimString]
  exact few

theorem stringBody_tracks (before text : List Char) :
    Tracks (.ok ∘ Prod.snd) (stringBody before text) (skimString text) := by
  fun_induction stringBody before text
  -- the closing quote
  case case2 => rfl
  -- digits that are none
  case case3 unknown => exact fun _ => ⟨_, skimString_notUnit unknown _⟩
  case case7 known _ _ _ _ _ _ _ unknown =>
    exact fun _ => ⟨_, (skimString_unit known _).trans (skimString_notUnit unknown _)⟩
  case case10 known _ _ _ few =>
    exact fun _ => ⟨_, (skimString_unit known _).trans (skimString_fewDigits few)⟩
  case case14 few => exact fun _ => ⟨_, skimString_fewDigits few⟩
  -- a character, however it is written
  case case8 leading _ _ _ _ _ _ _ _ trailing _ ih =>
    rwa [skimString_unit leading, skimString_unit trailing]
  case case13 known _ _ ih => rwa [skimString_unit known]
  case case16 known ih => rwa [skimString_short known]
  case case19 quote _ _ notLast notEscape printable ih =>
    rwa [skimString_plain printable quote (not_backslash notLast notEscape)]
  -- an unknown escape and a control character
  case case17 letter rest notDigits notUnit unknown =>
    have failed : skimString ('\\' :: letter :: rest) =
        .error (.next .invalidEscape (letter :: rest)) := by
      rw [skimString]
      · simp only [unknown]
      · exact notDigits
      · exact notUnit
    exact fun _ => ⟨_, failed⟩
  case case18 c rest quote notDigits notUnit notLast notEscape control =>
    have failed : skimString (c :: rest) = .error (.here .controlCharacter (c :: rest)) := by
      rw [skimString]
      · exact if_pos control
      · exact quote
      · exact notDigits
      · exact notUnit
      · exact notLast
      · exact notEscape
    exact fun _ => ⟨_, failed⟩
  -- the text ends inside the string
  case case1 | case15 => exact fun _ => ⟨_, rfl⟩
  case case5 known _ _ | case6 known _ _ =>
    exact fun _ => ⟨_, (skimString_unit known _).trans rfl⟩
  -- surrogates without their other half are a limit
  case case4 | case9 | case11 | case12 =>
    intro grammar
    cases grammar

namespace Numeral

variable {cut cut' : Flaw} {text : List Char}

/-- The flaw of a numeral that is cut off does not matter to the others. -/
theorem scanDigits_recut {found : List Char × List Char} (read : scanDigits cut text = .ok found) :
    scanDigits cut' text = .ok found := by
  unfold scanDigits at read ⊢
  split at read
  · cases read
  · cases read
  · exact read

theorem scanWhole_recut {found : List Char × List Char} (read : scanWhole cut text = .ok found) :
    scanWhole cut' text = .ok found := by
  revert read
  fun_cases scanWhole cut text
  all_goals intro read
  case case2 => exact read
  case case4 c _ notDigit =>
    rw [scanWhole]
    exact (if_neg notDigit).trans read
  case case5 notZero digit =>
    rw [scanWhole]
    · exact (if_pos digit).trans read
    · exact notZero
  all_goals cases read

theorem scanFraction_recut {found : List Char × List Char}
    (read : scanFraction cut text = .ok found) : scanFraction cut' text = .ok found := by
  revert read
  fun_cases scanFraction cut text
  all_goals intro read
  case case1 => exact scanDigits_recut read
  case case2 noPoint =>
    rw [scanFraction]
    · exact read
    · exact noPoint

theorem scanExponent_recut {found : Option (Bool × List Char) × List Char}
    (read : scanExponent cut text = .ok found) : scanExponent cut' text = .ok found := by
  cases text with
  | nil => exact read
  | cons c rest =>
    delta scanExponent at read ⊢
    dsimp only at read ⊢
    by_cases mark : c = 'e' ∨ c = 'E'
    · simp only [if_pos mark] at read ⊢
      split at read
      · cases read
      · rename_i scanned
        simp only [scanDigits_recut scanned]
        exact read
    · rw [if_neg mark] at read ⊢
      exact read

theorem scan_recut {found : Numeral × List Char} (read : scan cut text = .ok found) :
    scan cut' text = .ok found := by
  unfold scan at read ⊢
  obtain ⟨_, whole, read⟩ := bind_eq_ok_iff.mp read
  obtain ⟨_, fraction, read⟩ := bind_eq_ok_iff.mp read
  obtain ⟨_, exponent, read⟩ := bind_eq_ok_iff.mp read
  refine bind_eq_ok_iff.mpr ⟨_, scanWhole_recut whole, ?_⟩
  refine bind_eq_ok_iff.mpr ⟨_, scanFraction_recut fraction, ?_⟩
  exact bind_eq_ok_iff.mpr ⟨_, scanExponent_recut exponent, read⟩

end Numeral

theorem number_tracks (text : List Char) :
    Tracks (.ok ∘ Prod.snd) (number text) ((Numeral.scan .invalidNumber text).map Prod.snd) := by
  have scanned : Tracks (.ok ∘ Prod.snd) (Numeral.scan .endOfValue text)
      ((Numeral.scan .invalidNumber text).map Prod.snd) := by
    cases scanned : Numeral.scan .endOfValue text with
    | ok found =>
      rw [Numeral.scan_recut scanned]
      rfl
    | error failure =>
      intro _
      cases recut : Numeral.scan .invalidNumber text with
      | ok found => cases (Numeral.scan_recut recut).symm.trans scanned
      | error other => exact ⟨other, rfl⟩
  refine scanned.bind ?_
  intro found _
  rcases found with ⟨numeral, rest⟩
  dsimp only
  cases known : numeral.value rest with
  | ok v => rfl
  | error failure =>
    intro grammar
    have limit := Numeral.value_fails known
    rw [grammar] at limit
    cases limit

theorem scalar_tracks (text : List Char) :
    Tracks (.ok ∘ Prod.snd) (scalar text) (skimScalar text) := by
  fun_cases scalar text
  case case1 => exact fun _ => ⟨_, rfl⟩
  case case2 | case3 | case4 => exact (tracks_itself _).map fun _ => rfl
  case case5 => exact (stringBody_tracks [] _).map fun _ => rfl
  case case6 first =>
    rw [skimScalar_number first]
    exact number_tracks _
  case case7 c rest null yes no quote other =>
    have failed : skimScalar (c :: rest) = .error (.next .expectedValue (c :: rest)) := by
      rw [skimScalar, if_neg null, if_neg yes, if_neg no, if_neg quote, if_neg other]
    exact fun _ => ⟨_, failed⟩

/-- Where the loop stands in front of the next entry of a bracket, the first or another. -/
def skimOn (first : Bool) (bracket : Bracket) (stack : List Bracket) (text : List Char) :
    Except Failure (List Char) :=
  if first then skimInside bracket stack text else skimAfter (bracket :: stack) text

section Steps

variable {first : Bool} {bracket : Bracket} {stack : List Bracket} {text rest : List Char}

theorem skimOn_nil (found : skipBlanks text = []) :
    ∃ other, skimOn first bracket stack text = .error other := by
  unfold skimOn
  split
  · exact ⟨_, by simp only [skimInside, openBracket, found]; rfl⟩
  · exact ⟨_, by simp only [skimAfter, closeBrackets, found]; rfl⟩

theorem skimOn_closing (found : skipBlanks text = bracket.closing :: rest) :
    skimOn first bracket stack text = skimAfter stack rest := by
  unfold skimOn
  split
  · exact skimInside_closing found
  · exact skimAfter_closing found

theorem skimOn_unfinished {c : Char} (found : skipBlanks text = c :: rest)
    (other : c ≠ bracket.closing) (noComma : c ≠ ',') :
    ∃ failure, skimOn false bracket stack text = .error failure :=
  ⟨_, by simp only [skimOn, skimAfter, closeBrackets, found, if_neg other, if_neg noComma]; rfl⟩

/-- No value begins with the end of the text or of a list. -/
theorem skimFrom_nothing (found : skipBlanks text = [] ∨ ∃ rest, skipBlanks text = ']' :: rest) :
    ∃ other, skimFrom stack text = .error other := by
  have opensNone : OpensNone text := by
    intro bracket rest same
    rcases found with none | ⟨after, closing⟩
    · cases none.symm.trans same
    · have clash := closing.symm.trans same
      cases bracket <;> cases clash
  rw [skimFrom_scalar opensNone]
  rcases found with none | ⟨rest, closing⟩
  · exact ⟨_, by rw [none]; rfl⟩
  · exact ⟨_, by rw [closing]; rfl⟩

/-- How the loop goes on from a step through a list. -/
def ListStep.skimmed (stack : List Bracket) : ListStep → Except Failure (List Char)
  | .closed rest => skimAfter stack rest
  | .element start => skimFrom (.list :: stack) start

theorem listStep_tracks :
    Tracks (ListStep.skimmed stack) (listStep first text) (skimOn first .list stack text) := by
  unfold listStep
  split
  · rename_i none
    exact fun _ => skimOn_nil none
  · rename_i c rest found
    split
    · rename_i closing
      rw [closing] at found
      exact skimOn_closing found
    · rename_i notClosing
      cases first with
      | true =>
        calc skimInside .list stack text
          _ = skimEntry .list stack text := skimInside_entry found notClosing
          _ = skimFrom (.list :: stack) (skipBlanks text) := (skimFrom_skipBlanks _ text).symm
          _ = skimFrom (.list :: stack) (c :: rest) := by rw [found]
      | false =>
        rw [if_neg Bool.false_ne_true]
        split
        · rename_i comma
          rw [comma] at found
          have onwards : skimOn false .list stack text = skimFrom (.list :: stack) rest :=
            skimAfter_comma found
          rw [onwards]
          split
          · rename_i none
            exact fun _ => skimFrom_nothing (.inl none)
          · rename_i d after next
            split
            · rename_i closing
              rw [closing] at next
              exact fun _ => skimFrom_nothing (.inr ⟨after, next⟩)
            · exact (skimFrom_skipBlanks _ rest).symm.trans (congrArg _ next)
        · rename_i noComma
          exact fun _ => skimOn_unfinished found notClosing noComma

/-- How the loop goes on from a step through an object. -/
def ObjectStep.skimmed (stack : List Bracket) : ObjectStep → Except Failure (List Char)
  | .closed rest => skimAfter stack rest
  | .key _ rest => colon rest >>= skimFrom (.object :: stack)

theorem skimEntry_quote (found : skipBlanks text = '"' :: rest) :
    skimEntry .object stack text =
      skimString rest >>= fun after => colon after >>= skimFrom (.object :: stack) := by
  simp only [skimEntry, Bracket.lead, skimKey, found, if_true, bind_assoc]

theorem skimEntry_notKey (found : ∀ rest, skipBlanks text ≠ '"' :: rest) :
    ∃ other, skimEntry .object stack text = .error other := by
  unfold skimEntry
  cases read : Bracket.object.lead text with
  | ok start =>
    obtain ⟨rest, _, quote, _⟩ := skimKey_sound read
    exact absurd quote (found rest)
  | error failure => exact ⟨failure, rfl⟩

theorem objectKey_tracks {c : Char} (found : skipBlanks text = c :: rest) :
    Tracks (ObjectStep.skimmed stack) (objectKey (c :: rest)) (skimEntry .object stack text) := by
  by_cases quote : c = '"'
  · subst quote
    rw [skimEntry_quote found]
    exact Tracks.bind (stringBody_tracks [] rest).andThen fun found _ => rfl
  · have notKey : ∀ after, skipBlanks text ≠ '"' :: after := by
      intro after same
      cases found.symm.trans same
      exact quote rfl
    unfold objectKey
    split
    · rename_i same
      cases same
      exact absurd rfl quote
    · exact fun _ => skimEntry_notKey notKey

theorem objectStep_tracks :
    Tracks (ObjectStep.skimmed stack) (objectStep first text)
      (skimOn first .object stack text) := by
  unfold objectStep
  split
  · rename_i none
    exact fun _ => skimOn_nil none
  · rename_i c rest found
    split
    · rename_i closing
      rw [closing] at found
      exact skimOn_closing found
    · rename_i notClosing
      cases first with
      | true =>
        have entered : skimOn true .object stack text = skimEntry .object stack text :=
          skimInside_entry found notClosing
        rw [entered]
        exact objectKey_tracks found
      | false =>
        rw [if_neg Bool.false_ne_true]
        split
        · rename_i comma
          rw [comma] at found
          have onwards : skimOn false .object stack text = skimEntry .object stack rest :=
            skimAfter_comma found
          rw [onwards]
          split
          · rename_i none
            refine fun _ => skimEntry_notKey fun _ same => ?_
            cases none.symm.trans same
          · rename_i d after next
            split
            · rename_i closing
              rw [closing] at next
              refine fun _ => skimEntry_notKey fun _ same => ?_
              cases next.symm.trans same
            · exact objectKey_tracks next
        · rename_i noComma
          exact fun _ => skimOn_unfinished found notClosing noComma

end Steps

section Loops

variable {read : List Char → Scan Value} {budget : Nat}
  (tracks : ∀ stack text, Tracks (skimAfter stack ∘ Prod.snd) (read text) (skimFrom stack text))
  (shortens : ∀ {text rest v}, read text = .ok (v, rest) → rest.length < text.length)
include tracks shortens

theorem elements_tracks (first : Bool) (before : List Value) {text : List Char}
    (enough : text.length ≤ budget) (stack : List Bracket) :
    Tracks (skimAfter stack ∘ Prod.snd) (elements read budget first before text)
      (skimOn first .list stack text) := by
  induction budget generalizing first before text with
  | zero =>
    have none : text = [] := List.eq_nil_of_length_eq_zero (Nat.le_zero.mp enough)
    rw [none]
    exact fun _ => skimOn_nil rfl
  | succ budget ih =>
    have step : Tracks _ _ (skimOn first .list stack text) := listStep_tracks
    have remains := listStep_remains first text
    unfold elements
    split
    · rename_i failed
      rwa [failed] at step
    · rename_i closed
      rwa [closed] at step
    · rename_i start found
      rw [found] at step remains
      have value := tracks (.list :: stack) start
      have same : skimOn first .list stack text = skimFrom (.list :: stack) start := step
      rw [same]
      split
      · rename_i failed
        rwa [failed] at value
      · rename_i v rest taken
        rw [taken] at value
        have shorter := shortens taken
        have inside : start.length ≤ text.length := List.IsSuffix.length_le remains
        have onwards : skimFrom (.list :: stack) start = skimOn false .list stack rest := value
        rw [onwards]
        exact ih false (v :: before) (by omega)

theorem members_tracks (first : Bool) (before : List (String × Value)) {text : List Char}
    (enough : text.length ≤ budget) (stack : List Bracket) :
    Tracks (skimAfter stack ∘ Prod.snd) (members read budget first before text)
      (skimOn first .object stack text) := by
  induction budget generalizing first before text with
  | zero =>
    have none : text = [] := List.eq_nil_of_length_eq_zero (Nat.le_zero.mp enough)
    rw [none]
    exact fun _ => skimOn_nil rfl
  | succ budget ih =>
    have step : Tracks _ _ (skimOn first .object stack text) := objectStep_tracks
    have remains := objectStep_remains first text
    unfold members
    split
    · rename_i failed
      rwa [failed] at step
    · rename_i closed
      rwa [closed] at step
    · rename_i name key found
      rw [found] at step remains
      have named := colon_remains key
      have same : skimOn first .object stack text =
          colon key >>= skimFrom (.object :: stack) := step
      rw [same]
      split
      · rename_i failed
        rw [failed]
        exact fun _ => ⟨_, rfl⟩
      · rename_i start colonRead
        rw [colonRead] at named
        rw [colonRead]
        have value : Tracks _ _ (skimFrom (.object :: stack) start) :=
          tracks (.object :: stack) start
        show Tracks _ _ (skimFrom (.object :: stack) start)
        split
        · rename_i failed
          rwa [failed] at value
        · rename_i v rest taken
          rw [taken] at value
          have shorter := shortens taken
          have inside : key.length ≤ text.length := List.IsSuffix.length_le remains
          have further : start.length ≤ key.length := List.IsSuffix.length_le named
          have onwards : skimFrom (.object :: stack) start =
              skimOn false .object stack rest := value
          rw [onwards]
          exact ih false ((name, v) :: before) (by omega)

end Loops

theorem value_opensNone {text : List Char} (scalar : OpensNone text) (levels : Nat) :
    value levels text = Json.scalar (skipBlanks text) := by
  unfold value
  split
  · rename_i found
    exact absurd found (scalar .list _)
  · rename_i found
    exact absurd found (scalar .object _)
  · rfl

/-- A value is passed over as far as it is read, and not at all if the grammar forbids it. -/
theorem value_tracks (levels : Nat) (stack : List Bracket) (text : List Char) :
    Tracks (skimAfter stack ∘ Prod.snd) (value levels text) (skimFrom stack text) := by
  induction levels generalizing stack text with
  | zero =>
    rcases opensNone_or_opens text with scalar | ⟨bracket, rest, found⟩
    · rw [value_opensNone scalar, skimFrom_scalar scalar]
      exact (scalar_tracks _).andThen
    · rw [← value_skipBlanks, found]
      cases bracket <;> intro grammar <;> cases grammar
  | succ levels ih =>
    rcases opensNone_or_opens text with scalar | ⟨bracket, rest, found⟩
    · rw [value_opensNone scalar, skimFrom_scalar scalar]
      exact (scalar_tracks _).andThen
    · rw [← value_skipBlanks, found, skimFrom_bracket found]
      cases bracket with
      | list =>
        rw [Bracket.opening, value_list]
        exact (elements_tracks ih value_shortens true [] (Nat.le_refl _) stack).map fun _ => rfl
      | object =>
        rw [Bracket.opening, value_object]
        exact (members_tracks ih value_shortens true [] (Nat.le_refl _) stack).map fun _ => rfl

theorem skim_of_value {levels : Nat} {text rest : List Char} {v : Value}
    (read : value levels text = .ok (v, rest)) : skim text = .ok rest := by
  have tracks := value_tracks levels [] text
  rw [read] at tracks
  exact tracks

theorem skim_fails {levels : Nat} {text : List Char} {failure : Failure}
    (failed : value levels text = .error failure) (grammar : failure.flaw.isLimit = false) :
    ∃ other, skim text = .error other := by
  have tracks := value_tracks levels [] text
  rw [failed] at tracks
  exact tracks grammar

/-- What is read as a document is well formed. -/
theorem wellFormed_of_document {text : List Char} {v : Value} (read : document text = .ok v) :
    WellFormed text := by
  obtain ⟨⟨_, rest⟩, found, read⟩ := bind_eq_ok_iff.mp read
  obtain ⟨_, finished, _⟩ := bind_eq_ok_iff.mp read
  exact wellFormed_iff.mpr ⟨rest, skim_of_value found, finished⟩

end Caju.Json
