import Caju.Json.Skim
import Mathlib.Data.List.TakeWhile

/-! How deeply brackets nest, in a text and in a value. A walk over the text counts
the brackets open at a time and leaves those inside strings alone; it knows nothing
of the grammar. Main statements: the text a value was read from nests exactly as
deeply as the value (`value_follows`), and a value that is only passed over leaves the
walk where it was (`skim_spans`). -/

namespace Caju

theorem map_eq_ok_iff {ε α β : Type} {f : α → β} {result : Except ε α} {b : β} :
    result.map f = .ok b ↔ ∃ a, result = .ok a ∧ f a = b := by
  cases result <;> simp [Except.map]

theorem bind_eq_ok_iff {ε α β : Type} {f : α → Except ε β} {result : Except ε α} {b : β} :
    result >>= f = .ok b ↔ ∃ a, result = .ok a ∧ f a = .ok b := by
  cases result <;> simp [bind, Except.bind]

namespace Json

/-- Where a walk over a text stands: between strings, inside one, or behind a
backslash there. -/
inductive Spot where
  | outside
  | quoted
  | escaped
  deriving DecidableEq

/-- The most brackets open at a time in a text that is entered with `opened` of them
open. -/
def deepest : Spot → Nat → List Char → Nat
  | _, opened, [] => opened
  | .escaped, opened, _ :: rest => deepest .quoted opened rest
  | .quoted, opened, c :: rest =>
    if c = '\\' then deepest .escaped opened rest
    else if c = '"' then deepest .outside opened rest
    else deepest .quoted opened rest
  | .outside, opened, c :: rest =>
    if c = '"' then deepest .quoted opened rest
    else if c = '[' ∨ c = '{' then deepest .outside (opened + 1) rest
    else if c = ']' ∨ c = '}' then max opened (deepest .outside (opened - 1) rest)
    else deepest .outside opened rest

/-- The most brackets open at a time in a text; those inside strings do not count. -/
def nesting (text : List Char) : Nat := deepest .outside 0 text

mutual

/-- The most brackets open at a time in the text of a value. -/
def Value.nesting : Value → Nat
  | .list elements => nestingElements elements + 1
  | .object members => nestingMembers members + 1
  | _ => 0

def nestingElements : List Value → Nat
  | [] => 0
  | v :: vs => max v.nesting (nestingElements vs)

def nestingMembers : List (String × Value) → Nat
  | [] => 0
  | (_, v) :: ms => max v.nesting (nestingMembers ms)

end

theorem nestingElements_cons_le {v : Value} {vs : List Value} {n : Nat} :
    nestingElements (v :: vs) ≤ n ↔ v.nesting ≤ n ∧ nestingElements vs ≤ n :=
  Nat.max_le

theorem nestingMembers_cons_le {m : String × Value} {ms : List (String × Value)} {n : Nat} :
    nestingMembers (m :: ms) ≤ n ↔ m.2.nesting ≤ n ∧ nestingMembers ms ≤ n :=
  Nat.max_le

theorem nestingElements_le_iff {vs : List Value} {n : Nat} :
    nestingElements vs ≤ n ↔ ∀ v ∈ vs, v.nesting ≤ n := by
  induction vs with
  | nil => simp [nestingElements]
  | cons v vs ih => rw [nestingElements_cons_le, ih, List.forall_mem_cons]

theorem nestingMembers_le_iff {ms : List (String × Value)} {n : Nat} :
    nestingMembers ms ≤ n ↔ ∀ m ∈ ms, m.2.nesting ≤ n := by
  induction ms with
  | nil => simp [nestingMembers]
  | cons m ms ih => rw [nestingMembers_cons_le, ih, List.forall_mem_cons]

theorem le_deepest (spot : Spot) (opened : Nat) (text : List Char) :
    opened ≤ deepest spot opened text := by
  fun_induction deepest spot opened text with
  | case1 => exact Nat.le_refl _
  | case2 _ _ _ ih => exact ih
  | case3 _ _ ih => exact ih
  | case4 _ _ _ ih => exact ih
  | case5 _ _ _ _ _ ih => exact ih
  | case6 _ _ ih => exact ih
  | case7 _ _ _ _ _ ih => omega
  | case8 => exact Nat.le_max_left _ _
  | case9 _ _ _ _ _ _ ih => exact ih

/-! ### Stretches of a text -/

/-- What stands between `text` and `rest` closes the brackets it opens, `n` of them at
a time, and ends outside strings. -/
def Spans (n : Nat) (text rest : List Char) : Prop :=
  ∀ opened, deepest .outside opened text = max (opened + n) (deepest .outside opened rest)

/-- What stands between `text` and `rest` is the inside of a bracket with its end, and
nests `n` brackets of its own. -/
def Closes (n : Nat) (text rest : List Char) : Prop :=
  ∀ opened, deepest .outside (opened + 1) text =
    max (opened + 1 + n) (deepest .outside opened rest)

theorem spans_zero_iff {text rest : List Char} :
    Spans 0 text rest ↔ ∀ opened, deepest .outside opened text = deepest .outside opened rest := by
  refine forall_congr' fun opened => ?_
  have := le_deepest .outside opened rest
  omega

theorem Spans.refl (text : List Char) : Spans 0 text text :=
  spans_zero_iff.mpr fun _ => rfl

theorem Spans.trans {n m : Nat} {text middle rest : List Char} (first : Spans n text middle)
    (second : Spans m middle rest) : Spans (max n m) text rest := by
  intro opened
  have := first opened
  have := second opened
  omega

theorem Spans.closes {n m : Nat} {text middle rest : List Char} (first : Spans n text middle)
    (second : Closes m middle rest) : Closes (max n m) text rest := by
  intro opened
  have := first (opened + 1)
  have := second opened
  omega

/-- Words and blanks open nothing, so they do not show in what follows them. -/
theorem Spans.skip {n : Nat} {text middle rest : List Char} (first : Spans 0 text middle)
    (second : Spans n middle rest) : Spans n text rest := by
  simpa using first.trans second

theorem Spans.skipTo {n : Nat} {text middle rest : List Char} (first : Spans 0 text middle)
    (second : Closes n middle rest) : Closes n text rest := by
  simpa using first.closes second

theorem Closes.bracketed {n : Nat} {c : Char} {text rest : List Char} (opening : c = '[' ∨ c = '{')
    (inside : Closes n text rest) : Spans (n + 1) (c :: text) rest := by
  intro opened
  have entered : deepest .outside opened (c :: text) = deepest .outside (opened + 1) text := by
    rcases opening with rfl | rfl <;> rfl
  have := inside opened
  omega

theorem closes_bracket {c : Char} (closing : c = ']' ∨ c = '}') (rest : List Char) :
    Closes 0 (c :: rest) rest := by
  intro opened
  rcases closing with rfl | rfl <;> rfl

/-- A character that neither opens nor closes anything. -/
def isPlain (c : Char) : Bool := c != '"' && c != '[' && c != ']' && c != '{' && c != '}'

theorem spans_cons {c : Char} (plain : isPlain c = true) (rest : List Char) :
    Spans 0 (c :: rest) rest := by
  have apart : (((c ≠ '"' ∧ c ≠ '[') ∧ c ≠ ']') ∧ c ≠ '{') ∧ c ≠ '}' := by
    simpa [isPlain] using plain
  obtain ⟨⟨⟨⟨quote, list⟩, listEnd⟩, object⟩, objectEnd⟩ := apart
  refine spans_zero_iff.mpr fun opened => ?_
  simp [deepest, quote, list, listEnd, object, objectEnd]

theorem spans_append {used : List Char} (plain : ∀ c ∈ used, isPlain c = true)
    (rest : List Char) : Spans 0 (used ++ rest) rest := by
  induction used with
  | nil => exact Spans.refl rest
  | cons c used ih =>
    exact (spans_cons (plain c List.mem_cons_self) _).skip
      (ih fun c member => plain c (List.mem_cons_of_mem _ member))

theorem spans_dropWhile {p : Char → Bool} (plain : ∀ c, p c = true → isPlain c = true)
    (text : List Char) : Spans 0 text (text.dropWhile p) := by
  have split : Spans 0 (text.takeWhile p ++ text.dropWhile p) (text.dropWhile p) :=
    spans_append (fun c member => plain c (List.mem_takeWhile_imp member)) _
  rwa [List.takeWhile_append_dropWhile] at split

/-! ### Words -/

theorem skipBlanks_spans (text : List Char) : Spans 0 text (skipBlanks text) :=
  spans_dropWhile (fun c blank => by
    have known : ((c = ' ' ∨ c = '\n') ∨ c = '\t') ∨ c = '\r' := by simpa [isBlank] using blank
    rcases known with ((rfl | rfl) | rfl) | rfl <;> rfl) text

theorem word_spans {letters text rest : List Char} (plain : letters.all isPlain = true)
    (read : word letters text = .ok rest) : Spans 0 text rest := by
  induction letters generalizing text with
  | nil =>
    cases (by simpa [word] using read : text = rest)
    exact Spans.refl rest
  | cons letter letters ih =>
    cases text with
    | nil => simp [word] at read
    | cons c text =>
      by_cases same : c = letter
      · subst same
        simp only [word, if_true] at read
        rw [List.all_cons, Bool.and_eq_true] at plain
        exact (spans_cons plain.1 text).skip (ih plain.2 read)
      · simp [word, same] at read

theorem deepest_character {c : Char} (quote : c ≠ '"') (backslash : c ≠ '\\') (opened : Nat)
    (rest : List Char) : deepest .quoted opened (c :: rest) = deepest .quoted opened rest := by
  simp [deepest, backslash, quote]

theorem deepest_hexDigit {c : Char} {digit : Nat} (known : hexDigit? c = some digit) (opened : Nat)
    (rest : List Char) : deepest .quoted opened (c :: rest) = deepest .quoted opened rest := by
  refine deepest_character ?_ ?_ opened rest
  · rintro rfl
    simp [hexDigit?] at known
  · rintro rfl
    simp [hexDigit?] at known

theorem deepest_hexEscape {a b c d : Char} {unit : Nat} (known : hexUnit? a b c d = some unit)
    (opened : Nat) (rest : List Char) :
    deepest .quoted opened ('\\' :: 'u' :: a :: b :: c :: d :: rest) =
      deepest .quoted opened rest := by
  unfold hexUnit? at known
  split at known
  · rename_i hexA hexB hexC hexD
    calc deepest .quoted opened ('\\' :: 'u' :: a :: b :: c :: d :: rest)
      _ = deepest .quoted opened (a :: b :: c :: d :: rest) := rfl
      _ = deepest .quoted opened rest := by
        rw [deepest_hexDigit hexA, deepest_hexDigit hexB, deepest_hexDigit hexC,
          deepest_hexDigit hexD]
  · cases known

/-- A backslash comes with a letter, so a character that comes alone is none. -/
theorem not_backslash {c : Char} {rest : List Char} (notLast : c = '\\' → rest = [] → False)
    (notEscape : ∀ letter after, c = '\\' → rest = letter :: after → False) : c ≠ '\\' := by
  rintro rfl
  cases rest with
  | nil => exact notLast rfl rfl
  | cons letter after => exact notEscape letter after rfl rfl

theorem stringBody_deepest {before text rest : List Char} {s : String}
    (read : stringBody before text = .ok (s, rest)) (opened : Nat) :
    deepest .quoted opened text = deepest .outside opened rest := by
  fun_induction stringBody before text
  -- the closing quote
  case case2 =>
    cases read
    rfl
  -- two escapes that stand for one character
  case case8 leading _ _ _ _ _ _ _ _ trailing _ ih =>
    calc deepest .quoted opened _
      _ = _ := deepest_hexEscape leading opened _
      _ = _ := deepest_hexEscape trailing opened _
      _ = _ := ih read
  case case13 known _ _ ih => exact (deepest_hexEscape known opened _).trans (ih read)
  -- a backslash and its letter take the walk through `escaped` and back
  case case16 ih => exact ih read
  case case19 quote _ _ notLast notEscape _ ih =>
    exact (deepest_character quote (not_backslash notLast notEscape) opened _).trans (ih read)
  -- every other string is flawed
  all_goals cases read

theorem skimString_deepest {text rest : List Char} (read : skimString text = .ok rest)
    (opened : Nat) : deepest .quoted opened text = deepest .outside opened rest := by
  fun_induction skimString text
  case case2 =>
    cases read
    rfl
  case case4 known ih => exact (deepest_hexEscape known opened _).trans (ih read)
  case case7 ih => exact ih read
  case case10 quote _ _ notLast notEscape _ ih =>
    exact (deepest_character quote (not_backslash notLast notEscape) opened _).trans (ih read)
  all_goals cases read

theorem spans_of_quoted {text rest : List Char}
    (inside : ∀ opened, deepest .quoted opened text = deepest .outside opened rest) :
    Spans 0 ('"' :: text) rest :=
  spans_zero_iff.mpr inside

theorem isPlain_of_isDigit {c : Char} (digit : isDigit c = true) : isPlain c = true := by
  have between : '0' ≤ c ∧ c ≤ '9' := by simpa [isDigit] using digit
  have apart : (((c ≠ '"' ∧ c ≠ '[') ∧ c ≠ ']') ∧ c ≠ '{') ∧ c ≠ '}' := by
    refine ⟨⟨⟨⟨?_, ?_⟩, ?_⟩, ?_⟩, ?_⟩ <;> rintro rfl <;> revert between <;> decide
  simpa [isPlain] using apart

theorem digits_span (text : List Char) : Spans 0 text (text.dropWhile isDigit) :=
  spans_dropWhile (fun _ digit => isPlain_of_isDigit digit) text

namespace Numeral

theorem scanWhole_spans {cut : Flaw} {text rest digits : List Char}
    (read : scanWhole cut text = .ok (digits, rest)) : Spans 0 text rest := by
  revert read
  fun_cases scanWhole cut text
  all_goals intro read; cases read
  case case2 => exact spans_cons rfl []
  case case4 => exact spans_cons rfl _
  case case5 digit => exact (spans_cons (isPlain_of_isDigit digit) _).skip (digits_span _)

theorem scanDigits_spans {cut : Flaw} {text rest digits : List Char}
    (read : scanDigits cut text = .ok (digits, rest)) : Spans 0 text rest := by
  unfold scanDigits at read
  split at read <;> cases read
  exact digits_span _

theorem scanFraction_spans {cut : Flaw} {text rest digits : List Char}
    (read : scanFraction cut text = .ok (digits, rest)) : Spans 0 text rest := by
  revert read
  fun_cases scanFraction cut text
  case case1 => exact fun read => (spans_cons rfl _).skip (scanDigits_spans read)
  case case2 =>
    intro read
    cases read
    exact Spans.refl text

theorem scanExponent_spans {cut : Flaw} {text rest : List Char}
    {exponent : Option (Bool × List Char)}
    (read : scanExponent cut text = .ok (exponent, rest)) : Spans 0 text rest := by
  revert read
  fun_cases scanExponent cut text
  all_goals intro read; cases read
  case case2 mark _ _ signed _ scanned =>
    refine Spans.skip (spans_cons ?_ _) ?_
    · rcases mark with rfl | rfl <;> rfl
    · split at signed <;> cases signed
      · exact (spans_cons rfl _).skip (scanDigits_spans scanned)
      · exact (spans_cons rfl _).skip (scanDigits_spans scanned)
      · exact scanDigits_spans scanned
  case case3 => exact Spans.refl _
  case case4 => exact Spans.refl _

theorem scan_spans {cut : Flaw} {text rest : List Char} {numeral : Numeral}
    (read : scan cut text = .ok (numeral, rest)) : Spans 0 text rest := by
  unfold scan at read
  obtain ⟨whole, scannedWhole, read⟩ := bind_eq_ok_iff.mp read
  obtain ⟨fraction, scannedFraction, read⟩ := bind_eq_ok_iff.mp read
  obtain ⟨exponent, scannedExponent, read⟩ := bind_eq_ok_iff.mp read
  cases read
  have digits := (scanWhole_spans scannedWhole).skip
    ((scanFraction_spans scannedFraction).skip (scanExponent_spans scannedExponent))
  split at digits
  · exact (spans_cons rfl _).skip digits
  · exact digits

theorem value_nesting {numeral : Numeral} {rest : List Char} {v : Value}
    (known : numeral.value rest = .ok v) : v.nesting = 0 := by
  revert known
  fun_cases value numeral rest
  all_goals
    intro known
    cases known
  all_goals rfl

end Numeral

theorem number_spans {text rest : List Char} {v : Value} (read : number text = .ok (v, rest)) :
    v.nesting = 0 ∧ Spans 0 text rest := by
  unfold number at read
  obtain ⟨⟨numeral, after⟩, scanned, read⟩ := bind_eq_ok_iff.mp read
  obtain ⟨_, known, read⟩ := bind_eq_ok_iff.mp read
  cases read
  exact ⟨Numeral.value_nesting known, Numeral.scan_spans scanned⟩

/-! ### Lists and objects -/

/-- What one step through a list takes: its end, or the comma in front of an element. -/
theorem listStep_cases {first : Bool} {text : List Char} {step : ListStep}
    (taken : listStep first text = .ok step) :
    (∃ rest, skipBlanks text = ']' :: rest ∧ step = .closed rest) ∨
    step = .element (skipBlanks text) ∨
    ∃ rest, skipBlanks text = ',' :: rest ∧ step = .element (skipBlanks rest) := by
  revert taken
  fun_cases listStep first text
  all_goals intro taken; cases taken
  case case2 rest found => exact .inl ⟨rest, found, rfl⟩
  case case3 found _ _ => exact .inr (.inl (by rw [found]))
  case case6 _ _ _ after _ found _ => exact .inr (.inr ⟨_, found, by rw [after]⟩)

theorem listStep_spans {first : Bool} {text start : List Char}
    (step : listStep first text = .ok (.element start)) : Spans 0 text start := by
  have blanks := skipBlanks_spans text
  obtain ⟨rest, found, taken⟩ | taken | ⟨rest, found, taken⟩ := listStep_cases step
  · cases taken
  · cases taken
    exact blanks
  · cases taken
    rw [found] at blanks
    exact blanks.skip ((spans_cons rfl rest).skip (skipBlanks_spans rest))

theorem listStep_closes {first : Bool} {text rest : List Char}
    (step : listStep first text = .ok (.closed rest)) : Closes 0 text rest := by
  obtain ⟨rest', found, taken⟩ | taken | ⟨rest', found, taken⟩ := listStep_cases step
  · cases taken
    exact (found ▸ skipBlanks_spans text).skipTo (closes_bracket (.inl rfl) rest)
  · cases taken
  · cases taken

theorem objectKey_cases {text : List Char} {step : ObjectStep}
    (taken : objectKey text = .ok step) :
    ∃ name rest after, text = '"' :: after ∧ stringBody [] after = .ok (name, rest) ∧
      step = .key name rest := by
  unfold objectKey at taken
  split at taken
  · rename_i after
    obtain ⟨⟨name, rest⟩, read, taken⟩ := bind_eq_ok_iff.mp taken
    cases taken
    exact ⟨name, rest, after, rfl, read, rfl⟩
  · cases taken

/-- What one step through an object takes: its end, or the comma in front of a key. -/
theorem objectStep_cases {first : Bool} {text : List Char} {step : ObjectStep}
    (taken : objectStep first text = .ok step) :
    (∃ rest, skipBlanks text = '}' :: rest ∧ step = .closed rest) ∨
    objectKey (skipBlanks text) = .ok step ∨
    ∃ rest, skipBlanks text = ',' :: rest ∧ objectKey (skipBlanks rest) = .ok step := by
  revert taken
  fun_cases objectStep first text
  all_goals intro taken
  case case2 rest found =>
    cases taken
    exact .inl ⟨rest, found, rfl⟩
  case case3 found _ _ => exact .inr (.inl (by rw [found]; exact taken))
  case case6 _ _ _ after _ found _ => exact .inr (.inr ⟨_, found, by rw [after]; exact taken⟩)
  all_goals cases taken

theorem objectKey_spans {text rest : List Char} {name : String}
    (step : objectKey text = .ok (.key name rest)) : Spans 0 text rest := by
  obtain ⟨_, _, after, rfl, read, taken⟩ := objectKey_cases step
  cases taken
  exact spans_of_quoted (stringBody_deepest read)

theorem objectStep_spans {first : Bool} {text rest : List Char} {name : String}
    (step : objectStep first text = .ok (.key name rest)) : Spans 0 text rest := by
  have blanks := skipBlanks_spans text
  obtain ⟨rest', found, taken⟩ | key | ⟨rest', found, key⟩ := objectStep_cases step
  · cases taken
  · exact blanks.skip (objectKey_spans key)
  · rw [found] at blanks
    exact blanks.skip ((spans_cons rfl rest').skip
      ((skipBlanks_spans rest').skip (objectKey_spans key)))

theorem objectStep_closes {first : Bool} {text rest : List Char}
    (step : objectStep first text = .ok (.closed rest)) : Closes 0 text rest := by
  obtain ⟨rest', found, taken⟩ | key | ⟨rest', found, key⟩ := objectStep_cases step
  · cases taken
    exact (found ▸ skipBlanks_spans text).skipTo (closes_bracket (.inr rfl) rest)
  · obtain ⟨_, _, _, _, _, taken⟩ := objectKey_cases key
    cases taken
  · obtain ⟨_, _, _, _, _, taken⟩ := objectKey_cases key
    cases taken

theorem colon_spans {text rest : List Char} (read : colon text = .ok rest) : Spans 0 text rest := by
  revert read
  fun_cases colon text
  all_goals intro read; cases read
  case case2 found =>
    exact (found ▸ skipBlanks_spans text).skip (spans_cons rfl rest)

/-- A reader whose values nest as deeply as the text they were read from, and no deeper
than `levels` brackets. -/
def Follows (read : List Char → Scan Value) (levels : Nat) : Prop :=
  ∀ {text rest : List Char} {v : Value}, read text = .ok (v, rest) →
    v.nesting ≤ levels ∧ Spans v.nesting text rest

theorem elements_closes {read : List Char → Scan Value} {levels : Nat}
    (follows : Follows read levels) :
    ∀ {budget : Nat} {first : Bool} {before vs : List Value} {text rest : List Char},
      elements read budget first before text = .ok (vs, rest) →
      ∃ more, vs = before.reverse ++ more ∧ nestingElements more ≤ levels ∧
        Closes (nestingElements more) text rest
  | 0, _, _, _, _, _, h => by cases h
  | budget + 1, first, before, vs, text, rest, h => by
    unfold elements at h
    split at h
    · cases h
    · rename_i after step
      cases h
      exact ⟨[], by simp, Nat.zero_le _, listStep_closes step⟩
    · rename_i start step
      split at h
      · cases h
      · rename_i v after found
        obtain ⟨more, rfl, bounded, closes⟩ := elements_closes follows h
        obtain ⟨shallow, spans⟩ := follows found
        refine ⟨v :: more, by simp, Nat.max_le.mpr ⟨shallow, bounded⟩, ?_⟩
        exact ((listStep_spans step).skip spans).closes closes

theorem members_closes {read : List Char → Scan Value} {levels : Nat}
    (follows : Follows read levels) :
    ∀ {budget : Nat} {first : Bool} {before ms : List (String × Value)} {text rest : List Char},
      members read budget first before text = .ok (ms, rest) →
      ∃ more, ms = before.reverse ++ more ∧ nestingMembers more ≤ levels ∧
        Closes (nestingMembers more) text rest
  | 0, _, _, _, _, _, h => by cases h
  | budget + 1, first, before, ms, text, rest, h => by
    unfold members at h
    split at h
    · cases h
    · rename_i after step
      cases h
      exact ⟨[], by simp, Nat.zero_le _, objectStep_closes step⟩
    · rename_i name key step
      split at h
      · cases h
      · rename_i start colonRead
        split at h
        · cases h
        · rename_i v after found
          obtain ⟨more, rfl, bounded, closes⟩ := members_closes follows h
          obtain ⟨shallow, spans⟩ := follows found
          refine ⟨(name, v) :: more, by simp, Nat.max_le.mpr ⟨shallow, bounded⟩, ?_⟩
          exact ((objectStep_spans step).skip ((colon_spans colonRead).skip spans)).closes closes

theorem scalar_spans {text rest : List Char} {v : Value} (read : scalar text = .ok (v, rest)) :
    v.nesting = 0 ∧ Spans 0 text rest := by
  have literal {c : Char} {letters after : List Char} {w : Value} (flat : w.nesting = 0)
      (plain : letters.all isPlain = true) (plainFirst : isPlain c = true)
      (read : (word letters after).map (w, ·) = .ok (v, rest)) :
      v.nesting = 0 ∧ Spans 0 (c :: after) rest := by
    obtain ⟨_, found, same⟩ := map_eq_ok_iff.mp read
    cases same
    exact ⟨flat, (spans_cons plainFirst after).skip (word_spans plain found)⟩
  revert read
  fun_cases scalar text
  all_goals intro read
  case case2 => exact literal rfl rfl rfl read
  case case3 => exact literal rfl rfl rfl read
  case case4 => exact literal rfl rfl rfl read
  case case5 =>
    obtain ⟨⟨s, after⟩, found, same⟩ := map_eq_ok_iff.mp read
    cases same
    exact ⟨rfl, spans_of_quoted (stringBody_deepest found)⟩
  case case6 => exact number_spans read
  all_goals cases read

theorem value_follows (levels : Nat) : Follows (value levels) levels := by
  induction levels with
  | zero =>
    intro text rest v read
    unfold value at read
    split at read
    · cases read
    · cases read
    · obtain ⟨flat, spans⟩ := scalar_spans read
      rw [flat]
      exact ⟨Nat.le_refl 0, (skipBlanks_spans text).skip spans⟩
  | succ levels ih =>
    intro text rest v read
    have blanks := skipBlanks_spans text
    unfold value at read
    split at read
    · rename_i inside found
      obtain ⟨⟨vs, after⟩, listed, same⟩ := map_eq_ok_iff.mp read
      cases same
      obtain ⟨_, rfl, bounded, closes⟩ := elements_closes ih listed
      rw [found] at blanks
      exact ⟨Nat.succ_le_succ bounded, blanks.skip (closes.bracketed (.inl rfl))⟩
    · rename_i inside found
      obtain ⟨⟨ms, after⟩, listed, same⟩ := map_eq_ok_iff.mp read
      cases same
      obtain ⟨_, rfl, bounded, closes⟩ := members_closes ih listed
      rw [found] at blanks
      exact ⟨Nat.succ_le_succ bounded, blanks.skip (closes.bracketed (.inr rfl))⟩
    · obtain ⟨flat, spans⟩ := scalar_spans read
      rw [flat]
      exact ⟨Nat.zero_le _, blanks.skip spans⟩

/-! ### Passing over a value -/

theorem skimScalar_spans {text rest : List Char} (read : skimScalar text = .ok rest) :
    Spans 0 text rest := by
  revert read
  fun_cases skimScalar text
  all_goals intro read
  case case2 => exact (spans_cons rfl _).skip (word_spans rfl read)
  case case3 => exact (spans_cons rfl _).skip (word_spans rfl read)
  case case4 => exact (spans_cons rfl _).skip (word_spans rfl read)
  case case5 => exact spans_of_quoted (skimString_deepest read)
  case case6 =>
    obtain ⟨⟨numeral, after⟩, scanned, same⟩ := map_eq_ok_iff.mp read
    cases same
    exact Numeral.scan_spans scanned
  all_goals cases read

theorem skimKey_spans {text rest : List Char} (read : skimKey text = .ok rest) :
    Spans 0 text rest := by
  have blanks := skipBlanks_spans text
  unfold skimKey at read
  split at read
  · cases read
  · rename_i found
    rw [found] at blanks
    split at read
    · rename_i quote
      subst quote
      obtain ⟨after, skimmed, read⟩ := bind_eq_ok_iff.mp read
      exact blanks.skip ((spans_of_quoted (skimString_deepest skimmed)).skip (colon_spans read))
    · cases read

theorem Bracket.lead_spans {bracket : Bracket} {text rest : List Char}
    (read : bracket.lead text = .ok rest) : Spans 0 text rest := by
  cases bracket with
  | list =>
    cases read
    exact Spans.refl _
  | object => exact skimKey_spans read

theorem Bracket.closing_closes (bracket : Bracket) (rest : List Char) :
    Closes 0 (bracket.closing :: rest) rest := by
  cases bracket with
  | list => exact closes_bracket (.inl rfl) rest
  | object => exact closes_bracket (.inr rfl) rest

/-- What stands between `text` and `rest` takes a walk from `i` open brackets to `j`. -/
def Moves (i j : Nat) (text rest : List Char) : Prop :=
  ∃ n, ∀ opened, deepest .outside (opened + i) text =
    max (opened + n) (deepest .outside (opened + j) rest)

theorem Moves.trans {i j k : Nat} {text middle rest : List Char} (first : Moves i j text middle)
    (second : Moves j k middle rest) : Moves i k text rest := by
  obtain ⟨n, walk⟩ := first
  obtain ⟨m, onwards⟩ := second
  refine ⟨max n m, fun opened => ?_⟩
  have := walk opened
  have := onwards opened
  omega

theorem Spans.moves {n : Nat} {text rest : List Char} (spans : Spans n text rest) (i : Nat) :
    Moves i i text rest := by
  refine ⟨i + n, fun opened => ?_⟩
  have := spans (opened + i)
  omega

theorem Closes.moves {n : Nat} {text rest : List Char} (closes : Closes n text rest) (i : Nat) :
    Moves (i + 1) i text rest := by
  refine ⟨i + 1 + n, fun opened => ?_⟩
  have := closes (opened + i)
  rw [← Nat.add_assoc]
  omega

theorem moves_bracket {c : Char} (opening : c = '[' ∨ c = '{') (i : Nat) (rest : List Char) :
    Moves i (i + 1) (c :: rest) rest := by
  refine ⟨0, fun opened => ?_⟩
  have entered : deepest .outside (opened + i) (c :: rest) =
      deepest .outside (opened + (i + 1)) rest := by
    rcases opening with rfl | rfl <;> rfl
  have := le_deepest .outside (opened + (i + 1)) rest
  omega

/-- Where a step of the skimmer comes to, in a walk over the text. -/
def SkimStep.IsReached (step : SkimStep) (i : Nat) (text : List Char) : Prop :=
  match step with
  | .closed rest => Moves i 0 text rest
  | .value stack start => Moves i stack.length text start

theorem Moves.reaches {i j : Nat} {text middle : List Char} {step : SkimStep}
    (first : Moves i j text middle) (reached : step.IsReached j middle) : step.IsReached i text := by
  cases step with
  | closed rest => exact first.trans reached
  | value stack start => exact first.trans reached

theorem lead_reached {bracket : Bracket} {stack : List Bracket} {text : List Char}
    {step : SkimStep} (taken : (bracket.lead text).map (.value (bracket :: stack)) = .ok step) :
    step.IsReached (stack.length + 1) text := by
  obtain ⟨start, read, same⟩ := map_eq_ok_iff.mp taken
  cases same
  exact (Bracket.lead_spans read).moves _

theorem closeBrackets_reached {stack : List Bracket} {text : List Char} {step : SkimStep}
    (taken : closeBrackets stack text = .ok step) : step.IsReached stack.length text := by
  induction stack generalizing text with
  | nil =>
    cases taken
    exact (Spans.refl text).moves 0
  | cons bracket stack ih =>
    refine ((skipBlanks_spans text).moves _).reaches ?_
    unfold closeBrackets at taken
    split at taken
    · cases taken
    · rename_i c rest found
      rw [found]
      split at taken
      · rename_i closing
        rw [closing]
        exact ((bracket.closing_closes rest).moves _).reaches (ih taken)
      · split at taken
        · rename_i comma
          rw [comma]
          exact ((spans_cons rfl rest).moves _).reaches (lead_reached taken)
        · cases taken

theorem openBracket_reached {bracket : Bracket} {stack : List Bracket} {text : List Char}
    {step : SkimStep} (taken : openBracket bracket stack text = .ok step) :
    step.IsReached (stack.length + 1) text := by
  refine ((skipBlanks_spans text).moves _).reaches ?_
  unfold openBracket at taken
  split at taken
  · cases taken
  · rename_i c rest found
    rw [found]
    split at taken
    · rename_i closing
      rw [closing]
      exact ((bracket.closing_closes rest).moves _).reaches (closeBrackets_reached taken)
    · exact lead_reached taken

theorem skimStep_reached {stack : List Bracket} {text : List Char} {step : SkimStep}
    (taken : skimStep stack text = .ok step) : step.IsReached stack.length text := by
  refine ((skipBlanks_spans text).moves _).reaches ?_
  unfold skimStep at taken
  split at taken
  · rename_i rest found
    rw [found]
    exact (moves_bracket (.inl rfl) _ rest).reaches (openBracket_reached taken)
  · rename_i rest found
    rw [found]
    exact (moves_bracket (.inr rfl) _ rest).reaches (openBracket_reached taken)
  · obtain ⟨rest, skimmed, taken⟩ := bind_eq_ok_iff.mp taken
    exact ((skimScalar_spans skimmed).moves _).reaches (closeBrackets_reached taken)

theorem skimLoop_moves {budget : Nat} {stack : List Bracket} {text rest : List Char}
    (read : skimLoop budget stack text = .ok rest) : Moves stack.length 0 text rest := by
  -- the stack is the number of brackets the walk has open, so each step moves between two stacks
  induction budget generalizing stack text with
  | zero => cases read
  | succ budget ih =>
    unfold skimLoop at read
    split at read
    · cases read
    · rename_i after step
      cases read
      exact skimStep_reached step
    · rename_i stack' start step
      exact Moves.trans (skimStep_reached step) (ih read)

theorem skim_spans {text rest : List Char} (read : skim text = .ok rest) :
    ∃ n, Spans n text rest :=
  skimLoop_moves read

end Json

end Caju
