import Caju.Json.Writer
import Caju.Proofs.DecimalText
import Caju.Proofs.JsonNesting

/-! Values are read back from their compact text. Of the numbers only those that are
held exactly are written here. Main statement: reading the text of a value gives the
value and what followed it if the value nests no deeper than the reader may go, and
otherwise fails for that reason and no other (`value_write`). -/

namespace Caju

/-- An answer that is `found` if a condition holds, and otherwise an error of a kind. -/
def Answers {ε α : Type} (refusal : ε → Prop) (fits : Prop) (found : α) (answer : Except ε α) :
    Prop :=
  (fits ∧ answer = .ok found) ∨ (¬fits ∧ ∃ e, refusal e ∧ answer = .error e)

theorem Answers.of_iff {ε α : Type} {refusal : ε → Prop} {fits fits' : Prop} {found : α}
    {answer : Except ε α} (same : fits ↔ fits') (answers : Answers refusal fits found answer) :
    Answers refusal fits' found answer := by
  rwa [← propext same]

theorem Answers.map {ε α β : Type} {refusal : ε → Prop} {fits : Prop} {found : α}
    {answer : Except ε α} (answers : Answers refusal fits found answer) (f : α → β) :
    Answers refusal fits (f found) (answer.map f) := by
  rcases answers with ⟨holds, rfl⟩ | ⟨fails, e, kind, rfl⟩
  · exact .inl ⟨holds, rfl⟩
  · exact .inr ⟨fails, e, kind, rfl⟩

/-- One answer built on another: what the second finds, if the first finds what it goes
on from. -/
theorem Answers.andThen {ε ε' α β : Type} {refusal : ε → Prop} {refusal' : ε' → Prop}
    {fits fits' : Prop} {found : α} {found' : β} {answer : Except ε α} {onwards whole : Except ε' β}
    (first : Answers refusal fits found answer) (second : Answers refusal' fits' found' onwards)
    (goesOn : answer = .ok found → whole = onwards)
    (stops : ∀ e, refusal e → answer = .error e → ∃ e', refusal' e' ∧ whole = .error e') :
    Answers refusal' (fits ∧ fits') found' whole := by
  rcases first with ⟨holds, taken⟩ | ⟨fails, e, refused, failed⟩
  · rw [goesOn taken]
    exact second.of_iff (and_iff_right holds).symm
  · exact .inr ⟨fun both => fails both.1, stops e refused failed⟩

namespace Json

theorem skipBlanks_cons {c : Char} (visible : isBlank c = false) (rest : List Char) :
    skipBlanks (c :: rest) = c :: rest := by
  simp [skipBlanks, visible]

/-! ### Strings -/

theorem hexUnit?_hexDigit :
    ∀ n < 32, hexUnit? '0' '0' (hexDigit (n / 16)) (hexDigit (n % 16)) = some n := by
  decide

theorem stringBody_control {c : Char} (control : c < ' ') (before rest : List Char) :
    stringBody before ('\\' :: 'u' :: '0' :: '0' :: hexDigit (c.toNat / 16) ::
      hexDigit (c.toNat % 16) :: rest) = stringBody (c :: before) rest := by
  have small : c.toNat < 32 := control
  have unit := hexUnit?_hexDigit c.toNat small
  have noTrailing : isTrailingSurrogate c.toNat = false := by simp [isTrailingSurrogate]; omega
  have noLeading : isLeadingSurrogate c.toNat = false := by simp [isLeadingSurrogate]; omega
  rw [stringBody]
  simp only [unit, noTrailing, noLeading, Char.ofNat_toNat]
  rfl

theorem stringBody_character {c : Char} (quote : c ≠ '"') (backslash : c ≠ '\\')
    (printable : ¬c < ' ') (before rest : List Char) :
    stringBody before (c :: rest) = stringBody (c :: before) rest := by
  rw [stringBody]
  · rw [if_neg printable]
  · exact quote
  · exact fun _ _ _ _ _ same _ => backslash same
  · exact fun _ same _ => backslash same
  · exact fun same _ => backslash same
  · exact fun _ _ same _ => backslash same

/-- Each character of a string is read back from what is written for it. -/
theorem stringBody_writeChar (before : List Char) (c : Char) (rest : List Char) :
    stringBody before (writeChar c rest) = stringBody (c :: before) rest := by
  fun_cases writeChar c rest
  case case8 control => exact stringBody_control control before rest
  case case9 quote backslash _ _ _ _ _ printable =>
    exact stringBody_character quote backslash printable before rest
  all_goals rfl

theorem stringBody_write (chars before rest : List Char) :
    stringBody before (writeStringBody chars rest) =
      .ok (String.ofList (before.reverse ++ chars), rest) := by
  induction chars generalizing before with
  | nil => simp [writeStringBody, stringBody]
  | cons c chars ih => rw [writeStringBody, stringBody_writeChar, ih]; simp

/-! ### Numbers -/

/-- Whether what follows a value can be told apart from it: a comma, a closing bracket
or the end of the text. -/
def Delimited (rest : List Char) : Prop := ∀ c ∈ rest.head?, c = ',' ∨ c = ']' ∨ c = '}'

namespace Numeral

theorem le_ofDigitChars (digits : List Char) (total : Nat) :
    total ≤ Nat.ofDigitChars 10 digits total := by
  induction digits generalizing total with
  | nil => exact Nat.le_refl total
  | cons c digits ih =>
    rw [Nat.ofDigitChars_cons]
    have := ih (10 * total + (c.toNat - '0'.toNat))
    omega

theorem accumulate_eq {limit total : Nat} {digits : List Char}
    (fits : Nat.ofDigitChars 10 digits total ≤ limit) :
    accumulate limit total digits = (Nat.ofDigitChars 10 digits total, []) := by
  induction digits generalizing total with
  | nil => rfl
  | cons c digits ih =>
    have next : total * 10 + digitValue c = 10 * total + (c.toNat - '0'.toNat) := by
      rw [digitValue, Nat.mul_comm]
    rw [Nat.ofDigitChars_cons] at fits ⊢
    have below := le_ofDigitChars digits (10 * total + (c.toNat - '0'.toNat))
    rw [accumulate, next, if_neg (by omega)]
    exact ih fits

theorem isDigit_of_mem_toDigits {n : Nat} {c : Char} (member : c ∈ Nat.toDigits 10 n) :
    isDigit c = true :=
  Nat.isDigit_of_mem_toDigits (by decide) (by decide) member

theorem not_digit_of_delimited {c : Char} {rest : List Char} (delimited : Delimited (c :: rest)) :
    isDigit c = false := by
  rcases delimited c rfl with rfl | rfl | rfl <;> rfl

theorem takeWhile_isDigit {rest : List Char} (delimited : Delimited rest) :
    rest.takeWhile isDigit = [] ∧ rest.dropWhile isDigit = rest := by
  cases rest with
  | nil => exact ⟨rfl, rfl⟩
  | cons c rest => simp [not_digit_of_delimited delimited]

theorem scanWhole_toDigits (cut : Flaw) (n : Nat) {rest : List Char} (delimited : Delimited rest) :
    scanWhole cut (Nat.toDigits 10 n ++ rest) = .ok (Nat.toDigits 10 n, rest) := by
  rcases Nat.eq_zero_or_pos n with rfl | positive
  · cases rest with
    | nil => rfl
    | cons c rest => simp [scanWhole, not_digit_of_delimited delimited]
  · obtain ⟨c, digits, spelled⟩ := List.exists_cons_of_ne_nil (Nat.toDigits_ne_nil (n := n) (b := 10))
    have notZero : c ≠ '0' := by
      rintro rfl
      exact head?_toDigits positive (by rw [spelled]; rfl)
    have digit : ∀ d ∈ c :: digits, isDigit d = true := fun d member =>
      isDigit_of_mem_toDigits (spelled ▸ member)
    have others : ∀ d ∈ digits, isDigit d = true := fun d member =>
      digit d (List.mem_cons_of_mem _ member)
    rw [spelled, List.cons_append, scanWhole]
    · rw [if_pos (digit c List.mem_cons_self), List.takeWhile_append_of_pos others,
        List.dropWhile_append_of_pos others, (takeWhile_isDigit delimited).1,
        (takeWhile_isDigit delimited).2, List.append_nil]
    · exact notZero

theorem scanFraction_delimited (cut : Flaw) {rest : List Char} (delimited : Delimited rest) :
    scanFraction cut rest = .ok ([], rest) := by
  rw [scanFraction]
  rintro after rfl
  rcases delimited '.' rfl with same | same | same <;> cases same

theorem scanExponent_delimited (cut : Flaw) {rest : List Char} (delimited : Delimited rest) :
    scanExponent cut rest = .ok (none, rest) := by
  cases rest with
  | nil => rfl
  | cons c rest =>
    have unmarked : ¬(c = 'e' ∨ c = 'E') := by
      rcases delimited c rfl with rfl | rfl | rfl <;> decide
    unfold scanExponent
    exact if_neg unmarked

/-- How a whole number is scanned: there is no point, no exponent, and no sign but a
minus. -/
theorem scan_toDigits (cut : Flaw) (n : Nat) {rest : List Char} (delimited : Delimited rest) :
    scan cut (Nat.toDigits 10 n ++ rest) = .ok (⟨false, Nat.toDigits 10 n, [], none⟩, rest) ∧
    scan cut ('-' :: (Nat.toDigits 10 n ++ rest)) =
      .ok (⟨true, Nat.toDigits 10 n, [], none⟩, rest) := by
  have digits := scanWhole_toDigits cut n delimited
  have fraction := scanFraction_delimited cut delimited
  have exponent := scanExponent_delimited cut delimited
  constructor
  · have unsigned : ∀ after, Nat.toDigits 10 n ++ rest ≠ '-' :: after := by
      intro after same
      obtain ⟨c, digits, spelled⟩ := List.exists_cons_of_ne_nil (Nat.toDigits_ne_nil (n := n) (b := 10))
      have digit : isDigit c = true := isDigit_of_mem_toDigits (spelled ▸ List.mem_cons_self)
      rw [spelled] at same
      cases same
      cases digit
    unfold scan
    split
    rename_i sign
    split at sign
    · rename_i after same
      exact absurd same (unsigned after)
    · cases sign
      simp only [digits, fraction, exponent, bind, Except.bind, pure, Except.pure]
  · simp only [scan, digits, fraction, exponent, bind, Except.bind, pure, Except.pure]

theorem value_toDigits {n : Nat} (fits : n ≤ maxWord) (rest : List Char) :
    value ⟨false, Nat.toDigits 10 n, [], none⟩ rest = .ok (.integer n) := by
  have total : accumulate maxWord 0 (Nat.toDigits 10 n) = (n, []) := by
    rw [accumulate_eq] <;> rw [Nat.ofDigitChars_ten_toDigits]
    exact fits
  simp [value, total, accumulate]

theorem value_minus_toDigits {n : Nat} (positive : 0 < n) (fits : n ≤ maxNegative)
    (rest : List Char) :
    value ⟨true, Nat.toDigits 10 n, [], none⟩ rest = .ok (.integer (-n)) := by
  have total : accumulate maxWord 0 (Nat.toDigits 10 n) = (n, []) := by
    rw [accumulate_eq] <;> rw [Nat.ofDigitChars_ten_toDigits]
    exact Nat.le_trans fits (by decide)
  have nonzero : n ≠ 0 := by omega
  simp [value, total, accumulate, nonzero, fits]

end Numeral

theorem number_toString {n : Int} (low : -Numeral.maxNegative ≤ n) (high : n ≤ Numeral.maxWord)
    {rest : List Char} (delimited : Delimited rest) :
    number ((toString n).toList ++ rest) = .ok (.integer n, rest) := by
  cases n with
  | ofNat n =>
    have spelled : (toString (Int.ofNat n)).toList = Nat.toDigits 10 n := toList_toString n
    have fits : n ≤ Numeral.maxWord := by simpa using high
    have scanned := (Numeral.scan_toDigits .endOfValue n delimited).1
    rw [spelled, number, scanned]
    exact congrArg (Except.map (·, rest)) (Numeral.value_toDigits fits rest)
  | negSucc n =>
    have spelled : (toString (Int.negSucc n)).toList = '-' :: Nat.toDigits 10 (n + 1) := by
      rw [← toList_toString]
      exact String.toList_append
    have fits : n + 1 ≤ Numeral.maxNegative := by omega
    have scanned := (Numeral.scan_toDigits .endOfValue (n + 1) delimited).2
    rw [spelled, List.cons_append, number, scanned]
    exact congrArg (Except.map (·, rest)) (Numeral.value_minus_toDigits (Nat.succ_pos n) fits rest)

/-- The characters that a number is written with in front. -/
def BeginsNumber (c : Char) : Prop := c = '-' ∨ isDigit c = true

theorem begins_toString (n : Int) :
    ∃ c digits, (toString n).toList = c :: digits ∧ BeginsNumber c := by
  cases n with
  | ofNat n =>
    obtain ⟨c, digits, spelled⟩ := List.exists_cons_of_ne_nil (toString_ne_nil n)
    exact ⟨c, digits, spelled, .inr (isDigit_of_mem_toString n c (spelled ▸ List.mem_cons_self))⟩
  | negSucc n => exact ⟨'-', (toString (n + 1)).toList, String.toList_append, .inl rfl⟩

theorem BeginsNumber.ne {c d : Char} (first : BeginsNumber c) (minus : d ≠ '-')
    (digit : isDigit d = false) : c ≠ d := by
  rintro rfl
  rcases first with same | known
  · exact minus same
  · rw [digit] at known
    cases known

theorem BeginsNumber.not_blank {c : Char} (first : BeginsNumber c) : isBlank c = false := by
  have space : c ≠ ' ' := first.ne (by decide) rfl
  have newline : c ≠ '\n' := first.ne (by decide) rfl
  have tab : c ≠ '\t' := first.ne (by decide) rfl
  have carriage : c ≠ '\r' := first.ne (by decide) rfl
  simp [isBlank, space, newline, tab, carriage]

/-! ### Values -/

/-- The values that are held exactly: whole numbers within a word, and no others. -/
inductive Value.Exact : Value → Prop
  | null : Exact .null
  | boolean (b : Bool) : Exact (.boolean b)
  | integer {n : Int} (low : -Numeral.maxNegative ≤ n) (high : n ≤ Numeral.maxWord) :
    Exact (.integer n)
  | string (s : String) : Exact (.string s)
  | list {vs : List Value} (each : ∀ v ∈ vs, Exact v) : Exact (.list vs)
  | object {ms : List (String × Value)} (each : ∀ m ∈ ms, Exact m.2) : Exact (.object ms)

/-- A text that begins a value, with at least `length` characters behind the first. -/
def Begins (length : Nat) (text : List Char) : Prop :=
  ∃ c after, text = c :: after ∧ isBlank c = false ∧ c ≠ ']' ∧ length ≤ after.length

theorem Begins.length_le {length : Nat} {text : List Char} (begins : Begins length text) :
    length < text.length := by
  obtain ⟨c, after, rfl, _, _, enough⟩ := begins
  exact Nat.lt_succ_of_le enough

theorem length_writeStringBody (chars rest : List Char) :
    rest.length ≤ (writeStringBody chars rest).length := by
  induction chars with
  | nil => exact Nat.le_succ _
  | cons c chars ih =>
    have longer : (writeStringBody chars rest).length ≤
        (writeChar c (writeStringBody chars rest)).length := by
      fun_cases writeChar c (writeStringBody chars rest) <;> simp only [List.length_cons] <;> omega
    exact Nat.le_trans ih longer

theorem begins_writeString (s : String) (rest : List Char) :
    Begins rest.length (writeString s rest) :=
  ⟨'"', writeStringBody s.toList rest, rfl, rfl, by decide, length_writeStringBody _ _⟩

theorem length_writeElements {vs : List Value}
    (begin : ∀ v ∈ vs, ∀ rest, Begins rest.length (v.write rest)) (rest : List Char) :
    vs.length + rest.length ≤ (writeElements vs rest).length := by
  induction vs with
  | nil => simp [writeElements]
  | cons v vs ih =>
    have more := ih fun w member => begin w (List.mem_cons_of_mem _ member)
    have longer := (begin v List.mem_cons_self (writeElements vs rest)).length_le
    simp only [writeElements, List.length_cons]
    omega

theorem length_writeMembers {ms : List (String × Value)}
    (begin : ∀ m ∈ ms, ∀ rest, Begins rest.length (m.2.write rest)) (rest : List Char) :
    ms.length + rest.length ≤ (writeMembers ms rest).length := by
  induction ms with
  | nil => simp [writeMembers]
  | cons m ms ih =>
    obtain ⟨name, v⟩ := m
    have more := ih fun w member => begin w (List.mem_cons_of_mem _ member)
    have longer := (begin (name, v) List.mem_cons_self (writeMembers ms rest)).length_le
    have key := (begins_writeString name (':' :: v.write (writeMembers ms rest))).length_le
    simp only [writeMembers, List.length_cons] at *
    omega

theorem Value.Exact.begins {v : Value} (held : v.Exact) (rest : List Char) :
    Begins rest.length (v.write rest) := by
  induction held generalizing rest with
  | null => exact ⟨'n', _, rfl, rfl, by decide, Nat.le_add_right _ 3⟩
  | boolean b =>
    cases b with
    | false => exact ⟨'f', _, rfl, rfl, by decide, Nat.le_add_right _ 4⟩
    | true => exact ⟨'t', _, rfl, rfl, by decide, Nat.le_add_right _ 3⟩
  | @integer n low high =>
    obtain ⟨c, digits, spelled, first⟩ := begins_toString n
    exact ⟨c, digits ++ rest, congrArg (· ++ rest) spelled, first.not_blank,
      first.ne (by decide) rfl, by simp⟩
  | string s => exact begins_writeString s rest
  | @list vs each begin =>
    cases vs with
    | nil => exact ⟨'[', ']' :: rest, rfl, rfl, by decide, by simp⟩
    | cons v vs =>
      have inner := (begin v List.mem_cons_self (writeElements vs (']' :: rest))).length_le
      have outer := length_writeElements
        (fun w member => begin w (List.mem_cons_of_mem _ member)) (']' :: rest)
      refine ⟨'[', v.write (writeElements vs (']' :: rest)), rfl, rfl, by decide, ?_⟩
      simp only [List.length_cons] at outer
      omega
  | @object ms each begin =>
    cases ms with
    | nil => exact ⟨'{', '}' :: rest, rfl, rfl, by decide, by simp⟩
    | cons m ms =>
      obtain ⟨name, v⟩ := m
      have inner := (begin (name, v) List.mem_cons_self (writeMembers ms ('}' :: rest))).length_le
      have outer := length_writeMembers
        (fun w member => begin w (List.mem_cons_of_mem _ member)) ('}' :: rest)
      have key := (begins_writeString name (':' :: v.write (writeMembers ms ('}' :: rest)))).length_le
      refine ⟨'{', _, rfl, rfl, by decide, ?_⟩
      simp only [List.length_cons] at *
      omega

theorem scalar_toString {n : Int} (low : -Numeral.maxNegative ≤ n) (high : n ≤ Numeral.maxWord)
    {rest : List Char} (delimited : Delimited rest) :
    scalar ((toString n).toList ++ rest) = .ok (.integer n, rest) := by
  obtain ⟨c, digits, spelled, first⟩ := begins_toString n
  have read := number_toString low high delimited
  rw [spelled, List.cons_append] at read ⊢
  have null : c ≠ 'n' := first.ne (by decide) rfl
  have yes : c ≠ 't' := first.ne (by decide) rfl
  have no : c ≠ 'f' := first.ne (by decide) rfl
  have quote : c ≠ '"' := first.ne (by decide) rfl
  rw [scalar, if_neg null, if_neg yes, if_neg no, if_neg quote, ← read]
  exact if_pos first

/-- The flaw of a text that nests too deeply. -/
def IsTooDeep (failure : Failure) : Prop := failure.flaw = .tooDeep

/-- A reader that takes values back from their text as long as they nest no more than
`levels` brackets. -/
def TakesBack (read : List Char → Scan Value) (levels : Nat) (v : Value) : Prop :=
  ∀ rest, Delimited rest →
    Answers IsTooDeep (v.nesting ≤ levels) (v, rest) (read (v.write rest))

theorem delimited_writeElements (vs : List Value) (rest : List Char) :
    Delimited (writeElements vs (']' :: rest)) := by
  cases vs with
  | nil => simp [Delimited, writeElements]
  | cons v vs => simp [Delimited, writeElements]

theorem delimited_writeMembers (ms : List (String × Value)) (rest : List Char) :
    Delimited (writeMembers ms ('}' :: rest)) := by
  cases ms with
  | nil => simp [Delimited, writeMembers]
  | cons m ms => simp [Delimited, writeMembers]

section Elements

variable {read : List Char → Scan Value} {levels budget : Nat} {first : Bool}

theorem listStep_closed (first : Bool) (rest : List Char) :
    listStep first (']' :: rest) = .ok (.closed rest) := rfl

theorem listStep_first {length : Nat} {text : List Char} (begins : Begins length text) :
    listStep true text = .ok (.element text) := by
  obtain ⟨c, after, rfl, visible, open_, _⟩ := begins
  simp [listStep, skipBlanks_cons visible, open_]

theorem listStep_comma {length : Nat} {text : List Char} (begins : Begins length text) :
    listStep false (',' :: text) = .ok (.element text) := by
  obtain ⟨c, after, rfl, visible, open_, _⟩ := begins
  simp [listStep, skipBlanks_cons visible, skipBlanks_cons (c := ',') rfl, open_]

theorem elements_step {before found : List Value} {v : Value} {text tail rest : List Char}
    {fits : Prop} (step : listStep first text = .ok (.element (v.write tail)))
    (answer : Answers IsTooDeep (v.nesting ≤ levels) (v, tail) (read (v.write tail)))
    (onwards : Answers IsTooDeep fits (found, rest) (elements read budget false (v :: before) tail)) :
    Answers IsTooDeep (v.nesting ≤ levels ∧ fits) (found, rest)
      (elements read (budget + 1) first before text) := by
  refine answer.andThen onwards (fun taken => ?_) fun failure tooDeep failed => ?_
  · simp only [elements, step, taken]
  · exact ⟨failure, tooDeep, by simp only [elements, step, failed]⟩

theorem elements_write {vs : List Value} (held : ∀ v ∈ vs, v.Exact)
    (each : ∀ v ∈ vs, TakesBack read levels v) (enough : vs.length < budget)
    (before : List Value) (rest : List Char) :
    Answers IsTooDeep (nestingElements vs ≤ levels) (before.reverse ++ vs, rest)
      (elements read budget false before (writeElements vs (']' :: rest))) := by
  induction vs generalizing before budget with
  | nil =>
    obtain ⟨budget, rfl⟩ := Nat.exists_eq_add_one.mpr enough
    simp [Answers, elements, writeElements, listStep_closed, nestingElements]
  | cons v vs ih =>
    obtain ⟨budget, rfl⟩ := Nat.exists_eq_add_one.mpr (Nat.zero_lt_of_lt enough)
    have onwards := ih (fun w member => held w (List.mem_cons_of_mem _ member))
      (fun w member => each w (List.mem_cons_of_mem _ member)) (Nat.lt_of_succ_lt_succ enough)
      (v :: before)
    have step := elements_step (listStep_comma ((held v List.mem_cons_self).begins _))
      (each v List.mem_cons_self _ (delimited_writeElements vs rest)) onwards
    simpa [nestingElements_cons_le, writeElements] using step

theorem objectStep_closed (first : Bool) (rest : List Char) :
    objectStep first ('}' :: rest) = .ok (.closed rest) := rfl

theorem objectKey_writeString (name : String) (rest : List Char) :
    objectKey (writeString name rest) = .ok (.key name rest) := by
  simp [objectKey, writeString, stringBody_write, bind, Except.bind, pure, Except.pure]

theorem objectStep_first (name : String) (rest : List Char) :
    objectStep true (writeString name rest) = .ok (.key name rest) :=
  objectKey_writeString name rest

theorem objectStep_comma (name : String) (rest : List Char) :
    objectStep false (',' :: writeString name rest) = .ok (.key name rest) :=
  objectKey_writeString name rest

theorem members_step {before found : List (String × Value)} {name : String} {v : Value}
    {text tail rest : List Char} {fits : Prop}
    (step : objectStep first text = .ok (.key name (':' :: v.write tail)))
    (answer : Answers IsTooDeep (v.nesting ≤ levels) (v, tail) (read (v.write tail)))
    (onwards : Answers IsTooDeep fits (found, rest)
      (members read budget false ((name, v) :: before) tail)) :
    Answers IsTooDeep (v.nesting ≤ levels ∧ fits) (found, rest)
      (members read (budget + 1) first before text) := by
  have colonRead : colon (':' :: v.write tail) = .ok (v.write tail) := rfl
  refine answer.andThen onwards (fun taken => ?_) fun failure tooDeep failed => ?_
  · simp only [members, step, colonRead, taken]
  · exact ⟨failure, tooDeep, by simp only [members, step, colonRead, failed]⟩

theorem members_write {ms : List (String × Value)}
    (each : ∀ m ∈ ms, TakesBack read levels m.2) (enough : ms.length < budget)
    (before : List (String × Value)) (rest : List Char) :
    Answers IsTooDeep (nestingMembers ms ≤ levels) (before.reverse ++ ms, rest)
      (members read budget false before (writeMembers ms ('}' :: rest))) := by
  induction ms generalizing before budget with
  | nil =>
    obtain ⟨budget, rfl⟩ := Nat.exists_eq_add_one.mpr enough
    simp [Answers, members, writeMembers, objectStep_closed, nestingMembers]
  | cons m ms ih =>
    obtain ⟨name, v⟩ := m
    obtain ⟨budget, rfl⟩ := Nat.exists_eq_add_one.mpr (Nat.zero_lt_of_lt enough)
    have onwards := ih (fun w member => each w (List.mem_cons_of_mem _ member))
      (Nat.lt_of_succ_lt_succ enough) ((name, v) :: before)
    have step := members_step (objectStep_comma name _)
      (each (name, v) List.mem_cons_self _ (delimited_writeMembers ms rest)) onwards
    simpa [nestingMembers_cons_le, writeMembers] using step

end Elements

theorem value_scalar {c : Char} (visible : isBlank c = false) (noList : c ≠ '[')
    (noObject : c ≠ '{') (levels : Nat) (rest : List Char) :
    value levels (c :: rest) = scalar (c :: rest) := by
  unfold value
  rw [skipBlanks_cons visible]
  split
  · rename_i same
    cases same
    exact absurd rfl noList
  · rename_i same
    cases same
    exact absurd rfl noObject
  · rfl

theorem value_list (levels : Nat) (rest : List Char) :
    value (levels + 1) ('[' :: rest) =
      (elements (value levels) rest.length true [] rest).map fun (vs, rest) => (.list vs, rest) := by
  rw [value]
  rfl

theorem value_object (levels : Nat) (rest : List Char) :
    value (levels + 1) ('{' :: rest) =
      (members (value levels) rest.length true [] rest).map fun (ms, rest) => (.object ms, rest) := by
  rw [value]
  rfl

theorem value_zero {c : Char} (opening : c = '[' ∨ c = '{') (rest : List Char) :
    value 0 (c :: rest) = .error (.next .tooDeep (c :: rest)) := by
  rcases opening with rfl | rfl <;> rfl

theorem takesBack_list {vs : List Value} {levels : Nat} (held : ∀ v ∈ vs, v.Exact)
    (each : ∀ v ∈ vs, TakesBack (value levels) levels v) :
    TakesBack (value (levels + 1)) (levels + 1) (.list vs) := by
  intro rest _
  have same : nestingElements vs ≤ levels ↔ (Value.list vs).nesting ≤ levels + 1 := by
    simp [Value.nesting]
  refine Answers.of_iff same ?_
  cases vs with
  | nil => exact .inl ⟨Nat.zero_le _, value_list levels _⟩
  | cons v vs =>
    have begins := (held v List.mem_cons_self).begins (writeElements vs (']' :: rest))
    have longer := length_writeElements
      (fun w member => (held w (List.mem_cons_of_mem _ member)).begins) (']' :: rest)
    have room := begins.length_le
    obtain ⟨budget, enough⟩ := Nat.exists_eq_add_one.mpr (Nat.zero_lt_of_lt room)
    have onwards := elements_write (fun w member => held w (List.mem_cons_of_mem _ member))
      (fun w member => each w (List.mem_cons_of_mem _ member))
      (show vs.length < budget by simp only [List.length_cons] at longer; omega) [v] rest
    have step := elements_step (listStep_first begins)
      (each v List.mem_cons_self _ (delimited_writeElements vs rest)) onwards
    have read := step.map fun (vs, rest) => (Value.list vs, rest)
    rw [← enough, ← value_list] at read
    exact read.of_iff nestingElements_cons_le.symm

theorem takesBack_object {ms : List (String × Value)} {levels : Nat}
    (held : ∀ m ∈ ms, m.2.Exact) (each : ∀ m ∈ ms, TakesBack (value levels) levels m.2) :
    TakesBack (value (levels + 1)) (levels + 1) (.object ms) := by
  intro rest _
  have same : nestingMembers ms ≤ levels ↔ (Value.object ms).nesting ≤ levels + 1 := by
    simp [Value.nesting]
  refine Answers.of_iff same ?_
  cases ms with
  | nil => exact .inl ⟨Nat.zero_le _, value_object levels _⟩
  | cons m ms =>
    obtain ⟨name, v⟩ := m
    have room := (begins_writeString name (':' :: v.write (writeMembers ms ('}' :: rest)))).length_le
    have inner : (writeMembers ms ('}' :: rest)).length < (v.write (writeMembers ms ('}' :: rest))).length :=
      ((held (name, v) List.mem_cons_self).begins _).length_le
    have longer := length_writeMembers
      (fun w member => (held w (List.mem_cons_of_mem _ member)).begins) ('}' :: rest)
    obtain ⟨budget, enough⟩ := Nat.exists_eq_add_one.mpr (Nat.zero_lt_of_lt room)
    have onwards := members_write (fun w member => each w (List.mem_cons_of_mem _ member))
      (show ms.length < budget by simp only [List.length_cons] at longer room; omega)
      [(name, v)] rest
    have step := members_step (objectStep_first name _)
      (each (name, v) List.mem_cons_self _ (delimited_writeMembers ms rest)) onwards
    have read := step.map fun (ms, rest) => (Value.object ms, rest)
    rw [← enough, ← value_object] at read
    exact read.of_iff nestingMembers_cons_le.symm

/-- A bracket is refused where none may be opened. -/
theorem takesBack_bracket {v : Value} (nested : 0 < v.nesting)
    (bracketed : ∀ rest, ∃ c after, v.write rest = c :: after ∧ (c = '[' ∨ c = '{')) :
    TakesBack (value 0) 0 v := by
  intro rest _
  obtain ⟨c, after, written, opening⟩ := bracketed rest
  rw [written, value_zero opening]
  exact .inr ⟨Nat.not_le_of_gt nested, .next .tooDeep (c :: after), rfl, rfl⟩

theorem value_toString {n : Int} (low : -Numeral.maxNegative ≤ n) (high : n ≤ Numeral.maxWord)
    (levels : Nat) {rest : List Char} (delimited : Delimited rest) :
    value levels ((toString n).toList ++ rest) = .ok (.integer n, rest) := by
  obtain ⟨c, digits, spelled, first⟩ := begins_toString n
  have read := scalar_toString low high delimited
  rw [spelled, List.cons_append] at read ⊢
  rw [← read]
  exact value_scalar first.not_blank (first.ne (by decide) rfl) (first.ne (by decide) rfl) levels _

theorem scalar_writeString (s : String) (rest : List Char) :
    scalar (writeString s rest) = .ok (.string s, rest) := by
  have read : stringBody [] (writeStringBody s.toList rest) = .ok (s, rest) := by
    simp [stringBody_write]
  simp [scalar, writeString, read, Except.map]

/-- The text of a value is read back with what followed it, if the value nests no more
than `levels` brackets, and refused for its nesting otherwise. -/
theorem value_write {v : Value} (held : v.Exact) (levels : Nat) :
    TakesBack (value levels) levels v := by
  -- on the value, with the levels left free: a bracket is read with one level less inside
  induction held generalizing levels with
  | null =>
    intro rest _
    exact .inl ⟨Nat.zero_le _, value_scalar rfl (by decide) (by decide) levels _⟩
  | boolean b =>
    intro rest _
    cases b with
    | false => exact .inl ⟨Nat.zero_le _, value_scalar rfl (by decide) (by decide) levels _⟩
    | true => exact .inl ⟨Nat.zero_le _, value_scalar rfl (by decide) (by decide) levels _⟩
  | integer low high =>
    intro rest delimited
    exact .inl ⟨Nat.zero_le _, value_toString low high levels delimited⟩
  | string s =>
    intro rest _
    have begun : value levels (writeString s rest) = scalar (writeString s rest) :=
      value_scalar rfl (by decide) (by decide) levels _
    exact .inl ⟨Nat.zero_le _, begun.trans (scalar_writeString s rest)⟩
  | @list vs held ih =>
    cases levels with
    | zero =>
      refine takesBack_bracket (Nat.succ_pos _) fun rest => ?_
      cases vs with
      | nil => exact ⟨'[', _, rfl, .inl rfl⟩
      | cons v vs => exact ⟨'[', _, rfl, .inl rfl⟩
    | succ levels => exact takesBack_list held fun v member => ih v member levels
  | @object ms held ih =>
    cases levels with
    | zero =>
      refine takesBack_bracket (Nat.succ_pos _) fun rest => ?_
      cases ms with
      | nil => exact ⟨'{', _, rfl, .inr rfl⟩
      | cons m ms => exact ⟨'{', _, rfl, .inr rfl⟩
    | succ levels => exact takesBack_object held fun m member => ih m member levels

/-- The text of a value nests as deeply as the value. -/
theorem nesting_compact {v : Value} (held : v.Exact) :
    nesting v.compact.toList = v.nesting := by
  -- read with just as many levels as it nests, the value takes up the whole of its text
  have read : value v.nesting (v.write []) = .ok (v, []) := by
    rcases value_write held v.nesting [] (by simp [Delimited]) with ⟨_, read⟩ | ⟨deep, _⟩
    · exact read
    · exact absurd (Nat.le_refl _) deep
  have spans := (value_follows v.nesting read).2 0
  rw [Value.compact, String.toList_ofList, nesting, spans]
  simp [deepest]

end Json

end Caju
