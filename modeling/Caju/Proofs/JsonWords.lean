import Caju.Proofs.JsonRoundTrip

/-! The words of JSON as relations: a word is told by the text in front of it and the text
behind it, apart from any scanner. Main statements: passing over a string accepts exactly
the strings (`skimString_sound`, `skimString_complete`), one is read to its end if its
surrogates are paired (`stringBody_complete`), and a numeral is scanned exactly as it is
written (`Numeral.scan_sound`, `Numeral.scan_complete`). -/

namespace Caju.Json

/-! ### Literal words -/

theorem word_append (letters rest : List Char) : word letters (letters ++ rest) = .ok rest := by
  induction letters with
  | nil => rfl
  | cons letter letters ih => rw [List.cons_append, word, if_pos rfl, ih]

theorem word_sound {letters text rest : List Char} (read : word letters text = .ok rest) :
    text = letters ++ rest := by
  induction letters generalizing text with
  | nil =>
    cases read
    rfl
  | cons letter letters ih =>
    cases text with
    | nil => cases read
    | cons c text =>
      rw [word] at read
      split at read
      · rename_i same
        rw [same, ih read]
        rfl
      · cases read

/-! ### Strings -/

/-- A backslash, `u` and the four digits of a unit. -/
def Escapes (unit : Nat) (escape : List Char) : Prop :=
  ∃ a b c d, escape = ['\\', 'u', a, b, c, d] ∧ hexUnit? a b c d = some unit

/-- One unit, whatever it stands for. -/
def AnyEscape (escape : List Char) : Prop := ∃ unit, Escapes unit escape

/-- A unit that stands for a character, or a pair of surrogates that do. -/
def PairedEscape (escape : List Char) : Prop :=
  (∃ unit, Escapes unit escape ∧ isLeadingSurrogate unit = false ∧
    isTrailingSurrogate unit = false) ∨
  ∃ leading trailing first second, Escapes leading first ∧ isLeadingSurrogate leading = true ∧
    Escapes trailing second ∧ isTrailingSurrogate trailing = true ∧ escape = first ++ second

/-- The characters of a string and its closing quote, between `text` and `rest`. -/
inductive StringText (escaped : List Char → Prop) : List Char → List Char → Prop
  | close (rest : List Char) : StringText escaped ('"' :: rest) rest
  | plain {c : Char} {text rest : List Char} (printable : ¬c < ' ') (quote : c ≠ '"')
    (backslash : c ≠ '\\') (more : StringText escaped text rest) :
    StringText escaped (c :: text) rest
  | short {letter c : Char} {text rest : List Char} (known : shortEscape? letter = some c)
    (more : StringText escaped text rest) : StringText escaped ('\\' :: letter :: text) rest
  | unit {escape text rest : List Char} (known : escaped escape)
    (more : StringText escaped text rest) : StringText escaped (escape ++ text) rest

theorem StringText.shortens {escaped : List Char → Prop} {text rest : List Char}
    (spelled : StringText escaped text rest) : rest.length < text.length := by
  induction spelled with
  | close rest => exact Nat.lt_succ_self _
  | plain _ _ _ _ ih => exact Nat.lt_succ_of_lt ih
  | short _ _ ih => exact Nat.lt_succ_of_lt (Nat.lt_succ_of_lt ih)
  | unit _ _ ih =>
    rw [List.length_append]
    omega

theorem shortEscape?_ne {letter c : Char} (known : shortEscape? letter = some c) :
    letter ≠ 'u' := by
  rintro rfl
  cases known

theorem skimString_unit {a b c d : Char} {unit : Nat} (known : hexUnit? a b c d = some unit)
    (rest : List Char) :
    skimString ('\\' :: 'u' :: a :: b :: c :: d :: rest) = skimString rest := by
  rw [skimString]
  simp only [known]

theorem skimString_short {letter c : Char} (known : shortEscape? letter = some c)
    (rest : List Char) : skimString ('\\' :: letter :: rest) = skimString rest := by
  have other := shortEscape?_ne known
  rw [skimString]
  · simp only [known]
  · exact fun _ _ _ _ _ same _ => other same
  · exact fun same => other same

theorem skimString_plain {c : Char} (printable : ¬c < ' ') (quote : c ≠ '"')
    (backslash : c ≠ '\\') (rest : List Char) : skimString (c :: rest) = skimString rest := by
  rw [skimString]
  · rw [if_neg printable]
  · exact quote
  · exact fun _ _ _ _ _ same _ => backslash same
  · exact fun _ same _ => backslash same
  · exact fun same _ => backslash same
  · exact fun _ _ same _ => backslash same

theorem skimString_complete {text rest : List Char} (spelled : StringText AnyEscape text rest) :
    skimString text = .ok rest := by
  induction spelled with
  | close rest => rfl
  | plain printable quote backslash _ ih => rw [skimString_plain printable quote backslash, ih]
  | short known _ ih => rw [skimString_short known, ih]
  | unit known _ ih =>
    obtain ⟨_, a, b, c, d, rfl, digits⟩ := known
    exact (skimString_unit digits _).trans ih

theorem skimString_sound {text rest : List Char} (read : skimString text = .ok rest) :
    StringText AnyEscape text rest := by
  fun_induction skimString text
  case case2 =>
    cases read
    exact .close _
  case case4 a b c d after unit known ih =>
    have escape : AnyEscape ['\\', 'u', a, b, c, d] := ⟨unit, a, b, c, d, rfl, known⟩
    exact StringText.unit escape (ih read)
  case case7 known ih => exact .short known (ih read)
  case case10 c after quote _ _ notLast notEscape printable ih =>
    exact .plain printable quote (not_backslash notLast notEscape) (ih read)
  all_goals cases read

theorem stringBody_unit {a b c d : Char} {unit : Nat} (known : hexUnit? a b c d = some unit)
    (noLeading : isLeadingSurrogate unit = false) (noTrailing : isTrailingSurrogate unit = false)
    (before rest : List Char) :
    stringBody before ('\\' :: 'u' :: a :: b :: c :: d :: rest) =
      stringBody (Char.ofNat unit :: before) rest := by
  rw [stringBody]
  simp only [known, noLeading, noTrailing]
  rfl

theorem stringBody_pair {a b c d e f g h : Char} {leading trailing : Nat}
    (first : hexUnit? a b c d = some leading) (isLeading : isLeadingSurrogate leading = true)
    (second : hexUnit? e f g h = some trailing) (isTrailing : isTrailingSurrogate trailing = true)
    (before rest : List Char) :
    stringBody before ('\\' :: 'u' :: a :: b :: c :: d :: '\\' :: 'u' :: e :: f :: g :: h :: rest) =
      stringBody (pairedChar leading trailing :: before) rest := by
  have noTrailing : isTrailingSurrogate leading = false := by
    simp only [isLeadingSurrogate, isTrailingSurrogate, Bool.and_eq_true, decide_eq_true_eq,
      Bool.and_eq_false_iff, decide_eq_false_iff_not] at isLeading ⊢
    omega
  rw [stringBody]
  simp only [first, second, isLeading, isTrailing, noTrailing]
  rfl

theorem stringBody_short {letter c : Char} (known : shortEscape? letter = some c)
    (before rest : List Char) :
    stringBody before ('\\' :: letter :: rest) = stringBody (c :: before) rest := by
  have other := shortEscape?_ne known
  rw [stringBody]
  · simp only [known]
  · exact fun _ _ _ _ _ same _ => other same
  · exact fun same => other same

/-- A string without unpaired surrogates is read, whatever was read before it. -/
theorem stringBody_complete {text rest : List Char} (spelled : StringText PairedEscape text rest)
    (before : List Char) : ∃ s, stringBody before text = .ok (s, rest) := by
  induction spelled generalizing before with
  | close rest => exact ⟨String.ofList before.reverse, rfl⟩
  | plain printable quote backslash _ ih =>
    rw [stringBody_character quote backslash printable]
    exact ih _
  | short known _ ih =>
    rw [stringBody_short known]
    exact ih _
  | unit known _ ih =>
    rcases known with ⟨unit, ⟨a, b, c, d, rfl, digits⟩, noLeading, noTrailing⟩ |
      ⟨leading, trailing, _, _, ⟨a, b, c, d, rfl, first⟩, isLeading, ⟨e, f, g, h, rfl, second⟩,
        isTrailing, rfl⟩
    · simp only [List.cons_append, List.nil_append]
      rw [stringBody_unit digits noLeading noTrailing]
      exact ih _
    · simp only [List.cons_append, List.nil_append]
      rw [stringBody_pair first isLeading second isTrailing]
      exact ih _

/-! ### Numbers -/

namespace Numeral

/-- The minus sign of a numeral, if it has one. -/
def sign (numeral : Numeral) : List Char := if numeral.negative then ['-'] else []

/-- The point of a numeral and the digits behind it, if it has any. -/
def point (numeral : Numeral) : List Char :=
  if numeral.fraction.isEmpty then [] else '.' :: numeral.fraction

/-- How an exponent is written, with or without a plus. -/
inductive Power : Option (Bool × List Char) → List Char → Prop
  | none : Power none []
  | minus {mark : Char} (known : mark = 'e' ∨ mark = 'E') (digits : List Char) :
    Power (some (true, digits)) (mark :: '-' :: digits)
  | plus {mark : Char} (known : mark = 'e' ∨ mark = 'E') (digits : List Char) :
    Power (some (false, digits)) (mark :: '+' :: digits)
  | bare {mark : Char} (known : mark = 'e' ∨ mark = 'E') (digits : List Char) :
    Power (some (false, digits)) (mark :: digits)

/-- Digits only, and no zero in front of others. -/
structure Proper (numeral : Numeral) : Prop where
  whole : numeral.whole = ['0'] ∨ ∃ c digits, numeral.whole = c :: digits ∧ c ≠ '0' ∧
    ∀ d ∈ c :: digits, isDigit d = true
  fraction : ∀ d ∈ numeral.fraction, isDigit d = true
  exponent : ∀ e ∈ numeral.exponent, e.2 ≠ [] ∧ ∀ d ∈ e.2, isDigit d = true

/-- The numeral stands between `text` and `rest`. -/
def Written (numeral : Numeral) (text rest : List Char) : Prop :=
  numeral.Proper ∧ ∃ power, Power numeral.exponent power ∧
    text = numeral.sign ++ (numeral.whole ++ (numeral.point ++ (power ++ rest)))

/-- The numeral has a value, whatever follows it. -/
def InRange (numeral : Numeral) : Prop := ∀ rest, ∃ v, numeral.value rest = .ok v

end Numeral

/-- What follows a number does not belong to it. -/
def Halts (rest : List Char) : Prop :=
  ∀ c ∈ rest.head?, isDigit c = false ∧ c ≠ '.' ∧ c ≠ 'e' ∧ c ≠ 'E'

theorem halts_of_blank {c : Char} (space : isBlank c = true) (rest : List Char) :
    Halts (c :: rest) := by
  have known : ((c = ' ' ∨ c = '\n') ∨ c = '\t') ∨ c = '\r' := by simpa [isBlank] using space
  rintro d same
  cases same
  rcases known with ((rfl | rfl) | rfl) | rfl <;> decide

namespace Numeral

/-- Digits in front of a character that is none are taken to the last. -/
theorem takeWhile_digits {digits rest : List Char} (each : ∀ d ∈ digits, isDigit d = true)
    (stops : ∀ c ∈ rest.head?, isDigit c = false) :
    (digits ++ rest).takeWhile isDigit = digits ∧ (digits ++ rest).dropWhile isDigit = rest := by
  have none : rest.takeWhile isDigit = [] ∧ rest.dropWhile isDigit = rest := by
    cases rest with
    | nil => exact ⟨rfl, rfl⟩
    | cons c rest => simp [stops c rfl]
  rw [List.takeWhile_append_of_pos each, List.dropWhile_append_of_pos each, none.1, none.2]
  exact ⟨List.append_nil digits, rfl⟩

theorem scanDigits_complete (cut : Flaw) {digits rest : List Char} (some : digits ≠ [])
    (each : ∀ d ∈ digits, isDigit d = true) (stops : ∀ c ∈ rest.head?, isDigit c = false) :
    scanDigits cut (digits ++ rest) = .ok (digits, rest) := by
  obtain ⟨taken, dropped⟩ := takeWhile_digits each stops
  unfold scanDigits
  rw [taken, dropped]
  cases digits with
  | nil => exact absurd rfl some
  | cons d digits => rfl

theorem scanWhole_complete (cut : Flaw) {numeral : Numeral} (proper : numeral.Proper)
    {rest : List Char} (stops : ∀ c ∈ rest.head?, isDigit c = false) :
    scanWhole cut (numeral.whole ++ rest) = .ok (numeral.whole, rest) := by
  rcases proper.whole with zero | ⟨c, digits, spelled, notZero, each⟩
  · rw [zero]
    cases rest with
    | nil => rfl
    | cons c rest => simp [scanWhole, stops c rfl]
  · have others : ∀ d ∈ digits, isDigit d = true := fun d member =>
      each d (List.mem_cons_of_mem _ member)
    obtain ⟨taken, dropped⟩ := takeWhile_digits others stops
    rw [spelled, List.cons_append, scanWhole]
    · rw [if_pos (each c List.mem_cons_self), taken, dropped]
    · exact notZero

theorem Power.stops {exponent : Option (Bool × List Char)} {power rest : List Char}
    (spelled : Power exponent power) (halts : Halts rest) :
    ∀ c ∈ (power ++ rest).head?, isDigit c = false ∧ c ≠ '.' := by
  cases spelled with
  | none => exact fun c member => ⟨(halts c member).1, (halts c member).2.1⟩
  | minus known | plus known | bare known =>
    rintro c same
    cases same
    rcases known with rfl | rfl <;> decide

theorem point_stops {numeral : Numeral} {tail : List Char}
    (stops : ∀ c ∈ tail.head?, isDigit c = false ∧ c ≠ '.') :
    ∀ c ∈ (numeral.point ++ tail).head?, isDigit c = false := by
  unfold point
  split
  · exact fun c member => (stops c member).1
  · rintro c same
    cases same
    rfl

theorem scanFraction_complete (cut : Flaw) {numeral : Numeral} (proper : numeral.Proper)
    {rest : List Char} (stops : ∀ c ∈ rest.head?, isDigit c = false ∧ c ≠ '.') :
    scanFraction cut (numeral.point ++ rest) = .ok (numeral.fraction, rest) := by
  unfold point
  split
  · rename_i empty
    rw [List.isEmpty_iff.mp empty, List.nil_append, scanFraction]
    rintro after rfl
    exact (stops '.' rfl).2 rfl
  · rename_i some
    have digits : numeral.fraction ≠ [] := fun empty => some (by rw [empty]; rfl)
    exact scanDigits_complete cut digits proper.fraction fun c member => (stops c member).1

theorem scanExponent_complete (cut : Flaw) {exponent : Option (Bool × List Char)}
    {power rest : List Char} (spelled : Power exponent power)
    (digits : ∀ e ∈ exponent, e.2 ≠ [] ∧ ∀ d ∈ e.2, isDigit d = true) (halts : Halts rest) :
    scanExponent cut (power ++ rest) = .ok (exponent, rest) := by
  have stops : ∀ c ∈ rest.head?, isDigit c = false := fun c member => (halts c member).1
  cases spelled with
  | none =>
    cases rest with
    | nil => rfl
    | cons c rest =>
      have unmarked : ¬(c = 'e' ∨ c = 'E') := not_or.mpr (halts c rfl).2.2
      exact if_neg unmarked
  | minus known spelled =>
    have scanned := scanDigits_complete cut (digits _ rfl).1 (digits _ rfl).2 stops
    simp only [List.cons_append, scanExponent, if_pos known, scanned]
  | plus known spelled =>
    have scanned := scanDigits_complete cut (digits _ rfl).1 (digits _ rfl).2 stops
    simp only [List.cons_append, scanExponent, if_pos known, scanned]
  | bare known spelled =>
    have scanned := scanDigits_complete cut (digits _ rfl).1 (digits _ rfl).2 stops
    obtain ⟨d, more, same⟩ := List.exists_cons_of_ne_nil (digits _ rfl).1
    have digit : isDigit d = true := (digits _ rfl).2 d (same ▸ List.mem_cons_self)
    have minus : d ≠ '-' := by rintro rfl; cases digit
    have plus : d ≠ '+' := by rintro rfl; cases digit
    subst same
    simp only [List.cons_append] at scanned ⊢
    simp [scanExponent, known, minus, plus, scanned]

theorem Proper.unsigned {numeral : Numeral} (proper : numeral.Proper) (tail after : List Char) :
    numeral.whole ++ tail ≠ '-' :: after := by
  intro same
  rcases proper.whole with zero | ⟨c, digits, spelled, _, each⟩
  · rw [zero] at same
    cases same
  · have digit := each c List.mem_cons_self
    rw [spelled] at same
    cases same
    cases digit

/-- A numeral is read to its end if what follows it cannot belong to it. -/
theorem scan_complete (cut : Flaw) {numeral : Numeral} {text rest : List Char}
    (written : numeral.Written text rest) (halts : Halts rest) :
    scan cut text = .ok (numeral, rest) := by
  obtain ⟨proper, power, spelled, rfl⟩ := written
  have stops := spelled.stops halts
  have whole : scanWhole cut (numeral.whole ++ (numeral.point ++ (power ++ rest))) = _ :=
    scanWhole_complete cut proper (point_stops stops)
  have fraction := scanFraction_complete cut proper stops
  have exponent := scanExponent_complete cut spelled proper.exponent halts
  have unsigned := proper.unsigned (numeral.point ++ (power ++ rest))
  obtain ⟨negative, _, _, _⟩ := numeral
  cases negative with
  | true =>
    simp only [sign, if_true, List.cons_append, List.nil_append, scan, whole, fraction, exponent,
      bind, Except.bind, pure, Except.pure]
  | false =>
    simp only [sign, Bool.false_eq_true, if_false, List.nil_append]
    unfold scan
    split
    rename_i signed
    split at signed
    · rename_i after same
      exact absurd same (unsigned after)
    · cases signed
      simp only [whole, fraction, exponent, bind, Except.bind, pure, Except.pure]

theorem scanDigits_sound {cut : Flaw} {text digits rest : List Char}
    (read : scanDigits cut text = .ok (digits, rest)) :
    digits ≠ [] ∧ (∀ d ∈ digits, isDigit d = true) ∧ text = digits ++ rest := by
  have split := List.takeWhile_append_dropWhile (p := isDigit) (l := text)
  cases text with
  | nil => cases read
  | cons c text =>
    unfold scanDigits at read
    by_cases digit : isDigit c = true
    · simp only [List.takeWhile_cons_of_pos digit] at read split
      cases read
      refine ⟨List.cons_ne_nil _ _, ?_, split.symm⟩
      exact List.forall_mem_cons.mpr ⟨digit, fun d => List.mem_takeWhile_imp⟩
    · simp only [List.takeWhile_cons_of_neg digit] at read
      cases read

theorem scanWhole_sound {cut : Flaw} {text digits rest : List Char}
    (read : scanWhole cut text = .ok (digits, rest)) :
    (digits = ['0'] ∨ ∃ c more, digits = c :: more ∧ c ≠ '0' ∧ ∀ d ∈ c :: more, isDigit d = true) ∧
      text = digits ++ rest := by
  revert read
  fun_cases scanWhole cut text
  all_goals intro read; cases read
  case case2 => exact ⟨.inl rfl, rfl⟩
  case case4 => exact ⟨.inl rfl, rfl⟩
  case case5 c after notZero digit =>
    have each : ∀ d ∈ c :: after.takeWhile isDigit, isDigit d = true :=
      List.forall_mem_cons.mpr ⟨digit, fun d => List.mem_takeWhile_imp⟩
    refine ⟨.inr ⟨c, _, rfl, notZero, each⟩, ?_⟩
    rw [List.cons_append, List.takeWhile_append_dropWhile]

theorem scanFraction_sound {cut : Flaw} {text digits rest : List Char}
    (read : scanFraction cut text = .ok (digits, rest)) :
    (∀ d ∈ digits, isDigit d = true) ∧
      text = (if digits.isEmpty then [] else '.' :: digits) ++ rest := by
  revert read
  fun_cases scanFraction cut text
  case case1 after =>
    intro read
    obtain ⟨some, each, rfl⟩ := scanDigits_sound read
    refine ⟨each, ?_⟩
    cases digits with
    | nil => exact absurd rfl some
    | cons d digits => rfl
  case case2 =>
    intro read
    cases read
    exact ⟨List.forall_mem_nil _, rfl⟩

theorem scanExponent_sound {cut : Flaw} {text rest : List Char}
    {exponent : Option (Bool × List Char)} (read : scanExponent cut text = .ok (exponent, rest)) :
    (∀ e ∈ exponent, e.2 ≠ [] ∧ ∀ d ∈ e.2, isDigit d = true) ∧
      ∃ power, Power exponent power ∧ text = power ++ rest := by
  revert read
  fun_cases scanExponent cut text
  all_goals intro read; cases read
  case case2 known _ _ signed digits scanned =>
    obtain ⟨some, each, spelled⟩ := scanDigits_sound scanned
    refine ⟨fun e member => ?_, ?_⟩
    · cases member
      exact ⟨some, each⟩
    · split at signed <;> cases signed
      · exact ⟨_, .minus known digits, by rw [spelled]; rfl⟩
      · exact ⟨_, .plus known digits, by rw [spelled]; rfl⟩
      · exact ⟨_, .bare known digits, by rw [spelled]; rfl⟩
  case case3 => exact ⟨by simp, [], .none, rfl⟩
  case case4 => exact ⟨by simp, [], .none, rfl⟩

theorem scan_sound {cut : Flaw} {text rest : List Char} {numeral : Numeral}
    (read : scan cut text = .ok (numeral, rest)) : numeral.Written text rest := by
  unfold scan at read
  split at read
  rename_i negative digits signed
  have spelledSign : text = (if negative then ['-'] else []) ++ digits := by
    split at signed <;> cases signed <;> rfl
  obtain ⟨⟨whole, afterWhole⟩, scannedWhole, read⟩ := bind_eq_ok_iff.mp read
  obtain ⟨⟨fraction, afterFraction⟩, scannedFraction, read⟩ := bind_eq_ok_iff.mp read
  obtain ⟨⟨exponent, after⟩, scannedExponent, read⟩ := bind_eq_ok_iff.mp read
  cases read
  obtain ⟨properWhole, spelledWhole⟩ := scanWhole_sound scannedWhole
  obtain ⟨properFraction, spelledFraction⟩ := scanFraction_sound scannedFraction
  obtain ⟨properExponent, power, spelled, spelledExponent⟩ := scanExponent_sound scannedExponent
  refine ⟨⟨properWhole, properFraction, properExponent⟩, power, spelled, ?_⟩
  rw [spelledSign, spelledWhole, spelledFraction, spelledExponent]
  rfl

theorem Written.begins {numeral : Numeral} {text rest : List Char}
    (written : numeral.Written text rest) : ∃ c after, text = c :: after ∧ BeginsNumber c := by
  obtain ⟨proper, power, _, rfl⟩ := written
  have digits : ∃ c after, numeral.whole = c :: after ∧ isDigit c = true := by
    rcases proper.whole with zero | ⟨c, digits, spelled, _, each⟩
    · exact ⟨'0', [], zero, rfl⟩
    · exact ⟨c, digits, spelled, each c List.mem_cons_self⟩
  obtain ⟨c, after, spelled, digit⟩ := digits
  rw [spelled, sign]
  split
  · exact ⟨'-', _, rfl, .inl rfl⟩
  · exact ⟨c, _, rfl, .inr digit⟩

theorem Written.shortens {numeral : Numeral} {text rest : List Char}
    (written : numeral.Written text rest) : rest.length < text.length := by
  obtain ⟨proper, power, _, rfl⟩ := written
  have some : numeral.whole ≠ [] := by
    rcases proper.whole with zero | ⟨c, digits, spelled, _⟩
    · rw [zero]
      exact List.cons_ne_nil _ _
    · rw [spelled]
      exact List.cons_ne_nil _ _
  have := List.length_pos_of_ne_nil some
  simp only [List.length_append]
  omega

end Numeral

end Caju.Json
