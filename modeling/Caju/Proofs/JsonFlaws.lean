import Caju.Proofs.JsonGrammar

/-! Where the flaw of a text shows. Some flaws are no matter of the grammar, but of what the
reader can hold: they are its limits. Main statements: a reader that fails for any other
reason fails in the text in front of it (`value_remains`), and one that succeeds leaves less
than that (`value_shortens`). -/

namespace Caju.Json

/-- The flaws of texts that the grammar admits. -/
def Flaw.isLimit : Flaw → Bool
  | .loneSurrogate | .endOfEscape | .numberOutOfRange | .tooDeep => true
  | _ => false

/-! ### Bytes -/

theorem byteCount_cons (c : Char) (rest : List Char) :
    byteCount (c :: rest) = c.utf8Size + byteCount rest := by
  have shift (chars : List Char) (total : Nat) :
      chars.foldl (fun total c => total + c.utf8Size) total = total + byteCount chars := by
    induction chars generalizing total with
    | nil => rfl
    | cons d chars ih =>
      rw [byteCount, List.foldl_cons, List.foldl_cons, ih, ih (0 + d.utf8Size)]
      omega
  rw [byteCount, List.foldl_cons, shift, Nat.zero_add]

theorem byteCount_le_of_suffix {text rest : List Char} (suffix : rest <:+ text) :
    byteCount rest ≤ byteCount text := by
  obtain ⟨front, rfl⟩ := suffix
  induction front with
  | nil => exact Nat.le_refl _
  | cons c front ih =>
    rw [List.cons_append, byteCount_cons]
    exact Nat.le_trans ih (Nat.le_add_left _ _)

/-- The bytes of a text behind a place in it. -/
def Place.left (place : Place) : Nat := byteCount place.rest - place.ahead

/-! ### Words -/

/-- The flaw shows in the text, unless it is a limit. -/
def Failure.ShowsIn (text : List Char) (failure : Failure) : Prop :=
  failure.flaw.isLimit = false → failure.place.rest <:+ text

/-- A scan of the text comes to rest in it, where `behind` says, or fails in it. -/
def Remains {α : Type} (behind : α → List Char) (text : List Char) : Except Failure α → Prop
  | .ok found => behind found <:+ text
  | .error failure => failure.ShowsIn text

section Remains

variable {α β : Type} {behind : α → List Char} {behind' : β → List Char} {text front : List Char}
  {scan : Except Failure α}

theorem Remains.suffix {found : α} (remains : Remains behind text scan) (ended : scan = .ok found) :
    behind found <:+ text := by
  rw [ended] at remains
  exact remains

theorem Remains.mono (remains : Remains behind text scan) (suffix : text <:+ front) :
    Remains behind front scan := by
  cases scan with
  | ok found => exact List.IsSuffix.trans remains suffix
  | error failure => exact fun grammar => (remains grammar).trans suffix

theorem Remains.bind {onwards : α → Except Failure β} (remains : Remains behind text scan)
    (next : ∀ found, scan = .ok found → Remains behind' (behind found) (onwards found)) :
    Remains behind' text (scan >>= onwards) := by
  cases scan with
  | ok found => exact (next found rfl).mono remains
  | error failure => exact remains

theorem Remains.map {f : α → β} (remains : Remains behind text scan)
    (same : ∀ found, behind' (f found) = behind found) : Remains behind' text (scan.map f) := by
  cases scan with
  | ok found =>
    have suffix : behind found <:+ text := remains
    rwa [← same found] at suffix
  | error failure => exact remains

end Remains

theorem skipBlanks_suffix (text : List Char) : skipBlanks text <:+ text :=
  List.dropWhile_suffix isBlank

theorem word_remains (letters text : List Char) : Remains id text (word letters text) := by
  fun_induction word letters text with
  | case1 => exact List.suffix_rfl
  | case2 => exact fun _ => List.suffix_rfl
  | case3 _ _ _ ih => exact ih.mono (List.suffix_cons _ _)
  | case4 => exact fun _ => List.suffix_rfl

theorem badHexEscape_shows {digits text : List Char} (suffix : digits <:+ text) :
    (badHexEscape digits).ShowsIn text := by
  unfold badHexEscape
  split
  · exact fun _ => suffix
  · exact fun _ => List.nil_suffix

theorem stringBody_remains (before text : List Char) :
    Remains Prod.snd text (stringBody before text) := by
  have escape (a b c d : Char) (rest : List Char) :
      rest <:+ '\\' :: 'u' :: a :: b :: c :: d :: rest := ⟨['\\', 'u', a, b, c, d], rfl⟩
  have mark (digits : List Char) : digits <:+ '\\' :: 'u' :: digits := ⟨['\\', 'u'], rfl⟩
  fun_induction stringBody before text
  -- the closing quote
  case case2 => exact List.suffix_cons _ _
  -- digits that are none
  case case3 => exact badHexEscape_shows (mark _)
  case case7 => exact badHexEscape_shows ((mark _).trans (escape _ _ _ _ _))
  case case10 => exact badHexEscape_shows ((mark _).trans (escape _ _ _ _ _))
  case case14 => exact badHexEscape_shows (mark _)
  -- a character, however it is written
  case case8 ih => exact ih.mono ((escape _ _ _ _ _).trans (escape _ _ _ _ _))
  case case13 ih => exact ih.mono (escape _ _ _ _ _)
  case case16 letter _ _ _ _ _ ih => exact ih.mono ⟨['\\', letter], rfl⟩
  case case19 ih => exact ih.mono (List.suffix_cons _ _)
  case case17 => exact fun _ => List.suffix_cons _ _
  case case18 => exact fun _ => List.suffix_rfl
  -- the text ends inside the string
  case case1 | case5 | case6 | case15 => exact fun _ => List.nil_suffix
  -- surrogates without their other half are a limit
  case case4 | case9 | case11 | case12 =>
    intro grammar
    cases grammar

namespace Numeral

variable (cut : Flaw) (text : List Char)

theorem scanWhole_remains : Remains Prod.snd text (scanWhole cut text) := by
  fun_cases scanWhole cut text
  case case1 => exact fun _ => List.suffix_rfl
  case case2 => exact List.nil_suffix
  case case3 => exact fun _ => List.suffix_cons _ _
  case case4 => exact List.suffix_cons _ _
  case case5 => exact (List.dropWhile_suffix isDigit).trans (List.suffix_cons _ _)
  case case6 => exact fun _ => List.suffix_rfl

theorem scanDigits_remains : Remains Prod.snd text (scanDigits cut text) := by
  unfold scanDigits
  split
  · exact fun _ => List.suffix_rfl
  · exact fun _ => List.suffix_rfl
  · exact List.dropWhile_suffix isDigit

theorem scanFraction_remains : Remains Prod.snd text (scanFraction cut text) := by
  fun_cases scanFraction cut text
  case case1 => exact (scanDigits_remains cut _).mono (List.suffix_cons _ _)
  case case2 => exact List.suffix_rfl

theorem scanExponent_remains : Remains Prod.snd text (scanExponent cut text) := by
  fun_cases scanExponent cut text
  case case1 c rest _ _ digits signed failure failed =>
    have behind : digits <:+ c :: rest := by
      split at signed <;> cases signed
      · exact ⟨[c, '-'], rfl⟩
      · exact ⟨[c, '+'], rfl⟩
      · exact List.suffix_cons c rest
    have scanned := (scanDigits_remains cut digits).mono behind
    rwa [failed] at scanned
  case case2 c rest _ _ digits signed _ after found =>
    have behind : digits <:+ c :: rest := by
      split at signed <;> cases signed
      · exact ⟨[c, '-'], rfl⟩
      · exact ⟨[c, '+'], rfl⟩
      · exact List.suffix_cons c rest
    have scanned := (scanDigits_remains cut digits).mono behind
    rwa [found] at scanned
  case case3 => exact List.suffix_rfl
  case case4 => exact List.suffix_rfl

theorem scan_remains : Remains Prod.snd text (scan cut text) := by
  unfold scan
  split
  rename_i negative digits signed
  have suffix : digits <:+ text := by
    split at signed <;> cases signed
    · exact List.suffix_cons _ _
    · exact List.suffix_rfl
  refine ((scanWhole_remains cut digits).mono suffix).bind fun whole _ => ?_
  refine (scanFraction_remains cut whole.2).bind fun fraction _ => ?_
  refine (scanExponent_remains cut fraction.2).bind fun exponent _ => ?_
  exact List.suffix_rfl

variable {cut text}

/-- A numeral fails to have a value only by its size. -/
theorem value_fails {numeral : Numeral} {rest : List Char} {failure : Failure}
    (failed : numeral.value rest = .error failure) : failure.flaw.isLimit = true := by
  revert failed
  fun_cases value numeral rest
  all_goals
    intro failed
    cases failed
  all_goals rfl

end Numeral

theorem number_remains (text : List Char) : Remains Prod.snd text (number text) := by
  refine (Numeral.scan_remains .endOfValue text).bind ?_
  intro found _
  rcases found with ⟨numeral, rest⟩
  show Remains Prod.snd rest (numeral.value rest >>= fun v => pure (v, rest))
  cases known : numeral.value rest with
  | ok v => exact List.suffix_rfl
  | error failure =>
    intro grammar
    have limit := Numeral.value_fails known
    rw [grammar] at limit
    cases limit

theorem scalar_remains (text : List Char) : Remains Prod.snd text (scalar text) := by
  have literal (v : Value) (c : Char) (letters rest : List Char) :
      Remains Prod.snd (c :: rest) ((word letters rest).map (v, ·)) := by
    refine Remains.mono (Remains.map (word_remains letters rest) ?_) (List.suffix_cons c rest)
    exact fun _ => rfl
  fun_cases scalar text
  case case1 => exact fun _ => List.suffix_rfl
  case case2 => exact literal _ _ _ _
  case case3 => exact literal _ _ _ _
  case case4 => exact literal _ _ _ _
  case case5 =>
    refine Remains.mono (Remains.map (stringBody_remains [] _) ?_) (List.suffix_cons _ _)
    exact fun _ => rfl
  case case6 => exact number_remains _
  case case7 => exact fun _ => List.suffix_rfl

/-! ### Lists and objects -/

def ListStep.behind : ListStep → List Char
  | .element start => start
  | .closed rest => rest

def ObjectStep.behind : ObjectStep → List Char
  | .key _ rest => rest
  | .closed rest => rest

/-- What is left behind the next word and the blanks in front of it. -/
theorem suffix_of_skipBlanks {text rest : List Char} {c : Char}
    (found : skipBlanks text = c :: rest) : rest <:+ text :=
  (List.suffix_cons c rest).trans (found ▸ skipBlanks_suffix text)

theorem listStep_remains (first : Bool) (text : List Char) :
    Remains ListStep.behind text (listStep first text) := by
  have blanks := skipBlanks_suffix text
  unfold listStep
  split
  · exact fun _ => List.nil_suffix
  · rename_i c rest found
    rw [found] at blanks
    have inside := suffix_of_skipBlanks found
    split
    · exact inside
    · split
      · exact blanks
      · split
        · have element := (skipBlanks_suffix rest).trans inside
          split
          · exact fun _ => List.nil_suffix
          · rename_i after
            rw [after] at element
            split
            · exact fun _ => element
            · exact element
        · exact fun _ => blanks

theorem objectKey_remains (text : List Char) : Remains ObjectStep.behind text (objectKey text) := by
  unfold objectKey
  split
  · refine Remains.mono (Remains.bind (stringBody_remains [] _) fun _ _ => ?_)
      (List.suffix_cons _ _)
    exact List.suffix_rfl
  · exact fun _ => List.suffix_rfl

theorem objectStep_remains (first : Bool) (text : List Char) :
    Remains ObjectStep.behind text (objectStep first text) := by
  have blanks := skipBlanks_suffix text
  unfold objectStep
  split
  · exact fun _ => List.nil_suffix
  · rename_i c rest found
    rw [found] at blanks
    have inside := suffix_of_skipBlanks found
    split
    · exact inside
    · split
      · exact (objectKey_remains _).mono blanks
      · split
        · have member := (skipBlanks_suffix rest).trans inside
          split
          · exact fun _ => List.nil_suffix
          · rename_i after
            rw [after] at member
            split
            · exact fun _ => member
            · exact (objectKey_remains _).mono member
        · exact fun _ => blanks

theorem colon_remains (text : List Char) : Remains id text (colon text) := by
  unfold colon
  split
  · exact fun _ => List.nil_suffix
  · rename_i found
    split
    · exact suffix_of_skipBlanks found
    · exact fun _ => found ▸ skipBlanks_suffix text

section Loops

variable {read : List Char → Scan Value} (reads : ∀ text, Remains Prod.snd text (read text))
include reads

theorem elements_remains_of_step {budget : Nat} {first : Bool} {before : List Value}
    {text front : List Char} (step : Remains ListStep.behind front (listStep first text)) :
    Remains Prod.snd front (elements read budget first before text) := by
  induction budget generalizing first before text front with
  | zero => exact fun _ => List.nil_suffix
  | succ budget ih =>
    unfold elements
    split
    · rename_i failed
      rwa [failed] at step
    · rename_i closed
      rwa [closed] at step
    · rename_i start found
      rw [found] at step
      have value := (reads start).mono step
      split
      · rename_i failed
        rwa [failed] at value
      · rename_i rest taken
        rw [taken] at value
        exact ih ((listStep_remains false rest).mono value)

theorem elements_remains (budget : Nat) (first : Bool) (before : List Value) (text : List Char) :
    Remains Prod.snd text (elements read budget first before text) :=
  elements_remains_of_step reads (listStep_remains first text)

theorem members_remains (budget : Nat) (first : Bool) (before : List (String × Value))
    (text : List Char) : Remains Prod.snd text (members read budget first before text) := by
  induction budget generalizing first before text with
  | zero => exact fun _ => List.nil_suffix
  | succ budget ih =>
    have step := objectStep_remains first text
    unfold members
    split
    · rename_i failed
      rwa [failed] at step
    · rename_i closed
      rwa [closed] at step
    · rename_i name key found
      rw [found] at step
      have named := (colon_remains key).mono step
      split
      · rename_i failed
        rwa [failed] at named
      · rename_i start colonRead
        rw [colonRead] at named
        have value := (reads start).mono named
        split
        · rename_i failed
          rwa [failed] at value
        · rename_i taken
          rw [taken] at value
          exact (ih _ _ _).mono value

end Loops

/-- A reader fails in the text in front of it, unless for its own limits. -/
theorem value_remains (levels : Nat) (text : List Char) :
    Remains Prod.snd text (value levels text) := by
  induction levels generalizing text with
  | zero =>
    unfold value
    split
    · intro grammar
      cases grammar
    · intro grammar
      cases grammar
    · exact (scalar_remains _).mono (skipBlanks_suffix text)
  | succ levels ih =>
    unfold value
    split
    · rename_i found
      refine Remains.mono (Remains.map (elements_remains ih _ _ _ _) ?_)
        (suffix_of_skipBlanks found)
      exact fun _ => rfl
    · rename_i found
      refine Remains.mono (Remains.map (members_remains ih _ _ _ _) ?_) (suffix_of_skipBlanks found)
      exact fun _ => rfl
    · exact (scalar_remains _).mono (skipBlanks_suffix text)

theorem scalar_shortens {text rest : List Char} {v : Value} (read : scalar text = .ok (v, rest)) :
    rest.length < text.length := by
  have literal {w : Value} {c : Char} {letters after : List Char}
      (read : (word letters after).map (w, ·) = .ok (v, rest)) :
      rest.length < (c :: after).length := by
    obtain ⟨_, found, same⟩ := map_eq_ok_iff.mp read
    cases same
    rw [word_sound found, List.length_cons, List.length_append]
    omega
  revert read
  fun_cases scalar text
  all_goals intro read
  case case2 => exact literal read
  case case3 => exact literal read
  case case4 => exact literal read
  case case5 after _ _ _ =>
    obtain ⟨⟨s, _⟩, found, same⟩ := map_eq_ok_iff.mp read
    cases same
    have body := stringBody_remains [] after
    rw [found] at body
    exact Nat.lt_succ_of_le (List.IsSuffix.length_le body)
  case case6 =>
    obtain ⟨⟨numeral, after⟩, scanned, read⟩ := bind_eq_ok_iff.mp read
    obtain ⟨_, _, same⟩ := bind_eq_ok_iff.mp read
    cases same
    exact (Numeral.scan_sound scanned).shortens
  all_goals cases read

/-- Every value takes at least one character. -/
theorem value_shortens {levels : Nat} {text rest : List Char} {v : Value}
    (read : value levels text = .ok (v, rest)) : rest.length < text.length := by
  have blanks := length_skipBlanks text
  unfold value at read
  split at read
  · rename_i inner found
    rw [found, List.length_cons] at blanks
    cases levels with
    | zero => cases read
    | succ levels =>
      obtain ⟨⟨vs, _⟩, listed, same⟩ := map_eq_ok_iff.mp read
      cases same
      have inside := elements_remains (value_remains levels) inner.length true [] inner
      rw [listed] at inside
      have shorter : rest.length ≤ inner.length := List.IsSuffix.length_le inside
      omega
  · rename_i inner found
    rw [found, List.length_cons] at blanks
    cases levels with
    | zero => cases read
    | succ levels =>
      obtain ⟨⟨ms, _⟩, listed, same⟩ := map_eq_ok_iff.mp read
      cases same
      have inside := members_remains (value_remains levels) inner.length true [] inner
      rw [listed] at inside
      have shorter : rest.length ≤ inner.length := List.IsSuffix.length_le inside
      omega
  · exact Nat.lt_of_lt_of_le (scalar_shortens read) blanks

end Caju.Json
