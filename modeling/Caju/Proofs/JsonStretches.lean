import Caju.Proofs.JsonTracking

/-! What a scanner reads is a stretch of the text, whatever comes behind it. A number alone
has to see what follows, since it ends only where a character cannot belong to it. Main
statements: a value and a value passed over would be read from the same stretch in any other
text (`value_stretch`, `skim_stretch`). -/

namespace Caju.Json

/-- The relation holds between the two ends of a stretch of the text, whatever follows it. -/
def Stretch (holds : List Char → List Char → Prop) (text rest : List Char) : Prop :=
  ∃ stretch, text = stretch ++ rest ∧ ∀ rest', holds (stretch ++ rest') rest'

section Stretch

variable {P Q : List Char → List Char → Prop} {text middle rest : List Char}

theorem Stretch.length_le (stretch : Stretch P text rest) : rest.length ≤ text.length := by
  obtain ⟨front, rfl, _⟩ := stretch
  rw [List.length_append]
  omega

theorem Stretch.mono (stretch : Stretch P text rest) (weaker : ∀ t r, P t r → Q t r) :
    Stretch Q text rest := by
  obtain ⟨front, same, holds⟩ := stretch
  exact ⟨front, same, fun rest' => weaker _ _ (holds rest')⟩

theorem Stretch.andThen (first : Stretch P text middle) (second : Stretch Q middle rest) :
    Stretch (fun t r => ∃ m, P t m ∧ Q m r) text rest := by
  obtain ⟨front, rfl, holds⟩ := first
  obtain ⟨back, rfl, onwards⟩ := second
  refine ⟨front ++ back, by rw [List.append_assoc], fun rest' => ⟨back ++ rest', ?_, onwards rest'⟩⟩
  rw [List.append_assoc]
  exact holds _

theorem Stretch.cons (c : Char) (rest : List Char) :
    Stretch (fun t r => t = c :: r) (c :: rest) rest :=
  ⟨[c], rfl, fun _ => rfl⟩

/-- A stretch with something in front of it. -/
theorem Stretch.after (front : List Char) (stretch : Stretch P text rest)
    (join : ∀ t r, P t r → Q (front ++ t) r) : Stretch Q (front ++ text) rest := by
  obtain ⟨back, rfl, holds⟩ := stretch
  refine ⟨front ++ back, by rw [List.append_assoc], fun rest' => ?_⟩
  rw [List.append_assoc]
  exact join _ _ (holds rest')

/-- What holds whatever follows a stretch holds whatever follows a longer one. -/
theorem Stretch.extend {p : List Char → Prop} (stretch : Stretch (fun t _ => p t) text middle)
    (suffix : rest <:+ middle) : Stretch (fun t _ => p t) text rest := by
  obtain ⟨front, rfl, holds⟩ := stretch
  obtain ⟨more, rfl⟩ := suffix
  refine ⟨front ++ more, by rw [List.append_assoc], fun rest' => ?_⟩
  rw [List.append_assoc]
  exact holds _

/-- A stretch that is not empty keeps the first character. -/
theorem Stretch.sameHead (stretch : Stretch P text rest) (shorter : rest.length < text.length) :
    Stretch (fun t r => t.head? = text.head? ∧ P t r) text rest := by
  obtain ⟨front, rfl, holds⟩ := stretch
  refine ⟨front, rfl, fun rest' => ⟨?_, holds rest'⟩⟩
  cases front with
  | nil => exact absurd shorter (Nat.lt_irrefl _)
  | cons c front => rfl

end Stretch

/-! ### Words -/

/-- Blanks go on up to the first character that is none. -/
theorem blanks_stretch {text rest : List Char} {c : Char} (found : skipBlanks text = c :: rest) :
    Stretch (fun t r => r.head? = some c → skipBlanks t = r) text (c :: rest) := by
  refine ⟨text.takeWhile isBlank, ?_, fun rest' head => ?_⟩
  · rw [← found]
    exact List.takeWhile_append_dropWhile.symm
  · have visible : ¬isBlank c = true := by
      have stops := List.head?_dropWhile_not isBlank text
      have same : text.dropWhile isBlank = c :: rest := found
      simpa [same] using stops
    have blanks : ∀ d ∈ text.takeWhile isBlank, isBlank d = true :=
      fun d member => List.mem_takeWhile_imp member
    obtain ⟨tail, rfl⟩ := List.head?_eq_some_iff.mp head
    exact (List.dropWhile_append_of_pos blanks).trans (List.dropWhile_cons_of_neg visible)

theorem skipBlanks_stretch {text rest : List Char} {c : Char}
    (found : skipBlanks text = c :: rest) :
    Stretch (fun t r => skipBlanks t = c :: r) text rest := by
  refine ((blanks_stretch found).andThen (.cons c rest)).mono ?_
  intro t r holds
  rcases holds with ⟨m, blanks, same⟩
  rw [blanks (by rw [same]; rfl), same]

theorem stringBody_stretch {before text rest : List Char} {s : String}
    (read : stringBody before text = .ok (s, rest)) :
    Stretch (fun t r => stringBody before t = .ok (s, r)) text rest := by
  fun_induction stringBody before text
  case case2 =>
    cases read
    exact (Stretch.cons '"' _).mono fun t r same => by rw [same, stringBody]
  case case8 first _ isLeading _ _ _ _ _ _ second isTrailing ih =>
    exact (ih read).after ['\\', 'u', _, _, _, _, '\\', 'u', _, _, _, _] fun t r read =>
      (stringBody_pair first isLeading second isTrailing _ t).trans read
  case case13 known noTrailing noLeading ih =>
    exact (ih read).after ['\\', 'u', _, _, _, _] fun t r read =>
      (stringBody_unit known (Bool.not_eq_true _ ▸ noLeading) (Bool.not_eq_true _ ▸ noTrailing)
        _ t).trans read
  case case16 known ih =>
    exact (ih read).after ['\\', _] fun t r read => (stringBody_short known _ t).trans read
  case case19 quote _ _ notLast notEscape printable ih =>
    have backslash := not_backslash notLast notEscape
    exact (ih read).after [_] fun t r read =>
      (stringBody_character quote backslash printable _ t).trans read
  all_goals cases read

theorem StringText.stretch {escaped : List Char → Prop} {text rest : List Char}
    (spelled : StringText escaped text rest) : Stretch (StringText escaped) text rest := by
  induction spelled with
  | close rest => exact (Stretch.cons '"' rest).mono fun t r same => same ▸ .close r
  | plain printable quote backslash _ ih =>
    exact ih.after [_] fun t r more => .plain printable quote backslash more
  | short known _ ih => exact ih.after ['\\', _] fun t r more => .short known more
  | unit known _ ih => exact ih.after _ fun t r more => .unit known more

theorem Numeral.Written.stretch {numeral : Numeral} {text rest : List Char}
    (written : numeral.Written text rest) : Stretch numeral.Written text rest := by
  obtain ⟨proper, power, spelled, rfl⟩ := written
  refine ⟨numeral.sign ++ (numeral.whole ++ (numeral.point ++ power)), ?_, fun rest' => ?_⟩
  · simp only [List.append_assoc]
  · exact ⟨proper, power, spelled, by simp only [List.append_assoc]⟩

/-- A numeral that has a value has it whatever follows. -/
theorem Numeral.value_anywhere {numeral : Numeral} {rest : List Char} {v : Value}
    (known : numeral.value rest = .ok v) (rest' : List Char) : numeral.value rest' = .ok v := by
  unfold Numeral.value at known ⊢
  dsimp only at known ⊢
  split at known
  · rename_i plain
    rw [if_pos plain]
    exact known
  · rename_i scaled
    rw [if_neg scaled]
    split at known
    · rename_i written
      split at known
      · cases known
      · rename_i small
        rw [if_neg small]
        exact known
    · split at known
      · exact known
      · cases known

theorem number_stretch {text rest : List Char} {v : Value} (read : number text = .ok (v, rest)) :
    Stretch (fun t r => Halts r → number t = .ok (v, r)) text rest := by
  obtain ⟨⟨numeral, _⟩, scanned, read⟩ := bind_eq_ok_iff.mp read
  obtain ⟨_, known, same⟩ := bind_eq_ok_iff.mp read
  cases same
  refine (Numeral.scan_sound scanned).stretch.mono fun t r written halts => ?_
  rw [number, Numeral.scan_complete _ written halts]
  show (do return (← numeral.value r, r) : Except Failure (Value × List Char)) = .ok (v, r)
  rw [Numeral.value_anywhere known r]
  rfl

theorem scalar_stretch {text rest : List Char} {v : Value} (read : scalar text = .ok (v, rest)) :
    Stretch (fun t r => Halts r → scalar t = .ok (v, r)) text rest := by
  have literal {c : Char} {letters after : List Char} {v' : Value}
      (known : ∀ t, scalar (c :: t) = (word letters t).map (v', ·))
      (read : (word letters after).map (v', ·) = .ok (v, rest)) :
      Stretch (fun t r => Halts r → scalar t = .ok (v, r)) (c :: after) rest := by
    obtain ⟨_, read, same⟩ := map_eq_ok_iff.mp read
    cases same
    rw [word_sound read]
    refine ⟨c :: letters, rfl, fun rest' _ => ?_⟩
    rw [List.cons_append, known, word_append]
    rfl
  revert read
  fun_cases scalar text
  all_goals intro read
  case case2 => exact literal (fun t => rfl) read
  case case3 => exact literal (fun t => rfl) read
  case case4 => exact literal (fun t => rfl) read
  case case5 =>
    obtain ⟨⟨s, _⟩, read, same⟩ := map_eq_ok_iff.mp read
    cases same
    refine (stringBody_stretch read).after ['"'] fun t r read _ => ?_
    exact congrArg (Except.map _) read
  case case6 c after _ _ _ _ first =>
    have shorter := scalar_shortens ((scalar_number first after).trans read)
    refine ((number_stretch read).sameHead shorter).mono ?_
    intro t r holds halts
    rcases holds with ⟨head, read⟩
    obtain ⟨tail, rfl⟩ : ∃ tail, t = c :: tail := List.head?_eq_some_iff.mp head
    exact (scalar_number first tail).trans (read halts)
  all_goals cases read

/-! ### Lists and objects -/

section Steps

variable {first : Bool} {text rest : List Char}

theorem listStep_closed_stretch (step : listStep first text = .ok (.closed rest)) :
    Stretch (fun t r => listStep first t = .ok (.closed r)) text rest := by
  obtain ⟨_, found, same⟩ | same | ⟨_, _, same⟩ := listStep_cases step
  · cases same
    exact (skipBlanks_stretch found).mono fun t r found => by simp [listStep, found]
  · cases same
  · cases same

/-- An element is only looked at: its first character has to be the same. -/
theorem listStep_element_stretch {start : List Char}
    (step : listStep first text = .ok (.element start)) :
    Stretch (fun t r => r.head? = start.head? → listStep first t = .ok (.element r))
      text start := by
  revert step
  fun_cases listStep first text
  all_goals intro step
  case case3 c rest found notClosing isFirst =>
    cases step
    refine (blanks_stretch found).mono fun t r blanks head => ?_
    have same := blanks head
    obtain ⟨tail, rfl⟩ := List.head?_eq_some_iff.mp head
    simp [listStep, same, notClosing, isFirst]
  case case6 rest notFirst d after found notClosing comma _ =>
    cases step
    refine ((skipBlanks_stretch comma).andThen (blanks_stretch found)).mono ?_
    intro t r holds head
    rcases holds with ⟨m, comma, blanks⟩
    have same := blanks head
    obtain ⟨tail, rfl⟩ := List.head?_eq_some_iff.mp head
    simp [listStep, same, notClosing, comma, notFirst]
  all_goals cases step

theorem halts_of_skipBlanks {c : Char} (found : skipBlanks text = c :: rest)
    (halts : Halts (c :: rest)) : Halts text := by
  cases text with
  | nil => cases found
  | cons d text =>
    by_cases space : isBlank d = true
    · exact halts_of_blank space text
    · rw [skipBlanks_cons (Bool.not_eq_true _ ▸ space)] at found
      rwa [found]

theorem halts_cons {c : Char} (known : c = ',' ∨ c = '"' ∨ c = ']' ∨ c = '}') (rest : List Char) :
    Halts (c :: rest) := by
  rintro d same
  cases same
  rcases known with rfl | rfl | rfl | rfl <;> decide

theorem listStep_halts {next : ListStep} (step : listStep false text = .ok next) : Halts text := by
  revert step
  fun_cases listStep false text
  all_goals intro step
  case case2 found => exact halts_of_skipBlanks found (halts_cons (by decide) _)
  case case3 isFirst => cases isFirst
  case case6 comma _ => exact halts_of_skipBlanks comma (halts_cons (by decide) _)
  all_goals cases step

theorem objectStep_halts {next : ObjectStep} (step : objectStep first text = .ok next) :
    Halts text := by
  obtain ⟨_, found, _⟩ | keyed | ⟨_, found, _⟩ := objectStep_cases step
  · exact halts_of_skipBlanks found (halts_cons (by decide) _)
  · obtain ⟨_, _, _, found, _⟩ := objectKey_cases keyed
    exact halts_of_skipBlanks found (halts_cons (by decide) _)
  · exact halts_of_skipBlanks found (halts_cons (by decide) _)

theorem exists_budget {budget : Nat} (enough : text.length ≤ budget) (some : text ≠ []) :
    ∃ less, budget = less + 1 :=
  Nat.exists_eq_add_one.mpr (Nat.lt_of_lt_of_le (List.length_pos_of_ne_nil some) enough)

theorem listStep_ne_nil {next : ListStep} (step : listStep first text = .ok next) : text ≠ [] := by
  rintro rfl
  cases step

theorem objectStep_ne_nil {next : ObjectStep} (step : objectStep first text = .ok next) :
    text ≠ [] := by
  rintro rfl
  cases step

/-- The step with another text behind it. -/
def ObjectStep.onto (rest : List Char) : ObjectStep → ObjectStep
  | .key name _ => .key name rest
  | .closed _ => .closed rest

/-- A key with blanks in front of it. -/
theorem objectKey_stretch {next : ObjectStep} (keyed : objectKey (skipBlanks text) = .ok next) :
    Stretch (fun t r => ∃ body, skipBlanks t = '"' :: body ∧
      objectKey ('"' :: body) = .ok (next.onto r)) text next.behind := by
  obtain ⟨name, rest, after, found, read, rfl⟩ := objectKey_cases keyed
  refine ((skipBlanks_stretch found).andThen (stringBody_stretch read)).mono ?_
  intro t r holds
  rcases holds with ⟨body, found, read⟩
  refine ⟨body, found, ?_⟩
  simp only [objectKey, read]
  rfl

theorem objectStep_stretch {next : ObjectStep} (step : objectStep first text = .ok next) :
    Stretch (fun t r => objectStep first t = .ok (next.onto r)) text next.behind := by
  revert step
  fun_cases objectStep first text
  all_goals intro step
  case case2 rest found =>
    cases step
    refine (skipBlanks_stretch found).mono fun t r found => ?_
    simp [objectStep, found, ObjectStep.onto]
  case case3 c rest found notClosing isFirst =>
    rw [← found] at step
    refine (objectKey_stretch step).mono ?_
    intro t r holds
    rcases holds with ⟨body, found, keyed⟩
    simpa [objectStep, isFirst, found] using keyed
  case case6 rest notFirst d after found notClosing comma _ =>
    rw [← found] at step
    refine ((skipBlanks_stretch comma).andThen (objectKey_stretch step)).mono ?_
    intro t r holds
    rcases holds with ⟨m, comma, body, found, keyed⟩
    simpa [objectStep, notFirst, comma, found] using keyed
  all_goals cases step

theorem colon_stretch (read : colon text = .ok rest) :
    Stretch (fun t r => colon t = .ok r) text rest :=
  (skipBlanks_stretch (colon_sound read)).mono fun _ _ => colon_complete

theorem member_shortens {name : String} {key start : List Char}
    (step : objectStep first text = .ok (.key name key)) (colonRead : colon key = .ok start) :
    start.length < text.length := by
  have inside : key.length ≤ text.length := ((objectStep_remains first text).suffix step).length_le
  have blanks := length_skipBlanks key
  rw [colon_sound colonRead, List.length_cons] at blanks
  omega

end Steps

section Loops

variable {read : List Char → Except Failure (Value × List Char)} {levels budget : Nat}
  {first : Bool} {text rest : List Char}

theorem elements_halts {before vs : List Value}
    (listed : elements read budget false before text = .ok (vs, rest)) : Halts text := by
  cases budget with
  | zero => cases listed
  | succ budget =>
    rcases elements_cases listed with ⟨step, _⟩ | ⟨_, _, _, step, _⟩
    · exact listStep_halts step
    · exact listStep_halts step

theorem members_halts {before ms : List (String × Value)}
    (listed : members read budget false before text = .ok (ms, rest)) : Halts text := by
  cases budget with
  | zero => cases listed
  | succ budget =>
    rcases members_cases listed with ⟨step, _⟩ | ⟨_, _, _, _, _, step, _⟩
    · exact objectStep_halts step
    · exact objectStep_halts step

/-- The values with so many levels of brackets are stretches of a text, if nothing follows
them that belongs to them. -/
def ReadsStretches (levels : Nat) : Prop :=
  ∀ {text rest : List Char} {v : Value}, value levels text = .ok (v, rest) →
    Stretch (fun t r => Halts r → value levels t = .ok (v, r)) text rest

theorem elements_stretch {before vs : List Value} (reads : ReadsStretches levels)
    (listed : elements (value levels) budget first before text = .ok (vs, rest)) :
    Stretch (fun t r => ∀ budget', t.length ≤ budget' →
      elements (value levels) budget' first before t = .ok (vs, r)) text rest := by
  induction budget generalizing first before text with
  | zero => cases listed
  | succ budget ih =>
    rcases elements_cases listed with ⟨step, rfl⟩ | ⟨start, v, middle, step, valued, listed⟩
    · refine (listStep_closed_stretch step).mono fun t r step budget' enough => ?_
      obtain ⟨budget', rfl⟩ := exists_budget enough (listStep_ne_nil step)
      simp only [elements, step]
    · have element := (reads valued).sameHead (value_shortens valued)
      refine ((listStep_element_stretch step).andThen (element.andThen (ih listed))).mono ?_
      intro t r holds budget' enough
      rcases holds with ⟨s, step, m, ⟨head, valued⟩, later⟩
      have entered := step head
      have inside : s.length ≤ t.length := ((listStep_remains first t).suffix entered).length_le
      have taken := valued (elements_halts (later _ (Nat.le_refl _)))
      have shorter := value_shortens taken
      obtain ⟨budget', rfl⟩ := exists_budget enough (listStep_ne_nil entered)
      rw [elements_enter entered taken]
      exact later budget' (by omega)

theorem members_stretch {before ms : List (String × Value)} (reads : ReadsStretches levels)
    (listed : members (value levels) budget first before text = .ok (ms, rest)) :
    Stretch (fun t r => ∀ budget', t.length ≤ budget' →
      members (value levels) budget' first before t = .ok (ms, r)) text rest := by
  induction budget generalizing first before text with
  | zero => cases listed
  | succ budget ih =>
    rcases members_cases listed with ⟨step, rfl⟩ |
      ⟨name, key, start, v, middle, step, colonRead, valued, listed⟩
    · refine (objectStep_stretch step).mono fun t r step budget' enough => ?_
      obtain ⟨budget', rfl⟩ := exists_budget enough (objectStep_ne_nil step)
      simp only [members, step, ObjectStep.onto]
    · refine ((objectStep_stretch step).andThen ((colon_stretch colonRead).andThen
        ((reads valued).andThen (ih listed)))).mono ?_
      intro t r holds budget' enough
      rcases holds with ⟨k, step, start, colonRead, m, valued, later⟩
      have entered : objectStep first t = .ok (.key name k) := step
      have inside := member_shortens entered colonRead
      have taken := valued (members_halts (later _ (Nat.le_refl _)))
      have shorter := value_shortens taken
      obtain ⟨budget', rfl⟩ := exists_budget enough (objectStep_ne_nil entered)
      rw [members_enter entered colonRead taken]
      exact later budget' (by omega)

end Loops

theorem value_scalar_stretch {levels : Nat} {text rest : List Char} {v : Value}
    (opensNone : OpensNone text) (read : value levels text = .ok (v, rest)) :
    Stretch (fun t r => Halts r → value levels t = .ok (v, r)) text rest := by
  rw [value_opensNone opensNone] at read
  cases found : skipBlanks text with
  | nil =>
    rw [found] at read
    cases read
  | cons c after =>
    rw [found] at read
    have scanned := (scalar_stretch read).sameHead (scalar_shortens read)
    refine ((blanks_stretch found).andThen scanned).mono ?_
    intro t r holds halts
    rcases holds with ⟨m, blanks, head, scanned⟩
    have same := blanks head
    have opensNone' : OpensNone t := by
      intro bracket tail opening
      rw [← same, opening] at head
      cases head
      exact opensNone bracket after found
    rw [value_opensNone opensNone', same]
    exact scanned halts

theorem value_stretch (levels : Nat) : ReadsStretches levels := by
  induction levels with
  | zero =>
    intro text rest v read
    rcases opensNone_or_opens text with opensNone | ⟨bracket, after, found⟩
    · exact value_scalar_stretch opensNone read
    · rw [← value_skipBlanks, found] at read
      cases bracket <;> cases read
  | succ levels ih =>
    intro text rest v read
    rcases opensNone_or_opens text with opensNone | ⟨bracket, after, found⟩
    · exact value_scalar_stretch opensNone read
    · rw [← value_skipBlanks, found] at read
      cases bracket with
      | list =>
        rw [Bracket.opening, value_list] at read
        obtain ⟨⟨vs, _⟩, listed, same⟩ := map_eq_ok_iff.mp read
        cases same
        refine ((skipBlanks_stretch found).andThen (elements_stretch ih listed)).mono ?_
        intro t r holds _
        rcases holds with ⟨m, found, listed⟩
        rw [← value_skipBlanks, found, Bracket.opening, value_list, listed _ (Nat.le_refl _)]
        rfl
      | object =>
        rw [Bracket.opening, value_object] at read
        obtain ⟨⟨ms, _⟩, listed, same⟩ := map_eq_ok_iff.mp read
        cases same
        refine ((skipBlanks_stretch found).andThen (members_stretch ih listed)).mono ?_
        intro t r holds _
        rcases holds with ⟨m, found, listed⟩
        rw [← value_skipBlanks, found, Bracket.opening, value_object, listed _ (Nat.le_refl _)]
        rfl

/-! ### Values passed over -/

theorem Phrase.stretch {depth : Nat} {part : Part} {text rest : List Char}
    (phrase : Phrase .none depth part text rest) :
    Stretch (Phrase .none depth part) text rest := by
  induction phrase with
  | blank space _ ih => exact ih.after [_] fun t r phrase => .blank space phrase
  | literal known rest => exact ⟨_, rfl, fun rest' => .literal known rest'⟩
  | string spelled =>
    exact (StringText.stretch spelled).after ['"'] fun t r spelled => .string spelled
  | number written =>
    obtain ⟨numeral, written⟩ := written
    exact written.stretch.mono fun t r written => .number ⟨numeral, written⟩
  | bracket room _ ih => exact ih.after [_] fun t r inside => .bracket room inside
  | @empty _ bracket rest =>
    exact (Stretch.cons bracket.closing rest).mono fun t r same => same ▸ .empty r
  | first _ _ entry more =>
    refine (entry.andThen more).mono ?_
    intro t r holds
    rcases holds with ⟨m, entry, more⟩
    exact .first entry more
  | @close _ bracket rest =>
    exact (Stretch.cons bracket.closing rest).mono fun t r same => same ▸ .close r
  | next _ _ entry more =>
    refine (entry.andThen more).after [','] ?_
    intro t r holds
    rcases holds with ⟨m, entry, more⟩
    exact .next entry more
  | element _ ih => exact ih.mono fun t r value => .element value
  | member key _ ih =>
    refine ((StringText.stretch key).andThen ih).after ['"'] ?_
    intro t r holds
    rcases holds with ⟨m, key, behind⟩
    exact .member key behind
  | named _ ih => exact ih.after [':'] fun t r value => .named value

theorem skim_stretch {text rest : List Char} (read : skim text = .ok rest) :
    Stretch (fun t r => Halts r → skim t = .ok r) text rest :=
  (skim_sound read).stretch.mono fun _ _ phrase halts => phrase.skims halts []

end Caju.Json
