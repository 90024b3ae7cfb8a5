import Caju.Proofs.JsonStretches

/-! The written forms of JSON values. A form keeps every word of a text as it is spelled and
leaves out nothing but the blanks between them, so texts of one form differ in blanks alone.
Main statements: the texts within the limits of the reader are those that spell a form
(`withinLimits_iff_spelled`), and what is read from them is the value of the form, whatever the
blanks (`Form.document_of_spelled`). -/

namespace Caju.Json

/-- A value as it is written, without blanks: a word, or what stands between two brackets. The
elements of a list have empty keys. -/
inductive Form where
  | word (letters : List Char)
  | group (bracket : Bracket) (entries : List (List Char × Form))

/-- What a part of a text is the writing of. -/
abbrev Part.Content : Part → Type
  | .value | .named => Form
  | .entry _ => List Char × Form
  | .inside _ | .more _ => List (List Char × Form)

/-- The part stands between `text` and `rest`, with blanks in front of its words. -/
inductive Spelling (limits : Limits) :
    Nat → (part : Part) → part.Content → List Char → List Char → Prop
  | blank {depth : Nat} {part : Part} {content : part.Content} {c : Char} {text rest : List Char}
    (space : isBlank c = true) (spelling : Spelling limits depth part content text rest) :
    Spelling limits depth part content (c :: text) rest
  | literal {depth : Nat} {letters : List Char} (known : letters ∈ literals) (rest : List Char) :
    Spelling limits depth .value (.word letters) (letters ++ rest) rest
  | string {depth : Nat} {letters rest : List Char}
    (spelled : limits.string (letters ++ rest) rest) :
    Spelling limits depth .value (.word ('"' :: letters)) ('"' :: letters ++ rest) rest
  | number {depth : Nat} {letters rest : List Char}
    (written : limits.number (letters ++ rest) rest) :
    Spelling limits depth .value (.word letters) (letters ++ rest) rest
  | bracket {depth : Nat} {bracket : Bracket} {entries : List (List Char × Form)}
    {text rest : List Char} (room : limits.nests depth)
    (inside : Spelling limits (depth + 1) (.inside bracket) entries text rest) :
    Spelling limits depth .value (.group bracket entries) (bracket.opening :: text) rest
  | empty {depth : Nat} {bracket : Bracket} (rest : List Char) :
    Spelling limits depth (.inside bracket) [] (bracket.closing :: rest) rest
  | first {depth : Nat} {bracket : Bracket} {entry : List Char × Form}
    {entries : List (List Char × Form)} {text middle rest : List Char}
    (head : Spelling limits depth (.entry bracket) entry text middle)
    (more : Spelling limits depth (.more bracket) entries middle rest) :
    Spelling limits depth (.inside bracket) (entry :: entries) text rest
  | close {depth : Nat} {bracket : Bracket} (rest : List Char) :
    Spelling limits depth (.more bracket) [] (bracket.closing :: rest) rest
  | next {depth : Nat} {bracket : Bracket} {entry : List Char × Form}
    {entries : List (List Char × Form)} {text middle rest : List Char}
    (head : Spelling limits depth (.entry bracket) entry text middle)
    (more : Spelling limits depth (.more bracket) entries middle rest) :
    Spelling limits depth (.more bracket) (entry :: entries) (',' :: text) rest
  | element {depth : Nat} {form : Form} {text rest : List Char}
    (value : Spelling limits depth .value form text rest) :
    Spelling limits depth (.entry .list) ([], form) text rest
  | member {depth : Nat} {form : Form} {letters middle rest : List Char}
    (key : limits.string (letters ++ middle) middle)
    (named : Spelling limits depth .named form middle rest) :
    Spelling limits depth (.entry .object) ('"' :: letters, form) ('"' :: letters ++ middle) rest
  | named {depth : Nat} {form : Form} {text rest : List Char}
    (value : Spelling limits depth .value form text rest) :
    Spelling limits depth .named form (':' :: text) rest

/-- The text spells the form within the limits of the reader, with nothing but blanks around it. -/
def Form.SpelledBy (form : Form) (text : List Char) : Prop :=
  ∃ rest, Spelling .reader 0 .value form text rest ∧ ∀ c ∈ rest, isBlank c = true

/-! ### Forms and texts -/

theorem Spelling.phrase {limits : Limits} {depth : Nat} {part : Part} {content : part.Content}
    {text rest : List Char} (spelling : Spelling limits depth part content text rest) :
    Phrase limits depth part text rest := by
  induction spelling with
  | blank space _ ih => exact .blank space ih
  | literal known rest => exact .literal known rest
  | string spelled => exact .string spelled
  | number written => exact .number written
  | bracket room _ ih => exact .bracket room ih
  | empty rest => exact .empty rest
  | first _ _ head more => exact .first head more
  | close rest => exact .close rest
  | next _ _ head more => exact .next head more
  | element _ ih => exact .element ih
  | member key _ ih => exact .member key ih
  | named _ ih => exact .named ih

theorem Phrase.spelling {depth : Nat} {part : Part} {text rest : List Char}
    (phrase : Phrase .reader depth part text rest) :
    ∃ content, Spelling .reader depth part content text rest := by
  induction phrase with
  | blank space _ ih =>
    obtain ⟨content, spelling⟩ := ih
    exact ⟨content, .blank space spelling⟩
  | literal known rest => exact ⟨_, .literal known rest⟩
  | string spelled =>
    obtain ⟨letters, rfl, _⟩ := StringText.stretch spelled
    exact ⟨_, .string spelled⟩
  | number written =>
    obtain ⟨numeral, spelled, inRange⟩ := written
    obtain ⟨letters, rfl, _⟩ := spelled.stretch
    exact ⟨_, .number ⟨numeral, spelled, inRange⟩⟩
  | bracket room _ ih =>
    obtain ⟨entries, inside⟩ := ih
    exact ⟨_, .bracket room inside⟩
  | empty rest => exact ⟨_, .empty rest⟩
  | first _ _ head more =>
    obtain ⟨entry, head⟩ := head
    obtain ⟨entries, more⟩ := more
    exact ⟨_, .first head more⟩
  | close rest => exact ⟨_, .close rest⟩
  | next _ _ head more =>
    obtain ⟨entry, head⟩ := head
    obtain ⟨entries, more⟩ := more
    exact ⟨_, .next head more⟩
  | element _ ih =>
    obtain ⟨form, value⟩ := ih
    exact ⟨_, .element value⟩
  | member key _ ih =>
    obtain ⟨form, named⟩ := ih
    obtain ⟨letters, rfl, _⟩ := StringText.stretch key
    exact ⟨_, .member key named⟩
  | named _ ih =>
    obtain ⟨form, value⟩ := ih
    exact ⟨_, .named value⟩

theorem withinLimits_iff_spelled {text : List Char} :
    WithinLimits text ↔ ∃ form : Form, form.SpelledBy text := by
  constructor
  · rintro ⟨rest, phrase, blanks⟩
    obtain ⟨form, spelling⟩ := phrase.spelling
    exact ⟨form, rest, spelling, blanks⟩
  · rintro ⟨form, rest, spelling, blanks⟩
    exact ⟨rest, spelling.phrase, blanks⟩

/-! ### Forms and values -/

/-- The value that a word is read as. -/
def wordValue (letters : List Char) : Value :=
  match scalar letters with
  | .ok (v, _) => v
  | .error _ => .null

/-- The name that a key is read as. -/
def keyName (letters : List Char) : String :=
  match wordValue letters with
  | .string name => name
  | _ => ""

mutual

/-- The value that a form is read as. -/
def Form.value : Form → Value
  | .word letters => wordValue letters
  | .group .list entries => .list (Form.elements entries)
  | .group .object entries => .object (Form.members entries)

def Form.elements : List (List Char × Form) → List Value
  | [] => []
  | (_, form) :: rest => form.value :: Form.elements rest

def Form.members : List (List Char × Form) → List (String × Value)
  | [] => []
  | (key, form) :: rest => (keyName key, form.value) :: Form.members rest

end

theorem wordValue_of_scalar {letters rest : List Char} {v : Value}
    (read : scalar (letters ++ rest) = .ok (v, rest)) : wordValue letters = v := by
  obtain ⟨stretch, same, onwards⟩ := scalar_stretch read
  have alone : stretch = letters := (List.append_cancel_right same).symm
  have ended : Halts [] := by simp [Halts]
  have read := onwards [] ended
  rw [List.append_nil, alone] at read
  simp [wordValue, read]

theorem keyName_of_stringBody {letters rest : List Char} {name : String}
    (read : stringBody [] (letters ++ rest) = .ok (name, rest)) :
    keyName ('"' :: letters) = name := by
  have scanned : scalar ('"' :: letters ++ rest) = .ok (.string name, rest) :=
    congrArg (Except.map _) read
  rw [keyName, wordValue_of_scalar scanned]

/-- How a part is read where `depth` brackets are open. -/
def Reads (depth : Nat) : (part : Part) → part.Content → List Char → List Char → Prop
  | .value, form, text, rest =>
    Halts rest → value (maxNesting - depth) text = .ok (form.value, rest)
  | .named, form, text, rest => ∃ start, skipBlanks text = ':' :: start ∧
    (Halts rest → value (maxNesting - depth) start = .ok (form.value, rest))
  | .entry .list, entry, text, rest =>
    Halts rest → value (maxNesting - depth) text = .ok (entry.2.value, rest)
  | .entry .object, entry, text, rest => ∃ key start,
    objectKey (skipBlanks text) = .ok (.key (keyName entry.1) key) ∧ colon key = .ok start ∧
    (Halts rest → value (maxNesting - depth) start = .ok (entry.2.value, rest))
  | .inside .list, entries, text, rest => ∀ budget before, text.length ≤ budget →
    elements (value (maxNesting - depth)) budget true before text =
      .ok (before.reverse ++ Form.elements entries, rest)
  | .inside .object, entries, text, rest => ∀ budget before, text.length ≤ budget →
    members (value (maxNesting - depth)) budget true before text =
      .ok (before.reverse ++ Form.members entries, rest)
  | .more .list, entries, text, rest => ∀ budget before, text.length ≤ budget →
    elements (value (maxNesting - depth)) budget false before text =
      .ok (before.reverse ++ Form.elements entries, rest)
  | .more .object, entries, text, rest => ∀ budget before, text.length ≤ budget →
    members (value (maxNesting - depth)) budget false before text =
      .ok (before.reverse ++ Form.members entries, rest)

theorem elements_blank {read : List Char → Scan Value} {budget : Nat} {first : Bool}
    {before : List Value} {c : Char} {text : List Char} (space : isBlank c = true) :
    elements read budget first before (c :: text) = elements read budget first before text := by
  cases budget with
  | zero => rfl
  | succ budget => simp only [elements, listStep, skipBlanks_blank space]

theorem members_blank {read : List Char → Scan Value} {budget : Nat} {first : Bool}
    {before : List (String × Value)} {c : Char} {text : List Char} (space : isBlank c = true) :
    members read budget first before (c :: text) = members read budget first before text := by
  cases budget with
  | zero => rfl
  | succ budget => simp only [members, objectStep, skipBlanks_blank space]

theorem Reads.blank {depth : Nat} {part : Part} {content : part.Content} {c : Char}
    {text rest : List Char} (space : isBlank c = true)
    (reads : Reads depth part content text rest) :
    Reads depth part content (c :: text) rest := by
  have skipped := skipBlanks_blank space text
  have same (levels : Nat) : value levels (c :: text) = value levels text := by
    rw [← value_skipBlanks, skipped, value_skipBlanks]
  cases part with
  | value =>
    intro halts
    rw [same]
    exact reads halts
  | named =>
    obtain ⟨start, found, onwards⟩ := reads
    exact ⟨start, skipped.trans found, onwards⟩
  | entry bracket =>
    cases bracket with
    | list =>
      intro halts
      rw [same]
      exact reads halts
    | object =>
      obtain ⟨key, start, keyed, onwards⟩ := reads
      exact ⟨key, start, (congrArg objectKey skipped).trans keyed, onwards⟩
  | inside bracket | more bracket =>
    cases bracket with
    | list =>
      intro budget before enough
      rw [elements_blank space]
      exact reads budget before (Nat.le_of_succ_le enough)
    | object =>
      intro budget before enough
      rw [members_blank space]
      exact reads budget before (Nat.le_of_succ_le enough)

/-- A word is read as its value if the scanner takes it. -/
theorem reads_word {depth : Nat} {c : Char} {letters rest : List Char} (visible : isBlank c = false)
    (other : ∀ bracket : Bracket, c ≠ bracket.opening)
    (scanned : Halts rest → ∃ v, scalar (c :: letters ++ rest) = .ok (v, rest)) :
    Reads depth .value (.word (c :: letters)) (c :: letters ++ rest) rest := by
  intro halts
  obtain ⟨v, read⟩ := scanned halts
  rw [Form.value, wordValue_of_scalar read, List.cons_append,
    value_scalar visible (other .list) (other .object)]
  exact read

theorem reads_number {depth : Nat} {letters rest : List Char}
    (written : Limits.reader.number (letters ++ rest) rest) :
    Reads depth .value (.word letters) (letters ++ rest) rest := by
  obtain ⟨numeral, written, inRange⟩ := written
  obtain ⟨c, after, begun, first⟩ := written.begins
  have shorter := written.shortens
  cases letters with
  | nil => simp at shorter
  | cons d letters =>
    obtain ⟨rfl, rfl⟩ := List.cons.inj begun
    refine reads_word first.not_blank (fun bracket => ?_) fun halts => ?_
    · cases bracket <;> exact first.ne (by decide) rfl
    · obtain ⟨v, known⟩ := inRange rest
      refine ⟨v, ?_⟩
      have scanned := Numeral.scan_complete .endOfValue written halts
      rw [List.cons_append] at scanned ⊢
      rw [scalar_number first, Json.number, scanned]
      exact congrArg (Except.map (·, rest)) known

/-- What stands inside brackets is read one level further down. -/
theorem Reads.bracket {depth : Nat} {bracket : Bracket} {entries : List (List Char × Form)}
    {text rest : List Char} (inside : Reads (depth + 1) (.inside bracket) entries text rest)
    (room : Limits.reader.nests depth) :
    Reads depth .value (.group bracket entries) (bracket.opening :: text) rest := by
  intro _
  have levels : maxNesting - depth = maxNesting - (depth + 1) + 1 := by
    have : depth < maxNesting := room
    omega
  rw [levels]
  cases bracket with
  | list =>
    have read := inside text.length [] (Nat.le_refl _)
    exact (value_list _ text).trans (congrArg (Except.map _) read)
  | object =>
    have read := inside text.length [] (Nat.le_refl _)
    exact (value_object _ text).trans (congrArg (Except.map _) read)

section Entries

variable {depth : Nat} {first : Bool} {entry : List Char × Form}
  {entries : List (List Char × Form)} {c : Char} {after start text middle rest : List Char}

/-- An element, and then those behind it. A comma may stand in front. -/
theorem Reads.elements (entered : Reads depth (.entry .list) entry text middle)
    (step : listStep first start = .ok (.element (c :: after)))
    (found : skipBlanks text = c :: after)
    (shorter : middle.length < start.length) (halts : Halts middle)
    (onwards : Reads depth (.more .list) entries middle rest) (budget : Nat) (before : List Value)
    (enough : start.length ≤ budget) :
    elements (value (maxNesting - depth)) budget first before start =
      .ok (before.reverse ++ Form.elements (entry :: entries), rest) := by
  obtain ⟨budget, rfl⟩ := Nat.exists_eq_add_one.mpr (show 0 < budget by omega)
  have taken := entered halts
  rw [← value_skipBlanks, found] at taken
  rw [elements_enter step taken]
  simpa [Form.elements] using onwards budget (entry.2.value :: before) (by omega)

/-- A member, and then those behind it. A comma may stand in front. -/
theorem Reads.members (entered : Reads depth (.entry .object) entry text middle)
    (step : objectStep first start = objectKey (c :: after)) (found : skipBlanks text = c :: after)
    (shorter : middle.length < start.length) (halts : Halts middle)
    (onwards : Reads depth (.more .object) entries middle rest) (budget : Nat)
    (before : List (String × Value)) (enough : start.length ≤ budget) :
    members (value (maxNesting - depth)) budget first before start =
      .ok (before.reverse ++ Form.members (entry :: entries), rest) := by
  obtain ⟨budget, rfl⟩ := Nat.exists_eq_add_one.mpr (show 0 < budget by omega)
  obtain ⟨key, value, keyed, colon, taken⟩ := entered
  rw [found] at keyed
  rw [members_enter (step.trans keyed) colon (taken halts)]
  simpa [Form.members] using onwards budget ((keyName entry.1, entry.2.value) :: before) (by omega)

end Entries

theorem Spelling.reads {depth : Nat} {part : Part} {content : part.Content}
    {text rest : List Char} (spelling : Spelling .reader depth part content text rest) :
    Reads depth part content text rest := by
  induction spelling with
  | blank space _ ih => exact ih.blank space
  | literal known rest =>
    obtain ⟨v, scanned⟩ := scalar_literal _ known
    have scanned := scanned rest
    obtain ⟨c, after, rfl, visible, other⟩ := literals_start _ known
    exact reads_word visible (fun bracket => (other bracket).1) fun _ => ⟨v, scanned⟩
  | string spelled =>
    refine reads_word rfl (fun bracket => by cases bracket <;> decide) fun _ => ?_
    obtain ⟨s, read⟩ := stringBody_complete spelled []
    exact ⟨.string s, congrArg (Except.map _) read⟩
  | number written => exact reads_number written
  | bracket room _ ih => exact ih.bracket room
  | @empty _ bracket rest | @close _ bracket rest =>
    cases bracket with
    | list =>
      intro budget before enough
      obtain ⟨budget, rfl⟩ := Nat.exists_eq_add_one.mpr (Nat.zero_lt_of_lt enough)
      rw [Form.elements, List.append_nil]
      rfl
    | object =>
      intro budget before enough
      obtain ⟨budget, rfl⟩ := Nat.exists_eq_add_one.mpr (Nat.zero_lt_of_lt enough)
      rw [Form.members, List.append_nil]
      rfl
  | @first _ bracket _ _ _ _ _ head more entered onwards =>
    obtain ⟨c, after, found, other⟩ := head.phrase.begins trivial
    have shorter := head.phrase.shortens
    have halts := more.phrase.halts
    cases bracket with
    | list =>
      exact entered.elements (listStep_enters found (other .list)).1 found shorter halts onwards
    | object =>
      exact entered.members (objectStep_enters found (other .object)).1 found shorter halts onwards
  | @next _ bracket _ _ _ _ _ head more entered onwards =>
    obtain ⟨c, after, found, other⟩ := head.phrase.begins trivial
    have shorter := Nat.lt_succ_of_lt head.phrase.shortens
    have halts := more.phrase.halts
    cases bracket with
    | list =>
      exact entered.elements (listStep_enters found (other .list)).2 found shorter halts onwards
    | object =>
      exact entered.members (objectStep_enters found (other .object)).2 found shorter halts onwards
  | element _ ih => exact ih
  | @member _ _ letters middle _ key _ ih =>
    obtain ⟨start, found, onwards⟩ := ih
    obtain ⟨name, read⟩ := stringBody_complete key []
    refine ⟨middle, start, ?_, colon_complete found, onwards⟩
    rw [List.cons_append, skipBlanks_cons rfl, objectKey, read, keyName_of_stringBody read]
    rfl
  | named _ ih => exact ⟨_, skipBlanks_cons rfl _, ih⟩

/-- A text that spells a form is read to its end, as the value of the form. -/
theorem Form.document_of_spelled {form : Form} {text : List Char} (spelled : form.SpelledBy text) :
    document text = .ok form.value := by
  obtain ⟨rest, spelling, blanks⟩ := spelled
  have read : Json.value maxNesting text = .ok (form.value, rest) :=
    spelling.reads (halts_of_blanks blanks)
  simp only [document, read, finish_eq_ok_iff.mpr blanks, bind, Except.bind, pure, Except.pure]

/-- Every text within the limits is read to its end. -/
theorem document_of_withinLimits {text : List Char} (within : WithinLimits text) :
    ∃ v, document text = .ok v := by
  obtain ⟨form, spelled⟩ := withinLimits_iff_spelled.mp within
  exact ⟨form.value, form.document_of_spelled spelled⟩

/-! ### Names without escapes -/

/-- A name between quotes. -/
def quoted (name : String) : List Char := '"' :: (name.toList ++ ['"'])

/-- A character that stands for itself in a string. -/
def isLiteral (c : Char) : Bool := ' ' ≤ c && c != '"' && c != '\\'

theorem stringText_literal {letters : List Char} (literal : letters.all isLiteral = true)
    (rest : List Char) : StringText PairedEscape ((letters ++ ['"']) ++ rest) rest := by
  induction letters with
  | nil => exact .close rest
  | cons c letters ih =>
    rw [List.all_cons, Bool.and_eq_true] at literal
    obtain ⟨here, others⟩ := literal
    obtain ⟨⟨printable, quote⟩, backslash⟩ : (' ' ≤ c ∧ c ≠ '"') ∧ c ≠ '\\' := by
      simpa [isLiteral] using here
    exact .plain (Char.not_lt.mpr printable) quote backslash (ih others)

theorem Spelling.quoted {depth : Nat} {name : String} (literal : name.toList.all isLiteral = true)
    (rest : List Char) :
    Spelling .reader depth .value (.word (quoted name)) (quoted name ++ rest) rest :=
  .string (stringText_literal literal rest)

theorem Spelling.member_quoted {depth : Nat} {name : String} {form : Form}
    {text rest : List Char} (literal : name.toList.all isLiteral = true)
    (value : Spelling .reader depth .value form text rest) :
    Spelling .reader depth (.entry .object) (Json.quoted name, form)
      (Json.quoted name ++ ':' :: text) rest :=
  .member (stringText_literal literal _) (.named value)

end Caju.Json
