import Caju.Proofs.JsonWords
import Mathlib.Data.List.DropRight

/-! The grammar of JSON texts, apart from any scanner: a relation between the two ends of a
stretch of text. Blanks may stand in front of every part. What a reader refuses beyond the
grammar is a parameter: which strings and numbers it takes, and how many brackets it opens. -/

namespace Caju.Json

/-! ### Texts -/

/-- What a reader takes of the texts that the grammar admits: which strings, told from
behind their opening quote, which numbers, and whether another bracket may be opened
where some are open already. -/
structure Limits where
  string : List Char → List Char → Prop
  number : List Char → List Char → Prop
  nests : Nat → Prop
  string_shortens : ∀ {text rest}, string text rest → rest.length < text.length
  number_shortens : ∀ {text rest}, number text rest → rest.length < text.length
  number_begins : ∀ {text rest}, number text rest → ∃ c after, text = c :: after ∧ BeginsNumber c

/-- The grammar and nothing else. -/
def Limits.none : Limits where
  string := StringText AnyEscape
  number text rest := ∃ numeral : Numeral, numeral.Written text rest
  nests _ := True
  string_shortens := StringText.shortens
  number_shortens := fun ⟨_, written⟩ => written.shortens
  number_begins := fun ⟨_, written⟩ => written.begins

/-- Surrogates come in pairs, numbers have a value, and no more than `maxNesting` brackets
are open at a time. -/
def Limits.reader : Limits where
  string := StringText PairedEscape
  number text rest := ∃ numeral : Numeral, numeral.Written text rest ∧ numeral.InRange
  nests depth := depth < maxNesting
  string_shortens := StringText.shortens
  number_shortens := fun ⟨_, written, _⟩ => written.shortens
  number_begins := fun ⟨_, written, _⟩ => written.begins

def Bracket.opening : Bracket → Char
  | .list => '['
  | .object => '{'

/-- The parts of a text: a value, the colon and value behind a key, an element or a member,
all that follows an opening bracket, and all that follows a value inside one. -/
inductive Part where
  | value
  | named
  | entry (bracket : Bracket)
  | inside (bracket : Bracket)
  | more (bracket : Bracket)

def literals : List (List Char) :=
  [['n', 'u', 'l', 'l'], ['t', 'r', 'u', 'e'], ['f', 'a', 'l', 's', 'e']]

/-- The part stands between `text` and `rest`, where `depth` brackets are open. -/
inductive Phrase (limits : Limits) : Nat → Part → List Char → List Char → Prop
  | blank {depth : Nat} {part : Part} {c : Char} {text rest : List Char} (space : isBlank c = true)
    (phrase : Phrase limits depth part text rest) : Phrase limits depth part (c :: text) rest
  | literal {depth : Nat} {letters : List Char} (known : letters ∈ literals) (rest : List Char) :
    Phrase limits depth .value (letters ++ rest) rest
  | string {depth : Nat} {text rest : List Char} (spelled : limits.string text rest) :
    Phrase limits depth .value ('"' :: text) rest
  | number {depth : Nat} {text rest : List Char} (written : limits.number text rest) :
    Phrase limits depth .value text rest
  | bracket {depth : Nat} {bracket : Bracket} {text rest : List Char} (room : limits.nests depth)
    (inside : Phrase limits (depth + 1) (.inside bracket) text rest) :
    Phrase limits depth .value (bracket.opening :: text) rest
  | empty {depth : Nat} {bracket : Bracket} (rest : List Char) :
    Phrase limits depth (.inside bracket) (bracket.closing :: rest) rest
  | first {depth : Nat} {bracket : Bracket} {text middle rest : List Char}
    (entry : Phrase limits depth (.entry bracket) text middle)
    (more : Phrase limits depth (.more bracket) middle rest) :
    Phrase limits depth (.inside bracket) text rest
  | close {depth : Nat} {bracket : Bracket} (rest : List Char) :
    Phrase limits depth (.more bracket) (bracket.closing :: rest) rest
  | next {depth : Nat} {bracket : Bracket} {text middle rest : List Char}
    (entry : Phrase limits depth (.entry bracket) text middle)
    (more : Phrase limits depth (.more bracket) middle rest) :
    Phrase limits depth (.more bracket) (',' :: text) rest
  | element {depth : Nat} {text rest : List Char} (value : Phrase limits depth .value text rest) :
    Phrase limits depth (.entry .list) text rest
  | member {depth : Nat} {text middle rest : List Char} (key : limits.string text middle)
    (named : Phrase limits depth .named middle rest) :
    Phrase limits depth (.entry .object) ('"' :: text) rest
  | named {depth : Nat} {text rest : List Char} (value : Phrase limits depth .value text rest) :
    Phrase limits depth .named (':' :: text) rest

/-- The text is a value with nothing but blanks around it. -/
def Limits.Admits (limits : Limits) (text : List Char) : Prop :=
  ∃ rest, Phrase limits 0 .value text rest ∧ ∀ c ∈ rest, isBlank c = true

/-- The text is a JSON document. -/
def WellFormed (text : List Char) : Prop := Limits.none.Admits text

/-- The text is a JSON document that stays within the limits of the reader. -/
def WithinLimits (text : List Char) : Prop := Limits.reader.Admits text

theorem skipBlanks_skipBlanks (text : List Char) : skipBlanks (skipBlanks text) = skipBlanks text :=
  List.dropWhile_idempotent isBlank text

theorem skipBlanks_blank {c : Char} (space : isBlank c = true) (text : List Char) :
    skipBlanks (c :: text) = skipBlanks text :=
  List.dropWhile_cons_of_pos space

theorem length_skipBlanks (text : List Char) : (skipBlanks text).length ≤ text.length :=
  (List.dropWhile_suffix isBlank).length_le

theorem literals_start : ∀ letters ∈ literals, ∃ c after, letters = c :: after ∧
    isBlank c = false ∧ ∀ bracket : Bracket, c ≠ bracket.opening ∧ c ≠ bracket.closing := by
  simp only [literals, List.forall_mem_cons]
  refine ⟨⟨_, _, rfl, rfl, ?_⟩, ⟨_, _, rfl, rfl, ?_⟩, ⟨_, _, rfl, rfl, ?_⟩, List.forall_mem_nil _⟩
  all_goals
    intro bracket
    cases bracket <;> decide

section Phrases

variable {limits : Limits} {depth : Nat} {part : Part} {text rest : List Char}

theorem Phrase.of_skipBlanks (phrase : Phrase limits depth part (skipBlanks text) rest) :
    Phrase limits depth part text rest := by
  induction text with
  | nil => exact phrase
  | cons c text ih =>
    by_cases space : isBlank c = true
    · rw [skipBlanks, List.dropWhile_cons_of_pos space] at phrase
      exact .blank space (ih phrase)
    · rwa [skipBlanks, List.dropWhile_cons_of_neg space] at phrase

theorem Phrase.halts {bracket : Bracket} (phrase : Phrase limits depth (.more bracket) text rest) :
    Halts text := by
  cases phrase with
  | blank space _ => exact halts_of_blank space _
  | close rest =>
    rintro c same
    cases same
    cases bracket <;> decide
  | next _ _ =>
    rintro c same
    cases same
    decide

theorem halts_of_blanks (blanks : ∀ c ∈ rest, isBlank c = true) : Halts rest := by
  cases rest with
  | nil =>
    intro c none
    cases none
  | cons c rest => exact halts_of_blank (blanks c List.mem_cons_self) rest

theorem finish_eq_ok_iff : finish rest = .ok () ↔ ∀ c ∈ rest, isBlank c = true := by
  have nothing : skipBlanks rest = [] ↔ ∀ c ∈ rest, isBlank c = true := List.dropWhile_eq_nil_iff
  rw [← nothing]
  unfold finish
  split
  · rename_i none
    simp [none]
  · rename_i some
    refine iff_of_false (fun none => ?_) some
    cases none

/-- Every part takes at least one character. -/
theorem Phrase.shortens (phrase : Phrase limits depth part text rest) :
    rest.length < text.length := by
  induction phrase with
  | blank _ _ ih => exact Nat.lt_succ_of_lt ih
  | literal known rest =>
    obtain ⟨c, after, rfl, _⟩ := literals_start _ known
    simp only [List.cons_append, List.length_cons, List.length_append]
    omega
  | string spelled => exact Nat.lt_succ_of_lt (limits.string_shortens spelled)
  | number written => exact limits.number_shortens written
  | bracket _ _ ih => exact Nat.lt_succ_of_lt ih
  | empty rest => exact Nat.lt_succ_self _
  | first _ _ entry more => exact Nat.lt_trans more entry
  | close rest => exact Nat.lt_succ_self _
  | next _ _ entry more => exact Nat.lt_succ_of_lt (Nat.lt_trans more entry)
  | element _ ih => exact ih
  | member key _ ih => exact Nat.lt_succ_of_lt (Nat.lt_trans ih (limits.string_shortens key))
  | named _ ih => exact Nat.lt_succ_of_lt ih

/-- The parts that never begin with a closing bracket. -/
def Part.IsEntry : Part → Prop
  | .value | .entry _ => True
  | _ => False

theorem Phrase.begins (phrase : Phrase limits depth part text rest) (isEntry : part.IsEntry) :
    ∃ c after, skipBlanks text = c :: after ∧ ∀ bracket : Bracket, c ≠ bracket.closing := by
  induction phrase with
  | blank space _ ih =>
    rw [skipBlanks_blank space]
    exact ih isEntry
  | literal known rest =>
    obtain ⟨c, after, rfl, visible, other⟩ := literals_start _ known
    exact ⟨c, after ++ rest, skipBlanks_cons visible _, fun bracket => (other bracket).2⟩
  | string _ => exact ⟨'"', _, skipBlanks_cons rfl _, fun bracket => by cases bracket <;> decide⟩
  | number written =>
    obtain ⟨c, after, rfl, first⟩ := limits.number_begins written
    refine ⟨c, after, skipBlanks_cons first.not_blank _, fun bracket => ?_⟩
    cases bracket <;> exact first.ne (by decide) rfl
  | @bracket _ bracket _ _ _ _ _ =>
    have visible : isBlank bracket.opening = false := by cases bracket <;> rfl
    refine ⟨bracket.opening, _, skipBlanks_cons visible _, fun other => ?_⟩
    cases bracket <;> cases other <;> decide
  | element _ ih => exact ih trivial
  | member _ _ => exact ⟨'"', _, skipBlanks_cons rfl _, fun bracket => by cases bracket <;> decide⟩
  | empty | first | close | next | named => exact isEntry.elim

end Phrases

/-! ### Words -/

theorem colon_sound {text rest : List Char} (read : colon text = .ok rest) :
    skipBlanks text = ':' :: rest := by
  unfold colon at read
  split at read
  · cases read
  · split at read
    · rename_i found same
      cases read
      rw [found, same]
    · cases read

theorem colon_complete {text rest : List Char} (found : skipBlanks text = ':' :: rest) :
    colon text = .ok rest := by
  simp [colon, found]

theorem scalar_literal :
    ∀ letters ∈ literals, ∃ v, ∀ rest, scalar (letters ++ rest) = .ok (v, rest) := by
  simp only [literals, List.forall_mem_cons]
  refine ⟨⟨.null, fun rest => ?_⟩, ⟨.boolean true, fun rest => ?_⟩,
    ⟨.boolean false, fun rest => ?_⟩, List.forall_mem_nil _⟩
  · exact congrArg (Except.map (Value.null, ·)) (word_append ['u', 'l', 'l'] rest)
  · exact congrArg (Except.map (Value.boolean true, ·)) (word_append ['r', 'u', 'e'] rest)
  · exact congrArg (Except.map (Value.boolean false, ·)) (word_append ['a', 'l', 's', 'e'] rest)

theorem scalar_number {c : Char} (first : BeginsNumber c) (rest : List Char) :
    scalar (c :: rest) = number (c :: rest) := by
  have null : c ≠ 'n' := first.ne (by decide) rfl
  have yes : c ≠ 't' := first.ne (by decide) rfl
  have no : c ≠ 'f' := first.ne (by decide) rfl
  have quote : c ≠ '"' := first.ne (by decide) rfl
  rw [scalar, if_neg null, if_neg yes, if_neg no, if_neg quote]
  exact if_pos first

/-! ### Reading within the limits -/

theorem value_skipBlanks (levels : Nat) (text : List Char) :
    value levels (skipBlanks text) = value levels text := by
  unfold value
  rw [skipBlanks_skipBlanks]

section Steps

variable {text rest after : List Char} {c : Char}

theorem listStep_enters (found : skipBlanks text = c :: after) (other : c ≠ ']') :
    listStep true text = .ok (.element (c :: after)) ∧
      listStep false (',' :: text) = .ok (.element (c :: after)) := by
  have comma : skipBlanks (',' :: text) = ',' :: text := skipBlanks_cons rfl text
  simp [listStep, found, comma, other]

theorem objectStep_enters (found : skipBlanks text = c :: after) (other : c ≠ '}') :
    objectStep true text = objectKey (c :: after) ∧
      objectStep false (',' :: text) = objectKey (c :: after) := by
  have comma : skipBlanks (',' :: text) = ',' :: text := skipBlanks_cons rfl text
  simp [objectStep, found, comma, other]

section Entries

variable {read : List Char → Except Failure (Value × List Char)} {budget : Nat} {first : Bool}
  {name : String} {key start middle : List Char} {v : Value}

theorem elements_element {before : List Value} (step : listStep first text = .ok (.element start)) :
    elements read (budget + 1) first before text =
      read start >>= fun found => elements read budget false (found.1 :: before) found.2 := by
  simp only [elements, step]
  cases read start <;> rfl

/-- How elements come to be read: the list is closed, or an element is read first. -/
theorem elements_cases {before vs : List Value}
    (listed : elements read (budget + 1) first before text = .ok (vs, rest)) :
    (listStep first text = .ok (.closed rest) ∧ vs = before.reverse) ∨
    ∃ start v middle, listStep first text = .ok (.element start) ∧
      read start = .ok (v, middle) ∧
      elements read budget false (v :: before) middle = .ok (vs, rest) := by
  cases step : listStep first text with
  | error failure =>
    simp only [elements, step] at listed
    cases listed
  | ok next =>
    cases next with
    | closed after =>
      simp only [elements, step] at listed
      cases listed
      exact .inl ⟨rfl, rfl⟩
    | element start =>
      rw [elements_element step] at listed
      obtain ⟨⟨v, middle⟩, taken, listed⟩ := bind_eq_ok_iff.mp listed
      exact .inr ⟨start, v, middle, rfl, taken, listed⟩

/-- The members of an object from behind a key on. -/
def member (read : List Char → Except Failure (Value × List Char)) (budget : Nat) (name : String)
    (before : List (String × Value)) (key : List Char) :
    Except Failure (List (String × Value) × List Char) :=
  colon key >>= fun start =>
    read start >>= fun found => members read budget false ((name, found.1) :: before) found.2

theorem members_key {before : List (String × Value)}
    (step : objectStep first text = .ok (.key name key)) :
    members read (budget + 1) first before text = member read budget name before key := by
  cases colonRead : colon key with
  | error failure =>
    simp only [members, member, step, colonRead]
    rfl
  | ok start =>
    cases taken : read start <;>
      simp only [members, member, step, colonRead, taken, bind, Except.bind]

theorem member_start {before : List (String × Value)} (colonRead : colon key = .ok start) :
    member read budget name before key =
      read start >>= fun found =>
        members read budget false ((name, found.1) :: before) found.2 := by
  rw [member, colonRead]
  rfl

theorem elements_enter {before : List Value} (step : listStep first text = .ok (.element start))
    (taken : read start = .ok (v, middle)) :
    elements read (budget + 1) first before text =
      elements read budget false (v :: before) middle := by
  rw [elements_element step, taken]
  rfl

theorem members_enter {before : List (String × Value)}
    (step : objectStep first text = .ok (.key name key)) (colonRead : colon key = .ok start)
    (taken : read start = .ok (v, middle)) :
    members read (budget + 1) first before text =
      members read budget false ((name, v) :: before) middle := by
  rw [members_key step, member_start colonRead, taken]
  rfl

/-- How members come to be read: the object is closed, or a member is read first. -/
theorem members_cases {before ms : List (String × Value)}
    (listed : members read (budget + 1) first before text = .ok (ms, rest)) :
    (objectStep first text = .ok (.closed rest) ∧ ms = before.reverse) ∨
    ∃ name key start v middle, objectStep first text = .ok (.key name key) ∧
      colon key = .ok start ∧ read start = .ok (v, middle) ∧
      members read budget false ((name, v) :: before) middle = .ok (ms, rest) := by
  cases step : objectStep first text with
  | error failure =>
    simp only [members, step] at listed
    cases listed
  | ok next =>
    cases next with
    | closed after =>
      simp only [members, step] at listed
      cases listed
      exact .inl ⟨rfl, rfl⟩
    | key name key =>
      rw [members_key step] at listed
      obtain ⟨start, colonRead, listed⟩ := bind_eq_ok_iff.mp listed
      obtain ⟨⟨v, middle⟩, taken, listed⟩ := bind_eq_ok_iff.mp listed
      exact .inr ⟨name, key, start, v, middle, rfl, colonRead, taken, listed⟩

end Entries

end Steps

end Caju.Json
