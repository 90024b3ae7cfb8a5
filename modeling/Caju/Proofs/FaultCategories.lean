import Caju.Proofs.JsonForms
import Caju.Proofs.ReaderStretches

/-! Which category of fault a text is rejected with. Main statement: a well-formed text within
the limits of the reader is read as the program its value portrays, has a fault of shape if it
portrays none, and a lexical one only if it is a list that goes on behind its items; a text
that is not well formed is never accepted, and its fault is lexical unless a fault of shape
comes before the flaw, which then rules out every text with the same beginning
(`Program.fault_categories`). -/

namespace Caju

namespace Tree

open Caju.Json

/-- Reading a value that takes up the whole text. -/
theorem read_scanned {text rest : List Char} {v : Value}
    (valued : value maxNesting text = .ok (v, rest)) (finished : finish rest = .ok ()) :
    (∃ p, read text = .ok p ∧ PortraysProgram v p) ∨
    (∃ failure, read text = .error (.malformed failure) ∧ Overfull v) ∨
    ∃ mismatch place, read text = .error (.misshapen mismatch place) ∧
      (∀ p, ¬PortraysProgram v p) ∧ ¬Overfull v := by
  have unlimited : Unlimited (value maxNesting text) := by
    rw [valued]
    intro _ failed
    cases failed
  unfold read
  rcases program_agrees unlimited with ⟨agrees, notOverfull⟩ |
    ⟨w, _, failure, found, overfull, stopped⟩
  · have fits := notOverfull v rest valued
    cases taken : program text with
    | ok found =>
      obtain ⟨p, after⟩ := found
      rw [taken, valued] at agrees
      obtain ⟨_, same, portrays⟩ := agrees
      cases same
      refine .inl ⟨p, ?_, portrays⟩
      simp only [bind, Except.bind, finished]
      rfl
    | error error =>
      rw [taken] at agrees
      have nothing := fun p => agrees.rejects valued p
      cases error with
      | malformed failure =>
        obtain ⟨_, failed⟩ := agrees
        cases failed.symm.trans valued
      | misshapen mismatch place => exact .inr (.inr ⟨mismatch, place, rfl, nothing, fits⟩)
  · cases valued.symm.trans found
    rw [stopped]
    exact .inr (.inl ⟨failure, rfl, overfull⟩)

theorem program_of_read {text : List Char} {mismatch : Mismatch} {place : Place}
    (stopped : read text = .error (.misshapen mismatch place)) :
    program text = .error (.misshapen mismatch place) := by
  unfold read at stopped
  cases taken : program text with
  | error error =>
    rw [taken] at stopped
    cases stopped
    rfl
  | ok found =>
    rw [taken] at stopped
    simp only [bind, Except.bind] at stopped
    cases finished : finish found.2 <;> rw [finished] at stopped <;> cases stopped

theorem finish_eq_error {rest : List Char} {failure : Failure}
    (failed : finish rest = .error failure) :
    failure = .next .trailingCharacters (skipBlanks rest) := by
  unfold finish at failed
  split at failed
  · cases failed
  · cases failed
    rfl

/-- A scan that ends in front of a flaw, or at it, leaves no less than the flaw does. -/
theorem flaw_within {text : List Char} {failure : Failure} {bytes : Nat}
    (failed : document text = .error failure) (grammar : failure.flaw.isLimit = false)
    (within : EndsWithin bytes (value maxNesting text)) : failure.place.left ≤ bytes := by
  unfold document at failed
  cases valued : value maxNesting text with
  | error other =>
    rw [valued] at failed within
    cases failed
    exact within grammar
  | ok found =>
    obtain ⟨v, rest⟩ := found
    rw [valued] at failed within
    have before : byteCount rest ≤ bytes := within
    have trailing : failure = .next .trailingCharacters (skipBlanks rest) := by
      cases ended : finish rest with
      | ok _ =>
        simp only [bind, Except.bind, ended] at failed
        cases failed
      | error other =>
        simp only [bind, Except.bind, ended] at failed
        cases failed
        exact finish_eq_error ended
    have less := byteCount_le_of_suffix (skipBlanks_suffix rest)
    rw [trailing]
    exact Nat.le_trans (Nat.sub_le _ _) (Nat.le_trans less before)

/-- Reading a text with a flaw. -/
theorem read_flawed {text : List Char} {failure : Failure}
    (failed : document text = .error failure) (flawed : ¬WellFormed text) :
    (∃ other, read text = .error (.malformed other)) ∨
    ∃ mismatch place, read text = .error (.misshapen mismatch place) ∧
      (failure.flaw.isLimit = false → failure.place.left ≤ place.left) := by
  cases accepted : read text with
  | ok p => exact absurd (wellFormed_of_read accepted) flawed
  | error error =>
    cases error with
    | malformed other => exact .inl ⟨other, rfl⟩
    | misshapen mismatch place =>
      refine .inr ⟨mismatch, place, rfl, fun grammar => ?_⟩
      have unlimited : Unlimited (value maxNesting text) := by
        intro other stopped
        unfold document at failed
        rw [stopped] at failed
        cases failed
        exact grammar
      rcases program_agrees unlimited with ⟨agrees, _⟩ | ⟨_, _, _, _, _, stopped⟩
      · rw [program_of_read accepted] at agrees
        exact flaw_within failed grammar agrees.1
      · cases stopped.symm.trans (program_of_read accepted)

end Tree

namespace Program

open Caju.Json Caju.Tree

/-- The text is rejected with a fault of the category. -/
def FailsAs (text : String) (category : FaultCategory) : Prop :=
  ∃ fault, ofText text = .error fault ∧ fault.category = category

theorem ofText_eq_ok_iff {text : String} {p : Program} :
    ofText text = .ok p ↔ read text.toList = .ok p := by
  unfold ofText
  cases read text.toList <;> simp [Except.mapError]

theorem ofText_eq_error {text : String} {error : ReadError}
    (stopped : read text.toList = .error error) :
    ofText text = .error (Fault.ofReadError text.toList error) := by
  rw [ofText, stopped]
  rfl

theorem failsAs_iff {text : String} {category : FaultCategory} :
    FailsAs text category ↔ ∃ error, read text.toList = .error error ∧
      (Fault.ofReadError text.toList error).category = category := by
  constructor
  · rintro ⟨fault, failed, known⟩
    unfold ofText at failed
    cases taken : read text.toList with
    | ok p =>
      rw [taken] at failed
      cases failed
    | error error =>
      rw [taken] at failed
      cases failed
      exact ⟨error, rfl, known⟩
  · rintro ⟨error, stopped, known⟩
    exact ⟨_, ofText_eq_error stopped, known⟩

/-- No text that begins so describes a program. -/
def BeginsNone (seen : List Char) : Prop :=
  ∀ more p, ofText (String.ofList (seen ++ more)) ≠ .ok p

theorem beginsNone_of_read {text : List Char} {mismatch : Mismatch} {place : Place}
    (stopped : read text = .error (.misshapen mismatch place)) :
    ∃ seen, text = seen ++ place.rest.drop 1 ∧ BeginsNone seen := by
  obtain ⟨seen, same, spoiled⟩ := program_spoils (program_of_read stopped)
  refine ⟨seen, same, fun more p accepted => ?_⟩
  have accepted := ofText_eq_ok_iff.mp accepted
  rw [String.toList_ofList] at accepted
  obtain ⟨found, taken, _⟩ := bind_eq_ok_iff.mp accepted
  exact (spoiled more).2 found taken

/-- What becomes of a text that is a document, by the shape of its value. -/
theorem ofText_of_document {text : String} {v : Value} (scanned : document text.toList = .ok v) :
    (∀ p, ofText text = .ok p ↔ PortraysProgram v p) ∧
    (FailsAs text .lexical ↔ Overfull v) ∧
    (FailsAs text .syntactic ↔ (∀ p, ¬PortraysProgram v p) ∧ ¬Overfull v) := by
  obtain ⟨⟨_, rest⟩, valued, ended⟩ := bind_eq_ok_iff.mp scanned
  obtain ⟨_, finished, same⟩ := bind_eq_ok_iff.mp ended
  cases same
  simp only [ofText_eq_ok_iff, failsAs_iff]
  rcases read_scanned valued finished with ⟨p, accepted, portrays⟩ |
    ⟨failure, stopped, overfull⟩ | ⟨mismatch, place, stopped, nothing, fits⟩
  · rw [accepted]
    refine ⟨fun q => ⟨?_, fun portrays' => ?_⟩, ⟨?_, fun overfull => ?_⟩, ⟨?_, fun nothing => ?_⟩⟩
    · rintro ⟨⟩
      exact portrays
    · rw [portrays.unique portrays']
    · rintro ⟨_, ⟨⟩, _⟩
    · exact absurd portrays (overfull.portrays_none p)
    · rintro ⟨_, ⟨⟩, _⟩
    · exact absurd portrays (nothing.1 p)
  · rw [stopped]
    refine ⟨fun q => ⟨?_, fun portrays => ?_⟩, ⟨fun _ => overfull, fun _ => ?_⟩,
      ⟨?_, fun nothing => ?_⟩⟩
    · intro accepted
      cases accepted
    · exact absurd portrays (overfull.portrays_none q)
    · exact ⟨_, rfl, rfl⟩
    · rintro ⟨_, ⟨⟩, known⟩
      cases known
    · exact absurd overfull nothing.2
  · rw [stopped]
    refine ⟨fun q => ⟨?_, fun portrays => ?_⟩, ⟨?_, fun overfull => ?_⟩,
      ⟨fun _ => ⟨nothing, fits⟩, fun _ => ?_⟩⟩
    · intro accepted
      cases accepted
    · exact absurd portrays (nothing q)
    · rintro ⟨_, ⟨⟩, known⟩
      cases known
    · exact absurd overfull fits
    · exact ⟨_, rfl, rfl⟩

/-- What becomes of a text that is none. -/
theorem ofText_of_flawed {text : String} {failure : Failure}
    (failed : document text.toList = .error failure) (flawed : ¬Json.WellFormed text.toList) :
    FailsAs text .lexical ∨ FailsAs text .syntactic ∧ ∃ mismatch place,
      ofText text = .error (Fault.ofReadError text.toList (.misshapen mismatch place)) ∧
      (failure.flaw.isLimit = false → failure.place.left ≤ place.left) ∧
      ∃ seen, text.toList = seen ++ place.rest.drop 1 ∧ BeginsNone seen := by
  rcases read_flawed failed flawed with ⟨other, stopped⟩ | ⟨mismatch, place, stopped, before⟩
  · exact .inl ⟨_, ofText_eq_error stopped, rfl⟩
  · have rejected := ofText_eq_error stopped
    refine .inr ⟨⟨_, rejected, rfl⟩, mismatch, place, rejected, before, ?_⟩
    exact beginsNone_of_read stopped

/-- A well-formed text within the limits has a fault of shape exactly if its value portrays
no program, except that a list of items and something more has a lexical one. A text that is
not well formed has a lexical fault, or one of shape that stands no later than its flaw and
that no text with the same beginning escapes. -/
theorem fault_categories {text : String}
    (within : Json.WellFormed text.toList → WithinLimits text.toList) :
    (Json.WellFormed text.toList → ∃ v, document text.toList = .ok v ∧
      (∀ p, ofText text = .ok p ↔ PortraysProgram v p) ∧
      (FailsAs text .lexical ↔ Overfull v) ∧
      (FailsAs text .syntactic ↔ (∀ p, ¬PortraysProgram v p) ∧ ¬Overfull v)) ∧
    (¬Json.WellFormed text.toList → ∃ failure, document text.toList = .error failure ∧
      (FailsAs text .lexical ∨ FailsAs text .syntactic ∧ ∃ mismatch place,
        ofText text = .error (Fault.ofReadError text.toList (.misshapen mismatch place)) ∧
        (failure.flaw.isLimit = false → failure.place.left ≤ place.left) ∧
        ∃ seen, text.toList = seen ++ place.rest.drop 1 ∧ BeginsNone seen)) := by
  constructor
  · intro wellFormed
    obtain ⟨v, scanned⟩ := document_of_withinLimits (within wellFormed)
    exact ⟨v, scanned, ofText_of_document scanned⟩
  · intro flawed
    cases failed : document text.toList with
    | ok v => exact absurd (wellFormed_of_document failed) flawed
    | error failure => exact ⟨failure, rfl, ofText_of_flawed failed flawed⟩

theorem fault_categories_null :
    WithinLimits "\x7b\"items\":null\x7d".toList ∧ FailsAs "\x7b\"items\":null\x7d" .syntactic ∧
    ∃ v, document "\x7b\"items\":null\x7d".toList = .ok v ∧ (∀ p, ¬PortraysProgram v p) ∧
      ¬Overfull v := by
  have within : WithinLimits "\x7b\"items\":null\x7d".toList := by
    refine ⟨[], ?_, by simp⟩
    have room : 0 < maxNesting := by decide
    have key : StringText PairedEscape "items\":null\x7d".toList ":null\x7d".toList := by
      repeat' first | exact .close _ | refine .plain (by decide) (by decide) (by decide) ?_
    have null : Phrase .reader 1 .named ":null\x7d".toList ['}'] :=
      .named (.literal (by decide : ['n', 'u', 'l', 'l'] ∈ literals) ['}'])
    have closed : Phrase .reader 1 (.more .object) ['}'] [] := .close []
    have inside : Phrase .reader 1 (.inside .object) "\"items\":null\x7d".toList [] :=
      .first (.member key null) closed
    exact .bracket room inside
  have rejected : FailsAs "\x7b\"items\":null\x7d" .syntactic := ⟨_, rfl, rfl⟩
  refine ⟨within, rejected, ?_⟩
  have wellFormed : Json.WellFormed "\x7b\"items\":null\x7d".toList :=
    wellFormed_of_document (v := .object [("items", .null)]) rfl
  obtain ⟨v, scanned, _, _, shape⟩ := (fault_categories fun _ => within).1 wellFormed
  exact ⟨v, scanned, shape.mp rejected⟩

/-- The list of a program's items and a number is well formed, and lexically at fault; an
object that ends behind a number for its items is not, and has a fault of shape. -/
theorem fault_categories_crossed :
    (Json.WellFormed "[[],1]".toList ∧ FailsAs "[[],1]" .lexical) ∧
    ¬Json.WellFormed "\x7b\"items\":5".toList ∧ FailsAs "\x7b\"items\":5" .syntactic := by
  refine ⟨⟨?_, _, rfl, rfl⟩, ?_, _, rfl, rfl⟩
  · exact wellFormed_of_document (v := .list [.list [], .integer 1]) rfl
  · rw [wellFormed_iff]
    rintro ⟨rest, skimmed, _⟩
    cases skimmed

end Program

end Caju
