import Caju.Proofs.JsonStretches
import Caju.Proofs.ProgramRereading

/-! How a reader of shapes agrees with a scan of the same text. The reader takes a text apart
as it goes, so it may stop at a shape before it has come to a flaw. Main statements: what a
reader makes of a text agrees with the value that is scanned there, and agreement is kept
from one part of a text to the next (`Agrees.bind`, `Agrees.stops`); a value that is none of
the forms a reader expects is a misfit in front of every flaw (`misfit_agrees`). -/

namespace Caju.Tree

open Caju.Json

/-! ### Agreement -/

/-- However the scan ends, it ends within the last `bytes` of the text. -/
def EndsWithin {α : Type} (bytes : Nat) : Scan α → Prop
  | .ok (_, rest) => byteCount rest ≤ bytes
  | .error failure => failure.flaw.isLimit = false → failure.place.left ≤ bytes

theorem endsWithin_of_remains {α : Type} {text : List Char} {scan : Scan α}
    (remains : Remains Prod.snd text scan) : EndsWithin (byteCount text) scan := by
  cases scan with
  | ok found => exact byteCount_le_of_suffix remains
  | error failure =>
    exact fun grammar => Nat.le_trans (Nat.sub_le _ _) (byteCount_le_of_suffix (remains grammar))

/-- A reader agrees with a scan of the same text: it finds what the scanned value portrays,
fails where the scan fails, or stops at a value that portrays nothing, in front of whatever
the scan comes to. -/
def Agrees {α β : Type} (portrays : β → α → Prop) (scan : Scan β) : Read α → Prop
  | .ok (a, rest) => ∃ b, scan = .ok (b, rest) ∧ portrays b a
  | .error (.malformed _) => ∃ failure, scan = .error failure
  | .error (.misshapen _ place) =>
    EndsWithin place.left scan ∧ ∀ b rest, scan = .ok (b, rest) → ∀ a, ¬portrays b a

section Agrees

variable {α β γ δ : Type} {portrays : β → α → Prop} {portrays' : δ → γ → Prop}
  {scan : Except Failure (β × List Char)} {read : Except ReadError (α × List Char)}

/-- What a reader does not accept portrays nothing. -/
theorem Agrees.rejects {error : ReadError} (agrees : Agrees portrays scan (.error error)) {b : β}
    {rest : List Char} (found : scan = .ok (b, rest)) (a : α) : ¬portrays b a := by
  cases error with
  | malformed _ =>
    obtain ⟨failure, failed⟩ := agrees
    cases failed.symm.trans found
  | misshapen _ _ => exact agrees.2 b rest found a

/-- An error stays one, whatever the scan goes on to. -/
theorem Agrees.stops {onwards : β × List Char → Except Failure (δ × List Char)} {error : ReadError}
    (agrees : Agrees portrays scan (.error error))
    (remains : ∀ b rest, scan = .ok (b, rest) → Remains Prod.snd rest (onwards (b, rest)))
    (spoiled : ∀ b rest, scan = .ok (b, rest) → (∀ a, ¬portrays b a) →
      ∀ d rest', onwards (b, rest) = .ok (d, rest') → ∀ c, ¬portrays' d c) :
    Agrees portrays' (scan >>= onwards : Except Failure (δ × List Char)) (.error error) := by
  cases error with
  | malformed _ =>
    obtain ⟨failure, failed⟩ := agrees
    rw [failed]
    exact ⟨failure, rfl⟩
  | misshapen mismatch place =>
    obtain ⟨within, nothing⟩ := agrees
    cases scan with
    | error failure =>
      refine ⟨within, fun _ _ found => ?_⟩
      cases found
    | ok found =>
      obtain ⟨b, rest⟩ := found
      have after := endsWithin_of_remains (remains b rest rfl)
      have before : byteCount rest ≤ place.left := within
      refine ⟨?_, spoiled b rest rfl (nothing b rest rfl)⟩
      show EndsWithin place.left (onwards (b, rest))
      cases ended : onwards (b, rest) with
      | ok found =>
        rw [ended] at after
        exact Nat.le_trans after before
      | error failure =>
        rw [ended] at after
        exact fun grammar => Nat.le_trans (after grammar) before

theorem Agrees.bind {onwards : β × List Char → Except Failure (δ × List Char)}
    {onwards' : α × List Char → Except ReadError (γ × List Char)}
    (agrees : Agrees portrays scan read)
    (remains : ∀ b rest, scan = .ok (b, rest) → Remains Prod.snd rest (onwards (b, rest)))
    (spoiled : ∀ b rest, scan = .ok (b, rest) → (∀ a, ¬portrays b a) →
      ∀ d rest', onwards (b, rest) = .ok (d, rest') → ∀ c, ¬portrays' d c)
    (further : ∀ b a rest, scan = .ok (b, rest) → portrays b a →
      Agrees portrays' (onwards (b, rest)) (onwards' (a, rest))) :
    Agrees portrays' (scan >>= onwards : Except Failure (δ × List Char))
      (read >>= onwards' : Except ReadError (γ × List Char)) := by
  cases read with
  | ok found =>
    obtain ⟨b, scanned, portrayed⟩ := agrees
    rw [scanned]
    exact further b found.1 found.2 scanned portrayed
  | error error => exact agrees.stops remains spoiled

theorem Agrees.map {portrays' : δ → α → Prop} {f : β → δ} (agrees : Agrees portrays scan read)
    (same : ∀ b a, portrays' (f b) a ↔ portrays b a) :
    Agrees portrays' (scan.map fun (b, rest) => (f b, rest)) read := by
  cases read with
  | ok found =>
    obtain ⟨b, scanned, portrayed⟩ := agrees
    rw [scanned]
    exact ⟨f b, rfl, (same b _).mpr portrayed⟩
  | error error =>
    cases error with
    | malformed _ =>
      obtain ⟨failure, failed⟩ := agrees
      rw [failed]
      exact ⟨failure, rfl⟩
    | misshapen mismatch place =>
      obtain ⟨within, nothing⟩ := agrees
      cases scan with
      | error failure =>
        refine ⟨within, fun _ _ found => ?_⟩
        cases found
      | ok found =>
        refine ⟨within, fun b rest same' a portrayed => ?_⟩
        cases same'
        exact nothing found.1 found.2 rfl a ((same _ a).mp portrayed)

end Agrees

/-! ### Misfits -/

section Forms

variable {levels : Nat} {text rest : List Char}

theorem numeral_not_string {numeral : Numeral} {s : String} :
    numeral.value rest ≠ .ok (.string s) := by
  fun_cases Numeral.value numeral rest
  all_goals intro same; cases same

theorem scalar_string {s : String} (read : scalar text = .ok (.string s, rest)) :
    ∃ after, text = '"' :: after := by
  revert read
  fun_cases scalar text
  all_goals intro read
  case case2 | case3 | case4 =>
    obtain ⟨_, _, same⟩ := map_eq_ok_iff.mp read
    cases same
  case case5 after _ _ _ => exact ⟨after, rfl⟩
  case case6 =>
    obtain ⟨⟨numeral, after⟩, _, read⟩ := bind_eq_ok_iff.mp read
    obtain ⟨_, known, same⟩ := bind_eq_ok_iff.mp read
    cases same
    exact absurd known numeral_not_string
  all_goals cases read

/-- What a value is shows in its first character. -/
theorem value_form {v : Value} (read : value levels text = .ok (v, rest)) :
    (∀ s, v = .string s → ∃ after, skipBlanks text = '"' :: after) ∧
    (∀ vs, v = .list vs → ∃ after, skipBlanks text = '[' :: after) ∧
    (∀ ms, v = .object ms → ∃ after, skipBlanks text = '{' :: after) := by
  rcases opensNone_or_opens text with opensNone | ⟨bracket, after, found⟩
  · rw [value_opensNone opensNone] at read
    have flat := (scalar_spans read).1
    refine ⟨fun s same => ?_, fun vs same => ?_, fun ms same => ?_⟩
    · rw [same] at read
      exact scalar_string read
    · rw [same] at flat
      cases flat
    · rw [same] at flat
      cases flat
  · rw [← value_skipBlanks, found] at read
    cases levels with
    | zero => cases bracket <;> cases read
    | succ levels =>
      cases bracket with
      | list =>
        rw [Bracket.opening, value_list] at read
        obtain ⟨_, _, same⟩ := map_eq_ok_iff.mp read
        cases same
        refine ⟨fun _ same => ?_, fun _ _ => ⟨after, found⟩, fun _ same => ?_⟩ <;> cases same
      | object =>
        rw [Bracket.opening, value_object] at read
        obtain ⟨_, _, same⟩ := map_eq_ok_iff.mp read
        cases same
        refine ⟨fun _ same => ?_, fun _ same => ?_, fun _ _ => ⟨after, found⟩⟩ <;> cases same

theorem misfit_agrees {α : Type} {portrays : Value → α → Prop} (expected : Expectation)
    (never : ∀ v rest, value levels text = .ok (v, rest) → ∀ a, ¬portrays v a) :
    Agrees portrays (value levels text) (.error (misfit expected (skipBlanks text))) := by
  have remains := value_remains levels (skipBlanks text)
  rw [value_skipBlanks] at remains
  unfold misfit
  split
  · rename_i found
    rw [found] at remains
    exact ⟨endsWithin_of_remains remains, never⟩
  · rename_i found
    rw [found] at remains
    exact ⟨endsWithin_of_remains remains, never⟩
  · rename_i noList noObject
    have opensNone : OpensNone text := by
      intro bracket after found
      cases bracket with
      | list => exact noList after found
      | object => exact noObject after found
    have same := value_opensNone opensNone levels
    split
    · rename_i failure failed
      exact ⟨failure, same.trans failed⟩
    · rename_i v rest scanned
      refine ⟨?_, never⟩
      rw [same, scanned]
      exact Nat.le_refl _

end Forms

/-! ### Loops -/

section Loops

variable {read : List Char → Except Failure (Value × List Char)} {budget : Nat} {first : Bool}
  {text : List Char}

theorem member_remains (reads : ∀ text, Remains Prod.snd text (read text)) (name : String)
    (before : List (String × Value)) (key : List Char) :
    Remains Prod.snd key (member read budget name before key) := by
  refine (colon_remains key).bind fun start _ => ?_
  refine (reads start).bind fun found _ => ?_
  exact members_remains reads _ _ _ _

/-- A reader that gives up behind a key comes to rest in front of what the scan comes to. -/
theorem member_leaves (reads : ∀ text, Remains Prod.snd text (read text)) (name : String)
    (before : List (String × Value)) (key : List Char) :
    EndsWithin (byteCount (leaveObject key)) (member read budget name before key) := by
  unfold leaveObject
  split
  · rename_i rest found
    have noColon : colon key = .error (.next .expectedColon ('}' :: rest)) := by
      simp [colon, found]
    rw [member, noColon]
    intro _
    have size : byteCount ('}' :: rest) = 1 + byteCount rest := byteCount_cons '}' rest
    show byteCount ('}' :: rest) - 1 ≤ byteCount rest
    omega
  · have same : member read budget name before key =
        member read budget name before (skipBlanks key) := by
      simp only [member, colon, skipBlanks_skipBlanks]
    rw [same]
    exact endsWithin_of_remains (member_remains reads name before _)

theorem listStep_leaves (text : List Char) :
    Remains ListStep.behind (leaveList text) (listStep false text) := by
  unfold leaveList
  split
  · rename_i rest found
    simp only [listStep, found]
    exact List.suffix_rfl
  · rename_i rest found
    have notClosing : ',' ≠ ']' := by decide
    simp only [listStep, found, if_neg notClosing, Bool.false_eq_true, if_false, if_true]
    split
    · exact fun _ => List.nil_suffix
    · rename_i next
      rw [next]
      split
      · exact fun _ => List.suffix_rfl
      · exact List.suffix_rfl
  · rename_i notClosing noComma
    unfold listStep
    split
    · exact fun _ => List.nil_suffix
    · rename_i c rest found
      split
      · rename_i closing
        exact absurd (found.trans (congrArg (· :: rest) closing)) (notClosing rest)
      · simp only [Bool.false_eq_true, if_false]
        split
        · rename_i comma
          exact absurd (found.trans (congrArg (· :: rest) comma)) (noComma rest)
        · rw [found]
          exact fun _ => List.suffix_rfl

/-- A reader that gives up behind an element comes to rest in front of what the scan comes
to. -/
theorem elements_leaves (reads : ∀ text, Remains Prod.snd text (read text)) (before : List Value)
    (text : List Char) :
    EndsWithin (byteCount (leaveList text)) (elements read budget false before text) :=
  endsWithin_of_remains (elements_remains_of_step reads (listStep_leaves text))

/-- Neither the budget nor what was read before matters to the elements that follow. -/
theorem elements_regroup
    (shortens : ∀ {text rest v}, read text = .ok (v, rest) → rest.length < text.length)
    {budget' : Nat} (before after : List Value) (enough : text.length ≤ budget)
    (enough' : text.length ≤ budget') :
    elements read budget first (after ++ before) text =
      (elements read budget' first after text).map
        fun (vs, rest) => (before.reverse ++ vs, rest) := by
  induction budget generalizing budget' first after text with
  | zero =>
    have none : text = [] := List.eq_nil_of_length_eq_zero (Nat.le_zero.mp enough)
    rw [none]
    cases budget' <;> rfl
  | succ budget ih =>
    cases budget' with
    | zero =>
      have none : text = [] := List.eq_nil_of_length_eq_zero (Nat.le_zero.mp enough')
      rw [none]
      rfl
    | succ budget' =>
      have remains := listStep_remains first text
      cases step : listStep first text with
      | error failure => simp only [elements, step]; rfl
      | ok next =>
        cases next with
        | closed rest =>
          simp only [elements, step, List.reverse_append]
          rfl
        | element start =>
          rw [step] at remains
          have inside : start.length ≤ text.length := List.IsSuffix.length_le remains
          rw [elements_element step, elements_element step]
          cases taken : read start with
          | error failure => rfl
          | ok found =>
            obtain ⟨v, rest⟩ := found
            have shorter := shortens taken
            have fits : rest.length ≤ budget := by omega
            have fits' : rest.length ≤ budget' := by omega
            exact ih (v :: after) fits fits'

theorem elements_extends {levels : Nat} {before vs : List Value} {rest : List Char}
    (listed : elements (value levels) budget first before text = .ok (vs, rest)) :
    ∃ more, vs = before.reverse ++ more := by
  obtain ⟨more, same, _⟩ := elements_closes (value_follows levels) listed
  exact ⟨more, same⟩

theorem members_extends {levels : Nat} {before ms : List (String × Value)} {rest : List Char}
    (listed : members (value levels) budget first before text = .ok (ms, rest)) :
    ∃ more, ms = before.reverse ++ more := by
  obtain ⟨more, same, _⟩ := members_closes (value_follows levels) listed
  exact ⟨more, same⟩

theorem member_extends {levels : Nat} {name : String} {before ms : List (String × Value)}
    {key rest : List Char}
    (listed : member (value levels) budget name before key = .ok (ms, rest)) :
    ∃ v more, ms = before.reverse ++ (name, v) :: more := by
  obtain ⟨start, _, listed⟩ := bind_eq_ok_iff.mp listed
  obtain ⟨⟨v, after⟩, _, listed⟩ := bind_eq_ok_iff.mp listed
  obtain ⟨more, rfl⟩ := members_extends listed
  exact ⟨v, more, by simp⟩

end Loops

end Caju.Tree
