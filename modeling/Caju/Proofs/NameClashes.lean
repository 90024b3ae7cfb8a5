import Caju.Proofs.ExprText
import Caju.Proofs.Renaming
import Caju.Proofs.TypeNames

/-! Names that never clash in C. Different Caju names stay different. A name that the generator
makes up has its mark in front and no underscore at its end; a Caju name with that mark would
have been given one. -/

namespace Caju

namespace C

/-- A name that is made up: it has the generator's mark in front, and its end shows that it
is not a name of the program that was given an underscore. -/
structure IsInvented (name : String) : Prop where
  marked : mark.toList <+: name.toList
  ends : name.toList.getLast? ≠ some '_'

theorem IsInvented.ne_ident {invented : String} (isInvented : IsInvented invented) (name : String) :
    ident name ≠ invented := by
  rintro rfl
  obtain ⟨marked, ends⟩ := isInvented
  unfold ident at marked ends
  split at ends
  · simp at ends
  · rename_i unneeded
    rw [if_neg unneeded] at marked
    have needed : needsMark name = true := by simp [needsMark, List.isPrefixOf_iff_prefix.mpr marked]
    exact unneeded needed

theorem isWordRest_of_mem_loopIndex (number : Nat) :
    ∀ c ∈ (loopIndex number).toList, isWordRest c = true := by
  intro c member
  rw [loopIndex, String.toList_append] at member
  rcases List.mem_append.mp member with letter | digit
  · exact List.all_eq_true.mp (by decide : (mark ++ "i").toList.all isWordRest = true) c letter
  · rw [isWordRest, isDigit_of_mem_toString number c digit, Bool.or_true]

theorem isInvented_loopIndex (number : Nat) : IsInvented (loopIndex number) := by
  refine ⟨⟨'i' :: (toString number).toList, by simp [loopIndex]⟩, ?_⟩
  rw [loopIndex, String.toList_append, List.getLast?_append_of_ne_nil _ (toString_ne_nil number)]
  intro last
  have digit := isDigit_of_mem_toString number _ (List.mem_of_getLast? last)
  exact absurd digit (by decide)

end C

open C NameWord

theorem NameWord.getLast?_text (word : NameWord) :
    ∃ c, word.text.toList.getLast? = some c ∧ c ≠ '_' := by
  cases word <;> exact ⟨_, rfl, by decide⟩

/-- The name of a type ends in the last letter of a word. -/
theorem NameWord.getLast?_spell {words : List NameWord} (nonempty : words ≠ []) :
    (spell words).getLast? ≠ some '_' := by
  obtain ⟨front, last, rfl⟩ := (List.eq_nil_or_concat' words).resolve_left nonempty
  obtain ⟨c, ends, letter⟩ := last.getLast?_text
  have single : spell [last] = last.text.toList := by simp [spell]
  cases front with
  | nil => simpa [single, ends] using letter
  | cons word rest =>
    rw [spell_append (List.cons_ne_nil word rest) (List.cons_ne_nil last []), single,
      List.getLast?_append, List.getLast?_cons, ends]
    simpa using letter

theorem Ty.isInvented_cType (element : Ty) : IsInvented (array element).cType := by
  have name : (array element).cType.toList = mark.toList ++ spell (array element).outline := by
    rw [cType, String.toList_append, toList_mangle]
  have letters : spell (array element).outline ≠ [] := by
    intro empty
    have mangled := toList_mangle (array element)
    simp [mangle, empty] at mangled
  refine ⟨⟨_, name.symm⟩, ?_⟩
  rw [name, List.getLast?_append_of_ne_nil _ letters]
  exact getLast?_spell (array element).outline_ne_nil

/-- Different Caju names have different C identifiers. None of these is a word that C keeps for
itself, the index of a loop over an array, or the name of the structure of an array type. -/
theorem C.ident_apart :
    Function.Injective ident ∧
    ∀ name, ident name ∉ reserved ∧ (∀ number, ident name ≠ loopIndex number) ∧
      ∀ element, ident name ≠ (Ty.array element).cType := by
  refine ⟨ident_injective, fun name => ⟨ident_notMem_reserved name, ?_, ?_⟩⟩
  · exact fun number => (isInvented_loopIndex number).ne_ident name
  · exact fun element => element.isInvented_cType.ne_ident name

end Caju
