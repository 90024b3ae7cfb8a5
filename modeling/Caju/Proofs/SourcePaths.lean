import Caju.Proofs.FileNames

/-! Source files and the outputs beside them. A source file is known by the ending of its name, which
must be text. At most one ending fits, so it does not matter which is tried first. The output has
another ending in its place, which fits none of them, so it is no source file itself. -/

namespace Caju.Path

variable {name stem suffix : List Char}

/-! ### Endings -/

theorem beforeSuffix?_eq_some_iff :
    beforeSuffix? name suffix = some stem ↔ name = stem ++ suffix := by
  unfold beforeSuffix?
  constructor
  · intro found
    split at found
    · rename_i ends
      obtain ⟨front, rfl⟩ := List.isSuffixOf_iff_suffix.mp ends
      have same : front = stem := by simpa using found
      rw [same]
    · cases found
  · rintro rfl
    have ends : suffix.isSuffixOf (stem ++ suffix) = true :=
      List.isSuffixOf_iff_suffix.mpr (List.suffix_append stem suffix)
    rw [if_pos ends]
    simp

/-- No two endings of source files fit one name. -/
theorem sourceSuffixes_apart {other : List Char} (member : suffix ∈ sourceSuffixes)
    (present : other ∈ sourceSuffixes) (fits : suffix <:+ name) (also : other <:+ name) :
    suffix = other := by
  have apart : ∀ one ∈ sourceSuffixes, ∀ two ∈ sourceSuffixes, one <:+ two → one = two := by decide
  rcases List.suffix_or_suffix_of_suffix fits also with shorter | longer
  · exact apart suffix member other present shorter
  · exact (apart other present suffix member longer).symm

/-- Whatever order the endings are tried in, what comes before the one that fits is found. -/
theorem findSome?_beforeSuffix? {order : List (List Char)} (endings : order ⊆ sourceSuffixes) :
    order.findSome? (beforeSuffix? name) = some stem ↔ ∃ suffix ∈ order, name = stem ++ suffix := by
  constructor
  · intro found
    obtain ⟨suffix, member, before⟩ := List.exists_of_findSome?_eq_some found
    exact ⟨suffix, member, beforeSuffix?_eq_some_iff.mp before⟩
  · rintro ⟨suffix, member, split⟩
    have some : (order.findSome? (beforeSuffix? name)).isSome = true :=
      List.findSome?_isSome_iff.mpr
        ⟨suffix, member, by rw [beforeSuffix?_eq_some_iff.mpr split]; rfl⟩
    obtain ⟨front, found⟩ := Option.isSome_iff_exists.mp some
    obtain ⟨other, present, before⟩ := List.exists_of_findSome?_eq_some found
    have also := beforeSuffix?_eq_some_iff.mp before
    obtain rfl : suffix = other := sourceSuffixes_apart (endings member) (endings present)
      ⟨stem, split.symm⟩ ⟨front, also.symm⟩
    rw [found, List.append_cancel_right (split.symm.trans also)]

theorem stem?_eq_some_iff :
    stem? name = some stem ↔ stem ≠ [] ∧ ∃ suffix ∈ sourceSuffixes, name = stem ++ suffix := by
  unfold stem?
  rw [Option.filter_eq_some_iff, findSome?_beforeSuffix? (List.Subset.refl _)]
  simp [and_comm]

/-- A path names a source file: its name is text, and something comes before the ending. -/
def NamesSource (path parent : OsText) (stem : List Char) : Prop :=
  stem ≠ [] ∧ ∃ suffix ∈ sourceSuffixes, Names path parent (.encode (stem ++ suffix))

theorem source?_eq_some_iff {path parent : OsText} :
    source? path = some (parent, stem) ↔ NamesSource path parent stem := by
  constructor
  · intro source
    obtain ⟨⟨above, name⟩, split, named⟩ := Option.bind_eq_some_iff.mp source
    obtain ⟨text, decoded, stemmed⟩ := Option.bind_eq_some_iff.mp named
    obtain ⟨found, cut, same⟩ := Option.map_eq_some_iff.mp stemmed
    obtain ⟨rfl, rfl⟩ := Prod.mk.inj same
    obtain ⟨filled, suffix, member, ends⟩ := stem?_eq_some_iff.mp cut
    have bytes : name = .encode text.toList := OsText.text?_eq_some_iff.mp decoded
    rw [bytes, ends] at split
    exact ⟨filled, suffix, member, splitFile?_eq_some_iff.mp split⟩
  · rintro ⟨filled, suffix, member, names⟩
    have cut : stem? (stem ++ suffix) = some stem :=
      stem?_eq_some_iff.mpr ⟨filled, suffix, member, rfl⟩
    rw [source?, splitFile?_eq_some_iff.mpr names]
    simp [OsText.text?_encode, String.toList_ofList, cut]

/-- The name of what is generated for a source file. -/
def outputName (stem : List Char) : OsText := .encode (stem ++ '.' :: defaultExtension.toList)

theorem defaultOutput_eq_ok {path out : OsText} (made : defaultOutput path = .ok out) :
    ∃ parent stem, NamesSource path parent stem ∧ out = child parent (outputName stem) := by
  unfold defaultOutput output at made
  cases source : source? path with
  | none =>
    rw [source] at made
    cases made
  | some found =>
    rw [source] at made
    obtain rfl := Except.ok.inj made
    exact ⟨found.1, found.2, source?_eq_some_iff.mp source, rfl⟩

theorem outputName_eq (stem : List Char) :
    outputName stem = .encode stem ++ [dot, 'c'.toUInt8] :=
  OsText.encode_append stem _

theorem outputName_fits (filled : stem ≠ []) :
    isIdle (outputName stem) = false ∧ outputName stem ≠ [dot, dot] := by
  have some : OsText.encode stem ≠ OsText.encode [] := fun same =>
    filled (OsText.encode_injective same)
  have long : 2 < (outputName stem).length := by
    have positive := List.length_pos_iff.mpr some
    rw [outputName_eq, List.length_append]
    exact Nat.add_lt_add_of_lt_of_le positive (Nat.le_refl 2)
  constructor
  · apply Bool.eq_false_iff.mpr
    intro idle
    have short : outputName stem = [] ∨ outputName stem = [dot] := by simpa [isIdle] using idle
    rcases short with nothing | alone
    · simp [nothing] at long
    · simp [alone] at long
  · intro dots
    simp [dots] at long

/-- What is generated has the ending of no source file. -/
theorem outputName_ne (member : suffix ∈ sourceSuffixes) (front : List Char) :
    outputName stem ≠ .encode (front ++ suffix) := by
  have other : ∀ ending ∈ sourceSuffixes, ∃ c, ending.getLast? = some c ∧ c ≠ 'c' := by
    simp [sourceSuffixes]
  obtain ⟨c, last, different⟩ := other suffix member
  intro same
  have ends := congrArg List.getLast? (OsText.encode_injective same)
  rw [List.getLast?_append, List.getLast?_append, last] at ends
  exact different (Option.some.inj ends).symm

/-- The output for a source file has a name of its own beside it. -/
theorem NamesSource.output {path parent : OsText} (source : NamesSource path parent stem) :
    Names (child parent (outputName stem)) parent (outputName stem) := by
  obtain ⟨filled, suffix, member, names⟩ := source
  obtain ⟨-, before, after, parts, -⟩ := names.components
  have present : OsText.encode (stem ++ suffix) ∈ components path := by
    rw [parts]
    exact List.mem_append_right _ List.mem_cons_self
  have clear : slash ∉ outputName stem := by
    rw [outputName_eq]
    intro inside
    rcases List.mem_append.mp inside with early | late
    · refine slash_not_mem present ?_
      rw [OsText.encode_append]
      exact List.mem_append_left _ early
    · exact absurd late (by decide)
  obtain ⟨busy, file⟩ := outputName_fits filled
  exact names.sibling clear busy file

end Caju.Path
