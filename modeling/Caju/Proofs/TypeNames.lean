import Caju.C.Program
import Mathlib.Data.List.Nodup

/-! The names of the structures that array types become. A name spells its type word by
word from the outside in, but it does not say where the parameters of a function end, nor
whether an `int` stands for `numero` or for no known type. So two array types share a name
exactly if they read alike in that respect, and every type whose parameters are free of
functions has a name of its own. -/

namespace Caju

/-- The words that the name of a type is put together from. -/
inductive NameWord where
  | int
  | char
  | bool
  | void
  | array
  | fn
  deriving DecidableEq, Inhabited

def NameWord.text : NameWord → String
  | int => "int"
  | char => "char"
  | bool => "bool"
  | void => "void"
  | array => "array"
  | fn => "fn"

namespace Ty

mutual

/-- A type as its name tells it: each constructor before its parts, however many parameters
a function has. -/
def outline : Ty → List NameWord
  | number => [.int]
  | unknown => [.int]
  | character => [.char]
  | boolean => [.bool]
  | void => [.void]
  | array element => .array :: outline element
  | function params result => .fn :: (outlineAll params ++ outline result)

def outlineAll : List Ty → List NameWord
  | [] => []
  | ty :: rest => outline ty ++ outlineAll rest

end

/-- Whether a type is known throughout and has no function in it. -/
def isData : Ty → Bool
  | unknown => false
  | array element => element.isData
  | function _ _ => false
  | _ => true

/-- Whether a type is known throughout and has no function among the parameters of
another. -/
def isLegible : Ty → Bool
  | unknown => false
  | array element => element.isLegible
  | function params result => params.all isData && result.isLegible
  | _ => true

theorem outline_ne_nil (ty : Ty) : ty.outline ≠ [] := by
  cases ty <;> simp [outline]

end Ty

/-- The letters of a name made of the given words. -/
def NameWord.spell (words : List NameWord) : List Char :=
  ['_'].intercalate (words.map fun word => word.text.toList)

namespace NameWord

private theorem no_underscore (word : NameWord) : '_' ∉ word.text.toList := by
  cases word <;> decide

private theorem text_injective : Function.Injective fun word : NameWord => word.text.toList := by
  intro word other same
  cases word <;> cases other <;> simp_all [text]

theorem spell_injective {words others : List NameWord} (nonempty : words ≠ [])
    (nonempty' : others ≠ []) (same : spell words = spell others) : words = others := by
  -- No word has an underscore, so cutting at the underscores gives the words back.
  have cut : ∀ ws : List NameWord, ws ≠ [] →
      (spell ws).splitOn '_' = ws.map fun word => word.text.toList := by
    intro ws some
    refine List.splitOn_intercalate '_' ?_ (by simpa using some)
    intro letters member
    obtain ⟨word, _, rfl⟩ := List.mem_map.mp member
    exact no_underscore word
  have letters := congrArg (List.splitOn '_') same
  rw [cut words nonempty, cut others nonempty'] at letters
  exact List.map_injective_iff.mpr text_injective letters

theorem spell_append {first second : List NameWord} (nonempty : first ≠ [])
    (nonempty' : second ≠ []) : spell (first ++ second) = spell first ++ '_' :: spell second := by
  obtain ⟨next, more, rfl⟩ := List.exists_cons_of_ne_nil nonempty'
  induction first with
  | nil => exact absurd rfl nonempty
  | cons word rest ih =>
    cases rest with
    | nil => simp [spell, List.intercalate_cons_cons]
    | cons second rest =>
      have shorter := ih (List.cons_ne_nil _ _)
      simp only [spell, List.cons_append, List.map_cons, List.map_append] at shorter ⊢
      rw [List.intercalate_cons_cons, shorter, List.intercalate_cons_cons]
      simp

end NameWord

namespace Ty

open NameWord (spell spell_append spell_injective)

mutual

/-- A name is its type's outline, spelled out. -/
theorem toList_mangle : ∀ ty : Ty, ty.mangle.toList = spell ty.outline
  | number => rfl
  | unknown => rfl
  | character => rfl
  | boolean => rfl
  | void => rfl
  | array element => by
    have split := spell_append (List.cons_ne_nil NameWord.array []) element.outline_ne_nil
    rw [mangle, String.toList_append, toList_mangle element]
    exact split.symm
  | function params result => by
    have rest : outlineAll params ++ outline result ≠ [] := by
      simp [result.outline_ne_nil]
    have split := spell_append (List.cons_ne_nil NameWord.fn []) rest
    rw [mangle, String.toList_append, toList_mangleAll params result (toList_mangle result)]
    exact split.symm

theorem toList_mangleAll : ∀ (params : List Ty) (result : Ty),
    result.mangle.toList = spell result.outline →
    ("_".intercalate (mangleAll params ++ [mangle result])).toList =
      spell (outlineAll params ++ outline result)
  | [], result, spelled => by simpa [mangleAll, outlineAll] using spelled
  | ty :: rest, result, spelled => by
    have others := toList_mangleAll rest result spelled
    have remains : outlineAll rest ++ outline result ≠ [] := by simp [result.outline_ne_nil]
    have more : mangleAll rest ++ [mangle result] ≠ [] := by simp
    obtain ⟨next, later, shape⟩ := List.exists_cons_of_ne_nil more
    rw [outlineAll, List.append_assoc, spell_append ty.outline_ne_nil remains, ← others,
      ← toList_mangle ty, mangleAll, List.cons_append, shape, String.intercalate_cons_cons]
    simp

end

/-- Two array types have the same C name exactly if their outlines are the same. -/
theorem cType_array_eq_iff (element other : Ty) :
    (array element).cType = (array other).cType ↔ (array element).outline = (array other).outline := by
  have nonempty := outline_ne_nil
  simp only [cType, String.append_right_inj]
  rw [← String.toList_inj, toList_mangle, toList_mangle]
  exact ⟨spell_injective (nonempty _) (nonempty _), congrArg spell⟩

/-- The outline of a data type shows where it ends. -/
private theorem outline_append_inj : ∀ {first second : Ty} {rest rest' : List NameWord},
    first.isData = true → second.isData = true →
    first.outline ++ rest = second.outline ++ rest' → first = second ∧ rest = rest'
  | array element, second, rest, rest', data, data', same => by
    cases second <;> simp [outline, isData] at data data' same
    obtain ⟨inner, tail⟩ := outline_append_inj data data' same
    exact ⟨congrArg array inner, tail⟩
  | number, second, _, _, _, data', same => by
    cases second <;> simp [outline, isData] at data' same ⊢; exact same
  | character, second, _, _, _, data', same => by
    cases second <;> simp [outline, isData] at data' same ⊢; exact same
  | boolean, second, _, _, _, data', same => by
    cases second <;> simp [outline, isData] at data' same ⊢; exact same
  | void, second, _, _, _, data', same => by
    cases second <;> simp [outline, isData] at data' same ⊢; exact same

/-- Nothing can follow the outline of a data type in the outline of one type. -/
private theorem outline_eq_append : ∀ {data ty : Ty} {rest : List NameWord},
    data.isData = true → ty.outline = data.outline ++ rest → rest = []
  | array element, ty, rest, data, same => by
    cases ty <;> simp [outline, isData] at data same
    exact outline_eq_append data same
  | number, ty, _, _, same => by cases ty <;> simp_all [outline]
  | character, ty, _, _, same => by cases ty <;> simp_all [outline]
  | boolean, ty, _, _, same => by cases ty <;> simp_all [outline]
  | void, ty, _, _, same => by cases ty <;> simp_all [outline]

/-- Among parameters that are data, the outline shows where they end and the result begins. -/
private theorem outlineAll_append_inj {params others : List Ty} {result other : Ty}
    (data : ∀ ty ∈ params, ty.isData = true) (data' : ∀ ty ∈ others, ty.isData = true)
    (same : outlineAll params ++ result.outline = outlineAll others ++ other.outline) :
    params = others ∧ result.outline = other.outline := by
  induction params generalizing others with
  | nil =>
    cases others with
    | nil => exact ⟨rfl, same⟩
    | cons ty rest =>
      rw [outlineAll, outlineAll, List.nil_append, List.append_assoc] at same
      have none := outline_eq_append (data' ty List.mem_cons_self) same
      exact absurd (List.append_eq_nil_iff.mp none).2 other.outline_ne_nil
  | cons ty rest ih =>
    cases others with
    | nil =>
      rw [outlineAll, outlineAll, List.nil_append, List.append_assoc] at same
      have none := outline_eq_append (data ty List.mem_cons_self) same.symm
      exact absurd (List.append_eq_nil_iff.mp none).2 result.outline_ne_nil
    | cons ty' rest' =>
      rw [outlineAll, outlineAll, List.append_assoc, List.append_assoc] at same
      obtain ⟨head, tail⟩ :=
        outline_append_inj (data ty List.mem_cons_self) (data' ty' List.mem_cons_self) same
      obtain ⟨equal, results⟩ := ih (fun ty member => data ty (List.mem_cons_of_mem _ member))
        (fun ty member => data' ty (List.mem_cons_of_mem _ member)) tail
      exact ⟨by rw [head, equal], results⟩

/-- A legible type is the only legible type with its outline. -/
theorem outline_inj : ∀ {first second : Ty}, first.isLegible = true → second.isLegible = true →
    first.outline = second.outline → first = second
  | array element, second, legible, legible', same => by
    cases second <;> simp [outline, isLegible] at legible legible' same
    exact congrArg array (outline_inj legible legible' same)
  | function params result, second, legible, legible', same => by
    cases second with
    | function others other =>
      simp only [isLegible, Bool.and_eq_true, List.all_eq_true] at legible legible'
      have tails := (List.cons.inj (by simpa only [outline] using same)).2
      obtain ⟨equal, results⟩ := outlineAll_append_inj legible.1 legible'.1 tails
      rw [equal, outline_inj legible.2 legible'.2 results]
    | _ => simp [outline] at same
  | number, second, _, legible', same => by
    cases second <;> simp [outline, isLegible] at legible' same ⊢
  | character, second, _, _, same => by cases second <;> simp [outline] at same ⊢
  | boolean, second, _, _, same => by cases second <;> simp [outline] at same ⊢
  | void, second, _, _, same => by cases second <;> simp [outline] at same ⊢

mutual

/-- Only array types are collected as array types. -/
theorem isArray_of_mem_arrays : ∀ {ty found : Ty}, found ∈ ty.arrays → ∃ element, found = array element
  | array element, found, member => by
    rcases List.mem_append.mp (by simpa only [arrays] using member) with inner | itself
    · exact isArray_of_mem_arrays inner
    · exact ⟨element, List.mem_singleton.mp itself⟩
  | function params result, found, member => by
    rcases List.mem_append.mp (by simpa only [arrays] using member) with param | inner
    · exact isArray_of_mem_arraysAll param
    · exact isArray_of_mem_arrays inner
  | number, _, member => by simp [arrays] at member
  | character, _, member => by simp [arrays] at member
  | boolean, _, member => by simp [arrays] at member
  | void, _, member => by simp [arrays] at member
  | unknown, _, member => by simp [arrays] at member

theorem isArray_of_mem_arraysAll : ∀ {tys : List Ty} {found : Ty}, found ∈ arraysAll tys →
    ∃ element, found = array element
  | ty :: rest, found, member => by
    rcases List.mem_append.mp (by simpa only [arraysAll] using member) with head | tail
    · exact isArray_of_mem_arrays head
    · exact isArray_of_mem_arraysAll tail

end

end Ty

private theorem nodup_eraseDups {α : Type} [DecidableEq α] (xs : List α) : xs.eraseDups.Nodup := by
  induction h : xs.length using Nat.strongRecOn generalizing xs with
  | ind n ih =>
    cases xs with
    | nil => simp
    | cons x rest =>
      have shorter : (rest.filter fun y => !y == x).length < n := by
        have := List.length_filter_le (fun y => !y == x) rest
        simp only [List.length_cons] at h
        omega
      rw [List.eraseDups_cons, List.nodup_cons]
      exact ⟨by simp, ih _ shorter _ rfl⟩

namespace Program

theorem nodup_arrayTypes (p : Program) : p.arrayTypes.Nodup := nodup_eraseDups _

theorem isArray_of_mem_arrayTypes {p : Program} {ty : Ty} (member : ty ∈ p.arrayTypes) :
    ∃ element, ty = .array element := by
  obtain ⟨declared, _, within⟩ := List.mem_flatMap.mp (List.mem_eraseDups.mp member)
  exact Ty.isArray_of_mem_arrays within

end Program

/-- The name that a line gives to the structure it closes. -/
def C.definedType? (line : String) : Option String :=
  match line.toList with
  | '}' :: ' ' :: name => some (String.ofList name.dropLast)
  | _ => none

/-- The lines of a structure define its type's C name, and nothing else. -/
theorem Ty.definedTypes_structureLines (element : Ty) :
    (array element).structureLines.filterMap C.definedType? = [(array element).cType] := by
  simp [structureLines, element?, C.definedType?]

namespace Program

/-- The structures of a program are defined under the C names of its array types. -/
theorem definedTypes_eq (p : Program) :
    (p.arrayTypes.flatMap Ty.structureLines).filterMap C.definedType? = p.arrayTypes.map Ty.cType := by
  have each : ∀ ty ∈ p.arrayTypes, ty.structureLines.filterMap C.definedType? = [ty.cType] := by
    intro ty member
    obtain ⟨element, rfl⟩ := isArray_of_mem_arrayTypes member
    exact element.definedTypes_structureLines
  rw [List.filterMap_flatMap, List.map_eq_flatMap]
  exact List.flatMap_congr each

/-- Every array type of a program has a structure defined under its C name, one after
another. These names are all different exactly if the outlines of the types are, and so
they are where no type is unknown or takes functions as parameters. -/
theorem structure_names (p : Program) :
    (p.arrayTypes.flatMap Ty.structureLines).filterMap C.definedType? = p.arrayTypes.map Ty.cType ∧
    ((p.arrayTypes.map Ty.cType).Nodup ↔ (p.arrayTypes.map Ty.outline).Nodup) ∧
    ((∀ ty ∈ p.arrayTypes, ty.isLegible = true) → (p.arrayTypes.map Ty.cType).Nodup) := by
  have names : ∀ ty ∈ p.arrayTypes, ∀ other ∈ p.arrayTypes,
      ty.cType = other.cType ↔ ty.outline = other.outline := by
    intro ty member other member'
    obtain ⟨element, rfl⟩ := isArray_of_mem_arrayTypes member
    obtain ⟨element', rfl⟩ := isArray_of_mem_arrayTypes member'
    exact Ty.cType_array_eq_iff element element'
  have distinct : (p.arrayTypes.map Ty.cType).Nodup ↔ (p.arrayTypes.map Ty.outline).Nodup := by
    rw [List.nodup_map_iff_inj_on p.nodup_arrayTypes, List.nodup_map_iff_inj_on p.nodup_arrayTypes]
    exact ⟨fun inj ty member other member' same =>
        inj ty member other member' ((names ty member other member').mpr same),
      fun inj ty member other member' same =>
        inj ty member other member' ((names ty member other member').mp same)⟩
  refine ⟨?_, distinct, fun legible => distinct.mpr ?_⟩
  · exact p.definedTypes_eq
  · refine (List.nodup_map_iff_inj_on p.nodup_arrayTypes).mpr ?_
    exact fun ty member other member' => Ty.outline_inj (legible ty member) (legible other member')

/-- Functions may return functions, and arrays may hold either. -/
theorem structure_names_legible :
    let p : Program := ⟨[
      .declare ⟨.array (.function [.number, .array .character] (.function [.number] .void)), ["a"]⟩,
      .declare ⟨.array (.function [.number] (.function [.number] .void)), ["b"]⟩]⟩
    (∀ ty ∈ p.arrayTypes, ty.isLegible = true) ∧
    p.arrayTypes.map Ty.cType = ["caju_array_char", "caju_array_fn_int_array_char_fn_int_void",
      "caju_array_fn_int_fn_int_void"] ∧
    ["caju_array_char", "caju_array_fn_int_array_char_fn_int_void",
      "caju_array_fn_int_fn_int_void"].Nodup := by
  intro p
  have legible : ∀ ty ∈ p.arrayTypes, ty.isLegible = true := by decide
  exact ⟨legible, by decide, (structure_names p).2.2 legible⟩

/-- Two array types of one program may share a name: a function of a `numero` that returns
a function of another, and one of a `numero` and of a function without parameters. -/
theorem structure_names_clash :
    let p : Program := ⟨[
      .declare ⟨.array (.function [.number] (.function [.number] .number)), ["a"]⟩,
      .declare ⟨.array (.function [.number, .function [] .number] .number), ["b"]⟩]⟩
    p.arrayTypes = [.array (.function [.number] (.function [.number] .number)),
      .array (.function [.number, .function [] .number] .number)] ∧
    (p.arrayTypes.flatMap Ty.structureLines).filterMap C.definedType? =
      ["caju_array_fn_int_fn_int_int", "caju_array_fn_int_fn_int_int"] ∧
    ¬ ∀ p : Program, (p.arrayTypes.map Ty.cType).Nodup := by
  intro p
  have names : p.arrayTypes.map Ty.cType =
      ["caju_array_fn_int_fn_int_int", "caju_array_fn_int_fn_int_int"] := by decide
  refine ⟨by decide, p.definedTypes_eq.trans names, fun distinct => ?_⟩
  exact absurd (names ▸ distinct p) (by decide)

end Program

end Caju
