import Caju.Proofs.SpelledStructures
import Caju.Proofs.Visits

/-! The order of structures. The array types of a program are those within a type that it
declares something with, each once and behind the array types within it. So every line of the
generated C names structures that lines above it have defined. -/

namespace Caju

/-! ### Lists that give what they need -/

section Supply

variable {α β : Type}

/-- Whether everything that an element of a list needs has been given before it, by the elements
in front of it or from the outset. -/
def Supplied (needs : α → β → Prop) (gives : α → List β) : List β → List α → Prop
  | _, [] => True
  | given, x :: rest => (∀ y, needs x y → y ∈ given) ∧ Supplied needs gives (given ++ gives x) rest

variable {needs : α → β → Prop} {gives : α → List β}

namespace Supplied

theorem mono {given more : List β} (covered : ∀ y ∈ given, y ∈ more) {list : List α}
    (supplied : Supplied needs gives given list) : Supplied needs gives more list := by
  induction list generalizing given more with
  | nil => trivial
  | cons x rest ih =>
    refine ⟨fun y need => covered y (supplied.1 y need), ih ?_ supplied.2⟩
    intro y member
    rcases List.mem_append.mp member with before | own
    · exact List.mem_append_left _ (covered y before)
    · exact List.mem_append_right _ own

theorem append {given : List β} {front behind : List α} (one : Supplied needs gives given front)
    (other : Supplied needs gives (given ++ front.flatMap gives) behind) :
    Supplied needs gives given (front ++ behind) := by
  induction front generalizing given with
  | nil => simpa using other
  | cons x rest ih => exact ⟨one.1, ih one.2 (by simpa using other)⟩

/-- A list whose elements need no more than is given from the outset. -/
theorem of_given {given : List β} {list : List α}
    (covered : ∀ x ∈ list, ∀ y, needs x y → y ∈ given) : Supplied needs gives given list := by
  induction list generalizing given with
  | nil => trivial
  | cons x rest ih =>
    obtain ⟨own, others⟩ := List.forall_mem_cons.mp covered
    exact ⟨own, ih fun x member y need => List.mem_append_left _ (others x member y need)⟩

/-- What an element needs is given by those in front of it. -/
theorem split {given : List β} {front behind : List α} {x : α}
    (supplied : Supplied needs gives given (front ++ x :: behind)) :
    ∀ y, needs x y → y ∈ given ++ front.flatMap gives := by
  induction front generalizing given with
  | nil => simpa using supplied.1
  | cons first rest ih => simpa using ih supplied.2

/-- Elements that give nothing new can be left out. -/
theorem filter {given : List β} {keep : α → Bool} {list : List α}
    (known : ∀ x, keep x = false → ∀ y ∈ gives x, y ∈ given)
    (supplied : Supplied needs gives given list) : Supplied needs gives given (list.filter keep) := by
  induction list generalizing given with
  | nil => trivial
  | cons x rest ih =>
    cases kept : keep x with
    | true =>
      rw [List.filter_cons_of_pos kept]
      exact ⟨supplied.1, ih (fun z out y own => List.mem_append_left _ (known z out y own)) supplied.2⟩
    | false =>
      rw [List.filter_cons_of_neg (by simp [kept])]
      refine ih known (supplied.2.mono fun y member => ?_)
      rcases List.mem_append.mp member with before | own
      · exact before
      · exact known x kept y own

/-- Elements may be looked at in another form, if they need no more in it and give the same. -/
theorem map {γ : Type} {form : α → γ} {needs' : γ → β → Prop} {gives' : γ → List β}
    {given : List β} {list : List α}
    (fewer : ∀ x ∈ list, ∀ y, needs' (form x) y → needs x y) (same : ∀ x, gives' (form x) = gives x)
    (supplied : Supplied needs gives given list) :
    Supplied needs' gives' given (list.map form) := by
  induction list generalizing given with
  | nil => trivial
  | cons x rest ih =>
    obtain ⟨own, others⟩ := List.forall_mem_cons.mp fewer
    refine ⟨fun y need => supplied.1 y (own y need), ?_⟩
    rw [same]
    exact ih others supplied.2

end Supplied

/-- Only the first of equal elements is needed. -/
theorem Supplied.eraseDups [DecidableEq β] {needs : β → β → Prop} : ∀ {given list : List β},
    Supplied needs (fun x => [x]) given list → Supplied needs (fun x => [x]) given list.eraseDups
  | _, [], supplied => by simpa using supplied
  | given, x :: rest, supplied => by
    rw [List.eraseDups_cons]
    refine ⟨supplied.1, Supplied.eraseDups (supplied.2.filter ?_)⟩
    intro z out y own
    rw [List.mem_singleton.mp own]
    exact List.mem_append_right _ (by simpa using out)
termination_by _ list _ => list.length
decreasing_by exact Nat.lt_succ_of_le (List.length_filter_le _ rest)

end Supply

/-! ### The array types of a program -/

namespace Ty

/-- A type occurs in another one, or is that type. -/
inductive Within (inner : Ty) : Ty → Prop where
  | refl : Within inner inner
  | element {element : Ty} : Within inner element → Within inner (array element)
  | param {params : List Ty} {result ty : Ty} : ty ∈ params → Within inner ty →
      Within inner (function params result)
  | result {params : List Ty} {result : Ty} : Within inner result →
      Within inner (function params result)

def isArray : Ty → Bool
  | array _ => true
  | _ => false

theorem mem_arraysAll {tys : List Ty} {found : Ty} :
    found ∈ arraysAll tys ↔ ∃ ty ∈ tys, found ∈ ty.arrays := by
  induction tys with
  | nil => simp [arraysAll]
  | cons ty rest ih => simp [arraysAll, ih]

mutual

theorem within_of_mem_arrays : ∀ {ty found : Ty}, found ∈ ty.arrays → found.Within ty
  | array element, found, member => by
    rcases List.mem_append.mp (by simpa only [arrays] using member) with inner | itself
    · exact .element (within_of_mem_arrays inner)
    · rw [List.mem_singleton.mp itself]
      exact .refl
  | function params result, found, member => by
    rcases List.mem_append.mp (by simpa only [arrays] using member) with among | inner
    · obtain ⟨ty, param, within⟩ := within_of_mem_arraysAll among
      exact .param param within
    · exact .result (within_of_mem_arrays inner)
  | number, _, member => by simp [arrays] at member
  | character, _, member => by simp [arrays] at member
  | boolean, _, member => by simp [arrays] at member
  | void, _, member => by simp [arrays] at member
  | unknown, _, member => by simp [arrays] at member

theorem within_of_mem_arraysAll : ∀ {tys : List Ty} {found : Ty}, found ∈ arraysAll tys →
    ∃ ty ∈ tys, found.Within ty
  | ty :: rest, found, member => by
    rcases List.mem_append.mp (by simpa only [arraysAll] using member) with first | later
    · exact ⟨ty, List.mem_cons_self, within_of_mem_arrays first⟩
    · obtain ⟨other, among, within⟩ := within_of_mem_arraysAll later
      exact ⟨other, List.mem_cons_of_mem _ among, within⟩

end

theorem Within.mem_arrays {ty found : Ty} (isArray : found.isArray = true)
    (within : found.Within ty) : found ∈ ty.arrays := by
  induction within with
  | refl =>
    cases found with
    | array element => exact List.mem_append_right _ List.mem_cons_self
    | _ => simp [Ty.isArray] at isArray
  | element _ ih => exact List.mem_append_left _ ih
  | param among _ ih => exact List.mem_append_left _ (mem_arraysAll.mpr ⟨_, among, ih⟩)
  | result _ ih => exact List.mem_append_right _ ih

/-- The array types of a type are the array types within it. -/
theorem mem_arrays_iff {ty found : Ty} :
    found ∈ ty.arrays ↔ found.isArray = true ∧ found.Within ty := by
  constructor
  · intro member
    have within := within_of_mem_arrays member
    obtain ⟨element, rfl⟩ := isArray_of_mem_arrays member
    exact ⟨rfl, within⟩
  · exact fun both => both.2.mem_arrays both.1

/-- The array types that an array type is made of. -/
def innerArrays : Ty → List Ty
  | array element => element.arrays
  | _ => []

/-- An array type within another one is among those that it is made of. -/
theorem Within.mem_innerArrays {ty inner : Ty} (isArray : inner.isArray = true)
    (outer : ty.isArray = true) (within : inner.Within ty) (proper : inner ≠ ty) :
    inner ∈ ty.innerArrays := by
  cases within with
  | refl => exact absurd rfl proper
  | element within => exact within.mem_arrays isArray
  | param _ _ => simp [Ty.isArray] at outer
  | result _ => simp [Ty.isArray] at outer

mutual

/-- Array types are listed behind those that they are made of. -/
theorem arrays_supplied : ∀ (ty : Ty) (given : List Ty),
    Supplied (fun ty inner => inner ∈ ty.innerArrays) (fun ty => [ty]) given ty.arrays
  | array element, given => by
    refine (arrays_supplied element given).append ⟨fun inner member => ?_, trivial⟩
    exact List.mem_append_right _ (by simpa [innerArrays] using member)
  | function params result, given =>
    (arraysAll_supplied params given).append (arrays_supplied result _)
  | number, _ => trivial
  | character, _ => trivial
  | boolean, _ => trivial
  | void, _ => trivial
  | unknown, _ => trivial

theorem arraysAll_supplied : ∀ (tys : List Ty) (given : List Ty),
    Supplied (fun ty inner => inner ∈ ty.innerArrays) (fun ty => [ty]) given (arraysAll tys)
  | [], _ => trivial
  | ty :: rest, given => (arrays_supplied ty given).append (arraysAll_supplied rest _)

end

theorem arraysAll_eq_flatMap (tys : List Ty) : arraysAll tys = tys.flatMap arrays := by
  induction tys with
  | nil => rfl
  | cons ty rest ih => rw [arraysAll, ih, List.flatMap_cons]

mutual

/-- The structures that a type is spelled with are those of array types within it. -/
theorem structures_of_arrays : ∀ ty : Ty, ∀ name ∈ ty.structures, name ∈ ty.arrays.map cType
  | array element => by
    refine List.forall_mem_singleton.mpr ?_
    exact List.mem_map_of_mem (List.mem_append_right _ List.mem_cons_self)
  | function params result => by
    rw [arrays, List.map_append]
    refine List.forall_mem_append.mpr ⟨fun name own => ?_, fun name own => ?_⟩
    · exact List.mem_append_left _ (structuresAll_of_arrays params name own)
    · exact List.mem_append_right _ (structures_of_arrays result name own)
  | number => List.forall_mem_nil _
  | character => List.forall_mem_nil _
  | boolean => List.forall_mem_nil _
  | void => List.forall_mem_nil _
  | unknown => List.forall_mem_nil _

theorem structuresAll_of_arrays : ∀ tys : List Ty,
    ∀ name ∈ structuresAll tys, name ∈ (arraysAll tys).map cType
  | [] => List.forall_mem_nil _
  | ty :: rest => by
    rw [arraysAll, List.map_append]
    refine List.forall_mem_append.mpr ⟨fun name own => ?_, fun name own => ?_⟩
    · exact List.mem_append_left _ (structures_of_arrays ty name own)
    · exact List.mem_append_right _ (structuresAll_of_arrays rest name own)

end

end Ty

namespace Stmt

/-- The type that a statement itself declares something with. -/
def declaredType? : Stmt → Option Ty
  | .declare decl => some decl.ty
  | .forEach ty _ _ _ => some ty
  | _ => none

mutual

/-- The types in a statement are those that its parts declare something with. -/
theorem declaredTypes_eq : ∀ stmt : Stmt, stmt.declaredTypes = stmt.parts.filterMap declaredType?
  | .declare _ => rfl
  | .assign _ => rfl
  | .call _ _ => rfl
  | .ret _ => rfl
  | .ifElse _ yes none => by
    rw [declaredTypes, declaredTypesAll_eq yes, parts, List.filterMap_cons_none rfl]
  | .ifElse _ yes (some no) => by
    rw [declaredTypes, declaredTypesAll_eq yes, declaredTypesAll_eq no, parts,
      List.filterMap_cons_none rfl, List.filterMap_append]
  | .whileDo _ body => by
    rw [declaredTypes, declaredTypesAll_eq body, parts, List.filterMap_cons_none rfl]
  | .forDo start condition step body => by
    have steps : ∀ assigns : List Assign, (assigns.map Stmt.assign).filterMap declaredType? = [] := by
      intro assigns
      simp [declaredType?]
    rw [declaredTypes, declaredTypesAll_eq body, parts, List.filterMap_cons_none rfl,
      List.filterMap_append, List.filterMap_append, List.filterMap_append, steps, steps]
    rfl
  | .forEach ty name container body => by
    have own : (Stmt.forEach ty name container body).declaredType? = some ty := rfl
    rw [declaredTypes, declaredTypesAll_eq body, parts, List.filterMap_cons_some own]

theorem declaredTypesAll_eq : ∀ stmts : List Stmt,
    declaredTypesAll stmts = (partsAll stmts).filterMap declaredType?
  | [] => rfl
  | stmt :: rest => by
    rw [declaredTypesAll, declaredTypes_eq stmt, declaredTypesAll_eq rest, partsAll,
      List.filterMap_append]

end

end Stmt

/-- An item declares something with a type: a variable, a parameter or a result, a variable of
a body however deep inside, or the element of a loop. -/
inductive Item.Declares : Item → Ty → Prop where
  | global (decl : VarDecl) : Declares (.declare decl) decl.ty
  | param {f : Function} {param : Param} : param ∈ f.params → Declares (.function f) param.ty
  | result (f : Function) : Declares (.function f) f.result
  | body {f : Function} {stmt : Stmt} {ty : Ty} : stmt ∈ Stmt.partsAll f.body →
      stmt.declaredType? = some ty → Declares (.function f) ty

/-- A program declares something with a type. -/
def Program.Declares (p : Program) (ty : Ty) : Prop := ∃ item ∈ p.items, item.Declares ty

/-- The array types of a signature are those of its parameters and of its result. -/
theorem Function.mem_arrays_signature (f : Function) {found : Ty} :
    found ∈ f.signature.arrays ↔
      (∃ param ∈ f.params, found ∈ param.ty.arrays) ∨ found ∈ f.result.arrays := by
  rw [signature, Ty.arrays, List.mem_append, Ty.mem_arraysAll]
  simp

theorem Item.mem_arrays_iff (item : Item) {found : Ty} :
    (∃ ty ∈ item.declaredTypes, found ∈ ty.arrays) ↔ ∃ ty, item.Declares ty ∧ found ∈ ty.arrays := by
  cases item with
  | declare decl =>
    constructor
    · rintro ⟨ty, member, within⟩
      rw [List.mem_singleton.mp member] at within
      exact ⟨decl.ty, .global decl, within⟩
    · rintro ⟨ty, declares, within⟩
      cases declares
      exact ⟨decl.ty, List.mem_cons_self, within⟩
  | function f =>
    constructor
    · rintro ⟨ty, member, within⟩
      rcases List.mem_cons.mp member with rfl | inside
      · rcases f.mem_arrays_signature.mp within with ⟨param, among, own⟩ | own
        · exact ⟨param.ty, .param among, own⟩
        · exact ⟨f.result, .result f, own⟩
      · rw [Stmt.declaredTypesAll_eq] at inside
        obtain ⟨stmt, part, declared⟩ := List.mem_filterMap.mp inside
        exact ⟨ty, .body part declared, within⟩
    · rintro ⟨ty, declares, within⟩
      cases declares with
      | param among =>
        exact ⟨f.signature, List.mem_cons_self, f.mem_arrays_signature.mpr (.inl ⟨_, among, within⟩)⟩
      | result => exact ⟨f.signature, List.mem_cons_self, f.mem_arrays_signature.mpr (.inr within)⟩
      | body part declared =>
        refine ⟨ty, List.mem_cons_of_mem _ ?_, within⟩
        rw [Stmt.declaredTypesAll_eq]
        exact List.mem_filterMap.mpr ⟨_, part, declared⟩

namespace Program

theorem mem_arrayTypes {p : Program} {found : Ty} :
    found ∈ p.arrayTypes ↔ ∃ ty ∈ p.declaredTypes, found ∈ ty.arrays := by
  rw [arrayTypes, List.mem_eraseDups, List.mem_flatMap]

/-- The array types of a program are those within a type that it declares something with. -/
theorem mem_arrayTypes_iff {p : Program} {found : Ty} :
    found ∈ p.arrayTypes ↔
      found.isArray = true ∧ ∃ ty, p.Declares ty ∧ found.Within ty := by
  constructor
  · intro member
    obtain ⟨ty, declared, within⟩ := mem_arrayTypes.mp member
    obtain ⟨item, inside, own⟩ := List.mem_flatMap.mp declared
    obtain ⟨ty, declares, within⟩ := item.mem_arrays_iff.mp ⟨ty, own, within⟩
    obtain ⟨isArray, within⟩ := Ty.mem_arrays_iff.mp within
    exact ⟨isArray, ty, ⟨item, inside, declares⟩, within⟩
  · rintro ⟨isArray, ty, ⟨item, inside, declares⟩, within⟩
    obtain ⟨ty, own, within⟩ := item.mem_arrays_iff.mpr
      ⟨ty, declares, Ty.mem_arrays_iff.mpr ⟨isArray, within⟩⟩
    exact mem_arrayTypes.mpr ⟨ty, List.mem_flatMap.mpr ⟨item, inside, own⟩, within⟩

theorem arrayTypes_supplied (p : Program) :
    Supplied (fun ty inner => inner ∈ ty.innerArrays) (fun ty => [ty]) [] p.arrayTypes := by
  rw [arrayTypes, ← Ty.arraysAll_eq_flatMap]
  exact (Ty.arraysAll_supplied p.declaredTypes []).eraseDups

/-- An array type comes behind the other array types within it. -/
theorem arrayTypes_ordered {p : Program} {before after : List Ty} {ty : Ty}
    (split : p.arrayTypes = before ++ ty :: after) {inner : Ty} (isArray : inner.isArray = true)
    (within : inner.Within ty) (proper : inner ≠ ty) : inner ∈ before := by
  have member : ty ∈ p.arrayTypes := by simp [split]
  have outer := (mem_arrayTypes_iff.mp member).1
  have supplied := p.arrayTypes_supplied
  rw [split] at supplied
  have found := supplied.split inner (within.mem_innerArrays isArray outer proper)
  simpa using found

end Program

/-! ### The lines of a program -/

open C

/-- The types in a line are those that its statement declares something with. -/
theorem Stmt.Own.types {stmt : Stmt} {line : Line} (own : stmt.Own line) :
    ∀ ty ∈ line.types, stmt.declaredType? = some ty := by
  cases own with
  | @declare decl line member =>
    refine decl.each_line (P := fun line => ∀ ty ∈ line.types, some decl.ty = some ty)
      (List.forall_mem_singleton.mpr rfl) (fun params result same _ _ => ?_) line member
    exact List.forall_mem_singleton.mpr (congrArg some same)
  | element number ty name container body => exact List.forall_mem_singleton.mpr rfl
  | _ => exact List.forall_mem_nil _

/-- No statement defines a structure. -/
theorem Stmt.Own.definition?_eq {stmt : Stmt} {line : Line} (own : stmt.Own line) :
    line.definition? = none := by
  cases own with
  | @declare decl line member =>
    exact decl.each_line (P := fun line => line.definition? = none) rfl (fun _ _ _ _ _ => rfl)
      line member
  | _ => rfl

namespace C.Placed

/-- A line needs the structures that its types are spelled with. -/
def Needs (placed : Placed) (name : String) : Prop :=
  ∃ ty ∈ placed.line.types, name ∈ ty.structures

/-- The structures that a line defines, as its text has it. -/
def defines (placed : Placed) : List String := (definedType? placed.text).toList

theorem flatMap_defines (lines : List Placed) :
    lines.flatMap defines = (lines.map Placed.text).filterMap definedType? := by
  rw [List.filterMap_map, List.filterMap_eq_flatMap_toList]
  rfl

end C.Placed

/-- A line that has declared types only, and defines no structure. -/
structure C.Line.Uses (declared : List Ty) (line : Line) : Prop where
  types : ∀ ty ∈ line.types, ty ∈ declared
  plain : line.definition? = none

theorem C.Line.uses_nothing {declared : List Ty} {line : Line} (bare : line.types = [])
    (plain : line.definition? = none) : line.Uses declared :=
  ⟨by simp [bare], plain⟩

theorem Stmt.Own.uses {stmt : Stmt} {line : Line} (own : stmt.Own line) {declared : List Ty}
    (known : ∀ ty, stmt.declaredType? = some ty → ty ∈ declared) : line.Uses declared :=
  ⟨fun ty member => known ty (own.types ty member), own.definition?_eq⟩

theorem Item.declaredTypes_subset {p : Program} {item : Item} (member : item ∈ p.items) :
    ∀ ty ∈ item.declaredTypes, ty ∈ p.declaredTypes := fun _ own =>
  List.mem_flatMap.mpr ⟨item, member, own⟩

namespace Program

theorem signature_declared {p : Program} {f : Function} (member : .function f ∈ p.items) :
    f.signature ∈ p.declaredTypes :=
  Item.declaredTypes_subset member _ List.mem_cons_self

theorem uses_prototypes (p : Program) : ∀ line ∈ p.prototypes, line.Uses p.declaredTypes := by
  unfold prototypes
  split
  · exact List.forall_mem_nil _
  · refine List.forall_mem_append.mpr ⟨List.forall_mem_map.mpr fun f member => ⟨?_, rfl⟩, ?_⟩
    · exact List.forall_mem_singleton.mpr (signature_declared (mem_functions member))
    · exact List.forall_mem_singleton.mpr (Line.uses_nothing rfl rfl)

theorem uses_items (p : Program) :
    ∀ placed ∈ Item.placedAll false p.items, placed.line.Uses p.declaredTypes := by
  refine Item.each_placed (Line.uses_nothing rfl rfl) (fun decl member line inside => ?_)
    (fun f member => ?_) false
  · refine (Stmt.Own.declare inside).uses fun ty declared => ?_
    exact Item.declaredTypes_subset member ty (by simpa [Stmt.declaredType?, Item.declaredTypes,
      eq_comm] using declared)
  · have header : (Line.header f).Uses p.declaredTypes :=
      ⟨List.forall_mem_singleton.mpr (signature_declared member), rfl⟩
    refine f.each_placed header (Line.uses_nothing rfl rfl) (Line.uses_nothing rfl rfl)
      (Line.uses_nothing rfl rfl) (fun stmt part line own => own.uses fun ty declared => ?_) 0
    refine Item.declaredTypes_subset member ty (List.mem_cons_of_mem _ ?_)
    rw [Stmt.declaredTypesAll_eq]
    exact List.mem_filterMap.mpr ⟨stmt, part, declared⟩

/-- The structures of declared types are those of the array types of a program. -/
theorem structures_known {p : Program} {ty : Ty} (declared : ty ∈ p.declaredTypes) :
    ∀ name ∈ ty.structures, name ∈ p.arrayTypes.map Ty.cType := by
  intro name own
  obtain ⟨found, within, rfl⟩ := List.mem_map.mp (ty.structures_of_arrays name own)
  exact List.mem_map_of_mem (mem_arrayTypes.mpr ⟨ty, declared, within⟩)

end Program

namespace Ty

/-- The lines of a structure need what its element is spelled with. -/
theorem definition_supplied {element : Ty} {given : List String}
    (known : ∀ name ∈ element.structures, name ∈ given) :
    Supplied Placed.Needs Placed.defines given (placeAll 0 (array element).definition) := by
  apply Supplied.of_given
  refine List.forall_mem_map.mpr fun line inside name needs => ?_
  obtain ⟨ty, spelled, own⟩ := needs
  simp only [definition, List.mem_cons, List.not_mem_nil, or_false] at inside
  rcases inside with rfl | rfl | rfl | rfl | rfl
  · exact absurd spelled List.not_mem_nil
  · rw [List.mem_singleton.mp spelled] at own
    exact known name own
  · exact absurd spelled List.not_mem_nil
  · exact absurd spelled List.not_mem_nil
  · exact absurd spelled List.not_mem_nil

theorem definition_defines (element : Ty) :
    (placeAll 0 (array element).definition).flatMap Placed.defines = [(array element).cType] := by
  rw [Placed.flatMap_defines, placeAll_text, ← structureLines_eq]
  exact element.definedTypes_structureLines

/-- Structures in the order of their types are defined before they are needed. -/
theorem definitions_supplied {tys given : List Ty} (arrays : ∀ ty ∈ tys, ty.isArray = true)
    (supplied : Supplied (fun ty inner => inner ∈ ty.innerArrays) (fun ty => [ty]) given tys) :
    Supplied Placed.Needs Placed.defines (given.map cType)
      (placeAll 0 (tys.flatMap Ty.definition)) := by
  induction tys generalizing given with
  | nil => trivial
  | cons ty rest ih =>
    obtain ⟨own, others⟩ := List.forall_mem_cons.mp arrays
    cases ty with
    | array element =>
      have first : ∀ name ∈ element.structures, name ∈ given.map cType := by
        intro name spelled
        obtain ⟨inner, within, rfl⟩ := List.mem_map.mp (element.structures_of_arrays name spelled)
        exact List.mem_map_of_mem (supplied.1 inner within)
      have behind := ih others supplied.2
      rw [List.flatMap_cons, placeAll_append]
      refine (definition_supplied first).append ?_
      rw [definition_defines]
      simpa using behind
    | _ => simp [isArray] at own

end Ty

/-- A line has the name of a structure among its words, and does not define it. -/
def C.NamesStructure (line name : String) : Prop :=
  (∃ element : Ty, name = (Ty.array element).cType) ∧ name.toList ∈ words line.toList ∧
    definedType? line ≠ some name

namespace Program

/-- Every line of a program has its structures defined above it. -/
theorem placed_supplied (p : Program) : Supplied Placed.Needs Placed.defines [] p.placed := by
  have arrays : ∀ ty ∈ p.arrayTypes, ty.isArray = true := fun ty member =>
    (mem_arrayTypes_iff.mp member).1
  have structures := Ty.definitions_supplied arrays p.arrayTypes_supplied
  have defined : (placeAll 0 (p.arrayTypes.flatMap Ty.definition)).flatMap Placed.defines =
      p.arrayTypes.map Ty.cType := by
    rw [Placed.flatMap_defines, placeAll_text, ← p.definedTypes_eq]
    rw [List.map_flatMap]
    exact congrArg _ (List.flatMap_congr fun ty _ => ty.structureLines_eq.symm)
  have uses : ∀ placed ∈ placeAll 0 p.prototypes ++ Item.placedAll false p.items,
      placed.line.Uses p.declaredTypes :=
    List.forall_mem_append.mpr ⟨List.forall_mem_map.mpr p.uses_prototypes, p.uses_items⟩
  have below : Supplied Placed.Needs Placed.defines (p.arrayTypes.map Ty.cType)
      (placeAll 0 p.prototypes ++ Item.placedAll false p.items) := by
    apply Supplied.of_given
    rintro placed member name ⟨ty, spelled, own⟩
    exact structures_known ((uses placed member).types ty spelled) name own
  have opened : (placeAll 0 opening).flatMap Placed.defines = [] := by decide
  have nothing : Supplied Placed.Needs Placed.defines [] (placeAll 0 opening) := by
    apply Supplied.of_given
    simp [placeAll, opening, Placed.Needs, Line.types, Line.blank]
  rw [placed, front, placeAll_append, placeAll_append, List.append_assoc, List.append_assoc]
  refine nothing.append ?_
  rw [opened]
  refine structures.append ?_
  rw [defined]
  exact below

/-- A line that is to define a structure does so by its text. -/
theorem definedType?_placed (p : Program) : ∀ placed ∈ p.placed, ∀ name,
    placed.line.definition? = some name → definedType? placed.text = some name := by
  refine List.forall_mem_append.mpr ⟨List.forall_mem_map.mpr fun line _ name defines => ?_,
    fun placed member name defines => ?_⟩
  · cases line with
    | defined ty =>
      rw [← defines]
      simp [Placed.text, Emitter.indented, Line.text, Line.definition?, definedType?]
    | _ => simp [Line.definition?] at defines
  · have plain := (p.uses_items placed member).plain
    rw [plain] at defines
    exact absurd defines (by simp)

theorem text_supplied (p : Program) (named : ∀ name ∈ p.names, isIdentifier name = true) :
    Supplied NamesStructure (fun line => (definedType? line).toList) []
      (p.placed.map Placed.text) := by
  refine p.placed_supplied.map (fun placed member name names => ?_) fun _ => rfl
  obtain ⟨⟨element, rfl⟩, word, other⟩ := names
  have own : ∀ name ∈ placed.line.names, isIdentifier name = true := fun name present =>
    named name (p.placed_names placed member name present)
  have spelled := spells_indented (placed.line.spells own) placed.level element word
  rcases List.mem_append.mp spelled with used | defined
  · exact List.mem_flatMap.mp used
  · have text := p.definedType?_placed placed member _ (Option.mem_toList.mp defined)
    exact absurd text other

/-- The array types of a program are listed once each. They are those within a type that the
program declares something with, and each comes behind the other array types within it. So every
structure that a line is spelled with has been defined on a line above; if the names of the
program are C identifiers, the text alone shows so. -/
theorem structures_in_order (p : Program) (e : Emitter) :
    p.arrayTypes.Nodup ∧
    (∀ ty, ty ∈ p.arrayTypes ↔
      ty.isArray = true ∧ ∃ declared, p.Declares declared ∧ ty.Within declared) ∧
    (∀ before ty after, p.arrayTypes = before ++ ty :: after →
      ∀ inner : Ty, inner.isArray = true → inner.Within ty → inner ≠ ty → inner ∈ before) ∧
    (p.emit e).lines.toList = p.placed.map Placed.text ∧
    (∀ before placed after, p.placed = before ++ placed :: after →
      ∀ ty ∈ placed.line.types, ∀ name ∈ ty.structures,
        name ∈ (before.map Placed.text).filterMap definedType?) ∧
    ((∀ name ∈ p.names, isIdentifier name = true) →
      ∀ before line after, (p.emit e).lines.toList = before ++ line :: after →
        ∀ element : Ty, (Ty.array element).cType.toList ∈ words line.toList →
          (Ty.array element).cType ∈ before.filterMap definedType? ∨
            definedType? line = some (Ty.array element).cType) := by
  refine ⟨p.nodup_arrayTypes, fun ty => mem_arrayTypes_iff, ?_, p.emit_placed e, ?_, ?_⟩
  · intro before ty after split inner isArray within proper
    exact arrayTypes_ordered split isArray within proper
  · intro before placed after split ty spelled name own
    have supplied := p.placed_supplied
    rw [split] at supplied
    have found := supplied.split name ⟨ty, spelled, own⟩
    rwa [List.nil_append, Placed.flatMap_defines] at found
  · intro named before line after split element word
    have supplied := p.text_supplied named
    rw [← p.emit_placed e, split] at supplied
    by_cases itself : definedType? line = some (Ty.array element).cType
    · exact .inr itself
    · have found := supplied.split _ ⟨⟨element, rfl⟩, word, itself⟩
      rw [List.nil_append, ← List.filterMap_eq_flatMap_toList] at found
      exact .inl found

/-- Array types in a function type, in a parameter, and in the declarations of a body. -/
theorem structures_in_order_nested :
    let p : Program := ⟨[.declare ⟨.function [.array (.array .number)] (.array .character), ["table"]⟩,
      .function ⟨"show", [⟨"rows", .array (.array .number)⟩], .void,
        [.forEach (.array .number) "row" "rows" [.declare ⟨.array .boolean, ["seen"]⟩]]⟩]⟩
    (∀ name ∈ p.names, isIdentifier name = true) ∧
      ∀ before line after, (p.emit .fresh).lines.toList = before ++ line :: after →
        ∀ element : Ty, (Ty.array element).cType.toList ∈ words line.toList →
          (Ty.array element).cType ∈ before.filterMap definedType? ∨
            definedType? line = some (Ty.array element).cType := by
  intro p
  have named : ∀ name ∈ p.names, isIdentifier name = true := by decide
  obtain ⟨_, _, _, _, _, textual⟩ := Program.structures_in_order p .fresh
  exact ⟨named, textual named⟩

end Program

end Caju
