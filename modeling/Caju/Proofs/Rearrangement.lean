import Caju.Proofs.JsonForms
import Mathlib.Data.List.Perm.Basic

/-! Objects with their members in another order. The members of an object may be permuted, and
so may those of any object inside it, however deep; words and elements stay where they are.
Main statement: values that are rearranged agree at the outermost level, apart from the order of
members, and are rearranged inside (`Value.Rearranged.corresponds`). -/

namespace Caju.Json

/-- The same form but for the order of members, at any depth. -/
inductive Form.Rearranged : Form → Form → Prop
  | refl (form : Form) : Rearranged form form
  | trans {first second third : Form} (early : Rearranged first second)
    (late : Rearranged second third) : Rearranged first third
  | permute {entries others : List (List Char × Form)} (perm : entries.Perm others) :
    Rearranged (.group .object entries) (.group .object others)
  | inside {bracket : Bracket} {form other : Form} (front : List (List Char × Form))
    (key : List Char) (back : List (List Char × Form)) (inner : Rearranged form other) :
    Rearranged (.group bracket (front ++ (key, form) :: back))
      (.group bracket (front ++ (key, other) :: back))

namespace Value

/-- The same value but for the order of members, at any depth. -/
inductive Rearranged : Value → Value → Prop
  | refl (v : Value) : Rearranged v v
  | trans {first second third : Value} (early : Rearranged first second)
    (late : Rearranged second third) : Rearranged first third
  | permute {ms ns : List (String × Value)} (perm : ms.Perm ns) :
    Rearranged (.object ms) (.object ns)
  | element {v w : Value} (front back : List Value) (inner : Rearranged v w) :
    Rearranged (.list (front ++ v :: back)) (.list (front ++ w :: back))
  | member {v w : Value} (front : List (String × Value)) (name : String)
    (back : List (String × Value)) (inner : Rearranged v w) :
    Rearranged (.object (front ++ (name, v) :: back)) (.object (front ++ (name, w) :: back))

theorem Rearranged.symm {v w : Value} (rearranged : v.Rearranged w) : w.Rearranged v := by
  induction rearranged with
  | refl v => exact .refl v
  | trans _ _ early late => exact late.trans early
  | permute perm => exact .permute perm.symm
  | element front back _ ih => exact .element front back ih
  | member front name back _ ih => exact .member front name back ih

/-- The same name, and rearranged values. -/
def MemberAlike (m n : String × Value) : Prop := m.1 = n.1 ∧ m.2.Rearranged n.2

/-- The same members in some order, with rearranged values. -/
def MembersAlike (ms ns : List (String × Value)) : Prop :=
  ∃ ls, ms.Perm ls ∧ List.Forall₂ MemberAlike ls ns

theorem MemberAlike.refl (m : String × Value) : MemberAlike m m := ⟨rfl, .refl m.2⟩

theorem MemberAlike.trans {m n l : String × Value} (early : MemberAlike m n)
    (late : MemberAlike n l) : MemberAlike m l :=
  ⟨early.1.trans late.1, .trans early.2 late.2⟩

theorem forall₂_trans {α : Type} {R : α → α → Prop} (trans : ∀ a b c, R a b → R b c → R a c)
    {first second third : List α} (early : List.Forall₂ R first second)
    (late : List.Forall₂ R second third) : List.Forall₂ R first third := by
  induction early generalizing third with
  | nil => exact late
  | cons here _ ih =>
    cases late with
    | cons there others => exact .cons (trans _ _ _ here there) (ih others)

namespace MembersAlike

variable {ms ns ls : List (String × Value)}

theorem of_forall₂ (each : List.Forall₂ MemberAlike ms ns) : MembersAlike ms ns :=
  ⟨ms, .refl ms, each⟩

theorem of_perm (perm : ms.Perm ns) : MembersAlike ms ns :=
  ⟨ns, perm, List.forall₂_same.mpr fun m _ => .refl m⟩

theorem trans (early : MembersAlike ms ns) (late : MembersAlike ns ls) : MembersAlike ms ls := by
  obtain ⟨middle, perm, each⟩ := early
  obtain ⟨after, perm', each'⟩ := late
  -- the second permutation can be made before any value is changed
  have moved : Relation.Comp List.Perm (List.Forall₂ MemberAlike) middle after := by
    rw [← List.forall₂_comp_perm_eq_perm_comp_forall₂]
    exact ⟨ns, each, perm'⟩
  obtain ⟨before, permuted, alike⟩ := moved
  exact ⟨before, perm.trans permuted, forall₂_trans (fun _ _ _ => .trans) alike each'⟩

/-- Taking members out by their names. -/
theorem filter (keep : String → Bool) (alike : MembersAlike ms ns) :
    MembersAlike (ms.filter fun m => keep m.1) (ns.filter fun n => keep n.1) := by
  obtain ⟨middle, perm, each⟩ := alike
  refine ⟨middle.filter fun m => keep m.1, perm.filter _, ?_⟩
  refine List.rel_filter ?_ each
  rintro m n ⟨same, -⟩
  show keep m.1 = true ↔ keep n.1 = true
  rw [same]

theorem singleton {m : String × Value} (alike : MembersAlike [m] ns) :
    ∃ w, ns = [(m.1, w)] ∧ m.2.Rearranged w := by
  obtain ⟨middle, perm, each⟩ := alike
  rw [← List.singleton_perm.mp perm] at each
  obtain ⟨n, others, ⟨same, inner⟩, rest, rfl⟩ := List.forall₂_cons_left_iff.mp each
  obtain rfl := List.forall₂_nil_left_iff.mp rest
  exact ⟨n.2, by rw [same], inner⟩

theorem length_eq (alike : MembersAlike ms ns) : ms.length = ns.length := by
  obtain ⟨middle, perm, each⟩ := alike
  exact perm.length_eq.trans each.length_eq

/-- Members are alike if there are none, or one, or several. -/
theorem none_or_one_or_more (alike : MembersAlike ms ns) :
    (ms = [] ∧ ns = []) ∨
    (∃ name v w, ms = [(name, v)] ∧ ns = [(name, w)] ∧ v.Rearranged w) ∨
    ∃ m m' others n n' others', ms = m :: m' :: others ∧ ns = n :: n' :: others' := by
  have lengths := alike.length_eq
  cases ms with
  | nil => exact .inl ⟨rfl, List.length_eq_zero_iff.mp lengths.symm⟩
  | cons m rest =>
    cases rest with
    | nil =>
      obtain ⟨w, rfl, inner⟩ := alike.singleton
      exact .inr (.inl ⟨m.1, m.2, w, rfl, rfl, inner⟩)
    | cons m' others =>
      cases ns with
      | nil => simp at lengths
      | cons n rest =>
        cases rest with
        | nil => simp at lengths
        | cons n' others' => exact .inr (.inr ⟨m, m', others, n, n', others', rfl, rfl⟩)

end MembersAlike

/-- Members that are changed one by one. -/
theorem Rearranged.members {ms ns : List (String × Value)} (each : List.Forall₂ MemberAlike ms ns)
    (front : List (String × Value)) :
    (Value.object (front ++ ms)).Rearranged (.object (front ++ ns)) := by
  induction each generalizing front with
  | nil => exact .refl _
  | @cons m n ms ns here _ ih =>
    obtain ⟨name, v⟩ := m
    obtain ⟨name', w⟩ := n
    obtain ⟨rfl, inner⟩ : name = name' ∧ v.Rearranged w := here
    refine .trans (.member front name ms inner) ?_
    simpa using ih (front ++ [(name, w)])

theorem Rearranged.elements {vs ws : List Value} (each : List.Forall₂ Rearranged vs ws)
    (front : List Value) : (Value.list (front ++ vs)).Rearranged (.list (front ++ ws)) := by
  induction each generalizing front with
  | nil => exact .refl _
  | @cons v w vs ws inner _ ih =>
    refine .trans (.element front vs inner) ?_
    simpa using ih (front ++ [w])

theorem Rearranged.object {ms ns : List (String × Value)} (alike : MembersAlike ms ns) :
    (Value.object ms).Rearranged (.object ns) := by
  obtain ⟨middle, perm, each⟩ := alike
  exact .trans (.permute perm) (.members each [])

theorem Rearranged.list {vs ws : List Value} (each : List.Forall₂ Rearranged vs ws) :
    (Value.list vs).Rearranged (.list ws) :=
  .elements each []

/-- Neither a list nor an object. -/
def IsScalar : Value → Prop
  | .list _ | .object _ => False
  | _ => True

/-- How rearranged values compare at the outermost level. -/
inductive Corresponds : Value → Value → Prop
  | scalar {v : Value} (plain : v.IsScalar) : Corresponds v v
  | list {vs ws : List Value} (each : List.Forall₂ Rearranged vs ws) :
    Corresponds (.list vs) (.list ws)
  | object {ms ns : List (String × Value)} (alike : MembersAlike ms ns) :
    Corresponds (.object ms) (.object ns)

theorem Corresponds.trans {first second third : Value} (early : Corresponds first second)
    (late : Corresponds second third) : Corresponds first third := by
  cases early with
  | scalar _ => exact late
  | list each =>
    cases late with
    | scalar plain => exact plain.elim
    | list each' => exact .list (forall₂_trans (fun _ _ _ => .trans) each each')
  | object alike =>
    cases late with
    | scalar plain => exact plain.elim
    | object alike' => exact .object (alike.trans alike')

theorem Rearranged.corresponds {v w : Value} (rearranged : v.Rearranged w) : Corresponds v w := by
  have same (vs : List Value) : List.Forall₂ Rearranged vs vs :=
    List.forall₂_same.mpr fun v _ => .refl v
  have sameMembers (ms : List (String × Value)) : List.Forall₂ MemberAlike ms ms :=
    List.forall₂_same.mpr fun m _ => .refl m
  induction rearranged with
  | refl v =>
    cases v with
    | list vs => exact .list (same vs)
    | object ms => exact .object (.of_forall₂ (sameMembers ms))
    | _ => exact .scalar trivial
  | trans _ _ early late => exact early.trans late
  | permute perm => exact .object (.of_perm perm)
  | element front back inner _ =>
    exact .list (List.rel_append (same front) (.cons inner (same back)))
  | member front name back inner _ =>
    exact .object (.of_forall₂
      (List.rel_append (sameMembers front) (.cons ⟨rfl, inner⟩ (sameMembers back))))

end Value

namespace Form

theorem elements_eq (entries : List (List Char × Form)) :
    Form.elements entries = entries.map fun entry => entry.2.value := by
  induction entries with
  | nil => rw [Form.elements, List.map_nil]
  | cons entry rest ih => rw [Form.elements, ih, List.map_cons]

theorem members_eq (entries : List (List Char × Form)) :
    Form.members entries = entries.map fun entry => (keyName entry.1, entry.2.value) := by
  induction entries with
  | nil => rw [Form.members, List.map_nil]
  | cons entry rest ih => rw [Form.members, ih, List.map_cons]

/-- Rearranged forms have rearranged values. -/
theorem Rearranged.value {form other : Form} (rearranged : form.Rearranged other) :
    form.value.Rearranged other.value := by
  induction rearranged with
  | refl form => exact .refl _
  | trans _ _ early late => exact .trans early late
  | permute perm =>
    rw [Form.value, Form.value, members_eq, members_eq]
    exact .permute (perm.map _)
  | @inside bracket form other front key back _ ih =>
    cases bracket with
    | list =>
      rw [Form.value, Form.value, elements_eq, elements_eq, List.map_append, List.map_append]
      exact .element _ _ ih
    | object =>
      rw [Form.value, Form.value, members_eq, members_eq, List.map_append, List.map_append]
      exact .member _ _ _ ih

end Form

end Caju.Json
