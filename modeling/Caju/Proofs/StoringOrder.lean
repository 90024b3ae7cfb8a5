import Caju.Proofs.Rearrangement
import Caju.Tree.Decode
import Mathlib.Data.List.Pairwise

/-! Storing the members of a record in any order. Members are stored one after another, and one
that is repeated is refused; as each goes to a field of its own, the order makes no difference
to the record, only to which mismatch is met first. Main statement: a shape whose fields can be
stored in either order two by two makes the same of rearranged values
(`Shape.Exchangeable.decode`). -/

namespace Caju.Tree

open Caju.Json

/-! ### Outcomes -/

/-- Both fail, or both succeed with related results. -/
inductive Similar {ε α β : Type} (R : α → β → Prop) : Except ε α → Except ε β → Prop
  | ok {a : α} {b : β} (related : R a b) : Similar R (.ok a) (.ok b)
  | error (e e' : ε) : Similar R (.error e) (.error e')

namespace Similar

variable {ε α β γ δ : Type} {R : α → β → Prop} {S : γ → δ → Prop}

theorem refl {R : α → α → Prop} (same : ∀ a, R a a) (x : Except ε α) : Similar R x x := by
  cases x with
  | error e => exact .error e e
  | ok a => exact .ok (same a)

theorem symm {R : α → α → Prop} (turn : ∀ a b, R a b → R b a) {x y : Except ε α}
    (similar : Similar R x y) : Similar R y x := by
  cases similar with
  | ok related => exact .ok (turn _ _ related)
  | error e e' => exact .error e' e

theorem trans {R : α → α → Prop} (join : ∀ a b c, R a b → R b c → R a c) {x y z : Except ε α}
    (early : Similar R x y) (late : Similar R y z) : Similar R x z := by
  cases early with
  | ok related =>
    cases late with
    | ok related' => exact .ok (join _ _ _ related related')
  | error e _ =>
    cases late with
    | error _ e' => exact .error e e'

theorem bind {x : Except ε α} {y : Except ε β} {f : α → Except ε γ} {g : β → Except ε δ}
    (first : Similar R x y) (next : ∀ a b, R a b → Similar S (f a) (g b)) :
    Similar S (x >>= f) (y >>= g) := by
  cases first with
  | ok related => exact next _ _ related
  | error e e' => exact .error e e'

theorem map {x : Except ε α} {y : Except ε β} {f : α → γ} {g : β → δ} (first : Similar R x y)
    (next : ∀ a b, R a b → S (f a) (g b)) : Similar S (x.map f) (y.map g) := by
  cases first with
  | ok related => exact .ok (next _ _ related)
  | error e e' => exact .error e e'

theorem map_eq {x y : Except ε α} (first : Similar Eq x y) (f : α → γ) :
    Similar Eq (x.map f) (y.map f) :=
  first.map fun _ _ same => congrArg f same

theorem eq_ok {x : Except ε α} {a : α} (similar : Similar Eq (.ok a) x) : x = .ok a := by
  cases similar with
  | ok same => rw [same]

end Similar

section Folds

variable {ε σ μ : Type} {S : σ → σ → Prop} {step : σ → μ → Except ε σ}

/-- Steps that respect a relation between states and one between inputs. -/
theorem foldlM_similar {R : μ → μ → Prop}
    (respects : ∀ s t m n, S s t → R m n → Similar S (step s m) (step t n)) {ms ns : List μ}
    (each : List.Forall₂ R ms ns) {s t : σ} (start : S s t) :
    Similar S (ms.foldlM step s) (ns.foldlM step t) := by
  induction each generalizing s t with
  | nil => exact .ok start
  | cons here _ ih =>
    rw [List.foldlM_cons, List.foldlM_cons]
    exact (respects _ _ _ _ start here).bind fun _ _ related => ih related

/-- Steps that can be exchanged can be made in any order. -/
theorem foldlM_perm (refl : ∀ s, S s s) (trans : ∀ s t u, S s t → S t u → S s u)
    (respects : ∀ s t m, S s t → Similar S (step s m) (step t m))
    (commutes : ∀ s m n, Similar S (step s m >>= (step · n)) (step s n >>= (step · m)))
    {ms ns : List μ} (perm : ms.Perm ns) (s : σ) :
    Similar S (ms.foldlM step s) (ns.foldlM step s) := by
  have same {ms : List μ} {s t : σ} (start : S s t) :
      Similar S (ms.foldlM step s) (ms.foldlM step t) :=
    foldlM_similar (R := Eq) (fun s t m n related same => same ▸ respects s t m related)
      (List.forall₂_same.mpr fun _ _ => rfl) start
  induction perm generalizing s with
  | nil => exact .refl refl _
  | cons m _ ih =>
    rw [List.foldlM_cons, List.foldlM_cons]
    exact (Similar.refl refl (step s m)).bind fun t u related =>
      (ih t).trans trans (same related)
  | swap m n rest =>
    simp only [List.foldlM_cons, ← bind_assoc]
    exact (commutes s n m).bind fun _ _ related => same related
  | trans _ _ early late => exact (early s).trans trans (late s)

end Folds

/-! ### Readers that are blind to the order of members -/

/-- A reader that makes the same of rearranged values. -/
def Blind {α : Type} (read : Value → Except Mismatch α) : Prop :=
  ∀ v w, v.Rearranged w → Similar Eq (read v) (read w)

section Leaves

variable {α κ : Type} {read : Value → Except Mismatch α}

/-- What reads neither lists nor objects sees no members. -/
theorem blind_of_scalars (lists : ∀ vs, ∃ e, read (.list vs) = .error e)
    (objects : ∀ ms, ∃ e, read (.object ms) = .error e) : Blind read := by
  intro v w rearranged
  cases rearranged.corresponds with
  | scalar _ => exact .refl (fun _ => rfl) _
  | @list vs ws _ =>
    obtain ⟨e, first⟩ := lists vs
    obtain ⟨e', second⟩ := lists ws
    rw [first, second]
    exact .error e e'
  | @object ms ns _ =>
    obtain ⟨e, first⟩ := objects ms
    obtain ⟨e', second⟩ := objects ns
    rw [first, second]
    exact .error e e'

theorem asString_blind : Blind asString := blind_of_scalars (fun _ => ⟨_, rfl⟩) fun _ => ⟨_, rfl⟩

theorem asBoolean_blind : Blind asBoolean := blind_of_scalars (fun _ => ⟨_, rfl⟩) fun _ => ⟨_, rfl⟩

theorem asInt32_blind : Blind asInt32 := blind_of_scalars (fun _ => ⟨_, rfl⟩) fun _ => ⟨_, rfl⟩

theorem asCharacter_blind : Blind asCharacter :=
  blind_of_scalars (fun _ => ⟨_, rfl⟩) fun _ => ⟨_, rfl⟩

theorem asKind_blind (kinds : List (String × κ)) : Blind (asKind kinds) :=
  blind_of_scalars (fun _ => ⟨_, rfl⟩) fun _ => ⟨_, rfl⟩

theorem mapM_similar (blind : Blind read) {vs ws : List Value}
    (each : List.Forall₂ Value.Rearranged vs ws) :
    Similar Eq (vs.mapM read) (ws.mapM read) := by
  induction each with
  | nil => exact .ok rfl
  | cons here _ ih =>
    rw [List.mapM_cons, List.mapM_cons]
    refine (blind _ _ here).bind fun a _ same => ?_
    subst same
    exact ih.bind fun _ _ same => .ok (by rw [same])

theorem Blind.list (blind : Blind read) : Blind (asList read) := by
  intro v w rearranged
  cases rearranged.corresponds with
  | scalar _ => exact .refl (fun _ => rfl) _
  | list each => exact mapM_similar blind each
  | object _ => exact .error _ _

theorem Blind.option (blind : Blind read) : Blind (asOption read) := by
  intro v w rearranged
  have inner := (blind v w rearranged).map_eq some
  cases rearranged.corresponds with
  | scalar _ => exact .refl (fun _ => rfl) _
  | list _ => exact inner
  | object _ => exact inner

end Leaves

/-! ### Records -/

namespace Field

variable {ρ : Type}

def Blind (field : Field ρ) : Prop := ∀ record, Tree.Blind (field.store · record)

/-- Two fields that can be stored in either order. -/
def Swaps (first second : Field ρ) : Prop :=
  ∀ v w record, Similar Eq (first.store v record >>= second.store w)
    (second.store w record >>= first.store v)

instance : Std.Symm (Swaps (ρ := ρ)) where
  symm _ _ swaps v w record := (swaps w v record).symm fun _ _ => Eq.symm

section Setters

variable {α β : Type} {first second : Field ρ} {read : Value → Except Mismatch α} {set : α → ρ → ρ}
  {read' : Value → Except Mismatch β} {set' : β → ρ → ρ}

theorem Blind.of_set (stores : first.store = fun v record => (read v).map (set · record))
    (blind : Tree.Blind read) : first.Blind := by
  intro record v w rearranged
  simp only [stores]
  exact (blind v w rearranged).map_eq _

theorem Swaps.of_sets (stores : first.store = fun v record => (read v).map (set · record))
    (stores' : second.store = fun v record => (read' v).map (set' · record))
    (commute : ∀ a b record, set' b (set a record) = set a (set' b record)) :
    first.Swaps second := by
  intro v w record
  rw [stores, stores']
  cases here : read v with
  | error e =>
    cases there : read' w with
    | error e' =>
      simp only [here, there, Except.map]
      exact .error e e'
    | ok b =>
      simp only [here, there, Except.map]
      exact .error e e
  | ok a =>
    cases there : read' w with
    | error e' =>
      simp only [here, there, Except.map]
      exact .error e' e'
    | ok b =>
      simp only [here, there, Except.map]
      exact .ok (commute a b record)

end Setters

end Field

namespace Shape

variable {ρ : Type} {fields : List (Field ρ)}

/-- Stores one member, given the fields stored so far and the record. -/
def storeMember (fields : List (Field ρ)) (state : List String × ρ) (m : String × Value) :
    Except Mismatch (List String × ρ) :=
  match fields.find? (·.name == m.1) with
  | none => .ok state
  | some field =>
    if state.1.contains m.1 then .error (.duplicateField m.1)
    else (field.store m.2 state.2).map (m.1 :: state.1, ·)

theorem storeMembers_eq_foldlM (fields : List (Field ρ)) (seen : List String) (record : ρ)
    (ms : List (String × Value)) :
    storeMembers fields seen record ms = ms.foldlM (storeMember fields) (seen, record) := by
  induction ms generalizing seen record with
  | nil => rfl
  | cons m rest ih =>
    obtain ⟨name, v⟩ := m
    rw [List.foldlM_cons, storeMembers, storeMember]
    cases found : fields.find? (·.name == name) with
    | none => exact ih seen record
    | some field =>
      by_cases stored : seen.contains name = true
      · simp only [stored, if_true]
        rfl
      · simp only [stored, Bool.false_eq_true, if_false]
        cases made : field.store v record with
        | error mismatch => rfl
        | ok record' => exact ih (name :: seen) record'

/-- The same fields have been stored, and the records are the same. -/
def Stored (s t : List String × ρ) : Prop := s.1.Perm t.1 ∧ s.2 = t.2

theorem Stored.contains {s t : List String × ρ} (stored : Stored s t) (name : String) :
    s.1.contains name = t.1.contains name := by
  rw [Bool.eq_iff_iff, List.contains_iff_mem, List.contains_iff_mem]
  exact stored.1.mem_iff

theorem storeMember_similar (blind : ∀ field ∈ fields, field.Blind) {s t : List String × ρ}
    {m n : String × Value} (stored : Stored s t) (alike : Value.MemberAlike m n) :
    Similar Stored (storeMember fields s m) (storeMember fields t n) := by
  obtain ⟨name, v⟩ := m
  obtain ⟨name', w⟩ := n
  obtain ⟨rfl, inner⟩ : name = name' ∧ v.Rearranged w := alike
  unfold storeMember
  cases found : fields.find? (·.name == name) with
  | none => exact .ok stored
  | some field =>
    dsimp only
    rw [stored.contains name]
    by_cases seen : t.1.contains name = true
    · rw [if_pos seen, if_pos seen]
      exact .error _ _
    · rw [if_neg seen, if_neg seen, stored.2]
      exact (blind field (List.mem_of_find?_eq_some found) t.2 v w inner).map fun _ _ same =>
        ⟨stored.1.cons name, same⟩

section Steps

variable {field field' : Field ρ} {name name' : String}

theorem storeMember_unknown (unknown : fields.find? (·.name == name) = none)
    (s : List String × ρ) (v : Value) : storeMember fields s (name, v) = .ok s := by
  simp only [storeMember, unknown]

theorem storeMember_seen (found : fields.find? (·.name == name) = some field)
    {s : List String × ρ} (seen : name ∈ s.1) (v : Value) :
    storeMember fields s (name, v) = .error (.duplicateField name) := by
  simp [storeMember, found, seen]

theorem storeMember_new (found : fields.find? (·.name == name) = some field)
    {s : List String × ρ} (new : name ∉ s.1) (v : Value) :
    storeMember fields s (name, v) = (field.store v s.2).map (name :: s.1, ·) := by
  simp [storeMember, found, new]

/-- What has been stored once counts as stored from then on. -/
theorem storeMember_keeps {s t : List String × ρ} {m : String × Value}
    (stored : storeMember fields s m = .ok t) (seen : name ∈ s.1) : name ∈ t.1 := by
  unfold storeMember at stored
  split at stored
  · exact Except.ok.inj stored ▸ seen
  · split at stored
    · cases stored
    · obtain ⟨record, -, rfl⟩ := map_eq_ok_iff.mp stored
      exact List.mem_cons_of_mem _ seen

/-- A field that has been stored is refused, sooner or later. -/
theorem storeMember_after_seen (found : fields.find? (·.name == name) = some field)
    {s : List String × ρ} (seen : name ∈ s.1) (v : Value) (m : String × Value) :
    ∃ e, (storeMember fields s m >>= (storeMember fields · (name, v))) = .error e := by
  cases stored : storeMember fields s m with
  | error e => exact ⟨e, rfl⟩
  | ok t => exact ⟨_, storeMember_seen found (storeMember_keeps stored seen) v⟩

theorem storeMember_twice (found : fields.find? (·.name == name) = some field)
    (s : List String × ρ) (v w : Value) :
    ∃ e, (storeMember fields s (name, v) >>= (storeMember fields · (name, w))) = .error e := by
  by_cases seen : name ∈ s.1
  · exact storeMember_after_seen found seen w _
  · rw [storeMember_new found seen]
    cases field.store v s.2 with
    | error e => exact ⟨e, rfl⟩
    | ok record => exact ⟨_, storeMember_seen found List.mem_cons_self w⟩

/-- Storing two fields that have not been stored yet. -/
theorem storeMember_both (found : fields.find? (·.name == name) = some field)
    (found' : fields.find? (·.name == name') = some field') {s : List String × ρ}
    (new : name ∉ s.1) (new' : name' ∉ s.1) (apart : name ≠ name') (v w : Value) :
    (storeMember fields s (name, v) >>= (storeMember fields · (name', w))) =
      (field.store v s.2 >>= field'.store w).map (name' :: name :: s.1, ·) := by
  rw [storeMember_new found new]
  cases field.store v s.2 with
  | error e => rfl
  | ok record =>
    have still : name' ∉ name :: s.1 := by simp [new', apart.symm]
    exact storeMember_new found' still w

end Steps

theorem storeMember_commutes (swaps : fields.Pairwise Field.Swaps) (s : List String × ρ)
    (m n : String × Value) :
    Similar Stored (storeMember fields s m >>= (storeMember fields · n))
      (storeMember fields s n >>= (storeMember fields · m)) := by
  obtain ⟨name, v⟩ := m
  obtain ⟨name', w⟩ := n
  have same (x : Except Mismatch (List String × ρ)) : Similar Stored x x :=
    .refl (fun _ => ⟨.refl _, rfl⟩) x
  have failing {x y : Except Mismatch (List String × ρ)} (left : ∃ e, x = .error e)
      (right : ∃ e, y = .error e) : Similar Stored x y := by
    obtain ⟨e, rfl⟩ := left
    obtain ⟨e', rfl⟩ := right
    exact .error e e'
  cases found : fields.find? (·.name == name) with
  | none =>
    simp only [storeMember_unknown found]
    show Similar Stored (storeMember fields s (name', w)) (storeMember fields s (name', w) >>= pure)
    rw [bind_pure]
    exact same _
  | some field =>
    cases found' : fields.find? (·.name == name') with
    | none =>
      simp only [storeMember_unknown found']
      show Similar Stored (storeMember fields s (name, v) >>= pure) (storeMember fields s (name, v))
      rw [bind_pure]
      exact same _
    | some field' =>
      by_cases repeated : name = name'
      · subst repeated
        exact failing (storeMember_twice found s v w) (storeMember_twice found s w v)
      by_cases seen : name ∈ s.1
      · refine failing ⟨.duplicateField name, ?_⟩ (storeMember_after_seen found seen v _)
        rw [storeMember_seen found seen]
        rfl
      by_cases seen' : name' ∈ s.1
      · refine failing (storeMember_after_seen found' seen' w _) ⟨.duplicateField name', ?_⟩
        rw [storeMember_seen found' seen']
        rfl
      have apart : field ≠ field' := by
        intro equal
        have named : field.name = name := by simpa using List.find?_some found
        have named' : field'.name = name' := by simpa using List.find?_some found'
        exact repeated (named.symm.trans (equal ▸ named'))
      have exchanged := swaps.forall (List.mem_of_find?_eq_some found)
        (List.mem_of_find?_eq_some found') apart
      rw [storeMember_both found found' seen seen' repeated,
        storeMember_both found' found seen' seen (Ne.symm repeated)]
      exact (exchanged v w s.2).map fun _ _ equal => ⟨.swap _ _ _, equal⟩

/-- A shape whose fields are blind, and can be stored in any order. -/
structure Exchangeable (shape : Shape ρ) : Prop where
  blind : ∀ field ∈ shape.fields, field.Blind
  swaps : shape.fields.Pairwise Field.Swaps

theorem storeMembers_similar {shape : Shape ρ} (exchangeable : shape.Exchangeable)
    {ms ns : List (String × Value)} (alike : Value.MembersAlike ms ns) :
    Similar Stored (storeMembers shape.fields [] shape.blank ms)
      (storeMembers shape.fields [] shape.blank ns) := by
  obtain ⟨middle, perm, each⟩ := alike
  have refl (s : List String × ρ) : Stored s s := ⟨.refl _, rfl⟩
  have trans (s t u : List String × ρ) (early : Stored s t) (late : Stored t u) : Stored s u :=
    ⟨early.1.trans late.1, early.2.trans late.2⟩
  rw [storeMembers_eq_foldlM, storeMembers_eq_foldlM]
  have respects (s t : List String × ρ) (m n : String × Value) (stored : Stored s t)
      (alike : Value.MemberAlike m n) :
      Similar Stored (storeMember shape.fields s m) (storeMember shape.fields t n) :=
    storeMember_similar exchangeable.blind stored alike
  have permuted := foldlM_perm refl trans (fun s t m stored => respects s t m m stored (.refl m))
    (storeMember_commutes exchangeable.swaps) perm ([], shape.blank)
  exact permuted.trans trans (foldlM_similar respects each (refl _))

theorem storeElements_similar {label : String} {count : Nat} (fields : List (Field ρ))
    (blind : ∀ field ∈ fields, field.Blind) {vs ws : List Value}
    (each : List.Forall₂ Value.Rearranged vs ws) (index : Nat) (record : ρ) :
    Similar Eq (storeElements label count index record fields vs)
      (storeElements label count index record fields ws) := by
  induction fields generalizing vs ws index record with
  | nil =>
    cases each with
    | nil => exact .ok rfl
    | cons _ _ => exact .error _ _
  | cons field fields ih =>
    obtain ⟨first, others⟩ := List.forall_mem_cons.mp blind
    cases each with
    | nil => exact .refl (fun _ => rfl) _
    | @cons v w vs ws here rest =>
      have stored : Similar Eq (field.store v record) (field.store w record) :=
        first record v w here
      unfold storeElements
      generalize field.store v record = x at stored
      generalize field.store w record = y at stored
      cases stored with
      | error e e' => exact .error e e'
      | ok equal =>
        subst equal
        exact ih others rest (index + 1) _

theorem Exchangeable.decode {shape : Shape ρ} (exchangeable : shape.Exchangeable) :
    Blind shape.decode := by
  intro v w rearranged
  cases rearranged.corresponds with
  | scalar _ => exact .refl (fun _ => rfl) _
  | list each => exact storeElements_similar shape.fields exchangeable.blind each 0 shape.blank
  | object alike =>
    have stored := storeMembers_similar exchangeable alike
    unfold Shape.decode
    dsimp only
    generalize storeMembers shape.fields [] shape.blank _ = x at stored
    generalize storeMembers shape.fields [] shape.blank _ = y at stored
    cases stored with
    | error e e' => exact .error e e'
    | @ok s t same =>
      have missing : shape.missing? s.1 = shape.missing? t.1 := by
        simp only [Shape.missing?, same.contains]
      dsimp only
      rw [missing, same.2]
      exact .refl (fun _ => rfl) _

end Shape

end Caju.Tree
