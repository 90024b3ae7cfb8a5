/-! Lists of keys and what they are bound to, in the order the keys first came. -/

namespace Caju.Association

variable {κ α : Type} [DecidableEq κ]

/-- Binds a key; what it was bound to before gives way, in the same place. -/
def insert (key : κ) (value : α) : List (κ × α) → List (κ × α)
  | [] => [(key, value)]
  | (other, held) :: rest =>
    if key = other then (key, value) :: rest else (other, held) :: insert key value rest

/-- What holds of all entries goes on holding if it does of a new one. -/
theorem forall_insert {good : κ × α → Prop} {key : κ} {value : α} {entries : List (κ × α)}
    (new : good (key, value)) (all : ∀ entry ∈ entries, good entry) :
    ∀ entry ∈ insert key value entries, good entry := by
  induction entries with
  | nil =>
    intro entry member
    exact List.mem_singleton.mp member ▸ new
  | cons first rest ih =>
    obtain ⟨here, later⟩ := List.forall_mem_cons.mp all
    unfold insert
    split
    · exact List.forall_mem_cons.mpr ⟨new, later⟩
    · exact List.forall_mem_cons.mpr ⟨here, ih later⟩

theorem lookup_insert [BEq κ] [LawfulBEq κ] (key other : κ) (value : α) (entries : List (κ × α)) :
    (insert key value entries).lookup other =
      if other = key then some value else entries.lookup other := by
  induction entries with
  | nil =>
    by_cases same : other = key
    · simp [insert, same]
    · have different : (other == key) = false := by simpa using same
      simp [insert, List.lookup_cons, same, different]
  | cons entry rest ih =>
    obtain ⟨held, old⟩ := entry
    by_cases replaced : key = held
    · subst replaced
      by_cases same : other = key
      · simp [insert, same]
      · have different : (other == key) = false := by simpa using same
        simp [insert, List.lookup_cons, same, different]
    · by_cases here : other = held
      · subst here
        have different : other ≠ key := fun same => replaced same.symm
        simp [insert, replaced, different]
      · have different : (other == held) = false := by simpa using here
        simp [insert, List.lookup_cons, replaced, different, ih]

end Caju.Association
