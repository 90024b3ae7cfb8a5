import Caju.Fault
import Caju.Proofs.TreeCodec

/-! Programs are read back from their compact text. The reader takes the outermost
brackets of a program apart by itself, so what holds of values and of trees is carried
through its loops over members and items. Main statement: the text of a program reads as
that program exactly if it opens no more brackets at a time than a text may
(`Program.ofText_compact`). -/

namespace Caju

namespace Tree

open Caju.Json

/-- The text was given up because it nests too deeply. -/
def IsRefusal (error : ReadError) : Prop :=
  ∃ failure, error = .malformed failure ∧ IsTooDeep failure

/-! ### Items -/

theorem itemKind_writeString {name : String} {kind : ItemKind}
    (known : itemKinds.lookup name = some kind) (rest : List Char) :
    itemKind (writeString name rest) = .ok (kind, rest) := by
  have named : kindNamed itemKinds name = .ok kind := by simp [kindNamed, known]
  have blanks : skipBlanks (writeString name rest) = '"' :: writeStringBody name.toList rest := rfl
  simp [itemKind, blanks, stringBody_write, named]

theorem itemMembers_step {budget : Nat} {first : Bool} {kind? : Option ItemKind}
    {before : List (String × Value)} {name : String} {v : Value} {text tail : List Char}
    {found : (ItemKind × Value) × List Char} {fits : Prop} (plain : name ≠ kindField)
    (step : objectStep first text = .ok (.key name (':' :: v.write tail)))
    (answer : Answers IsTooDeep (v.nesting ≤ itemNesting) (v, tail) (value itemNesting (v.write tail)))
    (onwards : Answers IsRefusal fits found
      (itemMembers budget false kind? ((name, v) :: before) tail)) :
    Answers IsRefusal (v.nesting ≤ itemNesting ∧ fits) found
      (itemMembers (budget + 1) first kind? before text) := by
  have colonRead : colon (':' :: v.write tail) = .ok (v.write tail) := rfl
  refine answer.andThen onwards (fun taken => ?_) fun failure tooDeep failed => ?_
  · simp only [itemMembers, step, colonRead, if_neg plain, taken]
  · refine ⟨.malformed failure, ⟨failure, rfl, tooDeep⟩, ?_⟩
    simp only [itemMembers, step, colonRead, if_neg plain, failed]

theorem itemMembers_write {budget : Nat} {kind : ItemKind} {fields : List (String × Value)}
    (plain : ∀ m ∈ fields, m.1 ≠ kindField) (held : ∀ m ∈ fields, m.2.Exact)
    (enough : fields.length < budget) (before : List (String × Value)) (rest : List Char) :
    Answers IsRefusal (nestingMembers fields ≤ itemNesting)
      ((kind, .object (before.reverse ++ fields)), rest)
      (itemMembers budget false (some kind) before (writeMembers fields ('}' :: rest))) := by
  induction fields generalizing before budget with
  | nil =>
    obtain ⟨budget, rfl⟩ := Nat.exists_eq_add_one.mpr enough
    simp [Answers, itemMembers, writeMembers, objectStep_closed, nestingMembers]
  | cons m fields ih =>
    obtain ⟨name, v⟩ := m
    obtain ⟨budget, rfl⟩ := Nat.exists_eq_add_one.mpr (Nat.zero_lt_of_lt enough)
    have onwards := ih (fun m member => plain m (List.mem_cons_of_mem _ member))
      (fun m member => held m (List.mem_cons_of_mem _ member)) (Nat.lt_of_succ_lt_succ enough)
      ((name, v) :: before)
    have step := itemMembers_step (plain (name, v) List.mem_cons_self) (objectStep_comma name _)
      (value_write (held (name, v) List.mem_cons_self) itemNesting _
        (delimited_writeMembers fields rest)) onwards
    simpa [nestingMembers_cons_le, writeMembers] using step

theorem itemMembers_kind {name : String} {kind : ItemKind}
    (known : itemKinds.lookup name = some kind) (budget : Nat) (tail : List Char) :
    itemMembers (budget + 1) true none [] (writeString kindField (':' :: writeString name tail)) =
      itemMembers budget false (some kind) [] tail := by
  have step : objectStep true (writeString kindField (':' :: writeString name tail)) =
      .ok (.key kindField (':' :: writeString name tail)) := objectStep_first kindField _
  have colonRead : colon (':' :: writeString name tail) = .ok (writeString name tail) := rfl
  rw [itemMembers]
  simp only [step, colonRead, itemKind_writeString known tail, if_true]

theorem itemParts_write {name : String} {kind : ItemKind} {fields : List (String × Value)}
    (known : itemKinds.lookup name = some kind) (plain : ∀ m ∈ fields, m.1 ≠ kindField)
    (held : ∀ m ∈ fields, m.2.Exact) (rest : List Char) :
    Answers IsRefusal (nestingMembers fields ≤ itemNesting) ((kind, .object fields), rest)
      (itemParts ((node name fields).write rest)) := by
  have longer := length_writeMembers (fun m member => (held m member).begins) ('}' :: rest)
  have opened : itemParts ((node name fields).write rest) =
      itemMembers (writeString kindField (':' :: writeString name
        (writeMembers fields ('}' :: rest)))).length true none []
        (writeString kindField (':' :: writeString name (writeMembers fields ('}' :: rest)))) := rfl
  generalize tailEq : writeMembers fields ('}' :: rest) = tail at longer opened
  have named := (begins_writeString name tail).length_le
  have room := (begins_writeString kindField (':' :: writeString name tail)).length_le
  obtain ⟨budget, enough⟩ := Nat.exists_eq_add_one.mpr (Nat.zero_lt_of_lt room)
  have within : fields.length < budget := by
    simp only [List.length_cons] at longer room
    omega
  rw [opened, enough, itemMembers_kind known, ← tailEq]
  exact itemMembers_write plain held within [] rest

theorem item_write {v : Value} {item : Item} (describes : Describes v item) (rest : List Char) :
    Answers IsRefusal (v.nesting ≤ itemNesting + 1) (item, rest) (Tree.item (v.write rest)) := by
  cases describes with
  | @node name kind fields _ known plain held back =>
    have same : nestingMembers fields ≤ itemNesting ↔
        (node name fields).nesting ≤ itemNesting + 1 := by
      rw [nesting_node]
      exact Nat.succ_le_succ_iff.symm
    refine Answers.of_iff same ?_
    unfold Tree.item
    rcases itemParts_write known plain held rest with ⟨shallow, taken⟩ | ⟨deep, e, refused, failed⟩
    · have decoded := back (Nat.lt_of_le_of_lt shallow (by decide))
      simp only [taken, decoded]
      exact .inl ⟨shallow, rfl⟩
    · simp only [failed]
      exact .inr ⟨deep, e, refused, rfl⟩

theorem Describes.held {v : Value} {item : Item} (describes : Describes v item) : v.Exact := by
  cases describes with
  | node _ _ held _ => exact exact_node held

theorem begins_of_describes {vs : List Value} {found : List Item}
    (each : List.Forall₂ Describes vs found) :
    ∀ v ∈ vs, ∀ rest, Begins rest.length (v.write rest) := by
  induction each with
  | nil => exact List.forall_mem_nil _
  | cons describes _ ih => exact List.forall_mem_cons.mpr ⟨describes.held.begins, ih⟩

/-! ### Programs -/

theorem items_step {budget : Nat} {first : Bool} {before : List Item} {v : Value} {item : Item}
    {text tail : List Char} {found : List Item × List Char} {fits : Prop}
    (describes : Describes v item) (step : listStep first text = .ok (.element (v.write tail)))
    (onwards : Answers IsRefusal fits found (items budget false (item :: before) tail)) :
    Answers IsRefusal (v.nesting ≤ itemNesting + 1 ∧ fits) found
      (items (budget + 1) first before text) := by
  refine (item_write describes tail).andThen onwards (fun taken => ?_) fun e refused failed => ?_
  · simp only [items, step, taken]
  · exact ⟨e, refused, by simp only [items, step, failed]⟩

theorem items_write {budget : Nat} {vs : List Value} {found : List Item}
    (each : List.Forall₂ Describes vs found) (enough : vs.length < budget) (before : List Item)
    (rest : List Char) :
    Answers IsRefusal (nestingElements vs ≤ itemNesting + 1) (before.reverse ++ found, rest)
      (items budget false before (writeElements vs (']' :: rest))) := by
  induction each generalizing before budget with
  | nil =>
    obtain ⟨budget, rfl⟩ := Nat.exists_eq_add_one.mpr enough
    simp [Answers, items, writeElements, listStep_closed, nestingElements]
  | @cons v item vs found describes _ ih =>
    obtain ⟨budget, rfl⟩ := Nat.exists_eq_add_one.mpr (Nat.zero_lt_of_lt enough)
    have onwards := ih (Nat.lt_of_succ_lt_succ enough) (item :: before)
    have step := items_step describes (listStep_comma (describes.held.begins _)) onwards
    simpa [nestingElements_cons_le, writeElements] using step

theorem itemList_write {vs : List Value} {found : List Item}
    (each : List.Forall₂ Describes vs found) (rest : List Char) :
    Answers IsRefusal (nestingElements vs ≤ itemNesting + 1) (found, rest)
      (itemList ((Value.list vs).write rest)) := by
  cases each with
  | nil => exact .inl ⟨Nat.zero_le _, rfl⟩
  | @cons v item vs found describes each =>
    have begins := describes.held.begins (writeElements vs (']' :: rest))
    have longer := length_writeElements (begins_of_describes each) (']' :: rest)
    have room := begins.length_le
    have opened : itemList ((Value.list (v :: vs)).write rest) =
        items (v.write (writeElements vs (']' :: rest))).length true []
          (v.write (writeElements vs (']' :: rest))) := rfl
    obtain ⟨budget, enough⟩ := Nat.exists_eq_add_one.mpr (Nat.zero_lt_of_lt room)
    have within : vs.length < budget := by
      simp only [List.length_cons] at longer
      omega
    have step := items_step describes (listStep_first begins) (items_write each within [item] rest)
    rw [opened, enough]
    exact step.of_iff nestingElements_cons_le.symm

/-- The value of a program whose items are held by these nodes. -/
def programValue (nodes : List Value) : Value := .object [(itemsField, .list nodes)]

theorem read_write {vs : List Value} {found : List Item} (each : List.Forall₂ Describes vs found) :
    Answers IsRefusal ((programValue vs).nesting ≤ maxNesting) ⟨found⟩
      (Tree.read ((programValue vs).write [])) := by
  have same : nestingElements vs ≤ itemNesting + 1 ↔ (programValue vs).nesting ≤ maxNesting := by
    simp only [programValue, Value.nesting, nestingMembers, itemNesting, maxNesting]
    omega
  refine Answers.of_iff same ?_
  have opened : Tree.program ((programValue vs).write []) =
      programMembers (writeString itemsField (':' :: (Value.list vs).write ['}'])).length true none
        (writeString itemsField (':' :: (Value.list vs).write ['}'])) := rfl
  have step : objectStep true (writeString itemsField (':' :: (Value.list vs).write ['}'])) =
      .ok (.key itemsField (':' :: (Value.list vs).write ['}'])) := objectStep_first itemsField _
  have colonRead : colon (':' :: (Value.list vs).write ['}']) =
      .ok ((Value.list vs).write ['}']) := rfl
  have room := (begins_writeString itemsField (':' :: (Value.list vs).write ['}'])).length_le
  obtain ⟨budget, enough⟩ : ∃ budget,
      (writeString itemsField (':' :: (Value.list vs).write ['}'])).length = budget + 2 :=
    Nat.exists_eq_add_of_le' (Nat.lt_of_le_of_lt (Nat.succ_le_succ (Nat.zero_le _)) room)
  rw [enough, programMembers] at opened
  simp only [step, colonRead, if_true] at opened
  unfold Tree.read
  -- the items come first, so the member loop has nothing left but the closing bracket
  rcases itemList_write each ['}'] with ⟨shallow, taken⟩ | ⟨deep, e, refused, failed⟩
  · have closed : programMembers (budget + 1) false (some found) ['}'] = .ok (⟨found⟩, []) := rfl
    simp only [taken, closed] at opened
    rw [opened]
    exact .inl ⟨shallow, rfl⟩
  · simp only [failed] at opened
    rw [opened]
    exact .inr ⟨deep, e, refused, rfl⟩

end Tree

namespace Program

open Caju.Json Caju.Tree

theorem describes_items (items : List Item) :
    List.Forall₂ Describes (items.map Item.encode) items := by
  induction items with
  | nil => exact .nil
  | cons item items ih => exact .cons (describes_encode item) ih

theorem exact_encode (p : Program) : p.encode.Exact := by
  have items := exact_list (fun item => (describes_encode item).held) p.items
  exact .object (by simpa using items)

/-- What becomes of the compact text of a program: it is read as that program, or refused
for its nesting. -/
theorem read_compact (p : Program) :
    Answers IsRefusal (nesting p.encode.compact.toList ≤ maxNesting) p
      (Tree.read p.encode.compact.toList) := by
  rw [nesting_compact p.exact_encode, Value.compact, String.toList_ofList]
  exact read_write (describes_items p.items)

/-- The text of a program, every member written out, reads as that program exactly if no
more brackets are open at a time than a text may have. -/
theorem ofText_compact (p : Program) :
    Program.ofText p.encode.compact = .ok p ↔ nesting p.encode.compact.toList ≤ maxNesting := by
  unfold Program.ofText
  rcases p.read_compact with ⟨fits, read⟩ | ⟨deep, e, _, failed⟩
  · rw [read]
    exact ⟨fun _ => fits, fun _ => rfl⟩
  · rw [failed]
    exact ⟨fun read => (by cases read), fun fits => absurd fits deep⟩

end Program

end Caju
