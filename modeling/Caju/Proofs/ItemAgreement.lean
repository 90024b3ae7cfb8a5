import Caju.Proofs.ReaderAgreement
import Mathlib.Data.List.Forall2

/-! The shapes of items, and how items are read from a text. A value portrays an item by its
shape alone, and a list of items if each of its elements does. Main statement: the items that
are read are those that the scanned list portrays (`itemList_agrees`). -/

namespace Caju.Tree

open Caju.Json

/-! ### Shapes -/

/-- A value that names a kind of item. -/
def IsKind (v : Value) (kind : ItemKind) : Prop :=
  ∃ name, v = .string name ∧ kindNamed itemKinds name = .ok kind

/-- The kind of an item, and the value that its fields are read from: an object that names
its kind once, or a list that begins with it. -/
inductive HasParts : Value → ItemKind × Value → Prop
  | object {ms : List (String × Value)} {v : Value} {kind : ItemKind}
    (once : ms.filter (·.1 = kindField) = [(kindField, v)]) (named : IsKind v kind) :
    HasParts (.object ms) (kind, .object (ms.filter (·.1 ≠ kindField)))
  | list {v : Value} {kind : ItemKind} (named : IsKind v kind) (fields : List Value) :
    HasParts (.list (v :: fields)) (kind, .list fields)

/-- The value has the shape of an item. -/
def Portrays (v : Value) (item : Item) : Prop :=
  ∃ parts, HasParts v parts ∧ decodeItem parts.1 parts.2 = .ok item

/-- The value is a list of values with the shapes of items. -/
def PortraysItems (v : Value) (items : List Item) : Prop :=
  ∃ vs, v = .list vs ∧ List.Forall₂ Portrays vs items

theorem IsKind.unique {v : Value} {kind kind' : ItemKind} (first : IsKind v kind)
    (second : IsKind v kind') : kind = kind' := by
  obtain ⟨name, rfl, known⟩ := first
  obtain ⟨_, same, known'⟩ := second
  cases same
  exact Except.ok.inj (known.symm.trans known')

theorem HasParts.unique {v : Value} {parts parts' : ItemKind × Value} (first : HasParts v parts)
    (second : HasParts v parts') : parts = parts' := by
  cases first with
  | object once named =>
    cases second with
    | object once' named' =>
      cases once.symm.trans once'
      rw [named.unique named']
  | list named fields =>
    cases second with
    | list named' _ => rw [named.unique named']

theorem Portrays.unique {v : Value} {item item' : Item} (first : Portrays v item)
    (second : Portrays v item') : item = item' := by
  obtain ⟨parts, has, known⟩ := first
  obtain ⟨parts', has', known'⟩ := second
  rw [has'.unique has] at known'
  exact Except.ok.inj (known.symm.trans known')

theorem PortraysItems.unique {v : Value} {found found' : List Item}
    (first : PortraysItems v found) (second : PortraysItems v found') : found = found' := by
  obtain ⟨vs, rfl, each⟩ := first
  obtain ⟨_, same, each'⟩ := second
  cases same
  have unique : Relator.RightUnique Portrays := fun _ _ _ first second => first.unique second
  exact List.right_unique_forall₂' unique each each'

/-! ### Items -/

theorem itemKind_agrees (levels : Nat) (text : List Char) :
    Agrees IsKind (value levels text) (itemKind text) := by
  unfold itemKind
  split
  · rename_i after found
    have same : value levels text =
        (stringBody [] after).map fun found => (.string found.1, found.2) := by
      rw [← value_skipBlanks, found]
      exact value_scalar rfl (by decide) (by decide) levels after
    rw [same]
    split
    · rename_i failure failed
      rw [failed]
      exact ⟨failure, rfl⟩
    · rename_i name rest read
      rw [read]
      split
      · rename_i mismatch unknown
        refine ⟨Nat.le_refl _, fun v rest same kind named => ?_⟩
        cases same
        obtain ⟨_, same, known⟩ := named
        cases same
        cases unknown.symm.trans known
      · rename_i kind known
        exact ⟨.string name, rfl, name, rfl, known⟩
  · rename_i noQuote
    refine misfit_agrees .kindName fun v rest read kind named => ?_
    obtain ⟨name, same, _⟩ := named
    obtain ⟨after, quote⟩ := (value_form read).1 name same
    exact noQuote after quote

theorem HasParts.kind_of_mem {ms : List (String × Value)} {parts : ItemKind × Value} {v : Value}
    (has : HasParts (.object ms) parts) (member : (kindField, v) ∈ ms) : IsKind v parts.1 := by
  cases has with
  | object once named =>
    have kept : (kindField, v) ∈ ms.filter (·.1 = kindField) :=
      List.mem_filter.mpr ⟨member, by simp⟩
    rw [once, List.mem_singleton] at kept
    cases kept
    exact named

theorem HasParts.once {ms : List (String × Value)} {parts : ItemKind × Value}
    (has : HasParts (.object ms) parts) : (ms.filter (·.1 = kindField)).length = 1 := by
  cases has with
  | object once _ => rw [once]; rfl

/-- What the reader of an item keeps of the members it has read: the kind, if it was among
them, and the others. -/
def Collected (kind? : Option ItemKind) (before ms : List (String × Value)) : Prop :=
  before = ms.filter (·.1 ≠ kindField) ∧
  match kind? with
  | none => ms.filter (·.1 = kindField) = []
  | some kind => ∃ v, ms.filter (·.1 = kindField) = [(kindField, v)] ∧ IsKind v kind

section Members

variable {kind? : Option ItemKind} {before ms : List (String × Value)}

theorem Collected.other {name : String} (collected : Collected kind? before ms)
    (other : name ≠ kindField) (v : Value) :
    Collected kind? ((name, v) :: before) ((name, v) :: ms) := by
  obtain ⟨same, kind⟩ := collected
  refine ⟨by simp [other, same], ?_⟩
  have skipped : ((name, v) :: ms).filter (·.1 = kindField) = ms.filter (·.1 = kindField) := by
    simp [other]
  rw [skipped]
  exact kind

theorem Collected.kind {kind : ItemKind} {v : Value} (collected : Collected none before ms)
    (named : IsKind v kind) : Collected (some kind) before ((kindField, v) :: ms) := by
  obtain ⟨same, none⟩ := collected
  have none : ms.filter (·.1 = kindField) = [] := none
  refine ⟨by simpa using same, v, ?_, named⟩
  rw [List.filter_cons_of_pos (by simp), none]

theorem Collected.parts {kind : ItemKind} (collected : Collected (some kind) before ms) :
    HasParts (.object ms.reverse) (kind, .object before.reverse) := by
  obtain ⟨same, v, once, named⟩ := collected
  have others : before.reverse = ms.reverse.filter (·.1 ≠ kindField) := by
    rw [List.filter_reverse, same]
  rw [others]
  refine .object ?_ named
  rw [List.filter_reverse, once]
  rfl

theorem itemMembers_kindAt {budget : Nat} {first : Bool} {text key start : List Char}
    (step : objectStep first text = .ok (.key kindField key)) (colonRead : colon key = .ok start) :
    itemMembers (budget + 1) first none before text =
      (itemKind start >>= fun found => itemMembers budget false (some found.1) before found.2 :
        Except ReadError ((ItemKind × Value) × List Char)) := by
  simp only [itemMembers, step, if_true, colonRead]
  cases itemKind start <;> rfl

theorem itemMembers_otherAt {budget : Nat} {first : Bool} {text key start : List Char}
    {name : String} (other : name ≠ kindField) (step : objectStep first text = .ok (.key name key))
    (colonRead : colon key = .ok start) :
    itemMembers (budget + 1) first kind? before text =
      scanned (value itemNesting start) >>= fun found =>
        itemMembers budget false kind? ((name, found.1) :: before) found.2 := by
  simp only [itemMembers, step, if_neg other, colonRead]
  cases value itemNesting start <;> rfl

theorem itemMembers_agrees {budget : Nat} {first : Bool} {text : List Char}
    (collected : Collected kind? before ms) :
    Agrees (fun all parts => HasParts (.object all) parts)
      (members (value itemNesting) budget first ms text)
      (itemMembers budget first kind? before text) := by
  induction budget generalizing first kind? before ms text with
  | zero => exact ⟨_, rfl⟩
  | succ budget ih =>
    cases step : objectStep first text with
    | error failure =>
      simp only [members, itemMembers, step]
      exact ⟨failure, rfl⟩
    | ok next =>
      cases next with
      | closed rest =>
        simp only [members, itemMembers, step]
        cases kind? with
        | none =>
          refine ⟨Nat.le_refl _, fun all rest same parts has => ?_⟩
          cases same
          have once := has.once
          have none : ms.filter (·.1 = kindField) = [] := collected.2
          rw [List.filter_reverse, none] at once
          cases once
        | some kind => exact ⟨ms.reverse, rfl, collected.parts⟩
      | key name key =>
        rw [members_key step]
        by_cases isKind : name = kindField
        · subst isKind
          cases kind? with
          | some kind =>
            -- a second kind: the first is among the members already
            have stops : itemMembers (budget + 1) first (some kind) before text =
                .error (.misshapen (.duplicateField kindField) ⟨leaveObject key, 0⟩) := by
              simp only [itemMembers, step, if_true]
            rw [stops]
            refine ⟨member_leaves (value_remains _) _ _ _, fun all rest found parts has => ?_⟩
            obtain ⟨v, more, rfl⟩ := member_extends found
            obtain ⟨_, w, earlier, _⟩ := collected
            have once := has.once
            rw [List.filter_append, List.filter_reverse, earlier,
              List.filter_cons_of_pos (by simp)] at once
            simp at once
          | none =>
            cases colonRead : colon key with
            | error failure =>
              simp only [itemMembers, step, if_true, colonRead, member]
              exact ⟨failure, rfl⟩
            | ok start =>
              rw [member_start colonRead, itemMembers_kindAt step colonRead]
              refine (itemKind_agrees itemNesting start).bind (fun v rest _ => ?_)
                (fun v rest _ nothing all rest' found parts has => ?_)
                (fun v kind rest _ named => ih (collected.kind named))
              · exact members_remains (value_remains _) _ _ _ _
              · obtain ⟨more, rfl⟩ := members_extends found
                exact nothing parts.1 (has.kind_of_mem (by simp))
        · cases colonRead : colon key with
          | error failure =>
            simp only [itemMembers, step, if_neg isKind, colonRead, member]
            exact ⟨failure, rfl⟩
          | ok start =>
            rw [member_start colonRead, itemMembers_otherAt isKind step colonRead]
            cases taken : value itemNesting start with
            | error failure => exact ⟨failure, rfl⟩
            | ok found => exact ih (collected.other isKind found.1)

end Members

theorem itemParts_agrees (text : List Char) :
    Agrees HasParts (value (itemNesting + 1) text) (itemParts text) := by
  unfold itemParts
  split
  · rename_i rest found
    rw [← value_skipBlanks, found, value_object]
    exact (itemMembers_agrees ⟨rfl, rfl⟩).map fun _ _ => Iff.rfl
  · rename_i rest found
    rw [← value_skipBlanks, found, value_list]
    cases rest with
    | nil => exact ⟨_, rfl⟩
    | cons c tail =>
      have remains := listStep_remains true (c :: tail)
      cases step : listStep true (c :: tail) with
      | error failure =>
        simp only [List.length_cons, elements, step]
        exact ⟨failure, rfl⟩
      | ok next =>
        cases next with
        | closed rest =>
          simp only [List.length_cons, elements, step]
          refine ⟨Nat.le_refl _, fun v rest same parts has => ?_⟩
          cases same
          cases has
        | element start =>
          rw [step] at remains
          have inside : start.length ≤ (c :: tail).length := List.IsSuffix.length_le remains
          rw [List.length_cons, elements_element step]
          refine Agrees.map (?_ : Agrees (fun vs parts => HasParts (.list vs) parts) _ _)
            fun _ _ => Iff.rfl
          refine (itemKind_agrees itemNesting start).bind (fun v rest _ => ?_)
            (fun v rest _ nothing vs rest' listed parts has => ?_)
            (fun v kind rest taken named => ?_)
          · exact elements_remains (value_remains _) _ _ _ _
          · obtain ⟨more, rfl⟩ := elements_extends listed
            cases has with
            | list named _ => exact nothing _ named
          · have shorter := value_shortens taken
            have fits : rest.length ≤ tail.length := by
              rw [List.length_cons] at inside
              omega
            have regrouped : elements (value itemNesting) tail.length false [v] rest =
                (elements (value itemNesting) rest.length false [] rest).map
                  fun found => (v :: found.1, found.2) :=
              elements_regroup value_shortens [v] [] fits (Nat.le_refl _)
            dsimp only
            rw [regrouped]
            cases elements (value itemNesting) rest.length false [] rest with
            | error failure => exact ⟨failure, rfl⟩
            | ok fields => exact ⟨v :: fields.1, rfl, .list named fields.1⟩
  · rename_i noObject noList
    refine misfit_agrees _ fun v rest read parts has => ?_
    cases has with
    | object _ _ =>
      obtain ⟨after, found⟩ := (value_form read).2.2 _ rfl
      exact noObject after found
    | list _ _ =>
      obtain ⟨after, found⟩ := (value_form read).2.1 _ rfl
      exact noList after found

theorem portrays_of_mem {v : Value} {vs : List Value} {found : List Item}
    (each : List.Forall₂ Portrays vs found) (member : v ∈ vs) : ∃ item, Portrays v item := by
  induction each with
  | nil => cases member
  | cons portrays _ ih =>
    rcases List.mem_cons.mp member with rfl | later
    · exact ⟨_, portrays⟩
    · exact ih later

theorem items_agrees {budget : Nat} {first : Bool} {text : List Char} {vs : List Value}
    {before : List Item} (each : List.Forall₂ Portrays vs before) :
    Agrees (List.Forall₂ Portrays) (elements (value (itemNesting + 1)) budget first vs text)
      (items budget first before text) := by
  induction budget generalizing first text vs before with
  | zero => exact ⟨_, rfl⟩
  | succ budget ih =>
    cases step : listStep first text with
    | error failure =>
      simp only [elements, items, step]
      exact ⟨failure, rfl⟩
    | ok next =>
      cases next with
      | closed rest =>
        simp only [elements, items, step]
        exact ⟨vs.reverse, rfl, List.forall₂_reverse_iff.mpr each⟩
      | element start =>
        rw [elements_element step]
        -- an element that is no item spoils the list, whatever follows it
        have spoils {v : Value} {rest rest' : List Char} {all : List Value}
            (none : ∀ item, ¬Portrays v item)
            (listed : elements (value (itemNesting + 1)) budget false (v :: vs) rest =
              .ok (all, rest')) (found : List Item) : ¬List.Forall₂ Portrays all found := by
          intro portrayed
          obtain ⟨more, rfl⟩ := elements_extends listed
          obtain ⟨item, portrays⟩ := portrays_of_mem portrayed (v := v) (by simp)
          exact none item portrays
        have parts := itemParts_agrees start
        cases taken : itemParts start with
        | error error =>
          rw [taken] at parts
          have stopped : items (budget + 1) first before text = .error error := by
            simp only [items, step, item, taken]
          rw [stopped]
          refine parts.stops (fun v rest _ => ?_) fun v rest _ nothing all rest' listed => ?_
          · exact elements_remains (value_remains _) _ _ _ _
          · refine spoils (fun item portrayed => ?_) listed
            obtain ⟨parts, has, _⟩ := portrayed
            exact nothing parts has
        | ok found =>
          obtain ⟨⟨kind, fields⟩, rest⟩ := found
          rw [taken] at parts
          obtain ⟨v, scanned, has⟩ := parts
          rw [scanned]
          cases decoded : decodeItem kind fields with
          | error mismatch =>
            have stopped : items (budget + 1) first before text =
                .error (.misshapen mismatch ⟨leaveList rest, 0⟩) := by
              simp only [items, step, item, taken, decoded]
            rw [stopped]
            refine ⟨elements_leaves (value_remains _) _ _, fun all rest' listed => ?_⟩
            refine spoils (fun item portrayed => ?_) listed
            obtain ⟨parts, has', known⟩ := portrayed
            cases has.unique has'
            cases decoded.symm.trans known
          | ok item =>
            have goesOn : items (budget + 1) first before text =
                items budget false (item :: before) rest := by
              simp only [items, step, Tree.item, taken, decoded]
            rw [goesOn]
            exact ih (.cons ⟨(kind, fields), has, decoded⟩ each)

theorem itemList_agrees (text : List Char) :
    Agrees PortraysItems (value (itemNesting + 2) text) (itemList text) := by
  unfold itemList
  split
  · rename_i rest found
    rw [← value_skipBlanks, found, value_list]
    refine (items_agrees .nil).map fun vs found => ⟨fun portrayed => ?_, fun each => ?_⟩
    · obtain ⟨_, same, each⟩ := portrayed
      cases same
      exact each
    · exact ⟨vs, rfl, each⟩
  · rename_i noList
    refine misfit_agrees .sequence fun v rest read found portrayed => ?_
    obtain ⟨vs, same, _⟩ := portrayed
    obtain ⟨after, bracket⟩ := (value_form read).2.1 vs same
    exact noList after bracket

end Caju.Tree
