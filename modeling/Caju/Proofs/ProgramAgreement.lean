import Caju.Proofs.ItemAgreement

/-! The shapes of programs, and how programs are read from a text. Main statements: unless the
text exceeds a limit, the reader finds the program that the value portrays or stops where it
portrays none, in front of every flaw of the text (`program_agrees`); and it accepts nothing
that is not well formed (`wellFormed_of_read`). -/

namespace Caju.Tree

open Caju.Json

/-! ### Shapes -/

/-- The value has the shape of a program: an object that holds its items once, or a list of
nothing but the items. -/
inductive PortraysProgram : Value → Program → Prop
  | object {ms : List (String × Value)} {v : Value} {p : Program}
    (once : ms.filter (·.1 = itemsField) = [(itemsField, v)]) (items : PortraysItems v p.items) :
    PortraysProgram (.object ms) p
  | list {v : Value} {p : Program} (items : PortraysItems v p.items) :
    PortraysProgram (.list [v]) p

/-- A list of the items of a program and something more. -/
def Overfull (v : Value) : Prop :=
  ∃ first second others items, v = .list (first :: second :: others) ∧ PortraysItems first items

theorem PortraysProgram.once {ms : List (String × Value)} {p : Program}
    (portrays : PortraysProgram (.object ms) p) :
    ∃ v, ms.filter (·.1 = itemsField) = [(itemsField, v)] ∧ PortraysItems v p.items := by
  cases portrays with
  | object once items => exact ⟨_, once, items⟩

theorem PortraysProgram.unique {v : Value} {p q : Program} (first : PortraysProgram v p)
    (second : PortraysProgram v q) : p = q := by
  have same : p.items = q.items := by
    cases first with
    | object once items =>
      obtain ⟨w, once', items'⟩ := second.once
      cases once.symm.trans once'
      exact items.unique items'
    | list items =>
      cases second with
      | list items' => exact items.unique items'
  exact congrArg Program.mk same

theorem Overfull.portrays_none {v : Value} (overfull : Overfull v) (p : Program) :
    ¬PortraysProgram v p := by
  intro portrays
  obtain ⟨_, _, _, _, rfl, _⟩ := overfull
  cases portrays

/-! ### Programs -/

/-- The items among the members that have been read, if they are among them. -/
def Held (items? : Option (List Item)) (ms : List (String × Value)) : Prop :=
  match items? with
  | none => ms.filter (·.1 = itemsField) = []
  | some found => ∃ v, ms.filter (·.1 = itemsField) = [(itemsField, v)] ∧ PortraysItems v found

theorem Held.other {items? : Option (List Item)} {ms : List (String × Value)} {name : String}
    (held : Held items? ms) (other : name ≠ itemsField) (v : Value) :
    Held items? ((name, v) :: ms) := by
  have skipped : ((name, v) :: ms).filter (·.1 = itemsField) = ms.filter (·.1 = itemsField) := by
    simp [other]
  unfold Held
  rw [skipped]
  exact held

theorem programMembers_itemsAt {budget : Nat} {first : Bool} {text key start : List Char}
    (step : objectStep first text = .ok (.key itemsField key)) (colonRead : colon key = .ok start) :
    programMembers (budget + 1) first none text =
      (itemList start >>= fun found => programMembers budget false (some found.1) found.2 :
        Except ReadError (Program × List Char)) := by
  simp only [programMembers, step, if_true, colonRead]
  cases itemList start <;> rfl

theorem programMembers_otherAt {budget : Nat} {first : Bool} {text key start : List Char}
    {items? : Option (List Item)} {name : String} (other : name ≠ itemsField)
    (step : objectStep first text = .ok (.key name key)) (colonRead : colon key = .ok start) :
    programMembers (budget + 1) first items? text =
      scanned (skim start) >>= fun rest => programMembers budget false items? rest := by
  simp only [programMembers, step, if_neg other, colonRead]
  cases skim start <;> rfl

/-- The scan stops at no limit of its own. -/
def Unlimited {α : Type} (scan : Scan α) : Prop :=
  ∀ failure, scan = .error failure → failure.flaw.isLimit = false

theorem programMembers_agrees {budget : Nat} {first : Bool} {text : List Char}
    {items? : Option (List Item)} {ms : List (String × Value)} (held : Held items? ms)
    (unlimited : Unlimited (members (value (itemNesting + 2)) budget first ms text)) :
    Agrees (fun all p => PortraysProgram (.object all) p)
      (members (value (itemNesting + 2)) budget first ms text)
      (programMembers budget first items? text) := by
  induction budget generalizing first items? ms text with
  | zero => exact ⟨_, rfl⟩
  | succ budget ih =>
    cases step : objectStep first text with
    | error failure =>
      simp only [members, programMembers, step]
      exact ⟨failure, rfl⟩
    | ok next =>
      cases next with
      | closed rest =>
        simp only [members, programMembers, step]
        cases items? with
        | none =>
          refine ⟨Nat.le_refl _, fun all rest same p portrays => ?_⟩
          cases same
          obtain ⟨v, once, _⟩ := portrays.once
          have none : ms.filter (·.1 = itemsField) = [] := held
          rw [List.filter_reverse, none] at once
          cases once
        | some found =>
          obtain ⟨v, once, portrayed⟩ := held
          refine ⟨ms.reverse, rfl, .object ?_ portrayed⟩
          rw [List.filter_reverse, once]
          rfl
      | key name key =>
        rw [members_key step] at unlimited ⊢
        by_cases isItems : name = itemsField
        · subst isItems
          cases items? with
          | some found =>
            -- the items again: the first are among the members already
            have stops : programMembers (budget + 1) first (some found) text =
                .error (.misshapen (.duplicateField itemsField) ⟨leaveObject key, 0⟩) := by
              simp only [programMembers, step, if_true]
            rw [stops]
            refine ⟨member_leaves (value_remains _) _ _ _, fun all rest listed p portrays => ?_⟩
            obtain ⟨v, more, rfl⟩ := member_extends listed
            obtain ⟨w, earlier, _⟩ := held
            obtain ⟨_, once, _⟩ := portrays.once
            rw [List.filter_append, List.filter_reverse, earlier,
              List.filter_cons_of_pos (by simp)] at once
            simp at once
          | none =>
            cases colonRead : colon key with
            | error failure =>
              simp only [programMembers, step, if_true, colonRead, member]
              exact ⟨failure, rfl⟩
            | ok start =>
              have none : ms.filter (·.1 = itemsField) = [] := held
              rw [member_start colonRead] at unlimited ⊢
              rw [programMembers_itemsAt step colonRead]
              refine (itemList_agrees start).bind (fun v rest _ => ?_)
                (fun v rest _ nothing all rest' listed p portrays => ?_)
                (fun v found rest taken portrayed => ih ⟨v, ?_, portrayed⟩ ?_)
              · exact members_remains (value_remains _) _ _ _ _
              · obtain ⟨more, rfl⟩ := members_extends listed
                obtain ⟨w, once, portrayed⟩ := portrays.once
                have kept : (itemsField, v) ∈
                    (((itemsField, v) :: ms).reverse ++ more).filter (·.1 = itemsField) :=
                  List.mem_filter.mpr ⟨by simp, by simp⟩
                rw [once, List.mem_singleton] at kept
                cases kept
                exact nothing _ portrayed
              · rw [List.filter_cons_of_pos (by simp), none]
              · rw [taken] at unlimited
                exact unlimited
        · cases colonRead : colon key with
          | error failure =>
            simp only [programMembers, step, if_neg isItems, colonRead, member]
            exact ⟨failure, rfl⟩
          | ok start =>
            rw [member_start colonRead] at unlimited ⊢
            rw [programMembers_otherAt isItems step colonRead]
            cases taken : value (itemNesting + 2) start with
            | error failure =>
              rw [taken] at unlimited
              obtain ⟨other, skimmed⟩ := skim_fails taken (unlimited failure rfl)
              rw [skimmed]
              exact ⟨failure, rfl⟩
            | ok found =>
              rw [taken] at unlimited
              rw [skim_of_value taken]
              exact ih (held.other isItems found.1) unlimited

theorem endOfProgramList_eq_ok {text rest : List Char} (ended : endOfProgramList text = .ok rest) :
    skipBlanks text = ']' :: rest := by
  unfold endOfProgramList at ended
  split at ended
  · cases ended
  · rename_i found
    cases ended
    exact found
  · split at ended <;> cases ended
  · cases ended

/-- What follows the items of a program that is written as a list: its end, a flaw, or more
elements. -/
theorem endOfProgramList_agrees {budget : Nat} {v : Value} {text : List Char}
    (enough : text.length ≤ budget) :
    (∃ rest, endOfProgramList text = .ok rest ∧
      elements (value (itemNesting + 2)) budget false [v] text = .ok ([v], rest)) ∨
    ∃ failure, endOfProgramList text = .error failure ∧
      ((∃ other, elements (value (itemNesting + 2)) budget false [v] text = .error other) ∨
        ∃ w more rest, elements (value (itemNesting + 2)) budget false [v] text =
          .ok (v :: w :: more, rest)) := by
  cases budget with
  | zero =>
    have none : text = [] := List.eq_nil_of_length_eq_zero (Nat.le_zero.mp enough)
    rw [none]
    exact .inr ⟨_, rfl, .inl ⟨_, rfl⟩⟩
  | succ budget =>
    cases ended : endOfProgramList text with
    | ok rest =>
      refine .inl ⟨rest, rfl, ?_⟩
      simp [elements, listStep, endOfProgramList_eq_ok ended]
    | error failure =>
      refine .inr ⟨failure, rfl, ?_⟩
      cases step : listStep false text with
      | error other =>
        simp only [elements, step]
        exact .inl ⟨other, rfl⟩
      | ok next =>
        cases next with
        | closed rest =>
          obtain ⟨_, found, same⟩ | same | ⟨_, _, same⟩ := listStep_cases step
          · simp [endOfProgramList, found] at ended
          · cases same
          · cases same
        | element start =>
          rw [elements_element step]
          cases value (itemNesting + 2) start with
          | error other => exact .inl ⟨other, rfl⟩
          | ok found =>
            obtain ⟨w, after⟩ := found
            show (∃ other, elements _ budget false [w, v] after = .error other) ∨
              ∃ w' more rest, elements _ budget false [w, v] after = .ok (v :: w' :: more, rest)
            cases listed : elements (value (itemNesting + 2)) budget false [w, v] after with
            | error other => exact .inl ⟨other, rfl⟩
            | ok found =>
              obtain ⟨vs, rest⟩ := found
              obtain ⟨more, rfl⟩ := elements_extends listed
              exact .inr ⟨w, more, rest, rfl⟩

theorem program_objectAt {text rest : List Char} (found : skipBlanks text = '{' :: rest) :
    program text = programMembers rest.length true none rest := by
  simp only [program, found]

theorem program_listAt {text rest start : List Char} (found : skipBlanks text = '[' :: rest)
    (step : listStep true rest = .ok (.element start)) :
    program text = (itemList start >>= fun read =>
      scanned (endOfProgramList read.2) >>= fun rest => .ok (⟨read.1⟩, rest) :
        Except ReadError (Program × List Char)) := by
  simp only [program, found, step]
  rfl

theorem program_other {text : List Char} (object : ¬∃ rest, skipBlanks text = '{' :: rest)
    (list : ¬∃ rest, skipBlanks text = '[' :: rest) :
    program text = .error (misfit (.record "struct Program") (skipBlanks text)) := by
  unfold program
  split
  · rename_i found
    exact absurd ⟨_, found⟩ object
  · rename_i found
    exact absurd ⟨_, found⟩ list
  · rfl

theorem list_portrays_nothing {v : Value} (nothing : ∀ items, ¬PortraysItems v items)
    (more : List Value) :
    (∀ p, ¬PortraysProgram (.list (v :: more)) p) ∧ ¬Overfull (.list (v :: more)) := by
  constructor
  · intro p portrays
    cases portrays with
    | list portrayed => exact nothing _ portrayed
  · rintro ⟨_, _, _, items, same, portrayed⟩
    cases same
    exact nothing items portrayed

/-- How a program that is written as a list is read. -/
theorem program_list_agrees {text rest : List Char} (found : skipBlanks text = '[' :: rest) :
    (Agrees PortraysProgram (value (itemNesting + 3) text) (program text) ∧
      ∀ v rest, value (itemNesting + 3) text = .ok (v, rest) → ¬Overfull v) ∨
    ∃ v rest failure, value (itemNesting + 3) text = .ok (v, rest) ∧ Overfull v ∧
      program text = .error (.malformed failure) := by
  rw [← value_skipBlanks, found, value_list]
  have remains := listStep_remains true rest
  cases step : listStep true rest with
  | error failure =>
    have stopped : program text = .error (.malformed failure) := by
      simp only [program, found, step]
      rfl
    rw [stopped]
    left
    cases rest with
    | nil =>
      refine ⟨⟨_, rfl⟩, fun _ _ same => ?_⟩
      cases same
    | cons c tail =>
      simp only [List.length_cons, elements, step]
      refine ⟨⟨failure, rfl⟩, fun _ _ same => ?_⟩
      cases same
  | ok next =>
    rw [step] at remains
    cases rest with
    | nil => cases step
    | cons c tail =>
      rw [List.length_cons]
      cases next with
      | closed rest =>
        have stopped : program text =
            .error (.misshapen (.wrongLength 0 (.fields "struct Program" 1)) ⟨rest, 0⟩) := by
          simp only [program, found, step]
          rfl
        rw [stopped]
        simp only [elements, step]
        refine .inl ⟨⟨Nat.le_refl _, fun v rest same p portrays => ?_⟩,
          fun v rest same overfull => ?_⟩
        · cases same
          cases portrays
        · obtain ⟨_, _, _, _, rfl, _⟩ := overfull
          cases same
      | element start =>
        have inside : start.length ≤ (c :: tail).length := List.IsSuffix.length_le remains
        rw [elements_element step, program_listAt found step]
        have listed := itemList_agrees start
        cases taken : itemList start with
        | error error =>
          rw [taken] at listed
          refine .inl ⟨Agrees.map (?_ : Agrees (fun vs p => PortraysProgram (.list vs) p) _ _)
            fun _ _ => Iff.rfl, fun v rest scanned overfull => ?_⟩
          · refine listed.stops (fun v rest _ => ?_) fun v rest _ nothing vs rest' listed p => ?_
            · exact elements_remains (value_remains _) _ _ _ _
            · obtain ⟨more, rfl⟩ := elements_extends listed
              exact (list_portrays_nothing nothing more).1 p
          · obtain ⟨⟨vs, _⟩, scanned, same⟩ := map_eq_ok_iff.mp scanned
            cases same
            obtain ⟨⟨v, after⟩, valued, scanned⟩ := bind_eq_ok_iff.mp scanned
            obtain ⟨more, rfl⟩ := elements_extends scanned
            exact (list_portrays_nothing (listed.rejects valued) more).2 overfull
        | ok read =>
          obtain ⟨items, after⟩ := read
          rw [taken] at listed
          obtain ⟨v, valued, portrayed⟩ := listed
          have shorter := value_shortens valued
          have fits : after.length ≤ tail.length := by
            rw [List.length_cons] at inside
            omega
          rw [valued]
          simp only [bind, Except.bind]
          obtain ⟨rest, ended, listed⟩ |
              ⟨failure, ended, ⟨other, failed⟩ | ⟨w, more, rest, listed⟩⟩ :=
            endOfProgramList_agrees (v := v) fits
          · rw [ended, listed]
            refine .inl ⟨⟨.list [v], rfl, .list portrayed⟩, fun u rest same overfull => ?_⟩
            obtain ⟨_, _, _, _, rfl, _⟩ := overfull
            cases same
          · rw [ended, failed]
            refine .inl ⟨⟨other, rfl⟩, fun _ _ same => ?_⟩
            cases same
          · rw [ended, listed]
            exact .inr ⟨_, rest, failure, rfl, ⟨v, w, more, items, rfl, portrayed⟩, rfl⟩

/-- A program is read as its value portrays it, if there is no limit in the way. A list of
its items that goes on is a flaw to the reader and none to the scan. -/
theorem program_agrees {text : List Char} (unlimited : Unlimited (value maxNesting text)) :
    (Agrees PortraysProgram (value maxNesting text) (program text) ∧
      ∀ v rest, value maxNesting text = .ok (v, rest) → ¬Overfull v) ∨
    ∃ v rest failure, value maxNesting text = .ok (v, rest) ∧ Overfull v ∧
      program text = .error (.malformed failure) := by
  have levels : maxNesting = itemNesting + 3 := rfl
  rw [levels] at unlimited ⊢
  by_cases list : ∃ rest, skipBlanks text = '[' :: rest
  · obtain ⟨rest, found⟩ := list
    exact program_list_agrees found
  · refine .inl ⟨?_, fun v rest read overfull => ?_⟩
    · by_cases object : ∃ rest, skipBlanks text = '{' :: rest
      · obtain ⟨rest, found⟩ := object
        rw [← value_skipBlanks, found, value_object] at unlimited ⊢
        rw [program_objectAt found]
        have inside : Unlimited (members (value (itemNesting + 2)) rest.length true [] rest) :=
          fun failure failed => unlimited failure (by rw [failed]; rfl)
        have nothing : Held none [] := rfl
        exact (programMembers_agrees nothing inside).map fun _ _ => Iff.rfl
      · rw [program_other object list]
        refine misfit_agrees _ fun v rest read p portrays => ?_
        cases portrays with
        | object _ _ => exact object ((value_form read).2.2 _ rfl)
        | list _ => exact list ((value_form read).2.1 _ rfl)
    · obtain ⟨_, _, _, _, rfl, _⟩ := overfull
      exact list ((value_form read).2.1 _ rfl)

/-! ### What is accepted -/

theorem itemList_skims {text rest : List Char} {items : List Item}
    (accepted : itemList text = .ok (items, rest)) (stack : List Bracket) :
    skimFrom stack text = skimAfter stack rest := by
  have agrees := itemList_agrees text
  rw [accepted] at agrees
  obtain ⟨v, valued, _⟩ := agrees
  have tracks := value_tracks (itemNesting + 2) stack text
  rw [valued] at tracks
  exact tracks

/-- A program is read from members that are well formed, those passed over too. -/
theorem programMembers_skims {budget : Nat} {first : Bool} {items? : Option (List Item)}
    {text rest : List Char} {p : Program}
    (accepted : programMembers budget first items? text = .ok (p, rest)) :
    Halts text ∧ skimOn first .object [] text = .ok rest := by
  induction budget generalizing first items? text with
  | zero => cases accepted
  | succ budget ih =>
    have tracks : Tracks (ObjectStep.skimmed []) (objectStep first text)
        (skimOn first .object [] text) := objectStep_tracks
    cases step : objectStep first text with
    | error failure =>
      simp only [programMembers, step] at accepted
      cases accepted
    | ok next =>
      rw [step] at tracks
      refine ⟨objectStep_halts step, Eq.trans tracks ?_⟩
      cases next with
      | closed after =>
        simp only [programMembers, step] at accepted
        cases items? with
        | none => cases accepted
        | some items =>
          cases accepted
          rfl
      | key name key =>
        cases colonRead : colon key with
        | error failure =>
          simp only [programMembers, step, colonRead] at accepted
          split at accepted
          · split at accepted <;> cases accepted
          · cases accepted
        | ok start =>
          show colon key >>= skimFrom [.object] = .ok rest
          rw [colonRead]
          show skimFrom [.object] start = .ok rest
          by_cases isItems : name = itemsField
          · subst isItems
            cases items? with
            | some items =>
              simp only [programMembers, step, if_true] at accepted
              cases accepted
            | none =>
              rw [programMembers_itemsAt step colonRead] at accepted
              obtain ⟨⟨items, after⟩, taken, accepted⟩ := bind_eq_ok_iff.mp accepted
              rw [itemList_skims taken]
              exact (ih accepted).2
          · rw [programMembers_otherAt isItems step colonRead] at accepted
            obtain ⟨after, skimmed, accepted⟩ := bind_eq_ok_iff.mp accepted
            obtain ⟨halts, onwards⟩ := ih accepted
            rw [(skim_sound (scanned_eq_ok skimmed)).skims halts]
            exact onwards

/-- What is accepted as a program is one value, by the grammar alone. -/
theorem program_skims {text rest : List Char} {p : Program}
    (accepted : program text = .ok (p, rest)) : skim text = .ok rest := by
  unfold program at accepted
  split at accepted
  · rename_i after found
    have entered : skimFrom [] text = skimInside .object [] after := skimFrom_bracket found
    exact entered.trans (programMembers_skims accepted).2
  · rename_i after found
    obtain ⟨step, stepped, accepted⟩ := bind_eq_ok_iff.mp accepted
    have tracks : Tracks (ListStep.skimmed []) (listStep true after) (skimInside .list [] after) :=
      listStep_tracks
    rw [scanned_eq_ok stepped] at tracks
    split at accepted
    · cases accepted
    · rename_i start
      obtain ⟨⟨items, middle⟩, taken, accepted⟩ := bind_eq_ok_iff.mp accepted
      obtain ⟨last, ended, accepted⟩ := bind_eq_ok_iff.mp accepted
      cases accepted
      have closing : skipBlanks middle = Bracket.list.closing :: rest :=
        endOfProgramList_eq_ok (scanned_eq_ok ended)
      calc skim text
        _ = skimInside .list [] after := skimFrom_bracket found
        _ = skimFrom [.list] start := tracks
        _ = skimAfter [.list] middle := itemList_skims taken _
        _ = skimAfter [] rest := skimAfter_closing closing
  · cases accepted

theorem wellFormed_of_read {text : List Char} {p : Program} (accepted : read text = .ok p) :
    WellFormed text := by
  obtain ⟨⟨_, rest⟩, found, accepted⟩ := bind_eq_ok_iff.mp accepted
  obtain ⟨_, finished, _⟩ := bind_eq_ok_iff.mp accepted
  exact wellFormed_iff.mpr ⟨rest, program_skims found, scanned_eq_ok finished⟩

end Caju.Tree
