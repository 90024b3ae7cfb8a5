import Caju.Proofs.ProgramText

/-! Programs written out again after they were read. A text may leave members out that
the written program has, so the two need not nest alike: an empty list of arguments is a
bracket of its own. Main statement: a program is written at most one bracket deeper than
the text it was read from, and is read again unless that one bracket is too many
(`Program.ofText_reread`). -/

namespace Caju

namespace Tree

open Caju.Json

/-! ### What the reader passes over -/

theorem scanned_eq_ok {α : Type} {result : Except Failure α} {a : α}
    (read : scanned result = .ok a) : result = .ok a := by
  cases result with
  | ok b => cases read; rfl
  | error failure => cases read

theorem itemKind_spans {text rest : List Char} {kind : ItemKind}
    (read : itemKind text = .ok (kind, rest)) : Spans 0 text rest := by
  have blanks := skipBlanks_spans text
  unfold itemKind at read
  split at read
  · rename_i after found
    rw [found] at blanks
    split at read
    · cases read
    · rename_i name tail body
      split at read
      · cases read
      · cases read
        exact blanks.skip (spans_of_quoted (stringBody_deepest body))
  · cases read

/-- The members of an item nest as deeply as their text, its kind not at all. -/
theorem itemMembers_closes {budget : Nat} {first : Bool} {kind? : Option ItemKind}
    {before : List (String × Value)} {text rest : List Char} {kind : ItemKind} {fields : Value}
    (read : itemMembers budget first kind? before text = .ok ((kind, fields), rest)) :
    ∃ more, fields = .object (before.reverse ++ more) ∧ nestingMembers more ≤ itemNesting ∧
      Closes (nestingMembers more) text rest := by
  induction budget generalizing first kind? before text with
  | zero => cases read
  | succ budget ih =>
    unfold itemMembers at read
    split at read
    · cases read
    · rename_i after step
      split at read
      · cases read
      · cases read
        exact ⟨[], by simp, Nat.zero_le _, objectStep_closes step⟩
    · rename_i name key step
      have keyed := objectStep_spans step
      split at read
      · split at read
        · cases read
        · split at read
          · cases read
          · rename_i start colonRead
            split at read
            · cases read
            · rename_i kind' after named
              obtain ⟨more, same, bounded, closes⟩ := ih read
              exact ⟨more, same, bounded,
                keyed.skipTo ((colon_spans colonRead).skipTo ((itemKind_spans named).skipTo closes))⟩
      · split at read
        · cases read
        · rename_i start colonRead
          split at read
          · cases read
          · rename_i v after found
            obtain ⟨more, same, bounded, closes⟩ := ih read
            obtain ⟨shallow, spans⟩ := value_follows itemNesting found
            refine ⟨(name, v) :: more, by simp [same], Nat.max_le.mpr ⟨shallow, bounded⟩, ?_⟩
            exact (keyed.skip ((colon_spans colonRead).skip spans)).closes closes

theorem itemParts_spans {text rest : List Char} {kind : ItemKind} {fields : Value}
    (read : itemParts text = .ok ((kind, fields), rest)) :
    fields.nesting ≤ itemNesting + 1 ∧ Spans fields.nesting text rest := by
  have blanks := skipBlanks_spans text
  unfold itemParts at read
  split at read
  · rename_i after found
    rw [found] at blanks
    obtain ⟨more, rfl, bounded, closes⟩ := itemMembers_closes read
    exact ⟨Nat.succ_le_succ bounded, blanks.skip (closes.bracketed (.inr rfl))⟩
  · rename_i after found
    rw [found] at blanks
    obtain ⟨step, stepped, read⟩ := bind_eq_ok_iff.mp read
    split at read
    · cases read
    · rename_i start
      obtain ⟨⟨kind', tail⟩, named, read⟩ := bind_eq_ok_iff.mp read
      obtain ⟨⟨vs, after'⟩, listed, read⟩ := bind_eq_ok_iff.mp read
      cases read
      obtain ⟨more, rfl, bounded, closes⟩ :=
        elements_closes (value_follows itemNesting) (scanned_eq_ok listed)
      have inside := (listStep_spans (scanned_eq_ok stepped)).skipTo
        ((itemKind_spans named).skipTo closes)
      exact ⟨Nat.succ_le_succ bounded, blanks.skip (inside.bracketed (.inl rfl))⟩
  · cases read

/-! ### Programs as they were read -/

theorem item_spans {text rest : List Char} {found : Item} (read : item text = .ok (found, rest)) :
    ∃ n, Spans n text rest ∧ n ≤ itemNesting + 1 ∧ found.encode.nesting ≤ n + 1 := by
  unfold item at read
  split at read
  · cases read
  · rename_i kind fields after parts
    split at read
    · cases read
    · rename_i decoded
      cases read
      obtain ⟨bounded, spans⟩ := itemParts_spans parts
      exact ⟨fields.nesting, spans, bounded, decodeItem_nesting decoded⟩

theorem items_closes {budget : Nat} {first : Bool} {before found : List Item}
    {text rest : List Char} (read : items budget first before text = .ok (found, rest)) :
    ∃ more n, found = before.reverse ++ more ∧ Closes n text rest ∧ n ≤ itemNesting + 1 ∧
      nestingElements (more.map Item.encode) ≤ n + 1 := by
  induction budget generalizing first before text with
  | zero => cases read
  | succ budget ih =>
    unfold items at read
    split at read
    · cases read
    · rename_i after step
      cases read
      exact ⟨[], 0, by simp, listStep_closes step, Nat.zero_le _, Nat.zero_le _⟩
    · rename_i start step
      split at read
      · cases read
      · rename_i head after headRead
        obtain ⟨m, spans, shallow, written⟩ := item_spans headRead
        obtain ⟨more, n, same, closes, bounded, others⟩ := ih read
        refine ⟨head :: more, max m n, by simp [same], ?_, Nat.max_le.mpr ⟨shallow, bounded⟩, ?_⟩
        · exact ((listStep_spans step).skip spans).closes closes
        · simp only [List.map_cons, nestingElements]
          omega

theorem itemList_spans {text rest : List Char} {found : List Item}
    (read : itemList text = .ok (found, rest)) :
    ∃ n, Spans n text rest ∧ n ≤ itemNesting + 2 ∧
      (Value.list (found.map Item.encode)).nesting ≤ n + 1 := by
  have blanks := skipBlanks_spans text
  unfold itemList at read
  split at read
  · rename_i after opened
    rw [opened] at blanks
    obtain ⟨more, n, rfl, closes, bounded, written⟩ := items_closes read
    refine ⟨n + 1, blanks.skip (closes.bracketed (.inl rfl)), Nat.succ_le_succ bounded, ?_⟩
    exact Nat.succ_le_succ written
  · cases read

/-- The items of a program nest no deeper than its text, wherever among the members they
stand and however deeply the others nest. -/
theorem programMembers_closes {budget : Nat} {first : Bool} {items? : Option (List Item)}
    {text rest : List Char} {p : Program}
    (read : programMembers budget first items? text = .ok (p, rest)) :
    ∃ n, Closes n text rest ∧ (items? = some p.items ∨
      items? = none ∧ (Value.list (p.items.map Item.encode)).nesting ≤ min (itemNesting + 2) n + 1) := by
  induction budget generalizing first items? text with
  | zero => cases read
  | succ budget ih =>
    unfold programMembers at read
    split at read
    · cases read
    · rename_i after step
      split at read
      · cases read
      · cases read
        exact ⟨0, objectStep_closes step, .inl rfl⟩
    · rename_i name key step
      have keyed := objectStep_spans step
      split at read
      · split at read
        · cases read
        · split at read
          · cases read
          · rename_i start colonRead
            split at read
            · cases read
            · rename_i found after listed
              obtain ⟨m, spans, bounded, written⟩ := itemList_spans listed
              obtain ⟨n, closes, kept⟩ := ih read
              refine ⟨max m n, (keyed.skip ((colon_spans colonRead).skip spans)).closes closes, ?_⟩
              rcases kept with same | ⟨none, _⟩
              · cases same
                exact .inr ⟨rfl, by omega⟩
              · cases none
      · split at read
        · cases read
        · rename_i start colonRead
          split at read
          · cases read
          · rename_i after skimmed
            -- an unknown member may nest to any depth `m`, which only raises the bound
            obtain ⟨m, spans⟩ := skim_spans skimmed
            obtain ⟨n, closes, kept⟩ := ih read
            refine ⟨max m n, (keyed.skip ((colon_spans colonRead).skip spans)).closes closes, ?_⟩
            rcases kept with same | ⟨none, written⟩
            · exact .inl same
            · exact .inr ⟨none, by omega⟩

theorem endOfProgramList_closes {text rest : List Char}
    (read : endOfProgramList text = .ok rest) : Closes 0 text rest := by
  have blanks := skipBlanks_spans text
  unfold endOfProgramList at read
  split at read
  · cases read
  · rename_i after found
    rw [found] at blanks
    cases read
    exact blanks.skipTo (closes_bracket (.inl rfl) _)
  · split at read <;> cases read
  · cases read

/-- A program is written at most one bracket deeper than it was read, and than it may
nest. -/
theorem program_spans {text rest : List Char} {p : Program}
    (read : program text = .ok (p, rest)) :
    ∃ n, Spans n text rest ∧ p.encode.nesting ≤ min maxNesting n + 1 := by
  have limit : maxNesting = itemNesting + 3 := rfl
  have outer : p.encode.nesting = (Value.list (p.items.map Item.encode)).nesting + 1 := by
    simp [Program.encode, Value.nesting, nestingMembers]
  have blanks := skipBlanks_spans text
  unfold program at read
  split at read
  · rename_i after found
    rw [found] at blanks
    obtain ⟨n, closes, kept⟩ := programMembers_closes read
    refine ⟨n + 1, blanks.skip (closes.bracketed (.inr rfl)), ?_⟩
    rcases kept with same | ⟨_, written⟩
    · cases same
    · omega
  · rename_i after found
    rw [found] at blanks
    obtain ⟨step, stepped, read⟩ := bind_eq_ok_iff.mp read
    split at read
    · cases read
    · rename_i start
      obtain ⟨⟨found, tail⟩, listed, read⟩ := bind_eq_ok_iff.mp read
      obtain ⟨last, ended, read⟩ := bind_eq_ok_iff.mp read
      cases read
      obtain ⟨n, spans, bounded, written⟩ := itemList_spans listed
      have inside := ((listStep_spans (scanned_eq_ok stepped)).skip spans).closes
        (endOfProgramList_closes (scanned_eq_ok ended))
      refine ⟨max n 0 + 1, blanks.skip (inside.bracketed (.inl rfl)), ?_⟩
      simp only at outer
      omega
  · cases read

end Tree

namespace Program

open Caju.Json Caju.Tree

theorem nesting_encode_le {text : String} {p : Program} (read : Program.ofText text = .ok p) :
    p.encode.nesting ≤ min maxNesting (nesting text.toList) + 1 := by
  have whole : Tree.read text.toList = .ok p := by
    unfold Program.ofText at read
    cases known : Tree.read text.toList with
    | ok found =>
      rw [known] at read
      cases read
      rfl
    | error e =>
      rw [known] at read
      cases read
  obtain ⟨⟨found, rest⟩, parsed, ended⟩ := bind_eq_ok_iff.mp whole
  obtain ⟨_, _, same⟩ := bind_eq_ok_iff.mp ended
  cases same
  obtain ⟨n, spans, written⟩ := program_spans parsed
  have within : n ≤ nesting text.toList := by
    have := spans 0
    unfold nesting
    omega
  omega

/-- A program that was read from any text is written at most one bracket deeper than the
text, and than a text may nest. It is read again from what was written exactly if that
nests no more than a text may, and otherwise that is what is wrong with it. -/
theorem ofText_reread {text : String} {p : Program} (read : Program.ofText text = .ok p) :
    nesting p.encode.compact.toList ≤ min maxNesting (nesting text.toList) + 1 ∧
    (Program.ofText p.encode.compact = .ok p ↔ nesting p.encode.compact.toList ≤ maxNesting) ∧
    (maxNesting < nesting p.encode.compact.toList →
      ∃ position, Program.ofText p.encode.compact =
        .error (.lexical (Fault.located Flaw.tooDeep.message position)
          position.line position.column)) := by
  refine ⟨?_, ?_⟩
  · rw [nesting_compact p.exact_encode]
    exact nesting_encode_le read
  · unfold Program.ofText
    rcases p.read_compact with ⟨fits, again⟩ | ⟨deep, e, ⟨failure, same, tooDeep⟩, failed⟩
    · rw [again]
      exact ⟨⟨fun _ => fits, fun _ => rfl⟩, fun deep => absurd fits (Nat.not_le_of_gt deep)⟩
    · rw [failed, same]
      refine ⟨⟨fun read => (by cases read), fun fits => absurd fits deep⟩, fun _ => ?_⟩
      exact ⟨failure.place.position p.encode.compact.toList, by rw [← tooDeep]; rfl⟩

/-- Members left out and out of order: the text nests three brackets, what is written for
the program four. -/
theorem ofText_reread_defaults :
    let text :=
      "\x7b\"items\":[\x7b\"return_type\":\"number\",\"name\":\"f\",\"kind\":\"function\"\x7d]\x7d"
    let p : Program := ⟨[.function ⟨"f", [], .number, []⟩]⟩
    Program.ofText text = .ok p ∧ nesting text.toList = 3 ∧ nesting p.encode.compact.toList = 4 ∧
      Program.ofText p.encode.compact = .ok p := by
  intro text p
  have read : Program.ofText text = .ok p := by
    unfold text p
    rfl
  have three : nesting text.toList = 3 := by
    unfold text
    decide +kernel
  have written : nesting p.encode.compact.toList = 4 := by
    rw [nesting_compact p.exact_encode]
    rfl
  refine ⟨read, three, written, (ofText_reread read).2.1.mpr ?_⟩
  rw [written]
  decide

/-! ### One bracket too many -/

/-- An expression behind `n` signs. -/
def negated : Nat → Expr → Expr
  | 0, e => e
  | n + 1, e => .neg (negated n e)

/-- The node of an expression behind `n` signs. -/
def negatedNode : Nat → Value → Value
  | 0, v => v
  | n + 1, v => node "neg" [("expr", negatedNode n v)]

theorem nesting_negatedNode (n : Nat) (v : Value) :
    (negatedNode n v).nesting = n + v.nesting := by
  induction n with
  | zero => rw [negatedNode, Nat.zero_add]
  | succ n ih =>
    rw [negatedNode, nesting_node]
    simp only [nestingMembers, ih]
    omega

theorem exact_negatedNode (n : Nat) {v : Value} (held : v.Exact) : (negatedNode n v).Exact := by
  induction n with
  | zero => exact held
  | succ n ih => exact exact_node (by simpa using ih)

theorem encode_negated (n : Nat) (e : Expr) : (negated n e).encode = negatedNode n e.encode := by
  induction n with
  | zero => rfl
  | succ n ih => rw [negated, Expr.encode, ih, negatedNode]

theorem decodeExpr_negated {levels : Nat} {v : Value} {e : Expr}
    (read : decodeExpr levels v = .ok e) (n : Nat) :
    decodeExpr (levels + n) (negatedNode n v) = .ok (negated n e) := by
  induction n with
  | zero => exact read
  | succ n ih =>
    have split : splitKind "Expr" exprKinds (node "neg" [("expr", negatedNode n v)]) =
        .ok (.neg, .object [("expr", negatedNode n v)]) :=
      splitKind_node rfl (by simp [kindField])
    rw [← Nat.add_assoc, negatedNode, decodeExpr, split]
    simp [bind, Except.bind, Shape.decode, soleShape, Shape.storeMembers, Field.required,
      Shape.missing?, ih, Except.map, negated]

/-- A function that returns a call behind 121 signs. -/
def signedCall : Function :=
  ⟨"f", [], .number, [.ret (some (negated 121 (.call "g" [])))]⟩

/-- What it returns, without the arguments that there are none of. -/
def signedCallNode : Value := negatedNode 121 (node "call" [("name", .string "g")])

/-- Its members, those left out that may be. -/
def signedCallMembers : List (String × Value) :=
  [("name", .string "f"), ("return_type", .string "number"),
    ("body", .list [node "return" [("value", signedCallNode)]])]

theorem nesting_signedCallMembers : nestingMembers signedCallMembers = itemNesting := by
  simp [signedCallMembers, signedCallNode, nestingMembers, nestingElements, Value.nesting,
    nesting_node, nesting_negatedNode, itemNesting, maxNesting]

theorem decodeStmt_signedCall :
    decodeStmt maxNesting (node "return" [("value", signedCallNode)]) =
      .ok (.ret (some (negated 121 (.call "g" [])))) := by
  have inner : decodeExpr 5 (node "call" [("name", .string "g")]) = .ok (.call "g" []) := rfl
  have value : decodeExpr 126 signedCallNode = .ok (negated 121 (.call "g" [])) :=
    decodeExpr_negated inner 121
  have present : signedCallNode ≠ .null := Value.noConfusion
  have split : splitKind "Stmt" stmtKinds (node "return" [("value", signedCallNode)]) =
      .ok (.ret, .object [("value", signedCallNode)]) := splitKind_node rfl (by simp [kindField])
  rw [maxNesting, decodeStmt, split]
  simp [bind, Except.bind, Shape.decode, retShape, Shape.storeMembers, Field.defaulted,
    Shape.missing?, asOption_of_ne present, value, Except.map]

theorem describes_signedCall :
    Describes (node "function" signedCallMembers) (.function signedCall) := by
  have known : itemKinds.lookup "function" = some .function := rfl
  refine .node known (by simp [signedCallMembers, kindField]) ?_ fun _ => ?_
  · have callee : (node "call" [("name", .string "g")]).Exact :=
      exact_node (by simpa using .string "g")
    have signed : signedCallNode.Exact := exact_negatedNode 121 callee
    have returned : (node "return" [("value", signedCallNode)]).Exact :=
      exact_node (by simpa using signed)
    simpa [signedCallMembers] using ⟨.string "f", .string "number", .list (by simpa using returned)⟩
  · have type : decodeTy maxNesting (.string "number") = .ok .number := rfl
    have body : asList (decodeStmt maxNesting) (.list [node "return" [("value", signedCallNode)]]) =
        .ok signedCall.body := by
      simp [asList, decodeStmt_signedCall, signedCall, bind, Except.bind, pure, Except.pure]
    simp [decodeItem, signedCallMembers, Shape.decode, functionShape, Shape.storeMembers,
      Field.required, Field.defaulted, Shape.missing?, asString, type, body, Except.map, signedCall]

/-- A text that nests as deeply as a text may is read as a program that cannot be read
again from what is written for it. -/
theorem ofText_reread_too_deep :
    nesting (programValue [node "function" signedCallMembers]).compact.toList = maxNesting ∧
    Program.ofText (programValue [node "function" signedCallMembers]).compact =
      .ok ⟨[.function signedCall]⟩ ∧
    Program.ofText (Program.encode ⟨[.function signedCall]⟩).compact ≠
      .ok ⟨[.function signedCall]⟩ := by
  have described : List.Forall₂ Describes [node "function" signedCallMembers]
      [.function signedCall] := .cons describes_signedCall .nil
  have held : (programValue [node "function" signedCallMembers]).Exact :=
    .object (by simpa using .list (by simpa using describes_signedCall.held))
  have full : (programValue [node "function" signedCallMembers]).nesting = maxNesting := by
    simp [programValue, Value.nesting, nestingMembers, nestingElements, nesting_node,
      nesting_signedCallMembers, itemNesting, maxNesting]
  have deeper : (Program.encode ⟨[.function signedCall]⟩).nesting = maxNesting + 1 := by
    simp [Program.encode, Item.encode, signedCall, Ty.encode, Stmt.encodeAll, Stmt.encode,
      encodeOption, Option.map, encode_negated, Expr.encode, Expr.encodeAll, Value.nesting, nestingMembers,
      nestingElements, nesting_node, nesting_negatedNode, maxNesting]
  refine ⟨(nesting_compact held).trans full, ?_, ?_⟩
  · unfold Program.ofText
    rw [Value.compact, String.toList_ofList]
    rcases read_write described with ⟨_, read⟩ | ⟨deep, _⟩
    · rw [read]
      rfl
    · exact absurd (Nat.le_of_eq full) deep
  · unfold Program.ofText
    rcases Program.read_compact ⟨[.function signedCall]⟩ with ⟨fits, _⟩ | ⟨_, e, _, failed⟩
    · rw [nesting_compact (exact_encode _), deeper] at fits
      exact absurd fits (Nat.not_succ_le_self _)
    · rw [failed]
      exact fun read => by cases read

end Program

end Caju
