import Caju.Proofs.FaultCategories
import Caju.Proofs.StoringOrder

/-! Programs do not depend on the order of members. Every kind of node is read from its kind,
wherever that is named, and from fields that can be stored in any order; so values that are
rearranged at any depth portray the same program, or none. Main statement: texts that differ in
blanks and in the order of members describe the same program, or none
(`Program.ofText_rearranged`). -/

namespace Caju.Tree

open Caju.Json

/-! ### Kinds -/

section Kinds

variable {κ : Type}

/-- The same kind, and rearranged fields. -/
def PartsAlike (first second : κ × Value) : Prop :=
  first.1 = second.1 ∧ first.2.Rearranged second.2

theorem splitKind_similar (family : String) (kinds : List (String × κ)) {v w : Value}
    (rearranged : v.Rearranged w) :
    Similar PartsAlike (splitKind family kinds v) (splitKind family kinds w) := by
  cases rearranged.corresponds with
  | scalar _ => exact .refl (fun parts => ⟨rfl, .refl parts.2⟩) _
  | list each =>
    cases each with
    | nil => exact .error _ _
    | cons tag fields =>
      exact (asKind_blind kinds _ _ tag).map fun _ _ same => ⟨same, .list fields⟩
  | @object ms ns alike =>
    have tags := alike.filter (· == kindField)
    have fields := Value.Rearranged.object (alike.filter (· != kindField))
    delta splitKind
    dsimp only
    rcases tags.none_or_one_or_more with ⟨none, none'⟩ | ⟨name, tag, tag', one, one', inner⟩ |
      ⟨first, second, _, first', second', _, more, more'⟩
    · rw [none, none']
      exact .error _ _
    · rw [one, one']
      have kind := asKind_blind kinds tag tag' inner
      dsimp only
      generalize asKind kinds tag = x at kind
      generalize asKind kinds tag' = y at kind
      cases kind with
      | error e e' => exact .error e e'
      | ok same => exact .ok ⟨same, fields⟩
    · rw [more, more']
      dsimp only
      cases asKind kinds first.2 <;> cases asKind kinds first'.2 <;> exact .error _ _

/-- The same choice, and rearranged data. -/
def ChoiceAlike (first second : κ × Option Value) : Prop :=
  first.1 = second.1 ∧ Option.Rel Value.Rearranged first.2 second.2

theorem asChoice_similar (kinds : List (String × κ)) {v w : Value} (rearranged : v.Rearranged w) :
    Similar ChoiceAlike (asChoice kinds v) (asChoice kinds w) := by
  cases rearranged.corresponds with
  | scalar _ =>
    refine .refl (fun choice => ⟨rfl, ?_⟩) _
    cases choice.2 with
    | none => exact .none
    | some data => exact .some (.refl data)
  | list _ => exact .error _ _
  | object alike =>
    rcases alike.none_or_one_or_more with ⟨rfl, rfl⟩ | ⟨name, v, w, rfl, rfl, inner⟩ |
      ⟨_, _, _, _, _, _, rfl, rfl⟩
    · exact .error _ _
    · exact (Similar.refl (R := Eq) (fun _ => rfl) (kindNamed kinds name)).map fun _ _ same =>
        ⟨same, .some inner⟩
    · exact .error _ _

theorem noData_similar {data data' : Option Value}
    (alike : Option.Rel Value.Rearranged data data') :
    Similar Eq (noData data) (noData data') := by
  cases alike with
  | none => exact .ok rfl
  | some rearranged =>
    cases rearranged.corresponds with
    | scalar _ => exact .refl (fun _ => rfl) _
    | list _ => exact .error _ _
    | object members =>
      rcases members.none_or_one_or_more with ⟨rfl, rfl⟩ | ⟨_, _, _, rfl, rfl, _⟩ |
        ⟨_, _, _, _, _, _, rfl, rfl⟩
      · exact .ok rfl
      · exact .error _ _
      · exact .error _ _

end Kinds

/-! ### Shapes -/

section Shapes

variable {α : Type} {ty : Value → Except Mismatch Ty} {expr : Value → Except Mismatch Expr}
  {stmt : Value → Except Mismatch Stmt}

theorem signatureShape_exchangeable (tys : Blind ty) : (signatureShape ty).Exchangeable where
  blind := by
    simp only [signatureShape, List.forall_mem_cons]
    exact ⟨.of_set rfl tys.list, .of_set rfl tys, List.forall_mem_nil _⟩
  swaps := List.pairwise_pair.mpr (.of_sets rfl rfl fun _ _ _ => rfl)

theorem soleShape_exchangeable [Inhabited α] {read : Value → Except Mismatch α} (blind : Blind read)
    (label field : String) : (soleShape label field read).Exchangeable where
  blind := by
    simp only [soleShape, List.forall_mem_cons]
    exact ⟨.of_set rfl blind, List.forall_mem_nil _⟩
  swaps := List.pairwise_singleton _ _

theorem decodeOperator_blind : Blind decodeOperator := by
  intro v w rearranged
  refine (asChoice_similar operators rearranged).bind fun choice choice' alike => ?_
  obtain ⟨same, data⟩ := alike
  exact (noData_similar data).bind fun _ _ _ => .ok same

theorem binaryShape_exchangeable (exprs : Blind expr) : (binaryShape expr).Exchangeable where
  blind := by
    simp only [binaryShape, List.forall_mem_cons]
    exact ⟨.of_set rfl decodeOperator_blind, .of_set rfl exprs, .of_set rfl exprs,
      List.forall_mem_nil _⟩
  swaps := by
    simp only [binaryShape, List.pairwise_cons, List.forall_mem_cons]
    refine ⟨⟨?_, ?_, List.forall_mem_nil _⟩, ⟨?_, List.forall_mem_nil _⟩,
      List.forall_mem_nil _, .nil⟩
    all_goals exact .of_sets rfl rfl fun _ _ _ => rfl

theorem callShape_exchangeable (exprs : Blind expr) : (callShape expr).Exchangeable where
  blind := by
    simp only [callShape, List.forall_mem_cons]
    exact ⟨.of_set rfl asString_blind, .of_set rfl exprs.list, List.forall_mem_nil _⟩
  swaps := List.pairwise_pair.mpr (.of_sets rfl rfl fun _ _ _ => rfl)

theorem varDeclShape_exchangeable (tys : Blind ty) : (varDeclShape ty).Exchangeable where
  blind := by
    simp only [varDeclShape, List.forall_mem_cons]
    exact ⟨.of_set rfl tys, .of_set rfl asString_blind.list, List.forall_mem_nil _⟩
  swaps := List.pairwise_pair.mpr (.of_sets rfl rfl fun _ _ _ => rfl)

theorem assignShape_exchangeable (exprs : Blind expr) : (assignShape expr).Exchangeable where
  blind := by
    simp only [assignShape, List.forall_mem_cons]
    exact ⟨.of_set rfl asString_blind, .of_set rfl exprs, List.forall_mem_nil _⟩
  swaps := List.pairwise_pair.mpr (.of_sets rfl rfl fun _ _ _ => rfl)

theorem ifElseShape_exchangeable (exprs : Blind expr) (stmts : Blind stmt) :
    (ifElseShape expr stmt).Exchangeable where
  blind := by
    simp only [ifElseShape, List.forall_mem_cons]
    exact ⟨.of_set rfl exprs, .of_set rfl stmts.list, .of_set rfl stmts.list.option,
      List.forall_mem_nil _⟩
  swaps := by
    simp only [ifElseShape, List.pairwise_cons, List.forall_mem_cons]
    refine ⟨⟨?_, ?_, List.forall_mem_nil _⟩, ⟨?_, List.forall_mem_nil _⟩,
      List.forall_mem_nil _, .nil⟩
    all_goals exact .of_sets rfl rfl fun _ _ _ => rfl

theorem whileDoShape_exchangeable (exprs : Blind expr) (stmts : Blind stmt) :
    (whileDoShape expr stmt).Exchangeable where
  blind := by
    simp only [whileDoShape, List.forall_mem_cons]
    exact ⟨.of_set rfl exprs, .of_set rfl stmts.list, List.forall_mem_nil _⟩
  swaps := List.pairwise_pair.mpr (.of_sets rfl rfl fun _ _ _ => rfl)

theorem forDoShape_exchangeable (exprs : Blind expr) (stmts : Blind stmt) :
    (forDoShape expr stmt).Exchangeable where
  blind := by
    have steps := (assignShape_exchangeable exprs).decode.list
    simp only [forDoShape, List.forall_mem_cons]
    exact ⟨.of_set rfl steps, .of_set rfl exprs.option, .of_set rfl steps, .of_set rfl stmts.list,
      List.forall_mem_nil _⟩
  swaps := by
    simp only [forDoShape, List.pairwise_cons, List.forall_mem_cons]
    refine ⟨⟨?_, ?_, ?_, List.forall_mem_nil _⟩, ⟨?_, ?_, List.forall_mem_nil _⟩,
      ⟨?_, List.forall_mem_nil _⟩, List.forall_mem_nil _, .nil⟩
    all_goals exact .of_sets rfl rfl fun _ _ _ => rfl

theorem forEachShape_exchangeable (tys : Blind ty) (stmts : Blind stmt) :
    (forEachShape ty stmt).Exchangeable where
  blind := by
    simp only [forEachShape, List.forall_mem_cons]
    exact ⟨.of_set rfl tys, .of_set rfl asString_blind, .of_set rfl asString_blind,
      .of_set rfl stmts.list, List.forall_mem_nil _⟩
  swaps := by
    simp only [forEachShape, List.pairwise_cons, List.forall_mem_cons]
    refine ⟨⟨?_, ?_, ?_, List.forall_mem_nil _⟩, ⟨?_, ?_, List.forall_mem_nil _⟩,
      ⟨?_, List.forall_mem_nil _⟩, List.forall_mem_nil _, .nil⟩
    all_goals exact .of_sets rfl rfl fun _ _ _ => rfl

theorem retShape_exchangeable (exprs : Blind expr) : (retShape expr).Exchangeable where
  blind := by
    simp only [retShape, List.forall_mem_cons]
    exact ⟨.of_set rfl exprs.option, List.forall_mem_nil _⟩
  swaps := List.pairwise_singleton _ _

theorem paramShape_exchangeable (tys : Blind ty) : (paramShape ty).Exchangeable where
  blind := by
    simp only [paramShape, List.forall_mem_cons]
    exact ⟨.of_set rfl asString_blind, .of_set rfl tys, List.forall_mem_nil _⟩
  swaps := List.pairwise_pair.mpr (.of_sets rfl rfl fun _ _ _ => rfl)

theorem functionShape_exchangeable (tys : Blind ty) (stmts : Blind stmt) :
    (functionShape ty stmt).Exchangeable where
  blind := by
    simp only [functionShape, List.forall_mem_cons]
    exact ⟨.of_set rfl asString_blind, .of_set rfl (paramShape_exchangeable tys).decode.list,
      .of_set rfl tys, .of_set rfl stmts.list, List.forall_mem_nil _⟩
  swaps := by
    simp only [functionShape, List.pairwise_cons, List.forall_mem_cons]
    refine ⟨⟨?_, ?_, ?_, List.forall_mem_nil _⟩, ⟨?_, ?_, List.forall_mem_nil _⟩,
      ⟨?_, List.forall_mem_nil _⟩, List.forall_mem_nil _, .nil⟩
    all_goals exact .of_sets rfl rfl fun _ _ _ => rfl

end Shapes

/-! ### Nodes -/

theorem decodeTy_blind (levels : Nat) : Blind (decodeTy levels) := by
  induction levels with
  | zero => exact fun _ _ _ => .error _ _
  | succ levels ih =>
    intro v w rearranged
    unfold decodeTy
    refine (asChoice_similar tyKinds rearranged).bind fun choice choice' alike => ?_
    obtain ⟨kind, data⟩ := choice
    obtain ⟨kind', data'⟩ := choice'
    obtain ⟨rfl, payload⟩ : kind = kind' ∧ Option.Rel Value.Rearranged data data' := alike
    have signature := (signatureShape_exchangeable ih).decode
    cases kind with
    | array =>
      cases payload with
      | none => exact .error _ _
      | some inner => exact (ih _ _ inner).map_eq _
    | function =>
      cases payload with
      | none => exact .error _ _
      | some inner =>
        have read := signature _ _ inner
        cases inner.corresponds with
        | scalar _ => exact .refl (fun _ => rfl) _
        | list _ => exact read.map_eq _
        | object _ => exact read.map_eq _
    | _ => exact (noData_similar payload).map_eq _

theorem decodeExpr_blind (levels : Nat) : Blind (decodeExpr levels) := by
  induction levels with
  | zero => exact fun _ _ _ => .error _ _
  | succ levels ih =>
    intro v w rearranged
    unfold decodeExpr
    refine (splitKind_similar "Expr" exprKinds rearranged).bind fun parts parts' alike => ?_
    obtain ⟨kind, fields⟩ := parts
    obtain ⟨kind', fields'⟩ := parts'
    obtain ⟨rfl, inner⟩ : kind = kind' ∧ fields.Rearranged fields' := alike
    cases kind with
    | number => exact ((soleShape_exchangeable asInt32_blind _ _).decode _ _ inner).map_eq _
    | character => exact ((soleShape_exchangeable asCharacter_blind _ _).decode _ _ inner).map_eq _
    | boolean => exact ((soleShape_exchangeable asBoolean_blind _ _).decode _ _ inner).map_eq _
    | var => exact ((soleShape_exchangeable asString_blind _ _).decode _ _ inner).map_eq _
    | binary => exact ((binaryShape_exchangeable ih).decode _ _ inner).map_eq _
    | not => exact ((soleShape_exchangeable ih _ _).decode _ _ inner).map_eq _
    | neg => exact ((soleShape_exchangeable ih _ _).decode _ _ inner).map_eq _
    | call => exact ((callShape_exchangeable ih).decode _ _ inner).map_eq _

theorem decodeStmt_blind (levels : Nat) : Blind (decodeStmt levels) := by
  induction levels with
  | zero => exact fun _ _ _ => .error _ _
  | succ levels ih =>
    intro v w rearranged
    have tys := decodeTy_blind levels
    have exprs := decodeExpr_blind levels
    unfold decodeStmt
    refine (splitKind_similar "Stmt" stmtKinds rearranged).bind fun parts parts' alike => ?_
    obtain ⟨kind, fields⟩ := parts
    obtain ⟨kind', fields'⟩ := parts'
    obtain ⟨rfl, inner⟩ : kind = kind' ∧ fields.Rearranged fields' := alike
    cases kind with
    | declare => exact ((varDeclShape_exchangeable tys).decode _ _ inner).map_eq _
    | assign => exact ((assignShape_exchangeable exprs).decode _ _ inner).map_eq _
    | call => exact ((callShape_exchangeable exprs).decode _ _ inner).map_eq _
    | ifElse => exact ((ifElseShape_exchangeable exprs ih).decode _ _ inner).map_eq _
    | whileDo => exact ((whileDoShape_exchangeable exprs ih).decode _ _ inner).map_eq _
    | forDo => exact ((forDoShape_exchangeable exprs ih).decode _ _ inner).map_eq _
    | forEach => exact ((forEachShape_exchangeable tys ih).decode _ _ inner).map_eq _
    | ret => exact ((retShape_exchangeable exprs).decode _ _ inner).map_eq _

theorem decodeItem_blind (kind : ItemKind) : Blind (decodeItem kind) := by
  intro v w rearranged
  have tys := decodeTy_blind maxNesting
  cases kind with
  | declare => exact ((varDeclShape_exchangeable tys).decode _ _ rearranged).map_eq _
  | function =>
    have function := functionShape_exchangeable tys (decodeStmt_blind maxNesting)
    exact (function.decode _ _ rearranged).map_eq _

/-! ### Programs -/

theorem IsKind.rearranged {v w : Value} {kind : ItemKind} (named : IsKind v kind)
    (rearranged : v.Rearranged w) : IsKind w kind := by
  obtain ⟨name, rfl, known⟩ := named
  cases rearranged.corresponds with
  | scalar _ => exact ⟨name, rfl, known⟩

theorem HasParts.rearranged {v w : Value} {parts : ItemKind × Value} (has : HasParts v parts)
    (rearranged : v.Rearranged w) : ∃ parts', HasParts w parts' ∧ PartsAlike parts parts' := by
  cases has with
  | object once named =>
    cases rearranged.corresponds with
    | scalar plain => exact plain.elim
    | object alike =>
      have tag := alike.filter (decide <| · = kindField)
      have fields := alike.filter (decide <| · ≠ kindField)
      rw [once] at tag
      obtain ⟨w, once', inner⟩ := tag.singleton
      exact ⟨_, .object once' (named.rearranged inner), rfl, .object fields⟩
  | list named fields =>
    cases rearranged.corresponds with
    | scalar plain => exact plain.elim
    | list each =>
      obtain ⟨w, fields', inner, rest, rfl⟩ := List.forall₂_cons_left_iff.mp each
      exact ⟨_, .list (named.rearranged inner) fields', rfl, .list rest⟩

theorem Portrays.rearranged {v w : Value} {item : Item} (portrays : Portrays v item)
    (rearranged : v.Rearranged w) : Portrays w item := by
  obtain ⟨parts, has, decoded⟩ := portrays
  obtain ⟨parts', has', kind, fields⟩ := has.rearranged rearranged
  refine ⟨parts', has', ?_⟩
  have similar := decodeItem_blind parts.1 _ _ fields
  rw [decoded] at similar
  rw [← kind]
  exact similar.eq_ok

theorem PortraysItems.rearranged {v w : Value} {items : List Item}
    (portrays : PortraysItems v items) (rearranged : v.Rearranged w) : PortraysItems w items := by
  obtain ⟨vs, rfl, shown⟩ := portrays
  cases rearranged.corresponds with
  | scalar plain => exact plain.elim
  | @list _ ws each =>
    refine ⟨ws, rfl, ?_⟩
    clear rearranged
    induction each generalizing items with
    | nil =>
      cases shown
      exact .nil
    | cons here _ ih =>
      obtain ⟨item, others, first, rest, rfl⟩ := List.forall₂_cons_left_iff.mp shown
      exact .cons (first.rearranged here) (ih rest)

theorem PortraysProgram.rearranged {v w : Value} {p : Program} (portrays : PortraysProgram v p)
    (rearranged : v.Rearranged w) : PortraysProgram w p := by
  cases portrays with
  | object once items =>
    cases rearranged.corresponds with
    | scalar plain => exact plain.elim
    | object alike =>
      have held := alike.filter (decide <| · = itemsField)
      rw [once] at held
      obtain ⟨w, once', inner⟩ := held.singleton
      exact .object once' (items.rearranged inner)
  | list items =>
    cases rearranged.corresponds with
    | scalar plain => exact plain.elim
    | list each =>
      obtain ⟨w, others, inner, rest, rfl⟩ := List.forall₂_cons_left_iff.mp each
      obtain rfl := List.forall₂_nil_left_iff.mp rest
      exact .list (items.rearranged inner)

end Caju.Tree

namespace Caju.Program

open Caju.Json Caju.Tree

theorem ofText_ok_rearranged {form other : Form} {text text' : String} {p : Program}
    (spelled : form.SpelledBy text.toList) (spelled' : other.SpelledBy text'.toList)
    (rearranged : form.value.Rearranged other.value) (described : ofText text = .ok p) :
    ofText text' = .ok p := by
  have reads := (ofText_of_document (form.document_of_spelled spelled)).1 p
  have reads' := (ofText_of_document (other.document_of_spelled spelled')).1 p
  exact reads'.mpr ((reads.mp described).rearranged rearranged)

/-- The texts within the limits of the reader are those that spell a form. Two of them whose
forms differ in the order of members at most, at any depth, describe the same program or none,
whatever blanks they are written with. -/
theorem ofText_rearranged :
    (∀ text, WithinLimits text ↔ ∃ form : Form, form.SpelledBy text) ∧
    ∀ {form other : Form} {text text' : String}, form.SpelledBy text.toList →
      other.SpelledBy text'.toList → form.Rearranged other →
      (∃ p, ofText text = .ok p ∧ ofText text' = .ok p) ∨
      ∃ fault fault', ofText text = .error fault ∧ ofText text' = .error fault' := by
  refine ⟨fun _ => withinLimits_iff_spelled, ?_⟩
  intro form other text text' spelled spelled' rearranged
  have alike := rearranged.value
  cases described : ofText text with
  | ok p => exact .inl ⟨p, rfl, ofText_ok_rearranged spelled spelled' alike described⟩
  | error fault =>
    cases described' : ofText text' with
    | ok p =>
      have both := ofText_ok_rearranged spelled' spelled alike.symm described'
      rw [described] at both
      cases both
    | error fault' => exact .inr ⟨fault, fault', rfl, rfl⟩

/-- The kind of a declaration may come last. -/
theorem ofText_rearranged_kind :
    let kind := (quoted "kind", Form.word (quoted "var"))
    let ty := (quoted "ty", Form.word (quoted "number"))
    let names := (quoted "names", Form.group .list [([], .word (quoted "x"))])
    let form (members : List (List Char × Form)) : Form :=
      .group .object [(quoted "items", .group .list [([], .group .object members)])]
    let text := "\x7b\"items\":[\x7b\"kind\":\"var\",\"ty\":\"number\",\"names\":[\"x\"]\x7d]\x7d"
    let text' := "\x7b\"items\":[\n\x7b\"ty\":\"number\",\"names\":[\"x\"],\"kind\":\"var\"\x7d]\x7d"
    (form [kind, ty, names]).SpelledBy text.toList ∧
    (form [ty, names, kind]).SpelledBy text'.toList ∧
    (form [kind, ty, names]).Rearranged (form [ty, names, kind]) ∧
    ofText text' = .ok ⟨[.declare ⟨.number, ["x"]⟩]⟩ := by
  intro kind ty names form text text'
  have room (depth : Nat) (few : depth < 4) : Limits.reader.nests depth :=
    Nat.lt_trans few (by decide)
  have kinded (rest : List Char) : Spelling .reader 3 (.entry .object) kind _ rest :=
    .member_quoted (by decide) (.quoted (by decide) rest)
  have typed (rest : List Char) : Spelling .reader 3 (.entry .object) ty _ rest :=
    .member_quoted (by decide) (.quoted (by decide) rest)
  have listed (rest : List Char) : Spelling .reader 3 (.entry .object) names _ rest :=
    .member_quoted (by decide) (.bracket (room 3 (by decide))
      (.first (.element (.quoted (by decide) _)) (.close rest)))
  have around {members : List (List Char × Form)} {inside : List Char}
      (spelling : Spelling .reader 2 .value (.group .object members) inside [']', '}']) :
      (form members).SpelledBy ('{' :: quoted "items" ++ ':' :: '[' :: inside) := by
    have items : Spelling .reader 1 .value (.group .list [([], .group .object members)])
        ('[' :: inside) ['}'] :=
      .bracket (room 1 (by decide)) (.first (.element spelling) (.close _))
    have whole : Spelling .reader 0 .value (form members) ('{' :: _) [] :=
      .bracket (room 0 (by decide)) (.first (.member_quoted (by decide) items) (.close _))
    exact ⟨[], whole, List.forall_mem_nil _⟩
  have spelled : (form [kind, ty, names]).SpelledBy text.toList := by
    have written := around (.bracket (room 2 (by decide))
      (.first (kinded _) (.next (typed _) (.next (listed _) (.close _)))))
    unfold text
    exact written
  have spelled' : (form [ty, names, kind]).SpelledBy text'.toList := by
    have written := around (.blank (rfl : isBlank '\n' = true) (.bracket (room 2 (by decide))
      (.first (typed _) (.next (listed _) (.next (kinded _) (.close _))))))
    unfold text'
    exact written
  have rearranged : (form [kind, ty, names]).Rearranged (form [ty, names, kind]) := by
    have moved : [kind, ty, names].Perm [ty, names, kind] :=
      (List.perm_append_comm : ([kind] ++ [ty, names]).Perm _)
    exact .inside [] _ [] (.inside [] _ [] (.permute moved))
  have described : ofText text = .ok ⟨[.declare ⟨.number, ["x"]⟩]⟩ := by
    unfold text
    rfl
  refine ⟨spelled, spelled', rearranged, ?_⟩
  rcases ofText_rearranged.2 spelled spelled' rearranged with
    ⟨p, first, second⟩ | ⟨fault, _, rejected, _⟩
  · rw [second, ← first, described]
  · rw [described] at rejected
    cases rejected

end Caju.Program
