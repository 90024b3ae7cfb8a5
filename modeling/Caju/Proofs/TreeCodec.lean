import Caju.Proofs.JsonRoundTrip
import Caju.Tree.Decode
import Caju.Tree.Encode

/-! Parse trees are taken back from the values they are written as. The readers of a
tree are put together from readers of its parts; beside each stands the writer it undoes,
and what is proved of the parts carries over to the whole. Main statements: a tree that
nests fewer brackets than there are levels is read back, and a tree that was read from
any other value is written at most one bracket deeper than that value
(`decodeTy_inverts`, `decodeExpr_inverts`, `decodeStmt_inverts`; for items
`describes_encode` and `decodeItem_nesting`). -/

namespace Caju.Tree

open Caju.Json

/-- A reader undoes a writer, as far as the levels reach, and whatever it reads is
written at most one bracket deeper: by the members that may be left out. -/
structure Inverts {α : Type} (read : Value → Except Mismatch α) (write : α → Value)
    (levels : Nat) : Prop where
  back : ∀ a, (write a).nesting < levels → read (write a) = .ok a
  nesting : ∀ {v a}, read v = .ok a → (write a).nesting ≤ v.nesting + 1

variable {α : Type} {read : Value → Except Mismatch α} {write : α → Value} {levels : Nat}

theorem asString_inverts : Inverts asString .string levels where
  back _ _ := rfl
  nesting _ := Nat.zero_le _

theorem asBoolean_inverts : Inverts asBoolean .boolean levels where
  back _ _ := rfl
  nesting _ := Nat.zero_le _

theorem asInt32_inverts : Inverts asInt32 (fun n => .integer n.toInt) levels where
  back n _ := by
    have low := n.le_toInt
    have high := n.toInt_lt
    have within : -0x80000000 ≤ n.toInt ∧ n.toInt ≤ 0x7fffffff := by omega
    simp [asInt32, within]
  nesting _ := Nat.zero_le _

theorem asCharacter_inverts : Inverts asCharacter (fun c => .string (String.singleton c)) levels where
  back c _ := by simp [asCharacter]
  nesting _ := Nat.zero_le _

theorem decodeOperator_inverts : Inverts decodeOperator (fun op => .string op.name) levels where
  back op _ := by cases op <;> rfl
  nesting _ := Nat.zero_le _

theorem mapM_back {as : List α} (each : ∀ a ∈ as, read (write a) = .ok a) :
    (as.map write).mapM read = .ok as := by
  induction as with
  | nil => rfl
  | cons a as ih =>
    have rest := ih fun b member => each b (List.mem_cons_of_mem _ member)
    simp [each a List.mem_cons_self, rest, bind, Except.bind, pure, Except.pure]

theorem mapM_nesting (inverts : Inverts read write levels) {vs : List Value} {as : List α}
    (found : vs.mapM read = .ok as) :
    nestingElements (as.map write) ≤ nestingElements vs + 1 := by
  induction vs generalizing as with
  | nil =>
    cases found
    exact Nat.zero_le _
  | cons v vs ih =>
    rw [List.mapM_cons] at found
    obtain ⟨a, first, found⟩ := bind_eq_ok_iff.mp found
    obtain ⟨rest, others, found⟩ := bind_eq_ok_iff.mp found
    cases found
    have := inverts.nesting first
    have := ih others
    simp only [List.map_cons, nestingElements]
    omega

theorem Inverts.list (inverts : Inverts read write levels) :
    Inverts (asList read) (fun as => .list (as.map write)) levels where
  back as fits := by
    have each : ∀ v ∈ as.map write, v.nesting ≤ nestingElements (as.map write) :=
      nestingElements_le_iff.mp (Nat.le_refl _)
    refine mapM_back fun a member => inverts.back a ?_
    have := each (write a) (List.mem_map_of_mem member)
    simp only [Value.nesting] at fits
    omega
  nesting {v as} found := by
    unfold asList at found
    split at found
    -- the list has a bracket of its own on both sides
    · have := mapM_nesting inverts found
      simp only [Value.nesting]
      omega
    · cases found

theorem asOption_of_ne {v : Value} (present : v ≠ .null) : asOption read v = (read v).map some := by
  rw [asOption]
  exact present

theorem Inverts.option (inverts : Inverts read write levels) (present : ∀ a, write a ≠ .null) :
    Inverts (asOption read) (fun o => encodeOption (o.map write)) levels where
  back o fits := by
    cases o with
    | none => rfl
    | some a =>
      have stored : read (write a) = .ok a := inverts.back a fits
      exact (asOption_of_ne (present a)).trans (by rw [stored]; rfl)
  nesting {v o} found := by
    unfold asOption at found
    split at found
    · cases found
      exact Nat.zero_le _
    · obtain ⟨a, known, same⟩ := map_eq_ok_iff.mp found
      cases same
      exact inverts.nesting known

/-! ### Records -/

/-- As `Inverts`, for a record and the members it is written as. The members themselves
nest no deeper than the value they were read from, which has a bracket of its own. -/
structure Shape.Inverts {ρ : Type} (shape : Shape ρ) (write : ρ → List (String × Value))
    (levels : Nat) : Prop where
  back : ∀ r, nestingMembers (write r) < levels → shape.decode (.object (write r)) = .ok r
  nesting : ∀ {v r}, shape.decode v = .ok r → nestingMembers (write r) ≤ v.nesting

/-- Storing a field keeps the members within any bound that the stored value leaves room
for. -/
def Field.Keeps {ρ : Type} (field : Field ρ) (write : ρ → List (String × Value)) : Prop :=
  ∀ {v r r' bound}, field.store v r = .ok r' → v.nesting < bound →
    nestingMembers (write r) ≤ bound → nestingMembers (write r') ≤ bound

section Records

variable {ρ : Type} {shape : Shape ρ} {members : ρ → List (String × Value)}

theorem keeps_of_inverts {name : String} {optional : Bool} {set : α → ρ → ρ}
    (inverts : Tree.Inverts read write levels)
    (stored : ∀ {a r bound}, (write a).nesting ≤ bound → nestingMembers (members r) ≤ bound →
      nestingMembers (members (set a r)) ≤ bound) :
    Field.Keeps ⟨name, optional, fun v record => (read v).map (set · record)⟩ members := by
  intro v r r' bound known room kept
  obtain ⟨a, found, same⟩ := map_eq_ok_iff.mp known
  cases same
  have := inverts.nesting found
  exact stored (by omega) kept

theorem storeMembers_nesting {fields : List (Field ρ)}
    (keeps : ∀ field ∈ fields, Field.Keeps field members) {bound : Nat} :
    ∀ {ms : List (String × Value)} {seen seen' : List String} {r r' : ρ},
      Shape.storeMembers fields seen r ms = .ok (seen', r') → nestingMembers ms < bound →
      nestingMembers (members r) ≤ bound → nestingMembers (members r') ≤ bound
  | [], _, _, _, _, found, _, kept => by
    cases found
    exact kept
  | (name, v) :: ms, seen, seen', r, r', found, room, kept => by
    have here : v.nesting < bound := by simp only [nestingMembers] at room; omega
    have later : nestingMembers ms < bound := by simp only [nestingMembers] at room; omega
    unfold Shape.storeMembers at found
    split at found
    · exact storeMembers_nesting keeps found later kept
    · rename_i field known
      split at found
      · cases found
      · split at found
        · cases found
        · rename_i record stored
          have next := keeps field (List.mem_of_find?_eq_some known) stored here kept
          exact storeMembers_nesting keeps found later next

theorem storeElements_nesting {label : String} {count bound : Nat} :
    ∀ {fields : List (Field ρ)} {vs : List Value} {index : Nat} {r r' : ρ},
      (∀ field ∈ fields, Field.Keeps field members) →
      Shape.storeElements label count index r fields vs = .ok r' → nestingElements vs < bound →
      nestingMembers (members r) ≤ bound → nestingMembers (members r') ≤ bound
  | [], [], _, _, _, _, found, _, kept => by
    cases found
    exact kept
  | [], _ :: _, _, _, _, _, found, _, _ => by cases found
  | field :: fields, [], _, _, _, keeps, found, room, kept => by
    unfold Shape.storeElements at found
    split at found
    · exact storeElements_nesting (fun f member => keeps f (List.mem_cons_of_mem _ member))
        found room kept
    · cases found
  | field :: fields, v :: vs, _, r, r', keeps, found, room, kept => by
    have here : v.nesting < bound := by simp only [nestingElements] at room; omega
    have later : nestingElements vs < bound := by simp only [nestingElements] at room; omega
    unfold Shape.storeElements at found
    split at found
    · cases found
    · rename_i record stored
      have next := keeps field List.mem_cons_self stored here kept
      exact storeElements_nesting (fun f member => keeps f (List.mem_cons_of_mem _ member))
        found later next

/-- A record is written no deeper than it was read, if it starts out flat and every field
keeps it so. -/
theorem decode_nesting (blank : nestingMembers (members shape.blank) ≤ 1)
    (keeps : ∀ field ∈ shape.fields, Field.Keeps field members) {v : Value} {r : ρ}
    (found : shape.decode v = .ok r) : nestingMembers (members r) ≤ v.nesting := by
  unfold Shape.decode at found
  split at found
  · rename_i ms
    split at found
    · cases found
    · rename_i stored
      split at found
      · cases found
      · cases found
        -- the object's own bracket makes room for the one that a blank field may have
        exact storeMembers_nesting keeps stored (Nat.lt_succ_self _)
          (Nat.le_trans blank (Nat.succ_le_succ (Nat.zero_le _)))
  · rename_i vs
    exact storeElements_nesting keeps found (Nat.lt_succ_self _)
      (Nat.le_trans blank (Nat.succ_le_succ (Nat.zero_le _)))
  · cases found

theorem Shape.Inverts.of_fields
    (back : ∀ r, nestingMembers (members r) < levels → shape.decode (.object (members r)) = .ok r)
    (blank : nestingMembers (members shape.blank) ≤ 1)
    (keeps : ∀ field ∈ shape.fields, Field.Keeps field members) :
    shape.Inverts members levels :=
  ⟨back, decode_nesting blank keeps⟩

/-- A record that stands for itself, written as the object of its members. -/
theorem Shape.Inverts.object (inverts : shape.Inverts members levels) :
    Tree.Inverts shape.decode (fun r => .object (members r)) levels where
  back r fits := by
    refine inverts.back r ?_
    simp only [Value.nesting] at fits
    omega
  nesting found := Nat.succ_le_succ (inverts.nesting found)

end Records

/-! ### Shapes -/

section Shapes

variable {ty : Value → Except Mismatch Ty} {expr : Value → Except Mismatch Expr}
  {stmt : Value → Except Mismatch Stmt}

def signatureMembers (signature : List Ty × Ty) : List (String × Value) :=
  [("params", .list (signature.1.map Ty.encode)), ("ret", signature.2.encode)]

theorem signatureShape_inverts (tys : Inverts ty Ty.encode levels) :
    (signatureShape ty).Inverts signatureMembers levels := by
  refine .of_fields (fun r fits => ?_) (Nat.le_refl 1) ?_
  · simp only [signatureMembers, nestingMembers, Nat.max_lt] at fits
    obtain ⟨params, result, _⟩ := fits
    simp [Shape.decode, signatureShape, signatureMembers, Shape.storeMembers, Field.required,
      Shape.missing?, tys.list.back _ params, tys.back _ result, Except.map]
  · simp only [signatureShape, List.forall_mem_cons]
    refine ⟨keeps_of_inverts tys.list ?_, keeps_of_inverts tys ?_, List.forall_mem_nil _⟩
    all_goals
      simp only [signatureMembers, nestingMembers]
      omega

def soleMembers (field : String) (write : α → Value) (a : α) : List (String × Value) :=
  [(field, write a)]

theorem soleShape_inverts [Inhabited α] {label field : String}
    (inverts : Inverts read write levels) (flat : (write default).nesting ≤ 1) :
    (soleShape label field read).Inverts (soleMembers field write) levels := by
  refine .of_fields (fun a fits => ?_) ?_ ?_
  · simp only [soleMembers, nestingMembers, Nat.max_lt] at fits
    simp [Shape.decode, soleShape, soleMembers, Shape.storeMembers, Field.required, Shape.missing?,
      inverts.back a fits.1, Except.map]
  · simpa [soleShape, soleMembers, nestingMembers] using flat
  · simp only [soleShape, List.forall_mem_cons]
    refine ⟨keeps_of_inverts inverts ?_, List.forall_mem_nil _⟩
    simp only [soleMembers, nestingMembers]
    omega

def binaryMembers (operation : BinOp × Expr × Expr) : List (String × Value) :=
  [("op", .string operation.1.name), ("left", operation.2.1.encode),
    ("right", operation.2.2.encode)]

theorem binaryShape_inverts (exprs : Inverts expr Expr.encode levels) :
    (binaryShape expr).Inverts binaryMembers levels := by
  have operators : Inverts decodeOperator (fun op => .string op.name) levels :=
    decodeOperator_inverts
  refine .of_fields (fun r fits => ?_) (Nat.le_refl 1) ?_
  · simp only [binaryMembers, nestingMembers, Nat.max_lt] at fits
    obtain ⟨op, left, right, _⟩ := fits
    simp [Shape.decode, binaryShape, binaryMembers, Shape.storeMembers, Field.required,
      Shape.missing?, operators.back _ op, exprs.back _ left, exprs.back _ right, Except.map]
  · simp only [binaryShape, List.forall_mem_cons]
    refine ⟨keeps_of_inverts operators ?_, keeps_of_inverts exprs ?_, keeps_of_inverts exprs ?_,
      List.forall_mem_nil _⟩
    all_goals
      simp only [binaryMembers, nestingMembers]
      omega

def callMembers (call : String × List Expr) : List (String × Value) :=
  [("name", .string call.1), ("args", .list (call.2.map Expr.encode))]

theorem callShape_inverts (exprs : Inverts expr Expr.encode levels) :
    (callShape expr).Inverts callMembers levels := by
  have strings : Inverts asString .string levels := asString_inverts
  refine .of_fields (fun r fits => ?_) (Nat.le_refl 1) ?_
  · simp only [callMembers, nestingMembers, Nat.max_lt] at fits
    obtain ⟨name, args, _⟩ := fits
    simp [Shape.decode, callShape, callMembers, Shape.storeMembers, Field.required,
      Field.defaulted, Shape.missing?, strings.back _ name, exprs.list.back _ args, Except.map]
  · simp only [callShape, List.forall_mem_cons]
    refine ⟨keeps_of_inverts strings ?_, keeps_of_inverts exprs.list ?_, List.forall_mem_nil _⟩
    all_goals
      simp only [callMembers, nestingMembers]
      omega

theorem varDeclShape_inverts (tys : Inverts ty Ty.encode levels) :
    (varDeclShape ty).Inverts VarDecl.fields levels := by
  have strings : Inverts asString .string levels := asString_inverts
  refine .of_fields (fun r fits => ?_) (Nat.le_refl 1) ?_
  · simp only [VarDecl.fields, nestingMembers, Nat.max_lt] at fits
    obtain ⟨type, names, _⟩ := fits
    simp [Shape.decode, varDeclShape, VarDecl.fields, Shape.storeMembers, Field.required,
      Shape.missing?, tys.back _ type, strings.list.back _ names, Except.map]
  · simp only [varDeclShape, List.forall_mem_cons]
    refine ⟨keeps_of_inverts tys ?_, keeps_of_inverts strings.list ?_, List.forall_mem_nil _⟩
    all_goals
      simp only [VarDecl.fields, nestingMembers]
      omega

theorem assignShape_inverts (exprs : Inverts expr Expr.encode levels) :
    (assignShape expr).Inverts Assign.fields levels := by
  have strings : Inverts asString .string levels := asString_inverts
  refine .of_fields (fun r fits => ?_) (Nat.le_refl 1) ?_
  · simp only [Assign.fields, nestingMembers, Nat.max_lt] at fits
    obtain ⟨target, value, _⟩ := fits
    simp [Shape.decode, assignShape, Assign.fields, Shape.storeMembers, Field.required,
      Shape.missing?, strings.back _ target, exprs.back _ value, Except.map]
  · simp only [assignShape, List.forall_mem_cons]
    refine ⟨keeps_of_inverts strings ?_, keeps_of_inverts exprs ?_, List.forall_mem_nil _⟩
    all_goals
      simp only [Assign.fields, nestingMembers]
      omega

def IfElse.members (parts : IfElse) : List (String × Value) :=
  [("cond", parts.condition.encode), ("then_branch", .list (parts.yes.map Stmt.encode)),
    ("else_branch", encodeOption (parts.no.map fun no => .list (no.map Stmt.encode)))]

theorem ifElseShape_inverts (exprs : Inverts expr Expr.encode levels)
    (stmts : Inverts stmt Stmt.encode levels) :
    (ifElseShape expr stmt).Inverts IfElse.members levels := by
  have branches := stmts.list.option fun _ => Value.noConfusion
  refine .of_fields (fun r fits => ?_) (Nat.le_refl 1) ?_
  · simp only [IfElse.members, nestingMembers, Nat.max_lt] at fits
    obtain ⟨condition, yes, no, _⟩ := fits
    simp [Shape.decode, ifElseShape, IfElse.members, Shape.storeMembers, Field.required,
      Field.defaulted, Shape.missing?, exprs.back _ condition, stmts.list.back _ yes,
      branches.back _ no, Except.map]
  · simp only [ifElseShape, List.forall_mem_cons]
    refine ⟨keeps_of_inverts exprs ?_, keeps_of_inverts stmts.list ?_,
      keeps_of_inverts branches ?_, List.forall_mem_nil _⟩
    all_goals
      simp only [IfElse.members, nestingMembers]
      omega

def whileDoMembers (loop : Expr × List Stmt) : List (String × Value) :=
  [("cond", loop.1.encode), ("body", .list (loop.2.map Stmt.encode))]

theorem whileDoShape_inverts (exprs : Inverts expr Expr.encode levels)
    (stmts : Inverts stmt Stmt.encode levels) :
    (whileDoShape expr stmt).Inverts whileDoMembers levels := by
  refine .of_fields (fun r fits => ?_) (Nat.le_refl 1) ?_
  · simp only [whileDoMembers, nestingMembers, Nat.max_lt] at fits
    obtain ⟨condition, body, _⟩ := fits
    simp [Shape.decode, whileDoShape, whileDoMembers, Shape.storeMembers, Field.required,
      Shape.missing?, exprs.back _ condition, stmts.list.back _ body, Except.map]
  · simp only [whileDoShape, List.forall_mem_cons]
    refine ⟨keeps_of_inverts exprs ?_, keeps_of_inverts stmts.list ?_, List.forall_mem_nil _⟩
    all_goals
      simp only [whileDoMembers, nestingMembers]
      omega

def ForDo.members (loop : ForDo) : List (String × Value) :=
  [("init", .list (loop.start.map Assign.encode)),
    ("cond", encodeOption (loop.condition.map Expr.encode)),
    ("step", .list (loop.step.map Assign.encode)), ("body", .list (loop.body.map Stmt.encode))]

theorem forDoShape_inverts (exprs : Inverts expr Expr.encode levels)
    (stmts : Inverts stmt Stmt.encode levels) (present : ∀ e : Expr, e.encode ≠ .null) :
    (forDoShape expr stmt).Inverts ForDo.members levels := by
  have assigns : Inverts (asList (assignShape expr).decode)
      (fun steps => .list (steps.map Assign.encode)) levels := (assignShape_inverts exprs).object.list
  have conditions := exprs.option present
  refine .of_fields (fun r fits => ?_) (Nat.le_refl 1) ?_
  · simp only [ForDo.members, nestingMembers, Nat.max_lt] at fits
    obtain ⟨start, condition, step, body, _⟩ := fits
    simp [Shape.decode, forDoShape, ForDo.members, Shape.storeMembers, Field.required,
      Field.defaulted, Shape.missing?, assigns.back _ start, conditions.back _ condition,
      assigns.back _ step, stmts.list.back _ body, Except.map]
  · simp only [forDoShape, List.forall_mem_cons]
    refine ⟨keeps_of_inverts assigns ?_, keeps_of_inverts conditions ?_,
      keeps_of_inverts assigns ?_, keeps_of_inverts stmts.list ?_, List.forall_mem_nil _⟩
    all_goals
      simp only [ForDo.members, nestingMembers]
      omega

def ForEach.members (loop : ForEach) : List (String × Value) :=
  [("var_type", loop.ty.encode), ("var", .string loop.name), ("container", .string loop.container),
    ("body", .list (loop.body.map Stmt.encode))]

theorem forEachShape_inverts (tys : Inverts ty Ty.encode levels)
    (stmts : Inverts stmt Stmt.encode levels) :
    (forEachShape ty stmt).Inverts ForEach.members levels := by
  have strings : Inverts asString .string levels := asString_inverts
  refine .of_fields (fun r fits => ?_) (Nat.le_refl 1) ?_
  · simp only [ForEach.members, nestingMembers, Nat.max_lt] at fits
    obtain ⟨type, name, container, body, _⟩ := fits
    simp [Shape.decode, forEachShape, ForEach.members, Shape.storeMembers, Field.required,
      Shape.missing?, tys.back _ type, strings.back _ name, strings.back _ container,
      stmts.list.back _ body, Except.map]
  · simp only [forEachShape, List.forall_mem_cons]
    refine ⟨keeps_of_inverts tys ?_, keeps_of_inverts strings ?_, keeps_of_inverts strings ?_,
      keeps_of_inverts stmts.list ?_, List.forall_mem_nil _⟩
    all_goals
      simp only [ForEach.members, nestingMembers]
      omega

def retMembers (value : Option Expr) : List (String × Value) :=
  [("value", encodeOption (value.map Expr.encode))]

theorem retShape_inverts (exprs : Inverts expr Expr.encode levels)
    (present : ∀ e : Expr, e.encode ≠ .null) : (retShape expr).Inverts retMembers levels := by
  have values := exprs.option present
  refine .of_fields (fun r fits => ?_) (Nat.zero_le 1) ?_
  · simp only [retMembers, nestingMembers, Nat.max_lt] at fits
    simp [Shape.decode, retShape, retMembers, Shape.storeMembers, Field.defaulted,
      Shape.missing?, values.back _ fits.1, Except.map]
  · simp only [retShape, List.forall_mem_cons]
    refine ⟨keeps_of_inverts values ?_, List.forall_mem_nil _⟩
    simp only [retMembers, nestingMembers]
    omega

def paramMembers (param : Param) : List (String × Value) :=
  [("name", .string param.name), ("ty", param.ty.encode)]

theorem paramShape_inverts (tys : Inverts ty Ty.encode levels) :
    (paramShape ty).Inverts paramMembers levels := by
  have strings : Inverts asString .string levels := asString_inverts
  refine .of_fields (fun r fits => ?_) (Nat.zero_le 1) ?_
  · simp only [paramMembers, nestingMembers, Nat.max_lt] at fits
    obtain ⟨name, type, _⟩ := fits
    simp [Shape.decode, paramShape, paramMembers, Shape.storeMembers, Field.required,
      Shape.missing?, strings.back _ name, tys.back _ type, Except.map]
  · simp only [paramShape, List.forall_mem_cons]
    refine ⟨keeps_of_inverts strings ?_, keeps_of_inverts tys ?_, List.forall_mem_nil _⟩
    all_goals
      simp only [paramMembers, nestingMembers]
      omega

def functionMembers (f : Function) : List (String × Value) :=
  [("name", .string f.name), ("params", .list (f.params.map Param.encode)),
    ("return_type", f.result.encode), ("body", .list (f.body.map Stmt.encode))]

theorem functionShape_inverts (tys : Inverts ty Ty.encode levels)
    (stmts : Inverts stmt Stmt.encode levels) :
    (functionShape ty stmt).Inverts functionMembers levels := by
  have strings : Inverts asString .string levels := asString_inverts
  have params : Inverts (asList (paramShape ty).decode)
      (fun params => .list (params.map Param.encode)) levels := (paramShape_inverts tys).object.list
  refine .of_fields (fun r fits => ?_) (Nat.le_refl 1) ?_
  · simp only [functionMembers, nestingMembers, Nat.max_lt] at fits
    obtain ⟨name, each, result, body, _⟩ := fits
    simp [Shape.decode, functionShape, functionMembers, Shape.storeMembers, Field.required,
      Field.defaulted, Shape.missing?, strings.back _ name, params.back _ each,
      tys.back _ result, stmts.list.back _ body, Except.map]
  · simp only [functionShape, List.forall_mem_cons]
    refine ⟨keeps_of_inverts strings ?_, keeps_of_inverts params ?_, keeps_of_inverts tys ?_,
      keeps_of_inverts stmts.list ?_, List.forall_mem_nil _⟩
    all_goals
      simp only [functionMembers, nestingMembers]
      omega

end Shapes

/-! ### Nodes -/

theorem nesting_node (kind : String) (fields : List (String × Value)) :
    (node kind fields).nesting = nestingMembers fields + 1 := by
  simp [node, Value.nesting, nestingMembers]

theorem splitKind_node {κ : Type} {family name : String} {kinds : List (String × κ)} {kind : κ}
    {fields : List (String × Value)} (known : kinds.lookup name = some kind)
    (plain : ∀ m ∈ fields, m.1 ≠ kindField) :
    splitKind family kinds (node name fields) = .ok (kind, .object fields) := by
  have none : fields.filter (·.1 == kindField) = [] := by
    rw [List.filter_eq_nil_iff]
    intro m member
    simpa using plain m member
  have all : fields.filter (·.1 != kindField) = fields := by
    rw [List.filter_eq_self]
    intro m member
    simpa using plain m member
  have tag : asKind kinds (.string name) = .ok kind := by simp [asKind, kindNamed, known]
  have first : (("kind", Value.string name) :: fields).filter (·.1 == kindField) =
      [("kind", .string name)] := by
    rw [List.filter_cons_of_pos (by rfl), none]
  have others : (("kind", Value.string name) :: fields).filter (·.1 != kindField) = fields := by
    rw [List.filter_cons_of_neg (by simp [kindField]), all]
  simp only [splitKind, node, first, others, tag]

theorem nestingMembers_filter (p : String × Value → Bool) (ms : List (String × Value)) :
    nestingMembers (ms.filter p) ≤ nestingMembers ms := by
  rw [nestingMembers_le_iff]
  intro m member
  exact nestingMembers_le_iff.mp (Nat.le_refl _) m (List.mem_filter.mp member).1

theorem splitKind_nesting {κ : Type} {family : String} {kinds : List (String × κ)} {kind : κ}
    {v fields : Value} (split : splitKind family kinds v = .ok (kind, fields)) :
    fields.nesting ≤ v.nesting := by
  revert split
  fun_cases splitKind family kinds v
  all_goals intro split
  case case4 =>
    cases split
    exact Nat.succ_le_succ (nestingMembers_filter _ _)
  case case5 =>
    obtain ⟨_, _, same⟩ := map_eq_ok_iff.mp split
    cases same
    exact Nat.succ_le_succ (Nat.le_max_right _ _)
  all_goals cases split

/-- One kind of a family of nodes: a record with the kind's name in front of it. -/
structure Branch {κ ρ τ : Type} (kinds : List (String × κ)) (write : τ → Value) (kind : κ)
    (shape : Shape ρ) (make : ρ → τ) (name : String) (members : ρ → List (String × Value))
    (levels : Nat) : Prop where
  inverts : shape.Inverts members levels
  known : kinds.lookup name = some kind
  plain : ∀ r, ∀ m ∈ members r, m.1 ≠ kindField
  written : ∀ r, write (make r) = node name (members r)

namespace Branch

variable {κ ρ τ : Type} {kinds : List (String × κ)} {write : τ → Value} {kind : κ}
  {shape : Shape ρ} {make : ρ → τ} {name family : String} {members : ρ → List (String × Value)}

theorem back (branch : Branch kinds write kind shape make name members levels) (r : ρ)
    {onwards : κ × Value → Except Mismatch τ}
    (taken : ∀ fields, onwards (kind, fields) = (shape.decode fields).map make)
    (fits : (write (make r)).nesting < levels + 1) :
    splitKind family kinds (write (make r)) >>= onwards = .ok (make r) := by
  rw [branch.written, nesting_node] at fits
  rw [branch.written, splitKind_node branch.known (branch.plain r)]
  calc onwards (kind, .object (members r))
    _ = (shape.decode (.object (members r))).map make := taken _
    _ = .ok (make r) := by rw [branch.inverts.back r (by omega)]; rfl

theorem nesting (branch : Branch kinds write kind shape make name members levels)
    {v fields : Value} {t : τ} (split : splitKind family kinds v = .ok (kind, fields))
    (found : (shape.decode fields).map make = .ok t) : (write t).nesting ≤ v.nesting + 1 := by
  obtain ⟨r, decoded, same⟩ := map_eq_ok_iff.mp found
  subst same
  rw [branch.written, nesting_node]
  exact Nat.succ_le_succ
    (Nat.le_trans (branch.inverts.nesting decoded) (splitKind_nesting split))

end Branch

/-! ### Trees -/

theorem asChoice_nesting {κ : Type} {kinds : List (String × κ)} {kind : κ} {v data : Value}
    (chosen : asChoice kinds v = .ok (kind, some data)) : data.nesting < v.nesting := by
  revert chosen
  fun_cases asChoice kinds v
  all_goals intro chosen
  case case2 =>
    obtain ⟨_, _, same⟩ := map_eq_ok_iff.mp chosen
    cases same
    simp [Value.nesting, nestingMembers]
  case case1 =>
    obtain ⟨_, _, same⟩ := map_eq_ok_iff.mp chosen
    cases same
  all_goals cases chosen

theorem encodeAll_ty (tys : List Ty) : Ty.encodeAll tys = tys.map Ty.encode := by
  induction tys with
  | nil => rfl
  | cons ty tys ih => rw [Ty.encodeAll, ih, List.map_cons]

theorem encodeAll_expr (exprs : List Expr) : Expr.encodeAll exprs = exprs.map Expr.encode := by
  induction exprs with
  | nil => rfl
  | cons expr exprs ih => rw [Expr.encodeAll, ih, List.map_cons]

theorem encodeAll_stmt (stmts : List Stmt) : Stmt.encodeAll stmts = stmts.map Stmt.encode := by
  induction stmts with
  | nil => rfl
  | cons stmt stmts ih => rw [Stmt.encodeAll, ih, List.map_cons]

theorem encode_function (params : List Ty) (result : Ty) :
    (Ty.function params result).encode =
      .object [("function", .object (signatureMembers (params, result)))] := by
  simp [Ty.encode, signatureMembers, encodeAll_ty]

theorem decodeTy_inverts (levels : Nat) : Inverts (decodeTy levels) Ty.encode levels := by
  -- on the levels and not on the type: each level pays for one bracket at least
  induction levels with
  | zero => exact ⟨fun _ fits => absurd fits (Nat.not_lt_zero _), fun found => by cases found⟩
  | succ levels ih =>
    have signatures := signatureShape_inverts ih
    constructor
    · intro ty fits
      cases ty with
      | array element =>
        simp only [Ty.encode, Value.nesting, nestingMembers] at fits
        have inner := ih.back element (by omega)
        have chosen : asChoice tyKinds (Ty.array element).encode =
          .ok (.array, some element.encode) := by rw [Ty.encode]; rfl
        simp only [decodeTy, chosen, bind, Except.bind, inner, Except.map]
      | function params result =>
        rw [encode_function] at fits ⊢
        simp only [Value.nesting, nestingMembers] at fits
        have inner := signatures.back (params, result) (by omega)
        have chosen : asChoice tyKinds
            (.object [("function", .object (signatureMembers (params, result)))]) =
          .ok (.function, some (.object (signatureMembers (params, result)))) := rfl
        simp only [decodeTy, chosen, bind, Except.bind, inner, Except.map]
      | _ => rfl
    · intro v ty found
      rw [decodeTy] at found
      obtain ⟨⟨kind, data⟩, chosen, found⟩ := bind_eq_ok_iff.mp found
      -- a name written as an object is the only type that is written flatter than it was read
      have named {ty' : Ty} (flat : ty'.encode.nesting = 0)
          (found : (noData data).map (fun _ => ty') = .ok ty) :
          ty.encode.nesting ≤ v.nesting + 1 := by
        obtain ⟨_, _, same⟩ := map_eq_ok_iff.mp found
        cases same
        omega
      have signed {ms : Value} (below : ms.nesting < v.nesting)
          (found : ((signatureShape (decodeTy levels)).decode ms).map
            (fun s => Ty.function s.1 s.2) = .ok ty) : ty.encode.nesting ≤ v.nesting + 1 := by
        obtain ⟨signature, decoded, same⟩ := map_eq_ok_iff.mp found
        cases same
        have : nestingMembers (signatureMembers (signature.1, signature.2)) ≤ ms.nesting :=
          signatures.nesting decoded
        simp only [encode_function, Value.nesting, nestingMembers]
        omega
      cases kind with
      | array =>
        cases data with
        | none => cases found
        | some data =>
          obtain ⟨element, decoded, same⟩ := map_eq_ok_iff.mp found
          cases same
          have below := asChoice_nesting chosen
          have := ih.nesting decoded
          simp only [Ty.encode, Value.nesting, nestingMembers]
          omega
      | function =>
        cases data with
        | none => cases found
        | some data =>
          have below := asChoice_nesting chosen
          cases data with
          | object ms => exact signed below found
          | list vs => exact signed below found
          | _ => cases found
      | number => exact named rfl found
      | character => exact named rfl found
      | boolean => exact named rfl found
      | void => exact named rfl found
      | unknown => exact named rfl found

theorem encode_expr_present (e : Expr) : e.encode ≠ .null := by
  cases e <;> simp [Expr.encode, node]

theorem encode_call (callee : String) (args : List Expr) :
    (Expr.call callee args).encode = node "call" (callMembers (callee, args)) := by
  simp [Expr.encode, callMembers, encodeAll_expr]

theorem decodeExpr_inverts (levels : Nat) : Inverts (decodeExpr levels) Expr.encode levels := by
  induction levels with
  | zero => exact ⟨fun _ fits => absurd fits (Nat.not_lt_zero _), fun found => by cases found⟩
  | succ levels ih =>
    have number : Branch exprKinds Expr.encode .number
        (soleShape "struct variant Expr::Number" "value" asInt32) .number "number" _ levels :=
      ⟨soleShape_inverts asInt32_inverts (Nat.zero_le 1), rfl, by simp [soleMembers, kindField],
        fun _ => rfl⟩
    have character : Branch exprKinds Expr.encode .character
        (soleShape "struct variant Expr::Character" "value" asCharacter) .character "character" _
        levels :=
      ⟨soleShape_inverts asCharacter_inverts (Nat.zero_le 1), rfl,
        by simp [soleMembers, kindField], fun _ => rfl⟩
    have boolean : Branch exprKinds Expr.encode .boolean
        (soleShape "struct variant Expr::Boolean" "value" asBoolean) .boolean "boolean" _ levels :=
      ⟨soleShape_inverts asBoolean_inverts (Nat.zero_le 1), rfl, by simp [soleMembers, kindField],
        fun _ => rfl⟩
    have var : Branch exprKinds Expr.encode .var
        (soleShape "struct variant Expr::Var" "name" asString) .var "var" _ levels :=
      ⟨soleShape_inverts asString_inverts (Nat.zero_le 1), rfl, by simp [soleMembers, kindField],
        fun _ => rfl⟩
    have binary : Branch exprKinds Expr.encode .binary (binaryShape (decodeExpr levels))
        (fun r => .binary r.1 r.2.1 r.2.2) "binary" _ levels :=
      ⟨binaryShape_inverts ih, rfl, by simp [binaryMembers, kindField], fun _ => rfl⟩
    have not : Branch exprKinds Expr.encode .not
        (soleShape "struct variant Expr::Not" "expr" (decodeExpr levels)) .not "not" _ levels :=
      ⟨soleShape_inverts ih (Nat.le_refl 1), rfl, by simp [soleMembers, kindField], fun _ => rfl⟩
    have neg : Branch exprKinds Expr.encode .neg
        (soleShape "struct variant Expr::Neg" "expr" (decodeExpr levels)) .neg "neg" _ levels :=
      ⟨soleShape_inverts ih (Nat.le_refl 1), rfl, by simp [soleMembers, kindField], fun _ => rfl⟩
    have call : Branch exprKinds Expr.encode .call (callShape (decodeExpr levels))
        (fun r => .call r.1 r.2) "call" _ levels :=
      ⟨callShape_inverts ih, rfl, by simp [callMembers, kindField], fun r => encode_call r.1 r.2⟩
    constructor
    · intro e fits
      rw [decodeExpr]
      cases e with
      | number n => exact number.back n (fun _ => rfl) fits
      | character c => exact character.back c (fun _ => rfl) fits
      | boolean b => exact boolean.back b (fun _ => rfl) fits
      | var name => exact var.back name (fun _ => rfl) fits
      | binary op left right => exact binary.back (op, left, right) (fun _ => rfl) fits
      | not operand => exact not.back operand (fun _ => rfl) fits
      | neg operand => exact neg.back operand (fun _ => rfl) fits
      | call callee args => exact call.back (callee, args) (fun _ => rfl) fits
    · intro v e found
      rw [decodeExpr] at found
      obtain ⟨⟨kind, fields⟩, split, found⟩ := bind_eq_ok_iff.mp found
      cases kind with
      | number => exact number.nesting split found
      | character => exact character.nesting split found
      | boolean => exact boolean.nesting split found
      | var => exact var.nesting split found
      | binary => exact binary.nesting split found
      | not => exact not.nesting split found
      | neg => exact neg.nesting split found
      | call => exact call.nesting split found

theorem encode_ifElse (parts : IfElse) :
    (Stmt.ifElse parts.condition parts.yes parts.no).encode = node "if" parts.members := by
  obtain ⟨condition, yes, no⟩ := parts
  cases no with
  | none => simp [Stmt.encode, IfElse.members, encodeAll_stmt, encodeOption]
  | some no => simp [Stmt.encode, IfElse.members, encodeAll_stmt, encodeOption]

theorem decodeStmt_inverts (levels : Nat) : Inverts (decodeStmt levels) Stmt.encode levels := by
  induction levels with
  | zero => exact ⟨fun _ fits => absurd fits (Nat.not_lt_zero _), fun found => by cases found⟩
  | succ levels ih =>
    have tys := decodeTy_inverts levels
    have exprs := decodeExpr_inverts levels
    have declare : Branch stmtKinds Stmt.encode .declare (varDeclShape (decodeTy levels))
        .declare "var" _ levels :=
      ⟨varDeclShape_inverts tys, rfl, by simp [VarDecl.fields, kindField], fun _ => rfl⟩
    have assign : Branch stmtKinds Stmt.encode .assign (assignShape (decodeExpr levels))
        .assign "assign" _ levels :=
      ⟨assignShape_inverts exprs, rfl, by simp [Assign.fields, kindField], fun _ => rfl⟩
    have call : Branch stmtKinds Stmt.encode .call (callShape (decodeExpr levels))
        (fun r => .call r.1 r.2) "call" _ levels :=
      ⟨callShape_inverts exprs, rfl, by simp [callMembers, kindField],
        fun _ => by simp [Stmt.encode, callMembers, encodeAll_expr]⟩
    have ifElse : Branch stmtKinds Stmt.encode .ifElse
        (ifElseShape (decodeExpr levels) (decodeStmt levels))
        (fun r => .ifElse r.condition r.yes r.no) "if" _ levels :=
      ⟨ifElseShape_inverts exprs ih, rfl, by simp [IfElse.members, kindField], encode_ifElse⟩
    have whileDo : Branch stmtKinds Stmt.encode .whileDo
        (whileDoShape (decodeExpr levels) (decodeStmt levels))
        (fun r => .whileDo r.1 r.2) "while" _ levels :=
      ⟨whileDoShape_inverts exprs ih, rfl, by simp [whileDoMembers, kindField],
        fun _ => by simp [Stmt.encode, whileDoMembers, encodeAll_stmt]⟩
    have forDo : Branch stmtKinds Stmt.encode .forDo
        (forDoShape (decodeExpr levels) (decodeStmt levels))
        (fun r => .forDo r.start r.condition r.step r.body) "for" _ levels :=
      ⟨forDoShape_inverts exprs ih encode_expr_present, rfl, by simp [ForDo.members, kindField],
        fun _ => by simp [Stmt.encode, ForDo.members, encodeAll_stmt]⟩
    have forEach : Branch stmtKinds Stmt.encode .forEach
        (forEachShape (decodeTy levels) (decodeStmt levels))
        (fun r => .forEach r.ty r.name r.container r.body) "for_each" _ levels :=
      ⟨forEachShape_inverts tys ih, rfl, by simp [ForEach.members, kindField],
        fun _ => by simp [Stmt.encode, ForEach.members, encodeAll_stmt]⟩
    have ret : Branch stmtKinds Stmt.encode .ret (retShape (decodeExpr levels)) .ret "return" _
        levels :=
      ⟨retShape_inverts exprs encode_expr_present, rfl, by simp [retMembers, kindField],
        fun _ => rfl⟩
    constructor
    · intro s fits
      rw [decodeStmt]
      cases s with
      | declare decl => exact declare.back decl (fun _ => rfl) fits
      | assign step => exact assign.back step (fun _ => rfl) fits
      | call callee args => exact call.back (callee, args) (fun _ => rfl) fits
      | ifElse condition yes no => exact ifElse.back ⟨condition, yes, no⟩ (fun _ => rfl) fits
      | whileDo condition body => exact whileDo.back (condition, body) (fun _ => rfl) fits
      | forDo start condition step body =>
        exact forDo.back ⟨start, condition, step, body⟩ (fun _ => rfl) fits
      | forEach ty name container body =>
        exact forEach.back ⟨ty, name, container, body⟩ (fun _ => rfl) fits
      | ret value => exact ret.back value (fun _ => rfl) fits
    · intro v s found
      rw [decodeStmt] at found
      obtain ⟨⟨kind, fields⟩, split, found⟩ := bind_eq_ok_iff.mp found
      cases kind with
      | declare => exact declare.nesting split found
      | assign => exact assign.nesting split found
      | call => exact call.nesting split found
      | ifElse => exact ifElse.nesting split found
      | whileDo => exact whileDo.nesting split found
      | forDo => exact forDo.nesting split found
      | forEach => exact forEach.nesting split found
      | ret => exact ret.nesting split found

/-! ### What is written -/

theorem exact_node {name : String} {fields : List (String × Value)}
    (held : ∀ m ∈ fields, m.2.Exact) : (node name fields).Exact :=
  .object (List.forall_mem_cons.mpr ⟨.string name, held⟩)

theorem exact_list (each : ∀ a, (write a).Exact) (as : List α) :
    (Value.list (as.map write)).Exact := by
  refine .list fun v member => ?_
  obtain ⟨a, _, rfl⟩ := List.mem_map.mp member
  exact each a

mutual

theorem exact_ty : ∀ ty : Ty, ty.encode.Exact
  | .number => .string _
  | .character => .string _
  | .boolean => .string _
  | .void => .string _
  | .unknown => .string _
  | .array element => by
    rw [Ty.encode]
    exact .object (by simpa using exact_ty element)
  | .function params result => by
    rw [Ty.encode]
    have inner : (Value.object [("params", .list (Ty.encodeAll params)),
        ("ret", result.encode)]).Exact :=
      .object (by simpa using ⟨.list (exact_tys params), exact_ty result⟩)
    exact .object (by simpa using inner)

theorem exact_tys : ∀ tys : List Ty, ∀ v ∈ Ty.encodeAll tys, v.Exact
  | [] => List.forall_mem_nil _
  | ty :: tys => List.forall_mem_cons.mpr ⟨exact_ty ty, exact_tys tys⟩

end

theorem exact_int32 (n : Int32) : (Value.integer n.toInt).Exact := by
  have low := n.le_toInt
  have high := n.toInt_lt
  refine .integer ?_ ?_
  · simp only [Numeral.maxNegative]
    omega
  · simp only [Numeral.maxWord]
    omega

mutual

theorem exact_expr : ∀ e : Expr, e.encode.Exact
  | .number n => exact_node (by simpa using exact_int32 n)
  | .character c => exact_node (by simpa using .string _)
  | .boolean b => exact_node (by simpa using .boolean b)
  | .var name => exact_node (by simpa using .string name)
  | .binary op left right =>
    exact_node (by simpa using ⟨.string _, exact_expr left, exact_expr right⟩)
  | .not operand => exact_node (by simpa using exact_expr operand)
  | .neg operand => exact_node (by simpa using exact_expr operand)
  | .call callee args => exact_node (by simpa using ⟨.string callee, .list (exact_exprs args)⟩)

theorem exact_exprs : ∀ es : List Expr, ∀ v ∈ Expr.encodeAll es, v.Exact
  | [] => List.forall_mem_nil _
  | e :: es => List.forall_mem_cons.mpr ⟨exact_expr e, exact_exprs es⟩

end

theorem exact_option {o : Option Expr} : (encodeOption (o.map Expr.encode)).Exact := by
  cases o with
  | none => exact .null
  | some e => exact exact_expr e

theorem exact_varDecl (decl : VarDecl) : ∀ m ∈ decl.fields, m.2.Exact := by
  simpa [VarDecl.fields] using ⟨exact_ty decl.ty, exact_list .string decl.names⟩

theorem exact_assign (step : Assign) : ∀ m ∈ step.fields, m.2.Exact := by
  simpa [Assign.fields] using ⟨.string step.target, exact_expr step.value⟩

theorem exact_assigns (steps : List Assign) : (Value.list (steps.map Assign.encode)).Exact :=
  exact_list (fun step => .object (exact_assign step)) steps

mutual

theorem exact_stmt : ∀ s : Stmt, s.encode.Exact
  | .declare decl => exact_node (exact_varDecl decl)
  | .assign step => exact_node (exact_assign step)
  | .call callee args => exact_node (by simpa using ⟨.string callee, .list (exact_exprs args)⟩)
  | .ifElse condition yes none =>
    exact_node (by simpa using ⟨exact_expr condition, .list (exact_stmts yes), .null⟩)
  | .ifElse condition yes (some no) =>
    exact_node (by
      simpa using ⟨exact_expr condition, .list (exact_stmts yes), .list (exact_stmts no)⟩)
  | .whileDo condition body =>
    exact_node (by simpa using ⟨exact_expr condition, .list (exact_stmts body)⟩)
  | .forDo start condition step body =>
    exact_node (by
      simpa using ⟨exact_assigns start, exact_option, exact_assigns step, .list (exact_stmts body)⟩)
  | .forEach ty name container body =>
    exact_node (by
      simpa using ⟨exact_ty ty, .string name, .string container, .list (exact_stmts body)⟩)
  | .ret value => exact_node (by simpa using exact_option)

theorem exact_stmts : ∀ ss : List Stmt, ∀ v ∈ Stmt.encodeAll ss, v.Exact
  | [] => List.forall_mem_nil _
  | s :: ss => List.forall_mem_cons.mpr ⟨exact_stmt s, exact_stmts ss⟩

end

theorem exact_function (f : Function) : ∀ m ∈ functionMembers f, m.2.Exact := by
  have param (p : Param) : p.encode.Exact :=
    .object (by simpa using ⟨.string p.name, exact_ty p.ty⟩)
  simpa [functionMembers] using
    ⟨.string f.name, exact_list param f.params, exact_ty f.result, exact_list exact_stmt f.body⟩

/-! ### Items -/

/-- A node from which an item is read, unless it nests too deeply. -/
inductive Describes : Value → Item → Prop
  | node {name : String} {kind : ItemKind} {fields : List (String × Value)} {item : Item}
    (known : itemKinds.lookup name = some kind) (plain : ∀ m ∈ fields, m.1 ≠ kindField)
    (held : ∀ m ∈ fields, m.2.Exact)
    (back : nestingMembers fields < maxNesting → decodeItem kind (.object fields) = .ok item) :
    Describes (node name fields) item

theorem encode_item_function (f : Function) :
    (Item.function f).encode = node "function" (functionMembers f) := by
  simp [Item.encode, functionMembers, encodeAll_stmt]

theorem describes_encode (item : Item) : Describes item.encode item := by
  have tys := decodeTy_inverts maxNesting
  have stmts := decodeStmt_inverts maxNesting
  cases item with
  | declare decl =>
    have known : itemKinds.lookup "var" = some .declare := rfl
    refine .node known (by simp [VarDecl.fields, kindField]) (exact_varDecl decl) fun fits => ?_
    simp only [decodeItem, (varDeclShape_inverts tys).back decl fits]
    rfl
  | function f =>
    have known : itemKinds.lookup "function" = some .function := rfl
    rw [encode_item_function]
    refine .node known (by simp [functionMembers, kindField]) (exact_function f) fun fits => ?_
    simp only [decodeItem, (functionShape_inverts tys stmts).back f fits]
    rfl

theorem decodeItem_nesting {kind : ItemKind} {fields : Value} {item : Item}
    (found : decodeItem kind fields = .ok item) : item.encode.nesting ≤ fields.nesting + 1 := by
  have tys := decodeTy_inverts maxNesting
  have stmts := decodeStmt_inverts maxNesting
  cases kind with
  | declare =>
    obtain ⟨decl, decoded, same⟩ := map_eq_ok_iff.mp found
    subst same
    rw [Item.encode, nesting_node]
    exact Nat.succ_le_succ ((varDeclShape_inverts tys).nesting decoded)
  | function =>
    obtain ⟨f, decoded, same⟩ := map_eq_ok_iff.mp found
    subst same
    rw [encode_item_function, nesting_node]
    exact Nat.succ_le_succ ((functionShape_inverts tys stmts).nesting decoded)

end Caju.Tree
