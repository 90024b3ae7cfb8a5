import Caju.Json.Document
import Caju.Tree
import Caju.Tree.Mismatch

/-! From JSON values to parse trees. A record is written as an object, its members
in any order, or as the list of its fields; a node of several kinds names its kind
in the member `kind`, or in front of its fields. The first mismatch met in the
order of the text is the one reported, a missing field after all others. -/

namespace Caju.Tree

open Caju.Json (Value)

/-! ### Leaves -/

def asString : Value → Except Mismatch String
  | .string value => .ok value
  | other => .error (.wrongType (.ofValue other) .string)

def asBoolean : Value → Except Mismatch Bool
  | .boolean value => .ok value
  | other => .error (.wrongType (.ofValue other) .boolean)

/-- An integer within 32 bits; a number written with a point never is one. -/
def asInt32 : Value → Except Mismatch Int32
  | .integer value =>
    if -0x80000000 ≤ value ∧ value ≤ 0x7fffffff then .ok (Int32.ofInt value)
    else .error (.wrongValue (.integer value) .int32)
  | other => .error (.wrongType (.ofValue other) .int32)

/-- A string of exactly one character. -/
def asCharacter : Value → Except Mismatch Char
  | .string value =>
    match value.toList with
    | [c] => .ok c
    | _ => .error (.wrongValue (.string value) .character)
  | other => .error (.wrongType (.ofValue other) .character)

/-- A list, element by element. -/
def asList {α : Type} (read : Value → Except Mismatch α) : Value → Except Mismatch (List α)
  | .list elements => elements.mapM read
  | other => .error (.wrongType (.ofValue other) .sequence)

/-- Anything, with `null` for its absence. -/
def asOption {α : Type} (read : Value → Except Mismatch α) : Value → Except Mismatch (Option α)
  | .null => .ok none
  | other => (read other).map some

/-! ### Records -/

/-- A field of a record under construction. -/
structure Field (ρ : Type) where
  name : String
  optional : Bool
  store : Value → ρ → Except Mismatch ρ

def Field.required {ρ α : Type} (name : String) (read : Value → Except Mismatch α)
    (set : α → ρ → ρ) : Field ρ :=
  ⟨name, false, fun value record => (read value).map (set · record)⟩

/-- A field whose absence leaves what the blank record holds. -/
def Field.defaulted {ρ α : Type} (name : String) (read : Value → Except Mismatch α)
    (set : α → ρ → ρ) : Field ρ :=
  ⟨name, true, fun value record => (read value).map (set · record)⟩

/-- A record: what messages call it, its fields in order, and the record to start from. -/
structure Shape (ρ : Type) where
  label : String
  blank : ρ
  fields : List (Field ρ)

namespace Shape

variable {ρ : Type}

/-- Stores members in the order of the text; `seen` are the fields stored so far. -/
def storeMembers (fields : List (Field ρ)) :
    List String → ρ → List (String × Value) → Except Mismatch (List String × ρ)
  | seen, record, [] => .ok (seen, record)
  | seen, record, (name, value) :: rest =>
    match fields.find? (·.name == name) with
    | none => storeMembers fields seen record rest
    | some field =>
      if seen.contains name then .error (.duplicateField name)
      else
        match field.store value record with
        | .error mismatch => .error mismatch
        | .ok record => storeMembers fields (name :: seen) record rest

/-- Stores elements field by field; `index` counts the fields passed, of `count`. -/
def storeElements (label : String) (count : Nat) :
    Nat → ρ → List (Field ρ) → List Value → Except Mismatch ρ
  | _, record, [], [] => .ok record
  | index, _, [], surplus => .error (.wrongLength (index + surplus.length) (.length count))
  | index, record, field :: fields, [] =>
    if field.optional then storeElements label count (index + 1) record fields []
    else .error (.wrongLength index (.fields label count))
  | index, record, field :: fields, value :: values =>
    match field.store value record with
    | .error mismatch => .error mismatch
    | .ok record => storeElements label count (index + 1) record fields values

/-- The first field that neither was stored nor may be left out. -/
def missing? (shape : Shape ρ) (seen : List String) : Option (Field ρ) :=
  shape.fields.find? fun field => !field.optional && !seen.contains field.name

def decode (shape : Shape ρ) : Value → Except Mismatch ρ
  | .object members =>
    match storeMembers shape.fields [] shape.blank members with
    | .error mismatch => .error mismatch
    | .ok (seen, record) =>
      match shape.missing? seen with
      | some field => .error (.missingField field.name)
      | none => .ok record
  | .list elements => storeElements shape.label shape.fields.length 0 shape.blank shape.fields elements
  | other => .error (.wrongType (.ofValue other) (.record shape.label))

end Shape

/-! ### Kinds -/

/-- The kind of that name. -/
def kindNamed {κ : Type} (kinds : List (String × κ)) (name : String) : Except Mismatch κ :=
  match kinds.lookup name with
  | some kind => .ok kind
  | none => .error (.unknownKind name (kinds.map Prod.fst))

/-- A kind given by its name or by its index. -/
def asKind {κ : Type} (kinds : List (String × κ)) : Value → Except Mismatch κ
  | .string name => kindNamed kinds name
  | .integer index =>
    if index < 0 then .error (.wrongType (.integer index) .kindName)
    else
      match kinds[index.toNat]? with
      | some (_, kind) => .ok kind
      | none => .error (.wrongValue (.integer index) (.kindIndex kinds.length))
  | other => .error (.wrongType (.ofValue other) .kindName)

/-- The member that names a node's kind. -/
def kindField : String := "kind"

/-- Takes the kind out of a node, leaving the value its fields are read from. -/
def splitKind {κ : Type} (family : String) (kinds : List (String × κ)) :
    Value → Except Mismatch (κ × Value)
  | .object members =>
    match members.filter (·.1 == kindField) with
    | [] => .error (.missingField kindField)
    | (_, tag) :: others =>
      match asKind kinds tag, others with
      | .error mismatch, _ => .error mismatch
      | .ok _, _ :: _ => .error (.duplicateField kindField)
      | .ok kind, [] => .ok (kind, .object (members.filter (·.1 != kindField)))
  | .list (tag :: fields) => (asKind kinds tag).map (·, .list fields)
  | .list [] => .error (.missingField kindField)
  | other => .error (.wrongType (.ofValue other) (.tagged family))

/-- A choice written as its bare name, or as an object whose one member is named
for it and holds its data. -/
def asChoice {κ : Type} (kinds : List (String × κ)) : Value → Except Mismatch (κ × Option Value)
  | .string name => (kindNamed kinds name).map (·, none)
  | .object [(name, data)] => (kindNamed kinds name).map (·, some data)
  | .object _ => .error (.wrongValue .object .singleMember)
  | other => .error (.wrongType (.ofValue other) .nameOrObject)

/-- The data of a choice that has none. -/
def noData : Option Value → Except Mismatch Unit
  | none => .ok ()
  | some .null => .ok ()
  | some (.object []) => .ok ()
  | some other => .error (.wrongType (.ofValue other) .nothing)

/-! ### Types and operators -/

inductive TyKind where
  | number | character | boolean | void | unknown | array | function
  deriving DecidableEq, Inhabited

def tyKinds : List (String × TyKind) :=
  [("number", .number), ("character", .character), ("boolean", .boolean), ("void", .void),
   ("unknown", .unknown), ("array", .array), ("function", .function)]

/-- Parameter types and result of a function type. -/
def signatureShape (ty : Value → Except Mismatch Ty) : Shape (List Ty × Ty) where
  label := "struct variant Type::Function"
  blank := default
  fields :=
    [.required "params" (asList ty) fun params record => (params, record.2),
     .required "ret" ty fun result record => (record.1, result)]

/-- Reads a type that may nest `levels` deep. -/
def decodeTy : Nat → Value → Except Mismatch Ty
  | 0, _ => .error .tooDeep
  | levels + 1, value => do
    let (kind, data) ← asChoice tyKinds value
    match kind with
    | .number => (noData data).map fun _ => .number
    | .character => (noData data).map fun _ => .character
    | .boolean => (noData data).map fun _ => .boolean
    | .void => (noData data).map fun _ => .void
    | .unknown => (noData data).map fun _ => .unknown
    | .array =>
      match data with
      | none => .error (.wrongType .bareName .payload)
      | some data => (decodeTy levels data).map .array
    | .function =>
      match data with
      | none => .error (.wrongType .bareName .recordPayload)
      | some (.object members) =>
        ((signatureShape (decodeTy levels)).decode (.object members)).map fun s => .function s.1 s.2
      | some (.list elements) =>
        ((signatureShape (decodeTy levels)).decode (.list elements)).map fun s => .function s.1 s.2
      | some other => .error (.wrongType (.ofValue other) .recordPayload)

def operators : List (String × BinOp) :=
  [("add", .add), ("sub", .sub), ("mul", .mul), ("div", .div), ("mod", .mod), ("lt", .lt),
   ("le", .le), ("gt", .gt), ("ge", .ge), ("eq", .eq), ("ne", .ne), ("and", .and), ("or", .or)]

def decodeOperator (value : Value) : Except Mismatch BinOp := do
  let (op, data) ← asChoice operators value
  noData data
  return op

/-! ### Expressions -/

inductive ExprKind where
  | number | character | boolean | var | binary | not | neg | call
  deriving DecidableEq, Inhabited

def exprKinds : List (String × ExprKind) :=
  [("number", .number), ("character", .character), ("boolean", .boolean), ("var", .var),
   ("binary", .binary), ("not", .not), ("neg", .neg), ("call", .call)]

/-- A node of one field. -/
def soleShape {α : Type} [Inhabited α] (label field : String) (read : Value → Except Mismatch α) :
    Shape α where
  label := label
  blank := default
  fields := [.required field read fun value _ => value]

def binaryShape (expr : Value → Except Mismatch Expr) : Shape (BinOp × Expr × Expr) where
  label := "struct variant Expr::Binary"
  blank := default
  fields :=
    [.required "op" decodeOperator fun op record => (op, record.2),
     .required "left" expr fun left record => (record.1, left, record.2.2),
     .required "right" expr fun right record => (record.1, record.2.1, right)]

def callShape (expr : Value → Except Mismatch Expr) : Shape (String × List Expr) where
  label := "struct Call"
  blank := ("", [])
  fields :=
    [.required "name" asString fun name record => (name, record.2),
     .defaulted "args" (asList expr) fun args record => (record.1, args)]

/-- Reads an expression that may nest `levels` deep. -/
def decodeExpr : Nat → Value → Except Mismatch Expr
  | 0, _ => .error .tooDeep
  | levels + 1, value => do
    let (kind, fields) ← splitKind "Expr" exprKinds value
    match kind with
    | .number =>
      ((soleShape "struct variant Expr::Number" "value" asInt32).decode fields).map .number
    | .character =>
      ((soleShape "struct variant Expr::Character" "value" asCharacter).decode fields).map .character
    | .boolean =>
      ((soleShape "struct variant Expr::Boolean" "value" asBoolean).decode fields).map .boolean
    | .var => ((soleShape "struct variant Expr::Var" "name" asString).decode fields).map .var
    | .binary =>
      ((binaryShape (decodeExpr levels)).decode fields).map fun r => .binary r.1 r.2.1 r.2.2
    | .not =>
      ((soleShape "struct variant Expr::Not" "expr" (decodeExpr levels)).decode fields).map .not
    | .neg =>
      ((soleShape "struct variant Expr::Neg" "expr" (decodeExpr levels)).decode fields).map .neg
    | .call => ((callShape (decodeExpr levels)).decode fields).map fun r => .call r.1 r.2

/-! ### Statements -/

inductive StmtKind where
  | declare | assign | call | ifElse | whileDo | forDo | forEach | ret
  deriving DecidableEq, Inhabited

def stmtKinds : List (String × StmtKind) :=
  [("var", .declare), ("assign", .assign), ("call", .call), ("if", .ifElse), ("while", .whileDo),
   ("for", .forDo), ("for_each", .forEach), ("return", .ret)]

def varDeclShape (ty : Value → Except Mismatch Ty) : Shape VarDecl where
  label := "struct VarDecl"
  blank := default
  fields :=
    [.required "ty" ty fun ty record => { record with ty := ty },
     .required "names" (asList asString) fun names record => { record with names := names }]

def assignShape (expr : Value → Except Mismatch Expr) : Shape Assign where
  label := "struct Assign"
  blank := default
  fields :=
    [.required "target" asString fun target record => { record with target := target },
     .required "value" expr fun value record => { record with value := value }]

/-- The parts of a conditional. -/
structure IfElse where
  condition : Expr
  yes : List Stmt
  no : Option (List Stmt)

def ifElseShape (expr : Value → Except Mismatch Expr) (stmt : Value → Except Mismatch Stmt) :
    Shape IfElse where
  label := "struct IfStmt"
  blank := ⟨default, [], none⟩
  fields :=
    [.required "cond" expr fun condition record => { record with condition := condition },
     .required "then_branch" (asList stmt) fun yes record => { record with yes := yes },
     .defaulted "else_branch" (asOption (asList stmt)) fun no record => { record with no := no }]

def whileDoShape (expr : Value → Except Mismatch Expr) (stmt : Value → Except Mismatch Stmt) :
    Shape (Expr × List Stmt) where
  label := "struct WhileStmt"
  blank := default
  fields :=
    [.required "cond" expr fun condition record => (condition, record.2),
     .required "body" (asList stmt) fun body record => (record.1, body)]

/-- The parts of a counting loop. -/
structure ForDo where
  start : List Assign
  condition : Option Expr
  step : List Assign
  body : List Stmt

def forDoShape (expr : Value → Except Mismatch Expr) (stmt : Value → Except Mismatch Stmt) :
    Shape ForDo where
  label := "struct ForStmt"
  blank := ⟨[], none, [], []⟩
  fields :=
    [.defaulted "init" (asList (assignShape expr).decode) fun start record =>
       { record with start := start },
     .defaulted "cond" (asOption expr) fun condition record => { record with condition := condition },
     .defaulted "step" (asList (assignShape expr).decode) fun step record =>
       { record with step := step },
     .required "body" (asList stmt) fun body record => { record with body := body }]

/-- The parts of a loop over the elements of an array. -/
structure ForEach where
  ty : Ty
  name : String
  container : String
  body : List Stmt

def forEachShape (ty : Value → Except Mismatch Ty) (stmt : Value → Except Mismatch Stmt) :
    Shape ForEach where
  label := "struct ForEachStmt"
  blank := ⟨default, "", "", []⟩
  fields :=
    [.required "var_type" ty fun ty record => { record with ty := ty },
     .required "var" asString fun name record => { record with name := name },
     .required "container" asString fun container record => { record with container := container },
     .required "body" (asList stmt) fun body record => { record with body := body }]

def retShape (expr : Value → Except Mismatch Expr) : Shape (Option Expr) where
  label := "struct ReturnStmt"
  blank := none
  fields := [.defaulted "value" (asOption expr) fun value _ => value]

/-- Reads a statement that may nest `levels` deep. -/
def decodeStmt : Nat → Value → Except Mismatch Stmt
  | 0, _ => .error .tooDeep
  | levels + 1, value => do
    let ty := decodeTy levels
    let expr := decodeExpr levels
    let stmt := decodeStmt levels
    let (kind, fields) ← splitKind "Stmt" stmtKinds value
    match kind with
    | .declare => ((varDeclShape ty).decode fields).map .declare
    | .assign => ((assignShape expr).decode fields).map .assign
    | .call => ((callShape expr).decode fields).map fun r => .call r.1 r.2
    | .ifElse => ((ifElseShape expr stmt).decode fields).map fun r => .ifElse r.condition r.yes r.no
    | .whileDo => ((whileDoShape expr stmt).decode fields).map fun r => .whileDo r.1 r.2
    | .forDo =>
      ((forDoShape expr stmt).decode fields).map fun r => .forDo r.start r.condition r.step r.body
    | .forEach =>
      ((forEachShape ty stmt).decode fields).map fun r => .forEach r.ty r.name r.container r.body
    | .ret => ((retShape expr).decode fields).map .ret

/-! ### Items -/

inductive ItemKind where
  | declare | function
  deriving DecidableEq, Inhabited

def itemKinds : List (String × ItemKind) := [("var", .declare), ("function", .function)]

def paramShape (ty : Value → Except Mismatch Ty) : Shape Param where
  label := "struct Param"
  blank := default
  fields :=
    [.required "name" asString fun name record => { record with name := name },
     .required "ty" ty fun ty record => { record with ty := ty }]

def functionShape (ty : Value → Except Mismatch Ty) (stmt : Value → Except Mismatch Stmt) :
    Shape Function where
  label := "struct FunctionDecl"
  blank := ⟨"", [], default, []⟩
  fields :=
    [.required "name" asString fun name record => { record with name := name },
     .defaulted "params" (asList (paramShape ty).decode) fun params record =>
       { record with params := params },
     .required "return_type" ty fun result record => { record with result := result },
     .defaulted "body" (asList stmt) fun body record => { record with body := body }]

/-- Reads the fields of an item whose kind is known. Values of a document nest at
most `maxNesting` deep, so no level is ever missing. -/
def decodeItem (kind : ItemKind) (fields : Value) : Except Mismatch Item :=
  let ty := decodeTy Json.maxNesting
  match kind with
  | .declare => ((varDeclShape ty).decode fields).map .declare
  | .function => ((functionShape ty (decodeStmt Json.maxNesting)).decode fields).map .function

end Caju.Tree
