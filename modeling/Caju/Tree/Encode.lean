import Caju.Json.Value
import Caju.Tree

/-! Parse trees as JSON values: a node's kind first, then every field in order,
those that are absent or empty included. -/

namespace Caju

open Caju.Json (Value)

mutual

def Ty.encode : Ty → Value
  | .number => .string "number"
  | .character => .string "character"
  | .boolean => .string "boolean"
  | .void => .string "void"
  | .unknown => .string "unknown"
  | .array element => .object [("array", element.encode)]
  | .function params result =>
    .object [("function", .object [("params", .list (Ty.encodeAll params)), ("ret", result.encode)])]

def Ty.encodeAll : List Ty → List Value
  | [] => []
  | ty :: rest => ty.encode :: Ty.encodeAll rest

end

def BinOp.name : BinOp → String
  | .add => "add"
  | .sub => "sub"
  | .mul => "mul"
  | .div => "div"
  | .mod => "mod"
  | .lt => "lt"
  | .le => "le"
  | .gt => "gt"
  | .ge => "ge"
  | .eq => "eq"
  | .ne => "ne"
  | .and => "and"
  | .or => "or"

/-- An object with its kind in front of its fields. -/
def Tree.node (kind : String) (fields : List (String × Value)) : Value :=
  .object (("kind", .string kind) :: fields)

mutual

def Expr.encode : Expr → Value
  | .number value => Tree.node "number" [("value", .integer value.toInt)]
  | .character value => Tree.node "character" [("value", .string (String.singleton value))]
  | .boolean value => Tree.node "boolean" [("value", .boolean value)]
  | .var name => Tree.node "var" [("name", .string name)]
  | .binary op left right =>
    Tree.node "binary" [("op", .string op.name), ("left", left.encode), ("right", right.encode)]
  | .not operand => Tree.node "not" [("expr", operand.encode)]
  | .neg operand => Tree.node "neg" [("expr", operand.encode)]
  | .call callee args =>
    Tree.node "call" [("name", .string callee), ("args", .list (Expr.encodeAll args))]

def Expr.encodeAll : List Expr → List Value
  | [] => []
  | expr :: rest => expr.encode :: Expr.encodeAll rest

end

def VarDecl.fields (decl : VarDecl) : List (String × Value) :=
  [("ty", decl.ty.encode), ("names", .list (decl.names.map .string))]

def Assign.fields (assign : Assign) : List (String × Value) :=
  [("target", .string assign.target), ("value", assign.value.encode)]

def Assign.encode (assign : Assign) : Value := .object assign.fields

/-- A value, or `null` for none. -/
def Tree.encodeOption : Option Value → Value
  | none => .null
  | some value => value

mutual

def Stmt.encode : Stmt → Value
  | .declare decl => Tree.node "var" decl.fields
  | .assign step => Tree.node "assign" step.fields
  | .call callee args =>
    Tree.node "call" [("name", .string callee), ("args", .list (Expr.encodeAll args))]
  | .ifElse condition yes none =>
    Tree.node "if" [("cond", condition.encode), ("then_branch", .list (Stmt.encodeAll yes)),
      ("else_branch", .null)]
  | .ifElse condition yes (some no) =>
    Tree.node "if" [("cond", condition.encode), ("then_branch", .list (Stmt.encodeAll yes)),
      ("else_branch", .list (Stmt.encodeAll no))]
  | .whileDo condition body =>
    Tree.node "while" [("cond", condition.encode), ("body", .list (Stmt.encodeAll body))]
  | .forDo start condition step body =>
    Tree.node "for" [("init", .list (start.map Assign.encode)),
      ("cond", Tree.encodeOption (condition.map Expr.encode)),
      ("step", .list (step.map Assign.encode)), ("body", .list (Stmt.encodeAll body))]
  | .forEach ty name container body =>
    Tree.node "for_each" [("var_type", ty.encode), ("var", .string name),
      ("container", .string container), ("body", .list (Stmt.encodeAll body))]
  | .ret value => Tree.node "return" [("value", Tree.encodeOption (value.map Expr.encode))]

def Stmt.encodeAll : List Stmt → List Value
  | [] => []
  | stmt :: rest => stmt.encode :: Stmt.encodeAll rest

end

def Param.encode (param : Param) : Value :=
  .object [("name", .string param.name), ("ty", param.ty.encode)]

def Item.encode : Item → Value
  | .declare decl => Tree.node "var" decl.fields
  | .function f =>
    Tree.node "function" [("name", .string f.name), ("params", .list (f.params.map Param.encode)),
      ("return_type", f.result.encode), ("body", .list (Stmt.encodeAll f.body))]

def Program.encode (p : Program) : Value := .object [("items", .list (p.items.map Item.encode))]

end Caju
