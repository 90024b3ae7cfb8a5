import Caju.Ty

/-! The parse tree of a Caju program, as handed over by the language's front end.
Numbers are 32-bit because the `numero` of a Caju program is the `int` of C. -/

namespace Caju

/-- Binary operators. -/
inductive BinOp where
  | add | sub
  | mul | div | mod
  | lt | le | gt | ge
  | eq | ne
  | and | or
  deriving DecidableEq, Inhabited

/-- The level of the expression grammar a binary operator belongs to. -/
inductive OpClass where
  | additive | multiplicative | relational | equality | conjunction | disjunction
  deriving DecidableEq, Inhabited

def BinOp.opClass : BinOp → OpClass
  | .add | .sub => .additive
  | .mul | .div | .mod => .multiplicative
  | .lt | .le | .gt | .ge => .relational
  | .eq | .ne => .equality
  | .and => .conjunction
  | .or => .disjunction

/-- The type of an expression built with an operator of this class. -/
def OpClass.result : OpClass → Ty
  | .additive | .multiplicative => .number
  | .relational | .equality | .conjunction | .disjunction => .boolean

inductive Expr where
  | number (value : Int32)
  | character (value : Char)
  | boolean (value : Bool)
  | var (name : String)
  | binary (op : BinOp) (left right : Expr)
  | not (operand : Expr)
  | neg (operand : Expr)
  | call (callee : String) (args : List Expr)
  deriving Inhabited

/-- One type shared by any number of declared names. -/
structure VarDecl where
  ty : Ty
  names : List String
  deriving Inhabited, DecidableEq

structure Assign where
  target : String
  value : Expr
  deriving Inhabited

/-- Statements. A `para` loop has lists of assignments before it and after every
pass; a `para cada` loop binds each element of the array named `container`. -/
inductive Stmt where
  | declare (decl : VarDecl)
  | assign (step : Assign)
  | call (callee : String) (args : List Expr)
  | ifElse (condition : Expr) (yes : List Stmt) (no : Option (List Stmt))
  | whileDo (condition : Expr) (body : List Stmt)
  | forDo (start : List Assign) (condition : Option Expr) (step : List Assign) (body : List Stmt)
  | forEach (ty : Ty) (name container : String) (body : List Stmt)
  | ret (value : Option Expr)
  deriving Inhabited

structure Param where
  name : String
  ty : Ty
  deriving Inhabited, DecidableEq

structure Function where
  name : String
  params : List Param
  result : Ty
  body : List Stmt
  deriving Inhabited

/-- The type of a function as a value: its parameter types and its result. -/
def Function.signature (f : Function) : Ty := .function (f.params.map Param.ty) f.result

inductive Item where
  | declare (decl : VarDecl)
  | function (function : Function)
  deriving Inhabited

structure Program where
  items : List Item
  deriving Inhabited

/-- The functions of a program, in order. -/
def Program.functions (p : Program) : List Function :=
  p.items.filterMap fun
    | .declare _ => none
    | .function f => some f

/-- The function a program starts at. -/
def entryPoint : String := "main"

/-- The largest character that a `caractere`, a C `char`, holds. -/
def maxCharacter : Char := '\xff'

end Caju
