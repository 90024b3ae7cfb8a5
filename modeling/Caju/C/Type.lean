import Caju.C.Name
import Caju.Tree

/-! C types. An array becomes a named structure of its own, and a function type a
pointer to a function. -/

namespace Caju

/-- A parameter list, which C writes as `void` when it is empty. -/
def C.paramList (params : List String) : String :=
  if params.isEmpty then "void" else ", ".intercalate params

namespace Ty

mutual

/-- A type as part of a C name. -/
def mangle : Ty → String
  | number => "int"
  | unknown => "int"
  | character => "char"
  | boolean => "bool"
  | void => "void"
  | array element => "array_" ++ mangle element
  | function params result => "fn_" ++ "_".intercalate (mangleAll params ++ [mangle result])

def mangleAll : List Ty → List String
  | [] => []
  | ty :: rest => mangle ty :: mangleAll rest

end

mutual

/-- The C type of values of a type. -/
def cType : Ty → String
  | number => "int"
  | unknown => "int"
  | character => "char"
  | boolean => "bool"
  | void => "void"
  | array element => C.mark ++ mangle (array element)
  | function params result => cType result ++ " (*)(" ++ C.paramList (cTypes params) ++ ")"

def cTypes : List Ty → List String
  | [] => []
  | ty :: rest => cType ty :: cTypes rest

end

/-- The C declaration of a name with a type. -/
def declarator (ty : Ty) (name : String) : String :=
  match ty with
  | function params result =>
    cType result ++ " (*" ++ name ++ ")(" ++ C.paramList (cTypes params) ++ ")"
  | ty => cType ty ++ " " ++ name

mutual

/-- The array types within a type, each after those within its element type. -/
def arrays : Ty → List Ty
  | array element => arrays element ++ [array element]
  | function params result => arraysAll params ++ arrays result
  | _ => []

def arraysAll : List Ty → List Ty
  | [] => []
  | ty :: rest => arrays ty ++ arraysAll rest

end

end Ty

mutual

/-- The types that a statement declares something with, in order. -/
def Stmt.declaredTypes : Stmt → List Ty
  | .declare decl => [decl.ty]
  | .ifElse _ yes none => Stmt.declaredTypesAll yes
  | .ifElse _ yes (some no) => Stmt.declaredTypesAll yes ++ Stmt.declaredTypesAll no
  | .whileDo _ body => Stmt.declaredTypesAll body
  | .forDo _ _ _ body => Stmt.declaredTypesAll body
  | .forEach ty _ _ body => ty :: Stmt.declaredTypesAll body
  | .assign _ => []
  | .call _ _ => []
  | .ret _ => []

def Stmt.declaredTypesAll : List Stmt → List Ty
  | [] => []
  | stmt :: rest => stmt.declaredTypes ++ Stmt.declaredTypesAll rest

end

def Item.declaredTypes : Item → List Ty
  | .declare decl => [decl.ty]
  | .function f => f.signature :: Stmt.declaredTypesAll f.body

namespace Program

/-- The types that a program declares something with, in order. -/
def declaredTypes (p : Program) : List Ty := p.items.flatMap Item.declaredTypes

/-- Every array type in a program's declarations once, element types first. -/
def arrayTypes (p : Program) : List Ty := (p.declaredTypes.flatMap Ty.arrays).eraseDups

end Program

end Caju
