import Caju.C.Emitter

/-! C source files: a structure for every array type, a prototype for every
function so that their order never matters to C, then the items of the program. -/

namespace Caju

open C

/-- An entry point without result: C wants it to be an `int`. -/
def Function.isVoidEntryPoint (f : Function) : Bool := f.name == entryPoint && f.result.isVoid

/-- The C type of what a function returns. -/
def Function.cResult (f : Function) : String :=
  if f.isVoidEntryPoint then "int" else f.result.cType

/-- Result, name and parameters of a function in C. -/
def Function.cSignature (f : Function) : String :=
  f.cResult ++ " " ++ ident f.name ++ "(" ++
    paramList (f.params.map fun param => param.ty.declarator (ident param.name)) ++ ")"

/-- Writes a function, with loops counted anew and a blank line behind it. -/
def Function.emit (f : Function) (e : Emitter) : Emitter :=
  let started := { e with loops := 0, inEntryPoint := f.isVoidEntryPoint }
  let written := started.block f.cSignature fun e =>
    let e := Stmt.emitAll f.body e
    if e.inEntryPoint then e.line "return 0;" else e
  { written.line "" with inEntryPoint := false }

/-- The definition of the structure that an array type becomes. -/
def Ty.structureLines (ty : Ty) : List String :=
  match ty.element? with
  | none => []
  | some element =>
    ["typedef struct \x7b", "    " ++ element.declarator "*data" ++ ";", "    int length;",
     "\x7d " ++ ty.cType ++ ";", ""]

/-- The prototypes of functions, with a blank line behind them if there are any. -/
def C.prototypeLines (functions : List Function) : List String :=
  if functions.isEmpty then [] else functions.map (·.cSignature ++ ";") ++ [""]

/-- Writes items in order, with a blank line between variables and a function;
`afterVariables` tells whether variables were written last. -/
def Item.emitAll : Bool → List Item → Emitter → Emitter
  | _, [], e => e
  | _, .declare decl :: rest, e => Item.emitAll true rest (e.writeLines (declarationLines decl))
  | afterVariables, .function f :: rest, e =>
    Item.emitAll false rest (f.emit (if afterVariables then e.line "" else e))

namespace Program

/-- Writes a whole source file, whatever the emitter wrote before. -/
def emit (p : Program) (e : Emitter) : Emitter :=
  let e := { e with lines := #[], indent := 0 }
  let e := e.writeLines ["/* Generated by cajuc */", "#include <stdbool.h>", ""]
  let e := e.writeLines (p.arrayTypes.flatMap Ty.structureLines)
  let e := e.writeLines (prototypeLines p.functions)
  Item.emitAll false p.items e

/-- The C source of a program. -/
def toC (p : Program) : String := (p.emit .fresh).text

end Program

end Caju
