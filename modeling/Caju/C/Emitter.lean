import Caju.C.Expr
import Caju.C.Type

/-! Writing C statements line by line. The emitter keeps the lines written so far,
the indentation of the next one, the number of `para cada` loops of the function
at hand, and whether that function is an entry point turned from `void` to `int`. -/

namespace Caju

namespace C

structure Emitter where
  lines : Array String
  indent : Nat
  loops : Nat
  inEntryPoint : Bool
  deriving DecidableEq, Inhabited

namespace Emitter

/-- An emitter that has written nothing. -/
def fresh : Emitter := ⟨#[], 0, 0, false⟩

/-- A text behind four blanks for each level of indentation. -/
def indented (level : Nat) (text : String) : String :=
  String.ofList (List.replicate (4 * level) ' ') ++ text

/-- Writes a line. -/
def line (text : String) (e : Emitter) : Emitter :=
  { e with lines := e.lines.push (indented e.indent text) }

/-- Writes lines in order. -/
def writeLines : List String → Emitter → Emitter
  | [], e => e
  | text :: rest, e => writeLines rest (e.line text)

/-- Writes something one level deeper. -/
def deeper (write : Emitter → Emitter) (e : Emitter) : Emitter :=
  let inner := write { e with indent := e.indent + 1 }
  { inner with indent := inner.indent - 1 }

/-- Writes the head of a block and its body, but not the closing brace. -/
def openBlock (head : String) (body : Emitter → Emitter) (e : Emitter) : Emitter :=
  (e.line (head ++ " \x7b")).deeper body

/-- Writes a block. -/
def block (head : String) (body : Emitter → Emitter) (e : Emitter) : Emitter :=
  (e.openBlock head body).line "\x7d"

/-- Everything written, each line with its end. -/
def text (e : Emitter) : String := e.lines.foldl (fun text line => text ++ line ++ "\n") ""

theorem foldl_lines (lines : List String) (front : String) :
    lines.foldl (fun text line => text ++ line ++ "\n") front =
      front ++ String.join (lines.map (· ++ "\n")) := by
  induction lines generalizing front with
  | nil => simp
  | cons line rest ih =>
    rw [List.foldl_cons, ih, List.map_cons, String.join_cons]
    simp [String.append_assoc]

theorem text_eq (e : Emitter) : e.text = String.join (e.lines.toList.map (· ++ "\n")) := by
  rw [text, ← Array.foldl_toList, foldl_lines, String.empty_append]

end Emitter

/-- A text with a blank in front, or nothing. -/
def afterBlank (text : String) : String := if text.isEmpty then "" else " " ++ text

/-- The head of a counting loop. -/
def forHead (start : List Assign) (condition : Option Expr) (step : List Assign) : String :=
  "for (" ++ ", ".intercalate (start.map Assign.cText) ++ ";" ++
    afterBlank ((condition.map Expr.cText).getD "") ++ ";" ++
    afterBlank (", ".intercalate (step.map Assign.cText)) ++ ")"

/-- The head of a loop over the indices of an array. -/
def forEachHead (index container : String) : String :=
  "for (int " ++ index ++ " = 0; " ++ index ++ " < " ++ container ++ ".length; " ++ index ++ "++)"

/-- The lines of a variable declaration. Names of function type are declared on a
line each, because pointers to functions share no base type; arrays start out
empty. -/
def declarationLines (decl : VarDecl) : List String :=
  match decl.ty with
  | .function params result =>
    decl.names.map fun name => (Ty.function params result).declarator (ident name) ++ ";"
  | .array element =>
    [(Ty.array element).cType ++ " " ++
      ", ".intercalate (decl.names.map fun name => ident name ++ " = \x7b0\x7d") ++ ";"]
  | ty => [ty.cType ++ " " ++ ", ".intercalate (decl.names.map ident) ++ ";"]

/-- The line of a `retorne`. -/
def returnLine (inEntryPoint : Bool) : Option Expr → String
  | some value => "return " ++ value.cText ++ ";"
  | none => if inEntryPoint then "return 0;" else "return;"

end C

open C

mutual

/-- Writes a statement. -/
def Stmt.emit : Stmt → Emitter → Emitter
  | .declare decl, e => e.writeLines (declarationLines decl)
  | .assign step, e => e.line (step.cText ++ ";")
  | .call callee args, e => e.line (C.call callee (Expr.cTexts args) ++ ";")
  | .ifElse condition yes none, e =>
    e.block ("if (" ++ condition.cText ++ ")") (Stmt.emitAll yes)
  | .ifElse condition yes (some no), e =>
    (e.openBlock ("if (" ++ condition.cText ++ ")") (Stmt.emitAll yes)).block "\x7d else"
      (Stmt.emitAll no)
  | .whileDo condition body, e =>
    e.block ("while (" ++ condition.cText ++ ")") (Stmt.emitAll body)
  | .forDo start condition step body, e =>
    e.block (forHead start condition step) (Stmt.emitAll body)
  | .forEach ty name container body, e =>
    let index := loopIndex e.loops
    let binding := ty.declarator (ident name) ++ " = " ++ ident container ++ ".data[" ++ index ++ "];"
    { e with loops := e.loops + 1 }.block (forEachHead index (ident container)) fun e =>
      Stmt.emitAll body (e.line binding)
  | .ret value, e => e.line (returnLine e.inEntryPoint value)

/-- Writes statements in order. -/
def Stmt.emitAll : List Stmt → Emitter → Emitter
  | [], e => e
  | stmt :: rest, e => Stmt.emitAll rest (stmt.emit e)

end

end Caju
