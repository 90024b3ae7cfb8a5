import Caju.C.Name
import Caju.Tree

/-! C expressions. Every operand that is built with an operator itself is put in
parentheses, so the precedence of C never regroups what the tree grouped. -/

namespace Caju

def BinOp.cText : BinOp → String
  | .add => "+"
  | .sub => "-"
  | .mul => "*"
  | .div => "/"
  | .mod => "%"
  | .lt => "<"
  | .le => "<="
  | .gt => ">"
  | .ge => ">="
  | .eq => "=="
  | .ne => "!="
  | .and => "&&"
  | .or => "||"

namespace C

/-- Two hexadecimal digits. -/
def hexByte (n : Nat) : List Char := [Nat.digitChar (n / 16), Nat.digitChar (n % 16)]

/-- A character that stands for itself in a character constant. -/
def isGraphic (c : Char) : Bool := ' ' ≤ c && c ≤ '~'

/-- A character constant. A character too large for one is written as its number. -/
def charLiteral (c : Char) : String :=
  match c with
  | '\'' => "'\\''"
  | '\\' => "'\\\\'"
  | '\n' => "'\\n'"
  | '\t' => "'\\t'"
  | '\r' => "'\\r'"
  | '\x00' => "'\\0'"
  | c =>
    if isGraphic c then String.ofList ['\'', c, '\'']
    else if c ≤ maxCharacter then
      String.ofList (['\'', '\\', 'x'] ++ hexByte c.toNat ++ ['\''])
    else toString c.toNat

/-- A number; a negative one is put in parentheses. -/
def numberLiteral (n : Int) : String :=
  if n < 0 then "(" ++ toString n ++ ")" else toString n

/-- Puts a text in parentheses if so asked. -/
def parenthesized (needed : Bool) (text : String) : String :=
  if needed then "(" ++ text ++ ")" else text

def call (callee : String) (args : List String) : String :=
  ident callee ++ "(" ++ ", ".intercalate args ++ ")"

end C

namespace Expr

def isBinary : Expr → Bool
  | .binary .. => true
  | _ => false

/-- Whether an expression is built with an operator. -/
def isOperation : Expr → Bool
  | .binary .. => true
  | .not _ => true
  | .neg _ => true
  | _ => false

mutual

/-- An expression in C. -/
def cText : Expr → String
  | .number value => C.numberLiteral value.toInt
  | .character value => C.charLiteral value
  | .boolean value => if value then "true" else "false"
  | .var name => C.ident name
  | .binary op left right =>
    C.parenthesized left.isBinary left.cText ++ " " ++ op.cText ++ " " ++
      C.parenthesized right.isBinary right.cText
  | .not operand => "!" ++ C.parenthesized operand.isOperation operand.cText
  | .neg operand => "-" ++ C.parenthesized operand.isOperation operand.cText
  | .call callee args => C.call callee (cTexts args)

def cTexts : List Expr → List String
  | [] => []
  | expr :: rest => expr.cText :: cTexts rest

end

end Expr

/-- An assignment in C, without the semicolon. -/
def Assign.cText (assign : Assign) : String := C.ident assign.target ++ " = " ++ assign.value.cText

end Caju
