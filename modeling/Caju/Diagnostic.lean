import Caju.Ty

/-! What the checker finds wrong with a program. Diagnostics are collected, in the
order they are found; they never stop the checker or the generator. -/

namespace Caju

/-- A statement with a condition. -/
inductive Construct where
  | ifElse
  | whileDo
  | forDo
  deriving DecidableEq, Inhabited

/-- The keyword of the statement in Caju. -/
def Construct.text : Construct → String
  | .ifElse => "se"
  | .whileDo => "enquanto"
  | .forDo => "para"

inductive Diagnostic where
  | duplicateVariable (name : String)
  | duplicateFunction (name : String)
  | undeclaredVariable (name : String)
  | uninitializedVariable (name : String)
  | undeclaredFunction (name : String)
  | notAFunction (name : String)
  | assignmentMismatch (target : String) (expected found : Ty)
  | argumentCount (function : String) (expected found : Nat)
  | argumentMismatch (function : String) (position : Nat) (expected found : Ty)
  | conditionNotBoolean (construct : Construct) (found : Ty)
  | notAnArray (name : String)
  | elementMismatch (name : String) (element found : Ty)
  | notOperand (found : Ty)
  | negOperand (found : Ty)
  | returnOutsideFunction
  | returnMismatch (function : String) (expected found : Ty)
  | missingReturnValue (function : String) (expected : Ty)
  | missingReturn (function : String) (expected : Ty)
  | unsupportedCharacter (value : Char)
  deriving DecidableEq, Inhabited

namespace Diagnostic

/-- The stable code of a diagnostic. -/
def code : Diagnostic → String
  | duplicateVariable .. => "E0001"
  | duplicateFunction .. => "E0002"
  | undeclaredVariable .. => "E0003"
  | uninitializedVariable .. => "E0004"
  | undeclaredFunction .. => "E0005"
  | notAFunction .. => "E0006"
  | assignmentMismatch .. => "E0007"
  | argumentCount .. => "E0008"
  | argumentMismatch .. => "E0009"
  | conditionNotBoolean .. => "E0010"
  | notAnArray .. => "E0011"
  | elementMismatch .. => "E0012"
  | notOperand .. => "E0013"
  | negOperand .. => "E0014"
  | returnOutsideFunction => "E0015"
  | returnMismatch .. => "E0016"
  | missingReturnValue .. => "E0017"
  | missingReturn .. => "E0018"
  | unsupportedCharacter .. => "E0019"

/-- A code point in upper-case hexadecimal, at least four digits wide. -/
def codePoint (c : Char) : String :=
  let digits := (Nat.toDigits 16 c.toNat).map Char.toUpper
  String.ofList (List.replicate (4 - digits.length) '0' ++ digits)

/-- The two types of a mismatch. -/
def expectedFound (expected found : Ty) : String :=
  "expected " ++ expected.text ++ ", found " ++ found.text

def message : Diagnostic → String
  | duplicateVariable name => "variable '" ++ name ++ "' is already declared in this scope"
  | duplicateFunction name => "function '" ++ name ++ "' is already declared"
  | undeclaredVariable name => "variable '" ++ name ++ "' is not declared"
  | uninitializedVariable name => "variable '" ++ name ++ "' is used before being initialized"
  | undeclaredFunction name => "function '" ++ name ++ "' is not declared"
  | notAFunction name => "'" ++ name ++ "' is not a function"
  | assignmentMismatch target expected found =>
    "type mismatch in assignment to '" ++ target ++ "': " ++ expectedFound expected found
  | argumentCount function expected found =>
    "wrong number of arguments to '" ++ function ++ "': expected " ++ toString expected ++
      ", found " ++ toString found
  | argumentMismatch function position expected found =>
    "type mismatch in argument " ++ toString position ++ " of '" ++ function ++ "': " ++
      expectedFound expected found
  | conditionNotBoolean construct found =>
    "condition of '" ++ construct.text ++ "' must be booleano, found " ++ found.text
  | notAnArray name => "'" ++ name ++ "' is not a vetor"
  | elementMismatch name element found =>
    "type mismatch in 'para cada': elements are " ++ element.text ++ ", but '" ++ name ++
      "' is " ++ found.text
  | notOperand found => "operator 'nao' expects booleano, found " ++ found.text
  | negOperand found => "unary operator '-' expects numero, found " ++ found.text
  | returnOutsideFunction => "'retorne' outside of a function"
  | returnMismatch function expected found =>
    "return type mismatch in '" ++ function ++ "': " ++ expectedFound expected found
  | missingReturnValue function expected =>
    "'retorne' in '" ++ function ++ "' needs a value of type " ++ expected.text
  | missingReturn function expected =>
    "function '" ++ function ++ "' must return a value of type " ++ expected.text
  | unsupportedCharacter value =>
    "character literal U+" ++ codePoint value ++ " does not fit in a caractere"

end Diagnostic

end Caju
