import Caju.Json.Decimal
import Caju.Json.Value

/-! JSON text of values, compact or indented. A writer puts its text in front of
the text that follows, so what stands behind a value is never copied. -/

namespace Caju.Json

/-- A hexadecimal digit, in lower case. -/
def hexDigit (n : Nat) : Char :=
  if n < 10 then Char.ofNat ('0'.toNat + n) else Char.ofNat ('a'.toNat + (n - 10))

/-- A character inside a string: quotes, backslashes and control characters are
escaped, everything else stands for itself. -/
def writeChar (c : Char) (rest : List Char) : List Char :=
  match c with
  | '"' => '\\' :: '"' :: rest
  | '\\' => '\\' :: '\\' :: rest
  | '\x08' => '\\' :: 'b' :: rest
  | '\x0c' => '\\' :: 'f' :: rest
  | '\n' => '\\' :: 'n' :: rest
  | '\r' => '\\' :: 'r' :: rest
  | '\t' => '\\' :: 't' :: rest
  | c =>
    if c < ' ' then
      '\\' :: 'u' :: '0' :: '0' :: hexDigit (c.toNat / 16) :: hexDigit (c.toNat % 16) :: rest
    else c :: rest

/-- The characters of a string and its closing quote. -/
def writeStringBody : List Char → List Char → List Char
  | [], rest => '"' :: rest
  | c :: chars, rest => writeChar c (writeStringBody chars rest)

def writeString (s : String) (rest : List Char) : List Char :=
  '"' :: writeStringBody s.toList rest

/-- The text of a scalar; a list or an object is none, and gets no text here. -/
def writeScalar : Value → List Char → List Char
  | .null, rest => 'n' :: 'u' :: 'l' :: 'l' :: rest
  | .boolean true, rest => 't' :: 'r' :: 'u' :: 'e' :: rest
  | .boolean false, rest => 'f' :: 'a' :: 'l' :: 's' :: 'e' :: rest
  | .integer n, rest => (toString n).toList ++ rest
  | .real negative magnitude, rest => (magnitude.text negative).toList ++ rest
  | .string s, rest => writeString s rest
  | .list _, rest => rest
  | .object _, rest => rest

mutual

/-- The text of a value without any blanks, in front of `rest`. -/
def Value.write : Value → List Char → List Char
  | .list [], rest => '[' :: ']' :: rest
  | .list (v :: vs), rest => '[' :: v.write (writeElements vs (']' :: rest))
  | .object [], rest => '{' :: '}' :: rest
  | .object ((name, v) :: ms), rest =>
    '{' :: writeString name (':' :: v.write (writeMembers ms ('}' :: rest)))
  | v, rest => writeScalar v rest

def writeElements : List Value → List Char → List Char
  | [], rest => rest
  | v :: vs, rest => ',' :: v.write (writeElements vs rest)

def writeMembers : List (String × Value) → List Char → List Char
  | [], rest => rest
  | (name, v) :: ms, rest => ',' :: writeString name (':' :: v.write (writeMembers ms rest))

end

/-- The text of a value without any blanks. -/
def Value.compact (v : Value) : String := String.ofList (v.write [])

/-- A line break and the indentation of a nesting depth, two blanks a level. -/
def breakLine (depth : Nat) (rest : List Char) : List Char :=
  '\n' :: (List.replicate (2 * depth) ' ' ++ rest)

mutual

/-- The text of a value that starts at nesting depth `depth`, each element and
member on a line of its own, in front of `rest`. -/
def Value.writeIndented : Value → Nat → List Char → List Char
  | .list [], _, rest => '[' :: ']' :: rest
  | .list (v :: vs), depth, rest =>
    '[' :: breakLine (depth + 1) (v.writeIndented (depth + 1)
      (indentElements vs (depth + 1) (breakLine depth (']' :: rest))))
  | .object [], _, rest => '{' :: '}' :: rest
  | .object ((name, v) :: ms), depth, rest =>
    '{' :: breakLine (depth + 1) (writeString name (':' :: ' ' :: v.writeIndented (depth + 1)
      (indentMembers ms (depth + 1) (breakLine depth ('}' :: rest)))))
  | v, _, rest => writeScalar v rest

def indentElements : List Value → Nat → List Char → List Char
  | [], _, rest => rest
  | v :: vs, depth, rest =>
    ',' :: breakLine depth (v.writeIndented depth (indentElements vs depth rest))

def indentMembers : List (String × Value) → Nat → List Char → List Char
  | [], _, rest => rest
  | (name, v) :: ms, depth, rest =>
    ',' :: breakLine depth (writeString name (':' :: ' ' :: v.writeIndented depth
      (indentMembers ms depth rest)))

end

/-- The text of a value with every element and member on a line of its own. -/
def Value.indented (v : Value) : String := String.ofList (v.writeIndented 0 [])

end Caju.Json
