/-! What can be wrong with a JSON text, and where. Scanners work on the
characters still to be read, so a place is named by what is left at it;
positions in lines and columns are only worked out for the final message. -/

namespace Caju.Json

/-- The ways a text fails to be a JSON document. -/
inductive Flaw where
  | expectedValue
  | expectedWord
  | invalidNumber
  | expectedListEnd
  | expectedObjectEnd
  | trailingComma
  | keyNotString
  | expectedColon
  | trailingCharacters
  | endOfList
  | endOfObject
  | endOfValue
  | endOfString
  | controlCharacter
  | invalidEscape
  | loneSurrogate
  | endOfEscape
  | numberOutOfRange
  | tooDeep
  deriving DecidableEq, Inhabited

def Flaw.message : Flaw → String
  | .expectedValue => "expected value"
  | .expectedWord => "expected ident"
  | .invalidNumber => "invalid number"
  | .expectedListEnd => "expected `,` or `]`"
  | .expectedObjectEnd => "expected `,` or `\x7d`"
  | .trailingComma => "trailing comma"
  | .keyNotString => "key must be a string"
  | .expectedColon => "expected `:`"
  | .trailingCharacters => "trailing characters"
  | .endOfList => "EOF while parsing a list"
  | .endOfObject => "EOF while parsing an object"
  | .endOfValue => "EOF while parsing a value"
  | .endOfString => "EOF while parsing a string"
  | .controlCharacter => "control character (\\u0000-\\u001F) found while parsing a string"
  | .invalidEscape => "invalid escape"
  | .loneSurrogate => "lone leading surrogate in hex escape"
  | .endOfEscape => "unexpected end of hex escape"
  | .numberOutOfRange => "number out of range"
  | .tooDeep => "recursion limit exceeded"

/-- The number of bytes that characters take in UTF-8. -/
def byteCount (chars : List Char) : Nat :=
  chars.foldl (fun total c => total + c.utf8Size) 0

/-- The point `ahead` bytes into what is left of a text. -/
structure Place where
  rest : List Char
  ahead : Nat
  deriving DecidableEq, Inhabited

/-- Lines count from one; a column is the number of bytes since the line began. -/
structure Position where
  line : Nat
  column : Nat
  deriving DecidableEq, Inhabited

/-- The position after the first `count` bytes of a text, started from `here`. -/
def Position.advance : List Char → Nat → Position → Position
  | [], _, here => here
  | c :: rest, count, here =>
    if count = 0 then here
    else if c = '\n' then advance rest (count - 1) ⟨here.line + 1, 0⟩
    else if count < c.utf8Size then ⟨here.line, here.column + count⟩
    else advance rest (count - c.utf8Size) ⟨here.line, here.column + c.utf8Size⟩

/-- Where a place lies in the text it was found in; no place lies past the end. -/
def Place.position (place : Place) (text : List Char) : Position :=
  let total := byteCount text
  .advance text (min total (total - byteCount place.rest + place.ahead)) ⟨1, 0⟩

/-- A flaw and where it shows. -/
structure Failure where
  flaw : Flaw
  place : Place
  deriving DecidableEq, Inhabited

/-- The flaw shows at the character that comes next, or at the end of the text. -/
def Failure.next (flaw : Flaw) (rest : List Char) : Failure := ⟨flaw, rest, 1⟩

/-- The flaw shows in what has been read so far. -/
def Failure.here (flaw : Flaw) (rest : List Char) : Failure := ⟨flaw, rest, 0⟩

end Caju.Json
