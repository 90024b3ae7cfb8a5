import Caju.Json.Value
import Caju.Json.Flaw

/-! The words of JSON: blanks, the three literal words, strings and numbers.
Each scanner takes the characters still to be read and gives back what it read
with the characters after it. -/

namespace Caju.Json

/-- What a scanner read, and the text after it. -/
abbrev Scan (α : Type) := Except Failure (α × List Char)

/-- JSON's own blanks; no other white space separates anything. -/
def isBlank (c : Char) : Bool := c == ' ' || c == '\n' || c == '\t' || c == '\r'

def skipBlanks (text : List Char) : List Char := text.dropWhile isBlank

/-- Reads the remaining letters of a literal word. -/
def word (letters : List Char) (text : List Char) : Except Failure (List Char) :=
  match letters, text with
  | [], rest => .ok rest
  | _ :: _, [] => .error (.here .endOfValue [])
  | letter :: letters, c :: rest =>
    if c = letter then word letters rest else .error (.next .expectedWord (c :: rest))

/-! ### Strings -/

/-- The character that a backslash and this letter stand for. -/
def shortEscape? : Char → Option Char
  | '"' => some '"'
  | '\\' => some '\\'
  | '/' => some '/'
  | 'b' => some '\x08'
  | 'f' => some '\x0c'
  | 'n' => some '\n'
  | 'r' => some '\r'
  | 't' => some '\t'
  | _ => none

def hexDigit? (c : Char) : Option Nat :=
  if '0' ≤ c ∧ c ≤ '9' then some (c.toNat - '0'.toNat)
  else if 'a' ≤ c ∧ c ≤ 'f' then some (c.toNat - 'a'.toNat + 10)
  else if 'A' ≤ c ∧ c ≤ 'F' then some (c.toNat - 'A'.toNat + 10)
  else none

/-- The 16-bit unit that four hexadecimal digits stand for. -/
def hexUnit? (a b c d : Char) : Option Nat :=
  match hexDigit? a, hexDigit? b, hexDigit? c, hexDigit? d with
  | some a, some b, some c, some d => some (((a * 16 + b) * 16 + c) * 16 + d)
  | _, _, _, _ => none

def isLeadingSurrogate (unit : Nat) : Bool := 0xD800 ≤ unit && unit ≤ 0xDBFF

def isTrailingSurrogate (unit : Nat) : Bool := 0xDC00 ≤ unit && unit ≤ 0xDFFF

/-- The character that a pair of surrogates stands for. -/
def pairedChar (leading trailing : Nat) : Char :=
  Char.ofNat (0x10000 + (leading - 0xD800) * 0x400 + (trailing - 0xDC00))

/-- Four bytes are taken for the digits whatever they are; a text that ends
before them ends inside the string. -/
def badHexEscape (digits : List Char) : Failure :=
  if 4 ≤ byteCount (digits.take 4) then ⟨.invalidEscape, digits, 4⟩ else .here .endOfString []

/-- A string's characters up to its closing quote, added to `before` in reverse. -/
def stringBody (before : List Char) : List Char → Scan String
  | [] => .error (.here .endOfString [])
  | '"' :: rest => .ok (String.ofList before.reverse, rest)
  | '\\' :: 'u' :: a :: b :: c :: d :: rest =>
    match hexUnit? a b c d with
    | none => .error (badHexEscape (a :: b :: c :: d :: rest))
    | some unit =>
      if isTrailingSurrogate unit then .error (.here .loneSurrogate rest)
      else if isLeadingSurrogate unit then
        match rest with
        | [] => .error (.here .endOfString [])
        | ['\\'] => .error (.here .endOfString [])
        | '\\' :: 'u' :: e :: f :: g :: h :: rest' =>
          match hexUnit? e f g h with
          | none => .error (badHexEscape (e :: f :: g :: h :: rest'))
          | some second =>
            if isTrailingSurrogate second then stringBody (pairedChar unit second :: before) rest'
            else .error (.here .loneSurrogate rest')
        | '\\' :: 'u' :: digits => .error (badHexEscape digits)
        | '\\' :: other => .error (.next .endOfEscape other)
        | other => .error (.next .endOfEscape other)
      else stringBody (Char.ofNat unit :: before) rest
  | '\\' :: 'u' :: digits => .error (badHexEscape digits)
  | ['\\'] => .error (.here .endOfString [])
  | '\\' :: letter :: rest =>
    match shortEscape? letter with
    | some c => stringBody (c :: before) rest
    | none => .error (.next .invalidEscape (letter :: rest))
  | c :: rest =>
    if c < ' ' then .error (.next .controlCharacter (c :: rest)) else stringBody (c :: before) rest

/-! ### Numbers -/

def isDigit (c : Char) : Bool := '0' ≤ c && c ≤ '9'

def digitValue (c : Char) : Nat := c.toNat - '0'.toNat

/-- A number as written. There is a point exactly if `fraction` is not empty; the
exponent is its sign, true for minus, and its digits. -/
structure Numeral where
  negative : Bool
  whole : List Char
  fraction : List Char
  exponent : Option (Bool × List Char)
  deriving DecidableEq, Inhabited

namespace Numeral

/-- The digits before the point: a single zero, or digits that start with none. -/
def scanWhole (cut : Flaw) : List Char → Scan (List Char)
  | [] => .error (.here cut [])
  | '0' :: rest =>
    match rest with
    | [] => .ok (['0'], [])
    | c :: after =>
      if isDigit c then .error (.next .invalidNumber (c :: after)) else .ok (['0'], c :: after)
  | c :: rest =>
    if isDigit c then .ok (c :: rest.takeWhile isDigit, rest.dropWhile isDigit)
    else .error (.next .invalidNumber (c :: rest))

/-- At least one digit. -/
def scanDigits (cut : Flaw) (text : List Char) : Scan (List Char) :=
  match text.takeWhile isDigit, text with
  | [], [] => .error (.here cut [])
  | [], _ :: _ => .error (.next .invalidNumber text)
  | digits, _ => .ok (digits, text.dropWhile isDigit)

/-- The point and the digits after it, if the text goes on with a point. -/
def scanFraction (cut : Flaw) : List Char → Scan (List Char)
  | '.' :: rest => scanDigits cut rest
  | text => .ok ([], text)

/-- The exponent, if the text goes on with one. -/
def scanExponent (cut : Flaw) : List Char → Scan (Option (Bool × List Char))
  | c :: rest =>
    if c = 'e' ∨ c = 'E' then
      let (negative, digits) := match rest with
        | '-' :: digits => (true, digits)
        | '+' :: digits => (false, digits)
        | digits => (false, digits)
      match scanDigits cut digits with
      | .error failure => .error failure
      | .ok (digits, after) => .ok (some (negative, digits), after)
    else .ok (none, c :: rest)
  | [] => .ok (none, [])

/-- Reads a number; `cut` is the flaw of one that the end of the text cuts off. -/
def scan (cut : Flaw) (text : List Char) : Except Failure (Numeral × List Char) := do
  let (negative, text) := match text with
    | '-' :: rest => (true, rest)
    | _ => (false, text)
  let (whole, text) ← scanWhole cut text
  let (fraction, text) ← scanFraction cut text
  let (exponent, text) ← scanExponent cut text
  return (⟨negative, whole, fraction, exponent⟩, text)

/-- The largest 64-bit word, up to which digits are added up exactly. -/
def maxWord : Nat := 0xffffffffffffffff

/-- The largest number whose negation is a signed 64-bit word. -/
def maxNegative : Nat := 0x8000000000000000

/-- The largest exponent that is taken at its word. -/
def maxExponent : Nat := 0x7fffffff

/-- Appends digits to a number up to the first that would take it past `limit`;
that digit and those after it are left over. -/
def accumulate (limit : Nat) : Nat → List Char → Nat × List Char
  | total, [] => (total, [])
  | total, c :: rest =>
    let next := total * 10 + digitValue c
    if limit < next then (total, c :: rest) else accumulate limit next rest

/-- `significand * 10 ^ exponent` in binary64; none when that is too large. -/
def magnitude? (significand : Nat) (exponent : Int) : Option Binary64 :=
  (Binary64.ofRatio significand 1).bind fun x =>
    if 0 ≤ exponent then x.scaleUp exponent.toNat else some (x.scaleDown exponent.natAbs)

/-- The exponent a numeral is read with. `Except.error` says that its digits
passed `maxExponent`: whether downwards, and the digits after the one that did. -/
def writtenExponent : Option (Bool × List Char) → Except (Bool × List Char) Int
  | none => .ok 0
  | some (negative, digits) =>
    match accumulate maxExponent 0 digits with
    | (total, []) => .ok (if negative then -total else total)
    | (_, _ :: unread) => .error (negative, unread)

/-- The value of a numeral that `rest` follows. Digits past the 64-bit word only
count as powers of ten before the point and not at all after it. -/
def value (numeral : Numeral) (rest : List Char) : Except Failure Value :=
  let (leading, dropped) := accumulate maxWord 0 numeral.whole
  let (significand, unread) := accumulate maxWord leading numeral.fraction
  let shift : Int := (dropped.length : Int) - (numeral.fraction.length - unread.length : Nat)
  if numeral.fraction.isEmpty && numeral.exponent.isNone && dropped.isEmpty then
    if !numeral.negative then .ok (.integer significand)
    else if significand ≠ 0 ∧ significand ≤ maxNegative then .ok (.integer (-significand))
    else .ok (.real true ((magnitude? significand 0).getD .zero))
  else
    match writtenExponent numeral.exponent with
    | .error (downwards, unread) =>
      if significand ≠ 0 ∧ !downwards then .error (.here .numberOutOfRange (unread ++ rest))
      else .ok (.real numeral.negative .zero)
    | .ok exponent =>
      match magnitude? significand (shift + exponent) with
      | some magnitude => .ok (.real numeral.negative magnitude)
      | none => .error (.here .numberOutOfRange rest)

end Numeral

/-- Reads a number and works out its value. -/
def number (text : List Char) : Except Failure (Value × List Char) := do
  let (numeral, rest) ← Numeral.scan .endOfValue text
  return (← numeral.value rest, rest)

end Caju.Json
