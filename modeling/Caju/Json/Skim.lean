import Caju.Json.Document

/-! Passing over a JSON value without keeping it. Nothing but the grammar is
looked at: brackets may nest to any depth, and neither the size of numbers nor
the pairing of surrogates matters. -/

namespace Caju.Json

/-- Passes over a string's characters and its closing quote. -/
def skimString : List Char → Except Failure (List Char)
  | [] => .error (.here .endOfString [])
  | '"' :: rest => .ok rest
  | '\\' :: 'u' :: a :: b :: c :: d :: rest =>
    match hexUnit? a b c d with
    | none => .error (badHexEscape (a :: b :: c :: d :: rest))
    | some _ => skimString rest
  | '\\' :: 'u' :: digits => .error (badHexEscape digits)
  | ['\\'] => .error (.here .endOfString [])
  | '\\' :: letter :: rest =>
    match shortEscape? letter with
    | some _ => skimString rest
    | none => .error (.next .invalidEscape (letter :: rest))
  | c :: rest => if c < ' ' then .error (.here .controlCharacter (c :: rest)) else skimString rest

/-- Passes over a value that is neither list nor object and starts right here. -/
def skimScalar (text : List Char) : Except Failure (List Char) :=
  match text with
  | [] => .error (.here .endOfValue [])
  | c :: rest =>
    if c = 'n' then word ['u', 'l', 'l'] rest
    else if c = 't' then word ['r', 'u', 'e'] rest
    else if c = 'f' then word ['a', 'l', 's', 'e'] rest
    else if c = '"' then skimString rest
    else if c = '-' ∨ isDigit c then (Numeral.scan .invalidNumber (c :: rest)).map Prod.snd
    else .error (.next .expectedValue (c :: rest))

/-- What an open bracket holds. -/
inductive Bracket where
  | list
  | object
  deriving DecidableEq

def Bracket.closing : Bracket → Char
  | .list => ']'
  | .object => '}'

/-- The flaw of a text that ends inside the bracket. -/
def Bracket.cut : Bracket → Flaw
  | .list => .endOfList
  | .object => .endOfObject

/-- The flaw of a text that goes on without comma or closing bracket. -/
def Bracket.unfinished : Bracket → Flaw
  | .list => .expectedListEnd
  | .object => .expectedObjectEnd

/-- Passes over the key and the colon in front of a member's value. -/
def skimKey (text : List Char) : Except Failure (List Char) :=
  match skipBlanks text with
  | [] => .error (.here .endOfObject [])
  | c :: rest =>
    if c = '"' then do colon (← skimString rest)
    else .error (.next .keyNotString (c :: rest))

/-- What comes before a value in a bracket: the key of a member, nothing in a list. -/
def Bracket.lead : Bracket → List Char → Except Failure (List Char)
  | .list, text => .ok text
  | .object, text => skimKey text

/-- Where the text goes on after a value: at the next value of the brackets still
open, or past the outermost of them. -/
inductive SkimStep where
  | value (stack : List Bracket) (start : List Char)
  | closed (rest : List Char)

/-- Closes brackets after a value as long as they close, then passes the comma. -/
def closeBrackets : List Bracket → List Char → Except Failure SkimStep
  | [], text => .ok (.closed text)
  | bracket :: stack, text =>
    match skipBlanks text with
    | [] => .error (.here bracket.cut [])
    | c :: rest =>
      if c = bracket.closing then closeBrackets stack rest
      else if c = ',' then (bracket.lead rest).map (.value (bracket :: stack))
      else .error (.next bracket.unfinished (c :: rest))

/-- What follows an opening bracket: its first value, or its end. -/
def openBracket (bracket : Bracket) (stack : List Bracket) (text : List Char) :
    Except Failure SkimStep :=
  match skipBlanks text with
  | [] => .error (.here bracket.cut [])
  | c :: rest =>
    if c = bracket.closing then closeBrackets stack rest
    else (bracket.lead (c :: rest)).map (.value (bracket :: stack))

/-- Passes over the start of a value: all of a scalar, or an opening bracket. -/
def skimStep (stack : List Bracket) (text : List Char) : Except Failure SkimStep :=
  match skipBlanks text with
  | '[' :: rest => openBracket .list stack rest
  | '{' :: rest => openBracket .object stack rest
  | text => do closeBrackets stack (← skimScalar text)

/-- Every step takes at least one character, so the budget ends only where the
text does. -/
def skimLoop : Nat → List Bracket → List Char → Except Failure (List Char)
  | 0, _, _ => .error (.here .endOfValue [])
  | budget + 1, stack, text =>
    match skimStep stack text with
    | .error failure => .error failure
    | .ok (.closed rest) => .ok rest
    | .ok (.value stack start) => skimLoop budget stack start

/-- Passes over one value. -/
def skim (text : List Char) : Except Failure (List Char) :=
  skimLoop (text.length + 1) [] text

end Caju.Json
