import Caju.Json.Lexeme

/-! JSON documents: how lists and objects are put together from their parts, and
the reader for a whole text. At most 127 brackets may be open at a time. -/

namespace Caju.Json

/-- The next step through a list: an element starts, or the list is closed. -/
inductive ListStep where
  | element (start : List Char)
  | closed (rest : List Char)
  deriving DecidableEq

/-- Steps to the next element of a list; before all but the first comes a comma. -/
def listStep (first : Bool) (text : List Char) : Except Failure ListStep :=
  match skipBlanks text with
  | [] => .error (.here .endOfList [])
  | c :: rest =>
    if c = ']' then .ok (.closed rest)
    else if first then .ok (.element (c :: rest))
    else if c = ',' then
      match skipBlanks rest with
      | [] => .error (.here .endOfValue [])
      | d :: after =>
        if d = ']' then .error (.next .trailingComma (d :: after)) else .ok (.element (d :: after))
    else .error (.next .expectedListEnd (c :: rest))

/-- The next step through an object: a key was read, or the object is closed. -/
inductive ObjectStep where
  | key (name : String) (rest : List Char)
  | closed (rest : List Char)
  deriving DecidableEq

/-- Reads a member's key, which must be a string. -/
def objectKey (text : List Char) : Except Failure ObjectStep :=
  match text with
  | '"' :: rest => do
    let (name, rest) ← stringBody [] rest
    return .key name rest
  | _ => .error (.next .keyNotString text)

/-- Steps to the next key of an object; before all but the first comes a comma. -/
def objectStep (first : Bool) (text : List Char) : Except Failure ObjectStep :=
  match skipBlanks text with
  | [] => .error (.here .endOfObject [])
  | c :: rest =>
    if c = '}' then .ok (.closed rest)
    else if first then objectKey (c :: rest)
    else if c = ',' then
      match skipBlanks rest with
      | [] => .error (.here .endOfValue [])
      | d :: after =>
        if d = '}' then .error (.next .trailingComma (d :: after)) else objectKey (d :: after)
    else .error (.next .expectedObjectEnd (c :: rest))

/-- The colon between a key and its value. -/
def colon (text : List Char) : Except Failure (List Char) :=
  match skipBlanks text with
  | [] => .error (.here .endOfObject [])
  | c :: rest => if c = ':' then .ok rest else .error (.next .expectedColon (c :: rest))

/-- Reads the elements of a list up to its closing bracket. Each takes at least one
character, so a budget of the text's length ends only where the text does. -/
def elements (read : List Char → Scan Value) :
    Nat → Bool → List Value → List Char → Scan (List Value)
  | 0, _, _, _ => .error (.here .endOfList [])
  | budget + 1, first, before, text =>
    match listStep first text with
    | .error failure => .error failure
    | .ok (.closed rest) => .ok (before.reverse, rest)
    | .ok (.element start) =>
      match read start with
      | .error failure => .error failure
      | .ok (value, rest) => elements read budget false (value :: before) rest

/-- Reads the members of an object up to its closing bracket, on a budget as for
`elements`. -/
def members (read : List Char → Scan Value) :
    Nat → Bool → List (String × Value) → List Char → Scan (List (String × Value))
  | 0, _, _, _ => .error (.here .endOfObject [])
  | budget + 1, first, before, text =>
    match objectStep first text with
    | .error failure => .error failure
    | .ok (.closed rest) => .ok (before.reverse, rest)
    | .ok (.key name rest) =>
      match colon rest with
      | .error failure => .error failure
      | .ok start =>
        match read start with
        | .error failure => .error failure
        | .ok (value, rest) => members read budget false ((name, value) :: before) rest

/-- Reads a value that is neither list nor object and starts right here. -/
def scalar (text : List Char) : Scan Value :=
  match text with
  | [] => .error (.here .endOfValue [])
  | c :: rest =>
    if c = 'n' then (word ['u', 'l', 'l'] rest).map (.null, ·)
    else if c = 't' then (word ['r', 'u', 'e'] rest).map (.boolean true, ·)
    else if c = 'f' then (word ['a', 'l', 's', 'e'] rest).map (.boolean false, ·)
    else if c = '"' then (stringBody [] rest).map fun (value, rest) => (.string value, rest)
    else if c = '-' ∨ isDigit c then number (c :: rest)
    else .error (.next .expectedValue (c :: rest))

/-- Reads a value inside which `levels` more brackets may be open at a time. -/
def value (levels : Nat) (text : List Char) : Scan Value :=
  match skipBlanks text with
  | '[' :: rest =>
    match levels with
    | 0 => .error (.next .tooDeep ('[' :: rest))
    | levels + 1 =>
      (elements (value levels) rest.length true [] rest).map fun (values, rest) => (.list values, rest)
  | '{' :: rest =>
    match levels with
    | 0 => .error (.next .tooDeep ('{' :: rest))
    | levels + 1 =>
      (members (value levels) rest.length true [] rest).map fun (found, rest) => (.object found, rest)
  | text => scalar text

/-- How many brackets may be open at a time. -/
def maxNesting : Nat := 127

/-- Only blanks may follow a document. -/
def finish (text : List Char) : Except Failure Unit :=
  match skipBlanks text with
  | [] => .ok ()
  | rest => .error (.next .trailingCharacters rest)

/-- Reads a text that is one JSON value. -/
def document (text : List Char) : Except Failure Value := do
  let (value, rest) ← value maxNesting text
  finish rest
  return value

end Caju.Json
