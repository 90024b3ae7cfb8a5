import Caju.Json.Skim
import Caju.Tree.Decode

/-! Programs from JSON text. The outermost two levels are read straight from the
text: each item of a program is read to its end, its kind judged as soon as it is
seen, and only then taken apart. A mismatch inside an item is therefore placed
where the reader has got to, behind the item. -/

namespace Caju.Tree

open Caju.Json

/-- Why a text is not a program: it is no JSON document, or one of another shape. -/
inductive ReadError where
  | malformed (failure : Failure)
  | misshapen (mismatch : Mismatch) (place : Place)
  deriving DecidableEq

/-- Brings a failure of the scanner into a reader's result. -/
def scanned {α : Type} : Except Failure α → Except ReadError α
  | .ok result => .ok result
  | .error failure => .error (.malformed failure)

/-- What a reader read, and the text after it. -/
abbrev Read (α : Type) := Except ReadError (α × List Char)

/-- Something else stands here. A scalar is read first, and may be flawed itself. -/
def misfit (expected : Expectation) (text : List Char) : ReadError :=
  match text with
  | '[' :: rest => .misshapen (.wrongType .list expected) ⟨'[' :: rest, 0⟩
  | '{' :: rest => .misshapen (.wrongType .object expected) ⟨'{' :: rest, 0⟩
  | text =>
    match scalar text with
    | .error failure => .malformed failure
    | .ok (value, rest) => .misshapen (.wrongType (.ofValue value) expected) ⟨rest, 0⟩

/-- Where a reader that gave up inside an object comes to rest. -/
def leaveObject (text : List Char) : List Char :=
  match skipBlanks text with
  | '}' :: rest => rest
  | rest => rest

/-- Where a reader that gave up inside a list comes to rest. -/
def leaveList (text : List Char) : List Char :=
  match skipBlanks text with
  | ']' :: rest => rest
  | ',' :: rest => skipBlanks rest
  | rest => rest

/-- Reads the kind of an item, which is always a name. -/
def itemKind (text : List Char) : Read ItemKind :=
  match skipBlanks text with
  | '"' :: rest =>
    match stringBody [] rest with
    | .error failure => .error (.malformed failure)
    | .ok (name, rest) =>
      match kindNamed itemKinds name with
      | .error mismatch => .error (.misshapen mismatch ⟨rest, 0⟩)
      | .ok kind => .ok (kind, rest)
  | text => .error (misfit .kindName text)

/-- The brackets that may still be open inside an item, which is itself inside the
list of items of a program. -/
def itemNesting : Nat := maxNesting - 3

/-- Reads the members of an item up to its closing bracket, keeping the kind apart
from the others. -/
def itemMembers : Nat → Bool → Option ItemKind → List (String × Value) → List Char →
    Read (ItemKind × Value)
  | 0, _, _, _, _ => .error (.malformed (.here .endOfObject []))
  | budget + 1, first, kind?, before, text =>
    match objectStep first text with
    | .error failure => .error (.malformed failure)
    | .ok (.closed rest) =>
      match kind? with
      | none => .error (.misshapen (.missingField kindField) ⟨rest, 0⟩)
      | some kind => .ok ((kind, .object before.reverse), rest)
    | .ok (.key name rest) =>
      if name = kindField then
        match kind? with
        | some _ => .error (.misshapen (.duplicateField kindField) ⟨leaveObject rest, 0⟩)
        | none =>
          match colon rest with
          | .error failure => .error (.malformed failure)
          | .ok start =>
            match itemKind start with
            | .error error => .error error
            | .ok (kind, rest) => itemMembers budget false (some kind) before rest
      else
        match colon rest with
        | .error failure => .error (.malformed failure)
        | .ok start =>
          match value itemNesting start with
          | .error failure => .error (.malformed failure)
          | .ok (value, rest) => itemMembers budget false kind? ((name, value) :: before) rest

/-- Reads an item to its end: its kind, and the value that holds its fields. -/
def itemParts (text : List Char) : Except ReadError ((ItemKind × Value) × List Char) :=
  match skipBlanks text with
  | '{' :: rest => itemMembers rest.length true none [] rest
  | '[' :: rest => do
    match ← scanned (listStep true rest) with
    | .closed rest => .error (.misshapen (.missingField kindField) ⟨rest, 0⟩)
    | .element start =>
      let (kind, rest) ← itemKind start
      let (fields, rest) ← scanned (elements (value itemNesting) rest.length false [] rest)
      return ((kind, .list fields), rest)
  | text => .error (misfit (.tagged "Item") text)

/-- Reads an item. -/
def item (text : List Char) : Read Item :=
  match itemParts text with
  | .error error => .error error
  | .ok ((kind, fields), rest) =>
    match decodeItem kind fields with
    | .error mismatch => .error (.misshapen mismatch ⟨leaveList rest, 0⟩)
    | .ok item => .ok (item, rest)

/-- Reads items up to the closing bracket of their list. Each takes at least one
character, so a budget of the text's length ends only where the text does. -/
def items : Nat → Bool → List Item → List Char → Read (List Item)
  | 0, _, _, _ => .error (.malformed (.here .endOfList []))
  | budget + 1, first, before, text =>
    match listStep first text with
    | .error failure => .error (.malformed failure)
    | .ok (.closed rest) => .ok (before.reverse, rest)
    | .ok (.element start) =>
      match item start with
      | .error error => .error error
      | .ok (item, rest) => items budget false (item :: before) rest

/-- Reads the list of items of a program. -/
def itemList (text : List Char) : Read (List Item) :=
  match skipBlanks text with
  | '[' :: rest => items rest.length true [] rest
  | text => .error (misfit .sequence text)

/-- The member of a program that holds its items. -/
def itemsField : String := "items"

/-- Reads the members of a program up to its closing bracket; those it does not
know are passed over. -/
def programMembers : Nat → Bool → Option (List Item) → List Char → Read Program
  | 0, _, _, _ => .error (.malformed (.here .endOfObject []))
  | budget + 1, first, items?, text =>
    match objectStep first text with
    | .error failure => .error (.malformed failure)
    | .ok (.closed rest) =>
      match items? with
      | none => .error (.misshapen (.missingField itemsField) ⟨rest, 0⟩)
      | some items => .ok (⟨items⟩, rest)
    | .ok (.key name rest) =>
      if name = itemsField then
        match items? with
        | some _ => .error (.misshapen (.duplicateField itemsField) ⟨leaveObject rest, 0⟩)
        | none =>
          match colon rest with
          | .error failure => .error (.malformed failure)
          | .ok start =>
            match itemList start with
            | .error error => .error error
            | .ok (items, rest) => programMembers budget false (some items) rest
      else
        match colon rest with
        | .error failure => .error (.malformed failure)
        | .ok start =>
          match skim start with
          | .error failure => .error (.malformed failure)
          | .ok rest => programMembers budget false items? rest

/-- The end of a program that is written as a list: nothing may follow the items. -/
def endOfProgramList (text : List Char) : Except Failure (List Char) :=
  match skipBlanks text with
  | [] => .error (.here .endOfList [])
  | ']' :: rest => .ok rest
  | ',' :: rest =>
    match skipBlanks rest with
    | ']' :: rest => .error (.next .trailingComma (']' :: rest))
    | rest => .error (.next .trailingCharacters rest)
  | rest => .error (.next .trailingCharacters rest)

/-- Reads a program, as an object or as a list. -/
def program (text : List Char) : Except ReadError (Program × List Char) :=
  match skipBlanks text with
  | '{' :: rest => programMembers rest.length true none rest
  | '[' :: rest => do
    match ← scanned (listStep true rest) with
    | .closed rest => .error (.misshapen (.wrongLength 0 (.fields "struct Program" 1)) ⟨rest, 0⟩)
    | .element start =>
      let (items, rest) ← itemList start
      let rest ← scanned (endOfProgramList rest)
      return (⟨items⟩, rest)
  | text => .error (misfit (.record "struct Program") text)

/-- Reads a text that is one program. -/
def read (text : List Char) : Except ReadError Program := do
  let (program, rest) ← program text
  scanned (finish rest)
  return program

end Caju.Tree
