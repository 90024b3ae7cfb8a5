import Caju.Json.Decimal
import Caju.Json.Value
import Caju.Text.Quoted

/-! How a well-formed JSON value can fail to describe a parse tree, and the
wording of each failure. -/

namespace Caju.Tree

open Caju.Json (Binary64 Value)

/-- What stands where something else was expected. -/
inductive Found where
  | null
  | boolean (value : Bool)
  | integer (value : Int)
  | real (negative : Bool) (magnitude : Binary64)
  | string (value : String)
  | list
  | object
  /-- The bare name of a choice that needs further data. -/
  | bareName
  deriving DecidableEq, Inhabited

def Found.ofValue : Value → Found
  | .null => .null
  | .boolean value => .boolean value
  | .integer value => .integer value
  | .real negative magnitude => .real negative magnitude
  | .string value => .string value
  | .list _ => .list
  | .object _ => .object

def Found.text : Found → String
  | .null => "null"
  | .boolean value => "boolean `" ++ toString value ++ "`"
  | .integer value => "integer `" ++ toString value ++ "`"
  | .real negative magnitude => "floating point `" ++ magnitude.text negative ++ "`"
  | .string value => "string " ++ Text.quoted value
  | .list => "sequence"
  | .object => "map"
  | .bareName => "unit variant"

/-- `1 element`, `2 elements`, … -/
def elementCount (count : Nat) : String :=
  toString count ++ if count = 1 then " element" else " elements"

/-- What would have fitted. -/
inductive Expectation where
  | int32
  | character
  | boolean
  | string
  | sequence
  | nothing
  | nameOrObject
  | singleMember
  | kindName
  | kindIndex (count : Nat)
  | tagged (family : String)
  | record (label : String)
  | fields (label : String) (count : Nat)
  | length (count : Nat)
  | payload
  | recordPayload
  deriving DecidableEq, Inhabited

def Expectation.text : Expectation → String
  | .int32 => "i32"
  | .character => "a character"
  | .boolean => "a boolean"
  | .string => "a string"
  | .sequence => "a sequence"
  | .nothing => "unit"
  | .nameOrObject => "string or map"
  | .singleMember => "map with a single key"
  | .kindName => "variant identifier"
  | .kindIndex count => "variant index 0 <= i < " ++ toString count
  | .tagged family => "internally tagged enum " ++ family
  | .record label => label
  | .fields label count => label ++ " with " ++ elementCount count
  | .length count => elementCount count ++ " in sequence"
  | .payload => "newtype variant"
  | .recordPayload => "struct variant"

/-- The ways a value fails to describe a tree. -/
inductive Mismatch where
  | wrongType (found : Found) (expected : Expectation)
  | wrongValue (found : Found) (expected : Expectation)
  | wrongLength (length : Nat) (expected : Expectation)
  | unknownKind (name : String) (kinds : List String)
  | missingField (name : String)
  | duplicateField (name : String)
  | tooDeep
  deriving DecidableEq, Inhabited

/-- The names one may choose from. -/
def choices (names : List String) : String :=
  let quoted := names.map fun name => "`" ++ name ++ "`"
  match quoted with
  | [first] => first
  | [first, second] => first ++ " or " ++ second
  | _ => "one of " ++ ", ".intercalate quoted

def Mismatch.message : Mismatch → String
  | .wrongType found expected => "invalid type: " ++ found.text ++ ", expected " ++ expected.text
  | .wrongValue found expected => "invalid value: " ++ found.text ++ ", expected " ++ expected.text
  | .wrongLength length expected => "invalid length " ++ toString length ++ ", expected " ++ expected.text
  | .unknownKind name kinds => "unknown variant `" ++ name ++ "`, expected " ++ choices kinds
  | .missingField name => "missing field `" ++ name ++ "`"
  | .duplicateField name => "duplicate field `" ++ name ++ "`"
  | .tooDeep => "recursion limit exceeded"

end Caju.Tree
