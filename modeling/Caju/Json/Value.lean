import Caju.Json.Binary64

/-! JSON values. Numbers written without point and exponent that fit a 64-bit
word are integers, all others binary64 numbers; members keep the order and the
repetitions of the text. -/

namespace Caju.Json

inductive Value where
  | null
  | boolean (value : Bool)
  | integer (value : Int)
  | real (negative : Bool) (magnitude : Binary64)
  | string (value : String)
  | list (elements : List Value)
  | object (members : List (String × Value))
  deriving Inhabited

end Caju.Json
