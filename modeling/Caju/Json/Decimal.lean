import Caju.Json.Binary64

/-! The shortest decimal text of a binary64 number. Of the decimals that read
back as the number, the digits written are the fewest, and of those the nearest;
`Layout` then says how digits and exponent are put on paper. -/

namespace Caju.Json

/-- `digits * 10 ^ exponent`, where `digits` does not end in a zero unless it is zero. -/
structure Decimal where
  digits : Nat
  exponent : Int
  deriving DecidableEq, Inhabited

namespace Decimal

/-- The grid point at or below `num / den` on the multiples of `10 ^ exponent`. -/
def gridFloor (num den : Nat) (exponent : Int) : Nat :=
  let (n, d) := Binary64.shift 10 (-exponent) num den
  n / d

/-- The greatest `e` with `10 ^ e ≤ num / den`. -/
def magnitude (num den : Nat) : Int :=
  let guess : Int := Int.fdiv (((num.log2 : Int) - den.log2 - 1) * 30103) 100000
  if gridFloor num den (guess + 1) = 0 then guess
  else if gridFloor num den (guess + 2) = 0 then guess + 1
  else guess + 2

/-- The reals that round to a binary64 number, in quarters of its unit: from
`low` to `high` with the number itself at `middle`, the ends belonging to it or not. -/
structure Interval where
  low : Nat
  middle : Nat
  high : Nat
  closed : Bool

def interval (x : Binary64) : Interval :=
  let middle := 4 * x.mantissa
  let narrow := x.mantissa == Binary64.mantissaStart && Binary64.minExponent < x.exponent
  ⟨if narrow then middle - 1 else middle - 2, middle, middle + 2, x.mantissa % 2 == 0⟩

/-- `point * 10 ^ exponent` in quarters of the unit `2 ^ unit`, over a denominator. -/
def inQuarters (point : Nat) (exponent unit : Int) : Nat × Nat :=
  let (n, d) := Binary64.shift 10 exponent point 1
  Binary64.shift 2 (2 - unit) n d

/-- How far a grid point is from the number, over the denominator of `inQuarters`;
none when the point reads back as another number. -/
def distance? (x : Binary64) (point : Nat) (exponent : Int) : Option Nat :=
  let bounds := interval x
  let (n, d) := inQuarters point exponent x.exponent
  let inside :=
    if bounds.closed then bounds.low * d ≤ n && n ≤ bounds.high * d
    else bounds.low * d < n && n < bounds.high * d
  if inside then some (if n < bounds.middle * d then bounds.middle * d - n else n - bounds.middle * d)
  else none

/-- The point of the grid `10 ^ exponent` that stands for the number, if one
does: of its two neighbours the nearer, a tie going to the even one. -/
def onGrid? (x : Binary64) (exponent : Int) : Option Nat :=
  let below := gridFloor x.ratio.1 x.ratio.2 exponent
  match distance? x below exponent, distance? x (below + 1) exponent with
  | none, none => none
  | some _, none => some below
  | none, some _ => some (below + 1)
  | some near, some far =>
    if near < far then some below
    else if far < near then some (below + 1)
    else some (below + below % 2)

/-- Drops the zeros at the end. -/
def trim : Nat → Decimal → Decimal
  | 0, d => d
  | fuel + 1, d =>
    if d.digits ≠ 0 ∧ d.digits % 10 = 0 then trim fuel ⟨d.digits / 10, d.exponent + 1⟩ else d

/-- Tries grids of ever more digits; with seventeen one always holds a point. -/
def search (x : Binary64) (leading : Int) : Nat → Nat → Decimal
  | 0, _ => ⟨0, 0⟩
  | fuel + 1, count =>
    let exponent := leading - count
    match onGrid? x exponent with
    | some point => trim 18 ⟨point, exponent⟩
    | none => search x leading fuel (count + 1)

/-- The shortest decimal that reads back as the number. -/
def shortest (x : Binary64) : Decimal :=
  if x.isZero then ⟨0, 0⟩ else search x (magnitude x.ratio.1 x.ratio.2) 18 0

/-- How a decimal is written: positionally when the exponent of its leading digit
lies from `positionalFrom` up to but not including `positionalTo`. -/
structure Layout where
  positionalFrom : Int
  positionalTo : Int
  plusSign : String

/-- Plain digits with a point from 1e-5 up to 1e16, beyond that a signed exponent. -/
def Layout.json : Layout := ⟨-5, 16, "+"⟩

def zeros (count : Nat) : List Char := List.replicate count '0'

/-- The text of a decimal; positional text always shows a digit after the point. -/
def write (layout : Layout) (d : Decimal) : String :=
  let digits := Nat.toDigits 10 d.digits
  let leading : Int := d.exponent + digits.length - 1
  if d.digits = 0 then "0.0"
  else if layout.positionalFrom ≤ leading ∧ leading < layout.positionalTo then
    if 0 ≤ d.exponent then String.ofList (digits ++ zeros d.exponent.toNat ++ ".0".toList)
    else if 0 ≤ leading then
      let whole := leading.toNat + 1
      String.ofList (digits.take whole ++ '.' :: digits.drop whole)
    else String.ofList ("0.".toList ++ zeros (-leading - 1).toNat ++ digits)
  else
    let fraction := digits.drop 1
    let mantissa := digits.take 1 ++ if fraction.isEmpty then [] else '.' :: fraction
    let sign := if 0 ≤ leading then layout.plusSign else "-"
    String.ofList mantissa ++ "e" ++ sign ++ toString leading.natAbs

end Decimal

/-- The shortest text that reads back as the number. -/
def Binary64.text (negative : Bool) (x : Binary64) : String :=
  (if negative then "-" else "") ++ (Decimal.shortest x).write .json

end Caju.Json
