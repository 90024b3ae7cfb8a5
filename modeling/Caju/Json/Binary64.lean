/-! Non-negative double-precision numbers, held exactly as `mantissa * 2 ^ exponent`.
Every operation is exact rational arithmetic followed by one rounding to the
nearest representable number, a half going to the even mantissa. -/

namespace Caju.Json

/-- A magnitude in binary64: 53 bits of mantissa, no exponent below -1074. -/
structure Binary64 where
  mantissa : Nat
  exponent : Int
  deriving DecidableEq, Inhabited

namespace Binary64

/-- The least exponent, at which the subnormal numbers lie. -/
def minExponent : Int := -1074

/-- The exponent of the largest finite numbers. -/
def maxExponent : Int := 971

/-- The least mantissa of a number that is not subnormal, `2 ^ 52`. -/
def mantissaStart : Nat := 0x10000000000000

/-- The end of the mantissas, `2 ^ 53`. -/
def mantissaEnd : Nat := 0x20000000000000

def zero : Binary64 := ⟨0, minExponent⟩

def isZero (x : Binary64) : Bool := x.mantissa == 0

/-- The nearest natural number to `num / den`, a half going to the even one. -/
def roundDiv (num den : Nat) : Nat :=
  let floor := num / den
  let twice := 2 * (num % den)
  if twice < den then floor
  else if den < twice then floor + 1
  else floor + floor % 2

/-- `num / den * base ^ exponent` as a fraction of natural numbers. -/
def shift (base : Nat) (exponent : Int) (num den : Nat) : Nat × Nat :=
  if 0 ≤ exponent then (num * Nat.pow base exponent.toNat, den)
  else (num, den * Nat.pow base (-exponent).toNat)

/-- The exponent at which `num / den` has a 53-bit integer part, or the least one. -/
def exponentOf (num den : Nat) : Int :=
  let low : Int := (num.log2 : Int) - den.log2 - 53
  let (n, d) := shift 2 (-low) num den
  max minExponent (if d * mantissaEnd ≤ n then low + 1 else low)

/-- The binary64 number nearest to `num / den`; none when that is too large. -/
def ofRatio (num den : Nat) : Option Binary64 :=
  if num = 0 then some zero
  else
    let exponent := exponentOf num den
    let (n, d) := shift 2 (-exponent) num den
    let rounded := roundDiv n d
    let result : Binary64 :=
      if rounded = mantissaEnd then ⟨mantissaStart, exponent + 1⟩ else ⟨rounded, exponent⟩
    if maxExponent < result.exponent then none else some result

/-- The number as a fraction of natural numbers. -/
def ratio (x : Binary64) : Nat × Nat := shift 2 x.exponent x.mantissa 1

/-- The product, rounded; none when it is too large. -/
def mul (x y : Binary64) : Option Binary64 :=
  ofRatio (x.ratio.1 * y.ratio.1) (x.ratio.2 * y.ratio.2)

/-- The quotient, rounded; none when it is too large. -/
def div (x y : Binary64) : Option Binary64 :=
  ofRatio (x.ratio.1 * y.ratio.2) (x.ratio.2 * y.ratio.1)

/-- The number nearest to ten to the power `n`; none past the largest finite one. -/
def tenPower (n : Nat) : Option Binary64 := ofRatio (Nat.pow 10 n) 1

/-- The largest power of ten a binary64 number can stand for. -/
def maxTenPower : Nat := 308

/-- `x * 10 ^ n`, rounding the power and the product; none when it is too large. -/
def scaleUp (x : Binary64) (n : Nat) : Option Binary64 :=
  if maxTenPower < n then if x.isZero then some x else none
  else (tenPower n).bind x.mul

/-- Divides by `10 ^ maxTenPower` as many times as said, stopping at zero. -/
def shrink : Nat → Binary64 → Binary64
  | 0, x => x
  | times + 1, x =>
    if x.isZero then x else shrink times (((tenPower maxTenPower).bind x.div).getD zero)

/-- `x / 10 ^ n`, in steps of at most `10 ^ maxTenPower`, rounding at each. -/
def scaleDown (x : Binary64) (n : Nat) : Binary64 :=
  let steps := (n - 1) / maxTenPower
  let x := shrink steps x
  ((tenPower (n - steps * maxTenPower)).bind x.div).getD zero

end Binary64

end Caju.Json
