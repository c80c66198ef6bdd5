import PeerWarden.Number.Power

/-!
# Exact Values of Doubles

A `Float` is read as an exact value `±mantissa · 2 ^ exponent`, and the double nearest to a quotient of
two naturals is found in exact arithmetic. Every text of a number, and every number read from a text, goes
through these two functions, so their meaning can be stated over naturals alone.

## Main definitions

- `roundHalfEven`: a quotient rounded to the nearest natural, a half to the even neighbour
- `Binary64.ofFloat`: the exact value of a double
- `Binary64.nearest`: the double nearest to a quotient, a half to the even mantissa
-/

namespace PeerWarden.Number

/-! ## Rounding -/

/-- The quotient `num / den` rounded to the nearest natural; a half goes to the even neighbour. -/
def roundHalfEven (num den : Nat) : Nat :=
  let whole := num / den
  let twice := 2 * (num % den)
  if twice < den then whole
  else if den < twice then whole + 1
  else whole + whole % 2

/-- A quotient without remainder is not changed by rounding. -/
theorem roundHalfEven_mul (n : Nat) {den : Nat} (h : 0 < den) : roundHalfEven (n * den) den = n := by
  simp [roundHalfEven, Nat.mul_div_cancel _ h, h]

/-! ## Doubles as exact values -/

/-- What a double stands for. The magnitude of a finite one is `mantissa * 2 ^ exponent`. -/
inductive Binary64 where
  | nan
  | infinite (negative : Bool)
  | finite (negative : Bool) (mantissa : Nat) (exponent : Int)
  deriving DecidableEq, Repr

namespace Binary64

/-- The exponent at which the smallest doubles are spaced. -/
def minExponent : Int := -1074

/-- The bit that is set for negative doubles. -/
def signBit : Nat := twoTo 63

/-- The leading one in front of a fraction; it is not among the bits. -/
def leadingOne : Nat := twoTo 52

/-- The magnitude bits of infinity; all smaller ones are finite. -/
def infinityBits : Nat := 2047 * leadingOne

/-- The exact value of a double: one sign bit, eleven exponent bits and fifty-two fraction bits.
    Doubles below `2 ^ (-1022)` have no leading one in front of their fraction. -/
def ofFloat (x : Float) : Binary64 :=
  let bits : Nat := x.toBits.toNat
  let negative := decide (signBit ≤ bits)
  let biased : Nat := bits / leadingOne % 2048
  let fraction : Nat := bits % leadingOne
  if biased = 2047 then
    if fraction = 0 then .infinite negative else .nan
  else if biased = 0 then
    .finite negative fraction minExponent
  else
    .finite negative (leadingOne + fraction) (minExponent + (biased - 1))

/-- The double `±mantissa * 2 ^ exponent`, where the mantissa has at most 53 bits, and exactly 53 above
    `minExponent`; anything too large is infinite. A mantissa of `2 ^ 53` carries into the exponent. -/
def toFloat (negative : Bool) (mantissa : Nat) (exponent : Int) : Float :=
  let magnitude := min ((exponent - minExponent).toNat * leadingOne + mantissa) infinityBits
  Float.ofBits (UInt64.ofNat ((if negative then signBit else 0) + magnitude))

/-- The exponent at which the doubles around `num / den` are spaced: the quotient has 53 bits in front of
    the point there, unless it lies among the smallest doubles. -/
def spacing (num den : Nat) : Int :=
  if num = 0 then minExponent
  else
    let guess : Int := (num.log2 : Int) - den.log2
    let tooHigh := num * twoTo (-guess).toNat < den * twoTo guess.toNat
    max ((if tooHigh then guess - 1 else guess) - 52) minExponent

/-- The double nearest to `±num / den`; of two nearest ones, that with the even mantissa. -/
def nearest (negative : Bool) (num den : Nat) : Float :=
  let exponent := spacing num den
  toFloat negative (roundHalfEven (num * twoTo (-exponent).toNat) (den * twoTo exponent.toNat)) exponent

end Binary64

end PeerWarden.Number
