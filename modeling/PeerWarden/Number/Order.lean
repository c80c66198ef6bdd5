import PeerWarden.Number.Binary64

/-!
# Order, Bounds and Means of Doubles

The comparisons and sums that trust scores and link measurements need. A double that is not a number is
smaller than nothing and larger than nothing, so each function says on which side such a value falls.
-/

namespace PeerWarden.Number

/-! ## Bounds -/

/-- The smaller of two doubles. An operand that is not a number gives way to the other one, and of two zeros
    the second is taken. -/
def lesser (x y : Float) : Float :=
  if x < y then x else if y.isNaN then x else y

/-- The larger of a number and a bound; the number is kept when they are equal. -/
def atLeast (bound x : Float) : Float := if x < bound then bound else x

/-- The value in `[0, 1]` nearest to a number. Both zeros lie in the interval. -/
def clampUnit (x : Float) : Float := if x < 0 then 0 else if 1 < x then 1 else x

/-! ## A total order

All doubles in one line: by value, a negative zero before the positive one. -/

/-- The place of a double in the total order: its magnitude bits, counted downwards from `-1` for a
    negative sign. -/
def rank (x : Float) : Int :=
  let bits : Nat := x.toBits.toNat
  if bits < Binary64.signBit then bits else (Binary64.signBit : Int) - 1 - bits

/-! ## Sums and means -/

/-- The sum from left to right. The sum of nothing is the negative zero, which is what addition leaves
    unchanged on both zeros. -/
def total (xs : List Float) : Float := xs.foldl (· + ·) (-0.0)

/-- The mean of some measurements, and zero when there is none. -/
def mean (xs : List Float) : Float :=
  if xs.isEmpty then 0 else xs.foldl (· + ·) 0 / Float.ofNat xs.length

end PeerWarden.Number
