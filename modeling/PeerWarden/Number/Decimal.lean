import PeerWarden.Number.Binary64

/-!
# Decimals

A decimal `±digits · 10 ^ exponent`, the double it is read as, and its positional text. Nothing here writes
an exponent: a number of three hundred digits is written with three hundred digits.
-/

namespace PeerWarden.Number

/-- The number `±digits * 10 ^ exponent`. -/
structure Decimal where
  negative : Bool := false
  digits : Nat
  exponent : Int := 0
  deriving DecidableEq, Repr

/-- The value of a run of decimal digits, most significant first. -/
def ofDigits (digits : List Char) : Nat :=
  digits.foldl (fun n c => 10 * n + (c.toNat - '0'.toNat)) 0

namespace Decimal

/-! ## Reading -/

/-- The double nearest to a decimal. A magnitude of at least `10 ^ 309` is above all finite doubles, and
    one below `10 ^ (-324)` is nearer to zero than to any other double; between the two the quotient is
    exact. -/
def toFloat (d : Decimal) : Float :=
  let leading : Int := (Nat.toDigits 10 d.digits).length + d.exponent
  if d.digits = 0 ∨ leading ≤ -324 then Binary64.toFloat d.negative 0 Binary64.minExponent
  else if 310 ≤ leading then Binary64.toFloat d.negative Binary64.infinityBits Binary64.minExponent
  else Binary64.nearest d.negative (d.digits * tenTo d.exponent.toNat) (tenTo (-d.exponent).toNat)

/-! ## Writing -/

/-- The text of `digits * 10 ^ exponent`: all digits up to the unit, and behind the point exactly as many
    places as a negative exponent asks for. -/
def positional (digits : Nat) : Int → String
  | .ofNat zeros => toString (digits * tenTo zeros)
  | .negSucc n =>
    let places := n + 1
    let behind := toString (digits % tenTo places)
    toString (digits / tenTo places) ++ "." ++ "".pushn '0' (places - behind.length) ++ behind

end Decimal

end PeerWarden.Number
