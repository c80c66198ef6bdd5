import PeerWarden.Number.Decimal
import PeerWarden.Toml.Lexical

/-!
# Numbers in Documents

Integers in four bases, and reals with a fraction, an exponent or a name. A number with a fraction or an
exponent is real whatever its value; one without is an integer of 64 bits.
-/

namespace PeerWarden.Toml

open PeerWarden.Number (Decimal)

/-! ## Integers -/

/-- An integer, if it has 64 bits. -/
def integer? (n : Int) : Option Scalar :=
  if minInteger ≤ n ∧ n ≤ maxInteger then some (.integer n) else none

/-- An integer in a base other than ten. It has no sign. -/
def basedInteger (base : Nat) (isDigit : Char → Bool) : Reader Scalar := fun s => do
  let (digits, rest) ← someDigits isDigit s
  let n ← integer? (Number.valueIn base digits)
  return (n, rest)

/-! ## Reals -/

/-- The digits in front of the point. Nothing but a single zero starts with a zero. -/
def wholeDigits : Reader (List Char)
  | '0' :: rest => some (['0'], rest)
  | s => someDigits Char.isDigit s

/-- The digits behind the point, if there is a point. -/
def fraction : Reader (Option (List Char))
  | '.' :: rest => (someDigits Char.isDigit rest).map fun (digits, rest) => (some digits, rest)
  | s => some (none, s)

/-- The digits of an exponent and its sign. -/
def exponentDigits : Reader Int
  | '-' :: rest => (someDigits Char.isDigit rest).map fun (digits, rest) => (-(Number.valueIn 10 digits : Int), rest)
  | '+' :: rest => (someDigits Char.isDigit rest).map fun (digits, rest) => ((Number.valueIn 10 digits : Int), rest)
  | s => (someDigits Char.isDigit s).map fun (digits, rest) => ((Number.valueIn 10 digits : Int), rest)

/-- The exponent, if there is one. -/
def exponent : Reader (Option Int)
  | 'e' :: rest => (exponentDigits rest).map fun (n, rest) => (some n, rest)
  | 'E' :: rest => (exponentDigits rest).map fun (n, rest) => (some n, rest)
  | s => some (none, s)

/-- The value of a number from its parts. A real too large for a double is refused when it is positive, and
    infinite when it is negative. -/
def assemble? (negative : Bool) (whole : List Char) : Option (List Char) → Option Int → Option Scalar
  | none, none =>
    let n : Int := Number.valueIn 10 whole
    integer? (if negative then -n else n)
  | places, exponent =>
    let behind := places.getD []
    let d : Decimal :=
      { negative
        digits := Number.valueIn 10 (whole ++ behind)
        exponent := exponent.getD 0 - behind.length }
    let x := d.toFloat
    if x.isInf && !negative then none else some (.real x)

/-- A number in base ten behind its sign. -/
def decimalNumber (negative : Bool) : Reader Scalar := fun s => do
  let (whole, s) ← wholeDigits s
  let (places, s) ← fraction s
  let (exponent, s) ← exponent s
  let value ← assemble? negative whole places exponent
  return (value, s)

/-- A number behind its sign: one of the two named reals, or a number in base ten. -/
def unsignedNumber (negative : Bool) : Reader Scalar
  | 'i' :: 'n' :: 'f' :: rest => some (.real (if negative then -1.0 / 0.0 else 1.0 / 0.0), rest)
  | 'n' :: 'a' :: 'n' :: rest => some (.real (0.0 / 0.0), rest)
  | s => decimalNumber negative s

/-- A number. -/
def number : Reader Scalar
  | '0' :: 'x' :: rest => basedInteger 16 Number.isHexDigit rest
  | '0' :: 'o' :: rest => basedInteger 8 Number.isOctalDigit rest
  | '0' :: 'b' :: rest => basedInteger 2 Number.isBinaryDigit rest
  | '+' :: rest => unsignedNumber false rest
  | '-' :: rest => unsignedNumber true rest
  | s => unsignedNumber false s

end PeerWarden.Toml
