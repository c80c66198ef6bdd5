import PeerWarden.Number.Shortest

/-!
# Texts of Numbers

The two ways in which the program writes a number: in full (`plain`), with the fewest digits that read back,
and rounded to a fixed count of places (`fixed`). Zero keeps its sign in both.
-/

namespace PeerWarden.Number

/-- A minus sign for negative numbers, zero included. -/
def signed (negative : Bool) (magnitude : String) : String :=
  if negative then "-" ++ magnitude else magnitude

/-- The text of a finite number is given by `magnitude`; the others are `NaN`, `inf` and `-inf`. -/
def textWith (magnitude : Nat → Int → String) (x : Float) : String :=
  match Binary64.ofFloat x with
  | .nan => "NaN"
  | .infinite negative => signed negative "inf"
  | .finite negative m q => signed negative (magnitude m q)

/-- The shortest text that reads back as the same double, never with an exponent. -/
def plain : Float → String :=
  textWith fun m q =>
    if m = 0 then "0"
    else
      let d := Shortest.decimal m q
      Decimal.positional d.digits d.exponent

/-- The exact value rounded to a fixed count of decimal places, a half to the even neighbour. -/
def fixed (places : Nat) : Float → String :=
  textWith fun m q =>
    Decimal.positional (roundHalfEven (m * twoTo q.toNat * tenTo places) (twoTo (-q).toNat)) (-(places : Int))

end PeerWarden.Number
