import PeerWarden.Number.Decimal

/-!
# Shortest Decimals

Every finite double is written with the fewest digits that read back as the same double; among the
decimals with so few digits the nearest is taken, and of two equally near ones the larger. The decimals
that read back form an interval around the double. The search goes from coarse decimal grids to fine ones
and tries, on each grid, the two neighbours of the double.
-/

namespace PeerWarden.Number.Shortest

/-! ## The interval of a double

A decimal `c * 10 ^ p` and a binary bound `b * 2 ^ (q - 2)` are compared after both are multiplied by
`10 ^ (-p)⁺ * 2 ^ (2 - q)⁺`, which makes them naturals. The bounds are taken at a quarter of the spacing
`2 ^ q`, because just above a power of two the doubles below are twice as dense. -/

/-- What one unit of a decimal with exponent `p` weighs on the common scale. -/
def decimalWeight (p q : Int) : Nat := tenTo p.toNat * twoTo (2 - q).toNat

/-- What a quarter of the spacing `2 ^ q` weighs on the common scale. -/
def quarterWeight (p q : Int) : Nat := twoTo (q - 2).toNat * tenTo (-p).toNat

/-- The lower end of the interval of `m * 2 ^ q`, in quarters of the spacing. -/
def lowerQuarters (m : Nat) (q : Int) : Nat :=
  if m = Binary64.leadingOne ∧ Binary64.minExponent < q then 4 * m - 1 else 4 * m - 2

/-- Whether `c * 10 ^ p` is read as the double `m * 2 ^ q`. The ends of the interval belong to it exactly
    when the mantissa is even. -/
def readsBack (m : Nat) (q : Int) (c : Nat) (p : Int) : Bool :=
  let decimal := c * decimalWeight p q
  let lower := lowerQuarters m q * quarterWeight p q
  let upper := (4 * m + 2) * quarterWeight p q
  if m % 2 = 0 then lower ≤ decimal && decimal ≤ upper else lower < decimal && decimal < upper

/-! ## The search -/

/-- The neighbour of `m * 2 ^ q` on the grid of the multiples of `10 ^ p` that reads back, the nearer one
    if both do. -/
def onGrid? (m : Nat) (q p : Int) : Option Nat :=
  let value := 4 * m * quarterWeight p q
  let below := value / decimalWeight p q
  match readsBack m q below p, readsBack m q (below + 1) p with
  -- Halfway between the two the larger one is taken.
  | true, true =>
    if 2 * value < (2 * below + 1) * decimalWeight p q then some below else some (below + 1)
  | true, false => some below
  | false, true => some (below + 1)
  | false, false => none

/-- The decimal expansion of `m * 2 ^ q` to its last digit. -/
def exact (m : Nat) (q : Int) : Decimal :=
  if 0 ≤ q then { digits := m * twoTo q.toNat } else { digits := m * fiveTo (-q).toNat, exponent := q }

/-- Searches the grids `10 ^ p`, `10 ^ (p - 1)`, … and falls back on the exact expansion. -/
def search (m : Nat) (q : Int) : (grids : Nat) → (p : Int) → Decimal
  | 0, _ => exact m q
  | grids + 1, p =>
    match onGrid? m q p with
    | some c => { digits := c, exponent := p }
    | none => search m q grids (p - 1)

/-- A power of ten above `m * 2 ^ q`, from `log₁₀ 2 ≈ 0.30103`. -/
def topExponent (m : Nat) (q : Int) : Int := (q + m.log2 + 1) * 30103 / 100000 + 1

/-- The shortest decimal that reads back as the positive double `m * 2 ^ q`. Seventeen digits always
    suffice, and the first grid is at most two steps above the leading digit. -/
def decimal (m : Nat) (q : Int) : Decimal := search m q 20 (topExponent m q)

end PeerWarden.Number.Shortest
