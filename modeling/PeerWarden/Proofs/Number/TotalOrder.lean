import PeerWarden.Number.Order
import PeerWarden.Proofs.Number.ReadBack

/-!
# The Total Order of Doubles

All doubles stand in one line by their bits. For finite doubles this is the order of their values: read as naturals,
the bits behind the sign count the doubles from zero upwards. Only the two zeros, which are equal as numbers, have
different places.

## Main definitions

- `gridPlace`: the place of a value on the grid

## Main statements

- `Binary64.value_of_finite`: the value of a finite double, put together from its parts
- `OnGrid.le_of_gridPlace_le`: the places are in the order of the values
- `rank_injective`: the order is total on all doubles
- `le_of_rank_le`: the total order refines the order by value
-/

open Float.Model (Format)
open Float.Model.UnpackedFloat

namespace PeerWarden.Number

/-! ## Values and bits -/

namespace Binary64

variable {x : Float} {negative : Bool} {m : ℕ} {q : ℤ}

theorem signFactor_unpackSign (b : BitVec 64) : signFactor (Sign.ofBitVec (@unpackSign Format.binary64 b)) =
    if decide (9223372036854775808 ≤ b.toNat) = true then -1 else 1 := by
  have hbits := b.isLt
  have hsign : (@unpackSign Format.binary64 b).toNat = b.toNat / 9223372036854775808 % 2 := by
    show (b.extractLsb 63 63).toNat = _
    rw [BitVec.extractLsb_toNat, Nat.shiftRight_eq_div_pow]
  have hpositive : @unpackSign Format.binary64 b = 0#1 ↔ ¬9223372036854775808 ≤ b.toNat := by
    rw [← BitVec.toNat_inj, hsign]
    show _ % 2 = 0 ↔ _
    omega
  simp only [Sign.ofBitVec, hpositive, decide_eq_true_eq]
  split_ifs <;> rfl

/-- The value of a finite double, put together from its parts. -/
theorem value_of_finite (h : ofFloat x = .finite negative m q) :
    value x = (if negative then -1 else 1) * (m * 2 ^ q) := by
  have hsign : signFactor (Sign.ofBitVec (@unpackSign Format.binary64 x.toModel.toBits.toBitVec)) =
      if decide (9223372036854775808 ≤ x.toBits.toNat) = true then -1 else 1 := signFactor_unpackSign _
  have hexponent : (@unpackExponent Format.binary64 x.toModel.toBits.toBitVec).toNat =
      x.toBits.toNat / 4503599627370496 % 2048 := toNat_unpackExponent _
  have hmantissa : (@unpackMantissa Format.binary64 x.toModel.toBits.toBitVec).toNat =
      x.toBits.toNat % 4503599627370496 := toNat_unpackMantissa _
  have hlast : @unpackExponent Format.binary64 x.toModel.toBits.toBitVec = -1#_ ↔
      x.toBits.toNat / 4503599627370496 % 2048 = 2047 := by
    rw [← BitVec.toNat_inj, hexponent]
    exact Iff.rfl
  have hfirst : @unpackExponent Format.binary64 x.toModel.toBits.toBitVec = 0#_ ↔
      x.toBits.toNat / 4503599627370496 % 2048 = 0 := by
    rw [← BitVec.toNat_inj, hexponent]
    exact Iff.rfl
  have hbias : (Format.binary64.exponentBias : ℤ) + Format.binary64.mantissaBitsWithoutImplicit = 1075 := rfl
  rw [ofFloat_eq] at h
  show unpackedValue (unpack .binary64 x.toModel.toBits.toBitVec) = _
  dsimp only [unpack]
  generalize hnegative : decide (9223372036854775808 ≤ x.toBits.toNat) = sign at h hsign
  split_ifs at h with hnone _ hsmall
  · -- Among the smallest doubles there are two zeros.
    cases h
    rw [if_neg (mt hlast.mp hnone), if_pos (hfirst.mpr hsmall)]
    by_cases hzero : @unpackMantissa Format.binary64 x.toModel.toBits.toBitVec = 0#_
    · have hnothing : x.toBits.toNat % 4503599627370496 = 0 := by
        rw [← hmantissa, hzero]
        rfl
      rw [dif_pos hzero, hnothing]
      simp
    · rw [dif_neg hzero, unpackedValue_finite, hsign, hmantissa, hexponent, hsmall]
      rfl
  · cases h
    rw [if_neg (mt hlast.mp hnone), if_neg (mt hfirst.mp hsmall), unpackedValue_finite, leadingOne_append, hsign, hmantissa,
      hexponent, hbias, show ∀ biased : ℤ, biased - 1075 = -1074 + (biased - 1) by intro biased; ring]
    norm_num

theorem exists_finite (h : x.isFinite = true) : ∃ negative m q, ofFloat x = .finite negative m q := by
  cases hx : ofFloat x with
  | finite negative m q => exact ⟨negative, m, q, rfl⟩
  | nan =>
    rw [eq_of_nan hx] at h
    exact absurd h (by decide)
  | infinite negative =>
    rw [eq_of_infinite hx] at h
    cases negative <;> exact absurd h (by decide)

end Binary64

/-! ## The total order -/

/-- The place of a value on the grid, counted from zero. -/
def gridPlace (m : ℕ) (q : ℤ) : ℤ := (q + 1074) * 4503599627370496 + m

theorem OnGrid.gridPlace_nonneg {m : ℕ} {q : ℤ} (h : OnGrid m q) : 0 ≤ gridPlace m q := by
  have := h.le
  unfold gridPlace
  omega

/-- On the grid the places are in the order of the values. -/
theorem OnGrid.le_of_gridPlace_le {m₁ m₂ : ℕ} {q₁ q₂ : ℤ} (h₁ : OnGrid m₁ q₁) (h₂ : OnGrid m₂ q₂)
    (h : gridPlace m₁ q₁ ≤ gridPlace m₂ q₂) : (m₁ * 2 ^ q₁ : ℚ) ≤ m₂ * 2 ^ q₂ := by
  unfold gridPlace at h
  rcases lt_trichotomy q₁ q₂ with hq | rfl | hq
  · exact (h₁.lt_of_exponent_lt h₂ hq).le
  · have hm : m₁ ≤ m₂ := by omega
    exact mul_le_mul_of_nonneg_right (by exact_mod_cast hm) (by positivity)
  · -- The larger exponent comes with a leading one, which no mantissa makes up for.
    have hfull := h₁.full
    have hlt := h₂.lt
    have hle := h₂.le
    omega

namespace Binary64

variable {x : Float} {negative : Bool} {m : ℕ} {q : ℤ}

/-- A negative double is as far below `-1` as its magnitude is above zero. -/
theorem rank_of_finite (h : ofFloat x = .finite negative m q) :
    rank x = if negative then -1 - gridPlace m q else gridPlace m q := by
  have hbits : x.toBits.toNat < 18446744073709551616 := x.toBits.toNat_lt
  have hsign : signBit = 9223372036854775808 := rfl
  simp only [rank, hsign, gridPlace]
  rw [ofFloat_eq] at h
  -- Behind the sign, the exponent and the mantissa stand next to each other as they do in a place.
  split_ifs at h <;> cases h <;> simp only [decide_eq_true_eq] <;> split_ifs <;> omega

end Binary64

/-- No two doubles share a place in the total order. -/
theorem rank_injective : Function.Injective rank := by
  intro x y h
  have hx : x.toBits.toNat < 18446744073709551616 := x.toBits.toNat_lt
  have hy : y.toBits.toNat < 18446744073709551616 := y.toBits.toNat_lt
  have hsign : Binary64.signBit = 9223372036854775808 := rfl
  simp only [rank, hsign] at h
  have hbits : x.toBits.toNat = y.toBits.toNat := by
    split_ifs at h <;> omega
  rw [← Binary64.ofBits_ofNat_toBits x, hbits, Binary64.ofBits_ofNat_toBits]

variable {x y : Float}

/-- **The total order refines the order by value** on finite doubles. -/
theorem le_of_rank_le (hx : x.isFinite = true) (hy : y.isFinite = true) (h : rank x ≤ rank y) : x ≤ y := by
  obtain ⟨s, m, q, hxs⟩ := Binary64.exists_finite hx
  obtain ⟨t, n, r, hyt⟩ := Binary64.exists_finite hy
  have hm := (Binary64.onGrid_of_finite hxs).1
  have hn := (Binary64.onGrid_of_finite hyt).1
  have hmplace := hm.gridPlace_nonneg
  have hnplace := hn.gridPlace_nonneg
  have hmvalue : (0 : ℚ) ≤ m * 2 ^ q := by positivity
  have hnvalue : (0 : ℚ) ≤ n * 2 ^ r := by positivity
  rw [Binary64.rank_of_finite hxs, Binary64.rank_of_finite hyt] at h
  rw [le_iff_value_le (isNaN_eq_false_of_isFinite hx) (isNaN_eq_false_of_isFinite hy), Binary64.value_of_finite hxs,
    Binary64.value_of_finite hyt]
  cases s <;> cases t <;> simp only [if_true, if_false, Bool.false_eq_true] at h ⊢
  case false.false =>
    have := hm.le_of_gridPlace_le hn h
    linarith
  case false.true => omega  -- All places with a sign are below those without one.
  case true.false => linarith
  case true.true =>
    -- With a sign, the order of the magnitudes is turned round.
    have := hn.le_of_gridPlace_le hm (by omega)
    linarith

end PeerWarden.Number
