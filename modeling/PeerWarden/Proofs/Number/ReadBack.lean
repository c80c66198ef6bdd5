import PeerWarden.Number.Text
import PeerWarden.Proofs.Number.Arithmetic

/-!
# Reading Back Doubles

A double is written as the shortest decimal in the interval of the numbers that are read as it. Here it is shown that
whatever lies in this interval is read as the double, and that the search for the shortest decimal never leaves it.

## Main definitions

- `ReadsAs`: a number lies in the interval of a double
- `Decimal.magnitude`: the number that a decimal stands for, apart from its sign

## Main statements

- `ReadsAs.rounds`: what lies in the interval is rounded to the mantissa of the double
- `Decimal.toFloat_of_readsAs`: a decimal in the interval is read as the double
- `Shortest.readsAs_decimal`: the shortest decimal lies in the interval
- `Binary64.toFloat_of_finite`: a double is put together from its exact value
-/

open Float.Model (Format)
open Float.Model.UnpackedFloat (unpackExponent unpackMantissa)

namespace PeerWarden.Number

/-! ## The bits of a double -/

namespace Binary64

/-- The cases of a double, its bits in plain numbers. -/
theorem ofFloat_eq (x : Float) : ofFloat x =
    if x.toBits.toNat / 4503599627370496 % 2048 = 2047 then
      if x.toBits.toNat % 4503599627370496 = 0 then .infinite (decide (9223372036854775808 ≤ x.toBits.toNat))
      else .nan
    else if x.toBits.toNat / 4503599627370496 % 2048 = 0 then
      .finite (decide (9223372036854775808 ≤ x.toBits.toNat)) (x.toBits.toNat % 4503599627370496) (-1074)
    else
      .finite (decide (9223372036854775808 ≤ x.toBits.toNat)) (4503599627370496 + x.toBits.toNat % 4503599627370496)
        (-1074 + ((x.toBits.toNat / 4503599627370496 % 2048 : ℕ) - 1)) := rfl

theorem toFloat_eq (negative : Bool) (m : ℕ) (q : ℤ) : toFloat negative m q =
    .ofBits (.ofNat ((if negative then 9223372036854775808 else 0) +
      min ((q + 1074).toNat * 4503599627370496 + m) 9218868437227405312)) := rfl

variable {x : Float} {negative : Bool} {m : ℕ} {q : ℤ}

theorem ofBits_ofNat_toBits (x : Float) : Float.ofBits (.ofNat x.toBits.toNat) = x := by
  rw [UInt64.ofNat_toNat, Float.ofBits_toBits]

/-- A finite double is put together from its parts. -/
theorem toFloat_of_finite (h : ofFloat x = .finite negative m q) : toFloat negative m q = x := by
  have hbits : x.toBits.toNat < 18446744073709551616 := x.toBits.toNat_lt
  have hparts : (if negative then 9223372036854775808 else 0) +
      min ((q + 1074).toNat * 4503599627370496 + m) 9218868437227405312 = x.toBits.toNat := by
    rw [ofFloat_eq] at h
    split_ifs at h <;> cases h <;> simp only [decide_eq_true_eq] <;> split_ifs <;> omega
  rw [toFloat_eq, hparts, ofBits_ofNat_toBits]

theorem onGrid_of_finite (h : ofFloat x = .finite negative m q) : OnGrid m q ∧ q ≤ 971 := by
  rw [ofFloat_eq] at h
  split_ifs at h <;> cases h
  · exact ⟨⟨by omega, by omega, by omega⟩, by omega⟩
  · exact ⟨⟨by omega, by omega, by omega⟩, by omega⟩

/-- The two infinities. -/
theorem eq_of_infinite (h : ofFloat x = .infinite negative) : x = if negative then -1.0 / 0.0 else 1.0 / 0.0 := by
  have hbits : x.toBits.toNat < 18446744073709551616 := x.toBits.toNat_lt
  rw [ofFloat_eq] at h
  split_ifs at h
  cases h
  rw [← ofBits_ofNat_toBits x]
  by_cases hsign : 9223372036854775808 ≤ x.toBits.toNat
  · have hnat : x.toBits.toNat = 0xFFF0000000000000 := by omega
    rw [hnat]
    decide
  · have hnat : x.toBits.toNat = 0x7FF0000000000000 := by omega
    rw [hnat]
    decide

theorem toNat_unpackExponent (b : BitVec 64) :
    (@unpackExponent Format.binary64 b).toNat = b.toNat / 4503599627370496 % 2048 := by
  show (b.extractLsb 62 52).toNat = _
  rw [BitVec.extractLsb_toNat, Nat.shiftRight_eq_div_pow]

theorem toNat_unpackMantissa (b : BitVec 64) :
    (@unpackMantissa Format.binary64 b).toNat = b.toNat % 4503599627370496 := by
  show (b.extractLsb 51 0).toNat = _
  rw [BitVec.extractLsb_toNat, Nat.shiftRight_zero]

/-- A finite double is neither of the others. -/
theorem flags_of_finite (h : ofFloat x = .finite negative m q) : x.isNaN = false ∧ x.isInf = false := by
  have hexp : @unpackExponent Format.binary64 x.toModel.toBits.toBitVec ≠ -1#_ := by
    intro heq
    have hlast := toNat_unpackExponent x.toModel.toBits.toBitVec
    rw [heq] at hlast
    have hlast : x.toBits.toNat / 4503599627370496 % 2048 = 2047 := hlast.symm
    rw [ofFloat_eq, if_pos hlast] at h
    split_ifs at h
  show (Float.Model.UnpackedFloat.unpack _ _).isNaN = false ∧ (Float.Model.UnpackedFloat.unpack _ _).isInf = false
  dsimp only [Float.Model.UnpackedFloat.unpack]
  rw [if_neg hexp]
  split_ifs <;> exact ⟨rfl, rfl⟩

/-- There is one double that is not a number. -/
theorem eq_of_nan (h : ofFloat x = .nan) : x = 0.0 / 0.0 := by
  rw [ofFloat_eq] at h
  split_ifs at h with hlast hzero
  have hexp : @unpackExponent Format.binary64 x.toModel.toBits.toBitVec = -1#_ := by
    apply BitVec.eq_of_toNat_eq
    rw [toNat_unpackExponent]
    exact hlast
  have hman : @unpackMantissa Format.binary64 x.toModel.toBits.toBitVec ≠ 0#_ := by
    intro heq
    apply hzero
    exact (toNat_unpackMantissa x.toModel.toBits.toBitVec).symm.trans (by rw [heq]; rfl)
  have hbits := x.toModel.valid.eq_packedNaN hexp hman
  rw [← Float.ofBits_toBits x]
  have : x.toBits = 0x7FF8000000000000 := by
    apply UInt64.toBitVec_inj.mp
    exact hbits
  rw [this]
  decide

end Binary64

/-! ## Powers -/

theorem cast_twoTo (n : ℕ) : (twoTo n : ℚ) = 2 ^ n := Nat.cast_pow 2 n

theorem cast_tenTo (n : ℕ) : (tenTo n : ℚ) = 10 ^ n := Nat.cast_pow 10 n

/-- A power with any exponent is a quotient of two powers. -/
theorem zpow_eq_div {b : ℚ} (hb : b ≠ 0) (e : ℤ) : b ^ e = b ^ e.toNat / b ^ (-e).toNat := by
  rw [← zpow_natCast, ← zpow_natCast, ← zpow_sub₀ hb]
  congr 1
  omega

theorem two_zpow_eq_div (e : ℤ) : (2 : ℚ) ^ e = twoTo e.toNat / twoTo (-e).toNat := by
  rw [cast_twoTo, cast_twoTo, zpow_eq_div two_ne_zero]

theorem ten_zpow_eq_div (e : ℤ) : (10 : ℚ) ^ e = tenTo e.toNat / tenTo (-e).toNat := by
  rw [cast_tenTo, cast_tenTo, zpow_eq_div (by norm_num)]

/-! ## Rounding quotients -/

/-- Rounding a quotient of naturals is rounding the exact quotient. -/
theorem cast_roundHalfEven (num : ℕ) {den : ℕ} (hden : 0 < den) :
    (roundHalfEven num den : ℤ) = halfEven (num / den) := by
  have hpos : (0 : ℚ) < den := by exact_mod_cast hden
  have hfloor : ⌊(num / den : ℚ)⌋ = (num / den : ℕ) := Rat.floor_natCast_div_natCast num den
  have hsplit : (num : ℚ) = (num / den : ℕ) * den + (num % den : ℕ) := by
    exact_mod_cast (Nat.div_add_mod' num den).symm
  have hfract : Int.fract (num / den : ℚ) = (num % den : ℕ) / den := by
    rw [Int.fract, hfloor, Int.cast_natCast, sub_eq_iff_eq_add, div_eq_iff hpos.ne', add_mul,
      div_mul_cancel₀ _ hpos.ne']
    linarith
  have hbelow : Int.fract (num / den : ℚ) < 1 / 2 ↔ 2 * (num % den) < den := by
    rw [hfract, div_lt_div_iff₀ hpos two_pos, mul_comm, one_mul]
    exact_mod_cast Iff.rfl
  have habove : 1 / 2 < Int.fract (num / den : ℚ) ↔ den < 2 * (num % den) := by
    rw [hfract, div_lt_div_iff₀ two_pos hpos, one_mul, mul_comm]
    exact_mod_cast Iff.rfl
  simp only [halfEven, roundHalfEven, hbelow, habove, hfloor]
  split_ifs <;> push_cast <;> rfl

/-- What is within half a unit of a natural is rounded to it; at half a unit it has to be even. -/
theorem halfEven_eq {x : ℚ} {m : ℕ} (hlow : 2 * (m : ℚ) - 1 ≤ 2 * x) (hhigh : 2 * x ≤ 2 * m + 1)
    (heven : m % 2 = 0 ∨ 2 * (m : ℚ) - 1 < 2 * x ∧ 2 * x < 2 * m + 1) : halfEven x = m := by
  rcases lt_or_ge x m with hlt | hge
  · have hfloor : ⌊x⌋ = (m : ℤ) - 1 := Int.floor_eq_iff.mpr ⟨by push_cast; linarith, by push_cast; linarith⟩
    have hfract : Int.fract x = x - m + 1 := by
      rw [Int.fract, hfloor]
      push_cast
      ring
    unfold halfEven
    rw [hfloor, hfract]
    split_ifs with h1 h2
    · linarith
    · omega
    · -- A half below an even number is rounded up.
      have : m % 2 = 0 := heven.resolve_right fun h => by linarith
      omega
  · have hfloor : ⌊x⌋ = (m : ℤ) := Int.floor_eq_iff.mpr ⟨by exact_mod_cast hge, by push_cast; linarith⟩
    have hfract : Int.fract x = x - m := by rw [Int.fract, hfloor, Int.cast_natCast]
    unfold halfEven
    rw [hfloor, hfract]
    split_ifs with h1 h2
    · rfl
    · linarith
    · have : m % 2 = 0 := heven.resolve_right fun h => by linarith
      omega

namespace Binary64

/-- The magnitude of a quotient is known up to one, and a comparison tells which it is. -/
theorem spacing_eq {num den : ℕ} (hnum : 0 < num) (hden : 0 < den) : spacing num den = ulp (num / den) := by
  have hnum' : (0 : ℚ) < num := by exact_mod_cast hnum
  have hden' : (0 : ℚ) < den := by exact_mod_cast hden
  have hq : (0 : ℚ) < num / den := div_pos hnum' hden'
  set guess : ℤ := (num.log2 : ℤ) - den.log2 with hguess
  have hlow : guess - 1 ≤ Int.log 2 (num / den : ℚ) := by
    have := le_log_quotient hnum hden 0 0
    simp only [zpow_zero, mul_one, add_zero] at this
    exact this
  have hhigh : Int.log 2 (num / den : ℚ) < guess + 1 := by
    rw [← Int.lt_zpow_iff_log_lt one_lt_two hq, div_lt_iff₀ hden']
    have hn : (num : ℚ) < 2 ^ ((num.log2 : ℤ) + 1) := by
      have : Int.log 2 (num : ℚ) = num.log2 := by simpa using log_scaled hnum.ne' le_rfl (lt_add_one _) 0
      rw [← this]
      exact Int.lt_zpow_succ_log_self one_lt_two _
    have hd : (2 : ℚ) ^ (den.log2 : ℤ) ≤ den := by
      have : Int.log 2 (den : ℚ) = den.log2 := by simpa using log_scaled hden.ne' le_rfl (lt_add_one _) 0
      rw [← this]
      exact Int.zpow_log_le_self one_lt_two hden'
    calc (num : ℚ) < 2 ^ ((num.log2 : ℤ) + 1) := hn
      _ = 2 ^ (guess + 1) * 2 ^ (den.log2 : ℤ) := by
          rw [← zpow_add₀ two_ne_zero]
          congr 1
          omega
      _ ≤ 2 ^ (guess + 1) * den := mul_le_mul_of_nonneg_left hd (by positivity)
  have htoo : num * twoTo (-guess).toNat < den * twoTo guess.toNat ↔ Int.log 2 (num / den : ℚ) < guess := by
    rw [← Int.lt_zpow_iff_log_lt one_lt_two hq, Nat.cast_ofNat, two_zpow_eq_div, div_lt_div_iff₀ hden'
      (by exact_mod_cast twoTo_pos _), mul_comm (twoTo guess.toNat : ℚ)]
    exact_mod_cast Iff.rfl
  simp only [spacing, hnum.ne', if_false, ← hguess, htoo, ulp, abs_of_pos hq, minExponent]
  split_ifs <;> omega

/-- The nearest double has the nearest mantissa at the spacing of the quotient. -/
theorem nearest_eq (negative : Bool) {num den : ℕ} {m : ℕ} {q : ℤ} (hnum : 0 < num) (hden : 0 < den)
    (hq : ulp (num / den) = q) (hm : halfEven (num / den / 2 ^ q) = m) :
    Binary64.nearest negative num den = toFloat negative m q := by
  have hround : roundHalfEven (num * twoTo (-q).toNat) (den * twoTo q.toNat) = m := by
    have hcast := cast_roundHalfEven (num * twoTo (-q).toNat) (Nat.mul_pos hden (twoTo_pos q.toNat))
    have hdiv : ((num * twoTo (-q).toNat : ℕ) / (den * twoTo q.toNat : ℕ) : ℚ) = num / den / 2 ^ q := by
      have htwo (n : ℕ) : (twoTo n : ℚ) ≠ 0 := by exact_mod_cast (twoTo_pos n).ne'
      have := htwo q.toNat
      have := htwo (-q).toNat
      rw [two_zpow_eq_div]
      push_cast
      field_simp
    rw [hdiv, hm] at hcast
    exact_mod_cast hcast
  rw [Binary64.nearest, spacing_eq hnum hden, hq, hround]

/-- At the lower end of a binade the doubles below are twice as dense; a number just below it is rounded up to a
mantissa that carries into the exponent. -/
theorem toFloat_carry (negative : Bool) {q : ℤ} (hq : -1074 < q) :
    toFloat negative (2 ^ 53) (q - 1) = toFloat negative (2 ^ 52) q := by
  have hmagnitude : (q - 1 + 1074).toNat * 4503599627370496 + 2 ^ 53 =
      (q + 1074).toNat * 4503599627370496 + 2 ^ 52 := by
    omega
  rw [toFloat_eq, toFloat_eq, hmagnitude]

end Binary64

/-! ## The numbers that are read as a double -/

/-- A number lies in the interval of the double `m * 2 ^ q`, of which only an even mantissa owns the ends. -/
structure ReadsAs (v : ℚ) (m : ℕ) (q : ℤ) : Prop where
  low : Shortest.lowerQuarters m q * 2 ^ (q - 2) ≤ v
  high : v ≤ (4 * m + 2) * 2 ^ (q - 2)
  ends : m % 2 = 0 ∨ Shortest.lowerQuarters m q * 2 ^ (q - 2) < v ∧ v < (4 * m + 2) * 2 ^ (q - 2)

namespace ReadsAs

variable {v : ℚ} {m : ℕ} {q : ℤ}

theorem quarter (q : ℤ) : (2 : ℚ) ^ q = 4 * 2 ^ (q - 2) := by
  rw [zpow_sub₀ two_ne_zero]
  norm_num
  ring

/-- The lower end is at most half a spacing below the double, and a quarter if the doubles below are denser. -/
theorem lowerQuarters_cast (hm : 0 < m) : (Shortest.lowerQuarters m q : ℚ) =
    4 * m - if m = 2 ^ 52 ∧ -1074 < q then 1 else 2 := by
  unfold Shortest.lowerQuarters
  have hone : Binary64.leadingOne = 2 ^ 52 := rfl
  rw [hone, Binary64.minExponent]
  split_ifs
  · rw [Nat.cast_sub (by omega)]
    push_cast
    rfl
  · rw [Nat.cast_sub (by omega)]
    push_cast
    rfl

theorem pos (hm : 0 < m) (h : ReadsAs v m q) : 2 * 2 ^ (q - 2) ≤ v := by
  have hpos : (0 : ℚ) < 2 ^ (q - 2) := by positivity
  have hlow := h.low
  rw [lowerQuarters_cast hm] at hlow
  have hm' : (1 : ℚ) ≤ m := by exact_mod_cast hm
  refine le_trans (mul_le_mul_of_nonneg_right ?_ hpos.le) hlow
  split_ifs <;> linarith

/-- The double itself lies in its interval. -/
theorem self (hm : 0 < m) : ReadsAs (m * 2 ^ q) m q := by
  have hpos : (0 : ℚ) < 2 ^ (q - 2) := by positivity
  have hlow : (Shortest.lowerQuarters m q : ℚ) * 2 ^ (q - 2) < m * 2 ^ q := by
    rw [lowerQuarters_cast hm, quarter q, ← mul_assoc, mul_comm (m : ℚ)]
    refine mul_lt_mul_of_pos_right ?_ hpos
    split_ifs <;> linarith
  have hhigh : (m * 2 ^ q : ℚ) < (4 * m + 2) * 2 ^ (q - 2) := by
    rw [quarter q, ← mul_assoc, mul_comm (m : ℚ)]
    exact mul_lt_mul_of_pos_right (by linarith) hpos
  exact ⟨hlow.le, hhigh.le, .inr ⟨hlow, hhigh⟩⟩

theorem positive (h : ReadsAs v m q) (hm : 0 < m) : 0 < v := lt_of_lt_of_le (by positivity) (h.pos hm)

/-- From above the number stays within 53 bits. -/
theorem log_lt (h : ReadsAs v m q) (hm : 0 < m) (hgrid : OnGrid m q) : Int.log 2 v < q + 53 := by
  rw [← Int.lt_zpow_iff_log_lt one_lt_two (h.positive hm), Nat.cast_ofNat, zpow_add₀ two_ne_zero, quarter q]
  have hpos : (0 : ℚ) < 2 ^ (q - 2) := by positivity
  have hm' : (m : ℚ) + 1 ≤ 2 ^ 53 := by exact_mod_cast hgrid.lt
  have hcast : (2 : ℚ) ^ (53 : ℤ) = 2 ^ 53 := by norm_cast
  have hhigh := h.high
  rw [hcast]
  nlinarith

/-- What has the spacing of the double is rounded to its mantissa. -/
theorem rounds_near (h : ReadsAs v m q) (hm : 0 < m) (hgrid : OnGrid m q) (hnear : 2 ^ 52 * 2 ^ q ≤ v ∨ q = -1074) :
    ulp v = q ∧ halfEven (v / 2 ^ q) = m := by
  have hqpos : (0 : ℚ) < 2 ^ q := by positivity
  have hpos : (0 : ℚ) < 2 ^ (q - 2) := by positivity
  have hlog := h.log_lt hm hgrid
  have hge := hgrid.le
  have hulp : ulp v = q := by
    rw [ulp, abs_of_pos (h.positive hm)]
    rcases hnear with hnear | rfl
    · have : q + 52 ≤ Int.log 2 v := by
        rw [← Int.zpow_le_iff_le_log one_lt_two (h.positive hm), Nat.cast_ofNat, zpow_add₀ two_ne_zero, mul_comm]
        exact_mod_cast hnear
      omega
    · omega
  obtain ⟨hlow, hhigh, hends⟩ := h
  rw [lowerQuarters_cast hm] at hlow hends
  refine ⟨hulp, halfEven_eq ?_ ?_ (hends.imp_right fun hin => ?_)⟩
  · rw [← mul_div_assoc, le_div_iff₀ hqpos, quarter q]
    split_ifs at hlow <;> nlinarith
  · rw [← mul_div_assoc, div_le_iff₀ hqpos, quarter q]
    nlinarith
  · obtain ⟨hlow', hhigh'⟩ := hin
    rw [← mul_div_assoc, lt_div_iff₀ hqpos, div_lt_iff₀ hqpos, quarter q]
    constructor
    · split_ifs at hlow' <;> nlinarith
    · nlinarith

/-- What lies below a power of two is rounded to it from the denser doubles there. -/
theorem rounds_below (h : ReadsAs v m q) (hm : 0 < m) (hgrid : OnGrid m q) (hfar : v < 2 ^ 52 * 2 ^ q)
    (hq : -1074 < q) :
    m = 2 ^ 52 ∧ ulp v = q - 1 ∧ halfEven (v / 2 ^ (q - 1)) = (2 ^ 53 : ℕ) := by
  have hv := h.positive hm
  have hpos : (0 : ℚ) < 2 ^ (q - 2) := by positivity
  have hfull := hgrid.full
  obtain ⟨hlow, hhigh, -⟩ := h
  rw [lowerQuarters_cast hm] at hlow
  have hquarters := quarter q
  have hmant : m = 2 ^ 52 := by
    by_contra hmant
    have hm' : (2 : ℚ) ^ 52 + 1 ≤ m := by
      have : 2 ^ 52 + 1 ≤ m := by omega
      exact_mod_cast this
    rw [if_neg (fun h => hmant h.1)] at hlow
    nlinarith
  subst hmant
  rw [if_pos ⟨rfl, hq⟩] at hlow
  push_cast at hlow
  have hhalf : (2 : ℚ) ^ (q - 1) = 2 * 2 ^ (q - 2) := by
    rw [← zpow_one_add₀ two_ne_zero]
    congr 1
    ring
  have hhalfpos : (0 : ℚ) < 2 ^ (q - 1) := by positivity
  have hlog : Int.log 2 v = q + 51 := by
    apply le_antisymm
    · have : Int.log 2 v < q + 52 := by
        rw [← Int.lt_zpow_iff_log_lt one_lt_two hv, Nat.cast_ofNat, zpow_add₀ two_ne_zero, mul_comm]
        exact_mod_cast hfar
      omega
    · rw [← Int.zpow_le_iff_le_log one_lt_two hv, Nat.cast_ofNat, zpow_add₀ two_ne_zero, hquarters]
      have hcast : (2 : ℚ) ^ (51 : ℤ) = 2 ^ 51 := by norm_cast
      rw [hcast]
      nlinarith
  refine ⟨rfl, ?_, halfEven_eq ?_ ?_ (.inl (by norm_num))⟩
  · rw [ulp, abs_of_pos hv]
    omega
  · rw [← mul_div_assoc, le_div_iff₀ hhalfpos, hhalf]
    push_cast
    nlinarith
  · rw [← mul_div_assoc, div_le_iff₀ hhalfpos, hhalf]
    push_cast
    nlinarith

/-- What lies in the interval of a double is rounded to its mantissa, or to the next power of two one place further
down. -/
theorem rounds (h : ReadsAs v m q) (hm : 0 < m) (hgrid : OnGrid m q) :
    (ulp v = q ∧ halfEven (v / 2 ^ q) = m) ∨
      (m = 2 ^ 52 ∧ -1074 < q ∧ ulp v = q - 1 ∧ halfEven (v / 2 ^ (q - 1)) = (2 ^ 53 : ℕ)) := by
  by_cases hnear : 2 ^ 52 * 2 ^ q ≤ v ∨ q = -1074
  · exact .inl (h.rounds_near hm hgrid hnear)
  · obtain ⟨hfar, hne⟩ := not_or.mp hnear
    have hq : -1074 < q := lt_of_le_of_ne hgrid.le (Ne.symm hne)
    obtain ⟨hmant, hulp, hround⟩ := h.rounds_below hm hgrid (not_le.mp hfar) hq
    exact .inr ⟨hmant, hq, hulp, hround⟩

/-- What lies in the interval of a double is read as that double. -/
theorem nearest_eq {num den : ℕ} (h : ReadsAs (num / den) m q) (hm : 0 < m) (hgrid : OnGrid m q) (hnum : 0 < num)
    (hden : 0 < den) (negative : Bool) : Binary64.nearest negative num den = Binary64.toFloat negative m q := by
  obtain ⟨hulp, hround⟩ | ⟨rfl, hq, hulp, hround⟩ := h.rounds hm hgrid
  · exact Binary64.nearest_eq negative hnum hden hulp hround
  · rw [Binary64.nearest_eq negative hnum hden hulp hround, Binary64.toFloat_carry negative hq]

end ReadsAs

/-! ## Decimals -/

namespace Decimal

/-- The number that a decimal stands for, apart from its sign. -/
def magnitude (d : Decimal) : ℚ := d.digits * 10 ^ d.exponent

/-- The leading digit of a decimal tells its magnitude. -/
theorem magnitude_bounds {d : Decimal} (hd : 0 < d.digits) :
    (10 : ℚ) ^ (((Nat.toDigits 10 d.digits).length : ℤ) + d.exponent - 1) ≤ d.magnitude ∧
      d.magnitude < 10 ^ (((Nat.toDigits 10 d.digits).length : ℤ) + d.exponent) := by
  set len := (Nat.toDigits 10 d.digits).length with hlen
  have hlenpos : 0 < len := Nat.length_toDigits_pos
  have hhigh : d.digits < 10 ^ len := (Nat.length_toDigits_le_iff (by decide) hlenpos).mp hlen.ge
  have hlow : 10 ^ (len - 1) ≤ d.digits := by
    by_cases hone : len - 1 = 0
    · rw [hone]
      exact hd
    · by_contra hsmall
      have := (Nat.length_toDigits_le_iff (b := 10) (by decide) (Nat.pos_of_ne_zero hone)).mpr (not_le.mp hsmall)
      omega
  have hpos : (0 : ℚ) < 10 ^ d.exponent := by positivity
  constructor
  · have hsplit : (10 : ℚ) ^ ((len : ℤ) + d.exponent - 1) = 10 ^ (len - 1) * 10 ^ d.exponent := by
      rw [← zpow_natCast, ← zpow_add₀ (by norm_num)]
      congr 1
      omega
    rw [hsplit]
    exact mul_le_mul_of_nonneg_right (by exact_mod_cast hlow) hpos.le
  · rw [zpow_add₀ (by norm_num), zpow_natCast]
    exact mul_lt_mul_of_pos_right (by exact_mod_cast hhigh) hpos

/-- A decimal in the interval of a finite double is read as that double. -/
theorem toFloat_of_readsAs {d : Decimal} {m : ℕ} {q : ℤ} (h : ReadsAs d.magnitude m q) (hm : 0 < m)
    (hgrid : OnGrid m q) (hq : q ≤ 971) : d.toFloat = Binary64.toFloat d.negative m q := by
  have hquarter : (0 : ℚ) < 2 ^ (q - 2) := by positivity
  have hpos : 0 < d.magnitude := h.positive hm
  have hdigits : 0 < d.digits := by
    refine Nat.pos_of_ne_zero fun hzero => ?_
    simp [magnitude, hzero] at hpos
  obtain ⟨hlow, hhigh⟩ := magnitude_bounds hdigits
  set leading : ℤ := (Nat.toDigits 10 d.digits).length + d.exponent with hleading
  -- The smallest doubles are above the smaller bound, the largest ones below the larger bound.
  have hsmall : ¬leading ≤ -324 := fun hle => by
    have hbound : (2 : ℚ) ^ (-1075 : ℤ) ≤ d.magnitude :=
      calc (2 : ℚ) ^ (-1075 : ℤ) = 2 * 2 ^ (-1076 : ℤ) := zpow_one_add₀ two_ne_zero (-1076)
        _ ≤ 2 * 2 ^ (q - 2) :=
          mul_le_mul_of_nonneg_left (zpow_le_zpow_right₀ one_le_two (by have := hgrid.le; omega)) two_pos.le
        _ ≤ d.magnitude := h.pos hm
    have hten : (10 : ℚ) ^ leading ≤ 10 ^ (-324 : ℤ) := zpow_le_zpow_right₀ (by norm_num) hle
    have hpowers : (10 : ℚ) ^ (-324 : ℤ) ≤ 2 ^ (-1075 : ℤ) := by
      have hnat : twoTo 1075 ≤ tenTo 324 := by decide +kernel
      have hcast : (twoTo 1075 : ℚ) ≤ tenTo 324 := by exact_mod_cast hnat
      rw [cast_twoTo, cast_tenTo] at hcast
      exact inv_anti₀ (by positivity) hcast
    exact absurd (hbound.trans_lt (hhigh.trans_le (hten.trans hpowers))) (lt_irrefl _)
  have hlarge : ¬310 ≤ leading := fun hle => by
    have hbound : d.magnitude ≤ 2 ^ (1024 : ℤ) :=
      calc d.magnitude ≤ (4 * m + 2) * 2 ^ (q - 2) := h.high
        _ ≤ 2 ^ 55 * 2 ^ (969 : ℤ) := by
          have hm' : (m : ℚ) + 1 ≤ 2 ^ 53 := by exact_mod_cast hgrid.lt
          exact mul_le_mul (by linarith) (zpow_le_zpow_right₀ one_le_two (by omega)) hquarter.le (by norm_num)
        _ = 2 ^ (1024 : ℤ) := (zpow_add₀ two_ne_zero 55 969).symm
    have hten : (10 : ℚ) ^ (309 : ℤ) ≤ 10 ^ (leading - 1) := zpow_le_zpow_right₀ (by norm_num) (by omega)
    have hpowers : (2 : ℚ) ^ (1024 : ℤ) < 10 ^ (309 : ℤ) := by
      have hnat : twoTo 1024 < tenTo 309 := by decide +kernel
      have hcast : (twoTo 1024 : ℚ) < tenTo 309 := by exact_mod_cast hnat
      rwa [cast_twoTo, cast_tenTo] at hcast
    exact absurd (hpowers.trans_le (hten.trans (hlow.trans hbound))) (lt_irrefl _)
  have hquotient : d.magnitude = (d.digits * tenTo d.exponent.toNat : ℕ) / (tenTo (-d.exponent).toNat : ℕ) := by
    rw [magnitude, ten_zpow_eq_div, Nat.cast_mul, mul_div_assoc]
  rw [toFloat, if_neg (by omega), if_neg hlarge]
  rw [hquotient] at h
  exact h.nearest_eq hm hgrid (Nat.mul_pos hdigits (tenTo_pos _)) (tenTo_pos _) d.negative

/-- Zero is read as the zero of its sign. -/
theorem toFloat_of_zero {d : Decimal} (h : d.digits = 0) :
    d.toFloat = Binary64.toFloat d.negative 0 Binary64.minExponent := by
  rw [toFloat, if_pos (.inl h)]

end Decimal

/-! ## Shortest decimals -/

namespace Shortest

variable {m c : ℕ} {q p : ℤ}

/-- The factor by which decimals and bounds are multiplied before they are compared. -/
def scale (p q : ℤ) : ℕ := tenTo (-p).toNat * twoTo (2 - q).toNat

theorem scale_pos (p q : ℤ) : (0 : ℚ) < scale p q := by
  exact_mod_cast Nat.mul_pos (tenTo_pos _) (twoTo_pos _)

theorem decimalWeight_eq (p q : ℤ) : (decimalWeight p q : ℚ) = 10 ^ p * scale p q := by
  have hten : (tenTo (-p).toNat : ℚ) ≠ 0 := by exact_mod_cast (tenTo_pos _).ne'
  rw [decimalWeight, scale, ten_zpow_eq_div]
  push_cast
  field_simp

theorem quarterWeight_eq (p q : ℤ) : (quarterWeight p q : ℚ) = 2 ^ (q - 2) * scale p q := by
  have htwo : (twoTo (2 - q).toNat : ℚ) ≠ 0 := by exact_mod_cast (twoTo_pos _).ne'
  rw [quarterWeight, scale, two_zpow_eq_div, neg_sub]
  push_cast
  field_simp

/-- The comparison of naturals decides whether a decimal lies in the interval. -/
theorem readsAs_of_readsBack (h : readsBack m q c p = true) : ReadsAs (c * 10 ^ p) m q := by
  have hscale := scale_pos p q
  have hlow : (lowerQuarters m q * quarterWeight p q ≤ c * decimalWeight p q ↔
      (lowerQuarters m q : ℚ) * 2 ^ (q - 2) ≤ c * 10 ^ p) ∧
    (lowerQuarters m q * quarterWeight p q < c * decimalWeight p q ↔
      (lowerQuarters m q : ℚ) * 2 ^ (q - 2) < c * 10 ^ p) := by
    rw [← mul_le_mul_iff_left₀ hscale, ← mul_lt_mul_iff_left₀ hscale, mul_assoc, mul_assoc, ← quarterWeight_eq,
      ← decimalWeight_eq]
    constructor <;> exact_mod_cast Iff.rfl
  have hhigh : (c * decimalWeight p q ≤ (4 * m + 2) * quarterWeight p q ↔
      (c : ℚ) * 10 ^ p ≤ (4 * m + 2) * 2 ^ (q - 2)) ∧ (c * decimalWeight p q < (4 * m + 2) * quarterWeight p q ↔
      (c : ℚ) * 10 ^ p < (4 * m + 2) * 2 ^ (q - 2)) := by
    rw [← mul_le_mul_iff_left₀ hscale, ← mul_lt_mul_iff_left₀ hscale, mul_assoc, mul_assoc, ← quarterWeight_eq,
      ← decimalWeight_eq]
    constructor <;> exact_mod_cast Iff.rfl
  unfold readsBack at h
  split_ifs at h with heven <;>
    simp only [Bool.and_eq_true, decide_eq_true_eq, hlow.1, hlow.2, hhigh.1, hhigh.2] at h
  · exact ⟨h.1, h.2, .inl heven⟩
  · exact ⟨h.1.le, h.2.le, .inr h⟩

theorem readsBack_of_onGrid? (h : onGrid? m q p = some c) : readsBack m q c p = true := by
  unfold onGrid? at h
  dsimp only at h
  split at h
  · split_ifs at h <;> cases h <;> assumption
  · cases h
    assumption
  · cases h
    assumption
  · cases h

theorem magnitude_exact (m : ℕ) (q : ℤ) : (exact m q).magnitude = m * 2 ^ q := by
  unfold exact Decimal.magnitude
  split_ifs with hq
  · rw [two_zpow_eq_div, show (-q).toNat = 0 by omega]
    simp
  · obtain ⟨n, hn⟩ : ∃ n : ℕ, q = -n := ⟨(-q).toNat, by omega⟩
    have hfive : (fiveTo n : ℚ) = 5 ^ n := Nat.cast_pow 5 n
    have hten : (10 : ℚ) ^ n = 2 ^ n * 5 ^ n := by rw [← mul_pow]; norm_num
    subst hn
    rw [neg_neg, Int.toNat_natCast, zpow_neg, zpow_neg, zpow_natCast, zpow_natCast, Nat.cast_mul, hfive, hten]
    field_simp

/-- Whatever the search finds is read as the double. -/
theorem readsAs_search (hm : 0 < m) (grids : ℕ) (p : ℤ) : ReadsAs (search m q grids p).magnitude m q := by
  induction grids generalizing p with
  | zero =>
    rw [search, magnitude_exact]
    exact .self hm
  | succ grids ih =>
    rw [search]
    split
    · next c hc => exact readsAs_of_readsBack (readsBack_of_onGrid? hc)
    · exact ih (p - 1)

/-- The shortest decimal is read as the double. -/
theorem readsAs_decimal (hm : 0 < m) (q : ℤ) : ReadsAs (decimal m q).magnitude m q := readsAs_search hm _ _

end Shortest

end PeerWarden.Number
