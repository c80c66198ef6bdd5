import PeerWarden.Proofs.Number.Packing

/-!
# Order and Arithmetic of Doubles

Comparing doubles is comparing their values, and each operation gives the double nearest to the exact result.
With `rounded_mono` this is all that is needed to carry an inequality between exact results over to doubles.

## Main statements

- `le_iff_value_le`, `lt_iff_value_lt`: the order of doubles
- `IsNearest.le`: rounding keeps inequalities
- `isNearest_mul`, `isNearest_div`, `isNearest_sub`, `isNearest_ofNat`: the operations
-/

open Float.Model (Format totalExponent UnpackedFloat)
open Float.Model.UnpackedFloat

namespace PeerWarden.Number

/-! ## Order -/

/-- Above the smallest doubles the larger exponent has the larger value, whatever the mantissas are. -/
theorem OnGrid.lt_of_exponent_lt {m₁ m₂ : ℕ} {e₁ e₂ : ℤ} (h₁ : OnGrid m₁ e₁) (h₂ : OnGrid m₂ e₂) (h : e₁ < e₂) :
    (m₁ * 2 ^ e₁ : ℚ) < m₂ * 2 ^ e₂ := by
  have hm₁ : (m₁ : ℚ) < 2 ^ 53 := by exact_mod_cast h₁.lt
  have hm₂ : (2 ^ 52 : ℚ) ≤ m₂ := by exact_mod_cast h₂.full.resolve_right (by have := h₁.le; omega)
  calc (m₁ * 2 ^ e₁ : ℚ) < 2 ^ 53 * 2 ^ e₁ := mul_lt_mul_of_pos_right hm₁ (by positivity)
    _ = 2 ^ 52 * 2 ^ (e₁ + 1) := by rw [zpow_add_one₀ two_ne_zero]; ring
    _ ≤ 2 ^ 52 * 2 ^ e₂ := mul_le_mul_of_nonneg_left (zpow_le_zpow_right₀ one_le_two (by omega)) (by positivity)
    _ ≤ m₂ * 2 ^ e₂ := mul_le_mul_of_nonneg_right hm₂ (by positivity)

/-- Comparing exponents and then mantissas compares the values. -/
theorem OnGrid.compare_eq {m₁ m₂ : ℕ} {e₁ e₂ : ℤ} (h₁ : OnGrid m₁ e₁) (h₂ : OnGrid m₂ e₂) :
    (compare e₁ e₂).then (compare m₁ m₂) = compare (m₁ * 2 ^ e₁ : ℚ) (m₂ * 2 ^ e₂) := by
  rcases lt_trichotomy e₁ e₂ with he | rfl | he
  · rw [compare_lt_iff_lt.mpr he, compare_lt_iff_lt.mpr (h₁.lt_of_exponent_lt h₂ he)]
    rfl
  · -- With one exponent the mantissas decide.
    have hpos : (0 : ℚ) < 2 ^ e₁ := by positivity
    rw [compare_eq_iff_eq.mpr rfl]
    rcases lt_trichotomy m₁ m₂ with hm | rfl | hm
    · rw [compare_lt_iff_lt.mpr hm, compare_lt_iff_lt.mpr (mul_lt_mul_of_pos_right (by exact_mod_cast hm) hpos)]
      rfl
    · rw [compare_eq_iff_eq.mpr rfl, compare_eq_iff_eq.mpr rfl]
      rfl
    · rw [compare_gt_iff_gt.mpr hm,
        compare_gt_iff_gt.mpr (mul_lt_mul_of_pos_right (by exact_mod_cast hm) hpos)]
      rfl
  · rw [compare_gt_iff_gt.mpr he, compare_gt_iff_gt.mpr (h₂.lt_of_exponent_lt h₁ he)]
    rfl

theorem compare_neg_neg (q r : ℚ) : compare (-q) (-r) = (compare q r).swap := by
  rcases lt_trichotomy q r with h | rfl | h
  · rw [compare_lt_iff_lt.mpr h, compare_gt_iff_gt.mpr (neg_lt_neg h)]
    rfl
  · rw [compare_eq_iff_eq.mpr rfl, compare_eq_iff_eq.mpr rfl]
    rfl
  · rw [compare_gt_iff_gt.mpr h, compare_lt_iff_lt.mpr (neg_lt_neg h)]
    rfl

theorem abs_lt_overflow {u : UnpackedFloat} (h : IsStored u) (hfin : u.isFinite = true) :
    |unpackedValue u| < overflow := by
  cases u with
  | infinity s => cases hfin
  | notANumber => cases hfin
  | zero s => simpa using overflow_pos
  | finite s m e hm =>
    have hsign : |signFactor s| = 1 := by cases s <;> simp
    have hpos : (0 : ℚ) < m * 2 ^ e := by positivity
    rw [unpackedValue_finite, abs_mul, hsign, one_mul, abs_of_pos hpos]
    exact h.1.lt_overflow h.2

/-- Comparing what was unpacked is comparing the values. -/
theorem compare_unpacked {u v : UnpackedFloat} (hu : IsStored u) (hv : IsStored v) (hnu : u.isNaN = false)
    (hnv : v.isNaN = false) : u.compare v = some (compare (unpackedValue u) (unpackedValue v)) := by
  have hlt {q r : ℚ} (h : q < r) : some Ordering.lt = some (compare q r) := by rw [compare_lt_iff_lt.mpr h]
  have hgt {q r : ℚ} (h : r < q) : some Ordering.gt = some (compare q r) := by rw [compare_gt_iff_gt.mpr h]
  have heq {q r : ℚ} (h : q = r) : some Ordering.eq = some (compare q r) := by rw [compare_eq_iff_eq.mpr h]
  have hbound := overflow_pos
  have hmag {m : ℕ} (e : ℤ) (hm : 0 < m) : (0 : ℚ) < m * 2 ^ e := by positivity
  -- Signs and infinities decide by themselves; only two finite values of one sign need the grid.
  cases u with
  | notANumber => cases hnu
  | infinity s₁ =>
    cases v with
    | notANumber => cases hnv
    | infinity s₂ =>
      cases s₁ <;> cases s₂
      · exact heq rfl
      · exact hlt (by simp only [unpackedValue, signFactor]; linarith)
      · exact hgt (by simp only [unpackedValue, signFactor]; linarith)
      · exact heq rfl
    | zero s₂ =>
      cases s₁
      · exact hlt (by simp only [unpackedValue, signFactor]; linarith)
      · exact hgt (by simp only [unpackedValue, signFactor]; linarith)
    | finite s₂ m₂ e₂ hm₂ =>
      obtain ⟨hlow, hhigh⟩ := abs_lt.mp (abs_lt_overflow hv rfl)
      cases s₁
      · exact hlt (by simp only [unpackedValue_infinity, signFactor]; linarith)
      · exact hgt (by simp only [unpackedValue_infinity, signFactor]; linarith)
  | zero s₁ =>
    cases v with
    | notANumber => cases hnv
    | infinity s₂ =>
      cases s₂
      · exact hgt (by simp only [unpackedValue, signFactor]; linarith)
      · exact hlt (by simp only [unpackedValue, signFactor]; linarith)
    | zero s₂ => exact heq rfl
    | finite s₂ m₂ e₂ hm₂ =>
      have := hmag e₂ hm₂
      cases s₂
      · exact hgt (by simp only [unpackedValue, signFactor]; linarith)
      · exact hlt (by simp only [unpackedValue, signFactor]; linarith)
  | finite s₁ m₁ e₁ hm₁ =>
    have := hmag e₁ hm₁
    cases v with
    | notANumber => cases hnv
    | infinity s₂ =>
      obtain ⟨hlow, hhigh⟩ := abs_lt.mp (abs_lt_overflow hu rfl)
      cases s₂
      · exact hgt (by simp only [unpackedValue_infinity, signFactor]; linarith)
      · exact hlt (by simp only [unpackedValue_infinity, signFactor]; linarith)
    | zero s₂ =>
      cases s₁
      · exact hlt (by simp only [unpackedValue, signFactor]; linarith)
      · exact hgt (by simp only [unpackedValue, signFactor]; linarith)
    | finite s₂ m₂ e₂ hm₂ =>
      have := hmag e₂ hm₂
      cases s₁ <;> cases s₂
      · simp only [UnpackedFloat.compare, unpackedValue, signFactor, hu.1.compare_eq hv.1, neg_one_mul,
          compare_neg_neg]
      · exact hlt (by simp only [unpackedValue, signFactor]; linarith)
      · exact hgt (by simp only [unpackedValue, signFactor]; linarith)
      · simp only [UnpackedFloat.compare, unpackedValue, signFactor, hu.1.compare_eq hv.1, one_mul]

variable {x y : Float}

theorem isStored_toModel (x : Float) : IsStored x.toModel.unpack := isStored_unpack _

theorem compare_eq_compare_value (hx : x.isNaN = false) (hy : y.isNaN = false) :
    x.toModel.compare y.toModel = some (compare (value x) (value y)) :=
  compare_unpacked (isStored_toModel x) (isStored_toModel y) hx hy

/-- Comparing doubles is comparing their values. -/
theorem lt_iff_value_lt (hx : x.isNaN = false) (hy : y.isNaN = false) : x < y ↔ value x < value y := by
  have hlt : x < y ↔ (x.toModel.compare y.toModel == some .lt) = true := by
    show (decide _ = true) ↔ _
    rw [decide_eq_true_eq]
    rfl
  rw [hlt, compare_eq_compare_value hx hy, beq_iff_eq, Option.some_inj, compare_lt_iff_lt]

theorem le_iff_value_le (hx : x.isNaN = false) (hy : y.isNaN = false) : x ≤ y ↔ value x ≤ value y := by
  have hle : x ≤ y ↔ ((x.toModel.compare y.toModel).any (·.isLE)) = true := by
    show (decide _ = true) ↔ _
    rw [decide_eq_true_eq]
    rfl
  rw [hle, compare_eq_compare_value hx hy, Option.any_some, Ordering.isLE_iff_ne_gt, compare_gt_iff_gt,
    not_lt]

theorem isNaN_eq_false_of_isFinite (h : x.isFinite = true) : x.isNaN = false := by
  have hfin : x.toModel.unpack.isFinite = true := h
  show x.toModel.unpack.isNaN = false
  cases hu : x.toModel.unpack with
  | notANumber =>
    rw [hu] at hfin
    cases hfin
  | _ => rfl

/-- A number is finite exactly if its value lies strictly within the bound. -/
theorem isFinite_iff (hx : x.isNaN = false) : x.isFinite = true ↔ |value x| < overflow := by
  have hnum : x.toModel.unpack.isNaN = false := hx
  constructor
  · exact fun h => abs_lt_overflow (isStored_toModel x) h
  · intro h
    show x.toModel.unpack.isFinite = true
    unfold value at h
    cases hu : x.toModel.unpack with
    | notANumber =>
      rw [hu] at hnum
      cases hnum
    | zero s => rfl
    | finite s m e hm => rfl
    | infinity s =>
      exfalso
      rw [hu, unpackedValue_infinity, abs_mul, abs_of_pos overflow_pos] at h
      cases s <;> simp at h

/-! ## Nearest doubles -/

/-- A mantissa that is long enough, or at the smallest exponent, is not shifted to a finer grid. -/
theorem le_ulp_of_long {m : ℕ} {e : ℤ} (hm : 0 < m) (h : 2 ^ 52 ≤ m ∨ e ≤ -1074) : e ≤ ulp (m * 2 ^ e) := by
  have hpos : (0 : ℚ) < m * 2 ^ e := by positivity
  rw [ulp, abs_of_pos hpos, log_scaled hm.ne' le_rfl (lt_add_one _)]
  rcases h with h | h
  · have := (Nat.le_log2 hm.ne').mpr h
    omega
  · omega

/-- A mantissa that is short enough lies on the grid. -/
theorem nearest_of_short {m : ℕ} {e : ℤ} (hm : m < 2 ^ 53) (he : -1074 ≤ e) : nearest (m * 2 ^ e) = m * 2 ^ e := by
  rcases Nat.eq_zero_or_pos m with rfl | hpos
  · simp
  · have hlog := (Nat.log2_lt hpos.ne').mpr hm
    have hulp : ulp (m * 2 ^ e) ≤ e := by
      rw [ulp, abs_of_pos (by positivity), log_scaled hpos.ne' le_rfl (lt_add_one _)]
      omega
    exact nearest_eq_self (n := m) hulp (by push_cast; rfl)

/-- The value of a double is not changed by rounding. -/
theorem rounded_value (x : Float) : rounded (value x) = value x := by
  have hbound := overflow_pos
  have hstored := isStored_toModel x
  unfold value
  cases hu : x.toModel.unpack with
  | notANumber => exact rounded_zero
  | zero s => exact rounded_zero
  | infinity s =>
    -- The bound itself would be the next value on the grid.
    have hgrid : overflow = ((2 ^ 52 : ℕ) : ℚ) * 2 ^ (972 : ℤ) := by
      rw [Nat.cast_pow, Nat.cast_ofNat]
      exact zpow_add₀ two_ne_zero 52 972
    have hnearest : nearest overflow = overflow := by
      rw [hgrid]
      exact nearest_of_short (by norm_num) (by norm_num)
    rw [unpackedValue_infinity, rounded_signFactor, rounded, hnearest, min_self, max_eq_right (by linarith)]
  | finite s m e hm =>
    rw [hu] at hstored
    have hlt := hstored.1.lt_overflow hstored.2
    have hpos : (0 : ℚ) < m * 2 ^ e := by positivity
    rw [unpackedValue_finite, rounded_signFactor, rounded, nearest_of_short hstored.1.lt hstored.1.le,
      min_eq_right hlt.le, max_eq_right (by linarith)]

theorem isNearest_value (hx : x.isNaN = false) : IsNearest x (value x) := ⟨hx, (rounded_value x).symm⟩

namespace IsNearest

variable {q r : ℚ}

/-- Rounding keeps inequalities. -/
theorem le (hx : IsNearest x q) (hy : IsNearest y r) (h : q ≤ r) : x ≤ y := by
  rw [le_iff_value_le hx.isNumber hy.isNumber, hx.value_eq, hy.value_eq]
  exact rounded_mono h

/-- Whoever bounds the exact result bounds the double. -/
theorem le_of_le_value (hx : IsNearest x q) (hy : y.isNaN = false) (h : q ≤ value y) : x ≤ y :=
  hx.le (isNearest_value hy) h

end IsNearest

/-! ## Operations -/

theorem signFactor_neg (s : Sign) : signFactor (-s) = -signFactor s := by
  cases s
  · exact (neg_neg 1).symm
  · rfl

theorem signFactor_mul (s t : Sign) : signFactor (s * t) = signFactor s * signFactor t := by
  cases s
  · rw [signFactor_negative, neg_one_mul]
    cases t
    · exact (neg_neg 1).symm
    · rfl
  · rw [signFactor_positive, one_mul]
    cases t <;> rfl

theorem signFactor_div (s t : Sign) : signFactor (s / t) = signFactor s / signFactor t := by
  cases t
  · rw [signFactor_negative, div_neg, div_one]
    cases s
    · exact (neg_neg 1).symm
    · rfl
  · rw [signFactor_positive, div_one]
    cases s <;> rfl

theorem isNearest_zero (s : Sign) : IsNearest (.ofModel (.pack (zero s))) 0 := by
  have hunpack : (Float.ofModel (.pack (zero s))).toModel.unpack = zero s := unpack_packedZero
  constructor
  · show (Float.Model.unpack _).isNaN = false
    rw [hunpack]
    rfl
  · rw [value, hunpack, rounded_zero]
    rfl

/-- A product is the double nearest to the exact product. -/
theorem isNearest_mul (hx : x.isFinite = true) (hy : y.isFinite = true) :
    IsNearest (x * y) (value x * value y) := by
  have hsx := isStored_toModel x
  have hsy := isStored_toModel y
  have hmul : x * y = .ofModel (.pack (UnpackedFloat.mul .binary64 x.toModel.unpack y.toModel.unpack)) := rfl
  rw [hmul, value, value]
  replace hx : x.toModel.unpack.isFinite = true := hx
  replace hy : y.toModel.unpack.isFinite = true := hy
  generalize x.toModel.unpack = u at *
  generalize y.toModel.unpack = v at *
  cases u with
  | infinity | notANumber => cases hx
  | zero s =>
    cases v with
    | infinity | notANumber => cases hy
    | zero t | finite t m e hm =>
      rw [unpackedValue_zero, zero_mul]
      exact isNearest_zero (s * t)
  | finite s m e hm =>
    cases v with
    | infinity | notANumber => cases hy
    | zero t =>
      rw [unpackedValue_zero, mul_zero]
      exact isNearest_zero (s * t)
    | finite t n f hn =>
      -- The product of two mantissas is long enough, unless both are those of tiny doubles.
      have hlong : 2 ^ 52 ≤ m * n ∨ e + f ≤ -1074 := by
        obtain ⟨-, he, hfull⟩ := hsx.1
        obtain ⟨-, hf, hfull'⟩ := hsy.1
        rcases hfull with h | h
        · exact Or.inl (h.trans (Nat.le_mul_of_pos_right m hn))
        · rcases hfull' with h' | h'
          · exact Or.inl (h'.trans (Nat.le_mul_of_pos_left n hm))
          · exact Or.inr (by omega)
      have hpos : 0 < m * n := Nat.mul_pos hm hn
      have hnearest := isNearest_roundWithAccuracy (s * t) (.natCast (m * n)) (by exact_mod_cast hpos)
        (le_ulp_of_long hpos hlong)
      have hvalue : signFactor (s * t) * ((m * n : ℕ) * 2 ^ (e + f)) =
          signFactor s * (m * 2 ^ e) * (signFactor t * (n * 2 ^ f)) := by
        rw [signFactor_mul, zpow_add₀ two_ne_zero]
        push_cast
        ring
      rw [hvalue] at hnearest
      exact hnearest

/-- Shifting the dividend only changes the grid on which a quotient is computed. -/
theorem shifted_quotient (m : ℕ) {n : ℕ} {e f t : ℤ} (h : t ≤ e - f) :
    ((m <<< (e - f - t).toNat : ℕ) / n : ℚ) * 2 ^ t = m * 2 ^ e / (n * 2 ^ f) := by
  obtain ⟨k, hk⟩ := Int.eq_ofNat_of_zero_le (sub_nonneg.mpr h)
  obtain rfl : e = k + t + f := by omega
  have hshift : (k + t + f - f - t).toNat = k := by omega
  rw [hshift, Nat.shiftLeft_eq, zpow_add₀ two_ne_zero, zpow_add₀ two_ne_zero, zpow_natCast]
  push_cast
  field_simp

/-- The magnitude of a quotient is at most one below the difference of the magnitudes. -/
theorem le_log_quotient {m n : ℕ} (hm : 0 < m) (hn : 0 < n) (e f : ℤ) :
    (m.log2 + e) - (n.log2 + f) - 1 ≤ Int.log 2 (m * 2 ^ e / (n * 2 ^ f) : ℚ) := by
  have hmpos : (0 : ℚ) < m * 2 ^ e := by positivity
  have hnpos : (0 : ℚ) < n * 2 ^ f := by positivity
  -- The dividend is at least its leading power of two, the divisor less than twice its own.
  have hlow : (2 : ℚ) ^ ((m.log2 : ℤ) + e) ≤ m * 2 ^ e := by
    rw [← log_scaled hm.ne' le_rfl (lt_add_one _)]
    exact Int.zpow_log_le_self one_lt_two hmpos
  have hhigh : (n * 2 ^ f : ℚ) < 2 ^ ((n.log2 : ℤ) + f + 1) := by
    rw [← log_scaled hn.ne' le_rfl (lt_add_one _)]
    exact Int.lt_zpow_succ_log_self one_lt_two _
  rw [← Int.zpow_le_iff_le_log one_lt_two (div_pos hmpos hnpos), le_div_iff₀ hnpos]
  calc (2 : ℚ) ^ ((m.log2 : ℤ) + e - (n.log2 + f) - 1) * (n * 2 ^ f)
      ≤ 2 ^ ((m.log2 : ℤ) + e - (n.log2 + f) - 1) * 2 ^ ((n.log2 : ℤ) + f + 1) :=
        mul_le_mul_of_nonneg_left hhigh.le (by positivity)
    _ = 2 ^ ((m.log2 : ℤ) + e) := by
        rw [← zpow_add₀ two_ne_zero]
        congr 1
        ring
    _ ≤ m * 2 ^ e := hlow

/-- A quotient of mantissas is computed on a grid that is fine enough. -/
theorem isNearest_divCore (s : Sign) {m n : ℕ} {e f : ℤ} (hm : 0 < m) (hn : 0 < n) :
    IsNearest (.ofModel (.pack (roundWithAccuracy .binary64 s (divCore .binary64 m e n f).1
      (divCore .binary64 m e n f).2.1 (divCore .binary64 m e n f).2.2)))
      (signFactor s * (m * 2 ^ e / (n * 2 ^ f))) := by
  set t := min (e - f) (Format.binary64.targetExponent (totalExponent m e - totalExponent n f)) with ht
  have hcore : divCore .binary64 m e n f =
      ((m <<< (e - f - t).toNat) / n, t, accuracyOfFraction ((m <<< (e - f - t).toNat) % n) n) := rfl
  have hquot : ((m <<< (e - f - t).toNat : ℕ) / n : ℚ) * 2 ^ t = m * 2 ^ e / (n * 2 ^ f) :=
    shifted_quotient m (min_le_left _ _)
  -- The magnitude of the quotient is known up to one, and the division aims at the smaller.
  have hulp : t ≤ ulp (m * 2 ^ e / (n * 2 ^ f)) := by
    have hlog := le_log_quotient hm hn e f
    rw [targetExponent_eq, totalExponent, totalExponent] at ht
    rw [ulp, abs_of_pos (by positivity)]
    omega
  have hpos : (0 : ℚ) < (m <<< (e - f - t).toNat : ℕ) / n := by
    rw [Nat.shiftLeft_eq]
    positivity
  rw [hcore, ← hquot]
  exact isNearest_roundWithAccuracy s (.quotient _ hn) hpos (hquot ▸ hulp)

/-- A quotient is the double nearest to the exact quotient. -/
theorem isNearest_div (hx : x.isFinite = true) (hy : y.isFinite = true) (hne : value y ≠ 0) :
    IsNearest (x / y) (value x / value y) := by
  have hdiv : x / y = .ofModel (.pack (UnpackedFloat.div .binary64 x.toModel.unpack y.toModel.unpack)) := rfl
  rw [value] at hne
  rw [hdiv, value, value]
  replace hx : x.toModel.unpack.isFinite = true := hx
  replace hy : y.toModel.unpack.isFinite = true := hy
  generalize x.toModel.unpack = u at *
  generalize y.toModel.unpack = v at *
  cases v with
  | infinity | notANumber => cases hy
  | zero t => exact absurd rfl hne
  | finite t n f hn =>
    cases u with
    | infinity | notANumber => cases hx
    | zero s =>
      rw [unpackedValue_zero, zero_div]
      exact isNearest_zero (s / t)
    | finite s m e hm =>
      have hnearest := isNearest_divCore (s / t) (e := e) (f := f) hm hn
      rw [signFactor_div, div_mul_div_comm] at hnearest
      exact hnearest

theorem isNearest_round (s : Sign) {m : ℕ} (e : ℤ) (hm : 0 < m) :
    IsNearest (.ofModel (.pack (UnpackedFloat.round .binary64 s m e))) (signFactor s * (m * 2 ^ e)) := by
  set t := Format.binary64.targetExponent (totalExponent m e) with ht
  -- A short mantissa is first made longer, so that it is not rounded to too coarse a grid.
  have hround : UnpackedFloat.round .binary64 s m e =
      roundWithAccuracy .binary64 s (m <<< (e - t).toNat) (e - (e - t).toNat) .exact := rfl
  have hvalue : ((m <<< (e - t).toNat : ℕ) * 2 ^ (e - (e - t).toNat) : ℚ) = m * 2 ^ e := by
    rw [Nat.shiftLeft_eq, zpow_sub₀ two_ne_zero, zpow_natCast]
    push_cast
    field_simp
  have hulp : e - (e - t).toNat ≤ ulp (m * 2 ^ e) := by
    rw [targetExponent_eq, totalExponent] at ht
    rw [ulp, abs_of_pos (by positivity), log_scaled hm.ne' le_rfl (lt_add_one _)]
    omega
  have hpos : (0 : ℚ) < (m <<< (e - t).toNat : ℕ) := by
    rw [Nat.shiftLeft_eq]
    positivity
  rw [hround, ← hvalue]
  exact isNearest_roundWithAccuracy s (.natCast _) hpos (hvalue ▸ hulp)

theorem isNearest_normalize (n e : ℤ) (zeroSign : Sign) :
    IsNearest (.ofModel (.pack (UnpackedFloat.normalize .binary64 n e zeroSign))) (n * 2 ^ e) := by
  unfold UnpackedFloat.normalize
  rcases lt_trichotomy n 0 with h | rfl | h
  · have hnat : ((-n).toNat : ℤ) = -n := Int.toNat_of_nonneg (by omega)
    have hcast : ((-n).toNat : ℚ) = -n := by exact_mod_cast hnat
    have hnearest := isNearest_round .negative e (m := (-n).toNat) (by omega)
    rw [hcast, signFactor_negative] at hnearest
    rw [compare_lt_iff_lt.mpr h]
    convert hnearest using 1
    ring
  · rw [compare_eq_iff_eq.mpr rfl]
    simpa using isNearest_zero zeroSign
  · have hnat : (n.toNat : ℤ) = n := Int.toNat_of_nonneg h.le
    have hcast : (n.toNat : ℚ) = n := by exact_mod_cast hnat
    have hnearest := isNearest_round .positive e (m := n.toNat) (by omega)
    rw [hcast, signFactor_positive, one_mul] at hnearest
    rw [compare_gt_iff_gt.mpr h]
    exact hnearest

theorem isNearest_pack {u : UnpackedFloat} (hu : unpack .binary64 (pack .binary64 u) = u) (hnum : u.isNaN = false) :
    IsNearest (.ofModel (.pack u)) (unpackedValue u) := by
  have hunpack : (Float.ofModel (.pack u)).toModel.unpack = u := hu
  have hisNaN : (Float.ofModel (.pack u)).isNaN = false := by
    show (Float.Model.unpack _).isNaN = false
    rw [hunpack, hnum]
  have hvalue : value (Float.ofModel (.pack u)) = unpackedValue u := by rw [value, hunpack]
  exact hvalue ▸ isNearest_value hisNaN

theorem cast_apply (s : Sign) (n : ℕ) : (s.apply n : ℚ) = signFactor s * n := by
  cases s <;> simp [Sign.apply]

/-- Bringing a mantissa to a smaller exponent does not change the value. -/
theorem decreaseExponent_value (m : ℕ) {e t : ℤ} (h : t ≤ e) :
    ((decreaseExponent m e t).1 : ℚ) * 2 ^ t = m * 2 ^ e := by
  obtain ⟨k, hk⟩ := Int.eq_ofNat_of_zero_le (sub_nonneg.mpr h)
  obtain rfl : e = k + t := by omega
  have hshift : (k + t - t).toNat = k := by omega
  rw [decreaseExponent, hshift, Nat.shiftLeft_eq, zpow_add₀ two_ne_zero, zpow_natCast]
  push_cast
  ring

/-- A difference is the double nearest to the exact difference. -/
theorem isNearest_sub (hx : x.isFinite = true) (hy : y.isFinite = true) :
    IsNearest (x - y) (value x - value y) := by
  have hsx := isStored_toModel x
  have hsy := isStored_toModel y
  have hsub : x - y = .ofModel (.pack (UnpackedFloat.sub .binary64 x.toModel.unpack y.toModel.unpack)) := rfl
  rw [hsub, value, value]
  replace hx : x.toModel.unpack.isFinite = true := hx
  replace hy : y.toModel.unpack.isFinite = true := hy
  generalize x.toModel.unpack = u at *
  generalize y.toModel.unpack = v at *
  cases u with
  | infinity | notANumber => cases hx
  | zero s =>
    cases v with
    | infinity | notANumber => cases hy
    | zero t =>
      have hzero : ∃ r, UnpackedFloat.sub .binary64 (zero s) (zero t) = zero r := by
        rw [UnpackedFloat.sub]
        split <;> exact ⟨_, rfl⟩
      obtain ⟨r, hr⟩ := hzero
      rw [hr]
      simpa using isNearest_zero r
    | finite t n f hn =>
      -- What is subtracted from zero is stored with the other sign.
      have hnearest := isNearest_pack (u := finite (-t) n f hn)
        (by rw [unpack_pack_finite _ _ hsy.1, if_pos hsy.2]) rfl
      rw [unpackedValue_finite, signFactor_neg, neg_mul] at hnearest
      rw [unpackedValue_zero, unpackedValue_finite, zero_sub]
      exact hnearest
  | finite s m e hm =>
    cases v with
    | infinity | notANumber => cases hy
    | zero t =>
      have hnearest := isNearest_pack (u := finite s m e hm)
        (by rw [unpack_pack_finite _ _ hsx.1, if_pos hsx.2]) rfl
      rw [unpackedValue_zero, sub_zero]
      exact hnearest
    | finite t n f hn =>
      -- Both mantissas are brought to the smaller exponent, where the difference is exact.
      have hnearest := isNearest_normalize
        (s.apply (decreaseExponent m e (min e f)).1 - t.apply (decreaseExponent n f (min e f)).1) (min e f) .positive
      have hvalue : ((s.apply (decreaseExponent m e (min e f)).1 -
          t.apply (decreaseExponent n f (min e f)).1 : ℤ) : ℚ) * 2 ^ min e f =
          signFactor s * (m * 2 ^ e) - signFactor t * (n * 2 ^ f) := by
        rw [Int.cast_sub, cast_apply, cast_apply, sub_mul, mul_assoc, mul_assoc,
          decreaseExponent_value m (min_le_left e f), decreaseExponent_value n (min_le_right e f)]
      rw [hvalue] at hnearest
      exact hnearest

/-! ## Numbers -/

/-- The double for one, as the powers of ten are tabulated. -/
theorem value_ofBits_one : value (Float.ofBits 0x3FF0000000000000) = 1 := by
  have hunpack : (Float.ofBits 0x3FF0000000000000).toModel.unpack =
      finite .positive (2 ^ 52) (-52) (by decide) := rfl
  rw [value, hunpack, unpackedValue_finite, signFactor_positive, one_mul, Nat.cast_pow, Nat.cast_ofNat]
  exact (zpow_add₀ two_ne_zero 52 (-52)).symm

theorem natCast_lt_overflow {n : ℕ} (h : n < 2 ^ 53) : (n : ℚ) < overflow :=
  calc (n : ℚ) < 2 ^ 53 := by exact_mod_cast h
    _ = 2 ^ (53 : ℤ) := rfl
    _ ≤ 2 ^ (1024 : ℤ) := zpow_le_zpow_right₀ one_le_two (by norm_num)

theorem rounded_natCast {n : ℕ} (h : n < 2 ^ 53) : rounded n = n := by
  have hnearest : nearest n = n := by simpa using nearest_of_short h (by norm_num : (-1074 : ℤ) ≤ 0)
  have hlt := natCast_lt_overflow h
  have hnonneg : (0 : ℚ) ≤ n := n.cast_nonneg
  rw [rounded, hnearest, min_eq_right hlt.le, max_eq_right (by linarith)]

theorem isNearest_toFloat (n : UInt64) : IsNearest n.toFloat n.toNat := by
  have hnormalize : n.toFloat = .ofModel (.pack (UnpackedFloat.normalize .binary64 (n.toNat : ℤ) 0 .positive)) := rfl
  rw [hnormalize]
  simpa using isNearest_normalize n.toNat 0 .positive

/-- A natural number is converted to the nearest double. -/
theorem isNearest_ofNat (n : ℕ) : IsNearest (Float.ofNat n) n := by
  by_cases h : n < 2 ^ 53
  · -- A small number is a double itself; it is multiplied by the zeroth power of ten.
    have hofNat : Float.ofNat n = n.toUInt64.toFloat * Float.ofBits 0x3FF0000000000000 := by
      show Float.ofScientific n false 0 = _
      rw [Float.ofScientific, dif_pos ⟨h, by decide⟩]
      rfl
    have htoNat : n.toUInt64.toNat = n := UInt64.toNat_ofNat_of_lt' (h.trans (by decide))
    have hnearest := isNearest_toFloat n.toUInt64
    rw [htoNat] at hnearest
    have hvalue : value n.toUInt64.toFloat = n := by rw [hnearest.value_eq, rounded_natCast h]
    have hfinite : n.toUInt64.toFloat.isFinite = true := by
      rw [isFinite_iff hnearest.isNumber, hvalue, abs_of_nonneg n.cast_nonneg]
      exact natCast_lt_overflow h
    have hmul := isNearest_mul hfinite (y := Float.ofBits 0x3FF0000000000000) (by decide)
    rw [hvalue, value_ofBits_one, mul_one] at hmul
    rwa [hofNat]
  · have hpos : 0 < (n <<< 53) * 1 := by
      rw [Nat.shiftLeft_eq]
      omega
    -- A large one is shifted to a mantissa of full length, which is rounded.
    have hscientific : UnpackedFloat.ofScientific .binary64 n 0 =
        roundWithAccuracy .binary64 .positive ((n <<< 53) * 1) (-53) .exact := by
      have hexp : ¬(0 : ℤ) < -((2 ^ 11 : ℤ) + n.log2) := by omega
      rw [UnpackedFloat.ofScientific, dif_neg (by omega), if_neg (by decide), if_neg hexp, if_pos le_rfl]
      rfl
    have hofNat : Float.ofNat n =
        .ofModel (.pack (roundWithAccuracy .binary64 .positive ((n <<< 53) * 1) (-53) .exact)) := by
      show Float.ofScientific n false 0 = _
      rw [Float.ofScientific, dif_neg fun hsmall => h hsmall.1, ← hscientific]
      rfl
    have hlong : 2 ^ 52 ≤ (n <<< 53) * 1 := by
      rw [Nat.shiftLeft_eq]
      omega
    have hnearest := isNearest_roundWithAccuracy .positive (.natCast ((n <<< 53) * 1)) (by exact_mod_cast hpos)
      (le_ulp_of_long (e := -53) hpos (Or.inl hlong))
    have hvalue : signFactor .positive * (((n <<< 53) * 1 : ℕ) * 2 ^ (-53 : ℤ)) = (n : ℚ) := by
      rw [Nat.shiftLeft_eq, signFactor_positive, zpow_neg]
      push_cast
      field_simp
    rw [hvalue] at hnearest
    rwa [hofNat]

/-- A count that fits a machine word is converted to a finite double. -/
theorem isFinite_ofNat {n : ℕ} (h : n < 2 ^ 64) : (Float.ofNat n).isFinite = true := by
  have hnearest := isNearest_ofNat n
  have hbound : rounded n < overflow := by
    rcases Nat.eq_zero_or_pos n with rfl | hpos
    · simpa using overflow_pos
    · have hone : (1 : ℚ) ≤ n := by exact_mod_cast hpos
      have hword : (n : ℚ) < 2 ^ 64 := by exact_mod_cast h
      calc rounded n ≤ nearest n := rounded_le_nearest n.cast_nonneg
        _ ≤ n * (1 + 1 / 2 ^ 52) := nearest_le_mul (by linarith) (lt_ulp_of_half_le (by linarith))
        _ < 2 ^ (65 : ℤ) := by norm_num; linarith
        _ ≤ overflow := zpow_le_zpow_right₀ one_le_two (by norm_num)
  have hnonneg : 0 ≤ rounded n := rounded_zero ▸ rounded_mono n.cast_nonneg
  rw [isFinite_iff hnearest.isNumber, hnearest.value_eq, abs_of_nonneg hnonneg]
  exact hbound

/-! ## Infinity and what is not a number -/

theorem isNaN_pack_notANumber : (Float.ofModel (.pack .notANumber)).isNaN = true := rfl

theorem isNaN_mul_right (h : y.isNaN = true) : (x * y).isNaN = true := by
  have hmul : x * y = .ofModel (.pack (UnpackedFloat.mul .binary64 x.toModel.unpack y.toModel.unpack)) := rfl
  have hnan : UnpackedFloat.mul .binary64 x.toModel.unpack .notANumber = .notANumber := by
    cases x.toModel.unpack <;> rfl
  rw [hmul, UnpackedFloat.isNaN_iff.mp h, hnan, isNaN_pack_notANumber]

theorem isNaN_sub_left (h : x.isNaN = true) : (x - y).isNaN = true := by
  have hsub : x - y = .ofModel (.pack (UnpackedFloat.sub .binary64 x.toModel.unpack y.toModel.unpack)) := rfl
  have hnan : UnpackedFloat.sub .binary64 .notANumber y.toModel.unpack = .notANumber := by
    cases y.toModel.unpack <;> rfl
  rw [hsub, UnpackedFloat.isNaN_iff.mp h, hnan, isNaN_pack_notANumber]

theorem unpack_of_infinite (hx : x.isNaN = false) (hinf : x.isFinite = false) :
    ∃ s, x.toModel.unpack = infinity s := by
  replace hx : x.toModel.unpack.isNaN = false := hx
  replace hinf : x.toModel.unpack.isFinite = false := hinf
  cases hu : x.toModel.unpack with
  | infinity s => exact ⟨s, rfl⟩
  | notANumber =>
    rw [hu] at hx
    cases hx
  | _ =>
    rw [hu] at hinf
    cases hinf

/-- A quotient by infinity is zero, unless it is no number at all. -/
theorem div_infinite (hx : x.isNaN = false) (hy : y.isNaN = false) (hinf : y.isFinite = false) :
    (x / y).isNaN = true ∨ IsNearest (x / y) 0 := by
  obtain ⟨t, ht⟩ := unpack_of_infinite hy hinf
  have hdiv : x / y = .ofModel (.pack (UnpackedFloat.div .binary64 x.toModel.unpack (infinity t))) := by
    rw [← ht]
    rfl
  replace hx : x.toModel.unpack.isNaN = false := hx
  rw [hdiv]
  cases hu : x.toModel.unpack with
  | notANumber =>
    rw [hu] at hx
    cases hx
  | infinity s =>
    refine Or.inl ?_
    rw [UnpackedFloat.div]
    exact isNaN_pack_notANumber
  | zero s => exact Or.inr (isNearest_zero (s / t))
  | finite s m e hm => exact Or.inr (isNearest_zero (s / t))

/-- A quotient of a natural number by a positive number is not negative, even if both are too large. -/
theorem ofNat_div_nonneg (n : ℕ) (hy : y.isFinite = true) (hpos : 0 < value y) :
    (Float.ofNat n / y).isNaN = false ∧ 0 ≤ value (Float.ofNat n / y) := by
  have hnearest := isNearest_ofNat n
  have hnonneg : 0 ≤ value (Float.ofNat n) := by
    rw [hnearest.value_eq, ← rounded_zero]
    exact rounded_mono n.cast_nonneg
  cases hfin : (Float.ofNat n).isFinite with
  | true =>
    have hdiv := isNearest_div hfin hy hpos.ne'
    refine ⟨hdiv.isNumber, ?_⟩
    rw [hdiv.value_eq, ← rounded_zero]
    exact rounded_mono (div_nonneg hnonneg hpos.le)
  | false =>
    -- Infinity over a positive number is infinity again.
    obtain ⟨s, hs⟩ := unpack_of_infinite hnearest.isNumber hfin
    obtain ⟨m, e, hm, hu⟩ : ∃ m e hm, y.toModel.unpack = finite .positive m e hm := by
      replace hy : y.toModel.unpack.isFinite = true := hy
      rw [value] at hpos
      cases hu : y.toModel.unpack with
      | infinity | notANumber =>
        rw [hu] at hy
        cases hy
      | zero => simp [hu] at hpos
      | finite t m e hm =>
        cases t with
        | positive => exact ⟨m, e, hm, rfl⟩
        | negative =>
          have : (0 : ℚ) < m * 2 ^ e := by positivity
          rw [hu, unpackedValue_finite, signFactor_negative] at hpos
          linarith
    have hdiv : Float.ofNat n / y = .ofModel (.pack (infinity (s / .positive))) := by
      show Float.ofModel (.pack (UnpackedFloat.div .binary64 (Float.ofNat n).toModel.unpack y.toModel.unpack)) = _
      rw [hs, hu]
      rfl
    cases s with
    | negative =>
      have := overflow_pos
      rw [value, hs, unpackedValue_infinity, signFactor_negative] at hnonneg
      linarith
    | positive =>
      rw [hdiv]
      refine ⟨rfl, ?_⟩
      show 0 ≤ signFactor .positive * overflow
      rw [signFactor_positive, one_mul]
      exact overflow_pos.le

end PeerWarden.Number
