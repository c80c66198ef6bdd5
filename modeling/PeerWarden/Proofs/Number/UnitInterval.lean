import PeerWarden.Number.Order
import PeerWarden.Proofs.Number.Arithmetic

/-!
# Doubles between Zero and One

Trust scores, factors and probabilities lie between zero and one. There no operation overflows, and rounding
cannot carry a product above its factors.

## Main statements

- `InUnit.mul`, `InUnit.mul_le_left`, `InUnit.mul_le_mul_right`: scaling stays in the interval, never raises
  a score, and keeps the order of scores
- `clampUnit_of_inUnit`, `inUnit_clampUnit`, `clampUnit_mono`: clamping changes nothing inside, leaves nothing
  outside, and keeps the order
- `lesser_le_left`, `lesser_le_right`, `lesser_mono_left`: the smaller of two doubles
-/

open Float.Model (UnpackedFloat)
open Float.Model.UnpackedFloat

namespace PeerWarden.Number

variable {x y z : Float} {q : ℚ}

/-! ## The order of doubles -/

/-- What is not a number is not below anything, nor above. -/
theorem isNaN_eq_false_of_le (h : x ≤ y) : x.isNaN = false ∧ y.isNaN = false := by
  have hle : (x.toModel.unpack.compare y.toModel.unpack).any (·.isLE) = true := by
    have : decide (x.toModel ≤ y.toModel) = true := h
    exact of_decide_eq_true this
  have hnan (u : UnpackedFloat) : u.compare .notANumber = none := by cases u <;> rfl
  -- A comparison with what is not a number has no result.
  constructor
  · show x.toModel.unpack.isNaN = false
    cases hu : x.toModel.unpack with
    | notANumber => simp [hu, UnpackedFloat.compare] at hle
    | _ => rfl
  · show y.toModel.unpack.isNaN = false
    cases hv : y.toModel.unpack with
    | notANumber => simp [hv, hnan] at hle
    | _ => rfl

theorem le_refl_of_isNaN (hx : x.isNaN = false) : x ≤ x := (le_iff_value_le hx hx).mpr le_rfl

theorem float_le_trans (hxy : x ≤ y) (hyz : y ≤ z) : x ≤ z := by
  obtain ⟨hx, hy⟩ := isNaN_eq_false_of_le hxy
  obtain ⟨-, hz⟩ := isNaN_eq_false_of_le hyz
  rw [le_iff_value_le hx hy] at hxy
  rw [le_iff_value_le hy hz] at hyz
  exact (le_iff_value_le hx hz).mpr (hxy.trans hyz)

theorem not_lt_of_float_le (h : x ≤ y) : ¬y < x := by
  obtain ⟨hx, hy⟩ := isNaN_eq_false_of_le h
  rw [lt_iff_value_lt hy hx, not_lt]
  exact (le_iff_value_le hx hy).mp h

theorem le_of_not_lt (hx : x.isNaN = false) (hy : y.isNaN = false) (h : ¬x < y) : y ≤ x := by
  rw [lt_iff_value_lt hx hy, not_lt] at h
  exact (le_iff_value_le hy hx).mpr h

theorem le_of_float_lt (h : x < y) : x ≤ y := by
  have hlt : (x.toModel.compare y.toModel == some .lt) = true := of_decide_eq_true h
  show decide ((x.toModel.compare y.toModel).any (·.isLE) = true) = true
  rw [eq_of_beq hlt]
  rfl

theorem lt_of_float_le_of_lt (hxy : x ≤ y) (hyz : y < z) : x < z := by
  obtain ⟨hx, hy⟩ := isNaN_eq_false_of_le hxy
  obtain ⟨-, hz⟩ := isNaN_eq_false_of_le (le_of_float_lt hyz)
  rw [le_iff_value_le hx hy] at hxy
  rw [lt_iff_value_lt hy hz] at hyz
  exact (lt_iff_value_lt hx hz).mpr (hxy.trans_lt hyz)

/-! ## The interval -/

/-- A finite double between zero and one. -/
structure InUnit (x : Float) : Prop where
  isFinite : x.isFinite = true
  nonneg : 0 ≤ x
  le_one : x ≤ 1

instance (x : Float) : Decidable (InUnit x) :=
  decidable_of_iff (x.isFinite = true ∧ 0 ≤ x ∧ x ≤ 1) ⟨fun h => ⟨h.1, h.2.1, h.2.2⟩, fun h => ⟨h.1, h.2, h.3⟩⟩

theorem value_ofNat {n : ℕ} (h : n < 2 ^ 53) : value (Float.ofNat n) = n := by
  rw [(isNearest_ofNat n).value_eq, rounded_natCast h]

theorem value_zero : value 0 = 0 := by
  exact_mod_cast value_ofNat (n := 0) (by norm_num)

theorem value_one : value 1 = 1 := by
  exact_mod_cast value_ofNat (n := 1) (by norm_num)

theorem isNaN_zero : (0 : Float).isNaN = false := (isNearest_ofNat 0).isNumber

theorem isNaN_one : (1 : Float).isNaN = false := (isNearest_ofNat 1).isNumber

theorem inUnit_iff (hx : x.isNaN = false) : InUnit x ↔ 0 ≤ value x ∧ value x ≤ 1 := by
  constructor
  · intro h
    have h0 := (le_iff_value_le isNaN_zero hx).mp h.nonneg
    have h1 := (le_iff_value_le hx isNaN_one).mp h.le_one
    rw [value_zero] at h0
    rw [value_one] at h1
    exact ⟨h0, h1⟩
  · rintro ⟨h0, h1⟩
    have hlt : (1 : ℚ) < overflow := by exact_mod_cast natCast_lt_overflow (n := 1) (by norm_num)
    refine ⟨?_, ?_, ?_⟩
    · rw [isFinite_iff hx, abs_of_nonneg h0]
      exact h1.trans_lt hlt
    · rw [le_iff_value_le isNaN_zero hx, value_zero]
      exact h0
    · rw [le_iff_value_le hx isNaN_one, value_one]
      exact h1

namespace InUnit

theorem isNumber (hx : InUnit x) : x.isNaN = false := isNaN_eq_false_of_isFinite hx.isFinite

theorem value_nonneg (hx : InUnit x) : 0 ≤ value x := ((inUnit_iff hx.isNumber).mp hx).1

theorem value_le_one (hx : InUnit x) : value x ≤ 1 := ((inUnit_iff hx.isNumber).mp hx).2

end InUnit

theorem rounded_one : rounded 1 = 1 := by
  exact_mod_cast rounded_natCast (n := 1) (by norm_num)

/-- A double nearest to a number between zero and one lies between them. -/
theorem IsNearest.inUnit (h : IsNearest x q) (h0 : 0 ≤ q) (h1 : q ≤ 1) : InUnit x := by
  rw [inUnit_iff h.isNumber, h.value_eq]
  exact ⟨rounded_zero ▸ rounded_mono h0, rounded_one ▸ rounded_mono h1⟩

/-! ## Scaling -/

namespace InUnit

theorem isNearest_mul (hx : InUnit x) (hy : InUnit y) : IsNearest (x * y) (value x * value y) :=
  Number.isNearest_mul hx.isFinite hy.isFinite

theorem mul (hx : InUnit x) (hy : InUnit y) : InUnit (x * y) :=
  (hx.isNearest_mul hy).inUnit (mul_nonneg hx.value_nonneg hy.value_nonneg)
    (mul_le_one₀ hx.value_le_one hy.value_nonneg hy.value_le_one)

/-- Scaling by a factor of at most one raises nothing. -/
theorem mul_le_left (hx : InUnit x) (hy : InUnit y) : x * y ≤ x :=
  (hx.isNearest_mul hy).le_of_le_value hx.isNumber (mul_le_of_le_one_right hx.value_nonneg hy.value_le_one)

theorem mul_le_mul_right (hx : InUnit x) (hy : InUnit y) (hz : InUnit z) (h : x ≤ y) : x * z ≤ y * z := by
  -- The exact products are in this order, and rounding keeps it.
  have hvalue : value x * value z ≤ value y * value z :=
    mul_le_mul_of_nonneg_right ((le_iff_value_le hx.isNumber hy.isNumber).mp h) hz.value_nonneg
  rw [le_iff_value_le (hx.isNearest_mul hz).isNumber (hy.isNearest_mul hz).isNumber, (hx.isNearest_mul hz).value_eq,
    (hy.isNearest_mul hz).value_eq]
  exact rounded_mono hvalue

theorem mul_le_mul_left (hx : InUnit x) (hy : InUnit y) (hz : InUnit z) (h : y ≤ z) : x * y ≤ x * z := by
  apply (hx.isNearest_mul hy).le (hx.isNearest_mul hz)
  exact mul_le_mul_of_nonneg_left ((le_iff_value_le hy.isNumber hz.isNumber).mp h) hx.value_nonneg

theorem one_sub (hx : InUnit x) : InUnit (1.0 - x) := by
  have hone : (1.0 : Float) = 1 := by decide
  have h := isNearest_sub (x := 1.0) (by decide) hx.isFinite
  rw [hone, value_one] at h
  rw [hone]
  exact h.inUnit (sub_nonneg.mpr hx.value_le_one) (sub_le_self _ hx.value_nonneg)

end InUnit

/-! ## Clamping -/

/-- Clamping changes nothing inside the interval. -/
theorem clampUnit_of_inUnit (hx : InUnit x) : clampUnit x = x := by
  have hlow : ¬x < 0 := by
    rw [lt_iff_value_lt hx.isNumber isNaN_zero, value_zero]
    exact hx.value_nonneg.not_gt
  have hhigh : ¬1 < x := by
    rw [lt_iff_value_lt isNaN_one hx.isNumber, value_one]
    exact hx.value_le_one.not_gt
  rw [clampUnit, if_neg hlow, if_neg hhigh]

/-- Clamping a number leaves nothing outside the interval. -/
theorem inUnit_clampUnit (hx : x.isNaN = false) : InUnit (clampUnit x) := by
  unfold clampUnit
  split_ifs with hlow hhigh
  · decide
  · decide
  · rw [lt_iff_value_lt hx isNaN_zero, value_zero, not_lt] at hlow
    rw [lt_iff_value_lt isNaN_one hx, value_one, not_lt] at hhigh
    exact (inUnit_iff hx).mpr ⟨hlow, hhigh⟩

theorem clampUnit_le (hy : 0 ≤ y) (h : x ≤ y) : clampUnit x ≤ y := by
  unfold clampUnit
  split_ifs with hlow hhigh
  · exact hy
  · exact float_le_trans (le_of_float_lt hhigh) h
  · exact h

theorem clampUnit_mono (h : x ≤ y) : clampUnit x ≤ clampUnit y := by
  obtain ⟨hx, hy⟩ := isNaN_eq_false_of_le h
  rw [clampUnit.eq_def y]
  split_ifs with hlow hhigh
  · -- What lies below a negative number is negative too.
    rw [clampUnit, if_pos (lt_of_float_le_of_lt h hlow)]
    exact le_refl_of_isNaN isNaN_zero
  · exact (inUnit_clampUnit hx).le_one
  · exact clampUnit_le (le_of_not_lt hy isNaN_zero hlow) h

/-! ## The smaller of two doubles -/

theorem lesser_le_left (hx : x.isNaN = false) : lesser x y ≤ x := by
  unfold lesser
  split_ifs with hlt hnan
  · exact le_refl_of_isNaN hx
  · exact le_refl_of_isNaN hx
  · exact le_of_not_lt hx (by simpa using hnan) hlt

theorem lesser_le_right (hy : y.isNaN = false) : lesser x y ≤ y := by
  unfold lesser
  split_ifs with hlt
  · exact le_of_float_lt hlt
  · simp_all
  · exact le_refl_of_isNaN hy

theorem lesser_mono_left (hz : z.isNaN = false) (h : x ≤ y) : lesser x z ≤ lesser y z := by
  obtain ⟨hx, -⟩ := isNaN_eq_false_of_le h
  rw [lesser.eq_def y]
  split_ifs with hlt
  · exact float_le_trans (lesser_le_left hx) h
  · exact float_le_trans (lesser_le_left hx) h
  · exact lesser_le_right hz

theorem InUnit.lesser (hx : InUnit x) (hy : InUnit y) : InUnit (lesser x y) := by
  unfold Number.lesser
  split_ifs <;> assumption

end PeerWarden.Number
