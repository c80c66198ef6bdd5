import PeerWarden.Peer.Record
import PeerWarden.Proofs.Number.UnitInterval

/-!
# The Trust Scale

Every write to a trust score goes through `Trust.ofFloat`, which changes nothing on the scale. What a record
deserves is bounded by the share of a spotless one, and is nothing at all without a single valid block.

## Main statements

- `inUnit_ofFloat`, `ofFloat_of_inUnit`: whatever is written ends on the scale, and stays if it is there
- `deserved_le`: the bounds on what a record deserves
- `ofFloat_deserved`: what a record deserves is clamped when it is written
-/

namespace PeerWarden.Trust

open Number

/-! ## Writing a score -/

/-- Whatever is written ends on the scale. -/
theorem inUnit_ofFloat (x : Float) : InUnit (ofFloat x) := by
  unfold ofFloat
  split_ifs with h
  · exact inUnit_clampUnit (isNaN_eq_false_of_isFinite h)
  · decide

/-- What is on the scale is written as it is. -/
theorem ofFloat_of_inUnit {x : Float} (hx : InUnit x) : ofFloat x = x := by
  rw [ofFloat, if_pos hx.isFinite, clampUnit_of_inUnit hx]

theorem ofFloat_le {x bound : Float} (hbound : 0 ≤ bound) (h : x.isFinite = true → x ≤ bound) :
    ofFloat x ≤ bound := by
  unfold ofFloat
  split_ifs with hfin
  · exact clampUnit_le hbound (h hfin)
  · have hzero : (0.0 : Float) = 0 := by decide
    rw [hzero]
    exact hbound

/-! ## What a record deserves -/

/-- The share of valid blocks lies between zero and one, and is zero without any. Counters too large for a
    double have no share that is a number, or none at all. -/
theorem successRate_spec {validBlocks invalidBlocks : Nat} (h : 0 < validBlocks + invalidBlocks) :
    let rate := Float.ofNat validBlocks / Float.ofNat (validBlocks + invalidBlocks)
    rate.isNaN = true ∨ InUnit rate ∧ (validBlocks = 0 → value rate = 0) := by
  intro rate
  have hvalid := isNearest_ofNat validBlocks
  have hall := isNearest_ofNat (validBlocks + invalidBlocks)
  have hvalid0 : 0 ≤ value (Float.ofNat validBlocks) := by
    rw [hvalid.value_eq, ← rounded_zero]
    exact rounded_mono validBlocks.cast_nonneg
  have hall1 : 1 ≤ value (Float.ofNat (validBlocks + invalidBlocks)) := by
    rw [hall.value_eq, ← rounded_one]
    exact rounded_mono (by exact_mod_cast h)
  have hle : value (Float.ofNat validBlocks) ≤ value (Float.ofNat (validBlocks + invalidBlocks)) := by
    rw [hvalid.value_eq, hall.value_eq]
    exact rounded_mono (by exact_mod_cast Nat.le_add_right validBlocks invalidBlocks)
  cases hfin : (Float.ofNat (validBlocks + invalidBlocks)).isFinite with
  | false =>
    -- The sum of the counters may round to infinity while the valid blocks alone do not.
    rcases div_infinite hvalid.isNumber hall.isNumber hfin with hnan | hnearest
    · exact Or.inl hnan
    · exact Or.inr ⟨hnearest.inUnit le_rfl zero_le_one, fun _ => hnearest.value_eq.trans rounded_zero⟩
  | true =>
    have hfin' : (Float.ofNat validBlocks).isFinite = true := by
      have hbound := (isFinite_iff hall.isNumber).mp hfin
      rw [abs_of_nonneg (zero_le_one.trans hall1)] at hbound
      rw [isFinite_iff hvalid.isNumber, abs_of_nonneg hvalid0]
      exact hle.trans_lt hbound
    have hdiv := isNearest_div hfin' hfin (by linarith)
    refine Or.inr ⟨hdiv.inUnit (div_nonneg hvalid0 (by linarith)) (div_le_one_of_le₀ hle (by linarith)), ?_⟩
    rintro rfl
    have hzero : value (Float.ofNat 0) = 0 := value_zero
    rw [hdiv.value_eq, hzero, zero_div, rounded_zero]

theorem inUnit_floodPenalty (floods : Nat) : InUnit (lesser (Float.ofNat floods / floodSaturation) 1.0) := by
  have hpos : 0 < value floodSaturation := by
    have hten : floodSaturation = Float.ofNat 10 := by decide
    rw [hten, value_ofNat (by norm_num)]
    norm_num
  -- However many floods there are, their share of the saturation is a number and not negative.
  obtain ⟨hnum, hnonneg⟩ := ofNat_div_nonneg floods (y := floodSaturation) (by decide) hpos
  have hone : (1.0 : Float) = 1 := by decide
  unfold lesser
  split_ifs with hlt
  · rw [hone, lt_iff_value_lt hnum isNaN_one, value_one] at hlt
    exact (inUnit_iff hnum).mpr ⟨hnonneg, hlt.le⟩
  · exact absurd ‹_› (by decide)
  · decide

/-- No record deserves more than a spotless one, and one without a valid block deserves nothing. -/
theorem deserved_le {validBlocks invalidBlocks : Nat} (h : 0 < validBlocks + invalidBlocks) (floods : Nat)
    (hfin : (deserved validBlocks invalidBlocks floods).isFinite = true) :
    deserved validBlocks invalidBlocks floods ≤ successWeight ∧
      (validBlocks = 0 → deserved validBlocks invalidBlocks floods ≤ 0) := by
  have hweight : InUnit successWeight := by decide
  have hpenalty : InUnit (floodWeight * lesser (Float.ofNat floods / floodSaturation) 1.0) :=
    InUnit.mul (by decide) (inUnit_floodPenalty floods)
  have hnum := isNaN_eq_false_of_isFinite hfin
  rcases successRate_spec h with hnan | ⟨hrate, hzero⟩
  · -- A share that is no number would show in what is deserved.
    rw [deserved, isNaN_sub_left (isNaN_mul_right hnan)] at hnum
    cases hnum
  · -- Subtracting a penalty takes the exact result, and with it the rounded one, no higher.
    have hearned := hweight.mul hrate
    have hsub := isNearest_sub hearned.isFinite hpenalty.isFinite
    refine ⟨?_, fun hvalid => ?_⟩
    · refine hsub.le_of_le_value hweight.isNumber ?_
      have hle := (le_iff_value_le hearned.isNumber hweight.isNumber).mp (hweight.mul_le_left hrate)
      linarith [hpenalty.value_nonneg]
    · refine hsub.le_of_le_value isNaN_zero ?_
      have hnothing : value (successWeight *
          (Float.ofNat validBlocks / Float.ofNat (validBlocks + invalidBlocks))) = 0 := by
        rw [(hweight.isNearest_mul hrate).value_eq, hzero hvalid, mul_zero, rounded_zero]
      rw [hnothing, value_zero]
      linarith [hpenalty.value_nonneg]

/-- Counters that fit a machine word have a share that is a number. -/
theorem inUnit_successRate {validBlocks invalidBlocks : Nat} (hpos : 0 < validBlocks + invalidBlocks)
    (hword : validBlocks + invalidBlocks < 2 ^ 64) :
    InUnit (Float.ofNat validBlocks / Float.ofNat (validBlocks + invalidBlocks)) := by
  rcases successRate_spec hpos with hnan | ⟨hunit, -⟩
  · have hone : 1 ≤ value (Float.ofNat (validBlocks + invalidBlocks)) := by
      rw [(isNearest_ofNat _).value_eq, ← rounded_one]
      exact rounded_mono (by exact_mod_cast hpos)
    -- Both of them are finite doubles, and the divisor is not zero.
    have hvalid : (Float.ofNat validBlocks).isFinite = true := isFinite_ofNat (by omega)
    rw [(isNearest_div hvalid (isFinite_ofNat hword) (by linarith)).isNumber] at hnan
    cases hnan
  · exact hunit

/-- What such counters deserve is a finite number, so that writing it only clamps it. -/
theorem ofFloat_deserved {validBlocks invalidBlocks : Nat} (hpos : 0 < validBlocks + invalidBlocks)
    (hword : validBlocks + invalidBlocks < 2 ^ 64) (floods : Nat) :
    ofFloat (deserved validBlocks invalidBlocks floods) = clampUnit (deserved validBlocks invalidBlocks floods) := by
  have hearned : InUnit (successWeight * (Float.ofNat validBlocks / Float.ofNat (validBlocks + invalidBlocks))) :=
    InUnit.mul (by decide) (inUnit_successRate hpos hword)
  have hpenalty : InUnit (floodWeight * lesser (Float.ofNat floods / floodSaturation) 1.0) :=
    InUnit.mul (by decide) (inUnit_floodPenalty floods)
  have hsub := isNearest_sub hearned.isFinite hpenalty.isFinite
  -- A difference of two numbers on the scale is nowhere near the largest double.
  have hbound : (1 : ℚ) < overflow := by exact_mod_cast natCast_lt_overflow (n := 1) (by norm_num)
  have hfinite : (deserved validBlocks invalidBlocks floods).isFinite = true := by
    rw [deserved, isFinite_iff hsub.isNumber, hsub.value_eq, abs_lt]
    constructor
    · calc -overflow < -1 := neg_lt_neg hbound
        _ = rounded (-1) := by rw [rounded_neg, rounded_one]
        _ ≤ _ := rounded_mono (by linarith [hearned.value_nonneg, hpenalty.value_le_one])
    · calc _ ≤ rounded 1 := rounded_mono (by linarith [hearned.value_le_one, hpenalty.value_nonneg])
        _ = 1 := rounded_one
        _ < overflow := hbound
  rw [ofFloat, if_pos hfinite]

end PeerWarden.Trust
