import PeerWarden.Proofs.Number.Rounding

/-!
# Doubles and Their Values

A double is stored as a sign, a mantissa and an exponent. Arithmetic computes a mantissa that may be too long,
together with two bits about what is behind it, shifts it to the grid of doubles and rounds. Here this is
shown to give the nearest double in the sense of `rounded`.

## Main definitions

- `Holds`: a mantissa with its two bits stands for a number
- `OnGrid`: a mantissa and an exponent are those of a double, if they went on without bound
- `value`: the number that a double stands for; infinity stands at the bound that no double reaches

## Main statements

- `roundWithAccuracy_eq`: shifting and rounding gives the nearest value on the grid
- `unpack_pack_finite`: storing a value on the grid keeps it, unless it is too large
-/

open Float.Model (Format totalExponent)
open Float.Model.UnpackedFloat

namespace PeerWarden.Number

/-! ## Mantissas with two bits -/

/-- A mantissa with its two bits stands for a number: the mantissa is the whole part, the round bit says
    whether at least a half is behind it, and the sticky bit whether anything else is. -/
structure Holds (em : ExtendedMantissa) (x : ℚ) : Prop where
  le : (em.mantissa : ℚ) ≤ x
  lt : x < em.mantissa + 1
  roundBit : em.roundBit = true ↔ 2 * (em.mantissa : ℚ) + 1 ≤ 2 * x
  stickyBit : em.stickyBit = true ↔ x ≠ em.mantissa ∧ 2 * x ≠ 2 * em.mantissa + 1

namespace Holds

variable {em : ExtendedMantissa} {x : ℚ}

theorem natCast (m : ℕ) : Holds (.ofMantissaAndAccuracy m .exact) m where
  le := le_rfl
  lt := lt_add_one _
  roundBit := by simp [ExtendedMantissa.ofMantissaAndAccuracy]
  stickyBit := by simp [ExtendedMantissa.ofMantissaAndAccuracy]

/-- The two bits of a quotient, read off its remainder. -/
private theorem bits_of_remainder (whole rem : ℕ) {den : ℕ} (hden : 0 < den) :
    ExtendedMantissa.ofMantissaAndAccuracy whole (accuracyOfFraction rem den) =
      ⟨whole, decide (den ≤ 2 * rem), decide (rem ≠ 0 ∧ 2 * rem ≠ den)⟩ := by
  unfold accuracyOfFraction
  split_ifs with h0
  · simp [ExtendedMantissa.ofMantissaAndAccuracy, h0, hden.ne']
  · -- The remainder lies below, at or above half of the divisor.
    rcases lt_trichotomy (2 * rem) den with h | h | h
    · simp [ExtendedMantissa.ofMantissaAndAccuracy, Nat.compare_eq_lt.mpr h, h0, h, h.ne]
    · simp [ExtendedMantissa.ofMantissaAndAccuracy, h, h0]
    · simp [ExtendedMantissa.ofMantissaAndAccuracy, Nat.compare_eq_gt.mpr h, h0, h.le, h.ne']

/-- A quotient with remainder stands for the exact quotient. -/
theorem quotient (num : ℕ) {den : ℕ} (hden : 0 < den) :
    Holds (.ofMantissaAndAccuracy (num / den) (accuracyOfFraction (num % den) den)) (num / den) := by
  have hpos : (0 : ℚ) < den := by exact_mod_cast hden
  have hlt : ((num % den : ℕ) : ℚ) < den := by exact_mod_cast Nat.mod_lt num hden
  have hsplit : (num : ℚ) = (num / den : ℕ) * den + (num % den : ℕ) := by
    exact_mod_cast (Nat.div_add_mod' num den).symm
  have hx : (num / den : ℚ) * den = num := div_mul_cancel₀ _ hpos.ne'
  rw [bits_of_remainder _ _ hden]
  -- Everything is compared after multiplication by the divisor.
  constructor
  · rw [le_div_iff₀ hpos]
    linarith [Nat.cast_nonneg (α := ℚ) (num % den)]
  · rw [div_lt_iff₀ hpos]
    linarith
  · have hcast : den ≤ 2 * (num % den) ↔ (den : ℚ) ≤ 2 * (num % den : ℕ) := by exact_mod_cast Iff.rfl
    simp only [decide_eq_true_eq]
    rw [hcast, ← mul_div_assoc, le_div_iff₀ hpos]
    constructor <;> intro h <;> linarith
  · have hzero : num % den = 0 ↔ ((num % den : ℕ) : ℚ) = 0 := Nat.cast_eq_zero.symm
    have hhalf : 2 * (num % den) = den ↔ 2 * ((num % den : ℕ) : ℚ) = den := by exact_mod_cast Iff.rfl
    have hwhole : (num / den : ℚ) = (num / den : ℕ) ↔ ((num % den : ℕ) : ℚ) = 0 := by
      rw [div_eq_iff hpos.ne']
      constructor <;> intro h <;> linarith
    have hmiddle : 2 * (num / den : ℚ) = 2 * (num / den : ℕ) + 1 ↔ 2 * ((num % den : ℕ) : ℚ) = den := by
      rw [← mul_div_assoc, div_eq_iff hpos.ne']
      constructor <;> intro h <;> linarith
    simp only [decide_eq_true_eq, ne_eq, hzero, hhalf, hwhole, hmiddle]

/-- The two bits suffice for rounding. -/
theorem roundedMantissa (h : Holds em x) : (em.roundedMantissa : ℤ) = halfEven x := by
  obtain ⟨m, roundBit, stickyBit⟩ := em
  obtain ⟨hle, hlt, hround, hsticky⟩ := h
  have hfloor : ⌊x⌋ = m := Int.floor_eq_iff.mpr ⟨by exact_mod_cast hle, by exact_mod_cast hlt⟩
  have hfract : Int.fract x = x - m := by rw [Int.fract, hfloor, Int.cast_natCast]
  unfold halfEven
  rw [hfloor, hfract]
  -- The two bits say whether the fraction is nothing, below a half, a half or above it.
  cases roundBit <;> cases stickyBit <;>
    simp only [ExtendedMantissa.roundedMantissa, ExtendedMantissa.accuracy, Accuracy.roundToNearestEven,
      Bool.false_eq_true, true_iff, false_iff, not_le, not_and_or, not_not] at hround hsticky ⊢
  · rw [if_pos (by linarith)]
  · rw [if_pos (by linarith)]
  · -- At a half the even neighbour is taken.
    have : 2 * x = 2 * m + 1 := hsticky.resolve_left fun h => by linarith
    rw [if_neg (by linarith), if_neg (by linarith)]
    push_cast
    rfl
  · have : 2 * (m : ℚ) + 1 < 2 * x := lt_of_le_of_ne hround (Ne.symm hsticky.2)
    rw [if_neg (by linarith), if_pos (by linarith)]
    push_cast
    rfl

/-- Shifting a mantissa by one place halves the number. -/
theorem shiftRightOne (h : Holds em x) : Holds em.shiftRightOne (x / 2) := by
  obtain ⟨m, roundBit, stickyBit⟩ := em
  obtain ⟨hle, hlt, hround, hsticky⟩ := h
  simp only at hle hlt hround hsticky
  -- Either bit means that something is left behind the mantissa.
  have hrest : (roundBit || stickyBit) = true ↔ x ≠ m := by
    rw [Bool.or_eq_true, hround, hsticky]
    constructor
    · rintro (h | h) heq
      · linarith
      · exact h.1 heq
    · intro hne
      by_cases h : 2 * (m : ℚ) + 1 ≤ 2 * x
      · exact Or.inl h
      · exact Or.inr ⟨hne, fun heq => h heq.ge⟩
  -- The last bit of the mantissa moves to the front of the fraction.
  have hm : (m : ℚ) = 2 * (m / 2 : ℕ) + (m % 2 : ℕ) := by exact_mod_cast (Nat.div_add_mod m 2).symm
  obtain ⟨hbit, hm⟩ | ⟨hbit, hm⟩ : (m % 2 = 0 ∧ (m : ℚ) = 2 * (m / 2 : ℕ)) ∨
      (m % 2 = 1 ∧ (m : ℚ) = 2 * (m / 2 : ℕ) + 1) := by
    rcases Nat.mod_two_eq_zero_or_one m with hbit | hbit
    · exact Or.inl ⟨hbit, by simpa [hbit] using hm⟩
    · exact Or.inr ⟨hbit, by simpa [hbit] using hm⟩
  · -- The last bit is clear: less than a half is behind the shifted mantissa.
    constructor <;> simp only [ExtendedMantissa.shiftRightOne, hrest, hbit]
    · linarith
    · linarith
    · simp only [bne_self_eq_false, Bool.false_eq_true, false_iff, not_le]
      linarith
    · constructor
      · exact fun hne => ⟨fun h => hne (by linarith), fun h => by linarith⟩
      · exact fun h heq => h.1 (by linarith)
  · -- The last bit is set: at least a half is behind it.
    constructor <;> simp only [ExtendedMantissa.shiftRightOne, hrest, hbit]
    · linarith
    · linarith
    · simp only [ne_eq, one_ne_zero, not_false_eq_true, bne_iff_ne, true_iff]
      linarith
    · constructor
      · exact fun hne => ⟨fun h => by linarith, fun h => hne (by linarith)⟩
      · exact fun h heq => h.2 (by linarith)

theorem shiftRight (h : Holds em x) (n : ℕ) : Holds (em >>> n) (x / 2 ^ n) := by
  induction n with
  | zero =>
    rw [pow_zero, div_one]
    exact h
  | succ n ih =>
    have hstep : em >>> (n + 1) = (em >>> n).shiftRightOne := rfl
    rw [hstep, pow_succ, ← div_div]
    exact ih.shiftRightOne

end Holds

/-! ## Shifting to the grid -/

/-- A mantissa and an exponent are those of a double, if the doubles went on without bound. -/
structure OnGrid (m : ℕ) (e : ℤ) : Prop where
  lt : m < 2 ^ 53
  le : -1074 ≤ e
  full : 2 ^ 52 ≤ m ∨ e = -1074

theorem targetExponent_eq (t : ℤ) : Format.binary64.targetExponent t = max (t - 53) (-1074) := rfl

/-- The magnitude of a number is read off its mantissa. -/
theorem log_scaled {m : ℕ} {x : ℚ} (hm : m ≠ 0) (hle : (m : ℚ) ≤ x) (hlt : x < m + 1) (e : ℤ) :
    Int.log 2 (x * 2 ^ e) = m.log2 + e := by
  -- Nothing behind the mantissa carries the number past the next power of two.
  have hlow : (2 : ℚ) ^ (m.log2 : ℤ) ≤ x := by
    have : ((2 ^ m.log2 : ℕ) : ℚ) ≤ m := by exact_mod_cast Nat.log2_self_le hm
    rw [zpow_natCast]
    push_cast at this
    exact this.trans hle
  have hhigh : x < (2 : ℚ) ^ ((m.log2 : ℤ) + 1) := by
    have : ((m + 1 : ℕ) : ℚ) ≤ (2 ^ (m.log2 + 1) : ℕ) := by exact_mod_cast Nat.lt_log2_self
    have hcast : ((2 ^ (m.log2 + 1) : ℕ) : ℚ) = (2 : ℚ) ^ ((m.log2 : ℤ) + 1) := by
      rw [← Nat.cast_succ, zpow_natCast]
      push_cast
      rfl
    rw [hcast] at this
    push_cast at this
    exact hlt.trans_le this
  have hpos : (0 : ℚ) < 2 ^ e := by positivity
  have hx : 0 < x := (by positivity : (0 : ℚ) < 2 ^ (m.log2 : ℤ)).trans_le hlow
  apply le_antisymm
  · rw [← Int.lt_add_one_iff, ← Int.lt_zpow_iff_log_lt one_lt_two (mul_pos hx hpos)]
    push_cast
    rw [add_right_comm, zpow_add₀ two_ne_zero]
    exact mul_lt_mul_of_pos_right hhigh hpos
  · rw [← Int.zpow_le_iff_le_log one_lt_two (mul_pos hx hpos)]
    push_cast
    rw [zpow_add₀ two_ne_zero]
    exact mul_le_mul_of_nonneg_right hlow hpos.le

/-- The grid around a number is the one to which its mantissa is shifted. -/
theorem max_targetExponent {m : ℕ} {acc : Accuracy} {x : ℚ} {e : ℤ}
    (h : Holds (.ofMantissaAndAccuracy m acc) x) (hx : 0 < x) (he : e ≤ ulp (x * 2 ^ e)) :
    max e (Format.binary64.targetExponent (totalExponent m e)) = ulp (x * 2 ^ e) := by
  have hmantissa : (ExtendedMantissa.ofMantissaAndAccuracy m acc).mantissa = m := by
    rcases acc with _ | (_ | _ | _) <;> rfl
  obtain ⟨hle, hlt, -, -⟩ := h
  rw [hmantissa] at hle hlt
  have hpos : (0 : ℚ) < 2 ^ e := by positivity
  rw [targetExponent_eq, totalExponent]
  unfold ulp at he ⊢
  rw [abs_of_pos (mul_pos hx hpos)] at he ⊢
  rcases Nat.eq_zero_or_pos m with rfl | hm
  · -- Without a whole part the number lies among the smallest doubles.
    have hlog : Int.log 2 (x * 2 ^ e) < e := by
      rw [← Int.lt_zpow_iff_log_lt one_lt_two (mul_pos hx hpos)]
      have hone : x < 1 := by simpa using hlt
      push_cast
      exact mul_lt_of_lt_one_left hpos hone
    have : (Nat.log2 0 : ℤ) = 0 := rfl
    omega
  · rw [log_scaled hm.ne' hle hlt] at he ⊢
    omega

/-- The first shift brings a number to its grid. -/
theorem shiftToTargetExponent_holds {m : ℕ} {acc : Accuracy} {x : ℚ} {e : ℤ}
    (h : Holds (.ofMantissaAndAccuracy m acc) x) (hx : 0 < x) (he : e ≤ ulp (x * 2 ^ e)) :
    ∃ em, shiftToTargetExponent .binary64 m e acc = (em, ulp (x * 2 ^ e)) ∧
      Holds em (x * 2 ^ e / 2 ^ ulp (x * 2 ^ e)) := by
  have hmax := max_targetExponent h hx he
  set t := Format.binary64.targetExponent (totalExponent m e) with ht
  refine ⟨ExtendedMantissa.ofMantissaAndAccuracy m acc >>> (t - e).toNat, ?_, ?_⟩
  · have hexp : e + ((t - e).toNat : ℤ) = ulp (x * 2 ^ e) := by omega
    rw [← hexp]
    rfl
  · have hshift : x * 2 ^ e / 2 ^ ulp (x * 2 ^ e) = x / 2 ^ (t - e).toNat := by
      have hexp : ulp (x * 2 ^ e) = (t - e).toNat + e := by omega
      rw [hexp, zpow_add₀ two_ne_zero, zpow_natCast]
      field_simp
    rw [hshift]
    exact h.shiftRight _

/-- The second shift only concerns a mantissa that rounding made one bit too long. -/
theorem shiftToTargetExponent_rounded {r : ℕ} {e : ℤ} (hr : r ≤ 2 ^ 53) (he : -1074 ≤ e)
    (hfull : 2 ^ 52 ≤ r ∨ e = -1074) :
    OnGrid (shiftToTargetExponent .binary64 r e .exact).1.mantissa (shiftToTargetExponent .binary64 r e .exact).2 ∧
      ((shiftToTargetExponent .binary64 r e .exact).1.mantissa : ℚ) *
        2 ^ (shiftToTargetExponent .binary64 r e .exact).2 = r * 2 ^ e := by
  rcases hr.lt_or_eq with hlt | rfl
  · -- A mantissa within 53 bits is not shifted at all.
    have hlog : r.log2 < 53 := by
      rcases Nat.eq_zero_or_pos r with rfl | hpos
      · decide
      · exact (Nat.log2_lt hpos.ne').mpr hlt
    have hnone : (Format.binary64.targetExponent (totalExponent r e) - e).toNat = 0 := by
      rw [targetExponent_eq, totalExponent]
      omega
    have hshift : shiftToTargetExponent .binary64 r e .exact = (.ofMantissaAndAccuracy r .exact, e) := by
      rw [shiftToTargetExponent, shiftToExponent, hnone]
      exact Prod.ext rfl (Int.add_zero e)
    rw [hshift]
    exact ⟨⟨hlt, he, hfull⟩, rfl⟩
  · -- The only longer one is a power of two, which loses a zero.
    have hone : (Format.binary64.targetExponent (totalExponent (2 ^ 53) e) - e).toNat = 1 := by
      rw [targetExponent_eq, totalExponent, Nat.log2_two_pow]
      omega
    have hshift : shiftToTargetExponent .binary64 (2 ^ 53) e .exact = (⟨2 ^ 52, false, false⟩, e + 1) := by
      rw [shiftToTargetExponent, shiftToExponent, hone]
      rfl
    rw [hshift]
    refine ⟨⟨by norm_num, by omega, Or.inl le_rfl⟩, ?_⟩
    push_cast
    rw [zpow_add_one₀ two_ne_zero]
    ring

/-- Shifting and rounding gives the nearest value on the grid. -/
theorem roundWithAccuracy_eq (s : Sign) {m : ℕ} {acc : Accuracy} {x : ℚ} {e : ℤ}
    (h : Holds (.ofMantissaAndAccuracy m acc) x) (hx : 0 < x) (he : e ≤ ulp (x * 2 ^ e)) :
    ∃ m' e', OnGrid m' e' ∧ (m' * 2 ^ e' : ℚ) = nearest (x * 2 ^ e) ∧
      roundWithAccuracy .binary64 s m e acc =
        if hm : m' = 0 then .zero s else .finite s m' e' (Nat.pos_of_ne_zero hm) := by
  obtain ⟨em, hshift, hholds⟩ := shiftToTargetExponent_holds h hx he
  have hrounded := hholds.roundedMantissa
  have hpos : (0 : ℚ) < x * 2 ^ e := by positivity
  set q := x * 2 ^ e
  have hulp : (0 : ℚ) < 2 ^ ulp q := by positivity
  -- Before the second shift, the bounds on the mantissa come from those on the number.
  have hle : em.roundedMantissa ≤ 2 ^ 53 := by
    have hbelow : q / 2 ^ ulp q ≤ ((2 ^ 53 : ℤ) : ℚ) := by
      rw [div_le_iff₀ hulp]
      exact_mod_cast (lt_two_zpow_ulp q).le
    have := halfEven_mono hbelow
    rw [← hrounded, halfEven_intCast] at this
    exact_mod_cast this
  have hfull : 2 ^ 52 ≤ em.roundedMantissa ∨ ulp q = -1074 := by
    rcases (le_ulp q).lt_or_eq with hlt | heq
    · refine Or.inl ?_
      have habove : ((2 ^ 52 : ℤ) : ℚ) ≤ q / 2 ^ ulp q := by
        rw [le_div_iff₀ hulp]
        exact_mod_cast two_zpow_ulp_le hpos hlt
      have := halfEven_mono habove
      rw [← hrounded, halfEven_intCast] at this
      exact_mod_cast this
    · exact Or.inr heq.symm
  obtain ⟨hgrid, hvalue⟩ := shiftToTargetExponent_rounded hle (le_ulp q) hfull
  refine ⟨_, _, hgrid, ?_, ?_⟩
  · rw [hvalue, nearest, ← hrounded, Int.cast_natCast]
  · simp only [roundWithAccuracy, hshift]

/-! ## Storing -/

theorem finite_congr {s : Sign} {m m' : ℕ} {e e' : ℤ} {hm : 0 < m} {hm' : 0 < m'} (h : m = m') (he : e = e') :
    finite s m e hm = finite s m' e' hm' := by
  subst h he
  rfl

section Components

variable (s : Sign) (exponent : BitVec 11) (mantissa : BitVec 52)

theorem leadingOne_append : (1#1 ++ mantissa).toNat = 2 ^ 52 + mantissa.toNat := by
  rw [BitVec.toNat_append, ← Nat.shiftLeft_add_eq_or_of_lt mantissa.isLt]
  rfl

theorem unpack_infinity : unpack .binary64 (packComponents .binary64 s (-1#11) 0#52) = infinity s := by
  simp only [unpack, unpackExponent_packComponents, unpackMantissa_packComponents,
    unpackSign_packComponents, Sign.ofBitVec_toBitVec]
  rfl

theorem unpack_subnormal (h : 0 < mantissa.toNat) :
    unpack .binary64 (packComponents .binary64 s 0#11 mantissa) = finite s mantissa.toNat (-1074) h := by
  have hne : mantissa ≠ 0#52 := fun heq => by simp [heq] at h
  simp only [unpack, unpackExponent_packComponents, unpackMantissa_packComponents,
    unpackSign_packComponents, Sign.ofBitVec_toBitVec]
  rw [if_neg (by decide), if_pos trivial, dif_neg hne]
  rfl

/-- At the exponents in between, a leading one is put in front of the mantissa. -/
theorem unpack_normal (h₀ : 0 < exponent.toNat) (h₁ : exponent.toNat < 2047) :
    unpack .binary64 (packComponents .binary64 s exponent mantissa) =
      finite s (2 ^ 52 + mantissa.toNat) (exponent.toNat - 1075) (Nat.add_pos_left (Nat.two_pow_pos 52) _) := by
  have hne : exponent ≠ -1#11 := fun heq => by simp [heq] at h₁
  have hne' : exponent ≠ 0#11 := fun heq => by simp [heq] at h₀
  simp only [unpack, unpackExponent_packComponents, unpackMantissa_packComponents,
    unpackSign_packComponents, Sign.ofBitVec_toBitVec]
  rw [if_neg hne, if_neg hne']
  exact finite_congr (leadingOne_append mantissa) rfl

end Components

/-- The parts in which a value on the grid is stored. -/
theorem pack_finite (s : Sign) {m : ℕ} (e : ℤ) (hm : 0 < m) (hlt : m < 2 ^ 53) :
    pack .binary64 (finite s m e hm) =
      if 2047 ≤ (e + 1075).toNat then packComponents .binary64 s (-1#11) 0#52
      else packComponents .binary64 s (if 2 ^ 52 ≤ m then BitVec.ofNat 11 (e + 1075).toNat else 0#11)
        (BitVec.ofNat 52 m) := by
  have hlog : m.log2 + 1 = Format.binary64.mantissaBits ↔ 2 ^ 52 ≤ m := by
    show m.log2 + 1 = 53 ↔ _
    rw [← Nat.le_log2 hm.ne']
    have := (Nat.log2_lt hm.ne').mpr hlt
    omega
  have hbiased : (e + (Format.binary64.exponentBias : ℕ) + (52 : ℕ)).toNat = (e + 1075).toNat := by
    show (e + 1023 + 52).toNat = _
    omega
  have hlarge : 2 ^ Format.binary64.exponentBits ≤ (e + 1075).toNat + 1 ↔ 2047 ≤ (e + 1075).toNat := by
    show 2048 ≤ _ ↔ _
    omega
  simp only [pack, hlog, hbiased]
  split_ifs <;> first | omega | rfl

/-- A value that lies on the grid and is not too large is stored as it is; what is too large is stored as
    infinity. -/
theorem unpack_pack_finite (s : Sign) {m : ℕ} {e : ℤ} (hm : 0 < m) (h : OnGrid m e) :
    unpack .binary64 (pack .binary64 (finite s m e hm)) = if e ≤ 971 then finite s m e hm else infinity s := by
  obtain ⟨hlt, hle, hfull⟩ := h
  rw [pack_finite s e hm hlt]
  by_cases hlarge : 2047 ≤ (e + 1075).toNat
  · rw [if_pos hlarge, if_neg (show ¬e ≤ 971 by omega), unpack_infinity]
  · rw [if_neg hlarge, if_pos (show e ≤ 971 by omega)]
    -- The leading one of a full mantissa is not stored.
    by_cases hmant : 2 ^ 52 ≤ m
    · have hexp : (BitVec.ofNat 11 (e + 1075).toNat).toNat = (e + 1075).toNat := by
        rw [BitVec.toNat_ofNat, Nat.mod_eq_of_lt (by omega)]
      have hmod : (BitVec.ofNat 52 m).toNat = m - 2 ^ 52 := by
        rw [BitVec.toNat_ofNat]
        omega
      rw [if_pos hmant, unpack_normal _ _ _ (by omega) (by omega)]
      exact finite_congr (by omega) (by omega)
    · have hmod : (BitVec.ofNat 52 m).toNat = m := by
        rw [BitVec.toNat_ofNat, Nat.mod_eq_of_lt (by omega)]
      rw [if_neg hmant, unpack_subnormal _ _ (by omega)]
      exact finite_congr hmod (hfull.resolve_left hmant).symm

/-! ## Values -/

/-- The factor that a sign stands for. -/
def signFactor : Sign → ℚ
  | .negative => -1
  | .positive => 1

@[simp] theorem signFactor_negative : signFactor .negative = -1 := rfl

@[simp] theorem signFactor_positive : signFactor .positive = 1 := rfl

/-- The number that an unpacked double stands for. Infinity stands at the bound that no double reaches, and
    what is not a number stands for nothing. -/
def unpackedValue : Float.Model.UnpackedFloat → ℚ
  | .notANumber => 0
  | .infinity s => signFactor s * overflow
  | .zero _ => 0
  | .finite s m e _ => signFactor s * (m * 2 ^ e)

@[simp] theorem unpackedValue_infinity (s : Sign) : unpackedValue (.infinity s) = signFactor s * overflow := rfl

@[simp] theorem unpackedValue_zero (s : Sign) : unpackedValue (.zero s) = 0 := rfl

@[simp] theorem unpackedValue_finite (s : Sign) (m : ℕ) (e : ℤ) (hm : 0 < m) :
    unpackedValue (.finite s m e hm) = signFactor s * (m * 2 ^ e) := rfl

/-- The number that a double stands for. -/
def value (x : Float) : ℚ := unpackedValue x.toModel.unpack

/-- What unpacking a double can give. -/
def IsStored : Float.Model.UnpackedFloat → Prop
  | .finite _ m e _ => OnGrid m e ∧ e ≤ 971
  | _ => True

theorem isStored_unpack (bits : BitVec Format.binary64.numBits) : IsStored (unpack .binary64 bits) := by
  have hm : (unpackMantissa bits).toNat < 2 ^ 52 := (unpackMantissa bits).isLt
  have he : (unpackExponent bits).toNat < 2 ^ 11 := (unpackExponent bits).isLt
  have hbias : (Format.binary64.exponentBias : ℤ) = 1023 := rfl
  dsimp only [unpack]
  split_ifs with hlast hzero hfirst hzero'
  -- No number, infinity and zero are stored in any case.
  · trivial
  · trivial
  · trivial
  · have hexp : (unpackExponent bits).toNat = 0 := by rw [hfirst]; rfl
    simp only [IsStored, hexp, hbias]
    exact ⟨⟨by omega, by decide, Or.inr rfl⟩, by decide⟩
  · have hpos : 0 < (unpackExponent bits).toNat :=
      Nat.pos_of_ne_zero fun h => hfirst (BitVec.eq_of_toNat_eq h)
    have hlt : (unpackExponent bits).toNat < 2047 := by
      have : (unpackExponent bits).toNat ≠ 2047 := fun h => hlast (BitVec.eq_of_toNat_eq h)
      omega
    simp only [IsStored, leadingOne_append, hbias]
    exact ⟨⟨by omega, by omega, Or.inl (by omega)⟩, by omega⟩

/-- Below the largest exponent a value on the grid stays under the bound. -/
theorem OnGrid.lt_overflow {m : ℕ} {e : ℤ} (h : OnGrid m e) (he : e ≤ 971) : (m * 2 ^ e : ℚ) < overflow := by
  have hm : (m : ℚ) < 2 ^ 53 := by exact_mod_cast h.lt
  calc (m * 2 ^ e : ℚ) < 2 ^ 53 * 2 ^ e := mul_lt_mul_of_pos_right hm (by positivity)
    _ ≤ 2 ^ 53 * 2 ^ (971 : ℤ) := mul_le_mul_of_nonneg_left (zpow_le_zpow_right₀ one_le_two he) (by positivity)
    _ = overflow := (zpow_add₀ two_ne_zero 53 971).symm

theorem OnGrid.overflow_le {m : ℕ} {e : ℤ} (h : OnGrid m e) (he : 971 < e) : overflow ≤ (m * 2 ^ e : ℚ) := by
  have hm : (2 ^ 52 : ℚ) ≤ m := by exact_mod_cast h.full.resolve_right (by omega)
  calc overflow = 2 ^ 52 * 2 ^ (972 : ℤ) := zpow_add₀ two_ne_zero 52 972
    _ ≤ 2 ^ 52 * 2 ^ e := mul_le_mul_of_nonneg_left (zpow_le_zpow_right₀ one_le_two (by omega)) (by positivity)
    _ ≤ m * 2 ^ e := mul_le_mul_of_nonneg_right hm (by positivity)

/-- A double is the one nearest to a number. -/
structure IsNearest (x : Float) (q : ℚ) : Prop where
  isNumber : x.isNaN = false
  value_eq : value x = rounded q

theorem rounded_signFactor (s : Sign) (q : ℚ) : rounded (signFactor s * q) = signFactor s * rounded q := by
  cases s
  · simp [rounded_neg]
  · simp

theorem isNearest_roundWithAccuracy (s : Sign) {m : ℕ} {acc : Accuracy} {x : ℚ} {e : ℤ}
    (h : Holds (.ofMantissaAndAccuracy m acc) x) (hx : 0 < x) (he : e ≤ ulp (x * 2 ^ e)) :
    IsNearest (.ofModel (.pack (roundWithAccuracy .binary64 s m e acc))) (signFactor s * (x * 2 ^ e)) := by
  obtain ⟨m', e', hgrid, hnearest, hround⟩ := roundWithAccuracy_eq s h hx he
  have hnonneg : 0 ≤ nearest (x * 2 ^ e) := nearest_nonneg (by positivity)
  have hrounded : rounded (x * 2 ^ e) = min overflow (nearest (x * 2 ^ e)) := by
    have := overflow_pos
    exact max_eq_right (le_min (by linarith) (by linarith))
  have hunpack : (Float.ofModel (.pack (roundWithAccuracy .binary64 s m e acc))).toModel.unpack =
      unpack .binary64 (pack .binary64 (roundWithAccuracy .binary64 s m e acc)) := rfl
  -- What is rounded may be stored as zero, as it is, or as infinity; each case gives its value.
  have hstored (u : Float.Model.UnpackedFloat)
      (hu : unpack .binary64 (pack .binary64 (roundWithAccuracy .binary64 s m e acc)) = u) (hnum : u.isNaN = false)
      (hval : unpackedValue u = signFactor s * rounded (x * 2 ^ e)) :
      IsNearest (.ofModel (.pack (roundWithAccuracy .binary64 s m e acc))) (signFactor s * (x * 2 ^ e)) := by
    constructor
    · show (Float.Model.unpack _).isNaN = false
      rw [hunpack, hu, hnum]
    · rw [value, hunpack, hu, hval, rounded_signFactor]
  by_cases hm' : m' = 0
  · refine hstored (zero s) ?_ rfl ?_
    · rw [hround, dif_pos hm']
      exact unpack_packedZero
    · rw [hrounded, ← hnearest, hm']
      simp [overflow_pos.le]
  · rcases le_or_gt e' 971 with hsmall | hlarge
    · refine hstored (finite s m' e' (Nat.pos_of_ne_zero hm')) ?_ rfl ?_
      · rw [hround, dif_neg hm', unpack_pack_finite _ _ hgrid, if_pos hsmall]
      · rw [hrounded, ← hnearest, min_eq_right (hgrid.lt_overflow hsmall).le, unpackedValue_finite]
    · refine hstored (infinity s) ?_ rfl ?_
      · rw [hround, dif_neg hm', unpack_pack_finite _ _ hgrid, if_neg (not_le.mpr hlarge)]
      · rw [hrounded, ← hnearest, min_eq_left (hgrid.overflow_le hlarge), unpackedValue_infinity]

end PeerWarden.Number
