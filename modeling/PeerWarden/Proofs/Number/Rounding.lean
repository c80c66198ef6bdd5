import Mathlib

/-!
# Rounding to Doubles

Every operation on doubles gives the double nearest to the exact result. Here this double is described by its
value alone: the exact result is divided by the spacing of the doubles around it, rounded to an integer, and
multiplied by the spacing again.

## Main definitions

- `halfEven`: the nearest integer, a half to the even neighbour
- `ulp`: the exponent at which the doubles around a number are spaced
- `rounded`: the value of the double nearest to a number, where what is too large for a double stays at the
  bound that no double reaches

## Main statements

- `halfEven_mono`, `nearest_mono`, `rounded_mono`: rounding is monotone
- `nearest_eq_self`: what lies on the grid of doubles is not changed by rounding
-/

namespace PeerWarden.Number

/-! ## Rounding to integers -/

/-- The nearest integer; a half goes to the even neighbour. -/
def halfEven (x : ℚ) : ℤ :=
  if Int.fract x < 1 / 2 then ⌊x⌋ else if 1 / 2 < Int.fract x then ⌊x⌋ + 1 else ⌊x⌋ + ⌊x⌋ % 2

theorem floor_le_halfEven (x : ℚ) : ⌊x⌋ ≤ halfEven x := by
  unfold halfEven
  split_ifs <;> omega

theorem halfEven_le_floor_add_one (x : ℚ) : halfEven x ≤ ⌊x⌋ + 1 := by
  unfold halfEven
  split_ifs <;> omega

@[simp] theorem halfEven_intCast (n : ℤ) : halfEven n = n := by
  simp [halfEven]

theorem halfEven_mono {x y : ℚ} (h : x ≤ y) : halfEven x ≤ halfEven y := by
  rcases (Int.floor_mono h).lt_or_eq with hlt | heq
  · exact (halfEven_le_floor_add_one x).trans (le_trans hlt (floor_le_halfEven y))
  · -- Between two integers, only the fraction decides.
    have hfract : Int.fract x ≤ Int.fract y := by
      unfold Int.fract
      rw [heq]
      linarith
    unfold halfEven
    rw [heq]
    split_ifs <;> first | omega | linarith

theorem halfEven_neg (x : ℚ) : halfEven (-x) = -halfEven x := by
  by_cases hx : Int.fract x = 0
  · -- An integer has no fraction that negation could turn round.
    obtain ⟨n, rfl⟩ : ∃ n : ℤ, x = n := ⟨⌊x⌋, by rw [← Int.floor_add_fract x, hx]; simp⟩
    rw [← Int.cast_neg, halfEven_intCast, halfEven_intCast]
  · have hfract : Int.fract (-x) = 1 - Int.fract x := Int.fract_neg hx
    have hfloor : ⌊-x⌋ = -⌊x⌋ - 1 := by
      have hsum := Int.floor_add_fract x
      have hsum' := Int.floor_add_fract (-x)
      rw [hfract] at hsum'
      have : (⌊-x⌋ : ℚ) = ((-⌊x⌋ - 1 : ℤ) : ℚ) := by
        push_cast
        linarith
      exact_mod_cast this
    -- More than a half becomes less than a half, and a half stays one with the same even neighbour.
    unfold halfEven
    rw [hfract, hfloor]
    split_ifs <;> first | omega | linarith

/-! ## The grid of doubles -/

/-- The exponent at which the doubles around a number are spaced: the number has 53 bits in front of the
    point there, unless it lies among the smallest doubles. -/
def ulp (q : ℚ) : ℤ := max (Int.log 2 |q| - 52) (-1074)

/-- The nearest value on the grid of doubles, if they went on without bound. -/
def nearest (q : ℚ) : ℚ := halfEven (q / 2 ^ ulp q) * 2 ^ ulp q

theorem le_ulp (q : ℚ) : -1074 ≤ ulp q := le_max_right _ _

theorem ulp_neg (q : ℚ) : ulp (-q) = ulp q := by
  rw [ulp, ulp, abs_neg]

theorem nearest_neg (q : ℚ) : nearest (-q) = -nearest q := by
  rw [nearest, nearest, ulp_neg, neg_div, halfEven_neg]
  push_cast
  ring

@[simp] theorem nearest_zero : nearest 0 = 0 := by
  have : halfEven 0 = 0 := by simpa using halfEven_intCast 0
  simp [nearest, this]

/-- The multiples of a power of two on a coarser grid lie on the grid around a number. -/
theorem multiple_div_ulp (n : ℤ) {q : ℚ} {e : ℤ} (he : ulp q ≤ e) :
    ∃ k : ℤ, (n * 2 ^ e : ℚ) / 2 ^ ulp q = k := by
  obtain ⟨d, hd⟩ := Int.eq_ofNat_of_zero_le (sub_nonneg.mpr he)
  refine ⟨n * 2 ^ d, ?_⟩
  rw [mul_div_assoc, ← zpow_sub₀ two_ne_zero, hd]
  push_cast
  rfl

/-- Rounding does not pass a multiple of the spacing from below. -/
theorem nearest_le {n : ℤ} {q : ℚ} {e : ℤ} (he : ulp q ≤ e) (h : q ≤ n * 2 ^ e) : nearest q ≤ n * 2 ^ e := by
  have hpos : (0 : ℚ) < 2 ^ ulp q := by positivity
  obtain ⟨k, hk⟩ := multiple_div_ulp n he
  rw [nearest, ← le_div_iff₀ hpos, hk]
  have := halfEven_mono ((div_le_div_iff_of_pos_right hpos).mpr h)
  rw [hk, halfEven_intCast] at this
  exact_mod_cast this

/-- Rounding does not pass a multiple of the spacing from above. -/
theorem le_nearest {n : ℤ} {q : ℚ} {e : ℤ} (he : ulp q ≤ e) (h : n * 2 ^ e ≤ q) : n * 2 ^ e ≤ nearest q := by
  -- This is the bound from the other side for the negated number.
  have hneg : -q ≤ ((-n : ℤ) : ℚ) * 2 ^ e := by
    push_cast
    linarith
  have := nearest_le ((ulp_neg q).le.trans he) hneg
  rw [nearest_neg] at this
  push_cast at this
  linarith

/-- What lies on the grid of doubles is not changed by rounding. -/
theorem nearest_eq_self {n : ℤ} {q : ℚ} {e : ℤ} (he : ulp q ≤ e) (h : q = n * 2 ^ e) : nearest q = q :=
  le_antisymm ((nearest_le he h.le).trans h.ge) (h.le.trans (le_nearest he h.ge))

theorem nearest_nonneg {q : ℚ} (h : 0 ≤ q) : 0 ≤ nearest q := by
  simpa using le_nearest (n := 0) (le_refl (ulp q)) (by simpa using h)

/-- A number is below the power of two that its mantissa must not reach. -/
theorem lt_two_zpow_ulp (q : ℚ) : q < 2 ^ 53 * 2 ^ ulp q := by
  have hlog : |q| < 2 ^ (Int.log 2 |q| + 1) := Int.lt_zpow_succ_log_self (by norm_num) |q|
  have hle : Int.log 2 |q| + 1 ≤ 53 + ulp q := by
    unfold ulp
    omega
  calc q ≤ |q| := le_abs_self q
    _ < 2 ^ (Int.log 2 |q| + 1) := hlog
    _ ≤ 2 ^ (53 + ulp q) := zpow_le_zpow_right₀ one_le_two hle
    _ = 2 ^ 53 * 2 ^ ulp q := zpow_add₀ two_ne_zero 53 (ulp q)

/-- Above the smallest doubles, a mantissa has all its bits. -/
theorem two_zpow_ulp_le {q : ℚ} (hq : 0 < q) (h : -1074 < ulp q) : 2 ^ 52 * 2 ^ ulp q ≤ q := by
  have hlog : (2 : ℚ) ^ Int.log 2 q ≤ q := Int.zpow_log_le_self (by norm_num) hq
  have heq : Int.log 2 q = 52 + ulp q := by
    unfold ulp at h ⊢
    rw [abs_of_pos hq] at h ⊢
    omega
  rw [heq, zpow_add₀ two_ne_zero] at hlog
  exact_mod_cast hlog

/-- Above the smallest doubles, rounding adds at most one part in `2 ^ 52`. -/
theorem nearest_le_mul {q : ℚ} (hq : 0 < q) (h : -1074 < ulp q) : nearest q ≤ q * (1 + 1 / 2 ^ 52) := by
  have hpos : (0 : ℚ) < 2 ^ ulp q := by positivity
  have hspacing := two_zpow_ulp_le hq h
  have hround : (halfEven (q / 2 ^ ulp q) : ℚ) ≤ q / 2 ^ ulp q + 1 :=
    calc (halfEven (q / 2 ^ ulp q) : ℚ) ≤ ⌊q / 2 ^ ulp q⌋ + 1 := by exact_mod_cast halfEven_le_floor_add_one _
      _ ≤ q / 2 ^ ulp q + 1 := by linarith [Int.floor_le (q / 2 ^ ulp q)]
  calc nearest q ≤ (q / 2 ^ ulp q + 1) * 2 ^ ulp q := mul_le_mul_of_nonneg_right hround hpos.le
    _ = q + 2 ^ ulp q := by rw [add_mul, div_mul_cancel₀ _ hpos.ne', one_mul]
    _ ≤ q * (1 + 1 / 2 ^ 52) := by linarith

/-- Far above the smallest doubles, that is wherever numbers are compared with counts. -/
theorem lt_ulp_of_half_le {q : ℚ} (h : 1 / 2 ≤ q) : -1074 < ulp q := by
  have hlog : Int.log 2 ((2 : ℚ) ^ (-1 : ℤ)) ≤ Int.log 2 q := Int.log_mono_right (by positivity) (by norm_num; linarith)
  have hhalf : Int.log 2 ((2 : ℚ) ^ (-1 : ℤ)) = -1 := by exact_mod_cast Int.log_zpow (R := ℚ) one_lt_two (-1)
  rw [ulp, abs_of_pos (by linarith)]
  omega

theorem ulp_mono {q r : ℚ} (hq : 0 < q) (h : q ≤ r) : ulp q ≤ ulp r := by
  unfold ulp
  rw [abs_of_pos hq, abs_of_pos (hq.trans_le h)]
  have := Int.log_mono_right (b := 2) hq h
  omega

private theorem nearest_mono_of_pos {q r : ℚ} (hq : 0 < q) (h : q ≤ r) : nearest q ≤ nearest r := by
  rcases (ulp_mono hq h).lt_or_eq with hlt | heq
  · -- The power of two at which the wider spacing begins lies on both grids.
    have hlow : ((2 ^ 52 : ℤ) : ℚ) * 2 ^ ulp r ≤ r := by
      exact_mod_cast two_zpow_ulp_le (hq.trans_le h) ((le_ulp q).trans_lt hlt)
    have hhigh : q ≤ ((2 ^ 52 : ℤ) : ℚ) * 2 ^ ulp r := by
      have hstep : (2 : ℚ) * 2 ^ ulp q ≤ 2 ^ ulp r := by
        rw [← zpow_one_add₀ two_ne_zero]
        exact zpow_le_zpow_right₀ one_le_two (by omega)
      have := lt_two_zpow_ulp q
      push_cast
      linarith
    exact (nearest_le hlt.le hhigh).trans (le_nearest le_rfl hlow)
  · -- On one grid, rounding to integers decides.
    have hpos : (0 : ℚ) < 2 ^ ulp r := by positivity
    unfold nearest
    rw [heq]
    have := halfEven_mono ((div_le_div_iff_of_pos_right hpos).mpr h)
    exact mul_le_mul_of_nonneg_right (by exact_mod_cast this) hpos.le

theorem nearest_mono {q r : ℚ} (h : q ≤ r) : nearest q ≤ nearest r := by
  rcases lt_or_ge 0 q with hq | hq
  · exact nearest_mono_of_pos hq h
  · rcases lt_or_ge r 0 with hr | hr
    · -- Negation turns two negative numbers into positive ones in the other order.
      have := nearest_mono_of_pos (neg_pos.mpr hr) (neg_le_neg h)
      rw [nearest_neg, nearest_neg] at this
      linarith
    · -- Zero lies between the two and is not changed.
      have := nearest_nonneg (neg_nonneg.mpr hq)
      rw [nearest_neg] at this
      exact (neg_nonneg.mp this).trans (nearest_nonneg hr)

/-! ## Overflow -/

/-- The bound that no double reaches; the largest double is one spacing below. -/
def overflow : ℚ := 2 ^ (1024 : ℤ)

theorem overflow_pos : 0 < overflow := by
  unfold overflow
  positivity

/-- The value of the double nearest to a number. A number too large for a double is taken to the bound. -/
def rounded (q : ℚ) : ℚ := max (-overflow) (min overflow (nearest q))

theorem rounded_mono {q r : ℚ} (h : q ≤ r) : rounded q ≤ rounded r :=
  max_le_max le_rfl (min_le_min le_rfl (nearest_mono h))

theorem rounded_neg (q : ℚ) : rounded (-q) = -rounded q := by
  have := overflow_pos
  rw [rounded, rounded, nearest_neg]
  rcases le_total overflow (nearest q) with h | h
  · rw [min_eq_left h, min_eq_right (by linarith), max_eq_left (by linarith), max_eq_right (by linarith)]
  · rcases le_total (nearest q) (-overflow) with h' | h'
    · rw [min_eq_right h, min_eq_left (by linarith), max_eq_right (by linarith), max_eq_left (by linarith), neg_neg]
    · rw [min_eq_right h, min_eq_right (by linarith), max_eq_right (by linarith), max_eq_right (by linarith)]

theorem rounded_le_nearest {q : ℚ} (h : 0 ≤ q) : rounded q ≤ nearest q := by
  have := overflow_pos
  have := nearest_nonneg h
  exact max_le (by linarith) (min_le_right _ _)

@[simp] theorem rounded_zero : rounded 0 = 0 := by
  simp [rounded, overflow_pos.le]

end PeerWarden.Number
