import Mathlib.Algebra.Order.Round
import Mathlib.Tactic.Ring

/-!
# Rounding half to even
-/

namespace HalfEven

variable {K : Type*} [Field K] [LinearOrder K] [FloorRing K]

/-- The integer nearest to `x`; of two that are as near, the even one. -/
def round (x : K) : ℤ :=
  if x - ⌊x⌋ < 0.5 then ⌊x⌋
  else if x - ⌊x⌋ = 0.5 ∧ ⌊x⌋ % 2 = 0 then ⌊x⌋
  else ⌊x⌋ + 1

theorem le_round {x : K} {m : ℤ} (h : m ≤ x) : m ≤ round x := by
  have hf : m ≤ ⌊x⌋ := Int.le_floor.mpr h
  unfold round
  split_ifs <;> omega

theorem round_le [IsStrictOrderedRing K] {x : K} {m : ℤ} (h : x ≤ m) : round x ≤ m := by
  rcases h.eq_or_lt with rfl | hlt
  · have h2 : (0 : K) < 0.5 := by norm_num
    simp [round, h2]
  · have hf : ⌊x⌋ < m := Int.floor_lt.mpr hlt
    unfold round
    split_ifs <;> omega

@[simp] theorem round_intCast [IsStrictOrderedRing K] (m : ℤ) : round (m : K) = m :=
  le_antisymm (round_le le_rfl) (le_round le_rfl)

theorem abs_round_sub_le [IsStrictOrderedRing K] (x : K) : |round x - x| ≤ 1 / 2 := by
  have h0 := Int.floor_le x
  have h1 := Int.lt_floor_add_one x
  have hhalf : (0.5 : K) = 1 / 2 := by norm_num
  unfold round
  rw [hhalf]
  split_ifs with hlt heq
  all_goals
    push_cast
    rw [abs_le]
    constructor <;> linarith

theorem round_mono [IsStrictOrderedRing K] {x y : K} (h : x ≤ y) : round x ≤ round y := by
  by_contra hlt
  have hx := (abs_le.mp (abs_round_sub_le x)).2
  have hy := (abs_le.mp (abs_round_sub_le y)).1
  have hstep : (round y : K) + 1 ≤ round x := by exact_mod_cast not_le.mp hlt
  -- two values a step apart are both ties, at the same point
  have he : x = y := le_antisymm h (by linarith)
  exact hlt (he ▸ le_rfl)

theorem round_neg [IsStrictOrderedRing K] (x : K) : round (-x) = -round x := by
  have h0 := Int.floor_le x
  have h1 := Int.lt_floor_add_one x
  rcases h0.eq_or_lt with he | hlt
  · rw [← he, ← Int.cast_neg, round_intCast, round_intCast]
  have hfloor : ⌊-x⌋ = -⌊x⌋ - 1 := by
    rw [Int.floor_eq_iff]
    push_cast
    constructor <;> linarith
  have hfrac : -x - (-⌊x⌋ - 1 : ℤ) = 1 - (x - ⌊x⌋) := by
    push_cast
    ring
  have hhalf : (0.5 : K) = 1 / 2 := by norm_num
  simp only [round, hfloor, hfrac, hhalf]
  rcases lt_trichotomy (x - ⌊x⌋) (1 / 2) with h | h | h
  · rw [if_neg (by linarith), if_neg (fun hc => absurd hc.1 (by linarith)), if_pos h]
    omega
  · -- a tie: exactly one of the two floors is even
    have hself : ¬ (1 / 2 : K) < 1 / 2 := lt_irrefl _
    simp only [h, sub_half, hself, if_false, true_and]
    split_ifs <;> omega
  · rw [if_pos (by linarith), if_neg (by linarith), if_neg (fun hc => absurd hc.1 (by linarith))]
    omega

/-- The integer less than a half away. -/
theorem round_eq_of_abs_lt [IsStrictOrderedRing K] {x : K} {m : ℤ} (h : |x - m| < 1 / 2) : round x = m := by
  have hround := abs_le.mp (abs_round_sub_le x)
  have hm := abs_lt.mp h
  have hl : (round x : K) < m + 1 := by linarith
  have hu : (m : K) < round x + 1 := by linarith
  exact le_antisymm (Int.lt_add_one_iff.mp (by exact_mod_cast hl)) (Int.lt_add_one_iff.mp (by exact_mod_cast hu))

theorem abs_round_le [IsStrictOrderedRing K] {x : K} {m : ℤ} (h : |x| ≤ m) : |round x| ≤ m := by
  obtain ⟨hl, hu⟩ := abs_le.mp h
  exact abs_le.mpr ⟨le_round (by push_cast; exact hl), round_le hu⟩

/-- A multiple of `step` is at most half a step off. -/
theorem abs_round_div_mul_sub_le [IsStrictOrderedRing K] {step : K} (h : 0 < step) (x : K) :
    |round (x / step) * step - x| ≤ step / 2 := by
  have hx : round (x / step) * step - x = (round (x / step) - x / step) * step := by
    rw [sub_mul, div_mul_cancel₀ x h.ne']
  rw [hx, abs_mul, abs_of_pos h]
  calc |(round (x / step) : K) - x / step| * step ≤ 1 / 2 * step :=
        mul_le_mul_of_nonneg_right (abs_round_sub_le _) h.le
    _ = step / 2 := one_div_mul_eq_div 2 step

end HalfEven
