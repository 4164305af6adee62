import Mathlib.Data.Int.Log
import Rtcm3to2p3.Lib.Round

/-!
# Doubles

Numbers are rounded to 53 significant bits, half to even (`Double.round`), with
no bound on the exponent: a result is at most `2⁻⁵³` of itself off
(`abs_round_sub_le`). `Double.mod` is Python's `%` of doubles.
-/

namespace Double

variable {K : Type*} [Field K] [LinearOrder K] [FloorRing K]

/-- The distance of the doubles about `x`. -/
def ulp (x : K) : K := (2 : ℕ) ^ (Int.log 2 |x| - 52)

/-- The double nearest to `x`; of two that are as near, the one that is an even
multiple of the distance. -/
def round (x : K) : K := HalfEven.round (x / ulp x) * ulp x

/-- C's `fmod(x, y)`, which is exact, for a positive `y`. -/
def fmod (x y : K) : K := x - y * (if 0 ≤ x then ⌊x / y⌋ else ⌈x / y⌉ : ℤ)

/-- `x % y`, of doubles, for a positive `y`. -/
def mod (x y : K) : K :=
  let r := fmod x y
  if r < 0 then round (r + y) else r

theorem ulp_eq (x : K) : ulp x = 2 ^ (Int.log 2 |x| - 52) := by rw [ulp, Nat.cast_ofNat]

variable [IsStrictOrderedRing K]

theorem ulp_pos (x : K) : 0 < ulp x := ulp_eq x ▸ zpow_pos two_pos _

theorem round_zero : round (0 : K) = 0 := by
  rw [round, zero_div, ← Int.cast_zero, HalfEven.round_intCast, Int.cast_zero, zero_mul]

theorem abs_round_sub_le (x : K) : |round x - x| ≤ |x| / 2 ^ 53 := by
  rcases eq_or_ne x 0 with rfl | hx
  · rw [round_zero, sub_zero, abs_zero, zero_div]
  have hlog : (2 : K) ^ Int.log 2 |x| ≤ |x| := by
    exact_mod_cast Int.zpow_log_le_self (b := 2) one_lt_two (abs_pos.mpr hx)
  have hulp : ulp x = 2 ^ Int.log 2 |x| / 2 ^ 52 := by
    rw [ulp_eq, zpow_sub₀ two_ne_zero]
    norm_cast
  calc |round x - x| ≤ ulp x / 2 := HalfEven.abs_round_div_mul_sub_le (ulp_pos x) x
    _ = 2 ^ Int.log 2 |x| / 2 ^ 53 := by rw [hulp, div_div, ← pow_succ]
    _ ≤ |x| / 2 ^ 53 := div_le_div_of_nonneg_right hlog (by positivity)

theorem abs_round_sub_le_of_le {x a : K} (h : |x| ≤ a) : |round x - x| ≤ a / 2 ^ 53 :=
  (abs_round_sub_le x).trans (div_le_div_of_nonneg_right h (by positivity))

/-- A number between `2 ^ (e + 52)` and twice that, with its nearest multiple of `2 ^ e`. -/
theorem round_eq {x : K} {e m : ℤ} (hl : 2 ^ (e + 52) ≤ x) (hu : x < 2 ^ (e + 53)) (hm : |x / 2 ^ e - m| < 1 / 2) :
    round x = m * 2 ^ e := by
  have hx : 0 < x := (zpow_pos two_pos _).trans_le hl
  have hlog : Int.log 2 |x| = e + 52 := by
    rw [abs_of_pos hx]
    refine le_antisymm ?_ ?_
    · refine Int.lt_add_one_iff.mp ((Int.lt_zpow_iff_log_lt (b := 2) one_lt_two hx).mp ?_)
      exact_mod_cast (show e + 53 = e + 52 + 1 by ring) ▸ hu
    · refine (Int.zpow_le_iff_le_log (b := 2) one_lt_two hx).mp ?_
      exact_mod_cast hl
  have hulp : ulp x = 2 ^ e := by rw [ulp_eq, hlog, add_sub_cancel_right]
  rw [round, hulp, HalfEven.round_eq_of_abs_lt hm]

/-- A remainder that needs no rounding. -/
theorem mod_of_lt {x y : K} (h0 : 0 ≤ x) (h : x < y) : mod x y = x := by
  have hfloor : ⌊x / y⌋ = 0 := by
    have hy : 0 < y := h0.trans_lt h
    rw [Int.floor_eq_zero_iff]
    exact ⟨div_nonneg h0 hy.le, (div_lt_one hy).mpr h⟩
  have hr : fmod x y = x := by rw [fmod, if_pos h0, hfloor, Int.cast_zero, mul_zero, sub_zero]
  rw [mod, hr, if_neg h0.not_gt]

theorem mod_of_neg {x y : K} (h0 : x < 0) (h : -y < x) : mod x y = round (x + y) := by
  have hy : 0 < y := by linarith
  have hceil : ⌈x / y⌉ = 0 := by
    rw [Int.ceil_eq_zero_iff]
    refine ⟨?_, div_nonpos_of_nonpos_of_nonneg h0.le hy.le⟩
    rw [lt_div_iff₀ hy]
    linarith
  have hr : fmod x y = x := by rw [fmod, if_neg h0.not_ge, hceil, Int.cast_zero, mul_zero, sub_zero]
  rw [mod, hr, if_pos h0]

end Double
