import Rtcm3to2p3.Lib.Round

/-!
# Saturating quantisers

A value as a whole number of steps, of which at most `n` fit (`counts`). A
value that fits is at most half a step off (`abs_counts_mul_sub_le`), another
is saturated to the nearest multiple there is (`saturated`,
`abs_saturated_sub_le`). The counts grow with the value (`counts_mono`), and a
multiple gives its own count again (`counts_mul`).

A coarser step is `k` times the step, with `n + 1` a multiple of `k`. What
does not fit the finer step is at least `(n + 1) / k` coarser steps
(`le_abs_counts_coarser`), so it still does not fit after it has been
quantised (`not_fits_coarser`), and is not below anything that fits
(`mul_le_coarser`, `coarser_le_mul`).
-/

namespace Quantise

variable {K : Type*} [Field K] [LinearOrder K] [FloorRing K] {step x y : K} {n : ℤ}

/-- `x` rounds to at most `n` steps. -/
def Fits (step : K) (n : ℤ) (x : K) : Prop := |HalfEven.round (x / step)| ≤ n

/-- `x` in steps, saturated at `n` of them. -/
def counts (step : K) (n : ℤ) (x : K) : ℤ := max (-n) (min n (HalfEven.round (x / step)))

theorem counts_of_fits (h : Fits step n x) : counts step n x = HalfEven.round (x / step) := by
  rw [Fits, abs_le] at h
  unfold counts
  omega

theorem abs_counts_le (hn : 0 ≤ n) (x : K) : |counts step n x| ≤ n := by
  rw [abs_le]
  unfold counts
  omega

variable [IsStrictOrderedRing K]

theorem counts_mono (hs : 0 < step) (h : x ≤ y) : counts step n x ≤ counts step n y := by
  have hr := HalfEven.round_mono (div_le_div_of_nonneg_right h hs.le)
  unfold counts
  omega

theorem fits_mul (hs : 0 < step) {m : ℤ} : Fits step n (m * step) ↔ |m| ≤ n := by
  rw [Fits, mul_div_cancel_right₀ _ hs.ne', HalfEven.round_intCast]

theorem counts_mul (hs : 0 < step) {m : ℤ} (h : |m| ≤ n) : counts step n (m * step) = m := by
  rw [counts_of_fits ((fits_mul hs).mpr h), mul_div_cancel_right₀ _ hs.ne', HalfEven.round_intCast]

theorem abs_counts_mul_sub_le (hs : 0 < step) (h : Fits step n x) : |counts step n x * step - x| ≤ step / 2 := by
  rw [counts_of_fits h]
  exact HalfEven.abs_round_div_mul_sub_le hs x

/-! ## Saturation -/

omit [IsStrictOrderedRing K] in
theorem not_fits : ¬ Fits step n x ↔ n < HalfEven.round (x / step) ∨ HalfEven.round (x / step) < -n := by
  rw [Fits, abs_le]
  omega

theorem saturated (hs : 0 < step) (hn : 0 ≤ n) (h : ¬ Fits step n x) :
    (n * step < x ∧ counts step n x = n) ∨ (x < -n * step ∧ counts step n x = -n) := by
  have hround := abs_le.mp (HalfEven.abs_round_sub_le (x / step))
  rcases not_fits.mp h with hup | hdown
  · have hlt : (n : K) + 1 ≤ HalfEven.round (x / step) := by exact_mod_cast hup
    refine .inl ⟨(lt_div_iff₀ hs).mp (by linarith), ?_⟩
    unfold counts
    omega
  · have hlt : (HalfEven.round (x / step) : K) + 1 ≤ -n := by exact_mod_cast hdown
    refine .inr ⟨(div_lt_iff₀ hs).mp (by linarith), ?_⟩
    unfold counts
    omega

/-- No value of at most `n` steps is nearer. -/
theorem abs_saturated_sub_le (hs : 0 < step) (hn : 0 ≤ n) (h : ¬ Fits step n x) (hy : |y| ≤ n * step) :
    |counts step n x * step - x| ≤ |y - x| := by
  obtain ⟨hl, hu⟩ := abs_le.mp hy
  rcases saturated hs hn h with ⟨hx, hc⟩ | ⟨hx, hc⟩
  · rw [hc, abs_of_nonpos (by linarith), abs_of_nonpos (by linarith)]
    linarith
  · rw [hc, Int.cast_neg, abs_of_nonneg (by linarith), abs_of_nonneg (by linarith)]
    linarith

/-! ## A coarser step -/

theorem fits_neg : Fits step n (-x) ↔ Fits step n x := by rw [Fits, Fits, neg_div, HalfEven.round_neg, abs_neg]

theorem counts_neg (hn : 0 ≤ n) : counts step n (-x) = -counts step n x := by
  unfold counts
  rw [neg_div, HalfEven.round_neg]
  omega

section Coarser

variable {k j : ℤ} (hk : 2 ≤ k) (hj : n + 1 = k * j) (hjn : j ≤ n)
include hk hj hjn

/-- More than `n` steps are at least `j` coarser ones. -/
theorem le_counts_coarser (h : n < HalfEven.round (x / step)) : j ≤ counts (k * step) n x := by
  have hk0 : (0 : K) < k := by exact_mod_cast (by omega : 0 < k)
  have hk2 : (2 : K) ≤ k := by exact_mod_cast hk
  have hfine := abs_le.mp (HalfEven.abs_round_sub_le (x / step))
  have hcoarse := abs_le.mp (HalfEven.abs_round_sub_le (x / (k * step)))
  have hlt : (k * j : K) ≤ HalfEven.round (x / step) := by exact_mod_cast (by omega : k * j ≤ _)
  have hdiv : x / step = k * (x / (k * step)) := by rw [← mul_div_assoc, mul_div_mul_left _ _ hk0.ne']
  -- half a fine step is less than half a coarse one
  have hnear : (j : K) - 1 < HalfEven.round (x / (k * step)) := by
    by_contra hle
    have hcontra : k * (x / (k * step)) ≤ k * (j - 1 / 2) := mul_le_mul_of_nonneg_left (by linarith) hk0.le
    linarith
  have : j - 1 < HalfEven.round (x / (k * step)) := by exact_mod_cast hnear
  unfold counts
  omega

omit [LinearOrder K] [FloorRing K] [IsStrictOrderedRing K] [Field K] in
theorem one_le_range : 1 ≤ n := by
  by_contra hn
  have : k * j ≤ 2 * j := mul_le_mul_of_nonpos_right hk (by omega)
  omega

/-- What fits a step fits a coarser one. -/
theorem fits_coarser (h : Fits step n x) : Fits (k * step) n x := by
  have hn : (1 : K) ≤ n := by exact_mod_cast one_le_range hk hj hjn
  have hk2 : (2 : K) ≤ k := by exact_mod_cast hk
  have hround : |(HalfEven.round (x / step) : K)| ≤ n := by exact_mod_cast h
  have hfine : |x / step| ≤ n + 1 / 2 := by
    have := abs_sub_abs_le_abs_sub (x / step) (HalfEven.round (x / step))
    rw [abs_sub_comm] at this
    linarith [HalfEven.abs_round_sub_le (x / step)]
  refine HalfEven.abs_round_le ?_
  rw [mul_comm, ← div_div, abs_div, abs_of_pos (by linarith : (0 : K) < k), div_le_iff₀ (by linarith)]
  nlinarith

theorem le_abs_counts_coarser (h : ¬ Fits step n x) : j ≤ |counts (k * step) n x| := by
  have hn := one_le_range hk hj hjn
  rcases not_fits.mp h with hup | hdown
  · exact (le_counts_coarser hk hj hjn hup).trans (le_abs_self _)
  · have hneg : n < HalfEven.round (-x / step) := by
      rw [neg_div, HalfEven.round_neg]
      omega
    rw [← abs_neg, ← counts_neg (by omega)]
    exact (le_counts_coarser hk hj hjn hneg).trans (le_abs_self _)

theorem not_fits_coarser (hs : 0 < step) (h : ¬ Fits step n x) :
    ¬ Fits step n (counts (k * step) n x * (k * step)) := by
  have hle := mul_le_mul_of_nonneg_left (le_abs_counts_coarser hk hj hjn h) (by omega : 0 ≤ k)
  have habs : |counts (k * step) n x * k| = k * |counts (k * step) n x| := by
    rw [abs_mul, abs_of_nonneg (by omega : 0 ≤ k), mul_comm]
  rw [← mul_assoc, ← Int.cast_mul, fits_mul hs, habs]
  omega

theorem mul_le_coarser (hs : 0 < step) (hxy : x ≤ y) (hx : Fits step n x) (hy : ¬ Fits step n y) :
    counts step n x * step ≤ counts (k * step) n y * (k * step) := by
  have hmono := HalfEven.round_mono (div_le_div_of_nonneg_right hxy hs.le)
  have hup : n < HalfEven.round (y / step) := by
    have := abs_le.mp hx
    have := not_fits.mp hy
    omega
  have hle := mul_le_mul_of_nonneg_right (le_counts_coarser hk hj hjn hup) (by omega : 0 ≤ k)
  have hfine : counts step n x ≤ counts (k * step) n y * k := by
    have := (abs_le.mp hx).2
    rw [counts_of_fits hx]
    rw [mul_comm j k] at hle
    omega
  rw [← mul_assoc]
  exact mul_le_mul_of_nonneg_right (by exact_mod_cast hfine) hs.le

theorem coarser_le_mul (hs : 0 < step) (hxy : x ≤ y) (hx : ¬ Fits step n x) (hy : Fits step n y) :
    counts (k * step) n x * (k * step) ≤ counts step n y * step := by
  have hn : 0 ≤ n := zero_le_one.trans (one_le_range hk hj hjn)
  have h := mul_le_coarser hk hj hjn hs (neg_le_neg hxy) (fits_neg.mpr hy) (mt fits_neg.mp hx)
  rw [counts_neg hn, counts_neg hn] at h
  push_cast at h
  linarith

end Coarser

end Quantise
