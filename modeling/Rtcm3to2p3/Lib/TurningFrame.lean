import Mathlib.Analysis.InnerProductSpace.PiL2
import Mathlib.Analysis.SpecialFunctions.Trigonometric.Bounds
import Mathlib.Topology.MetricSpace.Contracting
import Mathlib.Tactic.Linarith
import Mathlib.Tactic.LinearCombination
import Mathlib.Tactic.Positivity

/-!
# Ranges in a turning frame

A frame turns about its third axis by `ω` for each unit of length that light
travels. Light leaves the point `p` and reaches the point `q`, which turns with
the frame; both are given in the frame, as it is at their instants. The length
of its way is a fixed point (`IsRange`).

* `existsUnique_range`: there is one, as long as `p` moves slower than light;
* `abs_range_sub_mul_le`: it is near the distance of the coordinates with the
  first-order term of the rotation, up to terms of second order.
-/

namespace TurningFrame

open NNReal

/-- The point of the Euclidean space. -/
def vec (p : ℝ × ℝ × ℝ) : EuclideanSpace ℝ (Fin 3) :=
  WithLp.toLp _ ![p.1, p.2.1, p.2.2]

/-- The coordinates of a point at rest after the frame has turned by `θ`. -/
noncomputable def turned (θ : ℝ) (p : ℝ × ℝ × ℝ) : ℝ × ℝ × ℝ :=
  (p.1 * Real.cos θ + p.2.1 * Real.sin θ, p.2.1 * Real.cos θ - p.1 * Real.sin θ, p.2.2)

/-- The length of the way of light from `p` to `q`. -/
def IsRange (ω : ℝ) (p q : ℝ × ℝ × ℝ) (r : ℝ) : Prop := r = dist (vec (turned (ω * r) p)) (vec q)

/-- What the rotation adds to the range, to the first order and for each unit of `ω`. -/
def cross (p q : ℝ × ℝ × ℝ) : ℝ := p.1 * q.2.1 - p.2.1 * q.1

/-- The product of the parts in the plane of the rotation. -/
def dot (p q : ℝ × ℝ × ℝ) : ℝ := p.1 * q.1 + p.2.1 * q.2.1

theorem norm_vec_sq (p : ℝ × ℝ × ℝ) : ‖vec p‖ ^ 2 = p.1 ^ 2 + p.2.1 ^ 2 + p.2.2 ^ 2 := by
  rw [EuclideanSpace.norm_sq_eq, Fin.sum_univ_three]
  simp only [vec, Real.norm_eq_abs, sq_abs]
  rfl

theorem dist_vec_sq (p q : ℝ × ℝ × ℝ) :
    dist (vec p) (vec q) ^ 2 = (p.1 - q.1) ^ 2 + (p.2.1 - q.2.1) ^ 2 + (p.2.2 - q.2.2) ^ 2 := by
  rw [dist_eq_norm, EuclideanSpace.norm_sq_eq, Fin.sum_univ_three]
  simp only [vec, PiLp.sub_apply, Real.norm_eq_abs, sq_abs]
  rfl

theorem norm_turned (θ : ℝ) (p : ℝ × ℝ × ℝ) : ‖vec (turned θ p)‖ = ‖vec p‖ := by
  rw [← sq_eq_sq₀ (norm_nonneg _) (norm_nonneg _), norm_vec_sq, norm_vec_sq]
  have h := Real.sin_sq_add_cos_sq θ
  simp only [turned]
  linear_combination (p.1 ^ 2 + p.2.1 ^ 2) * h

/-! ## One range -/

/-- A point moves on an arc that is no shorter than its chord. -/
theorem dist_turned_le (θ θ' : ℝ) (p : ℝ × ℝ × ℝ) :
    dist (vec (turned θ p)) (vec (turned θ' p)) ≤ ‖vec p‖ * |θ - θ'| := by
  refine (sq_le_sq₀ dist_nonneg (by positivity)).mp ?_
  have hchord : dist (vec (turned θ p)) (vec (turned θ' p)) ^ 2 =
      (p.1 ^ 2 + p.2.1 ^ 2) * (2 * (1 - Real.cos (θ - θ'))) := by
    have h := Real.sin_sq_add_cos_sq θ
    have h' := Real.sin_sq_add_cos_sq θ'
    rw [dist_vec_sq, Real.cos_sub]
    simp only [turned]
    linear_combination (p.1 ^ 2 + p.2.1 ^ 2) * h + (p.1 ^ 2 + p.2.1 ^ 2) * h'
  have hcos := Real.one_sub_sq_div_two_le_cos (x := θ - θ')
  rw [hchord, mul_pow, sq_abs, norm_vec_sq]
  exact mul_le_mul (le_add_of_nonneg_right (sq_nonneg _)) (by linarith) (by linarith [Real.cos_le_one (θ - θ')])
    (by positivity)

theorem existsUnique_range {ω : ℝ} {p : ℝ × ℝ × ℝ} (h : |ω| * ‖vec p‖ < 1) (q : ℝ × ℝ × ℝ) :
    ∃! r, IsRange ω p q r := by
  obtain ⟨k, hk⟩ : ∃ k : ℝ≥0, (k : ℝ) = |ω| * ‖vec p‖ := CanLift.prf _ (by positivity)
  have hlip : LipschitzWith k fun r => dist (vec (turned (ω * r) p)) (vec q) := by
    refine LipschitzWith.of_dist_le_mul fun r r' => ?_
    rw [Real.dist_eq, hk]
    refine (abs_dist_sub_le _ _ _).trans ((dist_turned_le _ _ p).trans (le_of_eq ?_))
    rw [← mul_sub, abs_mul, Real.dist_eq]
    ring
  have hc : ContractingWith k fun r => dist (vec (turned (ω * r) p)) (vec q) :=
    ⟨NNReal.coe_lt_one.mp (hk.trans_lt h), hlip⟩
  have hfix := hc.fixedPoint_isFixedPt
  exact ⟨_, hfix.symm, fun r hr => hc.fixedPoint_unique' (show Function.IsFixedPt _ r from hr.symm) hfix⟩

/-! ## The range to the first order -/

section

variable {ω r : ℝ} {p q : ℝ × ℝ × ℝ}

theorem cross_sq_add_dot_sq_le (p q : ℝ × ℝ × ℝ) : cross p q ^ 2 + dot p q ^ 2 ≤ (‖vec p‖ * ‖vec q‖) ^ 2 := by
  rw [mul_pow, norm_vec_sq, norm_vec_sq, cross, dot]
  nlinarith [mul_nonneg (sq_nonneg p.2.2) (sq_nonneg q.1), mul_nonneg (sq_nonneg p.2.2) (sq_nonneg q.2.1),
    mul_nonneg (sq_nonneg p.2.2) (sq_nonneg q.2.2), mul_nonneg (sq_nonneg p.1) (sq_nonneg q.2.2),
    mul_nonneg (sq_nonneg p.2.1) (sq_nonneg q.2.2)]

theorem abs_cross_le (p q : ℝ × ℝ × ℝ) : |cross p q| ≤ ‖vec p‖ * ‖vec q‖ :=
  abs_le_of_sq_le_sq ((le_add_of_nonneg_right (sq_nonneg _)).trans (cross_sq_add_dot_sq_le p q)) (by positivity)

theorem abs_dot_le (p q : ℝ × ℝ × ℝ) : |dot p q| ≤ ‖vec p‖ * ‖vec q‖ :=
  abs_le_of_sq_le_sq ((le_add_of_nonneg_left (sq_nonneg _)).trans (cross_sq_add_dot_sq_le p q)) (by positivity)

theorem IsRange.nonneg (h : IsRange ω p q r) : 0 ≤ r := h ▸ dist_nonneg

theorem IsRange.mem (h : IsRange ω p q r) : ‖vec p‖ - ‖vec q‖ ≤ r ∧ r ≤ ‖vec p‖ + ‖vec q‖ := by
  rw [IsRange, dist_eq_norm] at h
  rw [h, ← norm_turned (ω * r) p]
  exact ⟨norm_sub_norm_le _ _, norm_sub_le _ _⟩

/-- The law of cosines, in the turned frame. -/
theorem IsRange.sq (h : IsRange ω p q r) :
    (r - ω * cross p q) ^ 2 - dist (vec p) (vec q) ^ 2 =
      (ω * cross p q) ^ 2 + 2 * dot p q * (1 - Real.cos (ω * r)) - 2 * cross p q * (ω * r - Real.sin (ω * r)) := by
  have hr : r ^ 2 = dist (vec (turned (ω * r) p)) (vec q) ^ 2 := congrArg (· ^ 2) h
  have hsc := Real.sin_sq_add_cos_sq (ω * r)
  rw [dist_vec_sq] at hr ⊢
  simp only [turned] at hr
  simp only [cross, dot]
  linear_combination hr + (p.1 ^ 2 + p.2.1 ^ 2) * hsc

theorem abs_sub_sin_le {θ : ℝ} (h : 0 ≤ θ) : |θ - Real.sin θ| ≤ θ ^ 3 / 6 := by
  rw [abs_of_nonneg (sub_nonneg.mpr (Real.sin_le h))]
  rcases h.eq_or_lt with rfl | hpos
  · simp
  · linarith [Real.sin_gt_sub_cube hpos]

/-- The error of the first order. -/
theorem abs_range_sub_mul_le (h : IsRange ω p q r) (hω : 0 ≤ ω) :
    |r - (dist (vec p) (vec q) + ω * cross p q)| * (r + dist (vec p) (vec q) - ω * (‖vec p‖ * ‖vec q‖)) ≤
      (ω * (‖vec p‖ * ‖vec q‖)) ^ 2 + ‖vec p‖ * ‖vec q‖ * ((ω * r) ^ 2 + (ω * r) ^ 3 / 3) := by
  set m := ‖vec p‖ * ‖vec q‖
  set d := dist (vec p) (vec q)
  set θ := ω * r
  have hm : 0 ≤ m := by positivity
  have hθ : 0 ≤ θ := mul_nonneg hω h.nonneg
  have hcross := abs_cross_le p q
  have hterm : |ω * cross p q| ≤ ω * m := by
    rw [abs_mul, abs_of_nonneg hω]
    exact mul_le_mul_of_nonneg_left hcross hω
  have hcos : |1 - Real.cos θ| ≤ θ ^ 2 / 2 := by
    rw [abs_of_nonneg (sub_nonneg.mpr (Real.cos_le_one θ))]
    linarith [Real.one_sub_sq_div_two_le_cos (x := θ)]
  have hsecond : |2 * dot p q * (1 - Real.cos θ)| ≤ m * θ ^ 2 := by
    rw [abs_mul, abs_mul, abs_two]
    calc 2 * |dot p q| * |1 - Real.cos θ| ≤ 2 * m * (θ ^ 2 / 2) := by
          gcongr
          exact abs_dot_le p q
      _ = m * θ ^ 2 := by ring
  have hthird : |2 * cross p q * (θ - Real.sin θ)| ≤ m * (θ ^ 3 / 3) := by
    rw [abs_mul, abs_mul, abs_two]
    calc 2 * |cross p q| * |θ - Real.sin θ| ≤ 2 * m * (θ ^ 3 / 6) := by
          gcongr
          exact abs_sub_sin_le hθ
      _ = m * (θ ^ 3 / 3) := by ring
  have hfirst : (ω * cross p q) ^ 2 ≤ (ω * m) ^ 2 := sq_le_sq' (by linarith [(abs_le.mp hterm).1]) (abs_le.mp hterm).2
  calc |r - (d + ω * cross p q)| * (r + d - ω * m)
      ≤ |r - (d + ω * cross p q)| * |r - ω * cross p q + d| := by
        refine mul_le_mul_of_nonneg_left (le_trans ?_ (le_abs_self _)) (abs_nonneg _)
        linarith [(abs_le.mp hterm).2]
    _ = |(r - ω * cross p q) ^ 2 - d ^ 2| := by
        rw [← abs_mul]
        congr 1
        ring
    _ = |(ω * cross p q) ^ 2 + 2 * dot p q * (1 - Real.cos θ) - 2 * cross p q * (θ - Real.sin θ)| := by rw [h.sq]
    _ ≤ (ω * m) ^ 2 + m * (θ ^ 2 + θ ^ 3 / 3) := by
        rw [abs_le] at hsecond hthird ⊢
        constructor <;> nlinarith [sq_nonneg (ω * cross p q)]

end

end TurningFrame
