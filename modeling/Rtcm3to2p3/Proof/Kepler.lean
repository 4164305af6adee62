import Rtcm3to2p3.Lib.Settle
import Rtcm3to2p3.Proof.Orbit
import Rtcm3to2p3.Spec.Orbit
import Mathlib.Analysis.SpecialFunctions.Trigonometric.Bounds

/-!
# Kepler's equation and the radius of the orbit

`_eccentric_anomaly` is `Settle.settle` of a map with Lipschitz constant `ecc`
(`eccentricAnomaly_settle`, `keplerStep_contracting`), so the library's bounds
hold of its result (`eccentricAnomaly_accurate`).

The harmonics move the corrected radius by at most the root of the sum of
their squares (`abs_rk_sub_le`), which bounds the distance of the satellite
from the Earth's centre from both sides (`satellitePosition_on_orbit`).
-/

namespace Rtcm.Proof

open Rtcm.Impl Rtcm.Spec Settle NNReal

/-! ## Kepler's equation -/

/-- The tolerance of the loop. -/
def Near (e prev : ℝ) : Prop := |e - prev| < 1e-13

noncomputable instance : DecidableRel Near := fun e prev => inferInstanceAs (Decidable (|e - prev| < 1e-13))

theorem eccentricAnomalyLoop_settle (mk ecc : ℝ) (n : Nat) (e : ℝ) :
    eccentricAnomalyLoop mk ecc n e = settle (keplerStep mk ecc) Near n e := by
  induction n generalizing e with
  | zero => rfl
  | succ n ih =>
    rw [eccentricAnomalyLoop, settle, ← ih]
    rfl

theorem eccentricAnomaly_settle (mk ecc : ℝ) :
    eccentricAnomaly mk ecc = settle (keplerStep mk ecc) Near 30 mk := eccentricAnomalyLoop_settle mk ecc 30 mk

theorem keplerStep_lipschitz (mk : ℝ) (ecc : ℝ≥0) : LipschitzWith ecc (keplerStep mk ecc) := by
  refine LipschitzWith.of_dist_le_mul fun x y => ?_
  have hsub : keplerStep mk ecc x - keplerStep mk ecc y = ecc * (Real.sin x - Real.sin y) := by
    unfold keplerStep
    ring
  rw [Real.dist_eq, Real.dist_eq, hsub, abs_mul, NNReal.abs_eq]
  exact mul_le_mul_of_nonneg_left (Real.abs_sin_sub_sin_le x y) ecc.coe_nonneg

theorem keplerStep_contracting (mk : ℝ) {ecc : ℝ≥0} (h : (ecc : ℝ) < 1) : ContractingWith ecc (keplerStep mk ecc) :=
  ⟨NNReal.coe_lt_one.mp h, keplerStep_lipschitz mk ecc⟩

theorem kepler_iff {mk ecc e : ℝ} : Kepler mk ecc e ↔ Function.IsFixedPt (keplerStep mk ecc) e := eq_comm

theorem kepler_unique (mk : ℝ) {ecc : ℝ≥0} (h : (ecc : ℝ) < 1) : ∃! e, Kepler mk ecc e := by
  have hc := keplerStep_contracting mk h
  refine ⟨_, kepler_iff.mpr hc.fixedPoint_isFixedPt, fun e he => ?_⟩
  exact hc.fixedPoint_unique' (kepler_iff.mp he) hc.fixedPoint_isFixedPt

/-- The first step is at most the eccentricity, so step `n` at most its power `n + 1`. -/
theorem dist_keplerStep_mul_pow_le (mk : ℝ) (ecc : ℝ≥0) (n : Nat) :
    dist mk (keplerStep mk ecc mk) * (ecc : ℝ) ^ n ≤ ecc ^ (n + 1) := by
  have hfirst : dist mk (keplerStep mk ecc mk) ≤ ecc := by
    rw [Real.dist_eq, keplerStep, sub_add_cancel_left, abs_neg, abs_mul, NNReal.abs_eq]
    exact mul_le_of_le_one_right ecc.coe_nonneg (Real.abs_sin_le_one mk)
  rw [pow_succ']
  exact mul_le_mul_of_nonneg_right hfirst (pow_nonneg ecc.coe_nonneg n)

theorem near_dist_le (y z : ℝ) (h : Near y z) : dist y z ≤ 1e-13 := le_of_lt h

theorem eccentricAnomaly_residual (mk : ℝ) (ecc : ℝ≥0) :
    |eccentricAnomaly mk ecc - mk - ecc * Real.sin (eccentricAnomaly mk ecc)| ≤
      max ((ecc : ℝ) * 1e-13) (ecc ^ 31) := by
  have hdist := dist_settle_le (x := mk) (n := 30) (keplerStep_lipschitz mk ecc) near_dist_le
  rw [← eccentricAnomaly_settle, Real.dist_eq, keplerStep, ← sub_sub] at hdist
  exact hdist.trans (max_le_max le_rfl (dist_keplerStep_mul_pow_le mk ecc 30))

theorem eccentricAnomaly_error (mk : ℝ) {ecc : ℝ≥0} {e : ℝ} (h : (ecc : ℝ) < 1) (he : Kepler mk ecc e) :
    |eccentricAnomaly mk ecc - e| ≤ max ((ecc : ℝ) * 1e-13) (ecc ^ 31) / (1 - ecc) := by
  have hdist := dist_settle_fixedPoint_le (x := mk) (n := 30) (keplerStep_contracting mk h) near_dist_le
    (kepler_iff.mp he)
  rw [← eccentricAnomaly_settle, Real.dist_eq] at hdist
  exact hdist.trans (div_le_div_of_nonneg_right (max_le_max le_rfl (dist_keplerStep_mul_pow_le mk ecc 30))
    (sub_nonneg.mpr h.le))

/-- Up to an eccentricity of 0.36, thirty turns are enough. -/
theorem eccentricAnomaly_settles (mk : ℝ) {ecc : ℝ≥0} (h : (ecc : ℝ) ≤ 0.36) :
    ∃ k < 30, StopsAt (keplerStep mk ecc) Near mk k ∧ eccentricAnomaly mk ecc = (keplerStep mk ecc)^[k + 1] mk := by
  have hsmall : (ecc : ℝ) ^ 30 < 1e-13 := (pow_le_pow_left₀ ecc.coe_nonneg h 30).trans_lt (by norm_num)
  rw [eccentricAnomaly_settle]
  refine settle_settles_of_pow (keplerStep_lipschitz mk ecc) (by decide : 29 < 30) fun y z hyz => ?_
  exact (hyz.trans (dist_keplerStep_mul_pow_le mk ecc 29)).trans_lt hsmall

/-- The result solves Kepler's equation up to one factor of the tolerance, or
31 factors of the eccentricity, and is as near its one solution. Up to an
eccentricity of 0.36 the loop ends at the first turn within the tolerance. -/
theorem eccentricAnomaly_accurate (mk : ℝ) {ecc : ℝ} (h0 : 0 ≤ ecc) (h1 : ecc < 1) :
    |eccentricAnomaly mk ecc - mk - ecc * Real.sin (eccentricAnomaly mk ecc)| ≤ max (ecc * 1e-13) (ecc ^ 31) ∧
      (∃! e, Kepler mk ecc e) ∧
      (∀ e, Kepler mk ecc e → |eccentricAnomaly mk ecc - e| ≤ max (ecc * 1e-13) (ecc ^ 31) / (1 - ecc)) ∧
      (ecc ≤ 0.36 → ∃ k < 30, eccentricAnomaly mk ecc = (keplerStep mk ecc)^[k + 1] mk ∧
        |(keplerStep mk ecc)^[k + 1] mk - (keplerStep mk ecc)^[k] mk| < 1e-13 ∧
        ∀ j < k, 1e-13 ≤ |(keplerStep mk ecc)^[j + 1] mk - (keplerStep mk ecc)^[j] mk|) := by
  lift ecc to ℝ≥0 using h0
  refine ⟨eccentricAnomaly_residual mk ecc, kepler_unique mk h1, fun e => eccentricAnomaly_error mk h1,
    fun h36 => ?_⟩
  obtain ⟨k, hk, hstop, heq⟩ := eccentricAnomaly_settles mk h36
  exact ⟨k, hk, heq, hstop.2, fun j hj => not_lt.mp (hstop.1 j hj)⟩

theorem eccentricAnomaly_accurate_quarter :
    |eccentricAnomaly 1 0.25 - 1 - 0.25 * Real.sin (eccentricAnomaly 1 0.25)| ≤ max (0.25 * 1e-13) (0.25 ^ 31) ∧
      (∃! e, Kepler 1 0.25 e) ∧
      ∃ k < 30, eccentricAnomaly 1 0.25 = (keplerStep 1 0.25)^[k + 1] 1 ∧
        |(keplerStep 1 0.25)^[k + 1] 1 - (keplerStep 1 0.25)^[k] 1| < 1e-13 := by
  obtain ⟨hres, huniq, -, hsettles⟩ := eccentricAnomaly_accurate 1 (by norm_num : (0 : ℝ) ≤ 0.25) (by norm_num)
  obtain ⟨k, hk, heq, hnear, -⟩ := hsettles (by norm_num)
  exact ⟨hres, huniq, k, hk, heq, hnear⟩

/-! ## The radius -/

theorem abs_harmonics_le (a b w : ℝ) : |a * Real.sin w + b * Real.cos w| ≤ Real.sqrt (a ^ 2 + b ^ 2) := by
  have hw := Real.sin_sq_add_cos_sq w
  refine Real.abs_le_sqrt ?_
  calc (a * Real.sin w + b * Real.cos w) ^ 2
    _ ≤ (a * Real.sin w + b * Real.cos w) ^ 2 + (a * Real.cos w - b * Real.sin w) ^ 2 :=
        le_add_of_nonneg_right (sq_nonneg _)
    _ = (a ^ 2 + b ^ 2) * (Real.sin w ^ 2 + Real.cos w ^ 2) := by ring
    _ = a ^ 2 + b ^ 2 := by rw [hw, mul_one]

theorem abs_rk_sub_le (eph : Ephemeris ℝ) (t : ℝ) :
    |Orbit.rk eph t - eph.sqrtA ^ 2 * (1 - eph.ecc * Real.cos (Orbit.ek eph t))| ≤ Orbit.harmonics eph := by
  rw [Orbit.rk, add_assoc, add_sub_cancel_left]
  exact abs_harmonics_le _ _ _

/-- The distance from the focus of a point on the ellipse. -/
theorem focal_distance_mem {a ecc : ℝ} (ha : 0 ≤ a) (h0 : 0 ≤ ecc) (w : ℝ) :
    a * (1 - ecc) ≤ a * (1 - ecc * Real.cos w) ∧ a * (1 - ecc * Real.cos w) ≤ a * (1 + ecc) := by
  have hup := mul_le_mul_of_nonneg_left (Real.cos_le_one w) h0
  have hdown := mul_le_mul_of_nonneg_left (Real.neg_one_le_cos w) h0
  exact ⟨mul_le_mul_of_nonneg_left (by linarith) ha, mul_le_mul_of_nonneg_left (by linarith) ha⟩

theorem abs_rk_mem {eph : Ephemeris ℝ} (h0 : 0 ≤ eph.ecc) (h1 : eph.ecc < 1) (t : ℝ) :
    eph.sqrtA ^ 2 * (1 - eph.ecc) - Orbit.harmonics eph ≤ |Orbit.rk eph t| ∧
      |Orbit.rk eph t| ≤ eph.sqrtA ^ 2 * (1 + eph.ecc) + Orbit.harmonics eph := by
  obtain ⟨hlow, hhigh⟩ := focal_distance_mem (sq_nonneg eph.sqrtA) h0 (Orbit.ek eph t)
  obtain ⟨hbelow, habove⟩ := abs_le.mp (abs_rk_sub_le eph t)
  have hpos : 0 ≤ eph.sqrtA ^ 2 * (1 - eph.ecc) := mul_nonneg (sq_nonneg _) (sub_nonneg.mpr h1.le)
  refine ⟨le_trans (by linarith) (le_abs_self _), abs_le.mpr ⟨?_, ?_⟩⟩
  · linarith
  · linarith

/-- The position of any satellite on an ellipse is at the corrected radius from
the Earth's centre, and that between perigee and apogee up to the harmonics. -/
theorem satellitePosition_on_orbit {eph : Ephemeris ℝ} (hs : 0 < eph.sqrtA) (h0 : 0 ≤ eph.ecc) (h1 : eph.ecc < 1)
    (t : ℝ) :
    ∃ x y z, satellitePosition eph t = .ok (x, y, z) ∧ x ^ 2 + y ^ 2 + z ^ 2 = Orbit.rk eph t ^ 2 ∧
      |Orbit.rk eph t - eph.sqrtA ^ 2 * (1 - eph.ecc * Real.cos (Orbit.ek eph t))| ≤
        Real.sqrt (eph.crs ^ 2 + eph.crc ^ 2) ∧
      eph.sqrtA ^ 2 * (1 - eph.ecc) - Real.sqrt (eph.crs ^ 2 + eph.crc ^ 2) ≤ Real.sqrt (x ^ 2 + y ^ 2 + z ^ 2) ∧
      Real.sqrt (x ^ 2 + y ^ 2 + z ^ 2) ≤ eph.sqrtA ^ 2 * (1 + eph.ecc) + Real.sqrt (eph.crs ^ 2 + eph.crc ^ 2) := by
  have hecc : |eph.ecc| ≤ 1 := (abs_of_nonneg h0).trans_le h1.le
  obtain ⟨x, y, z, hp, hr⟩ := satellitePosition_radius hs.ne' hecc t
  have hmem := abs_rk_mem h0 h1 t
  rw [← Real.sqrt_sq_eq_abs, ← hr] at hmem
  exact ⟨x, y, z, hp, hr, abs_rk_sub_le eph t, hmem⟩

theorem satellitePosition_on_orbit_ellipse :
    ∃ x y z, satellitePosition ellipse 100 = .ok (x, y, z) ∧ x ^ 2 + y ^ 2 + z ^ 2 = Orbit.rk ellipse 100 ^ 2 ∧
      5153.0 ^ 2 * (1 - 0.01) - 50 ≤ Real.sqrt (x ^ 2 + y ^ 2 + z ^ 2) ∧
      Real.sqrt (x ^ 2 + y ^ 2 + z ^ 2) ≤ 5153.0 ^ 2 * (1 + 0.01) + 50 := by
  have hs : ellipse.sqrtA = 5153.0 := rfl
  have he : ellipse.ecc = 0.01 := rfl
  have hsum : ellipse.crs ^ 2 + ellipse.crc ^ 2 = 50 ^ 2 := by norm_num [ellipse]
  obtain ⟨x, y, z, hp, hr, -, hlow, hhigh⟩ :=
    satellitePosition_on_orbit (by norm_num [hs]) (by norm_num [he]) (by norm_num [he] : ellipse.ecc < 1) 100
  rw [hsum, hs, he, Real.sqrt_sq (by norm_num)] at hlow hhigh
  exact ⟨x, y, z, hp, hr, hlow, hhigh⟩

end Rtcm.Proof
