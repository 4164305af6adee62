import Rtcm3to2p3.Proof.Dgps
import Rtcm3to2p3.Spec.Orbit
import Mathlib.Algebra.Order.Field.Basic
import Mathlib.Tactic.Linarith
import Mathlib.Tactic.NormNum
import Mathlib.Tactic.Positivity

/-!
# When a raw correction can be computed

`math.sqrt` is taken of `MU / a^3`, of `1 - e^2` and of a sum of squares, and
the only divisor that is not a constant is `a^3`. So a raw correction can be
computed unless `sqrtA` is 0 or the eccentricity exceeds 1
(`rawCorrection_ok`, `rawCorrection_error`).

The position is a point of the orbital plane turned about three axes, so its
distance from the Earth's centre is the corrected radius
(`satellitePosition_radius`), the same at all times on a circular orbit
(`satellitePosition_circular`).
-/

namespace Rtcm.Proof

open Rtcm.Impl Rtcm.Spec

section

variable {K : Type} [Field K] [LinearOrder K] [PyMath K]

omit [PyMath K] in
theorem deltaTWeek_of_abs_le [IsStrictOrderedRing K] {t tRef : K} (h : |t - tRef| ≤ HALF_WEEK) :
    deltaTWeek t tRef = t - tRef := by
  obtain ⟨h1, h2⟩ := abs_le.mp h
  rw [deltaTWeek, if_neg (not_lt.mpr h2), if_neg (not_lt.mpr h1)]

theorem mathSqrt_ok {x : K} (h : 0 ≤ x) : mathSqrt x = .ok (PyMath.sqrt x) := if_neg (not_lt.mpr h)

theorem mathSqrt_error {x : K} (h : x < 0) : mathSqrt x = .error (.valueError "math domain error") := if_pos h

theorem satellitePosition_sqrtA_zero {eph : Ephemeris K} (h : eph.sqrtA = 0) (t : K) :
    satellitePosition eph t = .error (.zeroDivisionError "float division by zero") := by
  have hz : truediv (MU : K) ((eph.sqrtA ^ 2) ^ 3) = .error (.zeroDivisionError "float division by zero") := by
    simp [truediv, h]
  simp only [satellitePosition, hz, bind_error]

variable [IsStrictOrderedRing K]

/-- The mean motion can be computed. -/
theorem meanMotion_ok {eph : Ephemeris K} (h : eph.sqrtA ≠ 0) :
    truediv (MU : K) ((eph.sqrtA ^ 2) ^ 3) = .ok (MU / (eph.sqrtA ^ 2) ^ 3) ∧
      mathSqrt ((MU : K) / (eph.sqrtA ^ 2) ^ 3) = .ok (PyMath.sqrt (MU / (eph.sqrtA ^ 2) ^ 3)) := by
  have hmu : (0 : K) < MU := by norm_num [MU]
  exact ⟨if_neg (pow_ne_zero 3 (pow_ne_zero 2 h)), mathSqrt_ok (by positivity)⟩

theorem satellitePosition_ok {eph : Ephemeris K} (h : eph.sqrtA ≠ 0) (he : |eph.ecc| ≤ 1) (t : K) :
    ∃ p, satellitePosition eph t = .ok p := by
  obtain ⟨hdiv, hsqrt⟩ := meanMotion_ok h
  have hecc : (0 : K) ≤ 1 - eph.ecc ^ 2 := sub_nonneg.mpr ((sq_le_one_iff_abs_le_one _).mpr he)
  simp only [satellitePosition, hdiv, hsqrt, mathSqrt_ok hecc, bind_ok]
  exact ⟨_, rfl⟩

theorem satellitePosition_ecc {eph : Ephemeris K} (h : eph.sqrtA ≠ 0) (he : 1 < |eph.ecc|) (t : K) :
    satellitePosition eph t = .error (.valueError "math domain error") := by
  obtain ⟨hdiv, hsqrt⟩ := meanMotion_ok h
  have hecc : 1 - eph.ecc ^ 2 < 0 := sub_neg.mpr ((one_lt_sq_iff_one_lt_abs _).mpr he)
  simp only [satellitePosition, hdiv, hsqrt, mathSqrt_error hecc, bind_ok, bind_error]

theorem satelliteClockBias_ok {eph : Ephemeris K} (h : eph.sqrtA ≠ 0) (t : K) :
    ∃ b, satelliteClockBias eph t = .ok b := by
  obtain ⟨hdiv, hsqrt⟩ := meanMotion_ok h
  simp only [satelliteClockBias, hdiv, hsqrt, bind_ok]
  exact ⟨_, rfl⟩

theorem geometricRange_ok (sat rcv : K × K × K) : ∃ r, geometricRange sat rcv = .ok r := by
  have hsq : ∀ dx dy dz : K, 0 ≤ dx * dx + dy * dy + dz * dz := fun dx dy dz =>
    add_nonneg (add_nonneg (mul_self_nonneg _) (mul_self_nonneg _)) (mul_self_nonneg _)
  simp only [geometricRange, mathSqrt_ok (hsq _ _ _), bind_ok]
  exact ⟨_, rfl⟩

theorem rawCorrection_ok {eph : Ephemeris K} (h : eph.sqrtA ≠ 0) (he : |eph.ecc| ≤ 1) (base : K × K × K)
    (tow pr : K) : ∃ v, rawCorrection eph base tow pr = .ok v := by
  obtain ⟨p, hp⟩ := satellitePosition_ok h he (tow - pr / C)
  obtain ⟨b, hb⟩ := satelliteClockBias_ok h (tow - pr / C)
  obtain ⟨r, hr⟩ := geometricRange_ok p base
  exact ⟨r - pr - C * b, by simp only [rawCorrection, hp, hb, hr, bind_ok]; rfl⟩

theorem rawCorrection_error {eph : Ephemeris K} (h : eph.sqrtA = 0 ∨ 1 < |eph.ecc|) (base : K × K × K)
    (tow pr : K) : ∃ e, rawCorrection eph base tow pr = .error e := by
  by_cases hs : eph.sqrtA = 0
  · exact ⟨_, by rw [rawCorrection, satellitePosition_sqrtA_zero hs]; rfl⟩
  · exact ⟨_, by rw [rawCorrection, satellitePosition_ecc hs (h.resolve_left hs)]; rfl⟩

end

/-! ## The radius -/

/-- A point of a plane, at distance `r` and turned about three axes. -/
theorem rotated_sq (r u i o : ℝ) :
    (r * Real.cos u * Real.cos o - r * Real.sin u * Real.cos i * Real.sin o) ^ 2 +
      (r * Real.cos u * Real.sin o + r * Real.sin u * Real.cos i * Real.cos o) ^ 2 +
      (r * Real.sin u * Real.sin i) ^ 2 = r ^ 2 := by
  have hu := Real.sin_sq_add_cos_sq u
  have hi := Real.sin_sq_add_cos_sq i
  have ho := Real.sin_sq_add_cos_sq o
  calc _ = r ^ 2 * (Real.cos u ^ 2 * (Real.sin o ^ 2 + Real.cos o ^ 2) +
        Real.sin u ^ 2 * (Real.cos i ^ 2 * (Real.sin o ^ 2 + Real.cos o ^ 2) + Real.sin i ^ 2)) := by ring
    _ = r ^ 2 * (Real.sin u ^ 2 + Real.cos u ^ 2) := by rw [ho, mul_one, mul_one, add_comm (_ ^ 2) (_ ^ 2), hi]; ring
    _ = r ^ 2 := by rw [hu, mul_one]

theorem satellitePosition_radius {eph : Ephemeris ℝ} (h : eph.sqrtA ≠ 0) (he : |eph.ecc| ≤ 1) (t : ℝ) :
    ∃ x y z, satellitePosition eph t = .ok (x, y, z) ∧ x ^ 2 + y ^ 2 + z ^ 2 = Orbit.rk eph t ^ 2 := by
  obtain ⟨hdiv, hsqrt⟩ := meanMotion_ok h
  have hecc : (0 : ℝ) ≤ 1 - eph.ecc ^ 2 := sub_nonneg.mpr ((sq_le_one_iff_abs_le_one _).mpr he)
  simp only [satellitePosition, hdiv, hsqrt, mathSqrt_ok hecc, bind_ok]
  exact ⟨_, _, _, rfl, rotated_sq (Orbit.rk eph t) ..⟩

/-! ## A circular orbit -/

section

variable {eph : Ephemeris ℝ} (h : Circular eph)
include h

/-- The satellite stays at one distance from the Earth's centre. -/
theorem satellitePosition_circular (t : ℝ) :
    ∃ x y z, satellitePosition eph t = .ok (x, y, z) ∧ x * x + y * y + z * z = (eph.sqrtA ^ 2) ^ 2 := by
  obtain ⟨x, y, z, hp, hr⟩ := satellitePosition_radius h.sqrtA (by simp [h.ecc]) t
  have hrk : Orbit.rk eph t = eph.sqrtA ^ 2 := by simp [Orbit.rk, h.ecc, h.radius]
  refine ⟨x, y, z, hp, ?_⟩
  rw [← hrk, ← hr, sq, sq, sq]

theorem satelliteClockBias_circular (t : ℝ) : satelliteClockBias eph t = .ok 0 := by
  obtain ⟨hdiv, hsqrt⟩ := meanMotion_ok h.sqrtA
  obtain ⟨h0, h1, h2, htgd⟩ := h.clock
  simp only [satelliteClockBias, hdiv, hsqrt, bind_ok, h.ecc, h0, h1, h2, htgd]
  norm_num
  rfl

theorem geometricRange_circular (t : ℝ) :
    ∃ sat, satellitePosition eph t = .ok sat ∧ geometricRange sat ((0, 0, 0) : ℝ × ℝ × ℝ) = .ok (eph.sqrtA ^ 2) := by
  obtain ⟨x, y, z, hp, hr⟩ := satellitePosition_circular h t
  have hs : PyMath.sqrt ((eph.sqrtA ^ 2) ^ 2) = eph.sqrtA ^ 2 := Real.sqrt_sq (sq_nonneg _)
  refine ⟨_, hp, ?_⟩
  simp only [geometricRange, sub_zero, hr, mathSqrt_ok (sq_nonneg _), bind_ok, hs, mul_zero, add_zero]
  rfl

/-- At the Earth's centre the raw correction does not depend on the time. -/
theorem rawCorrection_circular (tow pr : ℝ) :
    rawCorrection eph (0, 0, 0) tow pr = .ok (eph.sqrtA ^ 2 - pr) := by
  obtain ⟨sat, hp, hrange⟩ := geometricRange_circular h (tow - pr / C)
  simp only [rawCorrection, hp, satelliteClockBias_circular h, hrange, bind_ok]
  norm_num
  rfl

end

/-- A range of at most a second, near the time of ephemeris. -/
theorem fit_circular {tow pr toe : ℝ} (h0 : 0 < pr) (h1 : pr ≤ C) (ht : |tow - toe| ≤ 7199) (prn : Int) (sqrtA : ℝ)
    (week iode : Int) : Fit 7200 tow pr (circular prn sqrtA toe week iode) := by
  have hC : (0 : ℝ) < C := by norm_num [C]
  have hd : 0 < pr / C := div_pos h0 hC
  have hd1 : pr / C ≤ 1 := (div_le_one hC).mpr h1
  obtain ⟨hl, hu⟩ := abs_le.mp ht
  have hage : |tow - pr / C - toe| ≤ 7200 := abs_le.mpr ⟨by linarith, by linarith⟩
  refine ⟨h0, rfl, ?_⟩
  change |deltaTWeek (tow - pr / C) toe| ≤ 7200
  rw [deltaTWeek_of_abs_le]
  · exact hage
  · exact hage.trans (by norm_num [HALF_WEEK])

/-- Satellites on one circular orbit, seen from the Earth's centre. -/
theorem rawCorrections_circular {gen : DgpsGenerator ℝ} (tow sqrtA : ℝ) (pseudoranges : Dict Int ℝ)
    (hmax : gen.maxIodAgeS = 7200) (hs : sqrtA ≠ 0)
    (h : ∀ prn pr, pseudoranges.get? prn = some pr → (0 < pr ∧ pr ≤ C) ∧ ∃ toe week iode,
      gen.ephemerides.get? prn = some (circular prn sqrtA toe week iode) ∧ |tow - toe| ≤ 7199) :
    ∃ raw, gen.rawCorrections (0, 0, 0) tow pseudoranges = .ok raw ∧
      ∀ prn, raw.get? prn = (pseudoranges.get? prn).map (sqrtA ^ 2 - ·) := by
  refine rawCorrections_all (f := fun _ pr => sqrtA ^ 2 - pr) fun prn pr hpr => ?_
  obtain ⟨⟨h0, h1⟩, toe, week, iode, heph, ht⟩ := h prn pr hpr
  exact ⟨_, heph, hmax ▸ fit_circular h0 h1 ht .., rawCorrection_circular (circular_circular prn hs ..) tow pr⟩

end Rtcm.Proof
