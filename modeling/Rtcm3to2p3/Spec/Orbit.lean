import Rtcm3to2p3.Spec.Reals

/-!
# The orbit an ephemeris describes

Kepler's equation, and the elements of `satellite_position` that do not depend
on the Earth's rotation, on the real numbers.
-/

namespace Rtcm.Spec

open Rtcm.Impl

/-- `e` solves Kepler's equation. -/
def Kepler (mk ecc e : ℝ) : Prop := e = mk + ecc * Real.sin e

/-- A turn of the iteration. -/
noncomputable def keplerStep (mk ecc e : ℝ) : ℝ := mk + ecc * Real.sin e

namespace Orbit

variable (eph : Ephemeris ℝ) (t : ℝ)

noncomputable def mk : ℝ := eph.m0 + (Real.sqrt (MU / (eph.sqrtA ^ 2) ^ 3) + eph.deltaN) * deltaTWeek t eph.toe

noncomputable def ek : ℝ := eccentricAnomaly (mk eph t) eph.ecc

noncomputable def phik : ℝ :=
  Complex.arg ⟨Real.cos (ek eph t) - eph.ecc, Real.sqrt (1 - eph.ecc ^ 2) * Real.sin (ek eph t)⟩ + eph.omega

/-- The corrected radius. -/
noncomputable def rk : ℝ :=
  eph.sqrtA ^ 2 * (1 - eph.ecc * Real.cos (ek eph t)) + eph.crs * Real.sin (2.0 * phik eph t) +
    eph.crc * Real.cos (2.0 * phik eph t)

/-- What the harmonics can add to the radius. -/
noncomputable def harmonics : ℝ := Real.sqrt (eph.crs ^ 2 + eph.crc ^ 2)

end Orbit

/-- An orbit that is not a circle, with harmonics of 50 m. -/
noncomputable def ellipse : Ephemeris ℝ :=
  { circular 1 5153.0 0 0 10 with ecc := 0.01, crs := 30.0, crc := 40.0 }

end Rtcm.Spec
