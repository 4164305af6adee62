import Rtcm3to2p3.Impl.Dgps
import Mathlib.Analysis.SpecialFunctions.Complex.Arg

/-!
# `math` on the real numbers, and circular orbits
-/

namespace Rtcm.Spec

open Rtcm.Impl

noncomputable instance : PyMath ℝ where
  pi := Real.pi
  sqrt := Real.sqrt
  sin := Real.sin
  cos := Real.cos
  atan2 y x := Complex.arg ⟨x, y⟩

/-- A circular orbit, with a clock that keeps time. -/
structure Circular (eph : Ephemeris ℝ) : Prop where
  sqrtA : eph.sqrtA ≠ 0
  ecc : eph.ecc = 0
  radius : eph.crs = 0 ∧ eph.crc = 0
  clock : eph.af0 = 0 ∧ eph.af1 = 0 ∧ eph.af2 = 0 ∧ eph.tgd = 0

/-- A healthy satellite on a circular orbit. -/
def circular (prn : Int) (sqrtA toe : ℝ) (week iode : Int) : Ephemeris ℝ where
  prn := prn
  week := week
  toe := toe
  sqrtA := sqrtA
  ecc := 0
  m0 := 0
  deltaN := 0
  omega0 := 0
  omega := 0
  i0 := 0
  omegaDot := 0
  idot := 0
  cuc := 0
  cus := 0
  crc := 0
  crs := 0
  cic := 0
  cis := 0
  toc := toe
  af0 := 0
  af1 := 0
  af2 := 0
  tgd := 0
  iode := iode

theorem circular_circular (prn : Int) {sqrtA : ℝ} (h : sqrtA ≠ 0) (toe : ℝ) (week iode : Int) :
    Circular (circular prn sqrtA toe week iode) := ⟨h, rfl, ⟨rfl, rfl⟩, rfl, rfl, rfl, rfl⟩

/-- Two satellites on one orbit, seen from the Earth's centre. -/
def twoSatellites : DgpsGenerator ℝ where
  base := some (0, 0, 0)
  ephemerides := .set (.set ∅ 1 (circular 1 5153 0 0 10)) 2 (circular 2 5153 0 0 10)
  prev := ∅
  maxIodAgeS := 7200
  maxResidualM := 100

end Rtcm.Spec
