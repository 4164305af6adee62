import Rtcm3to2p3.Impl.Bits
import Mathlib.Algebra.Order.Field.Basic
import Mathlib.Data.Rat.Cast.Defs

/-!
# `ephemeris.py`: satellite position and clock from the broadcast ephemeris

Numbers are exact numbers of an ordered field `K`. The functions of `math`
are those of a `PyMath K`.
-/

namespace Rtcm.Impl

/-- What the code uses of `math`. -/
class PyMath (K : Type) where
  pi : K
  sqrt : K → K
  sin : K → K
  cos : K → K
  atan2 : K → K → K

variable {K : Type} [Field K]

/-- Earth's gravitational constant [m^3/s^2]. -/
def MU : K := 3.986005e14
/-- Earth's rotation rate [rad/s]. -/
def OMEGA_E_DOT : K := 7.2921151467e-5
/-- Speed of light [m/s]. -/
def C : K := 2.99792458e8
/-- Relativistic correction factor [s/sqrt(m)]. -/
def F_REL : K := -4.442807633e-10

def HALF_WEEK : K := 302400.0
def WEEK : K := 604800.0

/-- The broadcast ephemeris of one satellite, in SI units and radians. -/
structure Ephemeris (K : Type) where
  prn : Int
  /-- Of `toe`, modulo 1024. -/
  week : Int
  toe : K
  sqrtA : K
  ecc : K
  m0 : K
  deltaN : K
  omega0 : K
  omega : K
  i0 : K
  omegaDot : K
  idot : K
  cuc : K
  cus : K
  crc : K
  crs : K
  cic : K
  cis : K
  toc : K
  af0 : K
  af1 : K
  af2 : K
  tgd : K
  iode : Int := 0
  /-- 0 is healthy. -/
  health : Int := 0
  ura : Int := 0

variable [LinearOrder K]

/-- `/` -/
def truediv (x y : K) : Py K :=
  if y = 0 then .error (.zeroDivisionError "float division by zero") else .ok (x / y)

/-- `_delta_t_week` -/
def deltaTWeek (t tRef : K) : K :=
  let dt := t - tRef
  if dt > HALF_WEEK then dt - WEEK
  else if dt < -HALF_WEEK then dt + WEEK
  else dt

variable [PyMath K]

open PyMath (sin cos atan2)

/-- `math.sqrt` -/
def mathSqrt (x : K) : Py K :=
  if x < 0 then .error (.valueError "math domain error") else .ok (PyMath.sqrt x)

/-- The loop of `_eccentric_anomaly`, `n` turns from its end. -/
def eccentricAnomalyLoop (mk ecc : K) : Nat → K → K
  | 0, ek => ek
  | n + 1, prev =>
    let ek := mk + ecc * sin prev
    if |ek - prev| < 1e-13 then ek else eccentricAnomalyLoop mk ecc n ek

/-- `_eccentric_anomaly` -/
def eccentricAnomaly (mk ecc : K) : K := eccentricAnomalyLoop mk ecc 30 mk

/-- `satellite_position` -/
def satellitePosition (eph : Ephemeris K) (t : K) : Py (K × K × K) := do
  let a := eph.sqrtA ^ 2
  let tk := deltaTWeek t eph.toe
  let n := (← mathSqrt (← truediv MU (a ^ 3))) + eph.deltaN
  let mk := eph.m0 + n * tk
  let ek := eccentricAnomaly mk eph.ecc
  let (sinEk, cosEk) := (sin ek, cos ek)
  let vk := atan2 ((← mathSqrt (1 - eph.ecc ^ 2)) * sinEk) (cosEk - eph.ecc)
  let phik := vk + eph.omega
  let (sin2, cos2) := (sin (2.0 * phik), cos (2.0 * phik))
  let uk := phik + eph.cus * sin2 + eph.cuc * cos2
  let rk := a * (1 - eph.ecc * cosEk) + eph.crs * sin2 + eph.crc * cos2
  let ik := eph.i0 + eph.idot * tk + eph.cis * sin2 + eph.cic * cos2
  let xp := rk * cos uk
  let yp := rk * sin uk
  let omegaK := eph.omega0 + (eph.omegaDot - OMEGA_E_DOT) * tk - OMEGA_E_DOT * eph.toe
  let (sinO, cosO) := (sin omegaK, cos omegaK)
  let cosI := cos ik
  let x := xp * cosO - yp * cosI * sinO
  let y := xp * sinO + yp * cosI * cosO
  let z := yp * sin ik
  return (x, y, z)

/-- `satellite_clock_bias` -/
def satelliteClockBias (eph : Ephemeris K) (t : K) (applyTgd : Bool := true) : Py K := do
  let a := eph.sqrtA ^ 2
  let tk := deltaTWeek t eph.toe
  let n := (← mathSqrt (← truediv MU (a ^ 3))) + eph.deltaN
  let ek := eccentricAnomaly (eph.m0 + n * tk) eph.ecc
  let dtRel := F_REL * eph.ecc * eph.sqrtA * sin ek
  let dtc := deltaTWeek t eph.toc
  let bias := eph.af0 + eph.af1 * dtc + eph.af2 * dtc ^ 2 + dtRel
  return if applyTgd then bias - eph.tgd else bias

end Rtcm.Impl
