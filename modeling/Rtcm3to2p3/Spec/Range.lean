import Rtcm3to2p3.Lib.TurningFrame
import Rtcm3to2p3.Spec.Epochs
import Rtcm3to2p3.Spec.Reals
import Rtcm3to2p3.Spec.Selection

/-!
# True ranges

The way of light from a satellite to a station that the Earth turns meanwhile,
and what a pseudorange has beyond it.
-/

namespace Rtcm.Spec

open Rtcm.Impl TurningFrame

/-- The length of the way of light from the satellite to the station, both in
the frame of the Earth. -/
def LightTime (sat rcv : ℝ × ℝ × ℝ) (range : ℝ) : Prop := IsRange (OMEGA_E_DOT / C) sat rcv range

/-- An ellipse between 25500 and 30000 km from the Earth's centre. -/
structure MediumOrbit (eph : Ephemeris ℝ) : Prop where
  sqrtA : 0 < eph.sqrtA
  ecc : 0 ≤ eph.ecc ∧ eph.ecc < 1
  perigee : 2.55e7 ≤ eph.sqrtA ^ 2 * (1 - eph.ecc) - Real.sqrt (eph.crs ^ 2 + eph.crc ^ 2)
  apogee : eph.sqrtA ^ 2 * (1 + eph.ecc) + Real.sqrt (eph.crs ^ 2 + eph.crc ^ 2) ≤ 3.0e7

/-- A station within 6500 km from the Earth's centre. -/
def OnEarth (base : ℝ × ℝ × ℝ) : Prop := base.1 ^ 2 + base.2.1 ^ 2 + base.2.2 ^ 2 ≤ 6.5e6 ^ 2

/-- What the pseudorange has beyond the range and the clock of the satellite. -/
def RangeError (base : ℝ × ℝ × ℝ) (tow pr : ℝ) (eph : Ephemeris ℝ) (err : ℝ) : Prop :=
  ∃ sat dtSv range, satellitePosition eph (tow - pr / C) = .ok sat ∧
    satelliteClockBias eph (tow - pr / C) = .ok dtSv ∧ LightTime sat base range ∧ pr = range - C * dtSv + err

/-- The corrections are, within a millimetre, the errors of the pseudoranges
less their median, of the satellites in `sats`: those with a pseudorange and an
ephemeris that fit. Only an error that is far from the median has none. -/
structure Tracks (maxIodAgeS maxResidualM : ℝ) (e : Epoch ℝ) (pseudoranges : Dict Int ℝ)
    (table : Dict Int (Ephemeris ℝ)) (sats : Finset Int) (err : Int → ℝ) : Prop where
  mem : ∀ prn, prn ∈ sats ↔ ∃ pr eph, pseudoranges.get? prn = some pr ∧ table.get? prn = some eph ∧
    Fit maxIodAgeS e.tow pr eph
  errors : ∀ prn ∈ sats, ∃ pr eph, pseudoranges.get? prn = some pr ∧ table.get? prn = some eph ∧
    RangeError e.base e.tow pr eph (err prn)
  kept : ∀ prn ∈ sats, |medianOver sats err - err prn| ≤ maxResidualM - 0.001 → ∃ c ∈ e.corrections, c.prn = prn
  prc : ∀ c ∈ e.corrections, c.prn ∈ sats ∧ |c.prc - (medianOver sats err - err c.prn)| ≤ 0.001

end Rtcm.Spec
