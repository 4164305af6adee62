import Rtcm3to2p3.Spec.Service

/-!
# What streams tell

What the frames of the two upstreams tell a generator: where the station is,
the ephemerides, and the raw corrections of the satellites that were observed.
-/

namespace Rtcm.Spec

open Rtcm.Impl

variable {K : Type} [Field K] [LinearOrder K] [PyMath K] (parse : Bytes → Option (Msg K)) (obs eph : List Bytes)

/-- The time and the pseudoranges of a frame of observations. -/
def Observed (tow : K) (pseudoranges : Dict Int K) : Prop :=
  ∃ frame msg, frame ∈ obs ∧ parse frame = some (.gpsMsm7 msg) ∧ parseGpsMsm7 msg = .ok (tow, pseudoranges)

/-- The station of a frame. -/
def Stationed (base : K × K × K) : Prop :=
  ∃ frame msg, frame ∈ obs ∧ parse frame = some (.station msg) ∧ base = parseStation msg

/-- A satellite's ephemeris in a frame. -/
def Orbiting (prn : Int) (ephemeris : Ephemeris K) : Prop :=
  ∃ frame msg, frame ∈ eph ∧ parse frame = some (.gpsEphemeris msg) ∧ ephemeris = parseEphemeris msg ∧
    ephemeris.prn = prn

/-- The raw correction of a satellite that was observed then. -/
def Remembered (prn : Int) (tow raw : K) : Prop :=
  ∃ pseudoranges pr base ephemeris, Observed parse obs tow pseudoranges ∧ pseudoranges.get? prn = some pr ∧
    Stationed parse obs base ∧ Orbiting parse eph prn ephemeris ∧ rawCorrection ephemeris base tow pr = .ok raw

/-- What a generator holds came in frames. -/
structure Learned (maxIodAgeS maxResidualM : K) (gen : DgpsGenerator K) : Prop where
  age : gen.maxIodAgeS = maxIodAgeS
  residual : gen.maxResidualM = maxResidualM
  base : ∀ base, gen.base = some base → Stationed parse obs base
  ephemerides : ∀ prn ephemeris, gen.ephemerides.get? prn = some ephemeris → Orbiting parse eph prn ephemeris
  prev : ∀ prn last, gen.prev.get? prn = some last → Remembered parse obs eph prn last.1 last.2

end Rtcm.Spec
