import Rtcm3to2p3.Spec.Dgps
import Rtcm3to2p3.Spec.Feed
import Rtcm3to2p3.Spec.Msm

/-!
# Inputs and exceptions

Messages whose fields are in the ranges of their bit fields, observations
that can be converted, and runs of both streams in which no call raises.
The messages at the end are those of a satellite that has no orbit, and of two
that have one.
-/

namespace Rtcm.Spec

open Rtcm.Impl

section

variable {K : Type} [Field K] [LinearOrder K]

/-! ## Messages -/

/-- Coordinates are signed 38-bit numbers of tenths of a millimetre. -/
def StationOk (m : Msg1005 K) : Prop :=
  ∀ x ∈ [m.DF025, m.DF026, m.DF027], ∃ n : ℤ, -2 ^ 37 ≤ n ∧ n < 2 ^ 37 ∧ x = n / 10000

structure EphemerisOk (m : Msg1019 K) : Prop where
  satellite : 0 ≤ m.DF009 ∧ m.DF009 < 2 ^ 6
  iode : 0 ≤ m.DF071 ∧ m.DF071 < 2 ^ 8
  sqrtA : ∃ n : ℕ, n < 2 ^ 32 ∧ m.DF092 = n / 2 ^ 19
  ecc : 0 ≤ m.DF090 ∧ m.DF090 < 1 / 2

/-- Satellites 1 to 63 have their ids as numbers, and id 64 has none. -/
structure ObservationsOk (m : Msg1077 K) : Prop where
  tow : 0 ≤ m.DF004 ∧ m.DF004 < 2 ^ 30
  satellites : m.PRN.Nodup ∧ ∀ prn, some prn ∈ m.PRN → 1 ≤ prn ∧ prn ≤ 63
  range : ∀ ms ∈ m.DF397, 0 ≤ ms ∧ ms < 2 ^ 8
  attributes : Attributes m

def MsgOk : Msg K → Prop
  | .station m => StationOk m
  | .gpsEphemeris m => EphemerisOk m
  | .gpsMsm7 m => ObservationsOk m
  | .other _ => True

/-! ## Runs -/

variable [PyMath K]

/-- The satellites that are not outliers have PRNs up to 32 and are at most 18. -/
def Sendable (gen : DgpsGenerator K) (m : Msg1077 K) : Prop :=
  ∀ tow pseudoranges base raw, parseGpsMsm7 m = .ok (tow, pseudoranges) → gen.base = some base →
    gen.rawCorrections base tow pseudoranges = .ok raw →
      (∀ prn v, raw.get? prn = some v → |v - Median.median raw.values| ≤ gen.maxResidualM → prn ≤ 32) ∧
      raw.values.countP (fun v => |v - Median.median raw.values| ≤ gen.maxResidualM) ≤ 18

/-- No missing number is read, every accepted satellite has an orbit, and the
corrections can be sent. -/
structure Convertible (gen : DgpsGenerator K) (m : Msg1077 K) : Prop where
  readable : Readable m
  orbits : ∀ tow pseudoranges, parseGpsMsm7 m = .ok (tow, pseudoranges) →
    ∀ prn u, useOf gen tow pseudoranges prn = some u → u.eph.sqrtA ≠ 0
  sendable : Sendable gen m

variable [FloorRing K] (parse : Bytes → Option (Msg K))

/-- The observations among the frames can be converted when they are handled. -/
def FramesConvertible (u : Upstream) (c : Converter K) : List Bytes → Prop
  | [] => True
  | frame :: frames =>
    (∀ m, u = .obs → parse frame = some (.gpsMsm7 m) → Convertible c.gen m) ∧
      FramesConvertible u (u.onFrame parse c frame).2 frames

/-- Calls of `feed_obs` and `feed_eph`, none of which raises. -/
def Returns (c : Converter K) : List (Upstream × Bytes) → Prop
  | [] => True
  | (u, data) :: calls => (u.feed parse c data).1 = .ok () ∧ Returns (u.feed parse c data).2 calls

/-- All observations of the calls can be converted when they are handled. -/
def AllConvertible (c : Converter K) : List (Upstream × Bytes) → Prop
  | [] => True
  | (u, data) :: calls =>
    FramesConvertible parse u (u.received c data) (extractRtcm3Frames (u.buf c ++ data)).1 ∧
      AllConvertible (u.feed parse c data).2 calls

end

/-! ## A satellite without an orbit -/

variable {K : Type} [Field K]

/-- An ephemeris of satellite 1 in which the square root of the semi-major
axis, and everything else, is 0. -/
def noOrbit : Msg1019 K where
  DF009 := 1
  DF076 := 0
  DF077 := 0
  DF071 := 0
  DF102 := 0
  DF079 := 0
  DF081 := 0
  DF082 := 0
  DF083 := 0
  DF084 := 0
  DF086 := 0
  DF087 := 0
  DF088 := 0
  DF089 := 0
  DF090 := 0
  DF091 := 0
  DF092 := 0
  DF093 := 0
  DF094 := 0
  DF095 := 0
  DF096 := 0
  DF097 := 0
  DF098 := 0
  DF099 := 0
  DF100 := 0
  DF101 := 0

def noOrbitFrame : Bytes := [0xd3, 0x00, 0x3d, 0x3f, 0xb0, 0x40] ++ List.replicate 58 0 ++ [0x31, 0xe5, 0xe1]

/-- A station a metre from the Earth's centre. -/
def nearCentre : Msg1005 K := ⟨1, 0, 0⟩

def nearCentreFrame : Bytes := [0xd3, 0x00, 0x13, 0x3e, 0xd0, 0x00, 0x00, 0x00, 0x00, 0x00, 0x27, 0x10] ++
  List.replicate 10 0 ++ [0x55, 0x82, 0xab]

/-- Satellite 1 observed at 100 s of the week, 86 light milliseconds away. -/
def observed : Msg1077 K where
  DF004 := 100000
  PRN := [some 1]
  DF397 := [86]
  DF398 := [0]
  CELLPRN := [some 1]
  CELLSIG := ["1C"]
  DF405 := [some 0]

/-- A satellite observed there, and at another time of the week. -/
def observedOf (prn : Int) : Msg1077 K := { observed with PRN := [some prn], CELLPRN := [some prn] }
def observedAt (ms prn : Int) : Msg1077 K := { observedOf prn with DF004 := ms }

def observedFrame : Bytes := [0xd3, 0x00, 0x24, 0x43, 0x50, 0x00, 0x00, 0x06, 0x1a, 0x80, 0x00, 0x00, 0x40] ++
  List.replicate 7 0 ++ [0x20, 0x00, 0x00, 0x00, 0x55, 0x80] ++ List.replicate 13 0 ++ [0x48, 0x8c, 0xf3]

/-- A parser of the three frames. -/
def parseThree (frame : Bytes) : Option (Msg K) :=
  if frame = noOrbitFrame then some (.gpsEphemeris noOrbit)
  else if frame = nearCentreFrame then some (.station nearCentre)
  else if frame = observedFrame then some (.gpsMsm7 observed)
  else none

/-- A converter, given the position of a station at the Earth's centre and the
ephemeris. -/
def knowsNoOrbit [PyMath K] (c : Converter K) : Converter K :=
  { c with gen := (c.gen.setStation (0, 0, 0)).addEphemeris (parseEphemeris noOrbit) }

/-! ## Satellites with an orbit -/

/-- An ephemeris of a circular orbit. -/
def orbitOf (prn : Int) : Msg1019 K := { noOrbit with DF009 := prn, DF092 := 5153.0 }

def orbitFrame1 : Bytes := [0xd3, 0x00, 0x3d, 0x3f, 0xb0, 0x40] ++ List.replicate 29 0 ++ [0xa1, 0x08] ++
  List.replicate 27 0 ++ [0xfc, 0x9d, 0x58]

def orbitFrame40 : Bytes := [0xd3, 0x00, 0x3d, 0x3f, 0xba, 0x00] ++ List.replicate 29 0 ++ [0xa1, 0x08] ++
  List.replicate 27 0 ++ [0x9b, 0x33, 0x0c]

def observedFrame40 : Bytes := [0xd3, 0x00, 0x24, 0x43, 0x50, 0x00, 0x00, 0x06, 0x1a] ++ [0x80] ++
  List.replicate 7 0 ++ [0x80, 0x00, 0x00, 0x20, 0x00, 0x00, 0x00, 0x55, 0x80] ++ List.replicate 13 0 ++
  [0xc9, 0xfb, 0x22]

/-- A parser of the frames of both satellites and of the station. A Type 1
message has no number for satellite 40. -/
def parseBoth (frame : Bytes) : Option (Msg K) :=
  if frame = orbitFrame1 then some (.gpsEphemeris (orbitOf 1))
  else if frame = orbitFrame40 then some (.gpsEphemeris (orbitOf 40))
  else if frame = nearCentreFrame then some (.station nearCentre)
  else if frame = observedFrame then some (.gpsMsm7 (observedOf 1))
  else if frame = observedFrame40 then some (.gpsMsm7 (observedOf 40))
  else none

/-! ## Epochs a minute apart -/

def observedFrame4 : Bytes := [0xd3, 0x00, 0x24, 0x43, 0x50, 0x00, 0x00, 0x00, 0x40, 0x10, 0x00, 0x00, 0x40] ++
  List.replicate 7 0 ++ [0x20, 0x00, 0x00, 0x00, 0x55, 0x80] ++ List.replicate 13 0 ++ [0xdd, 0x55, 0xf2]

def observedFrame64 : Bytes := [0xd3, 0x00, 0x24, 0x43, 0x50, 0x00, 0x00, 0x03, 0xe9, 0x90, 0x00, 0x00, 0x40] ++
  List.replicate 7 0 ++ [0x20, 0x00, 0x00, 0x00, 0x55, 0x80] ++ List.replicate 13 0 ++ [0x98, 0x35, 0xcd]

/-- A parser of frames of satellite 1 at 4.1 s and 64.1 s of the week too. -/
def parseMinute (frame : Bytes) : Option (Msg K) :=
  if frame = observedFrame4 then some (.gpsMsm7 (observedAt 4100 1))
  else if frame = observedFrame64 then some (.gpsMsm7 (observedAt 64100 1))
  else parseBoth frame

end Rtcm.Spec
