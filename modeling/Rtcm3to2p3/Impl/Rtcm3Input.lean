import Rtcm3to2p3.Impl.Ephemeris
import Rtcm3to2p3.Lib.Dict

/-!
# `rtcm3_input.py`: the fields of the RTCM 3 messages, in SI units

`Msg` is what pyrtcm's parser returns: the identity of a message and, of the
messages the service reads, the fields it reads. Fields repeated for every
satellite or cell are lists, numbered from 1 by their attributes.
-/

namespace Rtcm.Impl

/-- A station position, message 1005 or 1006. -/
structure Msg1005 (K : Type) where
  DF025 : K
  DF026 : K
  DF027 : K

/-- A GPS ephemeris. -/
structure Msg1019 (K : Type) where
  DF009 : Int
  DF076 : Int
  DF077 : Int
  DF071 : Int
  DF102 : Int
  DF079 : K
  DF081 : K
  DF082 : K
  DF083 : K
  DF084 : K
  DF086 : K
  DF087 : K
  DF088 : K
  DF089 : K
  DF090 : K
  DF091 : K
  DF092 : K
  DF093 : K
  DF094 : K
  DF095 : K
  DF096 : K
  DF097 : K
  DF098 : K
  DF099 : K
  DF100 : K
  DF101 : K

/-- GPS MSM7 observations. The number of a satellite is `none` where pyrtcm
gives the text `N/A`: it has none for id 64 of the satellite mask. -/
structure Msg1077 (K : Type) where
  DF004 : Int
  PRN : List (Option Int)
  DF397 : List Int
  DF398 : List K
  CELLPRN : List (Option Int)
  CELLSIG : List String
  DF405 : List (Option K)

inductive Msg (K : Type) where
  | station (m : Msg1005 K)
  | gpsEphemeris (m : Msg1019 K)
  | gpsMsm7 (m : Msg1077 K)
  | other (identity : String)

variable {K : Type}

/-- `parse_station` -/
def parseStation (msg : Msg1005 K) : K × K × K := (msg.DF025, msg.DF026, msg.DF027)

/-- `getattr(msg, f"{prefix}{i:02d}")`, of the values of the attributes `name`. -/
def getattr {α : Type} (name : String) (values : List α) (i : Nat) : Py α :=
  match values[i - 1]? with
  | some v => .ok v
  | none => .error (.attributeError (name ++ "_" ++ (if i < 10 then "0" else "") ++ toString i))

/-- `int(…)`, of the number of a satellite. -/
def int : Option Int → Py Int
  | some n => .ok n
  | none => .error (.valueError "invalid literal for int() with base 10: 'N/A'")

variable [Field K]

/-- Metres per millisecond of range. -/
def MS_TO_M : K := C * 1e-3
/-- The MSM signal id of GPS L1 C/A. -/
def L1CA : String := "1C"

/-- One turn of the loop over the satellites. -/
def roughSat (msg : Msg1077 K) (rough : Dict Int K) (i : Nat) : Py (Dict Int K) := do
  let intMs ← getattr "DF397" msg.DF397 i
  if intMs ≥ 255 then return rough
  let prn ← int (← getattr "PRN" msg.PRN i)
  return rough.set prn (intMs + (← getattr "DF398" msg.DF398 i))

/-- One turn of the loop over the cells. -/
def cellRange (msg : Msg1077 K) (rough pseudoranges : Dict Int K) (i : Nat) : Py (Dict Int K) := do
  if (← getattr "CELLSIG" msg.CELLSIG i) ≠ L1CA then return pseudoranges
  match ← getattr "DF405" msg.DF405 i with
  | none => return pseudoranges
  | some fine =>
    let prn ← int (← getattr "CELLPRN" msg.CELLPRN i)
    match rough.get? prn with
    | none => return pseudoranges
    | some r => return pseudoranges.set prn ((r + fine) * MS_TO_M)

/-- `parse_gps_msm7`: the time of week, and the pseudoranges by PRN. -/
def parseGpsMsm7 (msg : Msg1077 K) : Py (K × Dict Int K) := do
  let tow : K := msg.DF004 / 1000
  let nSat := msg.DF397.length
  let rough ← (List.range' 1 nSat).foldlM (roughSat msg) ∅
  let nCell := msg.DF405.length
  let pseudoranges ← (List.range' 1 nCell).foldlM (cellRange msg rough) ∅
  return (tow, pseudoranges)

/-- `parse_ephemeris`: angles are in semicircles. -/
def parseEphemeris [PyMath K] (msg : Msg1019 K) : Ephemeris K where
  prn := msg.DF009
  week := msg.DF076
  toe := msg.DF093
  sqrtA := msg.DF092
  ecc := msg.DF090
  m0 := msg.DF088 * PyMath.pi
  deltaN := msg.DF087 * PyMath.pi
  omega0 := msg.DF095 * PyMath.pi
  omega := msg.DF099 * PyMath.pi
  i0 := msg.DF097 * PyMath.pi
  omegaDot := msg.DF100 * PyMath.pi
  idot := msg.DF079 * PyMath.pi
  cuc := msg.DF089
  cus := msg.DF091
  crc := msg.DF098
  crs := msg.DF086
  cic := msg.DF094
  cis := msg.DF096
  toc := msg.DF081
  af0 := msg.DF084
  af1 := msg.DF083
  af2 := msg.DF082
  tgd := msg.DF101
  iode := msg.DF071
  health := msg.DF102
  ura := msg.DF077

end Rtcm.Impl
