import Rtcm3to2p3.Impl.Ephemeris
import Rtcm3to2p3.Impl.Rtcm2
import Rtcm3to2p3.Lib.Dict
import Rtcm3to2p3.Lib.Median

/-!
# `dgps.py`: pseudorange corrections from ephemerides and observations

`DgpsGenerator.corrections` reads the ephemeris table twice for a satellite:
when it computes the satellite's raw correction (`selectSat`) and when it
emits its correction (`emitSat`). Both take what was read as an argument;
`corrections` reads the generator's own table.
-/

namespace Rtcm.Impl

variable {K : Type}

structure DgpsGenerator (K : Type) where
  base : Option (K × K × K)
  ephemerides : Dict Int (Ephemeris K)
  /-- The time of week and the raw correction of each satellite's last epoch. -/
  prev : Dict Int (K × K)
  maxIodAgeS : K
  maxResidualM : K

namespace DgpsGenerator

variable (gen : DgpsGenerator K)

/-- `set_station` -/
def setStation (ecef : K × K × K) : DgpsGenerator K := { gen with base := some ecef }

/-- `add_ephemeris` -/
def addEphemeris (eph : Ephemeris K) : DgpsGenerator K :=
  { gen with ephemerides := gen.ephemerides.set eph.prn eph }

end DgpsGenerator

variable [Field K] [LinearOrder K]

/-- `udre_index` -/
def udreIndex (prc : K) : Int :=
  let magnitude := |prc|
  if magnitude ≤ 1.0 then 0
  else if magnitude ≤ 4.0 then 1
  else if magnitude ≤ 8.0 then 2
  else 3

namespace DgpsGenerator

/-- `DgpsGenerator(max_iod_age_s, max_residual_m)` -/
def init (maxIodAgeS : K := 7200.0) (maxResidualM : K := 100.0) : DgpsGenerator K where
  base := none
  ephemerides := ∅
  prev := ∅
  maxIodAgeS := maxIodAgeS
  maxResidualM := maxResidualM

variable (gen : DgpsGenerator K)

/-- One turn of the second loop, with what `self._prev.get(prn)` returned. -/
def rateSat (tow : K) (rawRate : Dict Int K) (prn : Int) (value : K) (prev : Option (K × K)) : Dict Int K :=
  match prev with
  | none => rawRate
  | some prev => if tow ≠ prev.1 then rawRate.set prn ((value - prev.2) / (tow - prev.1)) else rawRate

/-- The second loop: the rates of the raw corrections since each satellite's
last epoch. -/
def rawRates (tow : K) (raw : Dict Int K) : Dict Int K :=
  raw.items.foldl (fun rawRate x => rateSat tow rawRate x.1 x.2 (gen.prev.get? x.1)) ∅

/-- What `corrections` subtracts from a raw correction and from a rate. -/
structure Offsets (K : Type) where
  offset : K
  rawRate : Dict Int K
  rateOffset : K

/-- The common terms, the medians of the raw corrections and of their rates. -/
def Offsets.of (raw rawRate : Dict Int K) : Offsets K where
  offset := Median.median raw.values
  rawRate := rawRate
  rateOffset := if rawRate.items.isEmpty then 0 else Median.median rawRate.values

def offsets (tow : K) (raw : Dict Int K) : Offsets K := .of raw (gen.rawRates tow raw)

/-- One turn of the last loop, with what `self.ephemerides[prn]` returned if
it was read. -/
def emitSat (o : Offsets K) (prn : Int) (value : K) (eph : Option (Ephemeris K)) :
    Py (Option (Correction K)) :=
  let prc := value - o.offset
  if |prc| > gen.maxResidualM then .ok none
  else
    let rrc := match o.rawRate.get? prn with
      | some rate => rate - o.rateOffset
      | none => 0
    match eph with
    | none => .error (.keyError (toString prn))
    | some eph => .ok (some { prn := prn, prc := prc, rrc := rrc, iod := eph.iode, udre := udreIndex prc })

/-- The last loop, over the sorted raw corrections: `prev` is written before
a satellite is dropped. -/
def emitLoop (o : Offsets K) (tow : K) :
    List (Int × K) → Dict Int (K × K) → Py (List (Correction K)) × Dict Int (K × K)
  | [], prev => (.ok [], prev)
  | (prn, value) :: rest, prev =>
    let prev := prev.set prn (tow, value)
    match gen.emitSat o prn value (gen.ephemerides.get? prn) with
    | .error e => (.error e, prev)
    | .ok c =>
      let (out, prev) := emitLoop o tow rest prev
      (out.map (c.toList ++ ·), prev)

end DgpsGenerator

variable [PyMath K]

/-- `_geometric_range` -/
def geometricRange (sat rcv : K × K × K) : Py K := do
  let (dx, dy, dz) := (sat.1 - rcv.1, sat.2.1 - rcv.2.1, sat.2.2 - rcv.2.2)
  let r ← mathSqrt (dx * dx + dy * dy + dz * dz)
  return r + OMEGA_E_DOT / C * (sat.1 * rcv.2.1 - sat.2.1 * rcv.1)

/-- `raw_correction` -/
def rawCorrection (eph : Ephemeris K) (base : K × K × K) (tow pr : K) : Py K := do
  let tTx := tow - pr / C
  let sat ← satellitePosition eph tTx
  let dtSv ← satelliteClockBias eph tTx
  return (← geometricRange sat base) - pr - C * dtSv

namespace DgpsGenerator

variable (gen : DgpsGenerator K)

/-- One turn of the first loop, with what `self.ephemerides.get(prn)` returned. -/
def selectSat (base : K × K × K) (tow : K) (raw : Dict Int K) (prn : Int) (pr : K)
    (eph : Option (Ephemeris K)) : Py (Dict Int K) :=
  match eph with
  | none => .ok raw
  | some eph =>
    if pr ≤ 0 then .ok raw
    else if eph.health ≠ 0 then .ok raw
    else if |deltaTWeek (tow - pr / C) eph.toe| > gen.maxIodAgeS then .ok raw
    else do return raw.set prn (← rawCorrection eph base tow pr)

/-- The first loop: the raw corrections of the satellites that pass its checks. -/
def rawCorrections (base : K × K × K) (tow : K) (pseudoranges : Dict Int K) : Py (Dict Int K) :=
  pseudoranges.items.foldlM (fun raw x => gen.selectSat base tow raw x.1 x.2 (gen.ephemerides.get? x.1)) ∅

/-- `corrections` -/
def corrections (tow : K) (pseudoranges : Dict Int K) : Py (List (Correction K)) × DgpsGenerator K :=
  match gen.base with
  | none => (.ok [], gen)
  | some base =>
    match gen.rawCorrections base tow pseudoranges with
    | .error e => (.error e, gen)
    | .ok raw =>
      if raw.items.isEmpty then (.ok [], gen)
      else
        let (out, prev) := gen.emitLoop (gen.offsets tow raw) tow raw.sorted gen.prev
        (out, { gen with prev })

end DgpsGenerator

end Rtcm.Impl
