import Rtcm3to2p3.Spec.Dgps
import Mathlib.Data.Finset.Sort
import Mathlib.Order.Bounds.Basic

/-!
# The satellites of an epoch

The satellites a call of `corrections` accepts (`accepted`), the same with
their distance from the time of ephemeris on the circle of the week
(`Usable`), and a generator whose raw corrections are from any functions of
position, clock and range (`Geometry`). `RatesRight` is what the rates of an
epoch should be on the absolute time line.
-/

namespace Rtcm.Spec

open Rtcm.Impl

variable {K : Type} [Field K] [LinearOrder K]

/-- The satellites a call accepts. -/
def accepted (gen : DgpsGenerator K) (tow : K) (pseudoranges : Dict Int K) : Finset Int :=
  (pseudoranges.items.map Prod.fst).toFinset.filter fun prn => (useOf gen tow pseudoranges prn).isSome

/-- The median of a value of each satellite. -/
def medianOver (sats : Finset Int) (value : Int → K) : K := Median.median (sats.sort.map value)

/-- The satellite can be used: it has a positive pseudorange and a healthy
ephemeris, and the least distance between the transmit time and the time of
ephemeris, over whole weeks, is within the limit. -/
structure Usable (gen : DgpsGenerator K) (tow : K) (pseudoranges : Dict Int K) (prn : Int) (pr : K)
    (eph : Ephemeris K) : Prop where
  observed : pseudoranges.get? prn = some pr
  known : gen.ephemerides.get? prn = some eph
  positive : 0 < pr
  healthy : eph.health = 0
  fresh : ∃ d, IsLeast (Set.range fun k : ℤ => |tow - pr / C - eph.toe + WEEK * k|) d ∧ d ≤ gen.maxIodAgeS

/-- The list has one correction for each satellite whose raw correction is
within the limit of the median, in the order of the PRNs. -/
structure Exact (gen : DgpsGenerator K) (sats : Finset Int) (raw : Int → K) (out : List (Correction K)) : Prop where
  ascending : out.Pairwise fun c c' => c.prn < c'.prn
  kept : ∀ prn, (∃ c ∈ out, c.prn = prn) ↔ prn ∈ sats ∧ |raw prn - medianOver sats raw| ≤ gen.maxResidualM
  prc : ∀ c ∈ out, c.prc = raw c.prn - medianOver sats raw
  udre : ∀ c ∈ out, c.udre = udreIndex c.prc
  iod : ∀ c ∈ out, ∃ eph, gen.ephemerides.get? c.prn = some eph ∧ c.iod = eph.iode

/-- The generators hold the same, whatever the order of their tables. -/
structure SameState (gen gen' : DgpsGenerator K) : Prop where
  base : gen'.base = gen.base
  ephemerides : ∀ prn, gen'.ephemerides.get? prn = gen.ephemerides.get? prn
  prev : ∀ prn, gen'.prev.get? prn = gen.prev.get? prn
  maxIodAgeS : gen'.maxIodAgeS = gen.maxIodAgeS
  maxResidualM : gen'.maxResidualM = gen.maxResidualM

/-! ## Rates in absolute time -/

/-- The accepted satellites that were accepted before. -/
def rated (gen : DgpsGenerator K) (tow : K) (pseudoranges : Dict Int K) : Finset Int :=
  (accepted gen tow pseudoranges).filter fun prn => (gen.prev.get? prn).isSome

/-- The rate of a raw correction since the satellite's last epoch, at an epoch
in `week`, the last one being in the week `last prn`. -/
def trueRate (gen : DgpsGenerator K) (week : ℤ) (tow : K) (last : Int → ℤ) (prn : Int) (value : K) : K :=
  match gen.prev.get? prn with
  | none => 0
  | some prev => (value - prev.2) / (WEEK * week + tow - (WEEK * last prn + prev.1))

/-- The satellite's last epoch is before the epoch, by less than half a week. -/
def Recent (gen : DgpsGenerator K) (week : ℤ) (tow : K) (last : Int → ℤ) (prn : Int) : Prop :=
  ∀ prev, gen.prev.get? prn = some prev → (0 ≤ prev.1 ∧ prev.1 < WEEK) ∧
    0 < WEEK * week + tow - (WEEK * last prn + prev.1) ∧
    WEEK * week + tow - (WEEK * last prn + prev.1) < HALF_WEEK

/-- The rates used are those in absolute time, and the RRCs are these less
their median. -/
structure RatesRight (gen : DgpsGenerator K) (week : ℤ) (tow : K) (pseudoranges : Dict Int K) (last : Int → ℤ)
    (raw : Int → K) (rates : Dict Int K) (out : List (Correction K)) : Prop where
  rate : ∀ prn ∈ rated gen tow pseudoranges, rates.get? prn = some (trueRate gen week tow last prn (raw prn))
  rrc : ∀ c ∈ out, c.prn ∈ rated gen tow pseudoranges → c.rrc = trueRate gen week tow last c.prn (raw c.prn) -
    medianOver (rated gen tow pseudoranges) fun prn => trueRate gen week tow last prn (raw prn)

/-! ## Any geometry -/

/-- The functions that `raw_correction` calls. -/
structure Geometry (K : Type) where
  satellitePosition : Ephemeris K → K → Py (K × K × K)
  satelliteClockBias : Ephemeris K → K → Py K
  geometricRange : K × K × K → K × K × K → Py K

namespace Geometry

variable (g : Geometry K) (gen : DgpsGenerator K)

def rawCorrection (eph : Ephemeris K) (base : K × K × K) (tow pr : K) : Py K := do
  let tTx := tow - pr / C
  let sat ← g.satellitePosition eph tTx
  let dtSv ← g.satelliteClockBias eph tTx
  return (← g.geometricRange sat base) - pr - C * dtSv

def selectSat (base : K × K × K) (tow : K) (raw : Dict Int K) (prn : Int) (pr : K)
    (eph : Option (Ephemeris K)) : Py (Dict Int K) :=
  match eph with
  | none => .ok raw
  | some eph =>
    if pr ≤ 0 then .ok raw
    else if eph.health ≠ 0 then .ok raw
    else if |deltaTWeek (tow - pr / C) eph.toe| > gen.maxIodAgeS then .ok raw
    else do return raw.set prn (← g.rawCorrection eph base tow pr)

def rawCorrections (base : K × K × K) (tow : K) (pseudoranges : Dict Int K) : Py (Dict Int K) :=
  pseudoranges.items.foldlM (fun raw x => g.selectSat gen base tow raw x.1 x.2 (gen.ephemerides.get? x.1)) ∅

/-- `corrections` with these functions. -/
def corrections (tow : K) (pseudoranges : Dict Int K) : Py (List (Correction K)) × DgpsGenerator K :=
  match gen.base with
  | none => (.ok [], gen)
  | some base =>
    match g.rawCorrections gen base tow pseudoranges with
    | .error e => (.error e, gen)
    | .ok raw =>
      if raw.items.isEmpty then (.ok [], gen)
      else
        let (out, prev) := gen.emitLoop (gen.offsets tow raw) tow raw.sorted gen.prev
        (out, { gen with prev })

/-- The functions of the code. -/
def code [PyMath K] : Geometry K := ⟨Impl.satellitePosition, fun eph t => Impl.satelliteClockBias eph t, Impl.geometricRange⟩

theorem corrections_code [PyMath K] (tow : K) (pseudoranges : Dict Int K) :
    code.corrections gen tow pseudoranges = gen.corrections tow pseudoranges := rfl

end Geometry

end Rtcm.Spec
