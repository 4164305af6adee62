import Rtcm3to2p3.Impl.Dgps

/-!
# Runs of the generator

What a call of `corrections` uses for a satellite (`Selected`), operations on
a generator one after the other, and what the operations alone say about the
table, the station and each satellite's last use.
-/

namespace Rtcm.Spec

open Rtcm.Impl

variable {K : Type} [Field K] [LinearOrder K]

/-- The checks a satellite passes: a positive pseudorange, and a healthy
ephemeris that is not stale at the transmit time. -/
def Fit (maxIodAgeS tow pr : K) (eph : Ephemeris K) : Prop :=
  0 < pr ∧ eph.health = 0 ∧ |deltaTWeek (tow - pr / C) eph.toe| ≤ maxIodAgeS

instance (maxIodAgeS tow pr : K) (eph : Ephemeris K) : Decidable (Fit maxIodAgeS tow pr eph) :=
  inferInstanceAs (Decidable (_ ∧ _ ∧ _))

/-- The satellite is accepted, with this pseudorange and this ephemeris. -/
structure Selected (gen : DgpsGenerator K) (tow : K) (pseudoranges : Dict Int K) (prn : Int) (pr : K)
    (eph : Ephemeris K) : Prop where
  observed : pseudoranges.get? prn = some pr
  known : gen.ephemerides.get? prn = some eph
  fit : Fit gen.maxIodAgeS tow pr eph

/-- What a correction was computed from. -/
structure Use (K : Type) where
  base : K × K × K
  tow : K
  pr : K
  eph : Ephemeris K

/-- What a call accepts a satellite with. -/
def useOf (gen : DgpsGenerator K) (tow : K) (pseudoranges : Dict Int K) (prn : Int) : Option (Use K) :=
  match gen.base, pseudoranges.get? prn, gen.ephemerides.get? prn with
  | some base, some pr, some eph => if Fit gen.maxIodAgeS tow pr eph then some ⟨base, tow, pr, eph⟩ else none
  | _, _, _ => none

variable [PyMath K]

/-- The raw correction of a use. -/
def Use.raw (u : Use K) : Py K := rawCorrection u.eph u.base u.tow u.pr

inductive Op (K : Type) where
  | setStation (ecef : K × K × K)
  | addEphemeris (eph : Ephemeris K)
  | corrections (tow : K) (pseudoranges : Dict Int K)

def Op.apply (gen : DgpsGenerator K) : Op K → DgpsGenerator K
  | .setStation ecef => gen.setStation ecef
  | .addEphemeris eph => gen.addEphemeris eph
  | .corrections tow pseudoranges => (gen.corrections tow pseudoranges).2

/-- The generator after the operations, the latest first. -/
def after (gen : DgpsGenerator K) : List (Op K) → DgpsGenerator K
  | [] => gen
  | op :: history => op.apply (after gen history)

/-- What a satellite was last accepted with, by a call that returned. -/
def lastUse (gen : DgpsGenerator K) : List (Op K) → Int → Option (Use K)
  | [], _ => none
  | .corrections tow pseudoranges :: history, prn =>
    match ((after gen history).corrections tow pseudoranges).1 with
    | .error _ => lastUse gen history prn
    | .ok _ => (useOf (after gen history) tow pseudoranges prn).or (lastUse gen history prn)
  | _ :: history, prn => lastUse gen history prn

/-- The last ephemeris stored for a satellite. -/
def lastEphemeris : List (Op K) → Int → Option (Ephemeris K)
  | [], _ => none
  | .addEphemeris eph :: history, prn => if prn = eph.prn then some eph else lastEphemeris history prn
  | _ :: history, prn => lastEphemeris history prn

/-- The last station position set. -/
def lastStation : List (Op K) → Option (K × K × K)
  | [] => none
  | .setStation ecef :: _ => some ecef
  | _ :: history => lastStation history

/-- A correction emitted after `history`, if its RRC is formed from an earlier
raw correction, has that one from the ephemeris it names and from the station. -/
def OneOrbit (gen : DgpsGenerator K) (history : List (Op K)) (tow : K) (c : Correction K) : Prop :=
  ∀ u, lastUse gen history c.prn = some u → u.tow ≠ tow →
    u.eph.iode = c.iod ∧ (after gen history).base = some u.base

/-- Nothing has changed for the satellite since it was last accepted, at
another time of week: the last ephemeris stored has the issue used then, and
the station is where it was. -/
def Unchanged (gen : DgpsGenerator K) (history : List (Op K)) (tow : K) (prn : Int) : Prop :=
  ∀ u, lastUse gen history prn = some u → u.tow ≠ tow →
    (∀ eph, lastEphemeris history prn = some eph → eph.iode = u.eph.iode) ∧
      lastStation history = some u.base

/-! ## Absolute time -/

/-- What the calls of `corrections` return, one after the other. -/
def outputs (gen : DgpsGenerator K) : List (Op K) → List (Py (List (Correction K)))
  | [] => []
  | .corrections tow pseudoranges :: ops =>
    (gen.corrections tow pseudoranges).1 :: outputs (gen.corrections tow pseudoranges).2 ops
  | op :: ops => outputs (op.apply gen) ops

/-- The satellites and their RRCs, of what the calls return. -/
def rangeRates (gen : DgpsGenerator K) (ops : List (Op K)) : List (Py (List (Int × K))) :=
  (outputs gen ops).map fun out => out.map (·.map fun c => (c.prn, c.rrc))

/-- The satellite is accepted with the raw correction `v`, and dropped as an outlier. -/
def Dropped (gen : DgpsGenerator K) (tow : K) (pseudoranges : Dict Int K) (prn : Int) (v : K) : Prop :=
  ∃ base raw, gen.base = some base ∧ gen.rawCorrections base tow pseudoranges = .ok raw ∧
    raw.get? prn = some v ∧ |v - Median.median raw.values| > gen.maxResidualM

/-- The first call that accepts the satellite, if any, is at the time of week
`tow`: no rate is taken over its value at `tow`. -/
def Forgotten (gen : DgpsGenerator K) (tow : K) (prn : Int) : List (Op K) → Prop
  | [] => True
  | .corrections t pseudoranges :: ops =>
    match (gen.corrections t pseudoranges).1 with
    | .error _ => Forgotten (gen.corrections t pseudoranges).2 tow prn ops
    | .ok _ =>
      if (useOf gen t pseudoranges prn).isSome then t = tow
      else Forgotten (gen.corrections t pseudoranges).2 tow prn ops
  | op :: ops => Forgotten (op.apply gen) tow prn ops

/-- An epoch of two runs: the pseudoranges of both, and the common term by
which the second run's raw corrections exceed the first's. -/
structure DriftEpoch (K : Type) where
  tow : K
  pseudoranges : Dict Int K
  pseudoranges' : Dict Int K
  drift : K

/-- An operation of two runs that differ in the pseudoranges only. -/
inductive DriftOp (K : Type) where
  | setStation (ecef : K × K × K)
  | addEphemeris (eph : Ephemeris K)
  | epoch (e : DriftEpoch K)

def DriftOp.first : DriftOp K → Op K
  | .setStation ecef => .setStation ecef
  | .addEphemeris eph => .addEphemeris eph
  | .epoch e => .corrections e.tow e.pseudoranges

def DriftOp.second : DriftOp K → Op K
  | .setStation ecef => .setStation ecef
  | .addEphemeris eph => .addEphemeris eph
  | .epoch e => .corrections e.tow e.pseudoranges'

/-- `P` of every epoch and the first run's generator then. -/
def Throughout (P : DgpsGenerator K → DriftEpoch K → Prop) (gen : DgpsGenerator K) : List (DriftOp K) → Prop
  | [] => True
  | .epoch e :: ops => P gen e ∧ Throughout P (gen.corrections e.tow e.pseudoranges).2 ops
  | op :: ops => Throughout P (op.first.apply gen) ops

/-- The raw corrections of the epoch differ by the common term, and by nothing else. -/
def Shifted (gen : DgpsGenerator K) (e : DriftEpoch K) : Prop :=
  ∃ base raw raw', gen.base = some base ∧ gen.rawCorrections base e.tow e.pseudoranges = .ok raw ∧
    gen.rawCorrections base e.tow e.pseudoranges' = .ok raw' ∧
    ∀ prn, raw'.get? prn = (raw.get? prn).map (· + e.drift)

/-- No accepted satellite of the epoch is an outlier. -/
def NoneDropped (gen : DgpsGenerator K) (e : DriftEpoch K) : Prop :=
  ∀ base raw, gen.base = some base → gen.rawCorrections base e.tow e.pseudoranges = .ok raw →
    ∀ prn v, raw.get? prn = some v → |v - Median.median raw.values| ≤ gen.maxResidualM

/-- The common term has changed at one rate since the last epochs of all the
satellites of the epoch that have one, `last` being their times of week and
common terms. -/
def OneRate (gen : DgpsGenerator K) (last : Int → Option (K × K)) (e : DriftEpoch K) : Prop :=
  ∃ rate, ∀ prn t drift, (useOf gen e.tow e.pseudoranges prn).isSome → last prn = some (t, drift) →
    e.tow ≠ t → (e.drift - drift) / (e.tow - t) = rate

/-- The last epochs after an epoch. -/
def nextLast (gen : DgpsGenerator K) (e : DriftEpoch K) (last : Int → Option (K × K)) (prn : Int) :
    Option (K × K) :=
  if (useOf gen e.tow e.pseudoranges prn).isSome then some (e.tow, e.drift) else last prn

/-- `OneRate` at each epoch. -/
def SameDrift (gen : DgpsGenerator K) (last : Int → Option (K × K)) : List (DriftOp K) → Prop
  | [] => True
  | .epoch e :: ops =>
    OneRate gen last e ∧ SameDrift (gen.corrections e.tow e.pseudoranges).2 (nextLast gen e last) ops
  | op :: ops => SameDrift (op.first.apply gen) last ops

/-- The last epochs of a generator, which two runs from it share. -/
def lastEpochs (gen : DgpsGenerator K) (prn : Int) : Option (K × K) := (gen.prev.get? prn).map fun x => (x.1, 0)

end Rtcm.Spec
