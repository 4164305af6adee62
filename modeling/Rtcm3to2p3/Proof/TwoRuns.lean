import Rtcm3to2p3.Proof.History

/-!
# Two runs of the generator

Generators with the same station, table and limits (`SameTable`) compute the
same raw corrections. What they return is the same if the rates are
(`corrections_congr`); what a call leaves is `prev_corrections`. The last
section has two satellites on one orbit.
-/

namespace Rtcm.Proof

open Rtcm.Impl Rtcm.Spec

variable {K : Type}

/-- The generators have the same station, table and limits. -/
structure SameTable (gen gen' : DgpsGenerator K) : Prop where
  base : gen'.base = gen.base
  ephemerides : gen'.ephemerides = gen.ephemerides
  maxIodAgeS : gen'.maxIodAgeS = gen.maxIodAgeS
  maxResidualM : gen'.maxResidualM = gen.maxResidualM

theorem SameTable.refl (gen : DgpsGenerator K) : SameTable gen gen := ⟨rfl, rfl, rfl, rfl⟩

theorem SameTable.symm {gen gen' : DgpsGenerator K} (h : SameTable gen gen') : SameTable gen' gen :=
  ⟨h.base.symm, h.ephemerides.symm, h.maxIodAgeS.symm, h.maxResidualM.symm⟩

theorem SameTable.trans {gen gen' gen'' : DgpsGenerator K} (h : SameTable gen gen') (h' : SameTable gen' gen'') :
    SameTable gen gen'' :=
  ⟨h'.base.trans h.base, h'.ephemerides.trans h.ephemerides, h'.maxIodAgeS.trans h.maxIodAgeS,
    h'.maxResidualM.trans h.maxResidualM⟩

variable [Field K] [LinearOrder K]

/-! ## Medians of tables -/

/-- The common rate of a table of rates. -/
def rateOffsetOf (rates : Dict Int K) : K := if rates.items.isEmpty then 0 else Median.median rates.values

theorem median_congr {d e : Dict Int K} (h : ∀ p, e.get? p = d.get? p) :
    Median.median e.values = Median.median d.values := by
  have hp : e.values.Perm (d.values.map id) := Dict.values_perm fun p => by rw [h, Option.map_id, id]
  rw [List.map_id] at hp
  exact Median.median_perm hp

theorem rateOffsetOf_congr {d e : Dict Int K} (h : ∀ p, e.get? p = d.get? p) :
    rateOffsetOf e = rateOffsetOf d := by
  rw [rateOffsetOf, rateOffsetOf, median_congr h, Dict.isEmpty_congr (d := d) (e := e) fun p => by rw [h]]

theorem median_shift [IsStrictOrderedRing K] {d e : Dict Int K} {b : K}
    (h : ∀ p, e.get? p = (d.get? p).map (· + b)) (hd : d.items ≠ []) :
    Median.median e.values = Median.median d.values + b := by
  rw [Median.median_perm (Dict.values_perm h), Median.median_map_add]
  exact fun hn => hd (List.map_eq_nil_iff.mp hn)

/-- A rate that every satellite with a rate shares is their common rate's. -/
theorem rateOffsetOf_shift [IsStrictOrderedRing K] {d e : Dict Int K} {r : K}
    (h : ∀ p, e.get? p = (d.get? p).map (· + r)) (hd : d.items ≠ []) :
    rateOffsetOf e = rateOffsetOf d + r := by
  have he : e.items.isEmpty = d.items.isEmpty := Dict.isEmpty_congr fun p => by rw [h, Option.map_eq_none_iff]
  have hf : d.items.isEmpty = false := by
    cases hi : d.items.isEmpty with
    | true => exact absurd (List.isEmpty_iff.mp hi) hd
    | false => rfl
  rw [rateOffsetOf, rateOffsetOf, he, hf, median_shift h hd]
  rfl

/-! ## Emitting -/

/-- Corrections are the same if the residuals and the residual rates are. -/
theorem emitted_congr {gen gen' : DgpsGenerator K} {o o' : DgpsGenerator.Offsets K} {prn : Int} {v v' : K}
    (he : gen'.ephemerides = gen.ephemerides) (hm : gen'.maxResidualM = gen.maxResidualM)
    (hv : v' - o'.offset = v - o.offset)
    (hr : (o'.rawRate.get? prn).map (· - o'.rateOffset) = (o.rawRate.get? prn).map (· - o.rateOffset)) :
    emitted gen' o' (prn, v') = emitted gen o (prn, v) := by
  simp only [emitted, he, hm, hv, hr]

theorem offsets_eq (gen : DgpsGenerator K) (tow : K) (raw : Dict Int K) :
    gen.offsets tow raw =
      ⟨Median.median raw.values, gen.rawRates tow raw, rateOffsetOf (gen.rawRates tow raw)⟩ := rfl

variable [PyMath K]

theorem sameTable_corrections (gen : DgpsGenerator K) (tow : K) (pseudoranges : Dict Int K) :
    SameTable gen (gen.corrections tow pseudoranges).2 := by
  obtain ⟨h1, h2, h3, h4⟩ := corrections_base gen tow pseudoranges
  exact ⟨h1, h2, h3, h4⟩

theorem SameTable.rawCorrections {gen gen' : DgpsGenerator K} (h : SameTable gen gen') (base : K × K × K)
    (tow : K) (pseudoranges : Dict Int K) :
    gen'.rawCorrections base tow pseudoranges = gen.rawCorrections base tow pseudoranges := by
  simp only [DgpsGenerator.rawCorrections, DgpsGenerator.selectSat, h.ephemerides, h.maxIodAgeS]

/-- A table's satellites are those that are used. -/
theorem raw_isSome_iff {gen : DgpsGenerator K} {base : K × K × K} {tow : K} {pseudoranges raw : Dict Int K}
    (hb : gen.base = some base) (h : gen.rawCorrections base tow pseudoranges = .ok raw) (prn : Int) :
    (raw.get? prn).isSome ↔ (useOf gen tow pseudoranges prn).isSome := by
  rw [Option.isSome_iff_exists, Option.isSome_iff_exists]
  constructor
  · rintro ⟨v, hv⟩
    obtain ⟨u, hu, -⟩ := useOf_raw hb h hv
    exact ⟨u, hu⟩
  · rintro ⟨u, hu⟩
    obtain ⟨v, -, hv⟩ := raw_useOf hb h hu
    exact ⟨v, hv⟩

/-! ## What a call returns and leaves -/

/-- A call returns the same if the rates it takes are the same. -/
theorem corrections_congr {gen gen' : DgpsGenerator K} (ht : SameTable gen gen') (tow : K)
    (pseudoranges : Dict Int K)
    (h : ∀ base raw, gen.base = some base → gen.rawCorrections base tow pseudoranges = .ok raw → ∀ p v,
      raw.get? p = some v → rateSince tow v (gen'.prev.get? p) = rateSince tow v (gen.prev.get? p)) :
    (gen.corrections tow pseudoranges).1 = (gen'.corrections tow pseudoranges).1 := by
  cases hb : gen.base with
  | none => rw [corrections_base_none hb, corrections_base_none (ht.base.trans hb)]
  | some base =>
    cases hr : gen.rawCorrections base tow pseudoranges with
    | error e =>
      rw [corrections_error hb hr, corrections_error (ht.base.trans hb) ((ht.rawCorrections _ _ _).trans hr)]
    | ok raw =>
      rw [corrections_ok hb hr, corrections_ok (ht.base.trans hb) ((ht.rawCorrections _ _ _).trans hr)]
      have hrates : ∀ p, (gen'.rawRates tow raw).get? p = (gen.rawRates tow raw).get? p := by
        intro p
        rw [get?_rawRates, get?_rawRates]
        cases hv : raw.get? p with
        | none => rfl
        | some v => exact h base raw hb hr p v hv
      refine congrArg Except.ok (List.filterMap_congr fun x _ => Eq.symm ?_)
      refine emitted_congr (v := x.2) ht.ephemerides ht.maxResidualM rfl ?_
      rw [offsets_eq, offsets_eq, rateOffsetOf_congr hrates]
      exact congrArg _ (hrates x.1)

/-- The last epochs after a call that returns. -/
theorem prev_corrections {gen : DgpsGenerator K} {base : K × K × K} {tow : K} {pseudoranges raw : Dict Int K}
    (hb : gen.base = some base) (hr : gen.rawCorrections base tow pseudoranges = .ok raw) (p : Int) :
    (gen.corrections tow pseudoranges).2.prev.get? p =
      ((raw.get? p).map fun v => (tow, v)).or (gen.prev.get? p) := by
  rw [corrections_ok hb hr]
  exact get?_setPrev tow raw gen.prev p

/-- What a call leaves if it does not compute raw corrections. -/
theorem corrections_unchanged {gen : DgpsGenerator K} {tow : K} {pseudoranges : Dict Int K}
    (h : ∀ base raw, gen.base = some base → gen.rawCorrections base tow pseudoranges ≠ .ok raw) :
    (gen.corrections tow pseudoranges).2 = gen := by
  cases hb : gen.base with
  | none => rw [corrections_base_none hb]
  | some base =>
    cases hr : gen.rawCorrections base tow pseudoranges with
    | error e => rw [corrections_error hb hr]
    | ok raw => exact absurd hr (h base raw hb)

theorem SameTable.apply {gen gen' : DgpsGenerator K} (h : SameTable gen gen') (op : Op K) :
    SameTable (op.apply gen) (op.apply gen') := by
  cases op with
  | setStation ecef => exact ⟨rfl, h.ephemerides, h.maxIodAgeS, h.maxResidualM⟩
  | addEphemeris eph => exact ⟨h.base, congrArg (·.set eph.prn eph) h.ephemerides, h.maxIodAgeS, h.maxResidualM⟩
  | corrections t prs => exact ((sameTable_corrections gen t prs).symm.trans h).trans (sameTable_corrections gen' t prs)

/-- Either both generators compute raw corrections, the same ones, or neither does. -/
theorem SameTable.raw_cases {gen gen' : DgpsGenerator K} (h : SameTable gen gen') (t : K)
    (pseudoranges : Dict Int K) :
    (∃ base raw, gen.base = some base ∧ gen.rawCorrections base t pseudoranges = .ok raw ∧
      gen'.base = some base ∧ gen'.rawCorrections base t pseudoranges = .ok raw) ∨
    ((gen.corrections t pseudoranges).2 = gen ∧ (gen'.corrections t pseudoranges).2 = gen' ∧
      ∀ base raw, gen.base = some base → gen.rawCorrections base t pseudoranges ≠ .ok raw) := by
  by_cases hraw : ∃ base raw, gen.base = some base ∧ gen.rawCorrections base t pseudoranges = .ok raw
  · obtain ⟨base, raw, hb, hr⟩ := hraw
    exact .inl ⟨base, raw, hb, hr, h.base.trans hb, (h.rawCorrections _ _ _).trans hr⟩
  · have hno : ∀ base raw, gen.base = some base → gen.rawCorrections base t pseudoranges ≠ .ok raw :=
      fun base raw hb hr => hraw ⟨base, raw, hb, hr⟩
    refine .inr ⟨corrections_unchanged hno, corrections_unchanged fun base raw hb hr => ?_, hno⟩
    exact hno base raw (h.base.symm.trans hb) ((h.rawCorrections _ _ _).symm.trans hr)

/-! ## Two satellites -/

/-- Pseudoranges of the two satellites. -/
def Seen (pseudoranges : Dict Int ℝ) : Prop :=
  ∀ prn pr, pseudoranges.get? prn = some pr → (prn = 1 ∨ prn = 2) ∧ 0 < pr ∧ pr ≤ C

theorem seen_one {x : ℝ} (h0 : 0 < x) (h1 : x ≤ C) : Seen (.set ∅ 1 x) :=
  Dict.forall_get?_set Dict.forall_get?_empty ⟨.inl rfl, h0, h1⟩

theorem seen_two {x y : ℝ} (h0 : 0 < x) (h1 : x ≤ C) (h0' : 0 < y) (h1' : y ≤ C) : Seen (.set (.set ∅ 1 x) 2 y) :=
  Dict.forall_get?_set (seen_one h0 h1) ⟨.inr rfl, h0', h1'⟩

theorem seen_near {x : ℝ} (h0 : 0 < x) (h1 : x ≤ C) : Seen (.set (.set ∅ 1 26553409) 2 x) :=
  seen_two (by norm_num) (by norm_num [C]) h0 h1

theorem range_pos : (0 : ℝ) < 26553409 := by norm_num
theorem range_le : (26553409 : ℝ) ≤ C := by norm_num [C]

theorem range_one : ∀ prn pr, (.set ∅ 1 26553409 : Dict Int ℝ).get? prn = some pr → pr = 26553409 :=
  Dict.forall_get?_set Dict.forall_get?_empty rfl

theorem range_two : ∀ prn pr, (.set (.set ∅ 1 26553409) 2 26553409 : Dict Int ℝ).get? prn = some pr → pr = 26553409 :=
  Dict.forall_get?_set range_one rfl

theorem twoSatellites_eph {prn : Int} (hp : prn = 1 ∨ prn = 2) :
    twoSatellites.ephemerides.get? prn = some (circular prn 5153 0 0 10) := by
  rcases hp with rfl | rfl <;> rfl

section

variable {gen : DgpsGenerator ℝ} (h : SameTable twoSatellites gen) {tow : ℝ} {pseudoranges : Dict Int ℝ}
include h

theorem twoSatellites_raw (ht : |tow| ≤ 7199) (hs : Seen pseudoranges) :
    gen.base = some (0, 0, 0) ∧ ∃ raw, gen.rawCorrections (0, 0, 0) tow pseudoranges = .ok raw ∧
      ∀ prn, raw.get? prn = (pseudoranges.get? prn).map (5153 ^ 2 - ·) := by
  refine ⟨h.base, rawCorrections_circular tow 5153 pseudoranges h.maxIodAgeS (by norm_num) fun prn pr hpr => ?_⟩
  obtain ⟨hp, hr⟩ := hs prn pr hpr
  exact ⟨hr, 0, 0, 10, h.ephemerides ▸ twoSatellites_eph hp, by rwa [sub_zero]⟩

theorem twoSatellites_use (ht : |tow| ≤ 7199) (hs : Seen pseudoranges) (prn : Int) :
    (useOf gen tow pseudoranges prn).isSome ↔ (pseudoranges.get? prn).isSome := by
  obtain ⟨hb, raw, hr, hget⟩ := twoSatellites_raw h ht hs
  rw [← raw_isSome_iff hb hr, hget, Option.isSome_map]

end

end Rtcm.Proof
