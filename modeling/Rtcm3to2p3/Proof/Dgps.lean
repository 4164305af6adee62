import Rtcm3to2p3.Spec.Selection

/-!
# `DgpsGenerator.corrections`

One lemma for each loop, and from them what a call does:

* `rawCorrections_ok`, `rawCorrections_error_iff`: the first loop computes the
  raw corrections of the satellites that are accepted, or raises because one
  of them cannot be computed;
* `get?_rawRates`: the rates are over each satellite's last epoch;
* `emitLoop_eq`: the last loop emits the satellites within `max_residual_m`
  and sets the last epoch of every accepted one;
* `corrections_ok`, `corrections_error`: a whole call.

The first loop's are for any functions of position, clock and range, and then
for those of the code.
-/

namespace Rtcm.Proof

open Rtcm.Impl Rtcm.Spec

variable {K : Type}

/-! ## Last epochs -/

/-- The last epochs after a call. -/
def setPrev (tow : K) (prev : Dict Int (K × K)) (items : List (Int × K)) : Dict Int (K × K) :=
  items.foldl (fun prev x => prev.set x.1 (tow, x.2)) prev

theorem get?_setPrev (tow : K) (raw : Dict Int K) (prev : Dict Int (K × K)) (p : Int) :
    (setPrev tow prev raw.sorted).get? p = ((raw.get? p).map fun v => (tow, v)).or (prev.get? p) := by
  have hstep : ∀ (d : Dict Int (K × K)) (x : Int × K) (p : Int), (d.set x.1 (tow, x.2)).get? p =
      if p = x.1 then (some (tow, x.2)).or (d.get? p) else d.get? p := fun d x p => Dict.get?_set d x.1 p _
  have hn := raw.nodup_sorted
  rw [setPrev, Dict.get?_foldl (f := fun _ v => some (tow, v)) hstep hn]
  have hl : raw.sorted.lookup p = raw.get? p := by
    cases hg : raw.get? p with
    | none =>
      refine Dict.lookup_eq_none fun hm => ?_
      obtain ⟨⟨k, v⟩, hx, rfl⟩ := List.mem_map.mp hm
      rw [Dict.mem_sorted, hg] at hx
      cases hx
    | some v => exact (Dict.lookup_eq_some hn).mpr (Dict.mem_sorted.mpr hg)
  rw [hl]
  cases raw.get? p <;> rfl

variable [Field K] [LinearOrder K]

/-! ## Rates -/

/-- The rate of a value since the last epoch, if there is one. -/
def rateSince (tow value : K) (prev : Option (K × K)) : Option K :=
  prev.bind fun last => if tow ≠ last.1 then some ((value - last.2) / (tow - last.1)) else none

theorem get?_rateSat (tow : K) (rates : Dict Int K) (prn p : Int) (value : K) (prev : Option (K × K)) :
    (DgpsGenerator.rateSat tow rates prn value prev).get? p =
      if p = prn then (rateSince tow value prev).or (rates.get? p) else rates.get? p := by
  cases prev with
  | none => exact (ite_self _).symm
  | some last =>
    simp only [DgpsGenerator.rateSat, rateSince, Option.bind_some]
    split_ifs with ht hp hp
    · rw [hp, Dict.get?_set_self]; rfl
    · rw [Dict.get?_set_ne _ _ hp]
    · rfl
    · rfl

theorem get?_rawRates (gen : DgpsGenerator K) (tow : K) (raw : Dict Int K) (p : Int) :
    (gen.rawRates tow raw).get? p = (raw.get? p).bind fun v => rateSince tow v (gen.prev.get? p) := by
  rw [DgpsGenerator.rawRates,
    Dict.get?_foldl (f := fun k v => rateSince tow v (gen.prev.get? k))
      (fun d x p => get?_rateSat tow d x.1 p x.2 _) raw.nodup,
    Dict.get?_empty, Option.or_none]
  rfl

/-! ## Emitting -/

/-- The correction of a satellite, if it is not dropped. -/
def emitted (gen : DgpsGenerator K) (o : DgpsGenerator.Offsets K) (x : Int × K) : Option (Correction K) :=
  if |x.2 - o.offset| > gen.maxResidualM then none
  else (gen.ephemerides.get? x.1).map fun eph => {
    prn := x.1
    prc := x.2 - o.offset
    rrc := ((o.rawRate.get? x.1).map (· - o.rateOffset)).getD 0
    iod := eph.iode
    udre := udreIndex (x.2 - o.offset) }

theorem emitted_isSome {gen : DgpsGenerator K} {o : DgpsGenerator.Offsets K} {x : Int × K}
    (hk : |x.2 - o.offset| ≤ gen.maxResidualM) (he : (gen.ephemerides.get? x.1).isSome) :
    (emitted gen o x).isSome := by
  rwa [emitted, if_neg (not_lt.mpr hk), Option.isSome_map]

theorem emitSat_eq (gen : DgpsGenerator K) (o : DgpsGenerator.Offsets K) {x : Int × K}
    (h : (gen.ephemerides.get? x.1).isSome) :
    gen.emitSat o x.1 x.2 (gen.ephemerides.get? x.1) = .ok (emitted gen o x) := by
  obtain ⟨eph, he⟩ := Option.isSome_iff_exists.mp h
  rw [DgpsGenerator.emitSat, emitted, he]
  dsimp only
  split_ifs
  · rfl
  · cases o.rawRate.get? x.1 <;> rfl

theorem emitLoop_eq (gen : DgpsGenerator K) (o : DgpsGenerator.Offsets K) (tow : K) {items : List (Int × K)}
    (h : ∀ x ∈ items, (gen.ephemerides.get? x.1).isSome) (prev : Dict Int (K × K)) :
    gen.emitLoop o tow items prev = (.ok (items.filterMap (emitted gen o)), setPrev tow prev items) := by
  induction items generalizing prev with
  | nil => rfl
  | cons x items ih =>
    obtain ⟨prn, value⟩ := x
    have hx := emitSat_eq gen o (h _ List.mem_cons_self)
    simp only [DgpsGenerator.emitLoop]
    dsimp only at hx
    rw [hx, ih (fun y hy => h y (List.mem_cons_of_mem _ hy)), List.filterMap_cons]
    cases emitted gen o (prn, value) <;> rfl

/-! ## Any geometry -/

namespace Geometry

variable (g : Geometry K)

/-- What a turn of the first loop computes. -/
def rawOf (gen : DgpsGenerator K) (base : K × K × K) (tow : K) (prn : Int) (pr : K) : Option (Py K) :=
  (gen.ephemerides.get? prn).bind fun eph =>
    if Fit gen.maxIodAgeS tow pr eph then some (g.rawCorrection eph base tow pr) else none

theorem selectSat_fit {gen : DgpsGenerator K} {tow pr : K} {eph : Ephemeris K} (h : Fit gen.maxIodAgeS tow pr eph)
    (base : K × K × K) (raw : Dict Int K) (prn : Int) :
    g.selectSat gen base tow raw prn pr (some eph) = (g.rawCorrection eph base tow pr).map (raw.set prn) := by
  obtain ⟨h1, h2, h3⟩ := h
  simp only [Geometry.selectSat]
  rw [if_neg (not_le.mpr h1), if_neg (not_not.mpr h2), if_neg (not_lt.mpr h3)]
  cases g.rawCorrection eph base tow pr <;> rfl

theorem selectSat_eq (gen : DgpsGenerator K) (base : K × K × K) (tow : K) (raw : Dict Int K) (prn : Int)
    (pr : K) :
    g.selectSat gen base tow raw prn pr (gen.ephemerides.get? prn) =
      raw.storeResult prn (rawOf g gen base tow prn pr) := by
  rw [rawOf]
  cases gen.ephemerides.get? prn with
  | none => rfl
  | some eph =>
    simp only [Option.bind_some]
    by_cases hf : Fit gen.maxIodAgeS tow pr eph
    · rw [selectSat_fit g hf]
      simp only [hf, if_true]
      rfl
    · simp only [Geometry.selectSat, hf, if_false]
      split_ifs with h1 h2 h3
      · rfl
      · rfl
      · rfl
      · exact absurd ⟨not_le.mp h1, not_not.mp h2, not_lt.mp h3⟩ hf

variable {g}

theorem rawOf_eq_some {gen : DgpsGenerator K} {base : K × K × K} {tow : K} {pseudoranges : Dict Int K}
    {prn : Int} {v : Py K} :
    (pseudoranges.get? prn).bind (rawOf g gen base tow prn) = some v ↔
      ∃ pr eph, Selected gen tow pseudoranges prn pr eph ∧ g.rawCorrection eph base tow pr = v := by
  rw [Option.bind_eq_some_iff]
  constructor
  · rintro ⟨pr, hpr, h⟩
    obtain ⟨eph, he, h⟩ := Option.bind_eq_some_iff.mp h
    split at h
    · rename_i hf
      exact ⟨pr, eph, ⟨hpr, he, hf⟩, Option.some.inj h⟩
    · cases h
  · rintro ⟨pr, eph, ⟨hpr, he, hf⟩, rfl⟩
    exact ⟨pr, hpr, by rw [rawOf, he, Option.bind_some, if_pos hf]⟩

/-- The raw corrections are those of the accepted satellites. -/
theorem rawCorrections_ok {gen : DgpsGenerator K} {base : K × K × K} {tow : K} {pseudoranges raw : Dict Int K}
    (h : g.rawCorrections gen base tow pseudoranges = .ok raw) (prn : Int) (v : K) :
    raw.get? prn = some v ↔
      ∃ pr eph, Selected gen tow pseudoranges prn pr eph ∧ g.rawCorrection eph base tow pr = .ok v := by
  obtain ⟨hsome, hnone⟩ := Dict.get?_foldlM_ok (g := rawOf g gen base tow)
    (fun d x => selectSat_eq g gen base tow d x.1 x.2) pseudoranges.nodup h prn
  rw [← rawOf_eq_some]
  change (∀ w, (pseudoranges.get? prn).bind (rawOf g gen base tow prn) = some w → _) at hsome
  change ((pseudoranges.get? prn).bind (rawOf g gen base tow prn) = none → _) at hnone
  cases hb : (pseudoranges.get? prn).bind (rawOf g gen base tow prn) with
  | none => rw [hnone hb, Dict.get?_empty]; exact ⟨(fun h => nomatch h), fun h => nomatch h⟩
  | some w =>
    obtain ⟨b, rfl, he⟩ := hsome w hb
    rw [he, Option.some.injEq, Option.some.injEq, Except.ok.injEq]

/-- An accepted satellite has a raw correction, if the loop returns. -/
theorem rawCorrections_selected {gen : DgpsGenerator K} {base : K × K × K} {tow : K}
    {pseudoranges raw : Dict Int K} (h : g.rawCorrections gen base tow pseudoranges = .ok raw) {prn : Int} {pr : K}
    {eph : Ephemeris K} (hs : Selected gen tow pseudoranges prn pr eph) :
    ∃ v, g.rawCorrection eph base tow pr = .ok v ∧ raw.get? prn = some v := by
  obtain ⟨hsome, -⟩ := Dict.get?_foldlM_ok (g := rawOf g gen base tow)
    (fun d x => selectSat_eq g gen base tow d x.1 x.2) pseudoranges.nodup h prn
  exact hsome _ (rawOf_eq_some.mpr ⟨pr, eph, hs, rfl⟩)

/-- The first loop raises exactly if an accepted satellite's raw correction does. -/
theorem rawCorrections_error_iff (gen : DgpsGenerator K) (base : K × K × K) (tow : K)
    (pseudoranges : Dict Int K) :
    (∃ e, g.rawCorrections gen base tow pseudoranges = .error e) ↔
      ∃ prn pr eph, Selected gen tow pseudoranges prn pr eph ∧ ∃ e, g.rawCorrection eph base tow pr = .error e := by
  refine (Dict.foldlM_error_iff (g := rawOf g gen base tow)
    (fun d x => selectSat_eq g gen base tow d x.1 x.2) pseudoranges.items ∅).trans ?_
  constructor
  · rintro ⟨⟨prn, pr⟩, hx, e, he⟩
    have hget := Dict.mem_items.mp hx
    have he : (pseudoranges.get? prn).bind (rawOf g gen base tow prn) = some (.error e) := by rw [hget]; exact he
    obtain ⟨pr', eph, hs, he⟩ := rawOf_eq_some.mp he
    exact ⟨prn, pr', eph, hs, e, he⟩
  · rintro ⟨prn, pr, eph, hs, e, he⟩
    obtain ⟨pr', hpr, h⟩ := Option.bind_eq_some_iff.mp (rawOf_eq_some.mpr ⟨pr, eph, hs, he⟩)
    exact ⟨(prn, pr'), Dict.mem_items.mpr hpr, e, h⟩

theorem corrections_ok {gen : DgpsGenerator K} {base : K × K × K} {tow : K} {pseudoranges raw : Dict Int K}
    (hb : gen.base = some base) (h : g.rawCorrections gen base tow pseudoranges = .ok raw) :
    g.corrections gen tow pseudoranges =
      (.ok (raw.sorted.filterMap (emitted gen (gen.offsets tow raw))),
        { gen with prev := setPrev tow gen.prev raw.sorted }) := by
  rw [Geometry.corrections, hb]
  simp only [h]
  split
  · rename_i he
    rw [List.isEmpty_iff] at he
    simp only [Dict.sorted, he, ← hb]
    rfl
  · rw [emitLoop_eq]
    rintro ⟨prn, v⟩ hx
    obtain ⟨pr, eph, hs, -⟩ := (rawCorrections_ok h prn v).mp (Dict.mem_sorted.mp hx)
    exact hs.known ▸ rfl

end Geometry

/-! ## Selecting -/

variable [PyMath K]

theorem selectSat_fit {gen : DgpsGenerator K} {tow pr : K} {eph : Ephemeris K} (h : Fit gen.maxIodAgeS tow pr eph)
    (base : K × K × K) (raw : Dict Int K) (prn : Int) :
    gen.selectSat base tow raw prn pr (some eph) = (rawCorrection eph base tow pr).map (raw.set prn) :=
  Geometry.selectSat_fit .code h base raw prn

/-- The raw corrections are those of the accepted satellites. -/
theorem rawCorrections_ok {gen : DgpsGenerator K} {base : K × K × K} {tow : K} {pseudoranges raw : Dict Int K}
    (h : gen.rawCorrections base tow pseudoranges = .ok raw) (prn : Int) (v : K) :
    raw.get? prn = some v ↔
      ∃ pr eph, Selected gen tow pseudoranges prn pr eph ∧ rawCorrection eph base tow pr = .ok v :=
  Geometry.rawCorrections_ok (g := .code) h prn v

/-- An accepted satellite has a raw correction, if the loop returns. -/
theorem rawCorrections_selected {gen : DgpsGenerator K} {base : K × K × K} {tow : K}
    {pseudoranges raw : Dict Int K} (h : gen.rawCorrections base tow pseudoranges = .ok raw) {prn : Int} {pr : K}
    {eph : Ephemeris K} (hs : Selected gen tow pseudoranges prn pr eph) :
    ∃ v, rawCorrection eph base tow pr = .ok v ∧ raw.get? prn = some v :=
  Geometry.rawCorrections_selected (g := .code) h hs

/-- The first loop raises exactly if an accepted satellite's raw correction does. -/
theorem rawCorrections_error_iff (gen : DgpsGenerator K) (base : K × K × K) (tow : K)
    (pseudoranges : Dict Int K) :
    (∃ e, gen.rawCorrections base tow pseudoranges = .error e) ↔
      ∃ prn pr eph, Selected gen tow pseudoranges prn pr eph ∧ ∃ e, rawCorrection eph base tow pr = .error e :=
  Geometry.rawCorrections_error_iff (g := .code) gen base tow pseudoranges

/-- If every observed satellite can be used, the raw corrections are theirs. -/
theorem rawCorrections_all {gen : DgpsGenerator K} {base : K × K × K} {tow : K} {pseudoranges : Dict Int K}
    {f : Int → K → K} (h : ∀ prn pr, pseudoranges.get? prn = some pr → ∃ eph, gen.ephemerides.get? prn = some eph ∧
      Fit gen.maxIodAgeS tow pr eph ∧ rawCorrection eph base tow pr = .ok (f prn pr)) :
    ∃ raw, gen.rawCorrections base tow pseudoranges = .ok raw ∧
      ∀ prn, raw.get? prn = (pseudoranges.get? prn).map (f prn) := by
  cases hr : gen.rawCorrections base tow pseudoranges with
  | error e =>
    obtain ⟨prn, pr, eph, hs, e', he⟩ := (rawCorrections_error_iff gen base tow pseudoranges).mp ⟨e, hr⟩
    obtain ⟨eph', hk, -, hok⟩ := h prn pr hs.observed
    obtain rfl := Option.some.inj (hs.known.symm.trans hk)
    cases he.symm.trans hok
  | ok raw =>
    refine ⟨raw, rfl, fun prn => ?_⟩
    cases hp : pseudoranges.get? prn with
    | none =>
      cases hv : raw.get? prn with
      | none => rfl
      | some v =>
        obtain ⟨pr, eph, hs, -⟩ := (rawCorrections_ok hr prn v).mp hv
        cases hp.symm.trans hs.observed
    | some pr =>
      obtain ⟨eph, hk, hf, hok⟩ := h prn pr hp
      exact (rawCorrections_ok hr prn _).mpr ⟨pr, eph, ⟨hp, hk, hf⟩, hok⟩

/-! ## A whole call -/

theorem corrections_base_none {gen : DgpsGenerator K} (h : gen.base = none) (tow : K)
    (pseudoranges : Dict Int K) : gen.corrections tow pseudoranges = (.ok [], gen) := by
  rw [DgpsGenerator.corrections, h]

theorem corrections_error {gen : DgpsGenerator K} {base : K × K × K} {tow : K} {pseudoranges : Dict Int K}
    {e : PyError} (hb : gen.base = some base) (h : gen.rawCorrections base tow pseudoranges = .error e) :
    gen.corrections tow pseudoranges = (.error e, gen) := by
  rw [DgpsGenerator.corrections, hb]
  simp only [h]

theorem corrections_ok {gen : DgpsGenerator K} {base : K × K × K} {tow : K} {pseudoranges raw : Dict Int K}
    (hb : gen.base = some base) (h : gen.rawCorrections base tow pseudoranges = .ok raw) :
    gen.corrections tow pseudoranges =
      (.ok (raw.sorted.filterMap (emitted gen (gen.offsets tow raw))),
        { gen with prev := setPrev tow gen.prev raw.sorted }) :=
  Geometry.corrections_ok (g := .code) hb h

end Rtcm.Proof
