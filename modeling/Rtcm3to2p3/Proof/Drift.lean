import Rtcm3to2p3.Proof.TwoRuns
import Mathlib.Tactic.LinearCombination

/-!
# A term common to an epoch's raw corrections

`drift_cancels`: raw corrections that differ by a term common to each epoch
give the same corrections if the term changes at one rate for all satellites
that have one; and, where no satellite is dropped, only then. The invariant of
two such runs is `Drifted`.
-/

namespace Rtcm.Proof

open Rtcm.Impl Rtcm.Spec

variable {K : Type} [Field K] [LinearOrder K] [PyMath K]

/-- The generators' last epochs differ by the common terms then. -/
structure Drifted (last : Int → Option (K × K)) (gen gen' : DgpsGenerator K) : Prop where
  table : SameTable gen gen'
  fresh : ∀ prn, last prn = none → gen.prev.get? prn = none ∧ gen'.prev.get? prn = none
  known : ∀ prn t drift, last prn = some (t, drift) →
    ∃ v, gen.prev.get? prn = some (t, v) ∧ gen'.prev.get? prn = some (t, v + drift)

omit [LinearOrder K] [PyMath K] in
theorem Drifted.start (gen : DgpsGenerator K) : Drifted (lastEpochs gen) gen gen := by
  refine ⟨.refl _, fun prn h => ?_, fun prn t drift h => ?_⟩
  · rw [lastEpochs, Option.map_eq_none_iff] at h
    exact ⟨h, h⟩
  · obtain ⟨⟨t', v⟩, hv, heq⟩ := Option.map_eq_some_iff.mp h
    obtain ⟨rfl, rfl⟩ := Prod.mk.injEq .. ▸ heq
    exact ⟨v, hv, by rw [add_zero]; exact hv⟩

theorem Drifted.step {gen gen' : DgpsGenerator K} {last : Int → Option (K × K)} {e : DriftEpoch K}
    (h : Drifted last gen gen') (hs : Shifted gen e) :
    Drifted (nextLast gen e last) (gen.corrections e.tow e.pseudoranges).2
      (gen'.corrections e.tow e.pseudoranges').2 := by
  obtain ⟨base, raw, raw', hb, hr, hr', hshift⟩ := hs
  have hiff := raw_isSome_iff hb hr
  rw [corrections_ok hb hr, corrections_ok (h.table.base.trans hb) ((h.table.rawCorrections base _ _).trans hr')]
  refine ⟨⟨h.table.base, h.table.ephemerides, h.table.maxIodAgeS, h.table.maxResidualM⟩, fun prn hn => ?_,
    fun prn t drift hl => ?_⟩
  · dsimp only
    rw [get?_setPrev, get?_setPrev, hshift]
    simp only [nextLast, ← hiff] at hn
    split_ifs at hn with hv
    rw [Option.not_isSome_iff_eq_none] at hv
    rw [hv]
    exact h.fresh prn hn
  · dsimp only
    rw [get?_setPrev, get?_setPrev, hshift]
    simp only [nextLast, ← hiff] at hl
    split_ifs at hl with hv
    · obtain ⟨v, hv⟩ := Option.isSome_iff_exists.mp hv
      obtain ⟨rfl, rfl⟩ := Prod.mk.injEq .. ▸ Option.some.inj hl
      rw [hv]
      exact ⟨v, rfl, rfl⟩
    · rw [Option.not_isSome_iff_eq_none] at hv
      rw [hv]
      exact h.known prn t drift hl

/-- A satellite's rates in the two runs differ by the rate of the common term
since its last epoch. -/
theorem Drifted.rate {gen gen' : DgpsGenerator K} {last : Int → Option (K × K)} {e : DriftEpoch K}
    {base : K × K × K} {raw raw' : Dict Int K} (h : Drifted last gen gen')
    (hb : gen.base = some base) (hr : gen.rawCorrections base e.tow e.pseudoranges = .ok raw)
    (hshift : ∀ prn, raw'.get? prn = (raw.get? prn).map (· + e.drift)) (prn : Int) :
    (∃ t drift r, (useOf gen e.tow e.pseudoranges prn).isSome ∧ last prn = some (t, drift) ∧ e.tow ≠ t ∧
      (gen.rawRates e.tow raw).get? prn = some r ∧
      (gen'.rawRates e.tow raw').get? prn = some (r + (e.drift - drift) / (e.tow - t))) ∨
    ((∀ t drift, (useOf gen e.tow e.pseudoranges prn).isSome → last prn = some (t, drift) → e.tow = t) ∧
      (gen.rawRates e.tow raw).get? prn = none ∧ (gen'.rawRates e.tow raw').get? prn = none) := by
  rw [get?_rawRates, get?_rawRates, hshift, ← raw_isSome_iff hb hr]
  cases hv : raw.get? prn with
  | none => exact .inr ⟨(fun _ _ h => by cases h), rfl, rfl⟩
  | some v =>
    simp only [Option.map_some, Option.bind_some, Option.isSome_some, forall_const, true_and]
    cases hl : last prn with
    | none =>
      obtain ⟨h1, h2⟩ := h.fresh prn hl
      rw [h1, h2]
      exact .inr ⟨(fun _ _ h => by cases h), rfl, rfl⟩
    | some x =>
      obtain ⟨t, drift⟩ := x
      obtain ⟨w, h1, h2⟩ := h.known prn t drift hl
      rw [h1, h2]
      simp only [rateSince, Option.bind_some]
      by_cases htow : e.tow = t
      · refine .inr ⟨fun t' drift' h' => ?_, ?_, ?_⟩
        · exact htow.trans (congrArg Prod.fst (Option.some.inj h'))
        · exact if_neg (not_not.mpr htow)
        · exact if_neg (not_not.mpr htow)
      · refine .inl ⟨t, drift, (v - w) / (e.tow - t), rfl, htow, if_pos htow, ?_⟩
        rw [if_pos htow, ← add_div]
        congr 2
        ring

/-- Lists of what is kept of a list are equal item by item, if all is kept. -/
theorem filterMap_inj {α β : Type} {l : List α} {f g : α → Option β} (hf : ∀ x ∈ l, (f x).isSome)
    (hg : ∀ x ∈ l, (g x).isSome) (h : l.filterMap f = l.filterMap g) : ∀ x ∈ l, f x = g x := by
  induction l with
  | nil => exact fun _ h => nomatch h
  | cons a l ih =>
    obtain ⟨b, hb⟩ := Option.isSome_iff_exists.mp (hf a List.mem_cons_self)
    obtain ⟨c, hc⟩ := Option.isSome_iff_exists.mp (hg a List.mem_cons_self)
    rw [List.filterMap_cons_some hb, List.filterMap_cons_some hc, List.cons.injEq] at h
    intro x hx
    rcases List.mem_cons.mp hx with rfl | hx
    · rw [hb, hc, h.1]
    · exact ih (fun y hy => hf y (List.mem_cons_of_mem _ hy)) (fun y hy => hg y (List.mem_cons_of_mem _ hy)) h.2 x hx

variable [IsStrictOrderedRing K]

omit [PyMath K] in
/-- The common term is taken off again with the median. -/
theorem residual_shift {gen gen' : DgpsGenerator K} {tow b : K} {raw raw' : Dict Int K}
    (hshift : ∀ prn, raw'.get? prn = (raw.get? prn).map (· + b)) {x : Int × K} (hx : x ∈ raw.sorted) :
    x.2 + b - (gen'.offsets tow raw').offset = x.2 - (gen.offsets tow raw).offset := by
  have hne : raw.items ≠ [] := fun hn => by
    rw [raw.sorted_perm.mem_iff, hn] at hx
    cases hx
  rw [offsets_eq, offsets_eq, median_shift hshift hne]
  dsimp only
  ring

/-- One epoch: with one rate of the common term, the same corrections. -/
theorem Drifted.same {gen gen' : DgpsGenerator K} {last : Int → Option (K × K)} {e : DriftEpoch K}
    (h : Drifted last gen gen') (hs : Shifted gen e) (hd : OneRate gen last e) :
    (gen.corrections e.tow e.pseudoranges).1 = (gen'.corrections e.tow e.pseudoranges').1 := by
  obtain ⟨base, raw, raw', hb, hr, hr', hshift⟩ := hs
  obtain ⟨rate, hd⟩ := hd
  rw [corrections_ok hb hr, corrections_ok (h.table.base.trans hb) ((h.table.rawCorrections base _ _).trans hr')]
  dsimp only
  rw [Dict.sorted_congr (f := fun _ v => v + e.drift) hshift, List.filterMap_map]
  refine congrArg Except.ok (List.filterMap_congr fun x hx => (?_ : _ = emitted gen' _ (x.1, x.2 + e.drift)))
  have hrates : ∀ p, (gen'.rawRates e.tow raw').get? p = ((gen.rawRates e.tow raw).get? p).map (· + rate) := by
    intro p
    rcases h.rate hb hr hshift p with ⟨t, drift, r, hu, hl, htow, h1, h2⟩ | ⟨-, h1, h2⟩
    · rw [h1, h2, hd p t drift hu hl htow]; rfl
    · rw [h1, h2]; rfl
  refine (emitted_congr h.table.ephemerides h.table.maxResidualM (residual_shift hshift hx) ?_).symm
  · rw [offsets_eq, offsets_eq]
    dsimp only
    by_cases hempty : (gen.rawRates e.tow raw).items = []
    · have hn : (gen.rawRates e.tow raw).get? x.1 = none := Dict.isEmpty_iff.mp (List.isEmpty_iff.mpr hempty) x.1
      rw [hrates, hn]
      rfl
    · rw [rateOffsetOf_shift hrates hempty, hrates, Option.map_map]
      refine congrArg (Option.map · _) (funext fun r => ?_)
      simp only [Function.comp_apply, add_sub_add_right_eq_sub]

/-- Without outliers, equal lists of RRCs agree satellite by satellite. -/
theorem same_rrc {gen gen' : DgpsGenerator K} (h : SameTable gen gen') {base : K × K × K} {tow drift : K}
    {pseudoranges pseudoranges' : Dict Int K} {raw raw' : Dict Int K} (hb : gen.base = some base)
    (hr : gen.rawCorrections base tow pseudoranges = .ok raw)
    (hr' : gen.rawCorrections base tow pseudoranges' = .ok raw')
    (hshift : ∀ prn, raw'.get? prn = (raw.get? prn).map (· + drift))
    (hn : ∀ prn v, raw.get? prn = some v → |v - Median.median raw.values| ≤ gen.maxResidualM)
    (hsame : (gen.corrections tow pseudoranges).1.map (·.map fun c => (c.prn, c.rrc)) =
      (gen'.corrections tow pseudoranges').1.map (·.map fun c => (c.prn, c.rrc))) {x : Int × K} (hx : x ∈ raw.sorted) :
    ∃ c c', emitted gen (gen.offsets tow raw) x = some c ∧
      emitted gen' (gen'.offsets tow raw') (x.1, x.2 + drift) = some c' ∧ c.rrc = c'.rrc := by
  rw [corrections_ok hb hr, corrections_ok (h.base.trans hb) ((h.rawCorrections base _ _).trans hr')] at hsame
  simp only [Except.map, Except.ok.injEq] at hsame
  rw [Dict.sorted_congr (f := fun _ v => v + drift) hshift, List.filterMap_map, List.map_filterMap,
    List.map_filterMap] at hsame
  have hknown : ∀ x ∈ raw.sorted, (gen.ephemerides.get? x.1).isSome := by
    rintro ⟨p, w⟩ hx
    obtain ⟨pr, eph, hsel, -⟩ := (rawCorrections_ok hr p w).mp (Dict.mem_sorted.mp hx)
    exact hsel.known ▸ rfl
  have hkeep : ∀ x ∈ raw.sorted, |x.2 - (gen.offsets tow raw).offset| ≤ gen.maxResidualM :=
    fun x hx => hn x.1 x.2 (Dict.mem_sorted.mp hx)
  have hsome : ∀ x ∈ raw.sorted, (emitted gen (gen.offsets tow raw) x).isSome :=
    fun x hx => emitted_isSome (hkeep x hx) (hknown x hx)
  have hsome' : ∀ x ∈ raw.sorted, (emitted gen' (gen'.offsets tow raw') (x.1, x.2 + drift)).isSome := fun x hx =>
    emitted_isSome (by rw [residual_shift hshift hx, h.maxResidualM]; exact hkeep x hx) (h.ephemerides ▸ hknown x hx)
  have heq := filterMap_inj (fun x hx => Option.isSome_map.trans (hsome x hx))
    (fun x hx => Option.isSome_map.trans (hsome' x hx)) hsame _ hx
  obtain ⟨c, hc⟩ := Option.isSome_iff_exists.mp (hsome _ hx)
  obtain ⟨c', hc'⟩ := Option.isSome_iff_exists.mp (hsome' _ hx)
  simp only [hc, hc', Option.map_some, Option.some.injEq, Prod.mk.injEq] at heq
  exact ⟨c, c', hc, hc', heq.2⟩

/-- One epoch without outliers: the same RRCs only with one rate. -/
theorem Drifted.only {gen gen' : DgpsGenerator K} {last : Int → Option (K × K)} {e : DriftEpoch K}
    (h : Drifted last gen gen') (hs : Shifted gen e) (hn : NoneDropped gen e)
    (hsame : (gen.corrections e.tow e.pseudoranges).1.map (·.map fun c => (c.prn, c.rrc)) =
      (gen'.corrections e.tow e.pseudoranges').1.map (·.map fun c => (c.prn, c.rrc))) :
    OneRate gen last e := by
  obtain ⟨base, raw, raw', hb, hr, hr', hshift⟩ := hs
  refine ⟨rateOffsetOf (gen'.rawRates e.tow raw') - rateOffsetOf (gen.rawRates e.tow raw), ?_⟩
  intro prn t drift hu hl htow
  obtain ⟨v, hv⟩ := Option.isSome_iff_exists.mp ((raw_isSome_iff hb hr prn).mpr hu)
  obtain ⟨c, c', hc, hc', heq⟩ := same_rrc h.table hb hr hr' hshift (hn base raw hb hr) hsame (Dict.mem_sorted.mpr hv)
  obtain ⟨-, -, -, -, -, -, hrrc⟩ := emitted_eq_some hc
  obtain ⟨-, -, -, -, -, -, hrrc'⟩ := emitted_eq_some hc'
  rw [← heq] at hrrc'
  rcases h.rate hb hr hshift prn with ⟨t', drift', r, -, hl', -, h1, h2⟩ | ⟨hno, -, -⟩
  · obtain ⟨rfl, rfl⟩ := Prod.mk.injEq .. ▸ Option.some.inj (hl.symm.trans hl')
    rw [offsets_eq] at hrrc hrrc'
    dsimp only at hrrc hrrc'
    rw [h1] at hrrc
    rw [h2] at hrrc'
    simp only [Option.map_some, Option.getD_some] at hrrc hrrc'
    linear_combination hrrc - hrrc'
  · exact absurd (hno t drift hu hl) htow

/-- Two runs over last epochs that differ by the common terms. -/
theorem Drifted.outputs (ops : List (DriftOp K)) {gen gen' : DgpsGenerator K} {last : Int → Option (K × K)}
    (h : Drifted last gen gen') (hs : Throughout Shifted gen ops) :
    (SameDrift gen last ops → outputs gen (ops.map DriftOp.first) = outputs gen' (ops.map DriftOp.second)) ∧
    (Throughout NoneDropped gen ops → rangeRates gen (ops.map DriftOp.first) = rangeRates gen' (ops.map DriftOp.second) →
      SameDrift gen last ops) := by
  induction ops generalizing gen gen' last with
  | nil => exact ⟨fun _ => rfl, fun _ _ => trivial⟩
  | cons op ops ih =>
    cases op with
    | setStation ecef => exact ih ⟨h.table.apply (.setStation ecef), h.fresh, h.known⟩ hs
    | addEphemeris eph => exact ih ⟨h.table.apply (.addEphemeris eph), h.fresh, h.known⟩ hs
    | epoch e =>
      obtain ⟨ih1, ih2⟩ := ih (h.step hs.1) hs.2
      refine ⟨fun hd => ?_, fun hn hout => ?_⟩
      · exact congrArg₂ List.cons (h.same hs.1 hd.1) (ih1 hd.2)
      · obtain ⟨h1, h2⟩ := List.cons.inj hout
        exact ⟨h.only hs.1 hn.1 h1, ih2 hn.2 h2⟩

/-- Two runs from any state over the same operations, the raw corrections of
the second exceeding those of the first by a term common to all satellites of
an epoch: if at each epoch the term has changed at one rate since the last
epochs of the satellites that have one, both return the same corrections.
Where no satellite is dropped, they return the same RRCs only then. -/
theorem drift_cancels (gen : DgpsGenerator K) (ops : List (DriftOp K)) (hs : Throughout Shifted gen ops) :
    (SameDrift gen (lastEpochs gen) ops → outputs gen (ops.map DriftOp.first) = outputs gen (ops.map DriftOp.second)) ∧
    (Throughout NoneDropped gen ops → rangeRates gen (ops.map DriftOp.first) = rangeRates gen (ops.map DriftOp.second) →
      SameDrift gen (lastEpochs gen) ops) :=
  Drifted.outputs ops (.start gen) hs

/-! ## Last epochs that differ -/

theorem epoch_twoSatellites {gen : DgpsGenerator ℝ} (h : SameTable twoSatellites gen) {e : DriftEpoch ℝ}
    (ht : |e.tow| ≤ 7199) (hs : Seen e.pseudoranges) (hs' : Seen e.pseudoranges')
    (hpr : ∀ prn pr, e.pseudoranges.get? prn = some pr → pr = 26553409)
    (hpr' : ∀ prn, e.pseudoranges'.get? prn = (e.pseudoranges.get? prn).map (· - e.drift)) :
    Shifted gen e ∧ NoneDropped gen e := by
  obtain ⟨hb, raw, hr, hget⟩ := twoSatellites_raw h ht hs
  obtain ⟨-, raw', hr', hget'⟩ := twoSatellites_raw h ht hs'
  refine ⟨⟨_, raw, raw', hb, hr, hr', fun prn => ?_⟩, fun base raw₁ hb₁ hr₁ prn v hv => ?_⟩
  · rw [hget', hget, hpr', Option.map_map, Option.map_map]
    refine congrArg (Option.map · _) (funext fun pr => ?_)
    simp only [Function.comp_apply]
    ring
  · obtain rfl := Option.some.inj (hb.symm.trans hb₁)
    obtain rfl := Except.ok.inj (hr.symm.trans hr₁)
    have hall : ∀ w ∈ raw.values, w = 5153 ^ 2 - 26553409 := by
      intro w hw
      obtain ⟨p, hp⟩ := Dict.mem_values.mp hw
      rw [hget] at hp
      obtain ⟨pr, hpr₁, rfl⟩ := Option.map_eq_some_iff.mp hp
      rw [hpr p pr hpr₁]
    have hmem := Dict.mem_values.mpr ⟨prn, hv⟩
    rw [Median.median_const (List.ne_nil_of_mem hmem) hall, hall v hmem, sub_self, abs_zero, h.maxResidualM]
    norm_num [twoSatellites]

/-- Both satellites, with the base clock where it was, and where it is 10 m on. -/
def steady (tow : ℝ) : DriftEpoch ℝ :=
  ⟨tow, .set (.set ∅ 1 26553409) 2 26553409, .set (.set ∅ 1 26553409) 2 26553409, 0⟩
def moved (tow : ℝ) : DriftEpoch ℝ :=
  ⟨tow, .set (.set ∅ 1 26553409) 2 26553409, .set (.set ∅ 1 26553399) 2 26553399, 10⟩
/-- The first satellite alone. -/
def alone (tow : ℝ) : DriftEpoch ℝ := ⟨tow, .set ∅ 1 26553409, .set ∅ 1 26553409, 0⟩

section

variable {gen : DgpsGenerator ℝ} (h : SameTable twoSatellites gen) {tow : ℝ} (ht : |tow| ≤ 7199)
include h ht

theorem steady_epoch : Shifted gen (steady tow) ∧ NoneDropped gen (steady tow) :=
  epoch_twoSatellites h ht (seen_near range_pos range_le) (seen_near range_pos range_le) range_two fun prn => by
    simp only [steady, sub_zero, Option.map_id']

theorem alone_epoch : Shifted gen (alone tow) ∧ NoneDropped gen (alone tow) :=
  epoch_twoSatellites h ht (seen_one range_pos range_le) (seen_one range_pos range_le) range_one fun prn => by
    simp only [alone, sub_zero, Option.map_id']

theorem moved_epoch : Shifted gen (moved tow) ∧ NoneDropped gen (moved tow) := by
  refine epoch_twoSatellites h ht (seen_near range_pos range_le)
    (seen_two (by norm_num) (by norm_num [C]) (by norm_num) (by norm_num [C])) range_two fun prn => ?_
  simp only [moved, Dict.get?_set, Dict.get?_empty]
  split_ifs
  · norm_num
  · norm_num
  · rfl

end

/-- A clock that moves between two epochs of both satellites. -/
theorem drift_cancels_moved :
    outputs twoSatellites ([.epoch (steady 10), .epoch (moved 11)].map DriftOp.first) =
      outputs twoSatellites ([.epoch (steady 10), .epoch (moved 11)].map DriftOp.second) := by
  have ht := sameTable_corrections twoSatellites (steady 10).tow (steady 10).pseudoranges
  refine (drift_cancels twoSatellites [.epoch (steady 10), .epoch (moved 11)]
    ⟨(steady_epoch (.refl _) (by norm_num)).1, (moved_epoch ht (by norm_num)).1, trivial⟩).1
    ⟨⟨0, fun prn t drift _ h => by cases h⟩, ⟨10, fun prn t drift _ h _ => ?_⟩, trivial⟩
  unfold nextLast at h
  split at h
  · obtain ⟨rfl, rfl⟩ := Prod.mk.injEq .. ▸ Option.some.inj h
    norm_num [steady, moved]
  · cases h

/-- Both satellites, then the first alone, then both, with a clock that has
moved since. -/
def clockStep : List (DriftEpoch ℝ) := [steady 10, alone 11, moved 12]

theorem throughout_clockStep : Throughout Shifted twoSatellites (clockStep.map .epoch) ∧
    Throughout NoneDropped twoSatellites (clockStep.map .epoch) := by
  have ht := sameTable_corrections twoSatellites (steady 10).tow (steady 10).pseudoranges
  have ht' := ht.trans (sameTable_corrections _ (alone 11).tow (alone 11).pseudoranges)
  obtain ⟨hs1, hn1⟩ := steady_epoch (.refl _) (by norm_num : |(10 : ℝ)| ≤ 7199)
  obtain ⟨hs2, hn2⟩ := alone_epoch ht (by norm_num : |(11 : ℝ)| ≤ 7199)
  obtain ⟨hs3, hn3⟩ := moved_epoch ht' (by norm_num : |(12 : ℝ)| ≤ 7199)
  exact ⟨⟨hs1, hs2, hs3, trivial⟩, hn1, hn2, hn3, trivial⟩

/-- At the last epoch the second satellite's rate is over two seconds, the
first's over one. -/
theorem not_sameDrift_clockStep : ¬ SameDrift twoSatellites (lastEpochs twoSatellites) (clockStep.map .epoch) := by
  rintro ⟨-, -, ⟨rate, hrate⟩, -⟩
  have ht := sameTable_corrections twoSatellites (steady 10).tow (steady 10).pseudoranges
  have ht' := ht.trans (sameTable_corrections _ (alone 11).tow (alone 11).pseudoranges)
  have hu := twoSatellites_use ht (by norm_num : |(11 : ℝ)| ≤ 7199) (seen_one range_pos range_le)
  have hu' := twoSatellites_use (.refl _) (by norm_num : |(10 : ℝ)| ≤ 7199) (seen_near range_pos range_le)
  have huse := twoSatellites_use ht' (by norm_num : |(12 : ℝ)| ≤ 7199) (seen_near range_pos range_le)
  have hnot : ¬ _ := fun h => by cases (hu 2).mp h
  have hr1 := hrate 1 11 0 ((huse 1).mpr rfl) (if_pos ((hu 1).mpr rfl)) (by norm_num [moved])
  have hr2 := hrate 2 10 0 ((huse 2).mpr rfl) ((if_neg hnot).trans (if_pos ((hu' 2).mpr rfl))) (by norm_num [moved])
  have := hr1.trans hr2.symm
  norm_num [moved] at this

/-- Epochs only, one after the other in one week, and none before them. -/
theorem not_drift_cancels : ¬ ∀ (gen : DgpsGenerator ℝ) (epochs : List (DriftEpoch ℝ)), gen.prev = ∅ →
    (∀ e ∈ epochs, 0 ≤ e.tow ∧ e.tow < WEEK) → (epochs.map DriftEpoch.tow).Pairwise (· < ·) →
    Throughout Shifted gen (epochs.map .epoch) →
    rangeRates gen ((epochs.map .epoch).map DriftOp.first) =
      rangeRates gen ((epochs.map .epoch).map DriftOp.second) := by
  intro h
  have hweek : ∀ e ∈ clockStep, 0 ≤ e.tow ∧ e.tow < WEEK := by
    simp only [clockStep, List.forall_mem_cons]
    norm_num [steady, alone, moved, WEEK]
  have hrise : (clockStep.map DriftEpoch.tow).Pairwise (· < ·) := by
    norm_num [clockStep, steady, alone, moved]
  obtain ⟨hs, hn⟩ := throughout_clockStep
  have hsame := h twoSatellites clockStep rfl hweek hrise hs
  exact not_sameDrift_clockStep ((Drifted.outputs _ (.start _) hs).2 hn hsame)

end Rtcm.Proof
