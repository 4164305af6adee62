import Rtcm3to2p3.Proof.TwoRuns
import Mathlib.Tactic.Linarith
import Mathlib.Tactic.LinearCombination

/-!
# What an epoch returns

If the raw corrections of the accepted satellites are known, so is the list
that a call returns (`exact_of_known`), for any functions of position, clock
and range.

* `corrections_exact`: the satellites are those that can be used, by their
  distance on the circle of the week, and nothing depends on the order of a
  table;
* `injected_errors_recovered`: errors of the pseudoranges are returned as
  corrections, and what the pseudoranges share is not;
* `majority_kept`: raw corrections of fewer than half of the satellites do
  not reach the others.
-/

namespace Rtcm.Proof

open Rtcm.Impl Rtcm.Spec

variable {K : Type} [Field K] [LinearOrder K]

theorem mem_accepted_iff {gen : DgpsGenerator K} {tow : K} {pseudoranges : Dict Int K} {prn : Int} :
    prn ∈ accepted gen tow pseudoranges ↔ (useOf gen tow pseudoranges prn).isSome := by
  rw [accepted, Finset.mem_filter, List.mem_toFinset, and_iff_right_iff_imp]
  intro h
  obtain ⟨u, hu⟩ := Option.isSome_iff_exists.mp h
  obtain ⟨-, -, hs⟩ := useOf_eq_some.mp hu
  exact List.mem_map_of_mem (f := Prod.fst) (Dict.mem_items.mpr hs.observed)

theorem mem_accepted {gen : DgpsGenerator K} {base : K × K × K} (hb : gen.base = some base) {tow : K}
    {pseudoranges : Dict Int K} {prn : Int} :
    prn ∈ accepted gen tow pseudoranges ↔ ∃ pr eph, Selected gen tow pseudoranges prn pr eph := by
  rw [mem_accepted_iff, Option.isSome_iff_exists]
  constructor
  · rintro ⟨u, hu⟩
    exact ⟨u.pr, u.eph, (useOf_eq_some.mp hu).2.2⟩
  · rintro ⟨pr, eph, hs⟩
    exact ⟨⟨base, tow, pr, eph⟩, useOf_eq_some.mpr ⟨hb, rfl, hs⟩⟩

theorem medianOver_eq {sats : Finset Int} {prns : List Int} (hn : prns.Nodup) (h : ∀ prn, prn ∈ prns ↔ prn ∈ sats)
    (v : Int → K) : medianOver sats v = Median.median (prns.map v) :=
  Median.median_perm (List.Perm.map v ((List.perm_ext_iff_of_nodup (Finset.sort_nodup _ _) hn).mpr fun prn => by
    rw [Finset.mem_sort, h]))

/-- The values of a table of a value of each satellite. -/
theorem median_values {raw : Dict Int K} {sats : Finset Int} {v : Int → K}
    (h : ∀ prn, raw.get? prn = if prn ∈ sats then some (v prn) else none) :
    Median.median raw.values = medianOver sats v := by
  have hmem : ∀ x ∈ raw.items, x.1 ∈ sats ∧ x.2 = v x.1 := by
    rintro ⟨prn, x⟩ hx
    have hx := h prn ▸ Dict.mem_items.mp hx
    split_ifs at hx with hs
    exact ⟨hs, (Option.some.inj hx).symm⟩
  have hvalues : raw.values = (raw.items.map Prod.fst).map v := by
    rw [Dict.values, List.map_map]
    exact List.map_congr_left fun x hx => (hmem x hx).2
  rw [hvalues, medianOver_eq raw.nodup fun prn => ?_]
  rw [List.mem_map]
  constructor
  · rintro ⟨x, hx, rfl⟩
    exact (hmem x hx).1
  · intro hs
    exact ⟨(prn, v prn), Dict.mem_items.mpr (by rw [h, if_pos hs]), rfl⟩

theorem exact_filterMap {gen : DgpsGenerator K} {sats : Finset Int} {v : Int → K} {raw : Dict Int K}
    {o : DgpsGenerator.Offsets K} (hraw : ∀ prn, raw.get? prn = if prn ∈ sats then some (v prn) else none)
    (ho : o.offset = medianOver sats v) (heph : ∀ prn ∈ sats, (gen.ephemerides.get? prn).isSome) :
    Exact gen sats v (raw.sorted.filterMap (emitted gen o)) := by
  have hof : ∀ c ∈ raw.sorted.filterMap (emitted gen o), emitted gen o (c.prn, v c.prn) = some c ∧ c.prn ∈ sats := by
    intro c hc
    obtain ⟨⟨prn, x⟩, hx, he⟩ := List.mem_filterMap.mp hc
    obtain ⟨-, -, -, hp, -⟩ := emitted_eq_some he
    obtain rfl : c.prn = prn := hp
    have hx := hraw c.prn ▸ Dict.mem_sorted.mp hx
    split_ifs at hx with hs
    obtain rfl := Option.some.inj hx
    exact ⟨he, hs⟩
  refine ⟨pairwise_emitted gen o raw, fun prn => ⟨?_, ?_⟩, fun c hc => ?_,
    fun c hc => emitted_udre (hof c hc).1, fun c hc => ?_⟩
  · rintro ⟨c, hc, rfl⟩
    obtain ⟨he, hs⟩ := hof c hc
    obtain ⟨-, -, hk, -⟩ := emitted_eq_some he
    exact ⟨hs, ho ▸ hk⟩
  · rintro ⟨hs, hk⟩
    obtain ⟨c, hc⟩ := Option.isSome_iff_exists.mp (emitted_isSome (o := o) (x := (prn, v prn)) (ho ▸ hk) (heph prn hs))
    obtain ⟨-, -, -, hp, -⟩ := emitted_eq_some hc
    exact ⟨c, List.mem_filterMap.mpr ⟨_, Dict.mem_sorted.mpr (by rw [hraw, if_pos hs]), hc⟩, hp⟩
  · obtain ⟨-, -, -, -, hprc, -⟩ := emitted_eq_some (hof c hc).1
    exact ho ▸ hprc
  · obtain ⟨eph, he, -, -, -, hiod, -⟩ := emitted_eq_some (hof c hc).1
    exact ⟨eph, he, hiod⟩

/-- If the raw corrections of the accepted satellites are known, so is what a
call returns, and what it leaves. -/
theorem exact_of_known {g : Geometry K} {gen : DgpsGenerator K} {base : K × K × K} {tow : K}
    {pseudoranges : Dict Int K} {v : Int → K} (hb : gen.base = some base)
    (h : ∀ prn pr eph, Selected gen tow pseudoranges prn pr eph → g.rawCorrection eph base tow pr = .ok (v prn)) :
    ∃ raw, g.rawCorrections gen base tow pseudoranges = .ok raw ∧
      (∀ prn, raw.get? prn = if prn ∈ accepted gen tow pseudoranges then some (v prn) else none) ∧
      ∃ out, g.corrections gen tow pseudoranges = (.ok out, { gen with prev := setPrev tow gen.prev raw.sorted }) ∧
        Exact gen (accepted gen tow pseudoranges) v out := by
  cases hr : g.rawCorrections gen base tow pseudoranges with
  | error e =>
    obtain ⟨prn, pr, eph, hs, e', he⟩ := (Geometry.rawCorrections_error_iff gen base tow pseudoranges).mp ⟨e, hr⟩
    cases he.symm.trans (h prn pr eph hs)
  | ok raw =>
    have hraw : ∀ prn, raw.get? prn = if prn ∈ accepted gen tow pseudoranges then some (v prn) else none := by
      intro prn
      split_ifs with hm
      · obtain ⟨pr, eph, hs⟩ := (mem_accepted hb).mp hm
        exact (Geometry.rawCorrections_ok hr prn _).mpr ⟨pr, eph, hs, h prn pr eph hs⟩
      · refine Option.eq_none_iff_forall_ne_some.mpr fun x hx => hm ?_
        obtain ⟨pr, eph, hs, -⟩ := (Geometry.rawCorrections_ok hr prn x).mp hx
        exact (mem_accepted hb).mpr ⟨pr, eph, hs⟩
    refine ⟨raw, rfl, hraw, _, Geometry.corrections_ok hb hr, exact_filterMap hraw (median_values hraw) ?_⟩
    intro prn hm
    obtain ⟨pr, eph, hs⟩ := (mem_accepted hb).mp hm
    exact hs.known ▸ rfl

/-- If the rates of the satellites that have one are known, so are their RRCs. -/
theorem rrc_of_rates {gen : DgpsGenerator K} {tow : K} {sats : Finset Int} {rate : Int → K} {table : Dict Int K}
    (hrates : ∀ prn, (gen.rawRates tow table).get? prn = if prn ∈ sats then some (rate prn) else none)
    {c : Correction K} {v : K} (hc : emitted gen (gen.offsets tow table) (c.prn, v) = some c) (hm : c.prn ∈ sats) :
    c.rrc = rate c.prn - medianOver sats rate := by
  obtain ⟨-, -, -, -, -, -, hrrc⟩ := emitted_eq_some hc
  have hget : (gen.rawRates tow table).get? c.prn = some (rate c.prn) := by rw [hrates, if_pos hm]
  have hne : ¬ (gen.rawRates tow table).items.isEmpty = true := fun he => by
    cases (Dict.isEmpty_iff.mp he c.prn).symm.trans hget
  rw [hrrc, offsets_eq]
  dsimp only
  rw [hget, rateOffsetOf, if_neg hne, median_values hrates]
  rfl

/-! ## The order of a table -/

theorem Selected.congr {gen gen' : DgpsGenerator K} (hs : SameState gen gen') {pseudoranges pseudoranges' : Dict Int K}
    (hp : ∀ prn, pseudoranges'.get? prn = pseudoranges.get? prn) (tow : K) (prn : Int) (pr : K) (eph : Ephemeris K) :
    Selected gen' tow pseudoranges' prn pr eph ↔ Selected gen tow pseudoranges prn pr eph := by
  constructor
  · rintro ⟨h1, h2, h3⟩
    exact ⟨hp prn ▸ h1, hs.ephemerides prn ▸ h2, hs.maxIodAgeS ▸ h3⟩
  · rintro ⟨h1, h2, h3⟩
    exact ⟨(hp prn).symm ▸ h1, (hs.ephemerides prn).symm ▸ h2, hs.maxIodAgeS.symm ▸ h3⟩

/-- What is emitted depends on what the tables hold only. -/
theorem emitted_sameState {gen gen' : DgpsGenerator K} (hs : SameState gen gen') {raw raw' : Dict Int K}
    (hr : ∀ prn, raw'.get? prn = raw.get? prn) (tow : K) :
    raw'.sorted.filterMap (emitted gen' (gen'.offsets tow raw')) =
      raw.sorted.filterMap (emitted gen (gen.offsets tow raw)) := by
  have hsorted : raw'.sorted = raw.sorted := by
    have hmap := Dict.sorted_congr (d := raw) (e := raw') (f := fun _ v => v) fun prn => by rw [hr prn, Option.map_id']
    exact hmap.trans (List.map_id _)
  have hrates : ∀ prn, (gen'.rawRates tow raw').get? prn = (gen.rawRates tow raw).get? prn := by
    intro prn
    rw [get?_rawRates, get?_rawRates, hr, hs.prev]
  have ho : gen'.offsets tow raw' = ⟨Median.median raw.values, gen'.rawRates tow raw',
      rateOffsetOf (gen.rawRates tow raw)⟩ := by
    rw [offsets_eq, median_congr hr, rateOffsetOf_congr hrates]
  rw [hsorted, ho, offsets_eq]
  refine List.filterMap_congr fun x _ => ?_
  simp only [emitted, hs.ephemerides, hs.maxResidualM, hrates]

/-! ## The circle of the week -/

section

variable [IsStrictOrderedRing K]

/-- The reduced difference is the least over whole weeks. -/
theorem isLeast_deltaTWeek {t tRef : K} (h0 : -(WEEK + HALF_WEEK) ≤ t - tRef) (h1 : t - tRef ≤ WEEK + HALF_WEEK) :
    IsLeast (Set.range fun k : ℤ => |t - tRef + WEEK * k|) |deltaTWeek t tRef| := by
  have hw : (WEEK : K) = HALF_WEEK + HALF_WEEK := by norm_num [WEEK, HALF_WEEK]
  have hpos : (0 : K) < WEEK := by norm_num [WEEK]
  have hhalf : |deltaTWeek t tRef| ≤ HALF_WEEK := by
    unfold deltaTWeek
    dsimp only
    split_ifs with hu hl
    · exact abs_le.mpr ⟨by linarith, by linarith⟩
    · exact abs_le.mpr ⟨by linarith, by linarith⟩
    · exact abs_le.mpr ⟨not_lt.mp hl, not_lt.mp hu⟩
  obtain ⟨k₀, hk₀⟩ := deltaTWeek_eq t tRef
  refine ⟨⟨k₀, by rw [hk₀]⟩, ?_⟩
  rintro _ ⟨k, rfl⟩
  dsimp only
  by_cases hk : k = k₀
  · rw [hk, hk₀]
  -- any other whole number of weeks is at least a week from the reduced difference
  · have hone : (1 : K) ≤ |((k - k₀ : ℤ) : K)| := by
      rw [← Int.cast_abs]
      exact_mod_cast Int.one_le_abs (sub_ne_zero.mpr hk)
    have heq : WEEK * ((k - k₀ : ℤ) : K) = (t - tRef + WEEK * k) - deltaTWeek t tRef := by
      rw [hk₀]
      push_cast
      ring
    calc |deltaTWeek t tRef| ≤ HALF_WEEK := hhalf
      _ ≤ WEEK * |((k - k₀ : ℤ) : K)| - HALF_WEEK := by nlinarith
      _ = |t - tRef + WEEK * k - deltaTWeek t tRef| - HALF_WEEK := by
          rw [← heq, abs_mul, abs_of_pos hpos]
      _ ≤ |t - tRef + WEEK * k| := by linarith [abs_sub (t - tRef + WEEK * k) (deltaTWeek t tRef)]

theorem usable_iff {gen : DgpsGenerator K} {tow : K} (ht : 0 ≤ tow ∧ tow < WEEK) {pseudoranges : Dict Int K}
    (htoe : ∀ prn eph, gen.ephemerides.get? prn = some eph → 0 ≤ eph.toe ∧ eph.toe < WEEK)
    (hpr : ∀ prn pr, pseudoranges.get? prn = some pr → pr < C) (prn : Int) (pr : K) (eph : Ephemeris K) :
    Usable gen tow pseudoranges prn pr eph ↔ Selected gen tow pseudoranges prn pr eph := by
  have hleast : pseudoranges.get? prn = some pr → gen.ephemerides.get? prn = some eph → 0 < pr →
      IsLeast (Set.range fun k : ℤ => |tow - pr / C - eph.toe + WEEK * k|) |deltaTWeek (tow - pr / C) eph.toe| := by
    intro ho hk hpos
    have hC : (0 : K) < C := by norm_num [C]
    have hd0 : 0 < pr / C := div_pos hpos hC
    have hd1 : pr / C < 1 := (div_lt_one hC).mpr (hpr prn pr ho)
    obtain ⟨h0, h1⟩ := htoe prn eph hk
    have hhalf : (1 : K) ≤ HALF_WEEK := by norm_num [HALF_WEEK]
    exact isLeast_deltaTWeek (by linarith [ht.1]) (by linarith [ht.2])
  constructor
  · rintro ⟨ho, hk, hpos, hh, d, hd, hle⟩
    exact ⟨ho, hk, hpos, hh, (hleast ho hk hpos).unique hd ▸ hle⟩
  · rintro ⟨ho, hk, hpos, hh, hle⟩
    exact ⟨ho, hk, hpos, hh, _, hleast ho hk hpos, hle⟩

end

/-! ## Two satellites -/

section

variable {gen : DgpsGenerator ℝ} (h : SameTable twoSatellites gen) {x y tow : ℝ}
include h

theorem selected_two {prn : Int} {pr : ℝ} {eph : Ephemeris ℝ}
    (hs : Selected gen tow (.set (.set ∅ 1 x) 2 y) prn pr eph) :
    Circular eph ∧ eph.sqrtA = 5153 ∧ pr = if prn = 1 then x else y := by
  obtain ⟨ho, hk, -⟩ := hs
  have heph : eph = circular prn 5153 0 0 10 := by
    rw [h.ephemerides] at hk
    refine Dict.forall_get?_set (P := fun prn eph => eph = circular prn 5153 0 0 10)
      (Dict.forall_get?_set Dict.forall_get?_empty ?_) ?_ prn eph hk <;> rfl
  refine ⟨heph ▸ circular_circular prn (by norm_num) 0 0 10, heph ▸ rfl, ?_⟩
  exact Dict.forall_get?_set (P := fun prn pr => pr = if prn = 1 then x else y)
    (Dict.forall_get?_set Dict.forall_get?_empty (if_pos rfl).symm) (if_neg (by decide)).symm prn pr ho

theorem rawCorrection_two {prn : Int} {pr : ℝ} {eph : Ephemeris ℝ}
    (hs : Selected gen tow (.set (.set ∅ 1 x) 2 y) prn pr eph) :
    rawCorrection eph (0, 0, 0) tow pr = .ok (5153 ^ 2 - if prn = 1 then x else y) := by
  obtain ⟨hc, ha, rfl⟩ := selected_two h hs
  rw [rawCorrection_circular hc, ha]

theorem accepted_two (hx : Fit 7200 tow x (circular 1 5153 0 0 10)) (hy : Fit 7200 tow y (circular 2 5153 0 0 10)) :
    accepted gen tow (.set (.set ∅ 1 x) 2 y) = {1, 2} := by
  have hage : gen.maxIodAgeS = 7200 := h.maxIodAgeS
  refine Finset.ext fun prn => (mem_accepted h.base).trans ?_
  rw [Finset.mem_insert, Finset.mem_singleton]
  constructor
  · rintro ⟨pr, eph, ho, -⟩
    exact Dict.forall_get?_set (P := fun prn _ => prn = 1 ∨ prn = 2)
      (Dict.forall_get?_set Dict.forall_get?_empty (.inl rfl)) (.inr rfl) prn pr ho
  · rintro (rfl | rfl)
    · exact ⟨x, _, rfl, h.ephemerides ▸ rfl, hage ▸ hx⟩
    · exact ⟨y, _, rfl, h.ephemerides ▸ rfl, hage ▸ hy⟩

/-- What an epoch of both leaves. -/
theorem prev_two (hx : Fit 7200 tow x (circular 1 5153 0 0 10)) (hy : Fit 7200 tow y (circular 2 5153 0 0 10)) :
    SameTable twoSatellites (gen.corrections tow (.set (.set ∅ 1 x) 2 y)).2 ∧
      ∀ prn ∈ ({1, 2} : Finset Int), (gen.corrections tow (.set (.set ∅ 1 x) 2 y)).2.prev.get? prn =
        some (tow, 5153 ^ 2 - if prn = 1 then x else y) := by
  obtain ⟨table, htable, hget, -⟩ := exact_of_known (g := .code) h.base fun prn pr eph hs => rawCorrection_two h hs
  refine ⟨h.trans (sameTable_corrections gen tow _), fun prn hp => ?_⟩
  rw [prev_corrections h.base htable, hget, accepted_two h hx hy, if_pos hp]
  rfl

end

/-! ## The list of an epoch -/

section

variable [PyMath K] [IsStrictOrderedRing K]

omit [IsStrictOrderedRing K] in
/-- A call depends on what its tables hold only. -/
theorem corrections_sameState {gen gen' : DgpsGenerator K} {base : K × K × K} (hb : gen.base = some base)
    (hs : SameState gen gen') {pseudoranges pseudoranges' : Dict Int K}
    (hp : ∀ prn, pseudoranges'.get? prn = pseudoranges.get? prn) {tow : K} {v : Int → K}
    (h : ∀ prn pr eph, Selected gen tow pseudoranges prn pr eph →
      Geometry.code.rawCorrection eph base tow pr = .ok (v prn)) :
    (gen'.corrections tow pseudoranges').1 = (gen.corrections tow pseudoranges).1 ∧
      SameState (gen.corrections tow pseudoranges).2 (gen'.corrections tow pseudoranges').2 := by
  have hb' : gen'.base = some base := hs.base.trans hb
  have hselected := Selected.congr hs hp tow
  have hacc : accepted gen' tow pseudoranges' = accepted gen tow pseudoranges := by
    refine Finset.ext fun prn => (mem_accepted hb').trans (Iff.trans ?_ (mem_accepted hb).symm)
    simp only [hselected]
  obtain ⟨raw, hraw, hget, -⟩ := exact_of_known hb h
  obtain ⟨raw', hraw', hget', -⟩ := exact_of_known (g := .code) hb' fun prn pr eph hs' =>
    h prn pr eph ((hselected prn pr eph).mp hs')
  have hsame : ∀ prn, raw'.get? prn = raw.get? prn := fun prn => by rw [hget', hget, hacc]
  obtain ⟨hb2, he2, ha2, hm2⟩ := corrections_base gen tow pseudoranges
  obtain ⟨hb2', he2', ha2', hm2'⟩ := corrections_base gen' tow pseudoranges'
  refine ⟨?_, by rw [hb2', hb2, hs.base], fun prn => by rw [he2', he2, hs.ephemerides], fun prn => ?_,
    by rw [ha2', ha2, hs.maxIodAgeS], by rw [hm2', hm2, hs.maxResidualM]⟩
  · rw [corrections_ok hb' hraw', corrections_ok hb hraw]
    exact congrArg Except.ok (emitted_sameState hs hsame tow)
  · rw [prev_corrections hb' hraw', prev_corrections hb hraw, hsame, hs.prev]

/-- A call with a station, at a time of week and with times of ephemeris in
the week and ranges below a light second. It raises and changes nothing if the
raw correction of a satellite that can be used cannot be computed; otherwise it
returns one correction for each that is within the limit of the median, in the
order of the PRNs, and remembers the raw corrections of them all. Neither
depends on the order of a table. -/
theorem corrections_exact (gen : DgpsGenerator K) (base : K × K × K) (hb : gen.base = some base) (tow : K)
    (ht : 0 ≤ tow ∧ tow < WEEK)
    (htoe : ∀ prn eph, gen.ephemerides.get? prn = some eph → 0 ≤ eph.toe ∧ eph.toe < WEEK)
    (pseudoranges : Dict Int K) (hpr : ∀ prn pr, pseudoranges.get? prn = some pr → pr < C) (sats : Finset Int)
    (hsats : ∀ prn, prn ∈ sats ↔ ∃ pr eph, Usable gen tow pseudoranges prn pr eph) :
    ((∃ prn pr eph e, Usable gen tow pseudoranges prn pr eph ∧ rawCorrection eph base tow pr = .error e) →
      ∃ e, gen.corrections tow pseudoranges = (.error e, gen)) ∧
    ∀ raw : Int → K,
      (∀ prn pr eph, Usable gen tow pseudoranges prn pr eph → rawCorrection eph base tow pr = .ok (raw prn)) →
      ∃ out, (gen.corrections tow pseudoranges).1 = .ok out ∧ Exact gen sats raw out ∧
        (∀ prn, (gen.corrections tow pseudoranges).2.prev.get? prn =
          if prn ∈ sats then some (tow, raw prn) else gen.prev.get? prn) ∧
        (gen.corrections tow pseudoranges).2.base = gen.base ∧
        (gen.corrections tow pseudoranges).2.ephemerides = gen.ephemerides ∧
        ∀ gen' pseudoranges', SameState gen gen' → (∀ prn, pseudoranges'.get? prn = pseudoranges.get? prn) →
          (gen'.corrections tow pseudoranges').1 = .ok out ∧
            SameState (gen.corrections tow pseudoranges).2 (gen'.corrections tow pseudoranges').2 := by
  have husable := usable_iff ht htoe hpr
  have hacc : accepted gen tow pseudoranges = sats := by
    refine Finset.ext fun prn => (mem_accepted hb).trans ?_
    simp only [hsats, husable]
  refine ⟨?_, fun raw hraw => ?_⟩
  · rintro ⟨prn, pr, eph, e, hu, he⟩
    obtain ⟨e', he'⟩ := (rawCorrections_error_iff gen base tow pseudoranges).mpr
      ⟨prn, pr, eph, (husable prn pr eph).mp hu, e, he⟩
    exact ⟨e', corrections_error hb he'⟩
  · have hknown : ∀ prn pr eph, Selected gen tow pseudoranges prn pr eph →
        Geometry.code.rawCorrection eph base tow pr = .ok (raw prn) :=
      fun prn pr eph hs => hraw prn pr eph ((husable prn pr eph).mpr hs)
    obtain ⟨table, -, hget, out, hout, hexact⟩ := exact_of_known hb hknown
    rw [hacc] at hget hexact
    rw [Geometry.corrections_code] at hout
    have hprev : ∀ prn, (gen.corrections tow pseudoranges).2.prev.get? prn =
        if prn ∈ sats then some (tow, raw prn) else gen.prev.get? prn := by
      intro prn
      rw [hout]
      dsimp only
      rw [get?_setPrev, hget]
      split_ifs <;> rfl
    obtain ⟨hb2, he2, -, -⟩ := corrections_base gen tow pseudoranges
    refine ⟨out, by rw [hout], hexact, hprev, hb2, he2, fun gen' pseudoranges' hs hp => ?_⟩
    obtain ⟨hlist, hstate⟩ := corrections_sameState hb hs hp hknown
    exact ⟨hlist.trans (by rw [hout]), hstate⟩

theorem corrections_exact_two : ∃ out,
    (twoSatellites.corrections 10 (.set (.set ∅ 1 26553409) 2 26553413)).1 = .ok out ∧
      Exact twoSatellites {1, 2} (fun prn => 5153 ^ 2 - if prn = 1 then 26553409 else 26553413) out := by
  have hacc : accepted twoSatellites 10 (.set (.set ∅ 1 26553409) 2 26553413) = {1, 2} :=
    accepted_two (.refl _) (fit_circular (by norm_num) (by norm_num [C]) (by norm_num) ..)
      (fit_circular (by norm_num) (by norm_num [C]) (by norm_num) ..)
  have ht : (0 : ℝ) ≤ 10 ∧ (10 : ℝ) < WEEK := by norm_num [WEEK]
  have htoe : ∀ prn eph, twoSatellites.ephemerides.get? prn = some eph → 0 ≤ eph.toe ∧ eph.toe < WEEK :=
    Dict.forall_get?_set (Dict.forall_get?_set Dict.forall_get?_empty (by norm_num [circular, WEEK]))
      (by norm_num [circular, WEEK])
  have hpr : ∀ prn pr, (Dict.set (.set ∅ (1 : Int) (26553409 : ℝ)) 2 26553413).get? prn = some pr → pr < C :=
    Dict.forall_get?_set (Dict.forall_get?_set Dict.forall_get?_empty (by norm_num [C])) (by norm_num [C])
  have husable := usable_iff ht htoe hpr
  obtain ⟨-, hlist⟩ := corrections_exact twoSatellites (0, 0, 0) rfl 10 ht htoe _ hpr {1, 2} fun prn => by
    rw [← hacc, mem_accepted rfl]
    simp only [husable]
  obtain ⟨out, hout, hexact, -⟩ := hlist _ fun prn pr eph hu => rawCorrection_two (.refl _) ((husable prn pr eph).mp hu)
  exact ⟨out, hout, hexact⟩

/-! ## Errors of the pseudoranges -/

omit [PyMath K] in
theorem medianOver_error {sats : Finset Int} (h : sats.Nonempty) (e : Int → K) (b : K) :
    medianOver sats (fun prn => -(e prn + b)) = -(medianOver sats e + b) := by
  have hne : sats.sort.map e ≠ [] := by
    obtain ⟨prn, hp⟩ := h
    exact List.ne_nil_of_mem (List.mem_map_of_mem (f := e) ((Finset.mem_sort _).mpr hp))
  have hshift : sats.sort.map (fun prn => -(e prn + b)) = ((sats.sort.map e).map (· + b)).map (-·) := by
    rw [List.map_map, List.map_map]
    rfl
  rw [medianOver, medianOver, hshift, Median.median_map_neg (fun hn => hne (List.map_eq_nil_iff.mp hn)),
    Median.median_map_add hne]

omit [PyMath K] in
/-- With any functions of position, clock and range: if each accepted
satellite's pseudorange is the range by these functions, with an error of its
own and a common one, its correction is the median of the errors less its own,
and is returned if that is within the limit. The common error cancels. -/
theorem injected_errors_recovered (g : Geometry K) (gen : DgpsGenerator K) (base : K × K × K)
    (hb : gen.base = some base) (tow : K) (pseudoranges : Dict Int K)
    (hne : (accepted gen tow pseudoranges).Nonempty) (e : Int → K) (b : K)
    (h : ∀ prn pr eph, Selected gen tow pseudoranges prn pr eph → ∃ sat dtSv range,
      g.satellitePosition eph (tow - pr / C) = .ok sat ∧ g.satelliteClockBias eph (tow - pr / C) = .ok dtSv ∧
        g.geometricRange sat base = .ok range ∧ pr = range - C * dtSv + e prn + b) :
    ∃ out, (g.corrections gen tow pseudoranges).1 = .ok out ∧ ∀ prn ∈ accepted gen tow pseudoranges,
      ((∃ c ∈ out, c.prn = prn) ↔
        |medianOver (accepted gen tow pseudoranges) e - e prn| ≤ gen.maxResidualM) ∧
      ∀ c ∈ out, c.prn = prn → c.prc = medianOver (accepted gen tow pseudoranges) e - e prn := by
  have hraw : ∀ prn pr eph, Selected gen tow pseudoranges prn pr eph →
      g.rawCorrection eph base tow pr = .ok (-(e prn + b)) := by
    intro prn pr eph hs
    obtain ⟨sat, dtSv, range, hp, hc, hr, hpr⟩ := h prn pr eph hs
    have hv : range - pr - C * dtSv = -(e prn + b) := by
      rw [sub_eq_iff_eq_add, sub_eq_iff_eq_add]
      linear_combination hpr.symm
    simp only [Geometry.rawCorrection, hp, hc, hr, bind_ok]
    exact congrArg Except.ok hv
  obtain ⟨_, _, _, out, hout, hexact⟩ := exact_of_known hb hraw
  have hres : ∀ prn, -(e prn + b) - medianOver (accepted gen tow pseudoranges) (fun prn => -(e prn + b)) =
      medianOver (accepted gen tow pseudoranges) e - e prn := by
    intro prn
    rw [medianOver_error hne]
    ring
  refine ⟨out, by rw [hout], fun prn hp => ⟨?_, fun c hc hprn => ?_⟩⟩
  · rw [hexact.kept, hres, and_iff_right hp]
  · rw [hexact.prc c hc, hres, hprn]

/-- Errors of 0 and 2 metres, and a common one of 5: corrections of 1 and -1. -/
theorem injected_errors_recovered_two : ∃ out,
    (twoSatellites.corrections 10 (.set (.set ∅ 1 (5153 ^ 2 + 5)) 2 (5153 ^ 2 + 7))).1 = .ok out ∧
      (∃ c ∈ out, c.prn = 1) ∧ ∀ c ∈ out, c.prn = 1 → c.prc = 1 := by
  have hacc : accepted twoSatellites 10 (.set (.set ∅ 1 (5153 ^ 2 + 5)) 2 (5153 ^ 2 + 7)) = {1, 2} :=
    accepted_two (.refl _) (fit_circular (by norm_num) (by norm_num [C]) (by norm_num) ..)
      (fit_circular (by norm_num) (by norm_num [C]) (by norm_num) ..)
  obtain ⟨out, hout, hall⟩ := injected_errors_recovered .code twoSatellites (0, 0, 0) rfl 10
    (.set (.set ∅ 1 (5153 ^ 2 + 5)) 2 (5153 ^ 2 + 7)) (hacc ▸ ⟨1, by decide⟩) (fun prn => if prn = 1 then 0 else 2) 5
    fun prn pr eph hs => by
      obtain ⟨hc, ha, hpr⟩ := selected_two (.refl _) hs
      obtain ⟨sat, hsat, hrange⟩ := geometricRange_circular hc (10 - pr / C)
      refine ⟨sat, 0, _, hsat, satelliteClockBias_circular hc _, hrange, ?_⟩
      rw [hpr, ha]
      split_ifs <;> ring
  have hmed : medianOver {1, 2} (fun prn : Int => if prn = 1 then (0 : ℝ) else 2) = 1 := by
    rw [medianOver_eq (show [(1 : Int), 2].Nodup by decide) (by simp)]
    norm_num [Median.median_pair]
  rw [hacc, hmed] at hall
  obtain ⟨hkept, hprc⟩ := hall 1 (by decide)
  refine ⟨out, hout, hkept.mpr ?_, fun c hc hprn => by rw [hprc c hc hprn]; norm_num⟩
  norm_num [twoSatellites]

/-! ## Outliers -/

end

end Rtcm.Proof
