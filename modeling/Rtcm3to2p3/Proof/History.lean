import Rtcm3to2p3.Proof.Orbit
import Mathlib.Tactic.Ring
import Mathlib.Tactic.NormNum
import Mathlib.Algebra.Order.Ring.Cast

/-!
# A generator and its history

What the generator holds is what its history says: the table and the station
(`ephemerides_after`, `base_after`), and for each satellite the raw
correction of its last use (`prev_lastUse`). From this, how old the ephemeris
of a correction is (`ephemeris_age`).
-/

namespace Rtcm.Proof

open Rtcm.Impl Rtcm.Spec

variable {K : Type} [Field K] [LinearOrder K]

/-- What an emitted correction is made of. -/
theorem emitted_eq_some {gen : DgpsGenerator K} {o : DgpsGenerator.Offsets K} {x : Int × K}
    {c : Correction K} (h : emitted gen o x = some c) :
    ∃ eph, gen.ephemerides.get? x.1 = some eph ∧ |x.2 - o.offset| ≤ gen.maxResidualM ∧
      c.prn = x.1 ∧ c.prc = x.2 - o.offset ∧ c.iod = eph.iode ∧
      c.rrc = ((o.rawRate.get? x.1).map (· - o.rateOffset)).getD 0 := by
  unfold emitted at h
  split_ifs at h with hd
  obtain ⟨eph, he, rfl⟩ := Option.map_eq_some_iff.mp h
  exact ⟨eph, he, not_lt.mp hd, rfl, rfl, rfl, rfl⟩

theorem emitted_udre {gen : DgpsGenerator K} {o : DgpsGenerator.Offsets K} {x : Int × K} {c : Correction K}
    (h : emitted gen o x = some c) : c.udre = udreIndex c.prc := by
  unfold emitted at h
  split_ifs at h
  obtain ⟨eph, -, rfl⟩ := Option.map_eq_some_iff.mp h
  rfl

/-- Corrections come in the order of their PRNs. -/
theorem pairwise_emitted (gen : DgpsGenerator K) (o : DgpsGenerator.Offsets K) (raw : Dict Int K) :
    (raw.sorted.filterMap (emitted gen o)).Pairwise fun c c' => c.prn < c'.prn := by
  refine List.Pairwise.filterMap _ (fun x y hxy c hc c' hc' => ?_) raw.pairwise_sorted
  obtain ⟨-, -, -, hp, -⟩ := emitted_eq_some hc
  obtain ⟨-, -, -, hp', -⟩ := emitted_eq_some hc'
  rwa [hp, hp']

/-! ## Age -/

/-- The age of an ephemeris is taken modulo a week. -/
theorem deltaTWeek_eq (t tRef : K) : ∃ k : ℤ, deltaTWeek t tRef = t - tRef + WEEK * k := by
  unfold deltaTWeek
  dsimp only
  split_ifs
  · exact ⟨-1, by push_cast; ring⟩
  · exact ⟨1, by push_cast; ring⟩
  · exact ⟨0, by push_cast; ring⟩

theorem useOf_eq_some {gen : DgpsGenerator K} {tow : K} {pseudoranges : Dict Int K} {prn : Int} {u : Use K} :
    useOf gen tow pseudoranges prn = some u ↔
      gen.base = some u.base ∧ u.tow = tow ∧ Selected gen tow pseudoranges prn u.pr u.eph := by
  unfold useOf
  constructor
  · intro h
    split at h
    · rename_i base pr eph hb hp he
      split_ifs at h with hf
      obtain rfl := Option.some.inj h
      exact ⟨hb, rfl, hp, he, hf⟩
    · cases h
  · rintro ⟨hb, rfl, hp, he, hf⟩
    rw [hb, hp, he]
    exact if_pos hf

variable [PyMath K]

/-- A use has a raw correction, in the table of the raw corrections. -/
theorem raw_useOf {gen : DgpsGenerator K} {base : K × K × K} {tow : K} {pseudoranges raw : Dict Int K}
    (hb : gen.base = some base) (h : gen.rawCorrections base tow pseudoranges = .ok raw) {prn : Int}
    {u : Use K} (hu : useOf gen tow pseudoranges prn = some u) :
    ∃ v, u.raw = .ok v ∧ raw.get? prn = some v := by
  obtain ⟨hb', ht, hs⟩ := useOf_eq_some.mp hu
  obtain rfl := Option.some.inj (hb.symm.trans hb')
  rw [Use.raw, ht]
  exact rawCorrections_selected h hs

/-- Every raw correction in the table is that of a use. -/
theorem useOf_raw {gen : DgpsGenerator K} {base : K × K × K} {tow : K} {pseudoranges raw : Dict Int K}
    (hb : gen.base = some base) (h : gen.rawCorrections base tow pseudoranges = .ok raw) {prn : Int} {v : K}
    (hv : raw.get? prn = some v) :
    ∃ u, useOf gen tow pseudoranges prn = some u ∧ u.raw = .ok v := by
  obtain ⟨pr, eph, hs, hr⟩ := (rawCorrections_ok h prn v).mp hv
  exact ⟨⟨base, tow, pr, eph⟩, useOf_eq_some.mpr ⟨hb, rfl, hs⟩, hr⟩

theorem corrections_base (gen : DgpsGenerator K) (tow : K) (pseudoranges : Dict Int K) :
    (gen.corrections tow pseudoranges).2.base = gen.base ∧
      (gen.corrections tow pseudoranges).2.ephemerides = gen.ephemerides ∧
      (gen.corrections tow pseudoranges).2.maxIodAgeS = gen.maxIodAgeS ∧
      (gen.corrections tow pseudoranges).2.maxResidualM = gen.maxResidualM := by
  cases hb : gen.base with
  | none => rw [corrections_base_none hb]; exact ⟨hb, rfl, rfl, rfl⟩
  | some base =>
    cases hr : gen.rawCorrections base tow pseudoranges with
    | error e => rw [corrections_error hb hr]; exact ⟨hb, rfl, rfl, rfl⟩
    | ok raw => rw [corrections_ok hb hr]; exact ⟨hb, rfl, rfl, rfl⟩

section

variable (maxIodAgeS maxResidualM : K) (history : List (Op K))

theorem ephemerides_after (prn : Int) :
    (after (.init maxIodAgeS maxResidualM) history).ephemerides.get? prn = lastEphemeris history prn := by
  induction history with
  | nil => rfl
  | cons op history ih =>
    cases op with
    | setStation ecef => exact ih
    | addEphemeris eph =>
      rw [lastEphemeris, ← ih]
      exact Dict.get?_set _ _ _ _
    | corrections tow prs => exact (congrArg (·.get? prn) (corrections_base _ tow prs).2.1).trans ih

theorem base_after : (after (.init maxIodAgeS maxResidualM) history).base = lastStation history := by
  induction history with
  | nil => rfl
  | cons op history ih =>
    cases op with
    | setStation ecef => rfl
    | addEphemeris eph => exact ih
    | corrections tow prs => exact (corrections_base _ tow prs).1.trans ih

theorem limits_after : (after (.init maxIodAgeS maxResidualM) history).maxIodAgeS = maxIodAgeS ∧
    (after (.init maxIodAgeS maxResidualM) history).maxResidualM = maxResidualM := by
  induction history with
  | nil => exact ⟨rfl, rfl⟩
  | cons op history ih =>
    cases op with
    | setStation ecef => exact ih
    | addEphemeris eph => exact ih
    | corrections tow prs =>
      obtain ⟨-, -, h1, h2⟩ := corrections_base (after (.init maxIodAgeS maxResidualM) history) tow prs
      exact ⟨h1.trans ih.1, h2.trans ih.2⟩

/-- Each satellite's last epoch is its last use. -/
theorem prev_lastUse (prn : Int) :
    (lastUse (.init maxIodAgeS maxResidualM) history prn = none →
      (after (.init maxIodAgeS maxResidualM) history).prev.get? prn = none) ∧
    (∀ u, lastUse (.init maxIodAgeS maxResidualM) history prn = some u →
      ∃ v, u.raw = .ok v ∧ (after (.init maxIodAgeS maxResidualM) history).prev.get? prn = some (u.tow, v)) := by
  induction history with
  | nil => exact ⟨fun _ => rfl, fun u h => nomatch h⟩
  | cons op history ih =>
    cases op with
    | setStation ecef => exact ih
    | addEphemeris eph => exact ih
    | corrections tow prs =>
      rw [lastUse, after, Op.apply]
      generalize after (.init maxIodAgeS maxResidualM) history = gen at ih ⊢
      cases hb : gen.base with
      | none =>
        have hu : useOf gen tow prs prn = none := by rw [useOf, hb]
        rw [corrections_base_none hb, hu]
        exact ih
      | some base =>
        cases hr : gen.rawCorrections base tow prs with
        | error e => rw [corrections_error hb hr]; exact ih
        | ok raw =>
          rw [corrections_ok hb hr]
          dsimp only
          rw [get?_setPrev]
          cases hu : useOf gen tow prs prn with
          | none =>
            have hn : raw.get? prn = none := by
              cases hv : raw.get? prn with
              | none => rfl
              | some v =>
                obtain ⟨u, hu', -⟩ := useOf_raw hb hr hv
                cases hu.symm.trans hu'
            rw [hn]
            exact ih
          | some u =>
            obtain ⟨v, hv, hg⟩ := raw_useOf hb hr hu
            rw [hg]
            refine ⟨(fun h => nomatch h), fun u' h => ?_⟩
            obtain rfl := Option.some.inj h
            obtain ⟨-, ht, -⟩ := useOf_eq_some.mp hu
            exact ⟨v, hv, by rw [ht]; rfl⟩

end

/-! ## Emitted corrections -/

/-- A call that returns a correction has the station and the raw corrections,
and the correction is the satellite's. -/
theorem emitted_of_mem {gen : DgpsGenerator K} {tow : K} {pseudoranges : Dict Int K} {out : List (Correction K)}
    (hout : (gen.corrections tow pseudoranges).1 = .ok out) {c : Correction K} (hc : c ∈ out) :
    ∃ base raw v, gen.base = some base ∧ gen.rawCorrections base tow pseudoranges = .ok raw ∧
      raw.get? c.prn = some v ∧ emitted gen (gen.offsets tow raw) (c.prn, v) = some c := by
  cases hb : gen.base with
  | none =>
    rw [corrections_base_none hb] at hout
    obtain rfl := Except.ok.inj hout
    cases hc
  | some base =>
    cases hr : gen.rawCorrections base tow pseudoranges with
    | error e => rw [corrections_error hb hr] at hout; cases hout
    | ok raw =>
      rw [corrections_ok hb hr] at hout
      obtain rfl := Except.ok.inj hout
      obtain ⟨⟨prn, v⟩, hx, he⟩ := List.mem_filterMap.mp hc
      obtain ⟨_, _, _, hp, _⟩ := emitted_eq_some he
      exact ⟨base, raw, v, rfl, hr, hp ▸ Dict.mem_sorted.mp hx, hp ▸ he⟩

/-- The RRC of a returned correction: one common rate is taken off each rate
since a satellite's last epoch. -/
theorem rrc_of_mem {gen : DgpsGenerator K} {base : K × K × K} {tow : K} {pseudoranges raw : Dict Int K}
    (hb : gen.base = some base) (hr : gen.rawCorrections base tow pseudoranges = .ok raw) {out : List (Correction K)}
    (hout : (gen.corrections tow pseudoranges).1 = .ok out) {c : Correction K} (hc : c ∈ out) :
    ∃ v, raw.get? c.prn = some v ∧
      c.rrc = ((rateSince tow v (gen.prev.get? c.prn)).map (· - (gen.offsets tow raw).rateOffset)).getD 0 := by
  obtain ⟨base', raw', v, hb', hr', hv, he⟩ := emitted_of_mem hout hc
  obtain rfl := Option.some.inj (hb.symm.trans hb')
  obtain rfl := Except.ok.inj (hr.symm.trans hr')
  obtain ⟨-, -, -, -, -, -, hrrc⟩ := emitted_eq_some he
  have hrate : (gen.offsets tow raw).rawRate.get? c.prn = rateSince tow v (gen.prev.get? c.prn) :=
    (get?_rawRates gen tow raw c.prn).trans (by rw [hv, Option.bind_some])
  exact ⟨v, hv, hrate ▸ hrrc⟩

/-- A satellite whose residual is within the limit is returned. -/
theorem mem_of_kept {gen : DgpsGenerator K} {base : K × K × K} {tow : K} {pseudoranges raw : Dict Int K}
    (hb : gen.base = some base) (hr : gen.rawCorrections base tow pseudoranges = .ok raw) {prn : Int} {v : K}
    (hv : raw.get? prn = some v) (hk : |v - Median.median raw.values| ≤ gen.maxResidualM) :
    ∃ out, (gen.corrections tow pseudoranges).1 = .ok out ∧ ∃ c ∈ out, c.prn = prn := by
  obtain ⟨u, hu, -⟩ := useOf_raw hb hr hv
  obtain ⟨-, -, hs⟩ := useOf_eq_some.mp hu
  have he : (emitted gen (gen.offsets tow raw) (prn, v)).isSome := emitted_isSome hk (hs.known ▸ rfl)
  obtain ⟨c, hc⟩ := Option.isSome_iff_exists.mp he
  obtain ⟨-, -, -, hprn, -⟩ := emitted_eq_some hc
  refine ⟨_, by rw [corrections_ok hb hr], c, List.mem_filterMap.mpr ⟨(prn, v), Dict.mem_sorted.mpr hv, hc⟩, hprn⟩

/-- After a history whose last ephemeris of a satellite is circular, an epoch
of the satellite near its time returns a correction. -/
theorem emits_circular (history : List (Op ℝ)) (tow toe : ℝ) (prn week iode : Int)
    (hb : lastStation history = some (0, 0, 0))
    (he : lastEphemeris history prn = some (circular prn 5153 toe week iode)) (ht : |tow - toe| ≤ 7199) :
    useOf (after (.init 7200 100) history) tow (.set ∅ prn 26000000) prn =
        some ⟨(0, 0, 0), tow, 26000000, circular prn 5153 toe week iode⟩ ∧
      ∃ out, ((after (.init 7200 100) history).corrections tow (.set ∅ prn 26000000)).1 = .ok out ∧
        ∃ c ∈ out, c.prn = prn := by
  obtain ⟨hage, hres⟩ := limits_after (7200 : ℝ) 100 history
  have hb' := (base_after (7200 : ℝ) 100 history).trans hb
  have he' := (ephemerides_after (7200 : ℝ) 100 history prn).trans he
  have h0 : (0 : ℝ) < 26000000 := by norm_num
  have h1 : (26000000 : ℝ) ≤ C := by norm_num [C]
  obtain ⟨raw, hr, hget⟩ := rawCorrections_circular tow 5153 (.set ∅ prn 26000000) hage (by norm_num)
    (Dict.forall_get?_set Dict.forall_get?_empty ⟨⟨h0, h1⟩, toe, week, iode, he', ht⟩)
  have hv : raw.get? prn = some (5153 ^ 2 - 26000000) := by rw [hget, Dict.get?_set_self]; rfl
  have hall : ∀ v ∈ raw.values, v = 5153 ^ 2 - 26000000 := by
    intro v hv
    obtain ⟨p, hp⟩ := Dict.mem_values.mp hv
    rw [hget, Dict.get?_set] at hp
    split at hp
    · exact (Option.some.inj hp).symm
    · cases hp
  refine ⟨useOf_eq_some.mpr ⟨hb', rfl, Dict.get?_set_self .., he', by rw [hage]; exact fit_circular h0 h1 ht ..⟩,
    mem_of_kept hb' hr hv ?_⟩
  rw [Median.median_const (List.ne_nil_of_mem (Dict.mem_values.mpr ⟨_, hv⟩)) hall, sub_self, abs_zero, hres]
  norm_num

variable [IsStrictOrderedRing K]

end Rtcm.Proof
