import Rtcm3to2p3.Proof.TwoRuns

/-!
# A rejected raw correction

`outlier_forgotten`: a dropped raw correction has no influence on later calls
if no rate is taken over it. Both runs' generators then differ in that value
only (`DifferAt`), until it is overwritten.
-/

namespace Rtcm.Proof

open Rtcm.Impl Rtcm.Spec

variable {K : Type} [Field K] [LinearOrder K] [PyMath K]

/-- The generators differ at most in the last epoch of one satellite. -/
structure DifferAt (prn : Int) (gen gen' : DgpsGenerator K) : Prop where
  table : SameTable gen gen'
  prev : ∀ p, p ≠ prn → gen'.prev.get? p = gen.prev.get? p

/-- The satellite's last epochs are at the time of week `tow` in both. -/
def LastAt (prn : Int) (tow : K) (gen gen' : DgpsGenerator K) : Prop :=
  ∃ v v', gen.prev.get? prn = some (tow, v) ∧ gen'.prev.get? prn = some (tow, v')

theorem DifferAt.apply {prn : Int} {gen gen' : DgpsGenerator K} (h : DifferAt prn gen gen') (op : Op K) :
    DifferAt prn (op.apply gen) (op.apply gen') := by
  refine ⟨h.table.apply op, fun p hp => ?_⟩
  cases op with
  | setStation ecef => exact h.prev p hp
  | addEphemeris eph => exact h.prev p hp
  | corrections t prs =>
    simp only [Op.apply]
    rcases h.table.raw_cases t prs with ⟨base, raw, hb, hr, hb', hr'⟩ | ⟨hg, hg', -⟩
    · rw [prev_corrections hb hr, prev_corrections hb' hr', h.prev p hp]
    · rw [hg, hg']
      exact h.prev p hp

/-- Runs of generators that do not differ. -/
theorem DifferAt.outputs_same {prn : Int} (ops : List (Op K)) {gen gen' : DgpsGenerator K}
    (h : DifferAt prn gen gen') (hsame : gen'.prev.get? prn = gen.prev.get? prn) :
    outputs gen ops = outputs gen' ops := by
  induction ops generalizing gen gen' with
  | nil => rfl
  | cons op ops ih =>
    cases op with
    | setStation ecef => exact ih (h.apply (.setStation ecef)) hsame
    | addEphemeris eph => exact ih (h.apply (.addEphemeris eph)) hsame
    | corrections t prs =>
      have hall : ∀ p, gen'.prev.get? p = gen.prev.get? p := fun p => by
        by_cases hp : p = prn
        · rw [hp, hsame]
        · exact h.prev p hp
      refine congrArg₂ List.cons (corrections_congr h.table t prs fun _ _ _ _ p _ _ => by rw [hall p])
        (ih (h.apply (.corrections t prs)) ?_)
      rcases h.table.raw_cases t prs with ⟨base, raw, hb, hr, hb', hr'⟩ | ⟨hg, hg', -⟩
      · rw [prev_corrections hb hr, prev_corrections hb' hr', hsame]
      · rw [hg, hg', hsame]

/-- A call that computes raw corrections decides, if it accepts the satellite. -/
theorem forgotten_ok {gen : DgpsGenerator K} {base : K × K × K} {t tow : K} {pseudoranges raw : Dict Int K} {prn : Int}
    {ops : List (Op K)} (hb : gen.base = some base) (hr : gen.rawCorrections base t pseudoranges = .ok raw)
    (h : Forgotten gen tow prn (.corrections t pseudoranges :: ops)) :
    if (raw.get? prn).isSome then t = tow else Forgotten (gen.corrections t pseudoranges).2 tow prn ops := by
  obtain ⟨out, hout⟩ : ∃ out, (gen.corrections t pseudoranges).1 = .ok out := by
    rw [corrections_ok hb hr]
    exact ⟨_, rfl⟩
  rw [Forgotten, hout] at h
  simpa only [raw_isSome_iff hb hr] using h

/-- A call that computes none does not. -/
theorem forgotten_unchanged {gen : DgpsGenerator K} {t tow : K} {pseudoranges : Dict Int K} {prn : Int}
    {ops : List (Op K)} (hno : ∀ base raw, gen.base = some base → gen.rawCorrections base t pseudoranges ≠ .ok raw)
    (h : Forgotten gen tow prn (.corrections t pseudoranges :: ops)) : Forgotten gen tow prn ops := by
  rw [Forgotten] at h
  cases hb : gen.base with
  | none =>
    have hu : useOf gen t pseudoranges prn = none := by rw [useOf, hb]
    rw [corrections_base_none hb, hu] at h
    exact h
  | some base =>
    cases hr : gen.rawCorrections base t pseudoranges with
    | error e =>
      rw [corrections_error hb hr] at h
      exact h
    | ok raw => exact absurd hr (hno base raw hb)

/-- Runs of generators that differ in a value that is overwritten before a
rate is taken over it. -/
theorem DifferAt.outputs_forgotten {prn : Int} {tow : K} (ops : List (Op K)) {gen gen' : DgpsGenerator K}
    (h : DifferAt prn gen gen') (hl : LastAt prn tow gen gen') (hf : Forgotten gen tow prn ops) :
    outputs gen ops = outputs gen' ops := by
  induction ops generalizing gen gen' with
  | nil => rfl
  | cons op ops ih =>
    cases op with
    | setStation ecef => exact ih (h.apply (.setStation ecef)) hl hf
    | addEphemeris eph => exact ih (h.apply (.addEphemeris eph)) hl hf
    | corrections t prs =>
      have hstep := h.apply (.corrections t prs)
      simp only [Op.apply] at hstep
      rw [outputs, outputs]
      rcases h.table.raw_cases t prs with ⟨base, raw, hb, hr, hb', hr'⟩ | ⟨hg, hg', hno⟩
      · have hp1 := prev_corrections hb hr prn
        have hp2 := prev_corrections hb' hr' prn
        obtain ⟨v, v', hv, hv'⟩ := hl
        have hf := forgotten_ok hb hr hf
        split_ifs at hf with hu
        -- accepted at the same time of week: no rate, and the values are the same then
        · obtain ⟨w, hw⟩ := Option.isSome_iff_exists.mp hu
          refine congrArg₂ List.cons (corrections_congr h.table t prs fun _ _ _ _ p _ _ => ?_)
            (hstep.outputs_same ops ?_)
          · by_cases hp : p = prn
            · rw [hp, hv, hv', rateSince, rateSince, Option.bind_some, Option.bind_some,
                if_neg (not_not.mpr hf), if_neg (not_not.mpr hf)]
            · rw [h.prev p hp]
          · rw [hp1, hp2, hw]; rfl
        -- not accepted: the values stay
        · rw [Option.not_isSome_iff_eq_none] at hu
          refine congrArg₂ List.cons (corrections_congr h.table t prs fun base₁ raw₁ hb₁ hr₁ p w hw => ?_)
            (ih hstep ⟨v, v', ?_, ?_⟩ hf)
          · obtain rfl := Option.some.inj (hb.symm.trans hb₁)
            obtain rfl := Except.ok.inj (hr.symm.trans hr₁)
            have hp : p ≠ prn := fun hp => by rw [hp, hu] at hw; cases hw
            rw [h.prev p hp]
          · rw [hp1, hu]; exact hv
          · rw [hp2, hu]; exact hv'
      -- nothing is computed: both generators stay
      · refine congrArg₂ List.cons (corrections_congr h.table t prs fun base raw hb hr => absurd hr (hno base raw hb))
          (ih hstep (by rw [hg, hg']; exact hl) ?_)
        rw [hg]
        exact forgotten_unchanged hno hf

/-- Two runs from any state that start with a call of `corrections` at one
epoch, which differ there in the pseudorange of one satellite only, dropped in
both: the later calls return the same if the raw correction is the same in
both, or if no rate is taken over it because the first later call that accepts
the satellite, if any, is at the same time of week. -/
theorem outlier_forgotten (gen : DgpsGenerator K) (tow : K) (pseudoranges pseudoranges' : Dict Int K) (prn : Int)
    (hsame : ∀ p, p ≠ prn → pseudoranges'.get? p = pseudoranges.get? p) (v v' : K)
    (hd : Dropped gen tow pseudoranges prn v) (hd' : Dropped gen tow pseudoranges' prn v') (ops : List (Op K))
    (h : v = v' ∨ Forgotten (gen.corrections tow pseudoranges).2 tow prn ops) :
    outputs (gen.corrections tow pseudoranges).2 ops = outputs (gen.corrections tow pseudoranges').2 ops := by
  obtain ⟨base, raw, hb, hr, hv, -⟩ := hd
  obtain ⟨base', raw', hb', hr', hv', -⟩ := hd'
  obtain rfl := Option.some.inj (hb.symm.trans hb')
  have hraw : ∀ p, p ≠ prn → raw'.get? p = raw.get? p := by
    refine fun p hp => Option.ext fun w => ?_
    rw [rawCorrections_ok hr, rawCorrections_ok hr']
    refine exists_congr fun pr => exists_congr fun eph => and_congr_left fun _ => ?_
    exact ⟨fun ⟨h1, h2, h3⟩ => ⟨hsame p hp ▸ h1, h2, h3⟩, fun ⟨h1, h2, h3⟩ => ⟨(hsame p hp).symm ▸ h1, h2, h3⟩⟩
  have hdiff : DifferAt prn (gen.corrections tow pseudoranges).2 (gen.corrections tow pseudoranges').2 :=
    ⟨(sameTable_corrections gen tow pseudoranges).symm.trans (sameTable_corrections gen tow pseudoranges'),
      fun p hp => by rw [prev_corrections hb hr, prev_corrections hb hr', hraw p hp]⟩
  have hp1 : (gen.corrections tow pseudoranges).2.prev.get? prn = some (tow, v) := by
    rw [prev_corrections hb hr, hv]; rfl
  have hp2 : (gen.corrections tow pseudoranges').2.prev.get? prn = some (tow, v') := by
    rw [prev_corrections hb hr', hv']; rfl
  rcases h with rfl | h
  · exact hdiff.outputs_same ops (hp2.trans hp1.symm)
  · exact hdiff.outputs_forgotten ops ⟨v, v', hp1, hp2⟩ h

/-! ## A rate over a rejected raw correction -/

section

variable {x : ℝ} (h0 : 0 < x) (h1 : x ≤ C)
include h0 h1

/-- The second satellite's range is wrong at the first epoch. -/
theorem dropped_twoSatellites (h100 : 100 < |5153 ^ 2 - x| / 2) :
    Dropped twoSatellites 10 (.set (.set ∅ 1 26553409) 2 x) 2 (5153 ^ 2 - x) := by
  obtain ⟨hb, raw, hr, hget⟩ := twoSatellites_raw (.refl _) (by norm_num : |(10 : ℝ)| ≤ 7199) (seen_near h0 h1)
  have hmed : Median.median raw.values = (0 + (5153 ^ 2 - x)) / 2 := by
    rw [← Median.median_pair]
    refine median_congr (d := .set (.set ∅ 1 0) 2 (5153 ^ 2 - x)) fun p => ?_
    simp only [hget, Dict.get?_set, Dict.get?_empty]
    split_ifs
    · rfl
    · norm_num
    · rfl
  refine ⟨_, raw, hb, hr, by rw [hget, Dict.get?_set_self]; rfl, ?_⟩
  rw [hmed]
  calc |5153 ^ 2 - x - (0 + (5153 ^ 2 - x)) / 2| = |(5153 ^ 2 - x) / 2| := by ring_nf
    _ = |5153 ^ 2 - x| / 2 := by rw [abs_div, abs_two]
    _ > 100 := h100

omit h0 h1 in
/-- No table of equal values has an outlier. -/
theorem sub_median_of_const {raw : Dict Int ℝ} {b : ℝ} (h : ∀ p v, raw.get? p = some v → v = b) {p : Int} {v : ℝ}
    (hv : raw.get? p = some v) : v - Median.median raw.values = 0 := by
  have hmed : Median.median raw.values = b := by
    refine Median.median_const (List.ne_nil_of_mem (Dict.mem_values.mpr ⟨p, hv⟩)) fun w hw => ?_
    obtain ⟨q, hq⟩ := Dict.mem_values.mp hw
    exact h q w hq
  rw [h p v hv, hmed, sub_self]

/-- The rates at the next epoch are over the ranges of the first. -/
theorem rrc_twoSatellites : ∃ out rateOffset,
    ((twoSatellites.corrections 10 (.set (.set ∅ 1 26553409) 2 x)).2.corrections 11
      (.set (.set ∅ 1 26553409) 2 26553409)).1 = .ok out ∧
    (∃ c ∈ out, c.prn = 1) ∧ (∃ c ∈ out, c.prn = 2) ∧
    ∀ c ∈ out, (c.prn = 1 → c.rrc = -rateOffset) ∧ (c.prn = 2 → c.rrc = x - 5153 ^ 2 - rateOffset) := by
  obtain ⟨hb, raw, hr, hget⟩ := twoSatellites_raw (.refl _) (by norm_num : |(10 : ℝ)| ≤ 7199) (seen_near h0 h1)
  have hprev := prev_corrections hb hr
  have htable := sameTable_corrections twoSatellites 10 (.set (.set ∅ 1 26553409) 2 x)
  generalize (twoSatellites.corrections 10 (.set (.set ∅ 1 26553409) 2 x)).2 = gen at hprev htable ⊢
  obtain ⟨hb', raw', hr', hget'⟩ := twoSatellites_raw htable (by norm_num : |(11 : ℝ)| ≤ 7199)
    (seen_near (x := 26553409) (by norm_num) (by norm_num [C]))
  have hzero : ∀ p v, raw'.get? p = some v → v = 0 := by
    intro p v hv
    rw [hget'] at hv
    obtain ⟨pr, hpr, rfl⟩ := Option.map_eq_some_iff.mp hv
    refine Dict.forall_get?_set (P := fun _ pr => (5153 : ℝ) ^ 2 - pr = 0)
      (Dict.forall_get?_set Dict.forall_get?_empty ?_) ?_ p pr hpr
    · norm_num
    · norm_num
  have hkept : ∀ p v, raw'.get? p = some v → |v - Median.median raw'.values| ≤ gen.maxResidualM := by
    intro p v hv
    rw [sub_median_of_const hzero hv, abs_zero, htable.maxResidualM]
    norm_num [twoSatellites]
  have hv1 : raw'.get? 1 = some (5153 ^ 2 - 26553409) := by rw [hget']; rfl
  have hv2 : raw'.get? 2 = some (5153 ^ 2 - 26553409) := by rw [hget']; rfl
  obtain ⟨out, hout, hc1⟩ := mem_of_kept hb' hr' hv1 (hkept 1 _ hv1)
  obtain ⟨out', hout', hc2⟩ := mem_of_kept hb' hr' hv2 (hkept 2 _ hv2)
  obtain rfl := Except.ok.inj (hout.symm.trans hout')
  refine ⟨out, (gen.offsets 11 raw').rateOffset, hout, hc1, hc2, fun c hc => ?_⟩
  obtain ⟨v, hv, hrrc⟩ := rrc_of_mem hb' hr' hout hc
  obtain rfl := hzero _ v hv
  refine ⟨fun hp => ?_, fun hp => ?_⟩
  · have hlast : gen.prev.get? 1 = some (10, 5153 ^ 2 - 26553409) := by rw [hprev, hget]; rfl
    rw [hrrc, hp, hlast, rateSince, Option.bind_some, if_pos (by norm_num), Option.map_some, Option.getD_some]
    norm_num
  · have hlast : gen.prev.get? 2 = some (10, 5153 ^ 2 - x) := by
      rw [hprev, hget, Dict.get?_set_self]; rfl
    rw [hrrc, hp, hlast, rateSince, Option.bind_some, if_pos (by norm_num), Option.map_some, Option.getD_some]
    norm_num

end

/-- The next correction's RRC is over the range that was rejected. -/
theorem not_outlier_forgotten : ¬ ∀ (gen : DgpsGenerator ℝ) (tow : ℝ) (pseudoranges pseudoranges' : Dict Int ℝ) (prn : Int),
    (∀ p, p ≠ prn → pseudoranges'.get? p = pseudoranges.get? p) → ∀ v v', Dropped gen tow pseudoranges prn v →
      Dropped gen tow pseudoranges' prn v' → ∀ ops, outputs (gen.corrections tow pseudoranges).2 ops =
        outputs (gen.corrections tow pseudoranges').2 ops := by
  intro h
  have hd := dropped_twoSatellites (x := 26552409) (by norm_num) (by norm_num [C]) (by norm_num)
  have hd' := dropped_twoSatellites (x := 26551409) (by norm_num) (by norm_num [C]) (by norm_num)
  obtain ⟨out, ro, hout, ⟨c₁, hc₁, hp₁⟩, ⟨c₂, hc₂, hp₂⟩, hrrc⟩ :=
    rrc_twoSatellites (x := 26552409) (by norm_num) (by norm_num [C])
  obtain ⟨out', ro', hout', -, -, hrrc'⟩ := rrc_twoSatellites (x := 26551409) (by norm_num) (by norm_num [C])
  have hsame := h twoSatellites 10 _ _ 2 (fun p hp => by rw [Dict.get?_set_ne _ _ hp, Dict.get?_set_ne _ _ hp]) _ _ hd hd'
    [.corrections 11 (.set (.set ∅ 1 26553409) 2 26553409)]
  simp only [outputs, hout, hout'] at hsame
  obtain rfl := Except.ok.inj (List.cons.inj hsame).1
  have e1 := (hrrc c₁ hc₁).1 hp₁
  have e2 := (hrrc c₂ hc₂).2 hp₂
  have e1' := (hrrc' c₁ hc₁).1 hp₁
  have e2' := (hrrc' c₂ hc₂).2 hp₂
  linarith

/-- A satellite that is not seen again. -/
theorem outlier_forgotten_unseen :
    outputs (twoSatellites.corrections 10 (.set (.set ∅ 1 26553409) 2 26552409)).2
        [.corrections 11 (.set ∅ 1 26553409)] =
      outputs (twoSatellites.corrections 10 (.set (.set ∅ 1 26553409) 2 26551409)).2
        [.corrections 11 (.set ∅ 1 26553409)] := by
  have hd := dropped_twoSatellites (x := 26552409) (by norm_num) (by norm_num [C]) (by norm_num)
  have hd' := dropped_twoSatellites (x := 26551409) (by norm_num) (by norm_num [C]) (by norm_num)
  refine outlier_forgotten twoSatellites 10 _ _ 2
    (fun p hp => by rw [Dict.get?_set_ne _ _ hp, Dict.get?_set_ne _ _ hp]) _ _ hd hd' _ (.inr ?_)
  have htable := sameTable_corrections twoSatellites 10 (.set (.set ∅ 1 26553409) 2 26552409)
  have hunseen := twoSatellites_use htable (by norm_num : |(11 : ℝ)| ≤ 7199)
    (seen_one (x := 26553409) (by norm_num) (by norm_num [C])) 2
  rw [Forgotten]
  split
  · trivial
  · rw [if_neg (fun hu => by cases hunseen.mp hu)]
    trivial

end Rtcm.Proof
