import Rtcm3to2p3.Proof.Selection

/-!
# Rates at the end of the week

`corrections` subtracts times of week, without `_delta_t_week`: the rate of a
satellite is right exactly if its last epoch is of the same week, or if its raw
correction has not changed (`rateSince_eq_iff`).

* `rates_right_iff`: so are the rates and the RRCs of an epoch;
* `not_rates_right`: two epochs, ten seconds before and after the end of a week.
-/

namespace Rtcm.Proof

open Rtcm.Impl Rtcm.Spec

variable {K : Type} [Field K] [LinearOrder K]

section

variable [IsStrictOrderedRing K]

/-- An epoch less than half a week after another is of the same week or the next. -/
theorem week_cases {week last : ℤ} {tow tow' : K} (ht : 0 ≤ tow ∧ tow < WEEK) (ht' : 0 ≤ tow' ∧ tow' < WEEK)
    (h0 : 0 < WEEK * week + tow - (WEEK * last + tow')) (h1 : WEEK * week + tow - (WEEK * last + tow') < HALF_WEEK) :
    week = last ∨ week = last + 1 := by
  have hpos : (0 : K) < WEEK := by norm_num [WEEK]
  have hhalf : (HALF_WEEK : K) < WEEK := by norm_num [HALF_WEEK, WEEK]
  have hlow : WEEK * (-1 : K) < WEEK * ((week - last : ℤ) : K) := by
    push_cast
    linarith [ht.2, ht'.1]
  have hhigh : WEEK * ((week - last : ℤ) : K) < WEEK * 2 := by
    push_cast
    linarith [ht.1, ht'.2]
  have hl : (-1 : ℤ) < week - last := by exact_mod_cast lt_of_mul_lt_mul_left hlow hpos.le
  have hh : week - last < 2 := by exact_mod_cast lt_of_mul_lt_mul_left hhigh hpos.le
  omega

/-- The rate by the times of week is the rate in absolute time exactly within a
week, or if nothing has changed. -/
theorem rateSince_eq_iff {week last : ℤ} {tow tow' v v' : K} (ht : 0 ≤ tow ∧ tow < WEEK)
    (ht' : 0 ≤ tow' ∧ tow' < WEEK) (h0 : 0 < WEEK * week + tow - (WEEK * last + tow'))
    (h1 : WEEK * week + tow - (WEEK * last + tow') < HALF_WEEK) :
    rateSince tow v (some (tow', v')) = some ((v - v') / (WEEK * week + tow - (WEEK * last + tow'))) ↔
      last = week ∨ v' = v := by
  have hw : (WEEK : K) = HALF_WEEK + HALF_WEEK := by norm_num [WEEK, HALF_WEEK]
  have hpos : (0 : K) < WEEK := by norm_num [WEEK]
  have hne : tow ≠ tow' := by
    rintro rfl
    rcases week_cases ht ht' h0 h1 with rfl | rfl
    · simp at h0
    · push_cast at h1
      linarith
  rw [rateSince, Option.bind_some, if_pos hne, Option.some.injEq]
  rcases week_cases ht ht' h0 h1 with rfl | rfl
  · rw [add_sub_add_left_eq_sub]
    simp
  -- across the end of the week the two divisors differ by a week
  · rw [div_eq_div_iff (sub_ne_zero.mpr hne) h0.ne', mul_eq_mul_left_iff]
    push_cast
    constructor
    · rintro (hd | hd)
      · linarith
      · exact .inr (sub_eq_zero.mp hd).symm
    · rintro (hl | rfl)
      · omega
      · exact .inr (sub_self _)

variable [PyMath K]

omit [IsStrictOrderedRing K] [PyMath K] in
theorem mem_rated {gen : DgpsGenerator K} {tow : K} {pseudoranges : Dict Int K} {prn : Int} :
    prn ∈ rated gen tow pseudoranges ↔
      prn ∈ accepted gen tow pseudoranges ∧ ∃ prev, gen.prev.get? prn = some prev := by
  rw [rated, Finset.mem_filter, Option.isSome_iff_exists]

omit [PyMath K] in
theorem rate_right_iff {gen : DgpsGenerator K} {week : ℤ} {tow : K} {last : Int → ℤ} {prn : Int}
    (ht : 0 ≤ tow ∧ tow < WEEK) (hlast : Recent gen week tow last prn) {prev : K × K}
    (hp : gen.prev.get? prn = some prev) {table : Dict Int K} {v : K} (hv : table.get? prn = some v) :
    (gen.rawRates tow table).get? prn = some (trueRate gen week tow last prn v) ↔
      last prn = week ∨ ∃ t, gen.prev.get? prn = some (t, v) := by
  obtain ⟨t, v'⟩ := prev
  obtain ⟨ht', h0, h1⟩ := hlast _ hp
  rw [get?_rawRates, hv, Option.bind_some, trueRate, hp]
  simpa using rateSince_eq_iff (v := v) ht ht' h0 h1

/-- At an epoch whose accepted satellites were last accepted less than half a
week before, if at all: the rates used, and the RRCs, are those in absolute
time if and only if no week has ended since the last epoch of a satellite
whose raw correction has changed. -/
theorem rates_right_iff (gen : DgpsGenerator K) (base : K × K × K) (hb : gen.base = some base) (week : ℤ) (tow : K)
    (ht : 0 ≤ tow ∧ tow < WEEK) (pseudoranges : Dict Int K) (raw : Int → K)
    (hraw : ∀ prn pr eph, Selected gen tow pseudoranges prn pr eph → rawCorrection eph base tow pr = .ok (raw prn))
    (last : Int → ℤ) (hlast : ∀ prn ∈ accepted gen tow pseudoranges, Recent gen week tow last prn) :
    ∃ table out, gen.rawCorrections base tow pseudoranges = .ok table ∧
      (gen.corrections tow pseudoranges).1 = .ok out ∧
      (RatesRight gen week tow pseudoranges last raw (gen.rawRates tow table) out ↔
        ∀ prn ∈ rated gen tow pseudoranges, last prn = week ∨ ∃ t, gen.prev.get? prn = some (t, raw prn)) := by
  obtain ⟨table, htable, hget, out, hout, -⟩ := exact_of_known (g := .code) hb hraw
  rw [Geometry.corrections_code] at hout
  have hrate : ∀ prn ∈ rated gen tow pseudoranges,
      ((gen.rawRates tow table).get? prn = some (trueRate gen week tow last prn (raw prn)) ↔
        last prn = week ∨ ∃ t, gen.prev.get? prn = some (t, raw prn)) := by
    intro prn hm
    obtain ⟨ha, prev, hp⟩ := mem_rated.mp hm
    exact rate_right_iff ht (hlast prn ha) hp (by rw [hget, if_pos ha])
  refine ⟨table, out, htable, by rw [hout], fun h prn hm => (hrate prn hm).mp (h.rate prn hm), fun h => ?_⟩
  have hall := fun prn hm => (hrate prn hm).mpr (h prn hm)
  refine ⟨hall, fun c hc hm => ?_⟩
  have hrates : ∀ prn, (gen.rawRates tow table).get? prn = if prn ∈ rated gen tow pseudoranges then
      some (trueRate gen week tow last prn (raw prn)) else none := by
    intro prn
    split_ifs with hp
    · exact hall prn hp
    · rw [get?_rawRates, hget]
      split_ifs with ha
      · rw [Option.bind_some]
        cases hprev : gen.prev.get? prn with
        | none => rfl
        | some prev => exact absurd (mem_rated.mpr ⟨ha, prev, hprev⟩) hp
      · rfl
  obtain ⟨base', table', v, hb', htable', -, hc'⟩ := emitted_of_mem
    (show (gen.corrections tow pseudoranges).1 = .ok out by rw [hout]) hc
  obtain rfl := Option.some.inj (hb.symm.trans hb')
  obtain rfl := Except.ok.inj (htable.symm.trans htable')
  exact rrc_of_rates hrates hc' hm

end

/-! ## Ten seconds before the end of the week, and ten after it -/

theorem fit_end_of_week {pr : ℝ} (h0 : 0 < pr) (h1 : pr ≤ C) (prn : Int) :
    Fit 7200 604790 pr (circular prn 5153 0 0 10) := by
  have hC : (0 : ℝ) < C := by norm_num [C]
  have hd : 0 < pr / C := div_pos h0 hC
  have hd1 : pr / C ≤ 1 := (div_le_one hC).mpr h1
  refine ⟨h0, rfl, ?_⟩
  change |deltaTWeek (604790 - pr / C) 0| ≤ 7200
  rw [deltaTWeek, if_pos (by norm_num [HALF_WEEK]; linarith)]
  norm_num [WEEK, abs_le]
  exact ⟨by linarith, by linarith⟩

/-- The generator after both satellites were seen at one range. -/
noncomputable def afterBoth (tow pr : ℝ) : DgpsGenerator ℝ :=
  (twoSatellites.corrections tow (.set (.set ∅ 1 pr) 2 pr)).2

theorem prev_endOfWeek : SameTable twoSatellites (afterBoth 604790 26553409) ∧
    ∀ prn ∈ ({1, 2} : Finset Int), (afterBoth 604790 26553409).prev.get? prn = some (604790, 0) := by
  have hfit := fit_end_of_week (show (0 : ℝ) < 26553409 by norm_num) (by norm_num [C])
  obtain ⟨htable, hprev⟩ := prev_two (.refl twoSatellites) (hfit 1) (hfit 2)
  refine ⟨htable, fun prn hp => (hprev prn hp).trans ?_⟩
  rw [ite_self]
  norm_num

section

variable {y : ℝ} (h0 : 0 < y) (h1 : y ≤ C)
include h0 h1

theorem accepted_endOfWeek : accepted (afterBoth 604790 26553409) 10 (.set (.set ∅ 1 26553409) 2 y) = {1, 2} :=
  accepted_two prev_endOfWeek.1 (fit_circular (by norm_num) (by norm_num [C]) (by norm_num) ..)
    (fit_circular h0 h1 (by norm_num) ..)

theorem recent_endOfWeek : ∀ prn ∈ accepted (afterBoth 604790 26553409) 10 (.set (.set ∅ 1 26553409) 2 y),
    Recent (afterBoth 604790 26553409) 1 10 (fun _ => 0) prn := by
  intro prn hp prev hprev
  rw [accepted_endOfWeek h0 h1] at hp
  obtain rfl := Option.some.inj (hprev.symm.trans (prev_endOfWeek.2 prn hp))
  norm_num [WEEK, HALF_WEEK]

end

/-- Across the end of the week nothing changes. -/
theorem rates_right_unchanged : ∃ table out,
    ((afterBoth 604790 26553409).corrections 10 (.set (.set ∅ 1 26553409) 2 26553409)).1 = .ok out ∧
    RatesRight (afterBoth 604790 26553409) 1 10 (.set (.set ∅ 1 26553409) 2 26553409) (fun _ => 0)
      (fun prn => 5153 ^ 2 - if prn = 1 then 26553409 else 26553409)
      ((afterBoth 604790 26553409).rawRates 10 table) out := by
  have h0 : (0 : ℝ) < 26553409 := by norm_num
  have h1 : (26553409 : ℝ) ≤ C := by norm_num [C]
  obtain ⟨htable, hprev⟩ := prev_endOfWeek
  obtain ⟨table, out, -, hout, hiff⟩ := rates_right_iff (afterBoth 604790 26553409) (0, 0, 0) htable.base 1 10
    (by norm_num [WEEK]) (.set (.set ∅ 1 26553409) 2 26553409) _ (fun prn pr eph hs => rawCorrection_two htable hs)
    (fun _ => 0) (recent_endOfWeek h0 h1)
  refine ⟨table, out, hout, hiff.mpr fun prn hp => .inr ⟨604790, ?_⟩⟩
  rw [hprev prn (accepted_endOfWeek h0 h1 ▸ (mem_rated.mp hp).1), ite_self]
  norm_num

/-- Across the end of the week the second satellite's range grows by 20 metres
in 20 seconds. -/
theorem not_rates_right : ¬ ∀ (gen : DgpsGenerator ℝ) (base : ℝ × ℝ × ℝ), gen.base = some base →
    ∀ (week : ℤ) (tow : ℝ), 0 ≤ tow ∧ tow < WEEK → ∀ (pseudoranges : Dict Int ℝ) (raw : Int → ℝ),
      (∀ prn pr eph, Selected gen tow pseudoranges prn pr eph → rawCorrection eph base tow pr = .ok (raw prn)) →
      ∀ last : Int → ℤ, (∀ prn ∈ accepted gen tow pseudoranges, Recent gen week tow last prn) →
      ∀ table out, gen.rawCorrections base tow pseudoranges = .ok table →
        (gen.corrections tow pseudoranges).1 = .ok out →
        RatesRight gen week tow pseudoranges last raw (gen.rawRates tow table) out := by
  intro h
  have h0 : (0 : ℝ) < 26553429 := by norm_num
  have h1 : (26553429 : ℝ) ≤ C := by norm_num [C]
  obtain ⟨hsame, hprev⟩ := prev_endOfWeek
  have hacc := accepted_endOfWeek h0 h1
  have hraw := fun prn pr eph
      (hs : Selected (afterBoth 604790 26553409) 10 (.set (.set ∅ 1 26553409) 2 26553429) prn pr eph) =>
    rawCorrection_two hsame hs
  obtain ⟨table, htable, hget, out, hout, -⟩ := exact_of_known (g := .code) hsame.base hraw
  have hright := h (afterBoth 604790 26553409) (0, 0, 0) hsame.base 1 10 (by norm_num [WEEK]) _ _ hraw _
    (recent_endOfWeek h0 h1) table out htable (by rw [← Geometry.corrections_code, hout])
  have hp : (afterBoth 604790 26553409).prev.get? 2 = some (604790, 0) := hprev 2 (by decide)
  have hmem : (2 : Int) ∈ accepted (afterBoth 604790 26553409) 10 (.set (.set ∅ 1 26553409) 2 26553429) := by
    rw [hacc]; decide
  have hrate := hright.rate 2 (mem_rated.mpr ⟨hmem, _, hp⟩)
  rcases (rate_right_iff (by norm_num [WEEK]) (recent_endOfWeek h0 h1 2 hmem) hp
    (by rw [hget, if_pos hmem])).mp hrate with hl | ⟨t, ht⟩
  · exact absurd hl (by decide)
  · have hv := congrArg Prod.snd (Option.some.inj (hp.symm.trans ht))
    norm_num at hv

end Rtcm.Proof
