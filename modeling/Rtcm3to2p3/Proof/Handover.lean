import Rtcm3to2p3.Proof.Selection

/-!
# The RRC at a change of ephemeris

`rrc_source`: what the RRC of a correction is formed from, after any history.
No operation but an epoch touches a satellite's last epoch, so the first RRC
after a new ephemeris is a rate between two orbits (`not_one_orbit`).
-/

namespace Rtcm.Proof

open Rtcm.Impl Rtcm.Spec

variable {K : Type} [Field K] [LinearOrder K] [PyMath K]

/-- A correction emitted after a history is that of a use of the last
ephemeris and station. Its RRC is 0 if the satellite was never used before or
last at the same time of week, and otherwise the rate since the last use less
the common rate. The last use is of the ephemeris the correction names and of
the station if and only if neither has changed. -/
theorem rrc_source (maxIodAgeS maxResidualM : K) (history : List (Op K)) (tow : K) (pseudoranges : Dict Int K)
    (out : List (Correction K))
    (hout : ((after (.init maxIodAgeS maxResidualM) history).corrections tow pseudoranges).1 = .ok out) :
    ∃ rateOffset : K, ∀ c ∈ out, ∃ u v,
      useOf (after (.init maxIodAgeS maxResidualM) history) tow pseudoranges c.prn = some u ∧ u.raw = .ok v ∧
      c.iod = u.eph.iode ∧
      (match lastUse (.init maxIodAgeS maxResidualM) history c.prn with
        | none => c.rrc = 0
        | some u₀ => if u₀.tow = tow then c.rrc = 0
          else ∃ v₀, u₀.raw = .ok v₀ ∧ c.rrc = (v - v₀) / (tow - u₀.tow) - rateOffset) ∧
      (OneOrbit (.init maxIodAgeS maxResidualM) history tow c ↔
        Unchanged (.init maxIodAgeS maxResidualM) history tow c.prn) := by
  have hprev := prev_lastUse maxIodAgeS maxResidualM history
  have heph := ephemerides_after maxIodAgeS maxResidualM history
  have hbase := base_after maxIodAgeS maxResidualM history
  rcases out with _ | ⟨c₀, out⟩
  · exact ⟨0, fun c hc => nomatch hc⟩
  obtain ⟨base, raw, -, hb, hr, -, -⟩ := emitted_of_mem hout List.mem_cons_self
  refine ⟨((after (.init maxIodAgeS maxResidualM) history).offsets tow raw).rateOffset, fun c hc => ?_⟩
  obtain ⟨base', raw', v, hb', hr', hv, he⟩ := emitted_of_mem hout hc
  obtain rfl := Option.some.inj (hb.symm.trans hb')
  obtain rfl := Except.ok.inj (hr.symm.trans hr')
  obtain ⟨u, hu, huv⟩ := useOf_raw hb hr hv
  obtain ⟨eph, hk, -, -, -, hiod, -⟩ := emitted_eq_some he
  obtain ⟨-, hut, hs⟩ := useOf_eq_some.mp hu
  obtain rfl := Option.some.inj (hk.symm.trans hs.known)
  refine ⟨u, v, hu, huv, hiod, ?_, ?_⟩
  · obtain ⟨v', hv', hrrc⟩ := rrc_of_mem hb hr hout hc
    obtain rfl := Option.some.inj (hv.symm.trans hv')
    rw [hrrc]
    cases hl : lastUse (.init maxIodAgeS maxResidualM) history c.prn with
    | none => rw [(hprev c.prn).1 hl]; rfl
    | some u₀ =>
      obtain ⟨v₀, hv₀, hp₀⟩ := (hprev c.prn).2 u₀ hl
      rw [hp₀]
      simp only [rateSince, Option.bind_some]
      split_ifs with h1 h2 h2
      · exact absurd h1.symm h2
      · rfl
      · exact ⟨v₀, hv₀, rfl⟩
      · exact absurd (not_not.mp h2).symm h1
  · have hk' := heph c.prn
    rw [hs.known] at hk'
    simp only [OneOrbit, Unchanged, ← hk', Option.some.injEq, forall_eq', hbase, hiod, eq_comm (a := u.eph.iode)]

/-- Two epochs of one satellite and one ephemeris. -/
theorem rrc_source_unchanged : ∃ history out c, c ∈ out ∧
    ((after (.init (7200 : ℝ) 100) history).corrections 160 (.set ∅ 1 26000000)).1 = .ok out ∧
    (lastUse (.init 7200 100) history 1).isSome ∧ OneOrbit (.init 7200 100) history 160 c := by
  let start : List (Op ℝ) := [.addEphemeris (circular 1 5153 0 0 10), .setStation (0, 0, 0)]
  let history : List (Op ℝ) := .corrections 100 (.set ∅ 1 26000000) :: start
  obtain ⟨hu, out, hout, -⟩ := emits_circular start 100 0 1 0 10 rfl rfl (by norm_num)
  obtain ⟨hu', out', hout', c, hc, hprn⟩ := emits_circular history 160 0 1 0 10 rfl rfl (by norm_num)
  have hlast : lastUse (.init 7200 100) history 1 = some ⟨(0, 0, 0), 100, 26000000, circular 1 5153 0 0 10⟩ := by
    rw [lastUse, hout, hu]
    rfl
  obtain ⟨rateOffset, hall⟩ := rrc_source 7200 100 history 160 (.set ∅ 1 26000000) out' hout'
  obtain ⟨-, -, -, -, -, -, hiff⟩ := hall c hc
  refine ⟨history, out', c, hc, hout', hlast ▸ rfl, hiff.mpr ?_⟩
  rw [hprn, Unchanged, hlast]
  intro u hu _
  obtain rfl := Option.some.inj hu
  exact ⟨(fun eph he => Option.some.inj he ▸ rfl), rfl⟩

/-! ## A hand-over -/

/-- Both satellites at one range. -/
def bothNear (pr : ℝ) : Dict Int ℝ := .set (.set ∅ 1 pr) 2 pr

def bothStored (sqrtA : ℝ) : List (Op ℝ) :=
  [.addEphemeris (circular 2 sqrtA 0 0 10), .addEphemeris (circular 1 sqrtA 0 0 10), .setStation (0, 0, 0)]

/-- An epoch of both satellites, then a new ephemeris of the first. -/
def handover (sqrtA tow pr sqrtA' toe : ℝ) : List (Op ℝ) :=
  .addEphemeris (circular 1 sqrtA' toe 0 11) :: .corrections tow (bothNear pr) :: bothStored sqrtA

/-- The raw corrections after it, if the new orbit is 10.3 m higher. -/
noncomputable def rawHandover (prn : Int) : ℝ := if prn = 1 then 10.306001 else 0

theorem rawCorrection_handover {prn : Int} {pr : ℝ} {eph : Ephemeris ℝ}
    (hs : Selected (after (.init 7200 100) (handover 5153 3600 26553409 5153.001 7200)) 3601
      (bothNear 26553409) prn pr eph) :
    rawCorrection eph (0, 0, 0) 3601 pr = .ok (rawHandover prn) := by
  obtain ⟨ho, hk, -⟩ := hs
  obtain ⟨hp, -⟩ := seen_near range_pos range_le prn pr ho
  obtain rfl := range_two prn pr ho
  rw [ephemerides_after] at hk
  rcases hp with rfl | rfl
  · obtain rfl : circular 1 5153.001 7200 0 11 = eph := Option.some.inj hk
    rw [rawCorrection_circular (circular_circular 1 (by norm_num) ..)]
    norm_num [rawHandover, circular]
  · obtain rfl : circular 2 5153 0 0 10 = eph := Option.some.inj hk
    rw [rawCorrection_circular (circular_circular 2 (by norm_num) ..)]
    norm_num [rawHandover, circular]

theorem accepted_handover :
    accepted (after (.init (7200 : ℝ) 100) (handover 5153 3600 26553409 5153.001 7200)) 3601 (bothNear 26553409) =
      {1, 2} := by
  obtain ⟨hage, -⟩ := limits_after (7200 : ℝ) 100 (handover 5153 3600 26553409 5153.001 7200)
  refine Finset.ext fun prn => (mem_accepted (base_after 7200 100 _)).trans ?_
  rw [Finset.mem_insert, Finset.mem_singleton]
  constructor
  · rintro ⟨pr, eph, ho, -⟩
    exact (seen_near range_pos range_le prn pr ho).1
  · rintro (rfl | rfl)
    · refine ⟨_, _, rfl, ephemerides_after 7200 100 _ 1, ?_⟩
      rw [hage]
      exact fit_circular range_pos range_le (by norm_num) ..
    · refine ⟨_, _, rfl, ephemerides_after 7200 100 _ 2, ?_⟩
      rw [hage]
      exact fit_circular range_pos range_le (by norm_num) ..

theorem table_bothStored : SameTable twoSatellites (after (.init 7200 100) (bothStored 5153)) := ⟨rfl, rfl, rfl, rfl⟩

theorem fit_bothStored (prn : Int) : Fit 7200 3600 26553409 (circular prn 5153 0 0 10) :=
  fit_circular range_pos range_le (by norm_num) ..

/-- The last epochs are of the old ephemerides. -/
theorem prev_handover {prn : Int} (hp : prn ∈ ({1, 2} : Finset Int)) :
    (after (.init (7200 : ℝ) 100) (handover 5153 3600 26553409 5153.001 7200)).prev.get? prn = some (3600, 0) := by
  obtain ⟨-, hprev⟩ := prev_two table_bothStored (fit_bothStored 1) (fit_bothStored 2)
  refine (hprev prn hp).trans ?_
  rw [ite_self]
  norm_num

theorem lastUse_handover : lastUse (.init (7200 : ℝ) 100) (handover 5153 3600 26553409 5153.001 7200) 1 =
    some ⟨(0, 0, 0), 3600, 26553409, circular 1 5153 0 0 10⟩ := by
  have hraw : ∀ prn pr eph, Selected (after (.init 7200 100) (bothStored 5153)) 3600 (bothNear 26553409) prn pr eph →
      Geometry.code.rawCorrection eph (0, 0, 0) 3600 pr = .ok _ := fun _ _ _ hs => rawCorrection_two table_bothStored hs
  obtain ⟨_, _, _, out, hout, -⟩ := exact_of_known table_bothStored.base hraw
  rw [Geometry.corrections_code] at hout
  have huse : useOf (after (.init (7200 : ℝ) 100) (bothStored 5153)) 3600 (bothNear 26553409) 1 =
      some ⟨(0, 0, 0), 3600, 26553409, circular 1 5153 0 0 10⟩ :=
    useOf_eq_some.mpr ⟨rfl, rfl, rfl, rfl, fit_bothStored 1⟩
  change lastUse (.init 7200 100) (.corrections 3600 (bothNear 26553409) :: bothStored 5153) 1 = _
  rw [lastUse, huse, hout]
  rfl

theorem medianOver_handover : medianOver {1, 2} rawHandover = 5.1530005 := by
  rw [medianOver_eq (show [(1 : Int), 2].Nodup by decide) (by simp)]
  norm_num [Median.median_pair, rawHandover]

/-- The hand-over shows as a range rate of satellites that stay where they are. -/
theorem not_one_orbit :
    ∃ out, ((after (.init (7200 : ℝ) 100) (handover 5153 3600 26553409 5153.001 7200)).corrections 3601
        (bothNear 26553409)).1 = .ok out ∧
      ∃ c ∈ out, ¬ OneOrbit (.init 7200 100) (handover 5153 3600 26553409 5153.001 7200) 3601 c ∧ c.rrc = 5.1530005 := by
  have hbase := base_after (7200 : ℝ) 100 (handover 5153 3600 26553409 5153.001 7200)
  obtain ⟨-, hres⟩ := limits_after (7200 : ℝ) 100 (handover 5153 3600 26553409 5153.001 7200)
  obtain ⟨table, htable, hget, out, hout, hexact⟩ := exact_of_known (g := .code) hbase
    fun prn pr eph hs => rawCorrection_handover hs
  rw [Geometry.corrections_code] at hout
  replace hout := congrArg Prod.fst hout
  rw [accepted_handover] at hget hexact
  have hkept : |rawHandover 1 - medianOver {1, 2} rawHandover| ≤ 100 := by
    rw [medianOver_handover]
    norm_num [rawHandover, abs_le]
  have hin : (1 : Int) ∈ ({1, 2} : Finset Int) := by decide
  obtain ⟨c, hc, hprn⟩ := (hexact.kept 1).mpr ⟨hin, hres.symm ▸ hkept⟩
  have hrates : ∀ prn,
      ((after (.init 7200 100) (handover 5153 3600 26553409 5153.001 7200)).rawRates 3601 table).get? prn =
      if prn ∈ ({1, 2} : Finset Int) then some (rawHandover prn) else none := by
    intro prn
    rw [get?_rawRates, hget]
    split_ifs with hp
    · rw [Option.bind_some, prev_handover hp, rateSince, Option.bind_some, if_pos (by norm_num)]
      norm_num
    · rfl
  obtain ⟨base, table', v, hb, htable', -, he⟩ := emitted_of_mem hout hc
  obtain rfl := Option.some.inj (hbase.symm.trans hb)
  obtain rfl := Except.ok.inj (htable.symm.trans htable')
  refine ⟨out, hout, c, hc, fun h => ?_, ?_⟩
  · obtain ⟨eph, hk, -, -, -, hiod, -⟩ := emitted_eq_some he
    rw [hprn, ephemerides_after] at hk
    obtain rfl : circular 1 5153.001 7200 0 11 = eph := Option.some.inj hk
    have hlast : lastUse (.init (7200 : ℝ) 100) (handover 5153 3600 26553409 5153.001 7200) c.prn = _ :=
      hprn.symm ▸ lastUse_handover
    obtain ⟨hsame, -⟩ := h _ hlast (by norm_num)
    have hissue : (10 : Int) = 11 := hsame.trans hiod
    omega
  · rw [rrc_of_rates hrates he (hprn.symm ▸ hin), medianOver_handover, hprn]
    norm_num [rawHandover]

end Rtcm.Proof
