import Rtcm3to2p3.Proof.Kepler
import Rtcm3to2p3.Proof.Messages
import Rtcm3to2p3.Proof.Selection
import Rtcm3to2p3.Spec.Range

/-!
# The corrections against true ranges

The range that `_geometric_range` computes has the Earth's rotation to the first
order of `TurningFrame`. A correction is a raw correction less a median, and the
median moves no farther than the values do, so the error of the range comes
twice at most (`corrections_track`).

* `geometricRange_accurate`: the range is right to half a millimetre;
* `service_tracks`: the corrections of every epoch that the service sends are,
  to a millimetre, what the pseudoranges have beyond the true ranges.
-/

namespace Rtcm.Proof

open Rtcm.Impl Rtcm.Spec TurningFrame Transition

/-! ## The range -/

theorem omega_pos : (0 : ℝ) < OMEGA_E_DOT / C := by norm_num [OMEGA_E_DOT, C]

theorem omega_le : (OMEGA_E_DOT / C : ℝ) ≤ 2.43239e-13 := by norm_num [OMEGA_E_DOT, C]

theorem geometricRange_dist (sat rcv : ℝ × ℝ × ℝ) :
    geometricRange sat rcv = .ok (dist (vec sat) (vec rcv) + OMEGA_E_DOT / C * cross sat rcv) := by
  have hsq : (sat.1 - rcv.1) * (sat.1 - rcv.1) + (sat.2.1 - rcv.2.1) * (sat.2.1 - rcv.2.1) +
      (sat.2.2 - rcv.2.2) * (sat.2.2 - rcv.2.2) = dist (vec sat) (vec rcv) ^ 2 := by
    rw [dist_vec_sq]
    ring
  have hroot : PyMath.sqrt (dist (vec sat) (vec rcv) ^ 2) = dist (vec sat) (vec rcv) := Real.sqrt_sq dist_nonneg
  simp only [geometricRange, hsq, mathSqrt_ok (sq_nonneg _), hroot, bind_ok]
  rfl

/-- The first order of the Earth's rotation is enough for half a millimetre. -/
theorem abs_lightTime_sub_le {sat rcv : ℝ × ℝ × ℝ} (hlow : 2.55e7 ≤ ‖vec sat‖) (hhigh : ‖vec sat‖ ≤ 3.0e7)
    (hrcv : ‖vec rcv‖ ≤ 6.5e6) {r : ℝ} (h : LightTime sat rcv r) :
    |dist (vec sat) (vec rcv) + OMEGA_E_DOT / C * cross sat rcv - r| ≤ 0.0005 := by
  have hω := omega_le
  have hω0 := omega_pos
  obtain ⟨hr0, hr1⟩ := h.mem
  have hd : ‖vec sat‖ - ‖vec rcv‖ ≤ dist (vec sat) (vec rcv) := by
    rw [dist_eq_norm]
    exact norm_sub_norm_le _ _
  have hm : ‖vec sat‖ * ‖vec rcv‖ ≤ 1.95e14 := by
    calc ‖vec sat‖ * ‖vec rcv‖ ≤ 3.0e7 * 6.5e6 := by gcongr
      _ = 1.95e14 := by norm_num
  have hωm : OMEGA_E_DOT / C * (‖vec sat‖ * ‖vec rcv‖) ≤ 47.5 := by
    calc OMEGA_E_DOT / C * (‖vec sat‖ * ‖vec rcv‖) ≤ 2.43239e-13 * 1.95e14 := by gcongr
      _ ≤ 47.5 := by norm_num
  have hθ : OMEGA_E_DOT / C * r ≤ 8.9e-6 := by
    have hr : r ≤ 3.65e7 := hr1.trans ((add_le_add hhigh hrcv).trans (by norm_num))
    calc OMEGA_E_DOT / C * r ≤ 2.43239e-13 * 3.65e7 := mul_le_mul hω hr h.nonneg (by norm_num)
      _ ≤ 8.9e-6 := by norm_num
  have hθ0 : 0 ≤ OMEGA_E_DOT / C * r := mul_nonneg hω0.le h.nonneg
  have hbound := abs_range_sub_mul_le h hω0.le
  have hright : (OMEGA_E_DOT / C * (‖vec sat‖ * ‖vec rcv‖)) ^ 2 + ‖vec sat‖ * ‖vec rcv‖ *
      ((OMEGA_E_DOT / C * r) ^ 2 + (OMEGA_E_DOT / C * r) ^ 3 / 3) ≤ 17800 := by
    calc _ ≤ (47.5 : ℝ) ^ 2 + 1.95e14 * (8.9e-6 ^ 2 + 8.9e-6 ^ 3 / 3) := by gcongr
      _ ≤ 17800 := by norm_num
  have hleft : (3.7e7 : ℝ) ≤ r + dist (vec sat) (vec rcv) - OMEGA_E_DOT / C * (‖vec sat‖ * ‖vec rcv‖) := by
    norm_num at hlow hrcv hωm ⊢
    linarith
  have hmul := (mul_le_mul_of_nonneg_left hleft (abs_nonneg _)).trans (hbound.trans hright)
  rw [abs_sub_comm]
  norm_num at hmul ⊢
  linarith

theorem norm_vec_le {base : ℝ × ℝ × ℝ} (h : OnEarth base) : ‖vec base‖ ≤ 6.5e6 := by
  refine (sq_le_sq₀ (norm_nonneg _) (by norm_num)).mp ?_
  rw [norm_vec_sq]
  exact h

theorem satellitePosition_medium {eph : Ephemeris ℝ} (h : MediumOrbit eph) (t : ℝ) :
    ∃ sat, satellitePosition eph t = .ok sat ∧ 2.55e7 ≤ ‖vec sat‖ ∧ ‖vec sat‖ ≤ 3.0e7 := by
  have hecc : |eph.ecc| ≤ 1 := (abs_of_nonneg h.ecc.1).trans_le h.ecc.2.le
  obtain ⟨x, y, z, hp, hr⟩ := satellitePosition_radius h.sqrtA.ne' hecc t
  obtain ⟨hlow, hhigh⟩ := abs_rk_mem h.ecc.1 h.ecc.2 t
  have hnorm : ‖vec (x, y, z)‖ = |Orbit.rk eph t| := by
    rw [← abs_of_nonneg (norm_nonneg (vec (x, y, z)))]
    exact (sq_eq_sq_iff_abs_eq_abs _ _).mp ((norm_vec_sq _).trans hr)
  exact ⟨(x, y, z), hp, hnorm ▸ h.perigee.trans hlow, hnorm ▸ hhigh.trans h.apogee⟩

theorem lightTime_unique {sat : ℝ × ℝ × ℝ} (h : ‖vec sat‖ ≤ 3.0e7) (rcv : ℝ × ℝ × ℝ) :
    ∃! r, LightTime sat rcv r := by
  refine existsUnique_range ?_ rcv
  rw [abs_of_pos omega_pos]
  calc OMEGA_E_DOT / C * ‖vec sat‖ ≤ 2.43239e-13 * 3.0e7 := by
        gcongr
        exact omega_le
    _ < 1 := by norm_num

/-- The geometric range with the first-order term of the Earth's rotation is
within half a millimetre of the one true range, from any station on the Earth to
any satellite on a medium orbit. -/
theorem geometricRange_accurate {eph : Ephemeris ℝ} (he : MediumOrbit eph) {base : ℝ × ℝ × ℝ} (hb : OnEarth base)
    (t : ℝ) :
    ∃ sat range, satellitePosition eph t = .ok sat ∧ geometricRange sat base = .ok range ∧
      (∃! r, LightTime sat base r) ∧ ∀ r, LightTime sat base r → |range - r| ≤ 0.0005 := by
  obtain ⟨sat, hsat, hlow, hhigh⟩ := satellitePosition_medium he t
  exact ⟨sat, _, hsat, geometricRange_dist sat base, lightTime_unique hhigh base,
    fun r hr => abs_lightTime_sub_le hlow hhigh (norm_vec_le hb) hr⟩

theorem mediumOrbit_ellipse : MediumOrbit ellipse := by
  have hsum : ellipse.crs ^ 2 + ellipse.crc ^ 2 = 50 ^ 2 := by norm_num [ellipse]
  refine ⟨by norm_num [ellipse, circular], ⟨by norm_num [ellipse], by norm_num [ellipse]⟩, ?_, ?_⟩
  all_goals
    rw [hsum, Real.sqrt_sq (by norm_num)]
    norm_num [ellipse, circular]

/-- From the equator. -/
theorem geometricRange_accurate_ellipse : ∃ sat range, satellitePosition ellipse 100 = .ok sat ∧
    geometricRange sat (6378137, 0, 0) = .ok range ∧ ∃ r, LightTime sat (6378137, 0, 0) r ∧ |range - r| ≤ 0.0005 := by
  have hequator : OnEarth (6378137, 0, 0) := by norm_num [OnEarth]
  obtain ⟨sat, range, hsat, hrange, ⟨r, hr, -⟩, hnear⟩ := geometricRange_accurate mediumOrbit_ellipse hequator 100
  exact ⟨sat, range, hsat, hrange, r, hr, hnear r hr⟩

/-! ## The corrections -/

theorem medianOver_near {sats : Finset Int} (hne : sats.Nonempty) {v w : Int → ℝ} {δ : ℝ}
    (h : ∀ prn ∈ sats, |v prn - w prn| ≤ δ) : |medianOver sats v - medianOver sats w| ≤ δ := by
  have hsort : sats.sort.map v ≠ [] := by
    obtain ⟨prn, hp⟩ := hne
    exact List.ne_nil_of_mem (List.mem_map_of_mem ((Finset.mem_sort _).mpr hp))
  refine Median.abs_median_sub_le hsort ?_
  rw [List.forall₂_map_left_iff, List.forall₂_map_right_iff, List.forall₂_same]
  exact fun prn hp => h prn ((Finset.mem_sort _).mp hp)

/-- The raw correction is the error of the pseudorange, turned round. -/
theorem rawCorrection_error_near {eph : Ephemeris ℝ} (he : MediumOrbit eph) {base : ℝ × ℝ × ℝ} (hb : OnEarth base)
    (tow pr : ℝ) :
    ∃ v err, rawCorrection eph base tow pr = .ok v ∧ RangeError base tow pr eph err ∧ |v + err| ≤ 0.0005 := by
  obtain ⟨sat, hsat, hlow, hhigh⟩ := satellitePosition_medium he (tow - pr / C)
  obtain ⟨dtSv, hclock⟩ := satelliteClockBias_ok he.sqrtA.ne' (tow - pr / C)
  obtain ⟨r, hr, -⟩ := lightTime_unique hhigh base
  have hnear := abs_lightTime_sub_le hlow hhigh (norm_vec_le hb) hr
  have hrange := geometricRange_dist sat base
  generalize dist (vec sat) (vec base) + OMEGA_E_DOT / C * cross sat base = range at hnear hrange
  refine ⟨range - pr - C * dtSv, pr - r + C * dtSv, ?_, ⟨sat, dtSv, r, hsat, hclock, hr, by ring⟩, ?_⟩
  · simp only [rawCorrection, hsat, hclock, hrange, bind_ok]
    rfl
  · rw [show range - pr - C * dtSv + (pr - r + C * dtSv) = range - r by ring]
    exact hnear

theorem corrections_track {gen : DgpsGenerator ℝ} {e : Epoch ℝ} (hb : gen.base = some e.base) (hbase : OnEarth e.base)
    (horbit : ∀ prn eph, gen.ephemerides.get? prn = some eph → MediumOrbit eph) {pseudoranges : Dict Int ℝ}
    (h : (gen.corrections e.tow pseudoranges).1 = .ok e.corrections) :
    ∃ err, Tracks gen.maxIodAgeS gen.maxResidualM e pseudoranges gen.ephemerides
      (Spec.accepted gen e.tow pseudoranges) err := by
  have hknown : ∀ prn, ∃ v err, ∀ pr eph, Selected gen e.tow pseudoranges prn pr eph →
      rawCorrection eph e.base e.tow pr = .ok v ∧ RangeError e.base e.tow pr eph err ∧ |v + err| ≤ 0.0005 := by
    intro prn
    by_cases hs : ∃ pr eph, Selected gen e.tow pseudoranges prn pr eph
    · obtain ⟨pr, eph, hs⟩ := hs
      obtain ⟨v, err, hraw⟩ := rawCorrection_error_near (horbit prn eph hs.known) hbase e.tow pr
      refine ⟨v, err, fun pr' eph' hs' => ?_⟩
      obtain rfl := Option.some.inj (hs.observed.symm.trans hs'.observed)
      obtain rfl := Option.some.inj (hs.known.symm.trans hs'.known)
      exact hraw
    · exact ⟨0, 0, fun pr eph h => absurd ⟨pr, eph, h⟩ hs⟩
  choose v err hknown using hknown
  obtain ⟨_, _, _, out, hout, hexact⟩ := exact_of_known (g := .code) hb fun prn pr eph hs => (hknown prn pr eph hs).1
  obtain rfl : out = e.corrections := Except.ok.inj ((congrArg Prod.fst hout).symm.trans h)
  have hnear : ∀ prn ∈ Spec.accepted gen e.tow pseudoranges, |v prn - -err prn| ≤ 0.0005 := by
    intro prn hp
    obtain ⟨pr, eph, hs⟩ := (mem_accepted hb).mp hp
    rw [sub_neg_eq_add]
    exact (hknown prn pr eph hs).2.2
  -- Both the value and the median are off by half a millimetre at most.
  have hprc : ∀ prn ∈ Spec.accepted gen e.tow pseudoranges,
      |v prn - medianOver (Spec.accepted gen e.tow pseudoranges) v -
        (medianOver (Spec.accepted gen e.tow pseudoranges) err - err prn)| ≤ 0.001 := by
    intro prn hp
    have hmed := medianOver_near ⟨prn, hp⟩ hnear
    have hneg : medianOver (Spec.accepted gen e.tow pseudoranges) (fun prn => -err prn) =
        -medianOver (Spec.accepted gen e.tow pseudoranges) err := by
      have := medianOver_error ⟨prn, hp⟩ err 0
      simpa only [add_zero] using this
    rw [hneg, abs_le] at hmed
    have hv := abs_le.mp (hnear prn hp)
    norm_num at hmed hv ⊢
    exact abs_le.mpr ⟨by linarith, by linarith⟩
  refine ⟨err, fun prn => (mem_accepted hb).trans ?_, fun prn hp => ?_, fun prn hp hk => ?_, fun c hc => ?_⟩
  · exact ⟨fun ⟨pr, eph, hs⟩ => ⟨pr, eph, hs.observed, hs.known, hs.fit⟩,
      fun ⟨pr, eph, ho, hk, hf⟩ => ⟨pr, eph, ho, hk, hf⟩⟩
  · obtain ⟨pr, eph, hs⟩ := (mem_accepted hb).mp hp
    exact ⟨pr, eph, hs.observed, hs.known, (hknown prn pr eph hs).2.1⟩
  · refine (hexact.kept prn).mpr ⟨hp, ?_⟩
    have h1 := abs_sub_le_iff.mp (hprc prn hp)
    have h2 := abs_le.mp hk
    exact abs_le.mpr ⟨by linarith, by linarith⟩
  · have hp := ((hexact.kept c.prn).mp ⟨c, hc, rfl⟩).1
    rw [hexact.prc c hc]
    exact ⟨hp, hprc c.prn hp⟩

/-- The issues of data do not matter. -/
theorem tracks_reissued {maxIodAgeS maxResidualM : ℝ} {e : Epoch ℝ} {pseudoranges : Dict Int ℝ}
    {table : Dict Int (Ephemeris ℝ)} {sats : Finset Int} {err : Int → ℝ}
    (h : Tracks maxIodAgeS maxResidualM e pseudoranges table sats err) {out : List (Correction ℝ)}
    (hout : List.Forall₂ Reissued e.corrections out) :
    Tracks maxIodAgeS maxResidualM { e with corrections := out } pseudoranges table sats err := by
  refine ⟨h.mem, h.errors, fun prn hp hk => ?_, fun c hc => ?_⟩
  · obtain ⟨c, hc, rfl⟩ := h.kept prn hp hk
    obtain ⟨c', hc', hr⟩ := exists_of_forall₂ hout.flip c hc
    exact ⟨c', hc', by rw [hr]⟩
  · obtain ⟨c', hc', hr⟩ := exists_of_forall₂ hout c hc
    rw [hr]
    exact h.prc c' hc'

/-! ## The service -/

section

variable {parse : Bytes → Option (Msg ℝ)}

/-- In any order of the threads' steps, if the stations in the frames that came in
are on the Earth and the ephemerides of medium orbits: the corrections of each
epoch that is sent are, within a millimetre, the errors of a frame's
pseudoranges against the true ranges from a frame's station by ephemerides that
came in frames, less their median. -/
theorem service_tracks (id : StationId) (maxIodAgeS maxResidualM : ℝ) (rtcm3 rtcm23 : MountInfo ℝ) {float : ℝ → String}
    {es : List Service.Event} {s : Service ℝ}
    (h : Transition.run (Service.step parse float) (.init id maxIodAgeS maxResidualM rtcm3 rtcm23) es = some s)
    (hstation : ∀ base, Stationed parse (Service.framesIn es .obs) base → OnEarth base)
    (horbit : ∀ prn eph, Orbiting parse (Service.framesIn es .eph) prn eph → MediumOrbit eph) :
    ∀ e ∈ s.epochs, ∃ pseudoranges table sats err, Observed parse (Service.framesIn es .obs) e.tow pseudoranges ∧
      Stationed parse (Service.framesIn es .obs) e.base ∧
      (∀ prn eph, table.get? prn = some eph → Orbiting parse (Service.framesIn es .eph) prn eph) ∧
      Tracks maxIodAgeS maxResidualM e pseudoranges table sats err := by
  intro e he
  have honly := run_only parse h (List.Subset.refl _) (List.Subset.refl _)
  obtain ⟨prs, gen, hobserved, hlearned, hbase, hseen⟩ := epochs_learned honly e he
  have hstationed := hlearned.base e.base hbase
  generalize hc : (gen.corrections e.tow prs).1 = result at hseen
  cases hseen with
  | returned out _ hout =>
    have horbits : ∀ prn eph, gen.ephemerides.get? prn = some eph → MediumOrbit eph :=
      fun prn eph hg => horbit prn eph (hlearned.ephemerides prn eph hg)
    have htrack := corrections_track (e := { e with corrections := out }) hbase (hstation e.base hstationed) horbits hc
    obtain ⟨err, htrack⟩ := htrack
    rw [hlearned.age, hlearned.residual] at htrack
    exact ⟨prs, _, _, err, hobserved, hstationed, hlearned.ephemerides, tracks_reissued htrack hout⟩

end

theorem onEarth_nearCentre : OnEarth (parseStation nearCentre) := by
  norm_num [OnEarth, parseStation, nearCentre]

theorem mediumOrbit_orbitOf (prn : Int) : MediumOrbit (parseEphemeris (orbitOf prn)) := by
  refine ⟨?_, ⟨?_, ?_⟩, ?_, ?_⟩
  all_goals norm_num [parseEphemeris, orbitOf, noOrbit]

theorem parseBoth_medium (obs eph : List Bytes) : (∀ base, Stationed parseBoth obs base → OnEarth base) ∧
    ∀ prn ephemeris, Orbiting parseBoth eph prn ephemeris → MediumOrbit ephemeris := by
  refine ⟨fun base ⟨frame, m, _, h, hbase⟩ => ?_, fun prn ephemeris ⟨frame, m, _, h, hephemeris, _⟩ => ?_⟩
  · subst hbase
    unfold parseBoth at h
    split_ifs at h
    all_goals cases h
    exact onEarth_nearCentre
  · subst hephemeris
    unfold parseBoth at h
    split_ifs at h
    all_goals cases h
    · exact mediumOrbit_orbitOf 1
    · exact mediumOrbit_orbitOf 40

theorem service_tracks_one : ∃ (s : Service ℝ) (e : Epoch ℝ) (pseudoranges : Dict Int ℝ)
    (table : Dict Int (Ephemeris ℝ)) (sats : Finset Int) (err : Int → ℝ), e ∈ s.epochs ∧
      Tracks 7200 100 e pseudoranges table sats err := by
  obtain ⟨es, s, h, hne⟩ := run_oneEpoch { mount := "RTCM3", lat := 0, lon := 0 }
    { mount := "RTCM23", lat := 0, lon := 0 } fun _ => ""
  obtain ⟨e, he⟩ := List.exists_mem_of_ne_nil s.epochs hne
  obtain ⟨hstation, horbit⟩ := parseBoth_medium (Service.framesIn es .obs) (Service.framesIn es .eph)
  obtain ⟨prs, table, sats, err, -, -, -, htrack⟩ :=
    service_tracks ⟨1023, by decide⟩ 7200 100 _ _ h hstation horbit e he
  exact ⟨s, e, prs, table, sats, err, he, htrack⟩

end Rtcm.Proof
