import Rtcm3to2p3.Proof.Orbit
import Rtcm3to2p3.Proof.Sender

/-!
# Sequence numbers

`_next_seq` is called for each message that is tried, so the messages
published are numbered one after the other if none is refused (`run_numbered`).
The encoder takes any station of a message it can have got (`epoch_placed`),
and the corrections if they are `Sendable` (`epoch_fits`). The last section
feeds a converter a satellite it computes a correction for and cannot send.
-/

namespace Rtcm.Proof

open Rtcm.Impl Rtcm.Spec

section

variable {K : Type} [Field K] [LinearOrder K] [FloorRing K]

/-- The calls carry the numbers after `seq`, modulo 8, and `seq'` is the last. -/
structure Numbered (seq : Nat) (calls : List (Call K)) (seq' : Nat) : Prop where
  seqs : calls.map (fun c => c.message.seq) = (List.range calls.length).map fun k => (seq + (k + 1)) % 8
  last : seq' % 8 = (seq + calls.length) % 8

theorem Numbered.append {p q r : Nat} {calls calls' : List (Call K)} (h : Numbered p calls q)
    (h' : Numbered q calls' r) : Numbered p (calls ++ calls') r := by
  refine ⟨?_, ?_⟩
  · rw [List.map_append, h.seqs, h'.seqs, List.length_append, List.range_add, List.map_append, List.map_map]
    refine congrArg _ (List.map_congr_left fun k _ => ?_)
    have := h.last
    simp only [Function.comp_apply]
    omega
  · have h1 := h.last
    have h2 := h'.last
    rw [List.length_append]
    omega

/-- An epoch whose messages are accepted. -/
theorem EpochStep.numbered {s s' : Sender K} {e : Epoch K} {enc : Rtcm2Encoder} {calls : List (Call K)}
    (h : EpochStep s e enc calls s') (hp : Placed e) (hf : Fits e) : Numbered s.seq calls s'.seq := by
  cases h with
  | corrections => exact ⟨rfl, Nat.mod_mod _ _⟩
  | nothing _ hn => exact absurd hf hn
  | unplaced _ hn => exact absurd hp hn
  | both =>
    refine ⟨?_, ?_⟩
    · change [(s.seq + 1) % 8, ((s.seq + 1) % 8 + 1) % 8] = [(s.seq + 1) % 8, (s.seq + 2) % 8]
      rw [Nat.mod_add_mod]
    · simp only [List.length_cons, List.length_nil]
      omega
  | station _ _ hn => exact absurd hf hn

theorem EpochStep.station_only {s s' : Sender K} {e : Epoch K} {enc : Rtcm2Encoder} {calls : List (Call K)}
    (h : EpochStep s e enc calls s') (hr : type3Recent s.lastType3Tow e.tow = false) (hp : Placed e) (hf : ¬ Fits e) :
    calls = [s.type3 e ((s.seq + 1) % 8 : Nat)] ∧ s'.seq = ((s.seq + 1) % 8 + 1) % 8 ∧
      s'.lastType3Tow = some e.tow := by
  cases h with
  | corrections hr' | nothing hr' => cases hr.symm.trans hr'
  | unplaced _ hn => exact absurd hp hn
  | both _ _ hf' => exact absurd hf' hf
  | station => exact ⟨rfl, rfl, rfl⟩

theorem EpochStep.both_of {s s' : Sender K} {e : Epoch K} {enc : Rtcm2Encoder} {calls : List (Call K)}
    (h : EpochStep s e enc calls s') (hr : type3Recent s.lastType3Tow e.tow = false) (hp : Placed e) (hf : Fits e) :
    calls = [s.type3 e ((s.seq + 1) % 8 : Nat), s.type1 e (((s.seq + 1) % 8 + 1) % 8 : Nat)] ∧
      s'.lastType3Tow = some e.tow := by
  cases h with
  | corrections hr' | nothing hr' => cases hr.symm.trans hr'
  | unplaced _ hn => exact absurd hp hn
  | both => exact ⟨rfl, rfl⟩
  | station _ _ hn => exact absurd hf hn

theorem EpochStep.corrections_only {s s' : Sender K} {e : Epoch K} {enc : Rtcm2Encoder} {calls : List (Call K)}
    (h : EpochStep s e enc calls s') (hr : type3Recent s.lastType3Tow e.tow = true) (hf : Fits e) :
    calls = [s.type1 e ((s.seq + 1) % 8 : Nat)] := by
  cases h with
  | corrections => rfl
  | nothing _ hn => exact absurd hf hn
  | unplaced hr' | both hr' | station hr' => cases hr.symm.trans hr'

/-- A refused Type 1 message after a Type 3 message: the next number is lost. -/
theorem run_refused {s : Sender K} (hs : Seeded s.encoder) {e e' : Epoch K}
    (hr : type3Recent s.lastType3Tow e.tow = false) (hp : Placed e) (hf : ¬ Fits e)
    (hf' : Fits e') (hr' : type3Recent (some e.tow) e'.tow = true) :
    (s.run [e, e']).1.flatten.map (fun m => m.1.message.seq) = [(s.seq + 1) % 8, (s.seq + 3) % 8] := by
  obtain ⟨enc, henc, -, hstep⟩ := epoch_step hs e
  obtain ⟨hcalls, hseq, hlast⟩ := hstep.station_only hr hp hf
  obtain ⟨enc', -, -, hstep'⟩ := epoch_step (hstep.encoder_eq ▸ henc) e'
  have hcalls' := hstep'.corrections_only (hlast ▸ hr') hf'
  have hmap : ∀ l : List (Call K × Bytes), l.map (fun m => m.1.message.seq) =
      (l.map Prod.fst).map fun c => c.message.seq := fun l => by rw [List.map_map]; rfl
  rw [hmap]
  simp only [Sender.run, List.flatten_cons, List.flatten_nil, List.append_nil, List.map_append, hcalls, hcalls', hseq]
  change [(s.seq + 1) % 8, (((s.seq + 1) % 8 + 1) % 8 + 1) % 8] = _
  rw [show (((s.seq + 1) % 8 + 1) % 8 + 1) % 8 = (s.seq + 3) % 8 by omega]

/-- By induction on the epochs. -/
theorem run_numbered {es : List (Epoch K)} (h : ∀ e ∈ es, Placed e ∧ Fits e) {s : Sender K} (hs : Seeded s.encoder) :
    Numbered s.seq ((s.run es).1.flatten.map Prod.fst) (s.run es).2.seq := by
  induction es generalizing s with
  | nil => exact ⟨rfl, rfl⟩
  | cons e es ih =>
    obtain ⟨⟨hp, hf⟩, hes⟩ := List.forall_mem_cons.mp h
    obtain ⟨enc, henc, -, hstep⟩ := epoch_step hs e
    rw [Sender.run, List.flatten_cons, List.map_append]
    exact (hstep.numbered hp hf).append (ih hes (epoch_seeded hs e))

variable [PyMath K]

theorem epoch_placed {c : Converter K} (h : Safe c) {msg : Msg1077 K} {e : Epoch K}
    (he : epochOf c.gen msg = some e) : Placed e :=
  h.base e.base (epochOf_eq_some.mp he).1

omit [FloorRing K] in
theorem rawCorrections_of_corrections {gen : DgpsGenerator K} {base : K × K × K} {tow : K}
    {pseudoranges : Dict Int K} {cs : List (Correction K)} (hb : gen.base = some base)
    (hc : (gen.corrections tow pseudoranges).1 = .ok cs) :
    ∃ raw, gen.rawCorrections base tow pseudoranges = .ok raw := by
  cases hr : gen.rawCorrections base tow pseudoranges with
  | ok raw => exact ⟨raw, rfl⟩
  | error e =>
    rw [corrections_error hb hr] at hc
    cases hc

/-- The corrections of an epoch are accepted if and only if they are sendable. -/
theorem epoch_fits {c : Converter K} (h : Safe c) {msg : Msg1077 K} (hm : ObservationsOk msg) {e : Epoch K}
    (he : epochOf c.gen msg = some e) : Fits e ↔ Sendable c.gen msg := by
  obtain ⟨hb, -, prs, hparse, hc⟩ := epochOf_eq_some.mp he
  have hread : Readable msg := of_not_not fun hn => by
    obtain ⟨err, herr⟩ := parse_unreadable hn
    cases hparse.symm.trans herr
  obtain ⟨prs', hparse', hprn⟩ := parse_readable hm.attributes hread
  obtain ⟨-, rfl⟩ := Prod.mk.injEq .. ▸ Except.ok.inj (hparse'.symm.trans hparse)
  obtain ⟨raw, hr⟩ := rawCorrections_of_corrections hb hc
  obtain ⟨out, hout, hrec, hlen⟩ := corrections_records hb hr (fun prn eph he => (h.ephemerides prn eph he).2)
    fun prn pr hp => (hm.satellites.2 prn (hprn prn pr hp)).1
  obtain rfl := Except.ok.inj (hc.symm.trans hout)
  rw [Fits, hrec, hlen]
  constructor
  · intro hf tow prs' base raw' hp hb' hr'
    obtain ⟨rfl, rfl⟩ := Prod.mk.injEq .. ▸ Except.ok.inj (hparse.symm.trans hp)
    obtain rfl := Option.some.inj (hb.symm.trans hb')
    obtain rfl := Except.ok.inj (hr.symm.trans hr')
    exact hf
  · exact fun hs => hs _ _ _ _ hparse hb hr

variable {parse : Bytes → Option (Msg K)}

theorem epochs_visits {c : Converter K} {calls : List (Upstream × Bytes)} {e : Epoch K}
    (h : e ∈ (epochs parse c calls).map Prod.fst) : ∃ v ∈ visits parse c calls, v.epoch parse = some e := by
  obtain ⟨x, hx, rfl⟩ := List.mem_map.mp h
  obtain ⟨v, hv, he⟩ := List.mem_filterMap.mp hx
  obtain ⟨e, hve, rfl⟩ := Option.map_eq_some_iff.mp he
  exact ⟨v, hv, hve⟩

theorem epochs_placed [IsStrictOrderedRing K] (hp : ∀ frame m, parse frame = some m → MsgOk m) (id : StationId)
    (maxIodAgeS maxResidualM : K) (calls : List (Upstream × Bytes)) :
    ∀ e ∈ (epochs parse (.new id maxIodAgeS maxResidualM) calls).map Prod.fst, Placed e := by
  intro e he
  obtain ⟨v, hv, hve⟩ := epochs_visits he
  obtain ⟨-, msg, -, hepoch⟩ := (visit_epoch_eq_some parse).mp hve
  exact epoch_placed (visits_safe hp calls (safe_new id maxIodAgeS maxResidualM) v hv) hepoch

omit [Field K] [LinearOrder K] [FloorRing K] [PyMath K] in
theorem visited_singleton {σ : Type} (onFrame : σ → Bytes → Py Unit × σ) (c : σ) (frame : Bytes) :
    visited onFrame c [frame] = [(c, frame)] := by
  rw [visited]
  rcases onFrame c frame with ⟨_ | _, _⟩ <;> rfl

/-- A chunk that is one frame. -/
theorem visits_frame {u : Upstream} {c : Converter K} (hb : u.buf c = []) {frame : Bytes} (h : rtcm3.IsFrame frame)
    (calls : List (Upstream × Bytes)) : visits parse c ((u, frame) :: calls) =
      ⟨u, u.received c frame, frame⟩ :: visits parse (Visit.after parse ⟨u, u.received c frame, frame⟩) calls := by
  rw [visits, hb, List.nil_append, extract_frame h, feed_frame parse u hb h, visited_singleton]
  rfl

variable (parse) in
/-- A handler leaves the buffers as they are. -/
theorem onFrame_buf (u : Upstream) (c : Converter K) (frame : Bytes) :
    (u.onFrame parse c frame).2.obsBuf = c.obsBuf ∧ (u.onFrame parse c frame).2.ephBuf = c.ephBuf := by
  have h := onFrame_rebuffered parse u c frame c.rtcm3Feed c.obsBuf c.ephBuf
  rw [show rebuffered c c.rtcm3Feed c.obsBuf c.ephBuf = c from rfl] at h
  rw [h]
  exact ⟨rfl, rfl⟩

/-- What a converter between frames knows. -/
structure Knows (c : Converter K) (gen : DgpsGenerator K) : Prop where
  obsBuf : c.obsBuf = []
  ephBuf : c.ephBuf = []
  tables : SameTable gen c.gen

variable (parse) in
/-- The converter after a chunk that is one frame. -/
theorem knows_after {u : Upstream} {c : Converter K} {gen gen' : DgpsGenerator K} (h : Knows c gen) {frame : Bytes}
    (hf : rtcm3.IsFrame frame) (hg : SameTable gen' (u.onFrame parse (u.received c frame) frame).2.gen) :
    Knows (Visit.after parse ⟨u, u.received c frame, frame⟩) gen' := by
  obtain ⟨ho, he⟩ := onFrame_buf parse u (u.received c frame) frame
  refine ⟨ho.trans ?_, he.trans ?_, hg⟩
  · cases u <;> simp only [Upstream.received, h.obsBuf, List.nil_append, extract_frame hf]
  · cases u <;> simp only [Upstream.received, h.ephBuf, List.nil_append, extract_frame hf]

theorem visits_ephemeris {c : Converter K} {gen : DgpsGenerator K} (h : Knows c gen) {frame : Bytes}
    (hf : rtcm3.IsFrame frame) {m : Msg1019 K} (hm : parse frame = some (.gpsEphemeris m)) :
    ∃ c' v, Knows c' (gen.addEphemeris (parseEphemeris m)) ∧ v.upstream = .eph ∧
      ∀ calls, visits parse c ((.eph, frame) :: calls) = v :: visits parse c' calls := by
  refine ⟨_, ⟨.eph, Upstream.eph.received c frame, frame⟩, knows_after parse (u := .eph) h hf ?_, rfl,
    visits_frame (u := .eph) h.ephBuf hf⟩
  obtain ⟨hb, he, ha, hr⟩ := h.tables
  simp only [Upstream.onFrame, Converter.onEphFrame, Converter.parseFrame, hm, Upstream.received]
  exact ⟨hb, by simp only [DgpsGenerator.addEphemeris, he], ha, hr⟩

theorem visits_station {c : Converter K} {gen : DgpsGenerator K} (h : Knows c gen) {frame : Bytes}
    (hf : rtcm3.IsFrame frame) {m : Msg1005 K} (hm : parse frame = some (.station m)) :
    ∃ c' v, Knows c' (gen.setStation (parseStation m)) ∧ parse v.frame = some (.station m) ∧
      ∀ calls, visits parse c ((.obs, frame) :: calls) = v :: visits parse c' calls := by
  refine ⟨_, ⟨.obs, Upstream.obs.received c frame, frame⟩, knows_after parse (u := .obs) h hf ?_, hm,
    visits_frame (u := .obs) h.obsBuf hf⟩
  obtain ⟨hb, he, ha, hr⟩ := h.tables
  simp only [Upstream.onFrame, Converter.onObsFrame, Converter.parseFrame, hm, Upstream.received]
  exact ⟨rfl, he, ha, hr⟩

theorem visits_observations {c : Converter K} {gen : DgpsGenerator K} (h : Knows c gen) {frame : Bytes}
    (hf : rtcm3.IsFrame frame) {m : Msg1077 K} (hm : parse frame = some (.gpsMsm7 m)) :
    ∃ c' v, Knows c' gen ∧ v.upstream = .obs ∧ v.frame = frame ∧ v.converter.gen = c.gen ∧
      ∀ calls, visits parse c ((.obs, frame) :: calls) = v :: visits parse c' calls := by
  refine ⟨_, ⟨.obs, Upstream.obs.received c frame, frame⟩, knows_after parse (u := .obs) h hf ?_, rfl, rfl, rfl,
    visits_frame (u := .obs) h.obsBuf hf⟩
  obtain ⟨hb, he, ha, hr⟩ := h.tables
  have hg := onObservations_gen (Upstream.obs.received c frame) m
  simp only [Upstream.onFrame, Converter.onObsFrame, Converter.parseFrame, hm]
  exact ⟨hg.base.trans hb, hg.ephemerides.trans he, hg.maxIodAgeS.trans ha, hg.maxResidualM.trans hr⟩

end

/-! ## One satellite -/

/-- A satellite alone is no outlier. -/
theorem epochOf_observedAt {gen : DgpsGenerator ℝ} {base : ℝ × ℝ × ℝ} (hb : gen.base = some base) {prn : Int}
    (he : gen.ephemerides.get? prn = some (parseEphemeris (orbitOf prn))) (ha : gen.maxIodAgeS = 7200)
    (hr : gen.maxResidualM = 100) {ms : Int} {tow : ℝ} (ht : (ms : ℝ) / 1000 = tow) (htow : |tow| ≤ 7199) :
    ∃ c, epochOf gen (observedAt ms prn) = some ⟨base, tow, [c]⟩ ∧ c.prn = prn ∧ c.iod = 0 ∧ c.udre = 0 := by
  obtain ⟨v, hraw⟩ := rawCorrections_observed ha tow htow he base
  have hmed : (gen.offsets tow (.set ∅ prn v)).offset = v :=
    Median.median_const (List.cons_ne_nil v []) fun x hx => List.mem_singleton.mp hx
  have hkept : |v - (gen.offsets tow (.set ∅ prn v)).offset| ≤ gen.maxResidualM := by
    rw [hmed, hr]
    norm_num
  obtain ⟨c, hc⟩ := Option.isSome_iff_exists.mp (emitted_isSome (x := (prn, v)) hkept (he ▸ rfl))
  obtain ⟨eph, heph, -, hprn, hprc, hiod, -⟩ := emitted_eq_some hc
  obtain rfl := Option.some.inj (he.symm.trans heph)
  have hcs : (gen.corrections tow (.set ∅ prn ((86 + 0 + 0) * MS_TO_M))).1 = .ok [c] := by
    rw [corrections_ok hb hraw, show (Dict.set ∅ prn v).sorted = [(prn, v)] from rfl, List.filterMap_cons, hc]
    rfl
  refine ⟨c, epochOf_eq_some.mpr ⟨hb, List.cons_ne_nil _ _, _, parse_observedAt ms ht prn, hcs⟩, hprn, hiod, ?_⟩
  rw [emitted_udre hc, hprc, hmed]
  norm_num [udreIndex]

/-- A generator given both orbits and the station. -/
noncomputable def bothKnown (gen : DgpsGenerator ℝ) : DgpsGenerator ℝ :=
  ((gen.addEphemeris (parseEphemeris (orbitOf 1))).addEphemeris (parseEphemeris (orbitOf 40))).setStation
    (parseStation nearCentre)

def bothFrames : List (Upstream × Bytes) := [(.eph, orbitFrame1), (.eph, orbitFrame40), (.obs, nearCentreFrame)]

section

variable {parse : Bytes → Option (Msg ℝ)}

theorem visits_bothFrames (hp : ∀ call ∈ bothFrames, parse call.2 = parseBoth call.2) (id : StationId) :
    ∃ c' v₁ v₂ v₃, Knows c' (bothKnown (.init 7200 100)) ∧ v₁.upstream = .eph ∧ v₂.upstream = .eph ∧
      parse v₃.frame = some (.station nearCentre : Msg ℝ) ∧
      ∀ calls, visits parse (.new id 7200 100) (bothFrames ++ calls) = v₁ :: v₂ :: v₃ :: visits parse c' calls := by
  have hnew : Knows (.new id 7200 100 : Converter ℝ) (.init 7200 100) := ⟨rfl, rfl, rfl, rfl, rfl, rfl⟩
  obtain ⟨hp₁, hp₂, hp₃, -⟩ : parse orbitFrame1 = _ ∧ parse orbitFrame40 = _ ∧ parse nearCentreFrame = _ ∧ _ := by
    simpa only [bothFrames, List.forall_mem_cons] using hp
  obtain ⟨c₁, v₁, h₁, hu₁, he₁⟩ := visits_ephemeris hnew isFrame_orbitFrame1 (hp₁.trans parseBoth_orbitFrame1)
  obtain ⟨c₂, v₂, h₂, hu₂, he₂⟩ := visits_ephemeris h₁ isFrame_orbitFrame40 (hp₂.trans parseBoth_orbitFrame40)
  obtain ⟨c₃, v₃, h₃, hm₃, he₃⟩ := visits_station h₂ isFrame_nearCentreFrame (hp₃.trans parseBoth_nearCentreFrame)
  refine ⟨c₃, v₁, v₂, v₃, h₃, hu₁, hu₂, hm₃, fun calls => ?_⟩
  rw [bothFrames, List.cons_append, List.cons_append, List.cons_append, he₁, he₂, he₃, List.nil_append]

theorem epochs_bothFrames (hp : ∀ call ∈ bothFrames, parse call.2 = parseBoth call.2) (id : StationId) :
    ∃ c', Knows c' (bothKnown (.init 7200 100)) ∧ ∀ calls, epochs parse (.new id 7200 100) (bothFrames ++ calls) =
      epochs parse c' calls := by
  obtain ⟨c', v₁, v₂, v₃, hc', hu₁, hu₂, hm₃, hvisits⟩ := visits_bothFrames hp id
  refine ⟨c', hc', fun calls => ?_⟩
  have h₁ : v₁.epoch parse = none := by simp only [Visit.epoch, hu₁]
  have h₂ : v₂.epoch parse = none := by simp only [Visit.epoch, hu₂]
  have h₃ : v₃.epoch parse = none := by
    simp only [Visit.epoch, hm₃]
    cases v₃.upstream <;> rfl
  rw [epochs, hvisits]
  simp only [List.filterMap_cons, h₁, h₂, h₃, Option.map_none]
  rfl

variable (ms : Int) (tow : ℝ) {c : Converter ℝ} (h : Knows c (bothKnown (.init 7200 100))) {prn : Int} {frame : Bytes}
  (hf : rtcm3.IsFrame frame) (hm : parse frame = some (.gpsMsm7 (observedAt ms prn) : Msg ℝ))
  (he : (bothKnown (.init 7200 100)).ephemerides.get? prn = some (parseEphemeris (orbitOf prn)))
  (ht : (ms : ℝ) / 1000 = tow) (htow : |tow| ≤ 7199)
include h hf hm he ht htow

/-- The observations of one of the satellites. -/
theorem visits_observedAt :
    ∃ c' v corr, Knows c' (bothKnown (.init 7200 100)) ∧ v.upstream = .obs ∧ v.frame = frame ∧
      epochOf v.converter.gen (observedAt ms prn) = some ⟨(1, 0, 0), tow, [corr]⟩ ∧
      corr.prn = prn ∧ corr.iod = 0 ∧ corr.udre = 0 ∧
      ∀ calls, visits parse c ((.obs, frame) :: calls) = v :: visits parse c' calls := by
  obtain ⟨hb', he', ha', hr'⟩ := h.tables
  obtain ⟨c', v, hc', hu, hv, hg, hvisits⟩ := visits_observations h hf hm
  obtain ⟨corr, hepoch, hprn, hiod, hudre⟩ := epochOf_observedAt hb' (he' ▸ he) ha' hr' ht htow
  exact ⟨c', v, corr, hc', hu, hv, hg ▸ hepoch, hprn, hiod, hudre, hvisits⟩

theorem epochs_observedAt :
    ∃ c' corr published, Knows c' (bothKnown (.init 7200 100)) ∧ corr.prn = prn ∧ corr.iod = 0 ∧ corr.udre = 0 ∧
      ∀ calls, epochs parse c ((.obs, frame) :: calls) =
        (⟨(1, 0, 0), tow, [corr]⟩, published) :: epochs parse c' calls := by
  obtain ⟨c', v, corr, hc', hu, hv, hepoch, hprn, hiod, hudre, hvisits⟩ := visits_observedAt ms tow h hf hm he ht htow
  have hve : v.epoch parse = some ⟨(1, 0, 0), tow, [corr]⟩ :=
    (visit_epoch_eq_some parse).mpr ⟨hu, _, hv ▸ hm, hepoch⟩
  refine ⟨c', corr, v.published parse, hc', hprn, hiod, hudre, fun calls => ?_⟩
  rw [epochs, hvisits, List.filterMap_cons, hve]
  rfl

end

/-- Both satellites' observations are at 100 s. -/
theorem epochs_observedOf {c : Converter ℝ} (h : Knows c (bothKnown (.init 7200 100))) {prn : Int} {frame : Bytes}
    (hf : rtcm3.IsFrame frame) (hm : parseBoth frame = some (.gpsMsm7 (observedOf prn) : Msg ℝ))
    (he : (bothKnown (.init 7200 100)).ephemerides.get? prn = some (parseEphemeris (orbitOf prn))) :
    ∃ c' corr published, Knows c' (bothKnown (.init 7200 100)) ∧ corr.prn = prn ∧ corr.iod = 0 ∧ corr.udre = 0 ∧
      ∀ calls, epochs parseBoth c ((.obs, frame) :: calls) =
        (⟨(1, 0, 0), 100000 / 1000, [corr]⟩, published) :: epochs parseBoth c' calls :=
  epochs_observedAt 100000 (100000 / 1000) h hf hm he (by norm_num) (by norm_num)

theorem placed_nearCentre (tow : ℝ) (cs : List (Correction ℝ)) : Placed ⟨parseStation nearCentre, tow, cs⟩ :=
  ⟨by norm_num [parseStation, nearCentre, CoordOk, counts, ECEF_SCALE, HalfEven.round],
    by norm_num [parseStation, nearCentre, CoordOk, counts, ECEF_SCALE, HalfEven.round],
    by norm_num [parseStation, nearCentre, CoordOk, counts, ECEF_SCALE, HalfEven.round]⟩

theorem fits_singleton {base : ℝ × ℝ × ℝ} {tow : ℝ} {c : Correction ℝ} (hiod : c.iod = 0) (hudre : c.udre = 0) :
    Fits ⟨base, tow, [c]⟩ ↔ 1 ≤ c.prn ∧ c.prn ≤ 32 := by
  constructor
  · exact fun h => (h.1 c (List.mem_singleton.mpr rfl)).1
  · intro h
    refine ⟨fun x hx => ?_, by simp⟩
    rw [List.mem_singleton.mp hx]
    exact ⟨h, by rw [hudre]; decide, by rw [hiod]; decide⟩

theorem type3Recent_self {K : Type} [Field K] [LinearOrder K] [FloorRing K] [IsStrictOrderedRing K] (tow : K) :
    type3Recent (some tow) tow = true := by
  have hweek : (0 : K) < WEEK_S := by norm_num [WEEK_S]
  have hself : elapsed tow tow = 0 := by
    rw [elapsed, sub_self, Double.round_zero]
    exact Double.mod_of_lt (le_refl 0) hweek
  rw [type3Recent, decide_eq_true_iff, hself]
  norm_num [TYPE3_INTERVAL_S]

/-! ## Runs -/

/-- Calls of `feed_obs` and `feed_eph` in any order, on a new converter, the
exceptions swallowed: if the corrections of every epoch are sendable, the
messages on the RTCM 2.3 feed are numbered 1, 2, 3, … modulo 8. -/
theorem seq_consecutive {K : Type} [Field K] [LinearOrder K] [FloorRing K] [PyMath K] [IsStrictOrderedRing K]
    {parse : Bytes → Option (Msg K)} (hp : ∀ frame m, parse frame = some m → MsgOk m) (id : StationId)
    (maxIodAgeS maxResidualM : K) (calls : List (Upstream × Bytes))
    (h : ∀ v ∈ visits parse (.new id maxIodAgeS maxResidualM) calls, ∀ m, v.upstream = .obs →
      parse v.frame = some (.gpsMsm7 m) → Sendable v.converter.gen m) :
    let c := runFeeds parse (.new id maxIodAgeS maxResidualM) calls
    let d := decodeStream false false c.rtcm23Feed.flatten
    d.violations = 0 ∧ d.rest = [] ∧
      d.messages.map Message.seq = (List.range c.rtcm23Feed.length).map fun k => (k + 1) % 8 := by
  intro c d
  have hsent : ∀ e ∈ (epochs parse (.new id maxIodAgeS maxResidualM) calls).map Prod.fst, Placed e ∧ Fits e := by
    intro e he
    obtain ⟨v, hv, hve⟩ := epochs_visits he
    have hs := visits_safe hp calls (safe_new id maxIodAgeS maxResidualM) v hv
    obtain ⟨hu, msg, hm, hepoch⟩ := (visit_epoch_eq_some parse).mp hve
    exact ⟨epoch_placed hs hepoch, (epoch_fits hs (hp _ _ hm) hepoch).mpr (h v hv msg hu hm)⟩
  have hlog := (run_sender parse calls (.new id maxIodAgeS maxResidualM)).log
  obtain ⟨hseqs, -⟩ := run_numbered hsent (s := senderOf (.new id maxIodAgeS maxResidualM)) ⟨false, false, rfl⟩
  have hd : d = _ := decode_feed parse id maxIodAgeS maxResidualM calls
  rw [hd]
  refine ⟨rfl, rfl, ?_⟩
  have hlen := congrArg List.length hlog
  rw [List.length_append, List.length_map] at hlen
  rw [List.map_map, List.length_map] at hseqs
  rw [List.map_map, show c.rtcm23Feed.length = _ from hlen]
  refine hseqs.trans ?_
  simp [senderOf, Converter.new]

/-- The observations of satellite 1. -/
theorem seq_consecutive_one :
    let c : Converter ℝ := runFeeds parseBoth (.new ⟨1023, by decide⟩ 7200 100) (bothFrames ++ [(.obs, observedFrame)])
    let d := decodeStream false false c.rtcm23Feed.flatten
    d.violations = 0 ∧ d.rest = [] ∧
      d.messages.map Message.seq = (List.range c.rtcm23Feed.length).map fun k => (k + 1) % 8 := by
  refine seq_consecutive parseBoth_ok _ _ _ _ fun v hv m hu hm => ?_
  have hs := visits_safe parseBoth_ok _ (safe_new _ 7200 100) v hv
  obtain ⟨c₃, v₁, v₂, v₃, hc₃, hu₁, hu₂, hm₃, hvisits⟩ := visits_bothFrames (fun _ _ => rfl) ⟨1023, by decide⟩
  obtain ⟨c₄, v₄, corr, -, -, hv₄, hepoch, hprn, hiod, hudre, hvisits'⟩ :=
    visits_observedAt 100000 (100000 / 1000) hc₃ isFrame_observedFrame parseBoth_observedFrame rfl (by norm_num)
      (by norm_num)
  rw [hvisits, hvisits', visits] at hv
  simp only [List.mem_cons, List.not_mem_nil, or_false] at hv
  rcases hv with rfl | rfl | rfl | rfl
  · cases hu₁.symm.trans hu
  · cases hu₂.symm.trans hu
  · cases hm₃.symm.trans hm
  · rw [hv₄, parseBoth_observedFrame] at hm
    obtain rfl := Msg.gpsMsm7.inj (Option.some.inj hm)
    refine (epoch_fits hs (observedOf_ok (by decide) (by decide)) hepoch).mp ((fits_singleton hiod hudre).mpr ?_)
    rw [hprn]
    decide

/-- Those of satellite 40 before them: the message that is refused takes number 2. -/
theorem not_seq_consecutive : ¬ ∀ parse : Bytes → Option (Msg ℝ), (∀ frame m, parse frame = some m → MsgOk m) →
    ∀ (id : StationId) (calls : List (Upstream × Bytes)),
      let c := runFeeds parse (.new id 7200 100) calls
      (decodeStream false false c.rtcm23Feed.flatten).messages.map Message.seq =
        (List.range c.rtcm23Feed.length).map fun k => (k + 1) % 8 := by
  intro h
  have hseqs := h parseBoth parseBoth_ok ⟨1023, by decide⟩
    (bothFrames ++ [(.obs, observedFrame40), (.obs, observedFrame)])
  obtain ⟨c₃, hc₃, he₃⟩ := epochs_bothFrames (fun _ _ => rfl) ⟨1023, by decide⟩
  obtain ⟨c₄, corr, p, hc₄, hprn, hiod, hudre, he₄⟩ :=
    epochs_observedOf hc₃ isFrame_observedFrame40 parseBoth_observedFrame40 rfl
  obtain ⟨c₅, corr', p', -, hprn', hiod', hudre', he₅⟩ :=
    epochs_observedOf hc₄ isFrame_observedFrame parseBoth_observedFrame rfl
  have hes : (epochs parseBoth (.new ⟨1023, by decide⟩ 7200 100)
      (bothFrames ++ [(.obs, observedFrame40), (.obs, observedFrame)])).map Prod.fst =
      [⟨(1, 0, 0), 100000 / 1000, [corr]⟩, ⟨(1, 0, 0), 100000 / 1000, [corr']⟩] := by rw [he₃, he₄, he₅]; rfl
  have hfits : Fits ⟨(1, 0, 0), 100000 / 1000, [corr']⟩ := (fits_singleton hiod' hudre').mpr (by rw [hprn']; decide)
  have hsent := run_refused (s := senderOf (.new ⟨1023, by decide⟩ 7200 100)) ⟨false, false, rfl⟩ rfl
    (placed_nearCentre (100000 / 1000) [corr]) (mt (fits_singleton hiod hudre).mp (by rw [hprn]; decide))
    hfits (type3Recent_self (100000 / 1000))
  dsimp only at hseqs
  rw [decode_feed, hes, List.map_map] at hseqs
  have h13 := hsent.symm.trans hseqs
  have hlen := congrArg List.length h13
  rw [List.length_map, List.length_range] at hlen
  rw [← hlen] at h13
  exact absurd h13 (by decide)

end Rtcm.Proof
