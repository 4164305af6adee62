import Rtcm3to2p3.Proof.Feed
import Rtcm3to2p3.Proof.History
import Rtcm3to2p3.Proof.Msm
import Rtcm3to2p3.Proof.Wire
import Rtcm3to2p3.Spec.Input

/-!
# Which inputs raise

Every state of a converter is `Safe`: what it holds can be encoded. So a
handler raises only on observations, and exactly on those that are not
`Convertible` (`onFrame_spec`); and a run returns if and only if all its
observations are (`feeds_return`). The last sections feed a converter
satellites with and without an orbit.
-/

namespace Rtcm.Proof

open Rtcm.Impl Rtcm.Spec

section

variable {K : Type} [Field K]

/-! ## What can be encoded -/

theorem udreIndex_range [LinearOrder K] (prc : K) : 0 ≤ udreIndex prc ∧ udreIndex prc < 4 := by
  unfold udreIndex
  dsimp only
  split_ifs <;> decide

variable [LinearOrder K] [FloorRing K]

/-- Calls that are accepted return, and leave seeds that are bits. -/
theorem encode_ok {call : Call K} (h : Accepts call) (s29 s30 : Bool) :
    ∃ out t29 t30, call.run ⟨s29.toNat, s30.toNat⟩ = (.ok out, ⟨Bool.toNat t29, Bool.toNat t30⟩) := by
  obtain ⟨n, bs, -, hrun⟩ := run_ok ⟨s29.toNat, s30.toNat⟩ h
  obtain ⟨out, t29, t30, he, -⟩ := encodeWords_decode (wordsOf (2 + n) bs) s29 s30
  exact ⟨out, t29, t30, hrun.trans he⟩

theorem modifiedZcount_range (tow : K) : 0 ≤ modifiedZcount tow ∧ modifiedZcount tow < 8192 := by
  unfold modifiedZcount
  omega

/-- The header of every message a converter sends. -/
theorem header_ok (id : StationId) (tow : K) (seq : Nat) :
    HeaderOk id.val (modifiedZcount tow) ((seq + 1) % 8 : Nat) 0 := by
  obtain ⟨h1, h2⟩ := id.property
  refine ⟨⟨by omega, by omega⟩, modifiedZcount_range tow, ⟨by omega, by omega⟩, by decide, by decide⟩

/-- A coordinate of a station message fits a Type 3 message. -/
theorem coordOk_station [IsStrictOrderedRing K] {n : ℤ} (hl : -2 ^ 37 ≤ n) (hu : n < 2 ^ 37) :
    CoordOk ((n : K) / 10000) := by
  have hl' : (-2 ^ 37 : K) ≤ n := by exact_mod_cast hl
  have hu' : (n : K) < 2 ^ 37 := by exact_mod_cast hu
  have hx : (n : K) / 10000 / ECEF_SCALE K = n / 100 := by
    rw [ECEF_SCALE, div_div]
    norm_num
  rw [CoordOk, counts, hx]
  refine ⟨HalfEven.le_round ?_, HalfEven.round_le ?_⟩
  · push_cast
    linarith
  · push_cast
    linarith

/-! ## Safe states -/

/-- What the converter holds can be encoded. -/
structure Safe (c : Converter K) : Prop where
  seeds : ∃ s29 s30 : Bool, c.encoder = ⟨s29.toNat, s30.toNat⟩
  base : ∀ base, c.gen.base = some base → CoordOk base.1 ∧ CoordOk base.2.1 ∧ CoordOk base.2.2
  ephemerides : ∀ prn eph, c.gen.ephemerides.get? prn = some eph →
    |eph.ecc| ≤ 1 ∧ 0 ≤ eph.iode ∧ eph.iode < 256

omit [FloorRing K] in
/-- Corrections that are returned: their records are accepted if their PRNs
are, and as many as the raw corrections that are not outliers. -/
theorem corrections_records {gen : DgpsGenerator K} {base : K × K × K} {tow : K} {pseudoranges raw : Dict Int K}
    [PyMath K] (hb : gen.base = some base) (hr : gen.rawCorrections base tow pseudoranges = .ok raw)
    (he : ∀ prn eph, gen.ephemerides.get? prn = some eph → 0 ≤ eph.iode ∧ eph.iode < 256)
    (hp : ∀ prn pr, pseudoranges.get? prn = some pr → 1 ≤ prn) :
    ∃ out, (gen.corrections tow pseudoranges).1 = .ok out ∧
      ((∀ c ∈ out, RecordOk c) ↔ ∀ prn v, raw.get? prn = some v →
        |v - Median.median raw.values| ≤ gen.maxResidualM → prn ≤ 32) ∧
      out.length = raw.values.countP fun v => |v - Median.median raw.values| ≤ gen.maxResidualM := by
  have hsel : ∀ prn v, raw.get? prn = some v → (gen.ephemerides.get? prn).isSome ∧ 1 ≤ prn := by
    intro prn v hv
    obtain ⟨pr, eph, hs, -⟩ := (rawCorrections_ok hr prn v).mp hv
    exact ⟨hs.known ▸ rfl, hp prn pr hs.observed⟩
  refine ⟨_, by rw [corrections_ok hb hr], ⟨fun h prn v hv hk => ?_, fun h c hc => ?_⟩, ?_⟩
  · obtain ⟨c, hc⟩ := Option.isSome_iff_exists.mp
      (emitted_isSome (o := gen.offsets tow raw) (x := (prn, v)) hk (hsel prn v hv).1)
    obtain ⟨-, -, -, hprn, -⟩ := emitted_eq_some hc
    have := (h c (List.mem_filterMap.mpr ⟨(prn, v), Dict.mem_sorted.mpr hv, hc⟩)).1.2
    rwa [hprn] at this
  · obtain ⟨⟨prn, v⟩, hx, hc⟩ := List.mem_filterMap.mp hc
    have hv := Dict.mem_sorted.mp hx
    obtain ⟨eph, hk, hkept, hprn, -, hiod, -⟩ := emitted_eq_some hc
    exact ⟨⟨hprn ▸ (hsel prn v hv).2, hprn ▸ h prn v hv hkept⟩, emitted_udre hc ▸ udreIndex_range c.prc,
      hiod ▸ he prn eph hk⟩
  · rw [List.length_filterMap_eq_countP, raw.sorted_perm.countP_eq, Dict.values, List.countP_map]
    refine List.countP_congr fun x hx => ?_
    simp only [Function.comp_apply, decide_eq_true_eq]
    constructor
    · intro hs
      obtain ⟨c, hc⟩ := Option.isSome_iff_exists.mp hs
      obtain ⟨-, -, hkept, -⟩ := emitted_eq_some hc
      exact hkept
    · exact fun hk => emitted_isSome hk (hsel x.1 x.2 (Dict.mem_items.mp hx)).1

/-- The Type 3 message is never refused. -/
theorem maybeEmitType3_safe {c : Converter K} (h : Safe c) (tow : K) :
    ∃ c', c.maybeEmitType3 tow (modifiedZcount tow) = (.ok (), c') ∧ Safe c' := by
  unfold Converter.maybeEmitType3
  cases hb : c.gen.base with
  | none => exact ⟨c, rfl, h⟩
  | some base =>
    dsimp only
    split
    · exact ⟨c, rfl, h⟩
    · obtain ⟨s29, s30, hs⟩ := h.seeds
      have ha : Accepts (.type3 c.stationId.val (modifiedZcount tow) ((c.seq + 1) % 8 : Nat) 0 base) :=
        ⟨header_ok c.stationId tow c.seq, h.base base hb⟩
      obtain ⟨out, t29, t30, he⟩ := encode_ok ha s29 s30
      simp only [Converter.nextSeq, hs]
      simp only [Call.run] at he
      rw [he]
      exact ⟨_, rfl, ⟨⟨t29, t30, rfl⟩, fun b hb' => h.base b (hb ▸ hb'), h.ephemerides⟩⟩

variable [PyMath K]

omit [FloorRing K] in
theorem convertible_iff {gen : DgpsGenerator K} {m : Msg1077 K} {tow : K} {pseudoranges : Dict Int K}
    (h : parseGpsMsm7 m = .ok (tow, pseudoranges)) : Convertible gen m ↔
      (∀ prn u, useOf gen tow pseudoranges prn = some u → u.eph.sqrtA ≠ 0) ∧
      ∀ base raw, gen.base = some base → gen.rawCorrections base tow pseudoranges = .ok raw →
        (∀ prn v, raw.get? prn = some v → |v - Median.median raw.values| ≤ gen.maxResidualM → prn ≤ 32) ∧
        raw.values.countP (fun v => |v - Median.median raw.values| ≤ gen.maxResidualM) ≤ 18 := by
  refine ⟨fun hc => ⟨hc.orbits _ _ h, fun base raw => hc.sendable _ _ base raw h⟩, fun hc => ⟨?_, ?_, ?_⟩⟩
  · by_contra hr
    obtain ⟨e, he⟩ := parse_unreadable hr
    cases h.symm.trans he
  · intro tow' prs' h'
    obtain ⟨rfl, rfl⟩ := Prod.mk.injEq .. ▸ Except.ok.inj (h.symm.trans h')
    exact hc.1
  · intro tow' prs' base raw h'
    obtain ⟨rfl, rfl⟩ := Prod.mk.injEq .. ▸ Except.ok.inj (h.symm.trans h')
    exact hc.2 base raw

omit [PyMath K] in
/-- A state that holds the same encoder, or another with bits for seeds, and
the same station and table. -/
theorem Safe.congr {c c' : Converter K} (h : Safe c) (hs : ∃ s29 s30 : Bool, c'.encoder = ⟨s29.toNat, s30.toNat⟩)
    (hb : c'.gen.base = c.gen.base) (he : c'.gen.ephemerides = c.gen.ephemerides) : Safe c' :=
  ⟨hs, hb ▸ h.base, he ▸ h.ephemerides⟩

omit [PyMath K] in
theorem safe_new (id : StationId) (maxIodAgeS maxResidualM : K) : Safe (.new id maxIodAgeS maxResidualM) :=
  ⟨⟨false, false, rfl⟩, (fun _ h => nomatch h), (fun _ _ h => nomatch h)⟩

variable [IsStrictOrderedRing K]

omit [FloorRing K] in
/-- The first loop returns if and only if every accepted satellite has an orbit. -/
theorem rawCorrections_returns {gen : DgpsGenerator K} {base : K × K × K} {tow : K} {pseudoranges : Dict Int K}
    (hb : gen.base = some base) (he : ∀ prn eph, gen.ephemerides.get? prn = some eph → |eph.ecc| ≤ 1) :
    (∃ raw, gen.rawCorrections base tow pseudoranges = .ok raw) ↔
      ∀ prn u, useOf gen tow pseudoranges prn = some u → u.eph.sqrtA ≠ 0 := by
  constructor
  · rintro ⟨raw, hr⟩ prn u hu hs
    obtain ⟨v, hv, -⟩ := raw_useOf hb hr hu
    obtain ⟨e, herr⟩ := rawCorrection_error (.inl hs) u.base u.tow u.pr
    cases hv.symm.trans herr
  · intro h
    cases hr : gen.rawCorrections base tow pseudoranges with
    | ok raw => exact ⟨raw, rfl⟩
    | error e =>
      obtain ⟨prn, pr, eph, hs, e', herr⟩ := (rawCorrections_error_iff gen base tow pseudoranges).mp ⟨e, hr⟩
      have hne := h prn ⟨base, tow, pr, eph⟩ (useOf_eq_some.mpr ⟨hb, rfl, hs⟩)
      obtain ⟨v, hv⟩ := rawCorrection_ok hne (he prn eph hs.known) base tow pr
      cases hv.symm.trans herr

omit [FloorRing K] in
/-- Observations are convertible if and only if the corrections they give can
be sent. -/
theorem convertible_iff_records {gen : DgpsGenerator K} {m : Msg1077 K} {base : K × K × K} {tow : K}
    {pseudoranges raw : Dict Int K} (hparse : parseGpsMsm7 m = .ok (tow, pseudoranges)) (hb : gen.base = some base)
    (hr : gen.rawCorrections base tow pseudoranges = .ok raw)
    (he : ∀ prn eph, gen.ephemerides.get? prn = some eph → |eph.ecc| ≤ 1 ∧ 0 ≤ eph.iode ∧ eph.iode < 256)
    (hp : ∀ prn pr, pseudoranges.get? prn = some pr → 1 ≤ prn) :
    ∃ out, (gen.corrections tow pseudoranges).1 = .ok out ∧
      (Convertible gen m ↔ (∀ c ∈ out, RecordOk c) ∧ out.length ≤ 18) := by
  obtain ⟨out, hout, hrec, hlen⟩ := corrections_records hb hr (fun prn eph h => (he prn eph h).2) hp
  refine ⟨out, hout, ?_⟩
  rw [convertible_iff hparse, hrec, hlen]
  refine ⟨fun hc => hc.2 base raw hb hr, fun hc => ⟨?_, fun base' raw' hb' hr' => ?_⟩⟩
  · exact (rawCorrections_returns hb fun prn eph h => (he prn eph h).1).mp ⟨raw, hr⟩
  · obtain rfl := Option.some.inj (hb.symm.trans hb')
    obtain rfl := Except.ok.inj (hr.symm.trans hr')
    exact hc

omit [PyMath K] [IsStrictOrderedRing K] in
/-- A Type 1 message is sent if and only if its records are accepted. -/
theorem encodeType1_safe {c : Converter K} (h : Safe c) (tow : K) (out : List (Correction K)) :
    ((∀ x ∈ out, RecordOk x) ∧ out.length ≤ 18 →
      ∃ bytes t29 t30, c.encoder.encodeType1 c.stationId.val (modifiedZcount tow) ((c.seq + 1) % 8 : Nat) 0 out =
        (.ok bytes, ⟨Bool.toNat t29, Bool.toNat t30⟩)) ∧
    (¬ ((∀ x ∈ out, RecordOk x) ∧ out.length ≤ 18) →
      ∃ e, c.encoder.encodeType1 c.stationId.val (modifiedZcount tow) ((c.seq + 1) % 8 : Nat) 0 out =
        (.error e, c.encoder)) := by
  obtain ⟨s29, s30, hs⟩ := h.seeds
  rw [hs]
  have hheader := header_ok c.stationId tow c.seq
  constructor
  · intro hc
    have ha : Accepts (.type1 c.stationId.val (modifiedZcount tow) ((c.seq + 1) % 8 : Nat) 0 out) :=
      ⟨hheader, hc.1, hc.2⟩
    exact encode_ok ha s29 s30
  · intro hn
    have ha : ¬ Accepts (.type1 c.stationId.val (modifiedZcount tow) ((c.seq + 1) % 8 : Nat) 0 out) :=
      fun ha => hn ⟨ha.2.1, ha.2.2⟩
    obtain ⟨msg, he⟩ := run_error ⟨s29.toNat, s30.toNat⟩ ha
    exact ⟨_, he⟩

/-- Observations return, and leave a safe state, if and only if they are convertible. -/
theorem onObservations_spec {c : Converter K} (h : Safe c) {m : Msg1077 K} (hm : ObservationsOk m) :
    (Convertible c.gen m → ∃ c', c.onObservations m = (.ok (), c') ∧ Safe c') ∧
      (¬ Convertible c.gen m → ∃ e c', c.onObservations m = (.error e, c')) := by
  unfold Converter.onObservations
  by_cases hread : Readable m
  swap
  · obtain ⟨e, he⟩ := parse_unreadable hread
    rw [he]
    exact ⟨fun hc => absurd hc.readable hread, fun _ => ⟨e, c, rfl⟩⟩
  obtain ⟨prs, hparse, hprn⟩ := parse_readable hm.attributes hread
  generalize (m.DF004 : K) / 1000 = tow at hparse
  rw [hparse]
  dsimp only
  cases hb : c.gen.base with
  | none =>
    rw [corrections_base_none hb]
    refine ⟨fun _ => ⟨c, rfl, h⟩, fun hn => absurd ?_ hn⟩
    refine (convertible_iff hparse).mpr ⟨fun prn u hu => ?_, fun _ _ hb' => by cases hb.symm.trans hb'⟩
    rw [useOf, hb] at hu
    cases hu
  | some base =>
    cases hr : c.gen.rawCorrections base tow prs with
    | error e =>
      rw [corrections_error hb hr]
      refine ⟨fun hc => ?_, fun _ => ⟨e, c, rfl⟩⟩
      obtain ⟨raw, hraw⟩ := (rawCorrections_returns hb fun prn eph he => (h.ephemerides prn eph he).1).mpr
        ((convertible_iff hparse).mp hc).1
      cases hr.symm.trans hraw
    | ok raw =>
      obtain ⟨out, hout, hiff⟩ := convertible_iff_records hparse hb hr h.ephemerides fun prn pr hp =>
        (hm.satellites.2 prn (hprn prn pr hp)).1
      rw [hiff]
      obtain ⟨hbase, htable, -⟩ := corrections_base c.gen tow prs
      rcases hg : c.gen.corrections tow prs with ⟨res, gen'⟩
      rw [hg] at hout hbase htable
      obtain rfl : res = .ok out := hout
      dsimp only
      cases hempty : out.isEmpty with
      | true =>
        rw [List.isEmpty_iff.mp hempty]
        refine ⟨fun _ => ⟨_, rfl, h.congr h.seeds hbase htable⟩, fun hn => absurd ?_ hn⟩
        exact ⟨fun x hx => absurd hx List.not_mem_nil, Nat.zero_le 18⟩
      | false =>
        have hsafe : Safe { c with gen := gen' } := h.congr h.seeds hbase htable
        obtain ⟨c', hc', hsafe'⟩ := maybeEmitType3_safe hsafe tow
        obtain ⟨hok, herr⟩ := encodeType1_safe hsafe' tow out
        simp only [Bool.false_eq_true, if_false, Converter.send, hc', Converter.nextSeq]
        refine ⟨fun hc => ?_, fun hn => ?_⟩
        · obtain ⟨bytes, t29, t30, he⟩ := hok hc
          rw [he]
          exact ⟨_, rfl, hsafe'.congr ⟨t29, t30, rfl⟩ rfl rfl⟩
        · obtain ⟨e, he⟩ := herr hn
          rw [he]
          exact ⟨_, _, rfl⟩

/-! ## Runs -/

omit [PyMath K] in
theorem safe_station {c : Converter K} (h : Safe c) {m : Msg1005 K} (hm : StationOk m) :
    Safe { c with gen := c.gen.setStation (parseStation m) } := by
  refine ⟨h.seeds, fun base hb => ?_, h.ephemerides⟩
  obtain rfl := Option.some.inj hb
  have hcoord : ∀ x ∈ [m.DF025, m.DF026, m.DF027], CoordOk x := fun x hx => by
    obtain ⟨n, hl, hu, rfl⟩ := hm x hx
    exact coordOk_station hl hu
  exact ⟨hcoord _ (by simp [parseStation]), hcoord _ (by simp [parseStation]), hcoord _ (by simp [parseStation])⟩

theorem safe_ephemeris {c : Converter K} (h : Safe c) {m : Msg1019 K} (hm : EphemerisOk m) :
    Safe { c with gen := c.gen.addEphemeris (parseEphemeris m) } := by
  refine ⟨h.seeds, h.base, Dict.forall_get?_set h.ephemerides ⟨?_, hm.iode⟩⟩
  obtain ⟨h0, h1⟩ := hm.ecc
  change |m.DF090| ≤ 1
  rw [abs_of_nonneg h0]
  exact h1.le.trans (by norm_num)

variable {parse : Bytes → Option (Msg K)} (hp : ∀ frame m, parse frame = some m → MsgOk m)
include hp

/-- A handler returns, and leaves a safe state, unless it is given observations
that are not convertible. -/
theorem onFrame_spec (u : Upstream) {c : Converter K} (h : Safe c) (frame : Bytes) :
    ((∀ m, u = .obs → parse frame = some (.gpsMsm7 m) → Convertible c.gen m) →
      ∃ c', u.onFrame parse c frame = (.ok (), c') ∧ Safe c') ∧
    (¬ (∀ m, u = .obs → parse frame = some (.gpsMsm7 m) → Convertible c.gen m) →
      ∃ e c', u.onFrame parse c frame = (.error e, c')) := by
  have hreturns : (∀ m, u = .obs → parse frame ≠ some (.gpsMsm7 m)) →
      ∃ c', u.onFrame parse c frame = (.ok (), c') ∧ Safe c' := by
    intro hno
    have hstep := frame_step parse u c frame
    generalize u.onFrame parse c frame = result at hstep
    cases hstep with
    | unparsed => exact ⟨_, rfl, h.congr h.seeds rfl rfl⟩
    | station m hm => exact ⟨_, rfl, safe_station h (hp frame _ hm)⟩
    | observations m hm => exact absurd hm (hno m rfl)
    | ephemeris m hm => exact ⟨_, rfl, safe_ephemeris h (hp frame _ hm)⟩
    | ignored => exact ⟨_, rfl, h⟩
  by_cases hm : ∃ m, u = .obs ∧ parse frame = some (.gpsMsm7 m)
  · obtain ⟨m, rfl, hm⟩ := hm
    obtain ⟨hok, herr⟩ := onObservations_spec h (hp frame _ hm)
    have hframe : Upstream.obs.onFrame parse c frame = c.onObservations m := by
      simp only [Upstream.onFrame, Converter.onObsFrame, Converter.parseFrame, hm]
    rw [hframe]
    refine ⟨fun hc => hok (hc m rfl hm), fun hn => herr fun hc => hn fun m' _ hm' => ?_⟩
    obtain rfl : m = m' := Msg.gpsMsm7.inj (Option.some.inj (hm.symm.trans hm'))
    exact hc
  · have hno : ∀ m, u = .obs → parse frame ≠ some (.gpsMsm7 m) := fun m hu hm' => hm ⟨m, hu, hm'⟩
    exact ⟨fun _ => hreturns hno, fun hn => absurd (fun m hu hm' => absurd hm' (hno m hu)) hn⟩

theorem forFrames_spec (u : Upstream) {c : Converter K} (h : Safe c) (frames : List Bytes) :
    (FramesConvertible parse u c frames → ∃ c', forFrames (u.onFrame parse) c frames = (.ok (), c') ∧ Safe c') ∧
    (¬ FramesConvertible parse u c frames → ∃ e c', forFrames (u.onFrame parse) c frames = (.error e, c')) := by
  induction frames generalizing c with
  | nil => exact ⟨fun _ => ⟨c, rfl, h⟩, fun hn => absurd trivial hn⟩
  | cons frame frames ih =>
    obtain ⟨hok, herr⟩ := onFrame_spec hp u h frame
    rw [FramesConvertible, forFrames]
    by_cases hc : ∀ m, u = .obs → parse frame = some (.gpsMsm7 m) → Convertible c.gen m
    · obtain ⟨c', he, h'⟩ := hok hc
      obtain ⟨ih1, ih2⟩ := ih h'
      rw [he]
      exact ⟨fun hf => ih1 hf.2, fun hn => ih2 fun hf => hn ⟨hc, hf⟩⟩
    · obtain ⟨e, c', he⟩ := herr hc
      rw [he]
      exact ⟨fun hf => absurd hf.1 hc, fun _ => ⟨e, c', rfl⟩⟩

theorem feeds_safe (calls : List (Upstream × Bytes)) {c : Converter K} (h : Safe c) :
    Returns parse c calls ↔ AllConvertible parse c calls := by
  induction calls generalizing c with
  | nil => exact Iff.rfl
  | cons call calls ih =>
    obtain ⟨u, data⟩ := call
    have hrec : Safe (u.received c data) := by cases u <;> exact h.congr h.seeds rfl rfl
    obtain ⟨hok, herr⟩ := forFrames_spec hp u hrec (extractRtcm3Frames (u.buf c ++ data)).1
    rw [Returns, AllConvertible, feed_eq]
    by_cases hc : FramesConvertible parse u (u.received c data) (extractRtcm3Frames (u.buf c ++ data)).1
    · obtain ⟨c', he, h'⟩ := hok hc
      rw [he, ih h']
      exact ⟨fun hf => ⟨hc, hf.2⟩, fun hf => ⟨rfl, hf.2⟩⟩
    · obtain ⟨e, c', he⟩ := herr hc
      rw [he]
      exact ⟨(fun hf => nomatch hf.1), fun hf => absurd hf.1 hc⟩

end

/-! ## Calls with one frame -/

section

variable {K : Type} [Field K] [LinearOrder K] [FloorRing K] [PyMath K] {parse : Bytes → Option (Msg K)}

theorem feed_ephemeris {c : Converter K} (hb : c.ephBuf = []) {frame : Bytes} (hf : rtcm3.IsFrame frame)
    {m : Msg1019 K} (hm : parse frame = some (.gpsEphemeris m)) : Upstream.eph.feed parse c frame =
      (.ok (), { c with gen := c.gen.addEphemeris (parseEphemeris m), ephBuf := [] }) := by
  rw [feed_frame parse .eph hb hf]
  simp only [Upstream.onFrame, Converter.onEphFrame, Converter.parseFrame, hm, Upstream.received, hb, List.nil_append,
    extract_frame hf]

theorem feed_station {c : Converter K} (hb : c.obsBuf = []) {frame : Bytes} (hf : rtcm3.IsFrame frame)
    {m : Msg1005 K} (hm : parse frame = some (.station m)) : Upstream.obs.feed parse c frame =
      (.ok (), { c with
        rtcm3Feed := publish c.rtcm3Feed frame
        gen := c.gen.setStation (parseStation m)
        obsBuf := [] }) := by
  rw [feed_frame parse .obs hb hf]
  simp only [Upstream.onFrame, Converter.onObsFrame, Converter.parseFrame, hm, Upstream.received, hb, List.nil_append,
    extract_frame hf]

/-- A call of `feed_eph` has no observations. -/
theorem framesConvertible_eph (c : Converter K) (frames : List Bytes) : FramesConvertible parse .eph c frames := by
  induction frames generalizing c with
  | nil => exact trivial
  | cons frame frames ih => exact ⟨(fun _ hu => by cases hu), ih _⟩

theorem framesConvertible_frame {c : Converter K} {frame : Bytes} {msg : Msg K} (hm : parse frame = some msg)
    (h : ∀ m, msg = .gpsMsm7 m → Convertible c.gen m) : FramesConvertible parse .obs c [frame] :=
  ⟨fun m _ hm' => h m (Option.some.inj (hm.symm.trans hm')), trivial⟩

end

/-! ## Frames of the satellites and the station -/

theorem isFrame_noOrbitFrame : rtcm3.IsFrame noOrbitFrame :=
  ⟨by decide, (fun _ h => Option.some.inj h ▸ rfl), rfl⟩

theorem isFrame_nearCentreFrame : rtcm3.IsFrame nearCentreFrame :=
  ⟨by decide, (fun _ h => Option.some.inj h ▸ rfl), rfl⟩

theorem isFrame_observedFrame : rtcm3.IsFrame observedFrame :=
  ⟨by decide, (fun _ h => Option.some.inj h ▸ rfl), rfl⟩

theorem isFrame_orbitFrame1 : rtcm3.IsFrame orbitFrame1 :=
  ⟨by decide, (fun _ h => Option.some.inj h ▸ rfl), rfl⟩

theorem isFrame_orbitFrame40 : rtcm3.IsFrame orbitFrame40 :=
  ⟨by decide, (fun _ h => Option.some.inj h ▸ rfl), rfl⟩

theorem isFrame_observedFrame40 : rtcm3.IsFrame observedFrame40 :=
  ⟨by decide, (fun _ h => Option.some.inj h ▸ rfl), rfl⟩

section

variable {K : Type} [Field K]

theorem parseThree_noOrbitFrame : parseThree noOrbitFrame = some (.gpsEphemeris noOrbit : Msg K) := if_pos rfl

theorem parseThree_nearCentreFrame : parseThree nearCentreFrame = some (.station nearCentre : Msg K) := by
  rw [parseThree, if_neg (by decide), if_pos rfl]

theorem parseThree_observedFrame : parseThree observedFrame = some (.gpsMsm7 observed : Msg K) := by
  rw [parseThree, if_neg (by decide), if_neg (by decide), if_pos rfl]

theorem parseBoth_orbitFrame1 : parseBoth orbitFrame1 = some (.gpsEphemeris (orbitOf 1) : Msg K) := if_pos rfl

theorem parseBoth_orbitFrame40 : parseBoth orbitFrame40 = some (.gpsEphemeris (orbitOf 40) : Msg K) := by
  rw [parseBoth, if_neg (by decide), if_pos rfl]

theorem parseBoth_nearCentreFrame : parseBoth nearCentreFrame = some (.station nearCentre : Msg K) := by
  rw [parseBoth, if_neg (by decide), if_neg (by decide), if_pos rfl]

theorem parseBoth_observedFrame : parseBoth observedFrame = some (.gpsMsm7 (observedOf 1) : Msg K) := by
  rw [parseBoth, if_neg (by decide), if_neg (by decide), if_neg (by decide), if_pos rfl]

theorem parseBoth_observedFrame40 : parseBoth observedFrame40 = some (.gpsMsm7 (observedOf 40) : Msg K) := by
  rw [parseBoth, if_neg (by decide), if_neg (by decide), if_neg (by decide), if_neg (by decide), if_pos rfl]

end

theorem noOrbit_ok : EphemerisOk (noOrbit : Msg1019 ℝ) :=
  ⟨by decide, by decide, ⟨0, by decide, by norm_num [noOrbit]⟩, by norm_num [noOrbit], by norm_num [noOrbit]⟩

theorem orbitOf_ok {prn : Int} (h0 : 0 ≤ prn) (h : prn < 2 ^ 6) : EphemerisOk (orbitOf prn : Msg1019 ℝ) :=
  ⟨⟨h0, h⟩, noOrbit_ok.iode, ⟨5153 * 2 ^ 19, by decide, by norm_num [orbitOf]⟩, noOrbit_ok.ecc⟩

theorem nearCentre_ok : StationOk (nearCentre : Msg1005 ℝ) := by
  intro x hx
  simp only [nearCentre, List.mem_cons, List.not_mem_nil, or_false, or_self] at hx
  rcases hx with rfl | rfl
  · exact ⟨10000, by decide, by decide, by norm_num⟩
  · exact ⟨0, by decide, by decide, by norm_num⟩

theorem observedOf_ok {prn : Int} (h1 : 1 ≤ prn) (h : prn ≤ 63) : ObservationsOk (observedOf prn : Msg1077 ℝ) := by
  have htow : 0 ≤ (observed : Msg1077 ℝ).DF004 ∧ (observed : Msg1077 ℝ).DF004 < 2 ^ 30 := by decide
  have hrange : ∀ ms ∈ (observed : Msg1077 ℝ).DF397, 0 ≤ ms ∧ ms < 2 ^ 8 := by decide
  refine ⟨htow, ⟨List.nodup_singleton _, fun p hp => ?_⟩, hrange, ⟨rfl, rfl⟩, rfl, rfl⟩
  obtain rfl : p = prn := Option.some.inj (List.mem_singleton.mp hp)
  exact ⟨h1, h⟩

theorem parseThree_ok (frame : Bytes) (m : Msg ℝ) (h : parseThree frame = some m) : MsgOk m := by
  unfold parseThree at h
  split_ifs at h
  all_goals obtain rfl := Option.some.inj h
  · exact noOrbit_ok
  · exact nearCentre_ok
  · exact observedOf_ok (show (1 : Int) ≤ 1 by decide) (by decide)

theorem parseBoth_ok (frame : Bytes) (m : Msg ℝ) (h : parseBoth frame = some m) : MsgOk m := by
  unfold parseBoth at h
  split_ifs at h
  all_goals obtain rfl := Option.some.inj h
  · exact orbitOf_ok (by decide) (by decide)
  · exact orbitOf_ok (by decide) (by decide)
  · exact nearCentre_ok
  · exact observedOf_ok (by decide) (by decide)
  · exact observedOf_ok (by decide) (by decide)

/-! ## Observations of one satellite -/

theorem parse_noOrbit : parseEphemeris (noOrbit : Msg1019 ℝ) = circular 1 0 0 0 0 := by
  simp only [parseEphemeris, noOrbit, zero_mul, circular]

theorem parse_orbitOf (prn : Int) : parseEphemeris (orbitOf prn : Msg1019 ℝ) = circular prn 5153.0 0 0 0 := by
  simp only [parseEphemeris, orbitOf, noOrbit, zero_mul, circular]

theorem parse_observedAt (ms : Int) {tow : ℝ} (ht : (ms : ℝ) / 1000 = tow) (prn : Int) :
    parseGpsMsm7 (observedAt ms prn : Msg1077 ℝ) = .ok (tow, .set ∅ prn ((86 + 0 + 0) * MS_TO_M)) := by
  have hrough : roughSat (observedAt ms prn : Msg1077 ℝ) ∅ 1 = .ok (.set ∅ prn (86 + 0)) := by
    simp [roughSat, observedAt, observedOf, observed, getattr, int, bind_ok]
  have hcell : cellRange (observedAt ms prn : Msg1077 ℝ) (.set ∅ prn (86 + 0)) ∅ 1 =
      .ok (.set ∅ prn ((86 + 0 + 0) * MS_TO_M)) := by
    simp [cellRange, observedAt, observedOf, observed, getattr, int, L1CA, bind_ok, Dict.get?_set_self]
    rfl
  have hsat : (observedAt ms prn : Msg1077 ℝ).DF397.length = 1 := rfl
  have hcells : (observedAt ms prn : Msg1077 ℝ).DF405.length = 1 := rfl
  simp only [parseGpsMsm7, hsat, hcells, List.range'_one, List.foldlM_cons, List.foldlM_nil, hrough, hcell, bind_ok,
    pure_bind]
  rw [← ht]
  rfl

theorem parse_observedOf (prn : Int) :
    parseGpsMsm7 (observedOf prn : Msg1077 ℝ) = .ok (100000 / 1000, .set ∅ prn ((86 + 0 + 0) * MS_TO_M)) :=
  parse_observedAt 100000 (by norm_num) prn

theorem fit_observed {tow : ℝ} (htow : |tow| ≤ 7199) (prn : Int) (sqrtA : ℝ) :
    Fit 7200 tow ((86 + 0 + 0) * MS_TO_M) (circular prn sqrtA 0 0 0) := by
  refine fit_circular ?_ ?_ (by rwa [sub_zero]) ..
  · norm_num [MS_TO_M, C]
  · norm_num [MS_TO_M, C]

section

variable {gen : DgpsGenerator ℝ} {prn : Int} (ha : gen.maxIodAgeS = 7200)

include ha in
theorem rawCorrections_observed (tow : ℝ) (htow : |tow| ≤ 7199)
    (he : gen.ephemerides.get? prn = some (parseEphemeris (orbitOf prn))) (base : ℝ × ℝ × ℝ) :
    ∃ v, gen.rawCorrections base tow (.set ∅ prn ((86 + 0 + 0) * MS_TO_M)) = .ok (.set ∅ prn v) := by
  have hsqrtA : (parseEphemeris (orbitOf prn) : Ephemeris ℝ).sqrtA ≠ 0 := by rw [parse_orbitOf]; norm_num [circular]
  have hecc : |(parseEphemeris (orbitOf prn) : Ephemeris ℝ).ecc| ≤ 1 := by rw [parse_orbitOf]; norm_num [circular]
  have hfit : Fit 7200 tow ((86 + 0 + 0) * MS_TO_M) (parseEphemeris (orbitOf prn)) := by
    rw [parse_orbitOf]
    exact fit_observed htow ..
  obtain ⟨v, hv⟩ := rawCorrection_ok hsqrtA hecc base tow ((86 + 0 + 0) * MS_TO_M)
  refine ⟨v, ?_⟩
  rw [DgpsGenerator.rawCorrections]
  change List.foldlM _ _ [(prn, (86 + 0 + 0) * MS_TO_M)] = _
  simp only [List.foldlM_cons, List.foldlM_nil, he, selectSat_fit (ha ▸ hfit), hv]
  rfl

include ha in
theorem convertible_observedOf (hp : prn ≤ 32)
    (he : ∀ p eph, gen.ephemerides.get? p = some eph → eph = parseEphemeris (orbitOf p))
    (hknown : (gen.ephemerides.get? prn).isSome) {base : ℝ × ℝ × ℝ} (hb : gen.base = some base) :
    Convertible gen (observedOf prn) := by
  obtain ⟨eph, heph⟩ := Option.isSome_iff_exists.mp hknown
  obtain ⟨v, hv⟩ := rawCorrections_observed ha (100000 / 1000) (by norm_num) (he prn eph heph ▸ heph) base
  have hecc : ∀ p eph, gen.ephemerides.get? p = some eph → |eph.ecc| ≤ 1 := fun p eph h => by
    rw [he p eph h, parse_orbitOf]
    norm_num [circular]
  refine (convertible_iff (parse_observedOf prn)).mpr ⟨(rawCorrections_returns hb hecc).mp ⟨_, hv⟩, ?_⟩
  intro base' raw hb' hraw
  obtain rfl := Option.some.inj (hb.symm.trans hb')
  obtain rfl := Except.ok.inj (hv.symm.trans hraw)
  refine ⟨fun p w hw _ => ?_, List.countP_le_length.trans (show 1 ≤ 18 by decide)⟩
  exact Dict.forall_get?_set (P := fun p _ => p ≤ 32) Dict.forall_get?_empty hp p w hw

/-- The orbit is needed, and there is none. -/
theorem onFrame_observedFrame {c : Converter ℝ} {base : ℝ × ℝ × ℝ} (hb : c.gen.base = some base)
    (he : c.gen.ephemerides.get? 1 = some (parseEphemeris noOrbit)) (hm : c.gen.maxIodAgeS = 7200) :
    ∃ e, Upstream.obs.onFrame parseThree c observedFrame = (.error e, c) := by
  have hf : Fit 7200 (100000 / 1000 : ℝ) ((86 + 0 + 0) * MS_TO_M) (parseEphemeris noOrbit) := by
    rw [parse_noOrbit]
    exact fit_observed (by norm_num) ..
  obtain ⟨e, hr⟩ := (rawCorrections_error_iff c.gen base (100000 / 1000) (.set ∅ 1 ((86 + 0 + 0) * MS_TO_M))).mpr
    ⟨1, _, _, ⟨Dict.get?_set_self .., he, hm ▸ hf⟩, rawCorrection_error (.inl rfl) base _ _⟩
  refine ⟨e, ?_⟩
  have hparse : parseGpsMsm7 (observed : Msg1077 ℝ) = _ := parse_observedOf 1
  simp only [Upstream.onFrame, Converter.onObsFrame, Converter.parseFrame, parseThree_observedFrame,
    Converter.onObservations, hparse, corrections_error hb hr]

end

/-! ## Runs that raise -/

/-- Calls of `feed_obs` and `feed_eph` in any order, on a new converter: none
raises if and only if all observations are convertible when they are handled. -/
theorem feeds_return {K : Type} [Field K] [LinearOrder K] [FloorRing K] [PyMath K] [IsStrictOrderedRing K]
    {parse : Bytes → Option (Msg K)} (hp : ∀ frame m, parse frame = some m → MsgOk m) (id : StationId)
    (maxIodAgeS maxResidualM : K) (calls : List (Upstream × Bytes)) :
    Returns parse (.new id maxIodAgeS maxResidualM) calls ↔
      AllConvertible parse (.new id maxIodAgeS maxResidualM) calls :=
  feeds_safe hp calls (safe_new id maxIodAgeS maxResidualM)

/-- An ephemeris, a station and observations. -/
theorem feeds_return_observed : Returns (K := ℝ) parseBoth (.new ⟨1023, by decide⟩ 7200 100)
    [(.eph, orbitFrame1), (.obs, nearCentreFrame), (.obs, observedFrame)] := by
  refine (feeds_return parseBoth_ok _ _ _ _).mpr ⟨framesConvertible_eph _ _, ?_, ?_, trivial⟩
  · rw [feed_ephemeris rfl isFrame_orbitFrame1 parseBoth_orbitFrame1]
    dsimp only [Upstream.buf, Converter.new]
    rw [List.nil_append, extract_frame isFrame_nearCentreFrame]
    exact framesConvertible_frame parseBoth_nearCentreFrame fun m hm => by cases hm
  · rw [feed_ephemeris rfl isFrame_orbitFrame1 parseBoth_orbitFrame1,
      feed_station rfl isFrame_nearCentreFrame parseBoth_nearCentreFrame]
    dsimp only [Upstream.buf, Converter.new]
    rw [List.nil_append, extract_frame isFrame_observedFrame]
    refine framesConvertible_frame parseBoth_observedFrame fun m hm => ?_
    obtain rfl := Msg.gpsMsm7.inj hm
    refine convertible_observedOf rfl (by decide) ?_ rfl rfl
    exact Dict.forall_get?_set Dict.forall_get?_empty rfl

/-- Observations of a satellite that has no orbit. -/
theorem not_feeds_return : ¬ ∀ parse : Bytes → Option (Msg ℝ), (∀ frame m, parse frame = some m → MsgOk m) →
    ∀ (id : StationId) (calls : List (Upstream × Bytes)), Returns parse (.new id 7200 100) calls := by
  intro h
  obtain ⟨-, -, hr, -⟩ := h parseThree parseThree_ok ⟨1023, by decide⟩
    [(.eph, noOrbitFrame), (.obs, nearCentreFrame), (.obs, observedFrame)]
  rw [feed_ephemeris rfl isFrame_noOrbitFrame parseThree_noOrbitFrame,
    feed_station rfl isFrame_nearCentreFrame parseThree_nearCentreFrame,
    feed_frame parseThree .obs rfl isFrame_observedFrame] at hr
  generalize hc : Upstream.obs.received _ observedFrame = c at hr
  obtain ⟨e, he⟩ : ∃ e, Upstream.obs.onFrame parseThree c observedFrame = (.error e, c) := by
    subst hc
    exact onFrame_observedFrame rfl (Dict.get?_set_self ..) rfl
  rw [he] at hr
  cases hr

end Rtcm.Proof
