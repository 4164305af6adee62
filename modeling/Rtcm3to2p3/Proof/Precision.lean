import Rtcm3to2p3.Proof.Sequence

/-!
# What a Type 1 message carries

The counts of a correction are within half a step of it unless they are
clamped, and with a residual of at most 100 m the PRC never is
(`encodePrcRrc_error`). The Z-count is within half a unit of the time of the
hour (`modifiedZcount_error`). By induction on the epochs each Type 1 message
carries the corrections of its epoch (`run_carries`).
-/

namespace Rtcm.Proof

open Rtcm.Impl Rtcm.Spec

variable {K : Type} [Field K] [LinearOrder K] [IsStrictOrderedRing K] [FloorRing K]

/-! ## Corrections -/

/-- A value of at most `n` steps fits in `n`. -/
theorem abs_round_div_le {x step : K} (hs : 0 < step) {n : Int} (h : |x| ≤ n * step) :
    |HalfEven.round (x / step)| ≤ n :=
  HalfEven.abs_round_le (by rwa [abs_div, abs_of_pos hs, div_le_iff₀ hs])

theorem clamp_eq {n m : Int} (h : |m| ≤ n) : max (-n) (min n m) = m := by
  rw [abs_le] at h
  omega

theorem encodePrcRrc_error {prc : K} (h : |prc| ≤ 100) (rrc : K) :
    (|rrc| ≤ 0.254 →
      |(encodePrcRrc prc rrc).2.1 * PRC_SCALE K (encodePrcRrc prc rrc).1 - prc| ≤ 0.01) ∧
    |(encodePrcRrc prc rrc).2.1 * PRC_SCALE K (encodePrcRrc prc rrc).1 - prc| ≤ 0.16 ∧
    (|rrc| ≤ 4.064 →
      |(encodePrcRrc prc rrc).2.2 * RRC_SCALE K (encodePrcRrc prc rrc).1 - rrc| ≤ 0.016) := by
  have hp0 : PRC_SCALE K 0 = 0.02 := if_pos rfl
  have hp1 : PRC_SCALE K 1 = 0.32 := if_neg (by decide)
  have hr0 : RRC_SCALE K 0 = 0.002 := if_pos rfl
  have hr1 : RRC_SCALE K 1 = 0.032 := if_neg (by decide)
  have h20 : (0 : K) < 0.02 := by norm_num
  have h32 : (0 : K) < 0.32 := by norm_num
  have h2 : (0 : K) < 0.002 := by norm_num
  have h3 : (0 : K) < 0.032 := by norm_num
  have hfit0 : |HalfEven.round (prc / 0.02)| ≤ PRC_MAX :=
    abs_round_div_le h20 (h.trans (by norm_num [PRC_MAX]))
  have hfit1 : |HalfEven.round (prc / 0.32)| ≤ PRC_MAX :=
    abs_round_div_le h32 (h.trans (by norm_num [PRC_MAX]))
  have hprc1 : |HalfEven.round (prc / 0.32) * 0.32 - prc| ≤ 0.16 :=
    (HalfEven.abs_round_div_mul_sub_le h32 prc).trans (by norm_num)
  unfold encodePrcRrc
  simp only [hp0, hp1, hr0, hr1]
  split_ifs with hs0 hs1
  · have hprc0 : |HalfEven.round (prc / 0.02) * 0.02 - prc| ≤ 0.01 :=
      (HalfEven.abs_round_div_mul_sub_le h20 prc).trans (by norm_num)
    have hrrc0 : |HalfEven.round (rrc / 0.002) * 0.002 - rrc| ≤ 0.001 :=
      (HalfEven.abs_round_div_mul_sub_le h2 rrc).trans (by norm_num)
    simp only [hp0, hr0]
    exact ⟨fun _ => hprc0, hprc0.trans (by norm_num), fun _ => hrrc0.trans (by norm_num)⟩
  · simp only [hp1, hr1]
    refine ⟨fun hr => absurd ?_ hs0, hprc1, fun _ => (HalfEven.abs_round_div_mul_sub_le h3 rrc).trans (by norm_num)⟩
    exact ⟨hfit0, abs_round_div_le h2 (hr.trans (by norm_num [RRC_MAX]))⟩
  · simp only [hp1, hr1, clamp_eq hfit1]
    refine ⟨fun hr => absurd ?_ hs0, hprc1, fun hr => absurd ?_ hs1⟩
    · exact ⟨hfit0, abs_round_div_le h2 (hr.trans (by norm_num [RRC_MAX]))⟩
    · exact ⟨hfit1, abs_round_div_le h3 (hr.trans (by norm_num [RRC_MAX]))⟩

/-- The record of a correction that is no outlier. -/
theorem record_carries {c : Correction K} (hc : RecordOk c) (h : |c.prc| ≤ 100) : RecordCarries c (satRecord c) := by
  obtain ⟨⟨hprn, -⟩, ⟨hudre, -⟩, hiod, -⟩ := hc
  obtain ⟨hs, hp, hr⟩ := encodePrcRrc_range c.prc c.rrc
  obtain ⟨hfine, hprc, hrrc⟩ := encodePrcRrc_error h c.rrc
  have hscale : (((encodePrcRrc c.prc c.rrc).1.toNat : Nat) : Int) = (encodePrcRrc c.prc c.rrc).1 := by
    rcases hs with hs | hs <;> rw [hs] <;> rfl
  rw [PRC_MAX, abs_le] at hp
  rw [RRC_MAX, abs_le] at hr
  refine ⟨Int.toNat_of_nonneg (by omega), Int.toNat_of_nonneg hiod, Int.toNat_of_nonneg hudre, ⟨?_, ?_⟩, ?_, ?_, ?_⟩
  · simp only [satRecord]
    omega
  · simp only [satRecord]
    omega
  · simpa only [satRecord, hscale] using hfine
  · simpa only [satRecord, hscale] using hprc
  · simpa only [satRecord, hscale] using hrrc

/-! ## The time -/

theorem modifiedZcount_error (tow : K) :
    (0 ≤ modifiedZcount tow ∧ modifiedZcount tow ≤ 5999) ∧
      ∃ k : ℤ, |0.6 * (modifiedZcount tow : K) - tow + 3600.0 * k| ≤ 0.3 := by
  have hstep : (0 : K) < 0.6 := by norm_num
  have hround := HalfEven.abs_round_div_mul_sub_le hstep (pyMod tow 3600)
  have hmod : pyMod tow 3600 = tow - 3600 * ⌊tow / 3600⌋ := rfl
  generalize hz : HalfEven.round (pyMod tow 3600 / 0.6) = z at hround
  have hzcount : modifiedZcount tow = z % 6000 := by rw [modifiedZcount, hz]
  refine ⟨by rw [hzcount]; omega, ⌊tow / 3600⌋ + z / 6000, ?_⟩
  have hdiv : ((z % 6000 : ℤ) : K) = z - 6000 * (z / 6000 : ℤ) := by
    rw [Int.emod_def]
    push_cast
    ring
  have he : 3 / 5 * ((z : K) - 6000 * (z / 6000 : ℤ)) - tow + 3600 * ((⌊tow / 3600⌋ + z / 6000 : ℤ) : K) =
      z * (3 / 5) - pyMod tow 3600 := by
    rw [hmod]
    push_cast
    ring
  rw [show (0.6 : K) = 3 / 5 by norm_num] at hround ⊢
  rw [hzcount, hdiv, show (3600.0 : K) = 3600 by norm_num, he]
  exact hround.trans (by norm_num)

/-! ## Epochs -/

/-- The corrections of an epoch come in the order of their PRNs, and are no outliers. -/
structure Gated (e : Epoch K) : Prop where
  ascending : e.corrections.Pairwise fun c c' => c.prn < c'.prn
  residual : ∀ c ∈ e.corrections, |c.prc| ≤ 100

omit [IsStrictOrderedRing K] [FloorRing K] in
theorem epochOf_gated [PyMath K] {gen : DgpsGenerator K} (hm : gen.maxResidualM = 100) {msg : Msg1077 K} {e : Epoch K}
    (h : epochOf gen msg = some e) : Gated e := by
  obtain ⟨hb, -, prs, -, hc⟩ := epochOf_eq_some.mp h
  obtain ⟨raw, hr⟩ := rawCorrections_of_corrections hb hc
  rw [corrections_ok hb hr] at hc
  have hout := Except.ok.inj hc
  refine ⟨hout ▸ pairwise_emitted _ _ _, fun c hc => ?_⟩
  rw [← hout] at hc
  obtain ⟨x, -, hx⟩ := List.mem_filterMap.mp hc
  obtain ⟨-, -, hkept, -, hprc, -⟩ := emitted_eq_some hx
  rwa [hprc, ← hm]

/-- The Type 1 message of an epoch. -/
theorem type1_carries {s : Sender K} {e : Epoch K} (hg : Gated e) (hf : Fits e) (q : Int) :
    Type1Carries s.stationId e (s.type1 e q).message := by
  obtain ⟨⟨hz0, hz1⟩, htime⟩ := modifiedZcount_error e.tow
  have hz : ((modifiedZcount e.tow).toNat : Int) = modifiedZcount e.tow := Int.toNat_of_nonneg hz0
  obtain ⟨hid, -⟩ := s.stationId.property
  refine ⟨rfl, Int.toNat_of_nonneg (by omega), rfl, ?_, ?_, hg.ascending, _, rfl, ?_⟩
  · change (modifiedZcount e.tow).toNat ≤ 5999
    omega
  · change ∃ k : ℤ, |0.6 * ((modifiedZcount e.tow).toNat : K) - e.tow + 3600.0 * k| ≤ 0.3
    rwa [← Int.cast_natCast, hz]
  · rw [List.forall₂_map_right_iff, List.forall₂_same]
    exact fun c hc => record_carries (hf.1 c hc) (hg.residual c hc)

/-- What a message of an epoch may be. -/
def Carries (id : StationId) (e : Epoch K) (m : Message) : Prop := m.type = 3 ∨ Type1Carries id e m

theorem EpochStep.carries {s s' : Sender K} {e : Epoch K} {enc : Rtcm2Encoder} {calls : List (Call K)}
    (h : EpochStep s e enc calls s') (hg : Gated e) : ∀ c ∈ calls, Carries s.stationId e c.message := by
  cases h with
  | corrections _ hf => exact List.forall_mem_singleton.mpr (.inr (type1_carries hg hf _))
  | nothing | unplaced => exact fun c hc => absurd hc List.not_mem_nil
  | both _ _ hf =>
    exact List.forall_mem_cons.mpr ⟨.inl rfl, List.forall_mem_singleton.mpr (.inr (type1_carries hg hf _))⟩
  | station => exact List.forall_mem_singleton.mpr (.inl rfl)

omit [IsStrictOrderedRing K] in
theorem EpochStep.counts {s s' : Sender K} {e : Epoch K} {enc : Rtcm2Encoder} {calls : List (Call K)}
    (h : EpochStep s e enc calls s') : s'.stationId = s.stationId ∧
      s'.messagesOut = s.messagesOut + calls.countP fun c => c.message.type = 1 := by
  cases h <;> exact ⟨rfl, rfl⟩

/-! ## Runs -/

/-- Each message, with the epoch it was sent for, by induction on the epochs. -/
theorem run_carries {es : List (Epoch K)} (hg : ∀ e ∈ es, Gated e) {s : Sender K} (hs : Seeded s.encoder) :
    List.Forall₂ (Carries s.stationId) (List.zipWith (fun e ms => ms.map fun _ => e) es (s.run es).1).flatten
        ((s.run es).1.flatten.map fun m => m.1.message) ∧
      (s.run es).2.messagesOut = s.messagesOut + (s.run es).1.flatten.countP fun m => m.1.message.type = 1 := by
  induction es generalizing s with
  | nil => exact ⟨.nil, rfl⟩
  | cons e es ih =>
    obtain ⟨hge, hges⟩ := List.forall_mem_cons.mp hg
    obtain ⟨enc, henc, -, hstep⟩ := epoch_step hs e
    obtain ⟨hid, hcount⟩ := hstep.counts
    obtain ⟨hrest, hrestCount⟩ := ih hges (epoch_seeded hs e)
    rw [hid] at hrest
    simp only [Sender.run, List.zipWith_cons_cons, List.flatten_cons, List.map_append, List.countP_append]
    refine ⟨List.rel_append ?_ hrest, ?_⟩
    · rw [List.forall₂_map_left_iff, List.forall₂_map_right_iff, List.forall₂_same]
      exact fun m hm => hstep.carries hge m.1 (List.mem_map_of_mem hm)
    · rw [hrestCount, hcount, List.countP_map, Nat.add_assoc]
      rfl

omit [IsStrictOrderedRing K] [FloorRing K] [LinearOrder K] [Field K] in
theorem flatMap_epochs {E : List (Epoch K × List Bytes)} {mss : List (List (Call K × Bytes))}
    (h : E.map Prod.snd = mss.map (List.map Prod.snd)) : (E.flatMap fun x => x.2.map fun _ => x.1) =
      (List.zipWith (fun e ms => ms.map fun _ => e) (E.map Prod.fst) mss).flatten := by
  have hz : (List.zipWith (fun e bs => bs.map fun _ => e) (E.map Prod.fst) (E.map Prod.snd)).flatten =
      E.flatMap fun x => x.2.map fun _ => x.1 := by
    rw [List.zipWith_map, List.zipWith_self]
    rfl
  rw [← hz, h, List.zipWith_map_right]
  simp only [List.map_map]
  rfl

variable [PyMath K]

omit [IsStrictOrderedRing K] in
/-- A frame leaves the limit on the residuals as it is. -/
theorem visit_maxResidualM (parse : Bytes → Option (Msg K)) (v : Visit K) :
    (v.after parse).gen.maxResidualM = v.converter.gen.maxResidualM := by
  obtain ⟨u, c, frame⟩ := v
  have hstep := frame_step parse u c frame
  rw [Visit.after]
  generalize u.onFrame parse c frame = result at hstep
  cases hstep with
  | observations m => exact (onObservations_gen c m).maxResidualM
  | unparsed | station | ephemeris | ignored => rfl

omit [IsStrictOrderedRing K] in
theorem epochs_gated (parse : Bytes → Option (Msg K)) (id : StationId) (maxIodAgeS : K)
    (calls : List (Upstream × Bytes)) :
    ∀ e ∈ (epochs parse (.new id maxIodAgeS 100) calls).map Prod.fst, Gated e := by
  intro e he
  obtain ⟨v, hv, hve⟩ := epochs_visits he
  obtain ⟨-, msg, -, hepoch⟩ := (visit_epoch_eq_some parse).mp hve
  have hkeep := visits_keep parse (P := fun c : Converter K => c.gen.maxResidualM = 100) (fun u c data h => ?_)
    (fun v h => ?_) calls (c := .new id maxIodAgeS 100) rfl
  · exact epochOf_gated (hkeep.2 v hv) hepoch
  · cases u <;> exact h
  · exact (visit_maxResidualM parse v).trans h

/-- A new converter with `max_residual_m = 100`, calls of `feed_obs` and
`feed_eph` in any order, the exceptions swallowed: the messages on the RTCM 2.3
feed are those the epochs had published, and as many as were counted are Type 1
messages, each of which carries the corrections of its epoch. -/
theorem type1_roundtrip (parse : Bytes → Option (Msg K)) (id : StationId) (maxIodAgeS : K)
    (calls : List (Upstream × Bytes)) :
    let c := runFeeds parse (.new id maxIodAgeS 100) calls
    let E := epochs parse (.new id maxIodAgeS 100) calls
    let d := decodeStream false false c.rtcm23Feed.flatten
    c.rtcm23Feed = E.flatMap Prod.snd ∧ d.violations = 0 ∧ d.rest = [] ∧
      List.Forall₂ (fun e m => m.type = 3 ∨ Type1Carries id e m) (E.flatMap fun x => x.2.map fun _ => x.1)
        d.messages ∧
      c.messagesOut = d.messages.countP fun m => m.type = 1 := by
  intro c E d
  obtain ⟨hsender, hpub, hfeed⟩ := run_sender parse calls (.new id maxIodAgeS 100)
  obtain ⟨hcarries, hcount⟩ := run_carries (epochs_gated parse id maxIodAgeS calls)
    (s := senderOf (.new id maxIodAgeS 100)) ⟨false, false, rfl⟩
  have hd : d = _ := decode_feed parse id maxIodAgeS 100 calls
  have hout : c.messagesOut = (senderOf c).messagesOut := rfl
  refine ⟨hfeed, by rw [hd], by rw [hd], ?_, ?_⟩
  · rw [hd, flatMap_epochs hpub]
    exact hcarries
  · rw [hout, hsender, hcount, hd, List.countP_map]
    exact Nat.zero_add _

/-- One epoch. -/
theorem type1_roundtrip_one :
    let calls := bothFrames ++ [(.obs, observedFrame)]
    let c : Converter ℝ := runFeeds parseBoth (.new ⟨1023, by decide⟩ 7200 100) calls
    let E : List (Epoch ℝ × List Bytes) := epochs parseBoth (.new ⟨1023, by decide⟩ 7200 100) calls
    let d := decodeStream false false c.rtcm23Feed.flatten
    c.rtcm23Feed = E.flatMap Prod.snd ∧ d.violations = 0 ∧ d.rest = [] ∧
      List.Forall₂ (fun e m => m.type = 3 ∨ Type1Carries ⟨1023, by decide⟩ e m)
        (E.flatMap fun x => x.2.map fun _ => x.1) d.messages ∧
      c.messagesOut = d.messages.countP fun m => m.type = 1 :=
  type1_roundtrip parseBoth ⟨1023, by decide⟩ 7200 (bothFrames ++ [(.obs, observedFrame)])

end Rtcm.Proof
