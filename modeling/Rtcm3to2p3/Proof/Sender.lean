import Rtcm3to2p3.Proof.Stream
import Rtcm3to2p3.Proof.TwoRuns
import Rtcm3to2p3.Spec.Epochs

/-!
# A converter sends what its sender does

Handling a frame that gives an epoch takes the converter's sender through that
epoch (`visit_sender`), any other frame leaves it and the RTCM 2.3 feed as they
are; so a run is the sender's run over its epochs (`run_sender`). What was sent
then decodes to the messages of the calls that returned (`decode_feed`).
-/

namespace Rtcm.Proof

open Rtcm.Impl Rtcm.Spec

variable {K : Type} [Field K] [LinearOrder K] [FloorRing K]

/-! ## One call -/

theorem encodeWords_ne_nil {enc enc' : Rtcm2Encoder} {w : Nat} {ws : List Nat} {out : Bytes}
    (h : enc.encodeWords (w :: ws) = (.ok out, enc')) : out ≠ [] := by
  rw [Rtcm2Encoder.encodeWords] at h
  split at h
  · cases (Prod.mk.inj h).1
  · rename_i word _ _ _
    rcases hr : Rtcm2Encoder.encodeWords _ ws with ⟨_ | out', _⟩
    · rw [hr] at h
      cases (Prod.mk.inj h).1
    · rw [hr] at h
      obtain rfl := Except.ok.inj (Prod.mk.inj h).1
      exact List.append_ne_nil_of_left_ne_nil (List.cons_ne_nil _ _) _

theorem wordsOf_succ (n : Nat) (bs : List Bool) : ∃ w ws, wordsOf (n + 1) bs = w :: ws :=
  List.exists_cons_of_length_pos (by rw [length_wordsOf]; omega)

/-- A call that returns has bytes to publish. -/
theorem run_ne_nil {call : Call K} {enc enc' : Rtcm2Encoder} {out : Bytes} (h : call.run enc = (.ok out, enc')) :
    out ≠ [] := by
  by_cases ha : Accepts call
  · obtain ⟨n, bs, -, hrun⟩ := run_ok enc ha
    obtain ⟨w, ws, hw⟩ := wordsOf_succ (1 + n) bs
    rw [hrun, show 2 + n = 1 + n + 1 by omega, hw] at h
    exact encodeWords_ne_nil h
  · obtain ⟨msg, hrun⟩ := run_error enc ha
    rw [hrun] at h
    cases (Prod.mk.inj h).1

theorem publish_run {call : Call K} {enc enc' : Rtcm2Encoder} {out : Bytes} (h : call.run enc = (.ok out, enc'))
    (feed : List Bytes) : publish feed out = feed ++ [out] := by
  rw [publish, if_neg]
  rw [List.isEmpty_iff]
  exact run_ne_nil h

/-! ## One frame -/

variable [PyMath K]

omit [FloorRing K] in
theorem epochOf_eq_some {gen : DgpsGenerator K} {msg : Msg1077 K} {e : Epoch K} :
    epochOf gen msg = some e ↔ gen.base = some e.base ∧ e.corrections ≠ [] ∧
      ∃ pseudoranges, parseGpsMsm7 msg = .ok (e.tow, pseudoranges) ∧
        (gen.corrections e.tow pseudoranges).1 = .ok e.corrections := by
  obtain ⟨base, tow, cs⟩ := e
  unfold epochOf
  constructor
  · intro h
    split at h
    · rename_i base' tow' prs hb hp
      split at h
      · rename_i c cs' hc
        obtain ⟨rfl, rfl, rfl⟩ := Epoch.mk.injEq .. ▸ Option.some.inj h
        exact ⟨hb, List.cons_ne_nil _ _, prs, hp, hc⟩
      · cases h
    · cases h
  · rintro ⟨hb, hne, prs, hp, hc⟩
    obtain ⟨c, cs, rfl⟩ := List.exists_cons_of_ne_nil hne
    simp only [hb, hp, hc]

/-- Observations that give no epoch send nothing. -/
theorem onObservations_none {c : Converter K} {msg : Msg1077 K} (h : epochOf c.gen msg = none) :
    senderOf (c.onObservations msg).2 = senderOf c ∧ (c.onObservations msg).2.rtcm23Feed = c.rtcm23Feed := by
  unfold Converter.onObservations
  cases hp : parseGpsMsm7 msg with
  | error e => exact ⟨rfl, rfl⟩
  | ok x =>
    obtain ⟨tow, prs⟩ := x
    dsimp only
    rcases hc : c.gen.corrections tow prs with ⟨_ | cs, gen⟩
    · exact ⟨rfl, rfl⟩
    · cases cs with
      | nil => exact ⟨rfl, rfl⟩
      | cons x cs =>
        exfalso
        cases hb : c.gen.base with
        | none =>
          rw [corrections_base_none hb] at hc
          cases Except.ok.inj (Prod.mk.inj hc).1
        | some base =>
          have : epochOf c.gen msg = some ⟨base, tow, x :: cs⟩ :=
            epochOf_eq_some.mpr ⟨hb, List.cons_ne_nil _ _, prs, hp, congrArg Prod.fst hc⟩
          cases h.symm.trans this

/-- The Type 1 message of an epoch, the end of `_on_obs_frame`. -/
def emitType1 (c : Converter K) (e : Epoch K) : Py Unit × Converter K :=
  match c.encoder.encodeType1 c.stationId.val (modifiedZcount e.tow) ((c.seq + 1) % 8 : Nat) 0 e.corrections with
  | (.error err, encoder) => (.error err, { c with seq := (c.seq + 1) % 8, encoder })
  | (.ok out, encoder) =>
    (.ok (), { c with
      seq := (c.seq + 1) % 8
      encoder
      rtcm23Feed := publish c.rtcm23Feed out
      messagesOut := c.messagesOut + 1 })

omit [PyMath K] in
theorem emitType1_sender (c : Converter K) (e : Epoch K) :
    senderOf (emitType1 c e).2 = ((senderOf c).sendCorrections e).2 ∧
      (emitType1 c e).2.rtcm23Feed = c.rtcm23Feed ++ ((senderOf c).sendCorrections e).1.map Prod.snd := by
  have hcall : ((senderOf c).type1 e ((c.seq + 1) % 8 : Nat)).run c.encoder =
    c.encoder.encodeType1 c.stationId.val (modifiedZcount e.tow) ((c.seq + 1) % 8 : Nat) 0 e.corrections := rfl
  rcases hr : ((senderOf c).type1 e ((c.seq + 1) % 8 : Nat)).run c.encoder with ⟨err | out, encoder⟩
  · have hsend : (senderOf c).sendCorrections e = ([], { senderOf c with encoder, seq := (c.seq + 1) % 8 }) := by
      unfold Sender.sendCorrections Sender.attempt
      dsimp only [senderOf] at hr ⊢
      rw [hr]
    rw [emitType1, ← hcall, hr, hsend]
    exact ⟨rfl, (List.append_nil _).symm⟩
  · have hsend : (senderOf c).sendCorrections e = ([((senderOf c).type1 e ((c.seq + 1) % 8 : Nat), out)],
        { senderOf c with encoder, seq := (c.seq + 1) % 8, messagesOut := c.messagesOut + 1 }) := by
      unfold Sender.sendCorrections Sender.attempt
      dsimp only [senderOf] at hr ⊢
      rw [hr]
    rw [emitType1, ← hcall, hr, hsend]
    exact ⟨rfl, publish_run hr _⟩

omit [PyMath K] in
/-- A Type 3 message that is due is tried. -/
theorem maybeEmitType3_sender {c : Converter K} {e : Epoch K} (hb : c.gen.base = some e.base)
    (hr : type3Recent c.lastType3Tow e.tow = false) :
    match (senderOf c).attempt ((senderOf c).type3 e) with
    | (none, s) => ∃ err c', c.maybeEmitType3 e.tow (modifiedZcount e.tow) = (.error err, c') ∧
        senderOf c' = s ∧ c'.rtcm23Feed = c.rtcm23Feed
    | (some m, s) => ∃ c', c.maybeEmitType3 e.tow (modifiedZcount e.tow) = (.ok (), c') ∧
        senderOf c' = { s with lastType3Tow := some e.tow } ∧ c'.rtcm23Feed = c.rtcm23Feed ++ [m.2] := by
  unfold Converter.maybeEmitType3 Sender.attempt
  rw [hb]
  simp only [hr, Bool.false_eq_true, if_false, Converter.nextSeq]
  have hcall : ((senderOf c).type3 e ((c.seq + 1) % 8 : Nat)).run c.encoder =
    c.encoder.encodeType3 c.stationId.val (modifiedZcount e.tow) ((c.seq + 1) % 8 : Nat) 0 e.base := rfl
  rw [← hcall]
  rcases hr : ((senderOf c).type3 e ((c.seq + 1) % 8 : Nat)).run c.encoder with ⟨err | out, encoder⟩
  · dsimp only [senderOf] at hr ⊢
    rw [hr]
    exact ⟨err, _, rfl, rfl, rfl⟩
  · dsimp only [senderOf] at hr ⊢
    rw [hr]
    exact ⟨_, rfl, rfl, publish_run hr _⟩

/-- The part of a converter that messages are sent from. -/
structure SameInputs (c c' : Converter K) : Prop where
  gen : c'.gen = c.gen
  rtcm3Feed : c'.rtcm3Feed = c.rtcm3Feed
  obsBuf : c'.obsBuf = c.obsBuf
  ephBuf : c'.ephBuf = c.ephBuf

omit [PyMath K] in
theorem maybeEmitType3_inputs (c : Converter K) (tow : K) (zcount : Int) :
    SameInputs c (c.maybeEmitType3 tow zcount).2 := by
  unfold Converter.maybeEmitType3
  cases c.gen.base with
  | none => exact ⟨rfl, rfl, rfl, rfl⟩
  | some base =>
    cases type3Recent c.lastType3Tow tow with
    | true => exact ⟨rfl, rfl, rfl, rfl⟩
    | false =>
      simp only [Converter.nextSeq]
      rcases c.encoder.encodeType3 c.stationId.val zcount ((c.seq + 1) % 8 : Nat) 0 base with ⟨_ | _, _⟩ <;>
        exact ⟨rfl, rfl, rfl, rfl⟩

omit [PyMath K] in
theorem send_eq (c : Converter K) (e : Epoch K) : c.send e.tow e.corrections =
    match c.maybeEmitType3 e.tow (modifiedZcount e.tow) with
    | (.error err, c) => (.error err, c)
    | (.ok (), c) => emitType1 c e := rfl

omit [PyMath K] in
theorem send_inputs (c : Converter K) (tow : K) (corrections : List (Correction K)) :
    SameInputs c (c.send tow corrections).2 := by
  have h := maybeEmitType3_inputs c tow (modifiedZcount tow)
  unfold Converter.send
  dsimp only
  generalize c.maybeEmitType3 tow (modifiedZcount tow) = result at h ⊢
  rcases result with ⟨_ | _, c'⟩
  · exact h
  · dsimp only [Converter.nextSeq]
    rcases c'.encoder.encodeType1 c'.stationId.val (modifiedZcount tow) ((c'.seq + 1) % 8 : Nat) 0
      corrections with ⟨_ | _, _⟩ <;> exact ⟨h.gen, h.rtcm3Feed, h.obsBuf, h.ephBuf⟩

omit [PyMath K] in
/-- What is sent is what the sender sends for the epoch. -/
theorem send_sender {c : Converter K} {e : Epoch K} (hb : c.gen.base = some e.base) :
    senderOf (c.send e.tow e.corrections).2 = ((senderOf c).epoch e).2 ∧
      (c.send e.tow e.corrections).2.rtcm23Feed =
        c.rtcm23Feed ++ ((senderOf c).epoch e).1.map Prod.snd := by
  rw [send_eq, Sender.epoch]
  cases hr : type3Recent c.lastType3Tow e.tow with
  | true =>
    have hskip : c.maybeEmitType3 e.tow (modifiedZcount e.tow) = (.ok (), c) := by
      rw [Converter.maybeEmitType3, hb]
      exact if_pos hr
    rw [hskip, if_pos (show type3Recent (senderOf c).lastType3Tow e.tow = true from hr)]
    exact emitType1_sender c e
  | false =>
    have htry := maybeEmitType3_sender hb hr
    rw [if_neg (by rw [show type3Recent (senderOf c).lastType3Tow e.tow = false from hr]; decide)]
    rcases ha : (senderOf c).attempt ((senderOf c).type3 e) with ⟨_ | m, s⟩
    · rw [ha] at htry
      obtain ⟨err, c', he, hsend, hfeed⟩ := htry
      rw [he]
      exact ⟨hsend, hfeed.trans (List.append_nil _).symm⟩
    · rw [ha] at htry
      obtain ⟨c', he, hsend, hfeed⟩ := htry
      obtain ⟨hsend', hfeed'⟩ := emitType1_sender c' e
      rw [he]
      dsimp only
      rw [hsend', hfeed', hsend, hfeed, List.append_assoc]
      exact ⟨rfl, rfl⟩

/-- Observations that give an epoch send what the sender does. -/
theorem onObservations_some {c : Converter K} {msg : Msg1077 K} {e : Epoch K} (h : epochOf c.gen msg = some e) :
    senderOf (c.onObservations msg).2 = ((senderOf c).epoch e).2 ∧
      (c.onObservations msg).2.rtcm23Feed = c.rtcm23Feed ++ ((senderOf c).epoch e).1.map Prod.snd := by
  obtain ⟨hb, hne, prs, hp, hc⟩ := epochOf_eq_some.mp h
  obtain ⟨hbase, -⟩ := corrections_base c.gen e.tow prs
  rcases hg : c.gen.corrections e.tow prs with ⟨res, gen⟩
  rw [hg] at hc hbase
  obtain rfl : res = .ok e.corrections := hc
  have hne' : e.corrections.isEmpty = false := by rwa [List.isEmpty_eq_false_iff]
  have hsend : c.onObservations msg = Converter.send { c with gen } e.tow e.corrections := by
    simp only [Converter.onObservations, hp, hg, hne', Bool.false_eq_true, if_false]
  rw [hsend]
  exact send_sender (c := { c with gen }) (hbase.trans hb)

variable (parse : Bytes → Option (Msg K))

/-- A frame that gives no epoch sends nothing. -/
theorem visit_none {v : Visit K} (h : v.epoch parse = none) :
    senderOf (v.after parse) = senderOf v.converter ∧ (v.after parse).rtcm23Feed = v.converter.rtcm23Feed := by
  obtain ⟨u, c, frame⟩ := v
  have hstep := frame_step parse u c frame
  rw [Visit.after]
  generalize u.onFrame parse c frame = result at hstep
  cases hstep with
  | observations m hm =>
    rw [Visit.epoch, hm] at h
    exact onObservations_none h
  | unparsed | station | ephemeris | ignored => exact ⟨rfl, rfl⟩

omit [FloorRing K] in
theorem visit_epoch_eq_some {v : Visit K} {e : Epoch K} : v.epoch parse = some e ↔
    v.upstream = .obs ∧ ∃ msg, parse v.frame = some (.gpsMsm7 msg) ∧ epochOf v.converter.gen msg = some e := by
  unfold Visit.epoch
  constructor
  · intro h
    split at h
    · rename_i msg hu hm
      exact ⟨hu, msg, hm, h⟩
    · cases h
  · rintro ⟨hu, msg, hm, h⟩
    rw [hu, hm]
    exact h

/-- A frame that gives an epoch sends what the sender does. -/
theorem visit_some {v : Visit K} {e : Epoch K} (h : v.epoch parse = some e) :
    senderOf (v.after parse) = ((senderOf v.converter).epoch e).2 ∧
      (v.after parse).rtcm23Feed = v.converter.rtcm23Feed ++ ((senderOf v.converter).epoch e).1.map Prod.snd := by
  obtain ⟨hu, msg, hm, he⟩ := (visit_epoch_eq_some parse).mp h
  have hafter : v.after parse = (v.converter.onObservations msg).2 := by
    rw [Visit.after, hu]
    simp only [Upstream.onFrame, Converter.onObsFrame, Converter.parseFrame, hm]
  rw [hafter]
  exact onObservations_some he

/-! ## Runs -/

omit [PyMath K] in
theorem run_append (s : Sender K) (es es' : List (Epoch K)) :
    s.run (es ++ es') = ((s.run es).1 ++ ((s.run es).2.run es').1, ((s.run es).2.run es').2) := by
  induction es generalizing s with
  | nil => rfl
  | cons e es ih => simp only [List.cons_append, Sender.run, ih]

/-- Between `c` and `c'` the epochs `E` were handled, and sent what the sender does. -/
structure SentBy (c c' : Converter K) (E : List (Epoch K × List Bytes)) : Prop where
  sender : senderOf c' = ((senderOf c).run (E.map Prod.fst)).2
  published : E.map Prod.snd = ((senderOf c).run (E.map Prod.fst)).1.map (List.map Prod.snd)
  feed : c'.rtcm23Feed = c.rtcm23Feed ++ (E.map Prod.snd).flatten

namespace SentBy

omit [PyMath K] in
theorem nil {c c' : Converter K} (hs : senderOf c' = senderOf c) (hf : c'.rtcm23Feed = c.rtcm23Feed) :
    SentBy c c' [] :=
  ⟨hs, rfl, hf.trans (List.append_nil _).symm⟩

omit [PyMath K] in
theorem append {c c' c'' : Converter K} {E E' : List (Epoch K × List Bytes)} (h : SentBy c c' E)
    (h' : SentBy c' c'' E') : SentBy c c'' (E ++ E') := by
  obtain ⟨hs', hp', hf'⟩ := h'
  rw [h.sender] at hs' hp'
  refine ⟨?_, ?_, ?_⟩
  · rw [hs', List.map_append, run_append]
  · rw [List.map_append, List.map_append, run_append, List.map_append, hp', h.published]
  · rw [hf', h.feed, List.map_append, List.flatten_append, List.append_assoc]

omit [PyMath K] in
theorem log {c c' : Converter K} {E : List (Epoch K × List Bytes)} (h : SentBy c c' E) :
    c'.rtcm23Feed = c.rtcm23Feed ++ ((senderOf c).run (E.map Prod.fst)).1.flatten.map Prod.snd := by
  rw [h.feed, h.published, List.map_flatten]

theorem visit (v : Visit K) :
    SentBy v.converter (v.after parse)
      ([v].filterMap fun v => (v.epoch parse).map fun e => (e, v.published parse)) := by
  cases he : v.epoch parse with
  | none =>
    obtain ⟨hs, hf⟩ := visit_none parse he
    simp only [List.filterMap_cons, he, Option.map_none, List.filterMap_nil]
    exact nil hs hf
  | some e =>
    obtain ⟨hs, hf⟩ := visit_some parse he
    have hp : v.published parse = ((senderOf v.converter).epoch e).1.map Prod.snd := by
      rw [Visit.published, hf, List.drop_left' rfl]
    simp only [List.filterMap_cons, he, Option.map_some, List.filterMap_nil, hp]
    exact ⟨hs, rfl, by rw [hf]; simp⟩

end SentBy

/-- A property that chunks and frames keep holds whenever a frame is handled. -/
theorem visits_keep {P : Converter K → Prop} (hreceived : ∀ (u : Upstream) c data, P c → P (u.received c data))
    (hvisit : ∀ v : Visit K, P v.converter → P (v.after parse)) (calls : List (Upstream × Bytes)) {c : Converter K}
    (h : P c) : P (runFeeds parse c calls) ∧ ∀ v ∈ visits parse c calls, P v.converter := by
  have hframes : ∀ (u : Upstream) (frames : List Bytes) (c : Converter K), P c →
      P (forFrames (u.onFrame parse) c frames).2 ∧ ∀ x ∈ visited (u.onFrame parse) c frames, P x.1 := by
    intro u frames
    induction frames with
    | nil => exact fun c h => ⟨h, fun x hx => absurd hx List.not_mem_nil⟩
    | cons frame frames ih =>
      intro c h
      have hafter := hvisit ⟨u, c, frame⟩ h
      rw [Visit.after] at hafter
      rw [forFrames, visited]
      rcases hr : u.onFrame parse c frame with ⟨_ | _, c'⟩
      · rw [hr] at hafter
        exact ⟨hafter, fun x hx => by rwa [List.mem_singleton.mp hx]⟩
      · rw [hr] at hafter
        obtain ⟨h1, h2⟩ := ih c' hafter
        exact ⟨h1, List.forall_mem_cons.mpr ⟨h, h2⟩⟩
  induction calls generalizing c with
  | nil => exact ⟨h, fun v hv => absurd hv List.not_mem_nil⟩
  | cons call calls ih =>
    obtain ⟨u, data⟩ := call
    obtain ⟨h1, h2⟩ := hframes u (extractRtcm3Frames (u.buf c ++ data)).1 _ (hreceived u c data h)
    rw [← feed_eq] at h1
    obtain ⟨h3, h4⟩ := ih h1
    refine ⟨h3, fun v hv => ?_⟩
    rw [visits, List.mem_append, List.mem_map] at hv
    obtain ⟨x, hx, rfl⟩ | hv := hv
    · exact h2 x hx
    · exact h4 v hv

/-- A run sends what the sender does over its epochs. -/
theorem run_sender (calls : List (Upstream × Bytes)) (c : Converter K) :
    SentBy c (runFeeds parse c calls) (epochs parse c calls) := by
  have hframes : ∀ (u : Upstream) (frames : List Bytes) (c : Converter K),
      SentBy c (forFrames (u.onFrame parse) c frames).2
        (((visited (u.onFrame parse) c frames).map fun x => (⟨u, x.1, x.2⟩ : Visit K)).filterMap
          fun v => (v.epoch parse).map fun e => (e, v.published parse)) := by
    intro u frames
    induction frames with
    | nil => exact fun c => .nil rfl rfl
    | cons frame frames ih =>
      intro c
      have hafter := SentBy.visit parse ⟨u, c, frame⟩
      rw [Visit.after] at hafter
      rw [forFrames, visited]
      rcases hr : u.onFrame parse c frame with ⟨_ | _, c'⟩
      · rw [hr] at hafter
        exact hafter
      · rw [hr] at hafter
        rw [List.map_cons, ← List.singleton_append, List.filterMap_append]
        exact hafter.append (ih c')
  induction calls generalizing c with
  | nil => exact .nil rfl rfl
  | cons call calls ih =>
    obtain ⟨u, data⟩ := call
    have hreceived : SentBy c (u.received c data) [] := by cases u <;> exact .nil rfl rfl
    have hfeed := hreceived.append (hframes u (extractRtcm3Frames (u.buf c ++ data)).1 (u.received c data))
    rw [← feed_eq, List.nil_append] at hfeed
    rw [epochs, visits, List.filterMap_append]
    exact hfeed.append (ih (u.feed parse c data).2)

/-! ## The generator -/

/-- Observations leave the station, the ephemerides and the limits as they are. -/
theorem onObservations_gen (c : Converter K) (msg : Msg1077 K) : SameTable c.gen (c.onObservations msg).2.gen := by
  unfold Converter.onObservations
  rcases parseGpsMsm7 msg with _ | ⟨tow, prs⟩
  · exact ⟨rfl, rfl, rfl, rfl⟩
  have hsame := sameTable_corrections c.gen tow prs
  dsimp only
  rcases hc : c.gen.corrections tow prs with ⟨_ | cs, gen⟩
  all_goals rw [hc] at hsame
  · exact hsame
  cases cs with
  | nil => exact hsame
  | cons x cs =>
    have hg := (send_inputs { c with gen } tow (x :: cs)).gen
    simp only [List.isEmpty_cons, Bool.false_eq_true, if_false, hg]
    exact hsame

/-! ## What is sent -/

omit [PyMath K] in
theorem runCalls_append (enc : Rtcm2Encoder) (calls calls' : List (Call K)) :
    runCalls enc (calls ++ calls') = ((runCalls enc calls).1 ++ (runCalls (runCalls enc calls).2 calls').1,
      (runCalls (runCalls enc calls).2 calls').2) := by
  induction calls generalizing enc with
  | nil => rfl
  | cons call calls ih =>
    rw [List.cons_append, runCalls, runCalls]
    rcases call.run enc with ⟨_ | out, enc'⟩
    · exact ih enc'
    · simp only [ih, List.cons_append]

omit [PyMath K] in
theorem runCalls_cons {enc enc' enc'' : Rtcm2Encoder} {call : Call K} {out : Bytes} {calls : List (Call K)}
    {log : List (Call K × Bytes)} (h : runCalls enc [call] = ([(call, out)], enc'))
    (h' : runCalls enc' calls = (log, enc'')) : runCalls enc (call :: calls) = ((call, out) :: log, enc'') := by
  rw [← List.singleton_append, runCalls_append, h]
  dsimp only
  rw [h']
  rfl

/-- The seeds are bits. -/
def Seeded (enc : Rtcm2Encoder) : Prop := ∃ s29 s30 : Bool, enc = ⟨s29.toNat, s30.toNat⟩

/-- The corrections are accepted, and so is the station. -/
def Fits (e : Epoch K) : Prop := (∀ c ∈ e.corrections, RecordOk c) ∧ e.corrections.length ≤ 18
def Placed (e : Epoch K) : Prop := CoordOk e.base.1 ∧ CoordOk e.base.2.1 ∧ CoordOk e.base.2.2

omit [PyMath K] in
theorem accepts_type1 (s : Sender K) (e : Epoch K) (seq : Nat) :
    Accepts (s.type1 e ((seq + 1) % 8 : Nat)) ↔ Fits e :=
  ⟨And.right, fun h => ⟨header_ok s.stationId e.tow seq, h⟩⟩

omit [PyMath K] in
theorem accepts_type3 (s : Sender K) (e : Epoch K) (seq : Nat) :
    Accepts (s.type3 e ((seq + 1) % 8 : Nat)) ↔ Placed e :=
  ⟨And.right, fun h => ⟨header_ok s.stationId e.tow seq, h⟩⟩

omit [PyMath K] in
theorem attempt_ok {s : Sender K} {call : Int → Call K} (hs : Seeded s.encoder)
    (h : Accepts (call ((s.seq + 1) % 8 : Nat))) :
    ∃ out enc, s.attempt call = (some (call ((s.seq + 1) % 8 : Nat), out),
        { s with seq := (s.seq + 1) % 8, encoder := enc }) ∧ Seeded enc ∧
      runCalls s.encoder [call ((s.seq + 1) % 8 : Nat)] = ([(call ((s.seq + 1) % 8 : Nat), out)], enc) := by
  obtain ⟨s29, s30, hs⟩ := hs
  obtain ⟨out, t29, t30, hrun⟩ := encode_ok h s29 s30
  rw [← hs] at hrun
  refine ⟨out, ⟨t29.toNat, t30.toNat⟩, ?_, ⟨t29, t30, rfl⟩, ?_⟩
  · simp only [Sender.attempt, hrun]
  · simp only [runCalls, hrun]

omit [PyMath K] in
theorem attempt_refused {s : Sender K} {call : Int → Call K} (h : ¬ Accepts (call ((s.seq + 1) % 8 : Nat))) :
    s.attempt call = (none, { s with seq := (s.seq + 1) % 8 }) := by
  obtain ⟨msg, hrun⟩ := run_error s.encoder h
  simp only [Sender.attempt, hrun]

/-- What an epoch does to a sender: the calls that return, and the sender after them. -/
inductive EpochStep (s : Sender K) (e : Epoch K) (encoder : Rtcm2Encoder) : List (Call K) → Sender K → Prop where
  /-- The station is not due. -/
  | corrections (hr : type3Recent s.lastType3Tow e.tow = true) (hf : Fits e) :
    EpochStep s e encoder [s.type1 e ((s.seq + 1) % 8 : Nat)]
      { s with encoder, seq := (s.seq + 1) % 8, messagesOut := s.messagesOut + 1 }
  | nothing (hr : type3Recent s.lastType3Tow e.tow = true) (hf : ¬ Fits e) :
    EpochStep s e encoder [] { s with encoder, seq := (s.seq + 1) % 8 }
  /-- The station is due, and refused. -/
  | unplaced (hr : type3Recent s.lastType3Tow e.tow = false) (hp : ¬ Placed e) :
    EpochStep s e encoder [] { s with encoder, seq := (s.seq + 1) % 8 }
  | both (hr : type3Recent s.lastType3Tow e.tow = false) (hp : Placed e) (hf : Fits e) :
    EpochStep s e encoder [s.type3 e ((s.seq + 1) % 8 : Nat), s.type1 e (((s.seq + 1) % 8 + 1) % 8 : Nat)]
      { s with
        encoder
        seq := ((s.seq + 1) % 8 + 1) % 8
        lastType3Tow := some e.tow
        messagesOut := s.messagesOut + 1 }
  | station (hr : type3Recent s.lastType3Tow e.tow = false) (hp : Placed e) (hf : ¬ Fits e) :
    EpochStep s e encoder [s.type3 e ((s.seq + 1) % 8 : Nat)]
      { s with encoder, seq := ((s.seq + 1) % 8 + 1) % 8, lastType3Tow := some e.tow }

omit [PyMath K] in
theorem sendCorrections_fits {s : Sender K} {e : Epoch K} (hs : Seeded s.encoder) (hf : Fits e) :
    ∃ out enc, s.sendCorrections e = ([(s.type1 e ((s.seq + 1) % 8 : Nat), out)],
        { s with seq := (s.seq + 1) % 8, encoder := enc, messagesOut := s.messagesOut + 1 }) ∧ Seeded enc ∧
      runCalls s.encoder [s.type1 e ((s.seq + 1) % 8 : Nat)] = ([(s.type1 e ((s.seq + 1) % 8 : Nat), out)], enc) := by
  obtain ⟨out, enc, ha, henc, hrun⟩ := attempt_ok hs ((accepts_type1 s e s.seq).mpr hf)
  refine ⟨out, enc, ?_, henc, hrun⟩
  rw [Sender.sendCorrections, ha]

omit [PyMath K] in
theorem sendCorrections_refused {s : Sender K} {e : Epoch K} (hf : ¬ Fits e) :
    s.sendCorrections e = ([], { s with seq := (s.seq + 1) % 8 }) := by
  rw [Sender.sendCorrections, attempt_refused ((accepts_type1 s e s.seq).not.mpr hf)]

omit [PyMath K] in
/-- An epoch is a step, and its messages are those of its calls. -/
theorem epoch_step {s : Sender K} (hs : Seeded s.encoder) (e : Epoch K) :
    ∃ enc, Seeded enc ∧ runCalls s.encoder ((s.epoch e).1.map Prod.fst) = ((s.epoch e).1, enc) ∧
      EpochStep s e enc ((s.epoch e).1.map Prod.fst) (s.epoch e).2 := by
  rw [Sender.epoch]
  cases hr : type3Recent s.lastType3Tow e.tow with
  | true =>
    rw [if_pos rfl]
    by_cases hf : Fits e
    · obtain ⟨out, enc, hsend, henc, hrun⟩ := sendCorrections_fits hs hf
      rw [hsend]
      exact ⟨enc, henc, hrun, .corrections hr hf⟩
    · rw [sendCorrections_refused hf]
      exact ⟨s.encoder, hs, rfl, .nothing hr hf⟩
  | false =>
    rw [if_neg (by decide)]
    by_cases hp : Placed e
    · obtain ⟨out, enc, ha, henc, hrun⟩ := attempt_ok hs ((accepts_type3 s e s.seq).mpr hp)
      rw [ha]
      by_cases hf : Fits e
      · obtain ⟨out', enc', hsend, henc', hrun'⟩ := sendCorrections_fits
          (s := { s with seq := (s.seq + 1) % 8, encoder := enc, lastType3Tow := some e.tow }) henc hf
        dsimp only
        rw [hsend]
        exact ⟨enc', henc', runCalls_cons hrun hrun', .both hr hp hf⟩
      · dsimp only
        rw [sendCorrections_refused hf]
        exact ⟨enc, henc, hrun, .station hr hp hf⟩
    · rw [attempt_refused ((accepts_type3 s e s.seq).not.mpr hp)]
      exact ⟨s.encoder, hs, rfl, .unplaced hr hp⟩

omit [PyMath K] in
theorem EpochStep.encoder_eq {s s' : Sender K} {e : Epoch K} {enc : Rtcm2Encoder} {calls : List (Call K)}
    (h : EpochStep s e enc calls s') : s'.encoder = enc := by
  cases h <;> rfl

omit [PyMath K] in
/-- The messages of a run are those of its calls. -/
theorem run_calls {s : Sender K} (hs : Seeded s.encoder) (es : List (Epoch K)) :
    Seeded (s.run es).2.encoder ∧ runCalls s.encoder ((s.run es).1.flatten.map Prod.fst) =
      ((s.run es).1.flatten, (s.run es).2.encoder) := by
  induction es generalizing s with
  | nil => exact ⟨hs, rfl⟩
  | cons e es ih =>
    obtain ⟨enc, henc, hrun, hstep⟩ := epoch_step hs e
    obtain ⟨hseeds, hrest⟩ := ih (hstep.encoder_eq ▸ henc)
    refine ⟨hseeds, ?_⟩
    simp only [Sender.run, List.flatten_cons, List.map_append, runCalls_append, hrun]
    rw [← hstep.encoder_eq, hrest]

/-- What a run published decodes to the messages of its calls. -/
theorem decode_feed (id : StationId) (maxIodAgeS maxResidualM : K) (calls : List (Upstream × Bytes)) :
    let c : Converter K := .new id maxIodAgeS maxResidualM
    Spec.decodeStream false false (runFeeds parse c calls).rtcm23Feed.flatten =
      { violations := 0
        messages := ((senderOf c).run ((epochs parse c calls).map Prod.fst)).1.flatten.map fun m => m.1.message
        rest := [] } := by
  intro c
  obtain ⟨-, hrun⟩ := run_calls (s := senderOf c) ⟨false, false, rfl⟩ ((epochs parse c calls).map Prod.fst)
  have hlog := (run_sender parse calls c).log
  rw [show c.rtcm23Feed = [] from rfl, List.nil_append] at hlog
  obtain ⟨ws, t29, t30, -, hsends⟩ :=
    runCalls_sends (((senderOf c).run ((epochs parse c calls).map Prod.fst)).1.flatten.map Prod.fst) false false
  rw [hlog]
  have hdec := hsends.decodeStream
  rw [show runCalls ⟨false.toNat, false.toNat⟩ _ = _ from hrun] at hdec
  exact hdec

/-! ## Safe runs -/

omit [PyMath K] in
theorem epoch_seeded {s : Sender K} (hs : Seeded s.encoder) (e : Epoch K) : Seeded (s.epoch e).2.encoder := by
  obtain ⟨enc, henc, -, hstep⟩ := epoch_step hs e
  rwa [hstep.encoder_eq]

/-- Observations leave a safe converter safe, whether they raise or not. -/
theorem onObservations_safe {c : Converter K} (h : Safe c) (msg : Msg1077 K) : Safe (c.onObservations msg).2 := by
  obtain ⟨hb, he, -, -⟩ := onObservations_gen c msg
  refine h.congr ?_ hb he
  change Seeded (senderOf (c.onObservations msg).2).encoder
  cases hepoch : epochOf c.gen msg with
  | none =>
    rw [(onObservations_none hepoch).1]
    exact h.seeds
  | some e =>
    rw [(onObservations_some hepoch).1]
    exact epoch_seeded (s := senderOf c) h.seeds e

variable [IsStrictOrderedRing K]

variable {parse} in
/-- Every converter of a run is safe. -/
theorem visits_safe (hp : ∀ frame m, parse frame = some m → MsgOk m) (calls : List (Upstream × Bytes))
    {c : Converter K} (h : Safe c) : ∀ v ∈ visits parse c calls, Safe v.converter := by
  refine (visits_keep parse (fun u c data h => ?_) (fun v h => ?_) calls h).2
  · cases u <;> exact h.congr h.seeds rfl rfl
  · obtain ⟨u, c, frame⟩ := v
    have hstep := frame_step parse u c frame
    rw [Visit.after]
    generalize u.onFrame parse c frame = result at hstep
    cases hstep with
    | unparsed => exact h.congr h.seeds rfl rfl
    | station m hm => exact safe_station h (hp frame _ hm)
    | observations m => exact onObservations_safe h m
    | ephemeris m hm => exact safe_ephemeris h (hp frame _ hm)
    | ignored => exact h

end Rtcm.Proof
