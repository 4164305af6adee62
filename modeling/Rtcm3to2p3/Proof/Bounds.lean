import Rtcm3to2p3.Proof.Calls
import Rtcm3to2p3.Proof.Framing
import Rtcm3to2p3.Proof.Refusal
import Rtcm3to2p3.Spec.Bounds

/-!
# What the service holds on to

The buffers keep less than a frame of the streams (`buffers_step`), the tables
one item for each number of a satellite (`Numbers`), `publish` is left with two
messages at most, and what waits for a client is 512 of what is published
(`Small`). Together, `service_bounded`.
-/

namespace Rtcm.Proof

open Rtcm.Impl Rtcm.Spec BitString Transition

variable {K : Type}

/-! ## Messages -/

theorem getbits_lt (buff : Bytes) (pos n : Nat) : getbits buff pos n < 2 ^ n := by
  have hle : (slice (ofBytes buff) pos n).length ≤ n := List.length_take_le _ _
  exact (ofBits_lt _).trans_le (Nat.pow_le_pow_right (by decide) hle)

section

variable [Field K] [LinearOrder K] [FloorRing K]

/-- A message has 31 words at most after its header. -/
theorem run_length {call : Call K} {enc enc' : Rtcm2Encoder} {out : Bytes} (h : call.run enc = (.ok out, enc')) :
    out.length ≤ 165 := by
  rcases run_all_or_nothing enc call with ⟨ha, out', enc'', hrun, hlen⟩ | ⟨-, msg, hrun⟩
  · obtain ⟨n, bs, hb, -⟩ := run_ok enc ha
    rw [hrun] at h
    obtain rfl := Except.ok.inj (Prod.mk.inj h).1
    have hlt : call.message.length < 2 ^ 5 := by
      rw [← hb.parse _ hb.bits, parseMessage_length]
      exact getbits_lt _ _ _
    omega
  · rw [hrun] at h
    cases (Prod.mk.inj h).1

theorem length_epoch_le (s : Sender K) (e : Epoch K) : (s.epoch e).1.length ≤ 2 := by
  have hsend : ∀ s : Sender K, (s.sendCorrections e).1.length ≤ 1 := by
    intro s
    unfold Sender.sendCorrections
    split
    · exact Nat.zero_le 1
    · exact le_rfl
  unfold Sender.epoch
  split
  · exact (hsend s).trans one_le_two
  · split
    · exact Nat.zero_le 2
    · exact Nat.succ_le_succ (hsend _)

variable [PyMath K] (parse : Bytes → Option (Msg K))

/-- A step of the observation thread has two messages to publish at most. -/
theorem obsTurn_length {c : Converter K} {stage : ObsStage K} (hb : Based c.gen stage) :
    ((Service.obsTurn parse c stage).2.rtcm23Feed.drop c.rtcm23Feed.length).length ≤ 2 := by
  rw [obsTurn_drop parse hb]
  cases Service.sends c stage with
  | none => exact Nat.zero_le 2
  | some e =>
    rw [List.length_map]
    simp only [Option.toList_some, Sender.run, List.flatten_cons, List.flatten_nil, List.append_nil]
    exact length_epoch_le _ e

end

/-! ## Satellites -/

/-- The satellites that a call of `corrections` has accepted and not done with. -/
def inHand : Phase K → List Int
  | .select _ _ raw | .rate raw _ _ => raw.items.map Prod.fst
  | .emit _ todo _ => todo.map Prod.fst
  | .done _ => []

/-- Only these numbers of satellites are kept. -/
structure Numbers (P : Int → Prop) (gen : DgpsGenerator K) (phase : Phase K) : Prop where
  ephemerides : ∀ prn eph, gen.ephemerides.get? prn = some eph → P prn
  prev : ∀ prn x, gen.prev.get? prn = some x → P prn
  inHand : ∀ prn ∈ inHand phase, P prn

/-- Where `corrections` is, if the thread is in it. -/
def phaseOf : ObsStage K → Phase K
  | .correcting _ phase _ => phase
  | _ => .done (.ok [])

section

variable {P : Int → Prop}

theorem Numbers.outside {gen : DgpsGenerator K} {phase : Phase K} (h : Numbers P gen phase)
    (result : Py (List (Correction K))) : Numbers P gen (.done result) :=
  ⟨h.ephemerides, h.prev, fun _ hm => nomatch hm⟩

variable [Field K] [LinearOrder K] [PyMath K]

theorem numbers_turn (tow : K) {call : Threads K} (h : Numbers P call.gen call.phase) :
    Numbers P (call.turn tow).gen (call.turn tow).phase := by
  obtain ⟨g, phase, read, stored⟩ := call
  obtain ⟨heph, hprev, hacc⟩ := h
  rcases phase with ⟨base, _ | ⟨⟨prn, pr⟩, todo⟩, raw⟩ | ⟨raw, _ | ⟨x, todo⟩, rawRate⟩ |
    ⟨o, _ | ⟨⟨prn, value⟩, todo⟩, out⟩ | result
  · simp only [Threads.turn]
    split
    · exact ⟨heph, hprev, fun _ hm => absurd hm List.not_mem_nil⟩
    · exact ⟨heph, hprev, hacc⟩
  · simp only [Threads.turn]
    cases hs : g.selectSat base tow raw prn pr (g.ephemerides.get? prn) with
    | error e => exact ⟨heph, hprev, fun _ hm => absurd hm List.not_mem_nil⟩
    | ok raw' =>
      refine ⟨heph, hprev, ?_⟩
      rcases selectSat_ok hs with rfl | ⟨eph, v, he, -, -, rfl⟩
      · exact hacc
      · intro p hp
        rcases Dict.mem_keys_setItems.mp hp with rfl | hp
        · exact heph _ eph he
        · exact hacc p hp
  · refine ⟨heph, hprev, fun p hp => hacc p ?_⟩
    exact ((raw.sorted_perm.map Prod.fst).mem_iff).mp hp
  · exact ⟨heph, hprev, hacc⟩
  · exact ⟨heph, hprev, fun _ hm => absurd hm List.not_mem_nil⟩
  · have hstored : ∀ p x, (g.prev.set prn (tow, value)).get? p = some x → P p :=
      Dict.forall_get?_set (P := fun p _ => P p) hprev (hacc prn List.mem_cons_self)
    simp only [Threads.turn]
    cases g.emitSat o prn value (g.ephemerides.get? prn) with
    | error e => exact ⟨heph, hstored, fun _ hm => absurd hm List.not_mem_nil⟩
    | ok c => exact ⟨heph, hstored, fun p hp => hacc p (List.mem_cons_of_mem _ hp)⟩
  · exact ⟨heph, hprev, hacc⟩

variable [FloorRing K] (parse : Bytes → Option (Msg K))

theorem numbers_obsTurn {c : Converter K} {stage : ObsStage K} (h : Numbers P c.gen (phaseOf stage)) :
    Numbers P (Service.obsTurn parse c stage).2.gen (phaseOf (Service.obsTurn parse c stage).1) := by
  cases stage with
  | idle => exact h
  | looping frames =>
    cases frames with
    | nil => exact h
    | cons frame frames =>
      simp only [Service.obsTurn, Converter.parseFrame]
      cases parse frame with
      | none => exact h
      | some msg =>
        cases msg with
        | gpsEphemeris | other => exact h
        | station msg => exact ⟨h.ephemerides, h.prev, h.inHand⟩
        | gpsMsm7 msg =>
          dsimp only
          rcases parseGpsMsm7 msg with _ | ⟨tow, prs⟩
          · exact h
          · refine ⟨h.ephemerides, h.prev, fun p hp => ?_⟩
            cases hb : c.gen.base with
            | none =>
              simp only [Threads.start, hb] at hp
              cases hp
            | some base =>
              simp only [Threads.start, hb] at hp
              cases hp
  | correcting tow phase frames =>
    cases phase with
    | select | rate | emit => exact @numbers_turn _ _ _ _ _ tow ⟨c.gen, _, fun _ => none, fun _ => none⟩ h
    | done result =>
      cases result with
      | error e => exact h.outside _
      | ok corrections =>
        simp only [Service.obsTurn]
        split
        · exact h.outside _
        · have hg := (send_inputs c tow corrections).gen
          generalize c.send tow corrections = result at hg
          rcases result with ⟨_ | _, c'⟩
          · dsimp only at hg ⊢
            rw [hg]
            exact h.outside _
          · dsimp only at hg ⊢
            rw [hg]
            exact h.outside _

/-- A step leaves the last of the frames. -/
theorem obsTurn_frames (c : Converter K) (stage : ObsStage K) :
    (Service.obsTurn parse c stage).1.frames <:+ stage.frames := by
  cases stage with
  | idle => exact List.suffix_refl _
  | looping frames =>
    cases frames with
    | nil => exact List.suffix_refl _
    | cons frame frames =>
      simp only [Service.obsTurn, Converter.parseFrame]
      cases parse frame with
      | none => exact List.suffix_cons _ _
      | some msg =>
        cases msg with
        | station | gpsEphemeris | other => exact List.suffix_cons _ _
        | gpsMsm7 msg =>
          dsimp only
          rcases parseGpsMsm7 msg with _ | ⟨tow, prs⟩
          · exact List.nil_suffix
          · exact List.suffix_cons _ _
  | correcting tow phase frames =>
    cases phase with
    | select | rate | emit => exact List.suffix_refl _
    | done result =>
      cases result with
      | error e => exact List.nil_suffix
      | ok corrections =>
        simp only [Service.obsTurn]
        split
        · exact List.suffix_refl _
        · rcases c.send tow corrections with ⟨_ | _, c'⟩
          · exact List.nil_suffix
          · exact List.suffix_refl _

end

/-! ## Clients -/

/-- Only items of this length are kept for clients. -/
structure Small (n : Nat) (F : Fanout) : Prop where
  queues : ∀ q, ∀ item ∈ (F.logs q).queue.items, item.length ≤ n
  copying : ∀ data, F.publisher = .copying data → data.length ≤ n
  putting : ∀ data todo, F.publisher = .putting data todo → data.length ≤ n

theorem small_step {n : Nat} {F F' : Fanout} {e : Fanout.Event} (h : Steps F e F') (hs : Small n F)
    (he : ∀ data, Fanout.called e = some data → data.length ≤ n) : Small n F' := by
  cases h with
  | subscribe | unsubscribe | nothing => exact ⟨hs.queues, hs.copying, hs.putting⟩
  | get q =>
    refine ⟨fun r item hm => hs.queues r item ?_, hs.copying, hs.putting⟩
    by_cases hr : r = q
    · subst hr
      simp only [Function.update_self, BoundedQueue.Log.take] at hm
      split at hm
      · exact hm
      · rename_i a queue hq
        rw [BoundedQueue.get?_eq_some hq]
        exact List.mem_cons_of_mem _ hm
    · simpa only [Function.update_of_ne hr] using hm
  | announce data hi hd =>
    refine ⟨hs.queues, fun data' hp => ?_, fun data' todo hp => nomatch hp⟩
    cases hp
    exact he data rfl
  | snapshot data order hp =>
    refine ⟨hs.queues, fun data' hp' => (nomatch hp'), fun data' todo hp' => ?_⟩
    cases hp'
    exact hs.copying data hp
  | put data q todo hp =>
    refine ⟨fun r item hm => ?_, fun data' hp' => (nomatch hp'), fun data' todo' hp' => ?_⟩
    · by_cases hr : r = q
      · subst hr
        simp only [Function.update_self, BoundedQueue.Log.offer, BoundedQueue.items_offer] at hm
        split at hm
        · rcases List.mem_append.mp hm with hm | hm
          · exact hs.queues r item hm
          · rw [List.mem_singleton.mp hm]
            exact hs.putting data _ hp
        · exact hs.queues r item hm
      · simp only [Function.update_of_ne hr] at hm
        exact hs.queues r item hm
    · cases hp'
      exact hs.putting data _ hp
  | returns data hp => exact ⟨hs.queues, (fun data' hp' => nomatch hp'), fun data' todo hp' => nomatch hp'⟩

/-- What threads keep of the requests. -/
def Requests (s : Caster K) : Prop :=
  ∀ t incoming req, s.handlers t = .requesting incoming req → req.length ≤ 4351

theorem requests_update {s : Caster K} (hs : Requests s) {h : Nat} {p : Handler} {handlers : Nat → Handler}
    (hh : handlers = Function.update s.handlers h p)
    (hp : ∀ incoming req, p = .requesting incoming req → req.length ≤ 4351) (t : Nat) (incoming req : Bytes)
    (ht : handlers t = .requesting incoming req) : req.length ≤ 4351 := by
  rw [hh] at ht
  by_cases he : t = h
  · subst he
    rw [Function.update_self] at ht
    exact hp incoming req ht
  · rw [Function.update_of_ne he] at ht
    exact hs t incoming req ht

theorem requests_step {s s' : Caster K} {e : Caster.Event} (h : Serves s e s') (hs : Requests s) : Requests s' := by
  cases h with
  | connects incoming =>
    refine requests_update hs rfl fun incoming' req hp => ?_
    cases hp
    exact Nat.zero_le _
  | goes _ h bytes p he hg =>
    refine requests_update hs rfl fun incoming req hp => ?_
    subst hp
    generalize s.handlers h = p at hg
    cases hg with
    | reads _ _ _ _ hr => exact hr
  | subscribes | gets | leaves => exact requests_update hs rfl fun _ _ hp => nomatch hp
  | publisher | stop => exact hs

/-- A feed has no more subscribers than there are clients. -/
theorem subscribers_le {s : Caster K} (hs : Sound s) (f : Nat) : (s.feeds f).feed.subs.card ≤ s.opened.card := by
  refine Finset.card_le_card_of_surjOn (fun t => ((s.handlers t).queue.getD (0, 0)).2) fun q hq => ?_
  obtain ⟨t, ht⟩ := (hs.members.subs f q).mp hq
  have hopen : s.handlers t ≠ .closed := by
    intro hc
    rw [hc] at ht
    cases ht
  refine ⟨t, Finset.mem_coe.mpr (Finset.mem_filter.mpr ⟨Finset.mem_range.mpr (old_of_ne hs hopen), hopen⟩), ?_⟩
  simp only [ht, Option.getD_some]

/-! ## The whole -/

section

variable [Field K] [LinearOrder K] [FloorRing K] [PyMath K] {parse : Bytes → Option (Msg K)}

/-- What the steps keep, of streams that come in chunks of `chunk` bytes at most. -/
structure Held (chunk : Nat) (s : Service K) : Prop where
  obsBuf : rtcm3.IsRest s.conv.obsBuf
  ephBuf : rtcm3.IsRest s.conv.ephBuf
  obsFrames : s.obs.frames.flatten.length ≤ 1028 + chunk
  ephFrames : s.ephFrames.flatten.length ≤ 1028 + chunk
  numbers : Numbers (fun prn => 0 ≤ prn ∧ prn < 64) s.conv.gen (phaseOf s.obs)
  pending : s.pending.length ≤ 2 ∧ ∀ x ∈ s.pending, x.2.length ≤ max chunk 165
  feeds : ∀ f, Small (max chunk 165) (s.caster.feeds f)
  requests : Requests s.caster

omit [Field K] [LinearOrder K] [FloorRing K] [PyMath K] in
/-- A chunk is appended to what is left of the stream, and cut into frames. -/
theorem extract_bounds {chunk : Nat} {buf data : Bytes} (hb : rtcm3.IsRest buf) (hd : data.length ≤ chunk) :
    (extractRtcm3Frames (buf ++ data)).1.flatten.length ≤ 1028 + chunk ∧
      rtcm3.IsRest (extractRtcm3Frames (buf ++ data)).2 := by
  obtain ⟨ns, hcut⟩ := extract_cut (buf ++ data)
  have hlen := hcut.length_le
  have hbuf := isRest_length hb
  rw [List.length_append] at hlen
  exact ⟨by omega, hcut.isRest⟩

omit [Field K] [LinearOrder K] [FloorRing K] [PyMath K] in
theorem held_caster {chunk : Nat} {s : Service K} (hs : Held chunk s) {e : Caster.Event} {caster : Caster K}
    (h : Serves s.caster e caster) (he : ∀ f, ∀ data ∈ callsTo f e, data.length ≤ max chunk 165) :
    (∀ f, Small (max chunk 165) (caster.feeds f)) ∧ Requests caster := by
  refine ⟨fun f => ?_, requests_step h hs.requests⟩
  cases h with
  | connects | goes | stop => exact hs.feeds f
  | subscribes _ _ feed feed' _ hf | gets _ _ feed _ _ _ feed' _ _ hf | leaves _ _ feed _ feed' _ hf =>
    exact forall_feeds (P := fun _ => Small _) hs.feeds (small_step hf (hs.feeds feed) fun _ hc => nomatch hc) f
  | publisher feed ev feed' hp hf =>
    refine forall_feeds (P := fun _ => Small _) hs.feeds (small_step hf (hs.feeds feed) fun data hc => ?_) f
    refine he feed data ?_
    rw [callsTo, if_pos rfl, hc]
    exact List.mem_singleton_self data

theorem held_step (hm : ∀ frame m, parse frame = some (.gpsEphemeris m) → 0 ≤ m.DF009 ∧ m.DF009 < 64) {chunk : Nat}
    {c₀ : Converter K} {float : K → String} {s s' : Service K} {e : Service.Event}
    (h : s.step parse float e = some s') (hc : ∀ call, e.called = some call → call.2.length ≤ chunk)
    (hd : Delivers c₀ s) (hs : Held chunk s) : Held chunk s' := by
  cases acts_step parse h with
  | obsData data hi hq hne =>
    have hlen := hc (.obs, data) rfl
    obtain ⟨hframes, hrest⟩ := extract_bounds hs.obsBuf hlen
    refine ⟨hrest, hs.ephBuf, hframes, hs.ephFrames, hs.numbers.outside _, ⟨one_le_two, fun x hx => ?_⟩, hs.feeds,
      hs.requests⟩
    rw [List.mem_singleton.mp hx]
    exact hlen.trans (le_max_left _ _)
  | obsTurn hq =>
    have hobs := (obsTurn_observes parse hd.based).1
    obtain ⟨done, hframes⟩ := obsTurn_frames parse s.conv s.obs
    have hlen := hs.obsFrames
    rw [← hframes, List.flatten_append, List.length_append] at hlen
    refine ⟨hobs.obsBuf ▸ hs.obsBuf, hobs.ephBuf ▸ hs.ephBuf, by dsimp only; omega, hs.ephFrames,
      numbers_obsTurn parse hs.numbers, ⟨?_, fun x hx => ?_⟩, hs.feeds, hs.requests⟩
    · rw [List.length_map]
      exact obsTurn_length parse hd.based
    · obtain ⟨d, hm, rfl⟩ := List.mem_map.mp hx
      exact (obsTurn_sent parse hd.based (fun _ _ _ _ => run_length) d hm).trans (le_max_right _ _)
  | ephData data =>
    obtain ⟨hframes, hrest⟩ := extract_bounds hs.ephBuf (hc (.eph, data) rfl)
    exact ⟨hs.obsBuf, hrest, hs.obsFrames, hframes, hs.numbers, hs.pending, hs.feeds, hs.requests⟩
  | ephTurn frame frames hf =>
    have hlen := hs.ephFrames
    rw [hf, List.flatten_cons, List.length_append] at hlen
    have hrest : ∀ gen parseErrors, Numbers (fun prn => 0 ≤ prn ∧ prn < 64) gen (phaseOf s.obs) →
        Held chunk { s with conv := { s.conv with gen, parseErrors }, ephFrames := frames } := fun gen parseErrors hn =>
      ⟨hs.obsBuf, hs.ephBuf, hs.obsFrames, by dsimp only; omega, hn, hs.pending, hs.feeds, hs.requests⟩
    obtain ⟨gen, parseErrors, hconv, rfl | ⟨m, hp, rfl⟩⟩ := onEphFrame_gen parse s.conv frame
    · exact hconv ▸ hrest _ _ hs.numbers
    · exact hconv ▸ hrest _ _ ⟨Dict.forall_get?_set (P := fun prn _ => 0 ≤ prn ∧ prn < 64) hs.numbers.ephemerides
        (hm frame m hp), hs.numbers.prev, hs.numbers.inHand⟩
  | publishes feed data pending caster hp hcaster =>
    have hpending := hs.pending
    rw [hp] at hpending
    obtain ⟨hfeeds, hrequests⟩ := held_caster hs (serves_step hcaster) fun f data' hm => by
      rw [callsTo] at hm
      split at hm
      · rw [List.mem_singleton.mp hm]
        exact hpending.2 _ List.mem_cons_self
      · cases hm
    exact ⟨hs.obsBuf, hs.ephBuf, hs.obsFrames, hs.ephFrames, hs.numbers,
      ⟨(Nat.le_succ _).trans hpending.1, fun x hx => hpending.2 x (List.mem_cons_of_mem _ hx)⟩, hfeeds, hrequests⟩
  | caster ev caster hcalls hcaster =>
    obtain ⟨hfeeds, hrequests⟩ := held_caster hs (serves_step hcaster) fun f data hm => by
      rw [hcalls f] at hm
      cases hm
    exact ⟨hs.obsBuf, hs.ephBuf, hs.obsFrames, hs.ephFrames, hs.numbers, hs.pending, hfeeds, hrequests⟩

/-- What the service holds on to does not grow, but with the clients that are
connected: in every state of a run, whatever the order of the threads' steps
and whatever the streams bring, as long as pyrtcm reads the number of a
satellite from its six bits. -/
theorem service_bounded (hm : ∀ frame m, parse frame = some (.gpsEphemeris m) → 0 ≤ m.DF009 ∧ m.DF009 < 2 ^ 6)
    (stationId : StationId) (maxIodAgeS maxResidualM : K) (rtcm3 rtcm23 : MountInfo K) {float : K → String}
    {chunk : Nat} {es : List Service.Event} (hc : ∀ e ∈ es, ∀ call, e.called = some call → call.2.length ≤ chunk)
    {s : Service K}
    (h : Transition.run (Service.step parse float) (.init stationId maxIodAgeS maxResidualM rtcm3 rtcm23) es = some s) :
    Bounded chunk s := by
  have hinit : Held chunk (.init stationId maxIodAgeS maxResidualM rtcm3 rtcm23 : Service K) := by
    refine ⟨.nil, .nil, Nat.zero_le _, Nat.zero_le _, ⟨Dict.forall_get?_empty, Dict.forall_get?_empty,
      fun _ hm => nomatch hm⟩, ⟨Nat.zero_le _, fun _ hx => nomatch hx⟩, fun f => ?_, fun _ _ _ ht => nomatch ht⟩
    exact ⟨(fun _ _ hm => nomatch hm), (fun _ hp => nomatch hp), fun _ _ hp => nomatch hp⟩
  have hrun : Transition.run (Service.step parse float) (.init stationId maxIodAgeS maxResidualM rtcm3 rtcm23) [] =
      some _ := rfl
  have hstart := delivers_run parse stationId maxIodAgeS maxResidualM rtcm3 rtcm23 hrun
  obtain ⟨hd, hs⟩ := keeps_of (I := fun s => Delivers (.new stationId maxIodAgeS maxResidualM) s ∧ Held chunk s)
    (p := fun e : Service.Event => ∀ call, e.called = some call → call.2.length ≤ chunk)
    (fun s e s' hstep he hI => ⟨delivers_step parse hstep hI.1, held_step hm hstep he hI.1 hI.2⟩) h hc ⟨hstart, hinit⟩
  have hkeys : ∀ {α : Type} {d : Dict Int α}, (∀ prn x, d.get? prn = some x → 0 ≤ prn ∧ prn < 64) →
      d.items.length ≤ 64 := fun hd =>
    Dict.length_le_card (Finset.Ico 0 64) fun prn x hx => Finset.mem_Ico.mpr (hd prn x hx)
  exact {
    buffers := ⟨isRest_length hs.obsBuf, isRest_length hs.ephBuf⟩
    frames := ⟨hs.obsFrames, hs.ephFrames⟩
    satellites := ⟨hkeys hs.numbers.ephemerides, hkeys hs.numbers.prev⟩
    pending := hs.pending.1
    queues := fun f q => ⟨((s.caster.feeds f).logs q).queue.bound, (hs.feeds f).queues q⟩
    subscribers := subscribers_le hd.sound
    requests := hs.requests }

end

theorem service_bounded_one : ∃ s : Service ℝ, s.epochs ≠ [] ∧ Bounded 67 s := by
  obtain ⟨es, s, h, hne, -, -, hcalls, -⟩ := run_oneEpoch_calls { mount := "RTCM3", lat := 0, lon := 0 }
    { mount := "RTCM23", lat := 0, lon := 0 } fun _ => ""
  have hlengths : ∀ call ∈ bothFrames ++ [(Upstream.obs, observedFrame)], call.2.length ≤ 67 := by decide
  refine ⟨s, hne, service_bounded (fun frame m hf => ?_) ⟨1023, by decide⟩ 7200 100 _ _ (fun e he call hc => ?_) h⟩
  · unfold parseBoth at hf
    split_ifs at hf
    all_goals cases hf
    all_goals decide
  · exact hlengths call (hcalls ▸ List.mem_filterMap.mpr ⟨e, he, hc⟩)

end Rtcm.Proof
