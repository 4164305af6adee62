import Rtcm3to2p3.Proof.Service
import Rtcm3to2p3.Proof.Threads

/-!
# The service, one call at a time

Alone, the observation thread comes from the start of a call to what `feed_obs`
returns (`comes_feedObs`). With calls that do not overlap, a run is therefore
at each moment in the run of `runFeeds` (`InTurn`), and all calls can be made so
(`run_feeds`): `service_sequential`.
-/

namespace Rtcm.Proof

open Rtcm.Impl Rtcm.Spec Transition

variable {K : Type} [Field K] [LinearOrder K] [FloorRing K] [PyMath K] (parse : Bytes → Option (Msg K))

/-! ## The observation thread alone -/

/-- The observation thread's next step. -/
def obsStep (x : ObsStage K × Converter K) : ObsStage K × Converter K := Service.obsTurn parse x.2 x.1

/-- The thread comes from one state to the other. -/
def Comes (x y : ObsStage K × Converter K) : Prop := ∃ n, (obsStep parse)^[n] x = y

variable {parse}

theorem Comes.refl (x : ObsStage K × Converter K) : Comes parse x x := ⟨0, rfl⟩

theorem Comes.trans {x y z : ObsStage K × Converter K} (h : Comes parse x y) (h' : Comes parse y z) :
    Comes parse x z := by
  obtain ⟨m, rfl⟩ := h
  obtain ⟨n, rfl⟩ := h'
  exact ⟨n + m, Function.iterate_add_apply ..⟩

theorem Comes.head {x z : ObsStage K × Converter K} (h : Comes parse (obsStep parse x) z) : Comes parse x z :=
  Comes.trans ⟨1, rfl⟩ h

/-- Outside `feed_obs` the thread stays as it is, so there is one end only. -/
theorem Comes.idle {x : ObsStage K × Converter K} {c c' : Converter K} (h : Comes parse x (.idle, c))
    (h' : Comes parse x (.idle, c')) : c = c' := by
  have hfixed : ∀ c : Converter K, Function.IsFixedPt (obsStep parse) (.idle, c) := fun _ => rfl
  obtain ⟨m, hm⟩ := h
  obtain ⟨n, hn⟩ := h'
  have hc := ((hfixed c).iterate n).eq
  have hc' := ((hfixed c').iterate m).eq
  rw [← hm, ← Function.iterate_add_apply, Nat.add_comm, Function.iterate_add_apply, hn, hc'] at hc
  rw [hm] at hc
  exact (Prod.mk.inj hc.symm).2

omit [FloorRing K] in
theorem turn_records (tow : K) (g : DgpsGenerator K) (phase : Phase K)
    (read read' stored stored' : Int → Option (Ephemeris K)) :
    (Threads.turn tow ⟨g, phase, read, stored⟩).gen = (Threads.turn tow ⟨g, phase, read', stored'⟩).gen ∧
      (Threads.turn tow ⟨g, phase, read, stored⟩).phase = (Threads.turn tow ⟨g, phase, read', stored'⟩).phase := by
  rcases phase with ⟨base, _ | ⟨x, todo⟩, raw⟩ | ⟨raw, _ | ⟨x, todo⟩, rawRate⟩ | ⟨o, _ | ⟨x, todo⟩, out⟩ | result <;>
    exact ⟨rfl, rfl⟩

variable (parse) in
/-- A call of `corrections`, to its end. -/
theorem comes_done {tow : K} (c : Converter K) (call : Threads K) (frames : List Bytes) (hg : call.gen = c.gen) {n : Nat}
    {result : Py (List (Correction K))} (h : (turns tow call n).phase = .done result) :
    Comes parse (.correcting tow call.phase frames, c)
      (.correcting tow (.done result) frames, { c with gen := (turns tow call n).gen }) := by
  induction n generalizing c call with
  | zero =>
    change call.phase = _ at h
    change Comes parse _ (_, { c with gen := call.gen })
    rw [h, hg]
    exact .refl _
  | succ n ih =>
    rw [turns_succ] at h ⊢
    obtain ⟨g, phase, read, stored⟩ := call
    obtain rfl : g = c.gen := hg
    obtain ⟨hgen, hphase⟩ := turn_records tow c.gen phase (fun _ => none) read (fun _ => none) stored
    have hturn := ih { c with gen := (Threads.turn tow ⟨c.gen, phase, read, stored⟩).gen } _ rfl h
    cases phase with
    | done => exact hturn
    | select | rate | emit =>
      refine Comes.head ?_
      simp only [obsStep, Service.obsTurn]
      rw [hgen, hphase]
      exact hturn

/-- Where a handler leaves the thread. -/
def afterFrame (result : Py Unit × Converter K) (frames : List Bytes) : ObsStage K × Converter K :=
  (if result.1 = .ok () then .looping frames else .idle, result.2)

theorem comes_observations (c : Converter K) (frame : Bytes) (frames : List Bytes) {msg : Msg1077 K}
    (hf : parse frame = some (.gpsMsm7 msg)) :
    Comes parse (.looping (frame :: frames), c) (afterFrame (c.onObservations msg) frames) := by
  cases hm : parseGpsMsm7 msg with
  | error e =>
    refine ⟨1, ?_⟩
    simp only [Function.iterate_one, obsStep, Service.obsTurn, Converter.parseFrame, hf, hm, Converter.onObservations]
    rfl
  | ok x =>
    obtain ⟨tow, prs⟩ := x
    obtain ⟨n, hg, hp⟩ := interleaved_turns c.gen tow prs
    refine Comes.head (Comes.trans (y := (.correcting tow (.done (c.gen.corrections tow prs).1) frames,
      { c with gen := (c.gen.corrections tow prs).2 })) ?_ ⟨1, ?_⟩)
    · have hc := comes_done parse c (.start c.gen prs) frames rfl hp
      rw [hg] at hc
      simp only [obsStep, Service.obsTurn, Converter.parseFrame, hf, hm]
      exact hc
    · simp only [Function.iterate_one, obsStep, Service.obsTurn, Converter.onObservations, hm]
      rcases c.gen.corrections tow prs with ⟨_ | corrections, gen⟩
      · rfl
      · dsimp only
        split
        · rfl
        · rcases Converter.send { c with gen } tow corrections with ⟨_ | _, c₁⟩ <;> rfl

/-- The frame that is next is handled. -/
theorem comes_frame (c : Converter K) (frame : Bytes) (frames : List Bytes) :
    Comes parse (.looping (frame :: frames), c) (afterFrame (c.onObsFrame parse frame) frames) := by
  cases hf : parse frame with
  | none =>
    refine ⟨1, ?_⟩
    simp only [Function.iterate_one, obsStep, Service.obsTurn, Converter.onObsFrame, Converter.parseFrame, hf]
    rfl
  | some msg =>
    cases msg with
    | gpsMsm7 msg =>
      have hc := comes_observations c frame frames hf
      simp only [Converter.onObsFrame, Converter.parseFrame, hf]
      exact hc
    | station | gpsEphemeris | other =>
      refine ⟨1, ?_⟩
      simp only [Function.iterate_one, obsStep, Service.obsTurn, Converter.onObsFrame, Converter.parseFrame, hf]
      rfl

theorem comes_frames (c : Converter K) (frames : List Bytes) :
    Comes parse (.looping frames, c) (.idle, (forFrames (Converter.onObsFrame parse) c frames).2) := by
  induction frames generalizing c with
  | nil => exact ⟨1, rfl⟩
  | cons frame frames ih =>
    refine (comes_frame c frame frames).trans ?_
    rw [forFrames]
    rcases c.onObsFrame parse frame with ⟨_ | _, c'⟩
    · exact .refl _
    · exact ih c'

variable (parse) in
/-- A call of `feed_obs`, to its end. -/
theorem comes_feedObs (c : Converter K) (data : Bytes) :
    Comes parse (.looping (extractRtcm3Frames (c.obsBuf ++ data)).1, Upstream.obs.received c data)
      (.idle, (c.feedObs parse data).2) := comes_frames _ _

/-! ## Calls that do not overlap -/

variable (parse) in
/-- The converter of a service of which one call at most is under way. -/
inductive InTurn (c₀ : Converter K) (calls : List (Upstream × Bytes)) (s : Service K) : Prop
  | between (hobs : s.obs = .idle) (heph : s.ephFrames = []) (hc : s.conv = runFeeds parse c₀ calls)
  | observing (heph : s.ephFrames = []) (before : List (Upstream × Bytes)) (data : Bytes)
    (hcalls : calls = before ++ [(.obs, data)])
    (hc : Comes parse (.looping (extractRtcm3Frames ((runFeeds parse c₀ before).obsBuf ++ data)).1,
      Upstream.obs.received (runFeeds parse c₀ before) data) (s.obs, s.conv))
  | handling (hobs : s.obs = .idle) (before : List (Upstream × Bytes)) (data : Bytes)
    (hcalls : calls = before ++ [(.eph, data)])
    (hc : (forFrames (Converter.onEphFrame parse) s.conv s.ephFrames).2 = runFeeds parse c₀ calls)

theorem runFeeds_snoc (c₀ : Converter K) (calls : List (Upstream × Bytes)) (call : Upstream × Bytes) :
    runFeeds parse c₀ (calls ++ [call]) = (call.1.feed parse (runFeeds parse c₀ calls) call.2).2 := by
  rw [runFeeds, List.foldl_append]
  rfl

/-- When no call is under way the converter is that of the calls. -/
theorem InTurn.runFeeds {c₀ : Converter K} {calls : List (Upstream × Bytes)} {s : Service K}
    (h : InTurn parse c₀ calls s) (hobs : s.obs = .idle) (heph : s.ephFrames = []) :
    s.conv = Spec.runFeeds parse c₀ calls := by
  cases h with
  | between _ _ hc => exact hc
  | observing _ before data hcalls hc =>
    rw [hobs] at hc
    rw [hcalls, runFeeds_snoc]
    exact hc.idle (comes_feedObs parse _ data)
  | handling _ before data hcalls hc =>
    rw [heph] at hc
    exact hc

variable (parse) in
omit [LinearOrder K] [FloorRing K] in
theorem onEphFrame_ok (c : Converter K) (frame : Bytes) : (c.onEphFrame parse frame).1 = .ok () := by
  unfold Converter.onEphFrame Converter.parseFrame
  cases parse frame with
  | none => rfl
  | some msg => cases msg <;> rfl

theorem inTurn_step {c₀ : Converter K} {calls : List (Upstream × Bytes)} {float : K → String} {s s' : Service K}
    {e : Service.Event} (h : InTurn parse c₀ calls s)
    (hfree : e.called.isSome → s.obs = .idle ∧ s.ephFrames = []) (hs : s.step parse float e = some s') :
    InTurn parse c₀ (calls ++ e.called.toList) s' := by
  have hsame : ∀ {s' : Service K}, s'.obs = s.obs → s'.ephFrames = s.ephFrames → s'.conv = s.conv →
      InTurn parse c₀ (calls ++ []) s' := by
    intro s' hobs heph hc
    rw [List.append_nil]
    cases h with
    | between ho he hcalls => exact .between (hobs.trans ho) (heph.trans he) (hc.trans hcalls)
    | observing he before data hcalls hcomes =>
      exact .observing (heph.trans he) before data hcalls (by rwa [hobs, hc])
    | handling ho before data hcalls hleft =>
      exact .handling (hobs.trans ho) before data hcalls (by rwa [heph, hc])
  cases acts_step parse hs with
  | obsData data hi =>
    have hc := h.runFeeds hi (hfree rfl).2
    refine .observing (hfree rfl).2 calls data rfl ?_
    rw [← hc]
    exact .refl _
  | obsTurn =>
    cases h with
    | between ho he hc => exact hsame (by rw [ho]; rfl) rfl (by rw [ho]; rfl)
    | observing he before data hcalls hcomes =>
      exact .observing he before data (by rw [hcalls]; exact List.append_nil _) (hcomes.trans ⟨1, rfl⟩)
    | handling ho => exact hsame (by rw [ho]; rfl) rfl (by rw [ho]; rfl)
  | ephData data =>
    have hc := h.runFeeds (hfree rfl).1 (hfree rfl).2
    refine .handling (hfree rfl).1 calls data rfl ?_
    change _ = runFeeds parse c₀ (calls ++ [(.eph, data)])
    rw [runFeeds_snoc, ← hc]
    rfl
  | ephTurn frame frames hf =>
    cases h with
    | between _ he => exact absurd (he.symm.trans hf) nofun
    | observing he => exact absurd (he.symm.trans hf) nofun
    | handling ho before data hcalls hleft =>
      refine .handling ho before data (by rw [hcalls]; exact List.append_nil _) ?_
      rw [hf, forFrames] at hleft
      have hok := onEphFrame_ok parse s.conv frame
      dsimp only
      rw [show Service.Event.called .ephTurn = none from rfl, Option.toList_none, List.append_nil, ← hleft]
      generalize s.conv.onEphFrame parse frame = result at hok
      obtain ⟨r, c⟩ := result
      obtain rfl : r = .ok () := hok
      rfl
  | publishes | caster => exact hsame rfl rfl rfl

omit [Field K] [LinearOrder K] [FloorRing K] [PyMath K] in
theorem called_cons (e : Service.Event) (es : List Service.Event) :
    (e :: es).filterMap Service.Event.called = e.called.toList ++ es.filterMap Service.Event.called := by
  rw [List.filterMap_cons]
  cases e.called <;> rfl

theorem inTurn_run {c₀ : Converter K} {calls : List (Upstream × Bytes)} {float : K → String} {es : List Service.Event}
    {s s' : Service K} (h : InTurn parse c₀ calls s) (hes : Service.OneAtATime parse float s es)
    (hs : Transition.run (Service.step parse float) s es = some s') :
    InTurn parse c₀ (calls ++ es.filterMap Service.Event.called) s' := by
  induction es generalizing s calls with
  | nil =>
    cases hs
    rwa [List.filterMap_nil, List.append_nil]
  | cons e es ih =>
    obtain ⟨s₁, he, hs⟩ := run_cons hs
    have hrest := ih (inTurn_step h hes.1 he) (hes.2 s₁ he) hs
    rwa [called_cons, ← List.append_assoc]

/-! ## The calls return -/

/-- A step within a call of `feed_obs` or `feed_eph`. -/
def within : Service.Event → Bool
  | .obsTurn | .ephTurn | .caster (.publisher _ _) => true
  | _ => false

theorem called_within {e : Service.Event} (h : within e = true) : e.called = none ∧ (e.ofObs || e.ofEph) = true := by
  cases e with
  | obsData | ephData => cases h
  | obsTurn | ephTurn => exact ⟨rfl, rfl⟩
  | caster ev =>
    cases ev with
    | publisher => exact ⟨rfl, rfl⟩
    | _ => cases h

omit [Field K] [LinearOrder K] [FloorRing K] [PyMath K] in
/-- A publisher's steps of a feed. -/
theorem run_publisher (float : K → String) {s : Caster K} {f : Nat} {es : List Fanout.Event} {feed : Fanout}
    (hes : ∀ e ∈ es, Caster.isPublisher e = true) (h : (s.feeds f).run es = some feed) :
    ∃ s', Transition.run (Caster.step float) s (es.map (.publisher f)) = some s' ∧
      s'.feeds = Function.update s.feeds f feed := by
  induction es generalizing s with
  | nil =>
    cases h
    exact ⟨s, rfl, (Function.update_eq_self ..).symm⟩
  | cons e es ih =>
    obtain ⟨feed₁, he, h⟩ := run_cons h
    have hstep : s.step float (.publisher f e) =
        some (withFeed s f feed₁ (((s.feeds f).copied e).map Prod.fst)) := by
      simp only [Caster.step, hes e List.mem_cons_self, if_true]
      exact feedStep_eq (steps_of_step he)
    obtain ⟨s', hr, hfeeds⟩ := ih (s := withFeed s f feed₁ (((s.feeds f).copied e).map Prod.fst))
      (fun e he => hes e (List.mem_cons_of_mem _ he)) (by simpa only [withFeed, Function.update_self] using h)
    refine ⟨s', run_cons_of hstep hr, hfeeds.trans ?_⟩
    simp only [withFeed, Function.update_idem]

variable (parse) in
/-- The steps of a `publish` call that are the caster's. -/
theorem run_caster {float : K → String} {s : Service K} {caster : Caster K} {es : List Caster.Event}
    (hes : ∀ e ∈ es, ∀ feed data, e ≠ .publisher feed (.publish data))
    (h : Transition.run (Caster.step float) s.caster es = some caster) :
    Transition.run (Service.step parse float) s (es.map .caster) = some { s with caster } := by
  induction es generalizing s with
  | nil =>
    cases h
    rfl
  | cons e es ih =>
    obtain ⟨caster₁, he, h⟩ := run_cons h
    have hstep : s.step parse float (.caster e) = some { s with caster := caster₁ } := by
      simp only [Service.step]
      split
      · rename_i feed data
        exact absurd rfl (hes _ List.mem_cons_self feed data)
      · rw [he]
        rfl
    exact run_cons_of hstep (ih (fun e he => hes e (List.mem_cons_of_mem _ he)) h)

variable (parse) in
/-- The `publish` calls that are left, one after the other. -/
theorem run_pending (float : K → String) {s : Service K} (hp : ∀ x ∈ s.pending, x.1 < 2 ∧ x.2 ≠ [])
    (h0 : (s.caster.feeds 0).publisher = .idle) (h1 : (s.caster.feeds 1).publisher = .idle) :
    ∃ es s', Transition.run (Service.step parse float) s es = some s' ∧ (∀ e ∈ es, within e = true) ∧ s'.quiet ∧
      s'.obs = s.obs ∧ s'.conv = s.conv ∧ s'.ephFrames = s.ephFrames := by
  obtain ⟨conv, obs, ephFrames, pending, caster, chunks, epochs⟩ := s
  induction pending generalizing caster with
  | nil => exact ⟨[], _, rfl, (fun _ h => nomatch h), ⟨rfl, h0, h1⟩, rfl, rfl, rfl⟩
  | cons x pending ih =>
    obtain ⟨f, data⟩ := x
    obtain ⟨hf, hne⟩ := hp (f, data) List.mem_cons_self
    have hidle : (caster.feeds f).publisher = .idle := by
      obtain rfl | rfl : f = 0 ∨ f = 1 := by omega
      · exact h0
      · exact h1
    obtain ⟨feed, hrun, hfeed, -⟩ := run_publish hidle hne (caster.feeds f).feed.subs.nodup_toList
      (Finset.toList_toFinset _)
    generalize hl : (caster.feeds f).feed.subs.toList = subs at hrun
    have hpub : ∀ e ∈ Fanout.Event.publish data :: .snapshot subs :: (List.replicate subs.length .put ++ [.returns]),
        Caster.isPublisher e = true := by
      intro e he
      simp only [List.mem_cons, List.mem_append, List.mem_replicate, List.not_mem_nil, or_false] at he
      rcases he with rfl | rfl | ⟨-, rfl⟩ | rfl <;> rfl
    obtain ⟨caster', hcaster, hfeeds⟩ := run_publisher float hpub hrun
    obtain ⟨caster₁, hfirst, hrest⟩ := run_cons hcaster
    have hstep : Service.step parse float ⟨conv, obs, ephFrames, (f, data) :: pending, caster, chunks, epochs⟩
        (.caster (.publisher f (.publish data))) =
          some ⟨conv, obs, ephFrames, pending, caster₁, chunks, epochs⟩ := by
      simp only [Service.step, hfirst, Option.map_some]
      exact if_pos ⟨trivial, h0, h1⟩
    have hothers : ∀ e ∈ (Fanout.Event.snapshot subs :: (List.replicate subs.length .put ++ [.returns])).map
        (Caster.Event.publisher f), ∀ feed data, e ≠ .publisher feed (.publish data) := by
      intro e he feed data hne
      obtain ⟨ev, hev, rfl⟩ := List.mem_map.mp he
      cases hne
      simp at hev
    have hafter := run_caster parse (s := ⟨conv, obs, ephFrames, pending, caster₁, chunks, epochs⟩)
      hothers hrest
    have hidles : ∀ g, (caster.feeds g).publisher = .idle → (caster'.feeds g).publisher = .idle := by
      intro g hg
      rw [hfeeds]
      by_cases hgf : g = f
      · subst hgf
        rwa [Function.update_self]
      · rwa [Function.update_of_ne hgf]
    obtain ⟨es, s', hr, hes, hquiet, hobs, hconv, heph⟩ := ih caster' (fun x hx => hp x (List.mem_cons_of_mem _ hx))
      (hidles 0 h0) (hidles 1 h1)
    refine ⟨_, s', run_cons_of hstep (run_append_of hafter hr), fun e he => ?_, hquiet, hobs, hconv, heph⟩
    rcases List.mem_cons.mp he with rfl | he
    · rfl
    · rcases List.mem_append.mp he with he | he
      · obtain ⟨ev, hev, rfl⟩ := List.mem_map.mp he
        obtain ⟨call, -, rfl⟩ := List.mem_map.mp hev
        rfl
      · exact hes e he

/-- What a step of the observation thread publishes. -/
theorem obsTurn_pending {c₀ : Converter K} {s : Service K} (hs : Delivers c₀ s) :
    ∀ x ∈ ((Service.obsTurn parse s.conv s.obs).2.rtcm23Feed.drop s.conv.rtcm23Feed.length).map ((1 : Nat), ·),
      x.1 < 2 ∧ x.2 ≠ [] := by
  intro x hx
  obtain ⟨d, hd, rfl⟩ := List.mem_map.mp hx
  exact ⟨Nat.one_lt_two, obsTurn_ne_nil parse hs.based d hd⟩

/-- The observation thread on its own comes to the end of its call. -/
theorem run_comes {c₀ : Converter K} (float : K → String) {s : Service K} (hs : Delivers c₀ s) (hq : s.quiet) {n : Nat}
    (h : ((obsStep parse)^[n] (s.obs, s.conv)).1 = .idle) :
    ∃ es s', Transition.run (Service.step parse float) s es = some s' ∧ (∀ e ∈ es, within e = true) ∧ s'.quiet ∧
      s'.obs = .idle ∧ s'.ephFrames = s.ephFrames := by
  induction n generalizing s with
  | zero => exact ⟨[], s, rfl, (fun _ h => nomatch h), hq, h, rfl⟩
  | succ n ih =>
    rw [Function.iterate_succ_apply] at h
    have hstep : s.step parse float .obsTurn = some { s with
        conv := (Service.obsTurn parse s.conv s.obs).2
        obs := (Service.obsTurn parse s.conv s.obs).1
        pending := ((Service.obsTurn parse s.conv s.obs).2.rtcm23Feed.drop s.conv.rtcm23Feed.length).map (1, ·)
        epochs := s.epochs ++ (Service.sends s.conv s.obs).toList } := by
      simp only [Service.step, hq, if_true]
    have hs₁ := delivers_step parse hstep hs
    obtain ⟨es, s₂, hr, hes, hq₂, hobs, hconv, heph⟩ := run_pending parse float
      (s := { s with
        conv := (Service.obsTurn parse s.conv s.obs).2
        obs := (Service.obsTurn parse s.conv s.obs).1
        pending := ((Service.obsTurn parse s.conv s.obs).2.rtcm23Feed.drop s.conv.rtcm23Feed.length).map (1, ·)
        epochs := s.epochs ++ (Service.sends s.conv s.obs).toList }) (obsTurn_pending hs) hq.2.1 hq.2.2
    have hs₂ : Delivers c₀ s₂ := keeps (fun _ _ _ => delivers_step parse) hr hs₁
    obtain ⟨es', s', hr', hes', hq', hobs', heph'⟩ := ih hs₂ hq₂ (by rw [hobs, hconv]; exact h)
    refine ⟨.obsTurn :: (es ++ es'), s', run_cons_of hstep (run_append_of hr hr'), fun e he => ?_, hq', hobs',
      heph'.trans heph⟩
    rcases List.mem_cons.mp he with rfl | he
    · rfl
    · exact (List.mem_append.mp he).elim (hes e) (hes' e)

variable (parse) in
/-- So does the ephemeris thread. -/
theorem run_ephFrames (float : K → String) (s : Service K) :
    ∃ es s', Transition.run (Service.step parse float) s es = some s' ∧ (∀ e ∈ es, within e = true) ∧
      s'.ephFrames = [] ∧ s'.obs = s.obs ∧ s'.pending = s.pending ∧ s'.caster = s.caster := by
  obtain ⟨conv, obs, ephFrames, pending, caster, chunks, epochs⟩ := s
  induction ephFrames generalizing conv with
  | nil => exact ⟨[], _, rfl, (fun _ h => nomatch h), rfl, rfl, rfl, rfl⟩
  | cons frame frames ih =>
    obtain ⟨es, s', hr, hes, heph, hobs, hpending, hcaster⟩ := ih (conv.onEphFrame parse frame).2
    refine ⟨.ephTurn :: es, s', run_cons_of rfl hr, fun e he => ?_, heph, hobs, hpending, hcaster⟩
    rcases List.mem_cons.mp he with rfl | he
    · rfl
    · exact hes e he

theorem oneAtATime_append {float : K → String} {s s' : Service K} {es es' : List Service.Event}
    (h : Transition.run (Service.step parse float) s es = some s') (hes : Service.OneAtATime parse float s es)
    (hes' : Service.OneAtATime parse float s' es') : Service.OneAtATime parse float s (es ++ es') := by
  induction es generalizing s with
  | nil =>
    cases h
    exact hes'
  | cons e es ih =>
    obtain ⟨s₁, he, h⟩ := run_cons h
    refine ⟨hes.1, fun s₂ he₂ => ?_⟩
    obtain rfl := Option.some.inj (he.symm.trans he₂)
    exact ih h (hes.2 s₁ he)

theorem oneAtATime_quiet {float : K → String} (s : Service K) {es : List Service.Event} (h : ∀ e ∈ es, e.called = none) :
    Service.OneAtATime parse float s es := by
  induction es generalizing s with
  | nil => trivial
  | cons e es ih =>
    refine ⟨fun hc => ?_, fun s' _ => ih s' fun e he => h e (List.mem_cons_of_mem _ he)⟩
    rw [h e List.mem_cons_self] at hc
    cases hc

variable (parse) in
/-- A call that is made between others returns. -/
theorem run_call {c₀ : Converter K} (float : K → String) {s : Service K} (hs : Delivers c₀ s) (hq : s.quiet)
    (hobs : s.obs = .idle) (heph : s.ephFrames = []) (u : Upstream) {data : Bytes} (hd : data ≠ []) :
    ∃ es s', Transition.run (Service.step parse float) s es = some s' ∧ Service.OneAtATime parse float s es ∧
      es.filterMap Service.Event.called = [(u, data)] ∧ (∀ e ∈ es, (e.ofObs || e.ofEph) = true) ∧
      s'.quiet ∧ s'.obs = .idle ∧ s'.ephFrames = [] := by
  cases u with
  | obs =>
    have hstep : s.step parse float (.obsData data) = some { s with
        conv := Upstream.obs.received s.conv data
        obs := .looping (extractRtcm3Frames (s.conv.obsBuf ++ data)).1
        pending := [(0, data)]
        chunks := s.chunks ++ [data] } := by
      simp only [Service.step, hobs]
      exact if_pos ⟨hq, hd⟩
    have hs₁ := delivers_step parse hstep hs
    obtain ⟨es, s₂, hr, hes, hq₂, hobs₂, hconv₂, heph₂⟩ := run_pending parse float
      (s := { s with
        conv := Upstream.obs.received s.conv data
        obs := .looping (extractRtcm3Frames (s.conv.obsBuf ++ data)).1
        pending := [(0, data)]
        chunks := s.chunks ++ [data] })
      (fun x hx => by rw [List.mem_singleton.mp hx]; exact ⟨Nat.two_pos, hd⟩) hq.2.1 hq.2.2
    obtain ⟨n, hn⟩ := comes_feedObs parse s.conv data
    obtain ⟨es', s', hr', hes', hq', hobs', heph'⟩ := run_comes float (keeps (fun _ _ _ => delivers_step parse) hr hs₁)
      hq₂ (n := n) (by rw [hobs₂, hconv₂]; exact congrArg Prod.fst hn)
    have hwithin : ∀ e ∈ es ++ es', within e = true := fun e he => (List.mem_append.mp he).elim (hes e) (hes' e)
    have hquiet : ∀ e ∈ es ++ es', e.called = none := fun e he => (called_within (hwithin e he)).1
    refine ⟨.obsData data :: (es ++ es'), s', run_cons_of hstep (run_append_of hr hr'),
      ⟨fun _ => ⟨hobs, heph⟩, fun s₁ _ => oneAtATime_quiet s₁ hquiet⟩, ?_, fun e he => ?_, hq', hobs', ?_⟩
    · rw [called_cons, List.filterMap_eq_nil_iff.mpr hquiet]
      rfl
    · rcases List.mem_cons.mp he with rfl | he
      · rfl
      · exact (called_within (hwithin e he)).2
    · exact heph'.trans (heph₂.trans heph)
  | eph =>
    have hstep : s.step parse float (.ephData data) = some { s with
        conv := Upstream.eph.received s.conv data
        ephFrames := (extractRtcm3Frames (s.conv.ephBuf ++ data)).1 } := by
      simp only [Service.step]
      exact if_pos heph
    obtain ⟨es, s', hr, hes, heph', hobs', hpending, hcaster⟩ := run_ephFrames parse float { s with
      conv := Upstream.eph.received s.conv data
      ephFrames := (extractRtcm3Frames (s.conv.ephBuf ++ data)).1 }
    have hquiet : ∀ e ∈ es, e.called = none := fun e he => (called_within (hes e he)).1
    refine ⟨.ephData data :: es, s', run_cons_of hstep hr,
      ⟨fun _ => ⟨hobs, heph⟩, fun s₁ _ => oneAtATime_quiet s₁ hquiet⟩, ?_, fun e he => ?_, ?_, hobs'.trans hobs, heph'⟩
    · rw [called_cons, List.filterMap_eq_nil_iff.mpr hquiet]
      rfl
    · rcases List.mem_cons.mp he with rfl | he
      · rfl
      · exact (called_within (hes e he)).2
    · rw [Service.quiet, hpending, hcaster]
      exact hq

variable (parse) in
theorem run_feeds {c₀ : Converter K} (float : K → String) (calls : List (Upstream × Bytes))
    (hd : ∀ call ∈ calls, call.2 ≠ []) {s : Service K} (hs : Delivers c₀ s) (hq : s.quiet) (hobs : s.obs = .idle)
    (heph : s.ephFrames = []) :
    ∃ es s', Transition.run (Service.step parse float) s es = some s' ∧ Service.OneAtATime parse float s es ∧
      es.filterMap Service.Event.called = calls ∧ (∀ e ∈ es, (e.ofObs || e.ofEph) = true) ∧ s'.quiet ∧ s'.obs = .idle ∧
      s'.ephFrames = [] := by
  induction calls generalizing s with
  | nil => exact ⟨[], s, rfl, trivial, rfl, fun _ he => absurd he List.not_mem_nil, hq, hobs, heph⟩
  | cons call calls ih =>
    obtain ⟨u, data⟩ := call
    obtain ⟨es, s₁, hr, hes, hcalled, hnot, hq₁, hobs₁, heph₁⟩ := run_call parse float hs hq hobs heph u
      (hd _ List.mem_cons_self)
    obtain ⟨es', s', hr', hes', hcalled', hnot', hrest⟩ := ih (fun call hm => hd call (List.mem_cons_of_mem _ hm))
      (keeps (fun _ _ _ => delivers_step parse) hr hs) hq₁ hobs₁ heph₁
    refine ⟨es ++ es', s', run_append_of hr hr', oneAtATime_append hr hes hes', ?_,
      fun e he => (List.mem_append.mp he).elim (hnot e) (hnot' e), hrest⟩
    rw [List.filterMap_append, hcalled, hcalled']
    rfl

/-- Between calls that do not overlap all has been published. -/
theorem published_runFeeds {stationId : StationId} {maxIodAgeS maxResidualM : K} {rtcm3 rtcm23 : MountInfo K}
    {float : K → String} {es : List Service.Event} {s : Service K}
    (h : Transition.run (Service.step parse float) (.init stationId maxIodAgeS maxResidualM rtcm3 rtcm23) es = some s)
    (hes : Service.OneAtATime parse float (.init stationId maxIodAgeS maxResidualM rtcm3 rtcm23) es) (hq : s.quiet)
    (hobs : s.obs = .idle) (heph : s.ephFrames = []) :
    s.caster.published 1 =
      (runFeeds parse (.new stationId maxIodAgeS maxResidualM) (es.filterMap Service.Event.called)).rtcm23Feed := by
  have hinit : InTurn parse (.new stationId maxIodAgeS maxResidualM) []
      (.init stationId maxIodAgeS maxResidualM rtcm3 rtcm23) := .between rfl rfl rfl
  have hconv := (inTurn_run hinit hes h).runFeeds hobs heph
  have hpub := (delivers_run parse stationId maxIodAgeS maxResidualM rtcm3 rtcm23 h).of_quiet hq 1
  rw [announced_idle hq.2.2, List.append_nil] at hpub
  rw [List.nil_append] at hconv
  rw [hpub, ← hconv]
  rfl

/-- The service is the converter of the other modules when the calls of
`feed_obs` and `feed_eph` do not overlap, whatever the caster and its clients
do: in every such run the converter is that of the calls, and all calls can be
made so. -/
theorem service_sequential (stationId : StationId) (maxIodAgeS maxResidualM : K) (rtcm3 rtcm23 : MountInfo K)
    (float : K → String) :
    (∀ es s, Transition.run (Service.step parse float) (.init stationId maxIodAgeS maxResidualM rtcm3 rtcm23) es = some s →
      Service.OneAtATime parse float (.init stationId maxIodAgeS maxResidualM rtcm3 rtcm23) es → s.obs = .idle →
      s.ephFrames = [] →
      s.conv = runFeeds parse (.new stationId maxIodAgeS maxResidualM) (es.filterMap Service.Event.called)) ∧
    ∀ calls : List (Upstream × Bytes), (∀ call ∈ calls, call.2 ≠ []) → ∃ es s,
      Transition.run (Service.step parse float) (.init stationId maxIodAgeS maxResidualM rtcm3 rtcm23) es = some s ∧
      Service.OneAtATime parse float (.init stationId maxIodAgeS maxResidualM rtcm3 rtcm23) es ∧
      es.filterMap Service.Event.called = calls ∧ s.quiet ∧ s.obs = .idle ∧ s.ephFrames = [] := by
  refine ⟨fun es s h hes hobs heph => ?_, fun calls hd => ?_⟩
  · have hinit : InTurn parse (.new stationId maxIodAgeS maxResidualM) []
        (.init stationId maxIodAgeS maxResidualM rtcm3 rtcm23) := .between rfl rfl rfl
    exact (inTurn_run hinit hes h).runFeeds hobs heph
  · have hinit : Transition.run (Service.step parse float)
        (.init stationId maxIodAgeS maxResidualM rtcm3 rtcm23) [] = some _ := rfl
    obtain ⟨es, s, hr, hes, hcalled, -, hrest⟩ := run_feeds parse float calls hd
      (delivers_run parse stationId maxIodAgeS maxResidualM rtcm3 rtcm23 hinit) ⟨rfl, rfl, rfl⟩ rfl rfl
    exact ⟨es, s, hr, hes, hcalled, hrest⟩

end Rtcm.Proof
