import Mathlib.Data.Prod.Lex
import Rtcm3to2p3.Proof.Service

/-!
# The calls return

A step of the observation thread leaves less of its call: first the frames and
the loops of `corrections` (`stageLeft_lt`), then the `publish` calls that they
made, then what each of these copies and puts (`callLeft_lt`). Nothing else adds
to it (`callLeft_le`), and the thread is never kept from its next step
(`obs_steps`). So it comes out of `feed_obs` again and again, whatever the
clients do (`service_returns`).
-/

namespace Rtcm.Proof

open Rtcm.Impl Rtcm.Spec Transition

variable {K : Type}

/-! ## What is left of a call -/

/-- Of `gen.corrections`: the loops, and the turns of the first of them. -/
def phaseLeft : Phase K → Nat ×ₗ Nat
  | .select _ todo _ => toLex (3, todo.length)
  | .rate _ todo _ => toLex (2, todo.length)
  | .emit _ todo _ => toLex (1, todo.length)
  | .done _ => toLex (0, 0)

/-- Of the loop over the frames. -/
def stageLeft : ObsStage K → Nat ×ₗ Nat ×ₗ Nat
  | .idle => toLex (0, toLex (0, 0))
  | .looping frames => toLex (2 * frames.length + 1, toLex (0, 0))
  | .correcting _ phase frames => toLex (2 * frames.length + 2, phaseLeft phase)

/-- The copy of the set is still to be made. -/
def copiesLeft : Publisher → Nat
  | .copying _ => 1
  | _ => 0

/-- The puts that are left, and the return. -/
def putsLeft : Publisher → Nat
  | .putting _ todo => todo.length + 1
  | _ => 0

/-- Of the observation thread's call of `feed_obs`. -/
def callLeft (s : Service K) : (Nat ×ₗ Nat ×ₗ Nat) ×ₗ Nat ×ₗ Nat ×ₗ Nat :=
  toLex (stageLeft s.obs, toLex (s.pending.length, toLex
    (copiesLeft (s.caster.feeds 0).publisher + copiesLeft (s.caster.feeds 1).publisher,
      putsLeft (s.caster.feeds 0).publisher + putsLeft (s.caster.feeds 1).publisher)))

theorem callLeft_obs {s s' : Service K} (h : stageLeft s'.obs < stageLeft s.obs) : callLeft s' < callLeft s :=
  Prod.Lex.toLex_lt_toLex.mpr (.inl h)

theorem callLeft_pending {s s' : Service K} (hobs : s'.obs = s.obs) (h : s'.pending.length < s.pending.length) :
    callLeft s' < callLeft s := by
  refine Prod.Lex.toLex_lt_toLex.mpr (.inr ⟨?_, Prod.Lex.toLex_lt_toLex.mpr (.inl h)⟩)
  rw [hobs]

/-- A publisher's step, of a call that it is in. -/
theorem publisherLeft_lt {F F' : Fanout} {e : Fanout.Event} (h : Steps F e F') (he : Caster.isPublisher e = true)
    (hcall : Fanout.called e = none) : copiesLeft F'.publisher < copiesLeft F.publisher ∨
      copiesLeft F'.publisher = copiesLeft F.publisher ∧ putsLeft F'.publisher < putsLeft F.publisher := by
  cases h with
  | subscribe | unsubscribe | get => cases he
  | nothing | announce => cases hcall
  | snapshot data order hp =>
    left
    rw [hp]
    exact Nat.zero_lt_one
  | put data q todo hp =>
    right
    rw [hp]
    exact ⟨rfl, Nat.lt_succ_self _⟩
  | returns data hp =>
    right
    rw [hp]
    exact ⟨rfl, Nat.succ_pos _⟩

theorem callLeft_publisher {s : Service K} {f : Nat} (hf : f < 2) {F : Fanout} {items : List Bytes}
    (h : copiesLeft F.publisher < copiesLeft (s.caster.feeds f).publisher ∨
      copiesLeft F.publisher = copiesLeft (s.caster.feeds f).publisher ∧
        putsLeft F.publisher < putsLeft (s.caster.feeds f).publisher) :
    callLeft { s with caster := withFeed s.caster f F items } < callLeft s := by
  refine Prod.Lex.toLex_lt_toLex.mpr (.inr ⟨rfl, Prod.Lex.toLex_lt_toLex.mpr (.inr ⟨rfl,
    Prod.Lex.toLex_lt_toLex.mpr ?_⟩)⟩)
  obtain rfl | rfl : f = 0 ∨ f = 1 := by omega
  · simp only [withFeed, Function.update_self, Function.update_of_ne Nat.one_ne_zero]
    omega
  · simp only [withFeed, Function.update_self, Function.update_of_ne Nat.zero_ne_one]
    omega

/-! ## The observation thread's steps -/

section

variable [Field K] [LinearOrder K] [FloorRing K] [PyMath K] (parse : Bytes → Option (Msg K))

omit [FloorRing K] in
theorem phaseLeft_turn (tow : K) (g : DgpsGenerator K) {phase : Phase K} (h : ∀ result, phase ≠ .done result) :
    phaseLeft (Threads.turn tow ⟨g, phase, fun _ => none, fun _ => none⟩).phase < phaseLeft phase := by
  unfold Threads.turn
  rcases phase with ⟨base, _ | ⟨⟨prn, pr⟩, todo⟩, raw⟩ | ⟨raw, _ | ⟨⟨prn, value⟩, todo⟩, rate⟩ |
    ⟨o, _ | ⟨⟨prn, value⟩, todo⟩, out⟩ | result
  · dsimp only
    split
    · exact Prod.Lex.toLex_lt_toLex.mpr (.inl (Nat.succ_pos _))
    · exact Prod.Lex.toLex_lt_toLex.mpr (.inl (Nat.lt_succ_self _))
  · dsimp only
    split
    · exact Prod.Lex.toLex_lt_toLex.mpr (.inl (Nat.succ_pos _))
    · exact Prod.Lex.toLex_lt_toLex.mpr (.inr ⟨rfl, Nat.lt_succ_self _⟩)
  · exact Prod.Lex.toLex_lt_toLex.mpr (.inl (Nat.lt_succ_self _))
  · exact Prod.Lex.toLex_lt_toLex.mpr (.inr ⟨rfl, Nat.lt_succ_self _⟩)
  · exact Prod.Lex.toLex_lt_toLex.mpr (.inl Nat.one_pos)
  · dsimp only
    split
    · exact Prod.Lex.toLex_lt_toLex.mpr (.inl Nat.one_pos)
    · exact Prod.Lex.toLex_lt_toLex.mpr (.inr ⟨rfl, Nat.lt_succ_self _⟩)
  · exact absurd rfl (h result)

/-- A step in `feed_obs` leaves less of it. -/
theorem stageLeft_lt (c : Converter K) {stage : ObsStage K} (h : stage ≠ .idle) :
    stageLeft (Service.obsTurn parse c stage).1 < stageLeft stage := by
  have hlt : ∀ {stage stage' : ObsStage K}, (ofLex (stageLeft stage')).1 < (ofLex (stageLeft stage)).1 →
      stageLeft stage' < stageLeft stage := fun h => Prod.Lex.lt_iff.mpr (.inl h)
  cases stage with
  | idle => exact absurd rfl h
  | looping frames =>
    cases frames with
    | nil => exact hlt (Nat.succ_pos _)
    | cons frame frames =>
      have hnext : stageLeft (.looping frames : ObsStage K) < stageLeft (.looping (frame :: frames) : ObsStage K) := by
        refine hlt ?_
        simp only [stageLeft, List.length_cons, ofLex_toLex]
        omega
      simp only [Service.obsTurn, Converter.parseFrame]
      cases parse frame with
      | none => exact hnext
      | some msg =>
        cases msg with
        | station | gpsEphemeris | other => exact hnext
        | gpsMsm7 msg =>
          dsimp only
          cases parseGpsMsm7 msg with
          | error e => exact hlt (Nat.succ_pos _)
          | ok x =>
            refine hlt ?_
            simp only [stageLeft, List.length_cons, ofLex_toLex]
            omega
  | correcting tow phase frames =>
    have hnext : stageLeft (.looping frames : ObsStage K) < stageLeft (.correcting tow phase frames) :=
      hlt (Nat.lt_succ_self _)
    cases phase with
    | select | rate | emit =>
      exact Prod.Lex.toLex_lt_toLex.mpr (.inr ⟨rfl, phaseLeft_turn tow c.gen fun _ h => by cases h⟩)
    | done result =>
      simp only [Service.obsTurn]
      cases result with
      | error e => exact hlt (Nat.succ_pos _)
      | ok corrections =>
        dsimp only
        split
        · exact hnext
        · rcases c.send tow corrections with ⟨_ | _, c'⟩
          · exact hlt (Nat.succ_pos _)
          · exact hnext

/-! ## The other threads' steps -/

/-- Only the two feeds are published on. -/
structure TwoFeeds (s : Service K) : Prop where
  pending : ∀ x ∈ s.pending, x.1 < 2
  others : ∀ f, 2 ≤ f → (s.caster.feeds f).publisher = .idle

omit [Field K] [LinearOrder K] [FloorRing K] [PyMath K] in
/-- A step of the caster that is not the publisher's leaves the publishers as they are. -/
theorem publishers_step {s s' : Caster K} {e : Caster.Event} (h : Serves s e s') (he : ∀ f ev, e ≠ .publisher f ev)
    (f : Nat) : (s'.feeds f).publisher = (s.feeds f).publisher := by
  cases h with
  | connects | goes | stop => rfl
  | subscribes _ _ feed feed' _ hf | gets _ _ feed _ _ _ feed' _ _ hf | leaves _ _ feed _ feed' _ hf =>
    refine forall_feeds (P := fun f F => F.publisher = (s.feeds f).publisher) (fun _ => rfl) ?_ f
    cases hf
    rfl
  | publisher feed ev => exact absurd rfl (he feed ev)

theorem twoFeeds_step {float : K → String} {s s' : Service K} {e : Service.Event}
    (h : s.step parse float e = some s') (hs : TwoFeeds s) : TwoFeeds s' := by
  cases acts_step parse h with
  | obsData data hi hq hne =>
    refine ⟨fun x hx => ?_, hs.others⟩
    rw [List.mem_singleton.mp hx]
    exact Nat.two_pos
  | obsTurn hq =>
    refine ⟨fun x hx => ?_, hs.others⟩
    obtain ⟨d, -, rfl⟩ := List.mem_map.mp hx
    exact Nat.one_lt_two
  | ephData data => exact ⟨hs.pending, hs.others⟩
  | ephTurn frame frames hf => exact ⟨hs.pending, hs.others⟩
  | publishes feed data pending caster hp hc =>
    have hlt := hs.pending (feed, data) (hp ▸ List.mem_cons_self)
    refine ⟨fun x hx => hs.pending x (hp ▸ List.mem_cons_of_mem _ hx), fun f hf => ?_⟩
    cases serves_step hc with
    | goes e h bytes p he => cases he
    | publisher _ _ feed' _ hstep =>
      have hne : f ≠ feed := by omega
      simp only [withFeed, Function.update_of_ne hne]
      exact hs.others f hf
  | caster ev caster hcalls hc =>
    refine ⟨hs.pending, fun f hf => ?_⟩
    cases serves_step hc with
    | publisher feed ev feed' hp hstep =>
      refine forall_feeds (P := fun f F => 2 ≤ f → F.publisher = .idle) hs.others (fun hfeed => ?_) f hf
      have hidle := hs.others feed hfeed
      cases hstep with
      | subscribe | unsubscribe | get => cases hp
      | nothing => exact hidle
      | returns => rfl
      | announce data =>
        have hcall := hcalls feed
        simp [callsTo, Fanout.called] at hcall
      | snapshot data order hcopy => rw [hidle] at hcopy; cases hcopy
      | put data q todo hput => rw [hidle] at hput; cases hput
    | goes _ t bytes p he hg =>
      rw [publishers_step (.goes ev t bytes p he hg) (by rintro f e rfl; cases he)]
      exact hs.others f hf
    | connects | subscribes | gets | leaves | stop =>
      rw [publishers_step (serves_step hc) (by rintro f ev ⟨⟩)]
      exact hs.others f hf

/-- A thread's own step leaves less of its call. -/
theorem callLeft_lt {float : K → String} {s s' : Service K} {e : Service.Event} (h : s.step parse float e = some s')
    (hs : TwoFeeds s) (hout : ¬ s.outside) (he : e.ofObs = true) : callLeft s' < callLeft s := by
  cases acts_step parse h with
  | obsData data hi hq => exact absurd ⟨hi, hq⟩ hout
  | obsTurn hq => exact callLeft_obs (stageLeft_lt parse s.conv fun hi => hout ⟨hi, hq⟩)
  | ephData | ephTurn => cases he
  | publishes feed data pending caster hp hc =>
    refine callLeft_pending rfl ?_
    rw [hp]
    exact Nat.lt_succ_self _
  | caster ev caster hcalls hc =>
    obtain ⟨feed, ev, rfl⟩ : ∃ feed ev', ev = .publisher feed ev' := by
      cases ev with
      | publisher feed ev => exact ⟨feed, ev, rfl⟩
      | connects | turn | fails | empty | stop => cases he
    cases serves_step hc with
    | goes _ _ _ _ ht => cases ht
    | publisher _ _ feed' hp hf =>
      have hcall : Fanout.called ev = none := by
        have := hcalls feed
        rw [callsTo, if_pos rfl] at this
        exact Option.toList_eq_nil_iff.mp this
      have hlt := publisherLeft_lt hf hp hcall
      refine callLeft_publisher ?_ hlt
      by_contra hge
      rw [hs.others feed (Nat.le_of_not_lt hge)] at hlt
      rcases hlt with hlt | ⟨-, hlt⟩ <;> exact absurd hlt (Nat.not_lt_zero _)

/-- No other step adds to it. -/
theorem callLeft_le {float : K → String} {s s' : Service K} {e : Service.Event} (h : s.step parse float e = some s')
    (he : e.ofObs = false) : callLeft s' = callLeft s := by
  cases acts_step parse h with
  | obsData | obsTurn | publishes => cases he
  | ephData data => rfl
  | ephTurn frame frames hf => rfl
  | caster ev caster hcalls hc =>
    have hpub := publishers_step (serves_step hc) fun f ev' hev => by rw [hev] at he; cases he
    simp only [callLeft, hpub]

/-- A step of the caster that is not a call of `publish`. -/
theorem step_caster {float : K → String} {s : Service K} {e : Caster.Event}
    (he : ∀ f data, e ≠ .publisher f (.publish data)) :
    s.step parse float (.caster e) = (s.caster.step float e).map fun caster => { s with caster } := by
  cases e with
  | publisher f ev =>
    cases ev with
    | publish data => exact absurd rfl (he f data)
    | subscribe | unsubscribe | get | snapshot | put | returns => rfl
  | connects | turn | fails | empty | stop => rfl

/-- The thread always has a next step, whatever the clients do. -/
theorem obs_steps (float : K → String) {c₀ : Converter K} {s : Service K} (hd : Delivers c₀ s) (hs : TwoFeeds s) :
    ∃ e s', e.ofObs = true ∧ s.step parse float e = some s' := by
  have hpublisher : ∀ f, (s.caster.feeds f).publisher ≠ .idle →
      ∃ e s', Service.Event.ofObs e = true ∧ s.step parse float e = some s' := by
    intro f hf
    obtain ⟨ev, F, hev, hcall, hstep⟩ : ∃ ev F, Caster.isPublisher ev = true ∧ Fanout.called ev = none ∧
        Steps (s.caster.feeds f) ev F := by
      cases hp : (s.caster.feeds f).publisher with
      | idle => exact absurd hp hf
      | copying data =>
        exact ⟨_, _, rfl, rfl, .snapshot data _ hp (Finset.nodup_toList _) (Finset.toList_toFinset _)⟩
      | putting data todo =>
        cases todo with
        | nil => exact ⟨_, _, rfl, rfl, .returns data hp⟩
        | cons q todo => exact ⟨_, _, rfl, rfl, .put data q todo hp⟩
    have hcaster : s.caster.step float (.publisher f ev) =
        some (withFeed s.caster f F (((s.caster.feeds f).copied ev).map Prod.fst)) := by
      simp only [Caster.step, hev, if_true]
      exact feedStep_eq hstep
    have hnext : s.step parse float (.caster (.publisher f ev)) = _ :=
      step_caster parse fun f' data he => by cases he; cases hcall
    rw [hcaster] at hnext
    exact ⟨_, _, rfl, hnext⟩
  by_cases h0 : (s.caster.feeds 0).publisher = .idle
  · by_cases h1 : (s.caster.feeds 1).publisher = .idle
    · cases hp : s.pending with
      | nil => exact ⟨.obsTurn, _, rfl, if_pos ⟨hp, h0, h1⟩⟩
      | cons x pending =>
        obtain ⟨f, data⟩ := x
        have hf := hs.pending (f, data) (hp ▸ List.mem_cons_self)
        have hne := hd.pending (f, data) (hp ▸ List.mem_cons_self)
        have hidle : (s.caster.feeds f).publisher = .idle := by
          obtain rfl | rfl : f = 0 ∨ f = 1 := by omega
          · exact h0
          · exact h1
        have hcaster : s.caster.step float (.publisher f (.publish data)) =
            some (withFeed s.caster f _ _) := feedStep_eq (.announce data hidle hne)
        have hnext : s.step parse float (.caster (.publisher f (.publish data))) =
            (s.caster.step float (.publisher f (.publish data))).map fun caster => { s with caster, pending } := by
          simp only [Service.step, hp, h0, h1, and_self, if_true]
        rw [hcaster] at hnext
        exact ⟨_, _, rfl, hnext⟩
    · exact hpublisher 1 h1
  · exact hpublisher 0 h0

theorem ephFrames_lt {float : K → String} {s s' : Service K} {e : Service.Event} (h : s.step parse float e = some s')
    (hne : s.ephFrames ≠ []) (he : e.ofEph = true) : s'.ephFrames.length < s.ephFrames.length := by
  cases e with
  | ephData data =>
    simp only [Service.step] at h
    rw [if_neg hne] at h
    cases h
  | ephTurn =>
    cases acts_step parse h with
    | ephTurn frame frames hf =>
      rw [hf]
      exact Nat.lt_succ_self _
  | obsData | obsTurn | caster => cases he

theorem ephFrames_eq {float : K → String} {s s' : Service K} {e : Service.Event} (h : s.step parse float e = some s')
    (he : e.ofEph = false) : s'.ephFrames = s.ephFrames := by
  cases acts_step parse h with
  | ephData | ephTurn => cases he
  | obsData | obsTurn | publishes | caster => rfl

theorem eph_steps (float : K → String) {s : Service K} (hne : s.ephFrames ≠ []) :
    ∃ e s', e.ofEph = true ∧ s.step parse float e = some s' := by
  obtain ⟨frame, frames, hf⟩ := List.exists_cons_of_ne_nil hne
  refine ⟨.ephTurn, { s with conv := (s.conv.onEphFrame parse frame).2, ephFrames := frames }, rfl, ?_⟩
  simp only [Service.step, hf]

/-! ## The calls return -/

/-- Every call of `feed_obs` and of `feed_eph` returns, whatever clients and
other threads do. From any state that is reached the thread that called it can
come out of it by steps of its own; and in a run without end in which it always
has another step, it is out of it again and again. -/
theorem service_returns (stationId : StationId) (maxIodAgeS maxResidualM : K) (rtcm3 rtcm23 : MountInfo K)
    (float : K → String) :
    (∀ es s, Transition.run (Service.step parse float) (.init stationId maxIodAgeS maxResidualM rtcm3 rtcm23) es =
      some s →
      (∃ es' s', Transition.run (Service.step parse float) s es' = some s' ∧ (∀ e ∈ es', e.ofObs = true) ∧
        s'.outside) ∧
      ∃ es' s', Transition.run (Service.step parse float) s es' = some s' ∧ (∀ e ∈ es', e.ofEph = true) ∧
        s'.ephFrames = []) ∧
    ∀ (states : Nat → Service K) (events : Nat → Service.Event),
      states 0 = .init stationId maxIodAgeS maxResidualM rtcm3 rtcm23 →
      (∀ i, (states i).step parse float (events i) = some (states (i + 1))) →
      ((∀ i, ∃ j, i ≤ j ∧ (events j).ofObs = true) → ∀ i, ∃ j, i ≤ j ∧ (states j).outside) ∧
      ((∀ i, ∃ j, i ≤ j ∧ (events j).ofEph = true) → ∀ i, ∃ j, i ≤ j ∧ (states j).ephFrames = []) := by
  have hkeep : ∀ s e s', s.step parse float e = some s' →
      Delivers (.new stationId maxIodAgeS maxResidualM) s ∧ TwoFeeds s →
      Delivers (.new stationId maxIodAgeS maxResidualM) s' ∧ TwoFeeds s' :=
    fun s e s' h hI => ⟨delivers_step parse h hI.1, twoFeeds_step parse h hI.2⟩
  have hnil : Transition.run (Service.step parse float) (.init stationId maxIodAgeS maxResidualM rtcm3 rtcm23) [] =
      some _ := rfl
  have hinit : Delivers (.new stationId maxIodAgeS maxResidualM)
      (.init stationId maxIodAgeS maxResidualM rtcm3 rtcm23 : Service K) ∧
      TwoFeeds (.init stationId maxIodAgeS maxResidualM rtcm3 rtcm23 : Service K) :=
    ⟨delivers_run parse stationId maxIodAgeS maxResidualM rtcm3 rtcm23 hnil,
      (fun x hx => nomatch hx), fun f hf => rfl⟩
  have hobs : ∀ s e s', s.step parse float e = some s' →
      Delivers (.new stationId maxIodAgeS maxResidualM) s ∧ TwoFeeds s →
      ¬ s.outside → e.ofObs = true → callLeft s' < callLeft s :=
    fun s e s' h hI hout he => callLeft_lt parse h hI.2 hout he
  have heph : ∀ s e s', s.step parse float e = some s' →
      Delivers (.new stationId maxIodAgeS maxResidualM) s ∧ TwoFeeds s →
      ¬ s.ephFrames = [] → e.ofEph = true → s'.ephFrames.length < s.ephFrames.length :=
    fun s e s' h hI hne he => ephFrames_lt parse h hne he
  refine ⟨fun es s h => ⟨?_, ?_⟩, fun states events h0 hrun => ⟨fun hfair i => ?_, fun hfair i => ?_⟩⟩
  · exact reaches hkeep hobs (fun s hI _ => obs_steps parse float hI.1 hI.2) (keeps hkeep h hinit)
  · exact reaches hkeep heph (fun s hI hne => eph_steps parse float hne) (keeps hkeep h hinit)
  · exact recurs hkeep hobs (fun s e s' h hI hout he => (callLeft_le parse h (Bool.eq_false_iff.mpr he)).le) hrun
      (h0 ▸ hinit) hfair i
  · refine recurs hkeep heph (fun s e s' h hI hne he => ?_) hrun (h0 ▸ hinit) hfair i
    rw [ephFrames_eq parse h (Bool.eq_false_iff.mpr he)]

/-- Outside `feed_obs` the observation thread has nothing to do. -/
theorem step_outside (float : K → String) {s : Service K} (h : s.outside) :
    s.step parse float .obsTurn = some s := by
  obtain ⟨conv, obs, ephFrames, pending, caster, chunks, epochs⟩ := s
  obtain ⟨hobs, hq⟩ := h
  obtain rfl : obs = .idle := hobs
  obtain rfl : pending = [] := hq.1
  simp only [Service.step, hq, if_true, Service.obsTurn, Service.sends, List.drop_length, List.map_nil,
    Option.toList_none, List.append_nil]

end

/-- A run of a service without a parser. -/
noncomputable def relayed (maxIodAgeS maxResidualM : ℝ) (es : List Service.Event) : Option (Service ℝ) :=
  Transition.run (Service.step (fun _ => none) fun _ => "") (.init ⟨1023, by decide⟩ maxIodAgeS maxResidualM
    { mount := "RTCM3", lat := 0, lon := 0 } { mount := "RTCM23", lat := 0, lon := 0 }) es

/-- A chunk without a frame is published to no one. -/
def oneChunk : List Service.Event :=
  [.obsData [1], .caster (.publisher 0 (.publish [1])), .caster (.publisher 0 (.snapshot [])),
    .caster (.publisher 0 .returns), .obsTurn]

/-- Whether the observation thread waits for a chunk. -/
def atIdle : ObsStage ℝ → Bool
  | .idle => true
  | .looping _ => false
  | .correcting _ _ _ => false

theorem service_returns_chunk : ∃ (states : Nat → Service ℝ) (events : Nat → Service.Event),
    events 0 = .obsData [1] ∧ ∃ j, 1 ≤ j ∧ (states j).outside := by
  have h : (relayed 7200 100 oneChunk).map (fun s => decide (atIdle s.obs = true) && decide s.quiet) = some true := by
    decide +kernel
  obtain ⟨s, hs, hr⟩ := Option.map_eq_some_iff.mp h
  rw [Bool.and_eq_true, decide_eq_true_eq, decide_eq_true_eq] at hr
  have hout : s.outside := by
    refine ⟨?_, hr.2⟩
    cases hobs : s.obs with
    | idle => rfl
    | looping | correcting =>
      rw [hobs] at hr
      cases hr.1
  obtain ⟨states, events, h0, hrun, hfirst, hend⟩ := goes_on hs (step_outside (fun _ => none) (fun _ => "") hout)
  have hfair : ∀ i, ∃ j, i ≤ j ∧ (events j).ofObs = true := by
    intro i
    refine ⟨i + oneChunk.length, Nat.le_add_right i _, ?_⟩
    rw [hend _ (Nat.le_add_left _ i)]
    rfl
  obtain ⟨j, hj, hgood⟩ := ((service_returns (fun _ => none) ⟨1023, by decide⟩ 7200 100 _ _ _).2 states events h0
    hrun).1 hfair 1
  exact ⟨states, events, (Option.some.inj (hfirst 0 (by decide))).symm, j, hj, hgood⟩

end Rtcm.Proof
