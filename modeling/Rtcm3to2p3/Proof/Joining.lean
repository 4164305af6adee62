import Rtcm3to2p3.Proof.Answers
import Rtcm3to2p3.Proof.Calls

/-!
# A client that joins

A client that asks for a mount on which something has been published can join
(`run_joined`). While it waits, all that is published there is published to it
(`follows_step`), and the first item finds room in its queue (`Lively`). So
a client of the RTCM 2.3 mount that joins between two epochs gets a message of
the second: `run_twoEpochs`.
-/

namespace Rtcm.Proof

open Rtcm.Impl Rtcm.Spec Transition

variable {K : Type}

/-! ## The feeds -/

/-- A feed on which an item has been announced is available, and a queue that was
offered an item has had one. -/
structure Lively (F : Fanout) (published : List Bytes) : Prop where
  available : F.feed.available = true ∨ F.publisher = .idle ∧ published = []
  received : ∀ q, F.received q = [] → (F.logs q).offers = []

theorem Lively.of_busy {F : Fanout} {published : List Bytes} (h : Lively F published) (hp : F.publisher ≠ .idle) :
    F.feed.available = true :=
  h.available.resolve_right fun hidle => hp hidle.1

theorem lively_step {F F' : Fanout} {e : Fanout.Event} {published : List Bytes} (h : Steps F e F')
    (hF : Lively F published) : Lively F' (published ++ (F.copied e).map Prod.fst) := by
  cases h with
  | subscribe | unsubscribe | nothing =>
    change Lively _ (published ++ [])
    rw [List.append_nil]
    exact ⟨hF.available, hF.received⟩
  | get q =>
    change Lively _ (published ++ [])
    rw [List.append_nil]
    refine ⟨hF.available, fun r hr => ?_⟩
    by_cases hrq : r = q
    · subst hrq
      simp only [Fanout.received, Function.update_self, BoundedQueue.Log.received_take] at hr
      simp only [Function.update_self, BoundedQueue.Log.offers_take]
      exact hF.received r hr
    · simp only [Fanout.received, Function.update_of_ne hrq] at hr ⊢
      exact hF.received r hr
  | announce data hp hd => exact ⟨.inl rfl, hF.received⟩
  | snapshot data order hp => exact ⟨.inl (hF.of_busy (by simp [hp])), hF.received⟩
  | put data q todo hp =>
    refine ⟨.inl (hF.of_busy (by simp [hp])), fun r hr => ?_⟩
    by_cases hrq : r = q
    · subst hrq
      simp only [Fanout.received, Function.update_self, BoundedQueue.Log.received_offer, List.append_eq_nil_iff] at hr
      have hempty : (F.logs r).queue.items = [] := (List.append_eq_nil_iff.mp hr.1).2
      rw [hempty, if_pos (by decide)] at hr
      cases hr.2
    · simp only [Fanout.received, Function.update_of_ne hrq] at hr ⊢
      exact hF.received r hr
  | returns data hp => exact ⟨.inl (hF.of_busy (by simp [hp])), hF.received⟩

theorem lively_serves {s s' : Caster K} {e : Caster.Event} (h : Serves s e s')
    (hs : ∀ f, Lively (s.feeds f) (s.published f)) : ∀ f, Lively (s'.feeds f) (s'.published f) := by
  have hfeed : ∀ {feed : Nat} {ev : Fanout.Event} {feed' : Fanout}, Steps (s.feeds feed) ev feed' →
      (s.feeds feed).copied ev = [] → ∀ f, Lively (Function.update s.feeds feed feed' f) (s.published f) := by
    intro feed ev feed' hf hcopied
    have hnew := lively_step hf (hs feed)
    rw [hcopied, List.map_nil, List.append_nil] at hnew
    exact forall_feeds (P := fun f F => Lively F (s.published f)) hs hnew
  cases h with
  | connects | goes | stop => exact hs
  | subscribes _ _ feed feed' _ hf | gets _ _ feed _ _ _ feed' _ _ hf | leaves _ _ feed _ feed' _ hf =>
    exact hfeed hf rfl
  | publisher feed ev feed' hp hf =>
    intro f
    by_cases hff : f = feed
    · subst hff
      simp only [withFeed, Function.update_self]
      exact lively_step hf (hs f)
    · simp only [withFeed, Function.update_of_ne hff]
      exact hs f

/-! ## Joining -/

/-- A client that asks for a mount that is available joins it, and waits for an item. -/
theorem run_joined (float : K → String) {s : Caster K} (hst : s.stopped = false) {request : Bytes} {mount : String}
    {ntrip2 : Bool} {feed : Nat} (hlen : request.length ≤ 256) (hend : CRLF ++ CRLF <:+: request)
    (hreq : NtripCaster.requested request = (mount, ntrip2)) (hget : s.caster.feeds.get? mount = some feed)
    (ha : (s.feeds feed).feed.available = true) :
    ∃ es s', Transition.run (Caster.step float) s es = some s' ∧
      (∀ e ∈ es, ∀ feed data, e ≠ .publisher feed (.publish data)) ∧ s.connections < s'.connections ∧
      s'.handlers s.connections = .waiting feed (s.feeds feed).next ∧
      s'.joined s.connections = some (feed, (s.feeds feed).next) ∧ s'.published = s.published ∧
      ∀ f, (s'.feeds f).publisher = (s.feeds f).publisher := by
  let s₁ : Caster K := { s with
    connections := s.connections + 1
    handlers := Function.update s.handlers s.connections (.requesting request []) }
  let s₂ := s₁.goes s.connections [] (.requesting [] request)
  let s₃ := s₂.goes s.connections [] (.replying ntrip2 feed)
  let s₄ := s₃.goes s.connections (NtripCaster.accepted s.caster.server ntrip2) (.subscribing feed)
  let s₅ : Caster K := { s₄ with
    feeds := Function.update s.feeds feed
      { s.feeds feed with feed := (s.feeds feed).feed.subscribe (s.feeds feed).next, next := (s.feeds feed).next + 1 }
    handlers := Function.update s₄.handlers s.connections (.serving feed (s.feeds feed).next)
    joined := Function.update s.joined s.connections (some (feed, (s.feeds feed).next)) }
  have hne : request ≠ [] := by
    rintro rfl
    cases List.eq_nil_of_infix_nil hend
  have hrecv : recv 256 255 request = (request, []) := by
    rw [recv, show min 256 (255 + 1) = 256 from rfl, List.take_of_length_le hlen, List.drop_of_length_le hlen]
  have hat : ∀ {H : Nat → Handler} {p : Handler}, Function.update H s.connections p s.connections = p :=
    Function.update_self ..
  have h₂ : s₁.turn float s.connections 255 = some s₂ := by
    simp only [Caster.turn, s₁, hat]
    rw [if_neg (by decide), if_neg hne, hrecv]
    rfl
  have h₃ : s₂.turn float s.connections 0 = some s₃ := by
    simp only [Caster.turn, s₂, Caster.goes, hat]
    rw [if_pos (.inl hend), hreq]
    simp only [s₁, hget, ha, if_true]
    rfl
  have h₄ : s₃.turn float s.connections 0 = some s₄ := by
    simp only [Caster.turn, s₃, Caster.goes, hat]
    rfl
  have h₅ : s₄.turn float s.connections 0 = some s₅ := by
    simp only [Caster.turn, s₄, Caster.goes, hat]
    rw [feedStep_quiet .subscribe rfl]
    rfl
  have h₆ : s₅.turn float s.connections 0 = some (s₅.goes s.connections [] (.waiting feed (s.feeds feed).next)) := by
    simp only [Caster.turn, s₅, hat]
    rw [show s₄.stopped = false from hst]
    rfl
  refine ⟨[.connects request, .turn s.connections 255, .turn s.connections 0, .turn s.connections 0,
    .turn s.connections 0, .turn s.connections 0], _, run_cons_of rfl (run_cons_of h₂ (run_cons_of h₃
      (run_cons_of h₄ (run_cons_of h₅ (run_cons_of h₆ rfl))))), ?_, Nat.lt_succ_self _, hat, Function.update_self ..,
    rfl, fun f => ?_⟩
  · simp
  · refine forall_feeds (P := fun f F => F.publisher = (s.feeds f).publisher) (fun _ => rfl) ?_ f
    rfl

/-! ## Waiting -/

/-! ## The service -/

variable [Field K] [LinearOrder K] [FloorRing K] [PyMath K] {parse : Bytes → Option (Msg K)} {float : K → String}

/-- A step of a thread that calls `feed_obs` or `feed_eph` is at most a feed's, for the caster. -/
theorem caster_of_own {s s' : Service K} {e : Service.Event} (h : s.step parse float e = some s')
    (he : (e.ofObs || e.ofEph) = true) :
    s'.caster = s.caster ∨ ∃ feed ev feed', Steps (s.caster.feeds feed) ev feed' ∧
      s'.caster = withFeed s.caster feed feed' (((s.caster.feeds feed).copied ev).map Prod.fst) := by
  have hfeed : ∀ {feed ev caster}, s.caster.step float (.publisher feed ev) = some caster → ∃ feed ev feed',
      Steps (s.caster.feeds feed) ev feed' ∧
        caster = withFeed s.caster feed feed' (((s.caster.feeds feed).copied ev).map Prod.fst) := by
    intro feed ev caster hc
    cases serves_step hc with
    | goes _ _ _ _ he => cases he
    | publisher _ _ feed' _ hf => exact ⟨feed, ev, feed', hf, rfl⟩
  cases acts_step parse h with
  | obsData | obsTurn | ephData | ephTurn => exact .inl rfl
  | publishes feed data pending caster hp hc => exact .inr (hfeed hc)
  | caster ev caster hcalls hc =>
    cases ev with
    | publisher feed ev => exact .inr (hfeed hc)
    | _ => cases he

/-- The client waits on its queue, and what has been published on the feed since
then has been published to it. -/
def Attends (s₀ : Caster K) (t f q : Nat) (s : Caster K) : Prop :=
  s.handlers t = .waiting f q ∧ s.joined t = s₀.joined t ∧
    ∃ items, s.published f = s₀.published f ++ items ∧ s.since t = s₀.since t ++ items

theorem attends_run {s s' : Service K} {es : List Service.Event} {t f q : Nat}
    (h : Transition.run (Service.step parse float) s es = some s') (hes : ∀ e ∈ es, (e.ofObs || e.ofEph) = true)
    (hw : s.caster.handlers t = .waiting f q) : Attends s.caster t f q s'.caster := by
  have hnow : Attends s.caster t f q s.caster := ⟨hw, rfl, [], (List.append_nil _).symm, (List.append_nil _).symm⟩
  refine keeps_of (I := fun s' : Service K => Attends s.caster t f q s'.caster) (fun s₁ e s₂ hs he hI => ?_) h hes hnow
  rcases caster_of_own hs he with hc | ⟨feed, ev, feed', hf, hc⟩
  · exact hc ▸ hI
  · obtain ⟨hw, hj, items, hp, hsince⟩ := hI
    rw [hc]
    refine ⟨hw, hj, ?_⟩
    simp only [withFeed, hw, Handler.queue, Option.map_some, Option.some.injEq]
    by_cases hff : f = feed
    · subst hff
      refine ⟨items ++ ((s₁.caster.feeds f).copied ev).map Prod.fst, ?_, ?_⟩
      · rw [Function.update_self, hp, List.append_assoc]
      · rw [if_pos rfl, hsince, List.append_assoc]
    · refine ⟨items, ?_, ?_⟩
      · rwa [Function.update_of_ne hff]
      · rwa [if_neg hff]

theorem lively_run {stationId : StationId} {maxIodAgeS maxResidualM : K} {rtcm3 rtcm23 : MountInfo K}
    {es : List Service.Event} {s : Service K}
    (h : Transition.run (Service.step parse float) (.init stationId maxIodAgeS maxResidualM rtcm3 rtcm23) es = some s) :
    ∀ f, Lively (s.caster.feeds f) (s.caster.published f) := by
  refine keeps (I := fun s : Service K => ∀ f, Lively (s.caster.feeds f) (s.caster.published f))
    (fun s e s' hs hI => ?_) h fun f => ⟨.inr ⟨rfl, rfl⟩, fun _ _ => rfl⟩
  cases acts_step parse hs with
  | obsData | obsTurn | ephData | ephTurn => exact hI
  | publishes _ _ _ _ _ hc => exact lively_serves (serves_step hc) hI
  | caster _ _ _ hc => exact lively_serves (serves_step hc) hI

/-- A client that waits has got an item, or gets one next, if something has been
published to it. -/
theorem run_got {stationId : StationId} {maxIodAgeS maxResidualM : K} {rtcm3 rtcm23 : MountInfo K}
    {es : List Service.Event} {s : Service K}
    (h : Transition.run (Service.step parse float) (.init stationId maxIodAgeS maxResidualM rtcm3 rtcm23) es = some s)
    {t f q : Nat} (hidle : (s.caster.feeds f).publisher = .idle) (hw : s.caster.handlers t = .waiting f q)
    (hsince : s.caster.since t ≠ []) :
    ∃ es' s', Transition.run (Service.step parse float) (.init stationId maxIodAgeS maxResidualM rtcm3 rtcm23) es' =
      some s' ∧ s'.epochs = s.epochs ∧ s'.caster.joined t = some (f, q) ∧ ((s'.caster.feeds f).logs q).taken ≠ [] := by
  have hd := delivers_run parse stationId maxIodAgeS maxResidualM rtcm3 rtcm23 h
  have hj : s.caster.joined t = some (f, q) := hd.sound.members.queue t (f, q) (by rw [hw]; rfl)
  have hoffers : ((s.caster.feeds f).logs q).offers ≠ [] := by
    intro hnone
    refine hsince ((hd.sound.records.since t f q hj).symm.trans ?_)
    rw [offered, hnone, Fanout.inFlight, hidle]
    rfl
  cases hq : ((s.caster.feeds f).logs q).queue.get? with
  | none =>
    refine ⟨es, s, h, rfl, hj, fun htaken => hoffers ((lively_run h f).received q ?_)⟩
    have hempty : ((s.caster.feeds f).logs q).queue.items = [] := by
      unfold BoundedQueue.get? at hq
      split at hq
      · assumption
      · cases hq
    rw [Fanout.received, BoundedQueue.Log.received, htaken, hempty]
    rfl
  | some x =>
    obtain ⟨item, queue⟩ := x
    let s' : Caster K := { s.caster with
      feeds := Function.update s.caster.feeds f
        { s.caster.feeds f with
          logs := Function.update (s.caster.feeds f).logs q ((s.caster.feeds f).logs q).take }
      handlers := Function.update s.caster.handlers t (.sending f q item) }
    have hturn : s.caster.step float (.turn t 0) = some s' := by
      simp only [Caster.step, Caster.turn, hw, hq]
      rw [feedStep_quiet (.get q) rfl, Option.map_some, goes_nil]
    have hget : Transition.run (Caster.step float) s.caster [.turn t 0] = some s' := run_cons_of hturn rfl
    have hrun := run_caster parse (by simp) hget
    refine ⟨_, { s with caster := s' }, Transition.run_append_of h hrun, rfl, hj, ?_⟩
    simp only [s', Function.update_self]
    rw [taken_get hq]
    exact List.append_ne_nil_of_right_ne_nil _ (List.cons_ne_nil _ _)

/-! ## A client between two epochs -/

/-- The second epoch yields a message too. -/
theorem twoEpochs_published : ∃ items, items ≠ [] ∧
    (runFeeds parseBoth (.new ⟨1023, by decide⟩ (7200 : ℝ) 100)
      (bothFrames ++ [(.obs, observedFrame)] ++ [(.obs, observedFrame)])).rtcm23Feed =
    (runFeeds parseBoth (.new ⟨1023, by decide⟩ (7200 : ℝ) 100)
      (bothFrames ++ [(.obs, observedFrame)])).rtcm23Feed ++ items := by
  obtain ⟨c₁, h₁, he₁⟩ := epochs_bothFrames (fun _ _ => rfl) ⟨1023, by decide⟩
  obtain ⟨c₂, corr, p, h₂, hprn, hiod, hudre, he₂⟩ :=
    epochs_observedOf h₁ isFrame_observedFrame parseBoth_observedFrame rfl
  obtain ⟨c₃, corr', p', -, hprn', hiod', hudre', he₃⟩ :=
    epochs_observedOf h₂ isFrame_observedFrame parseBoth_observedFrame rfl
  let s₀ : Sender ℝ := senderOf (.new ⟨1023, by decide⟩ 7200 100)
  let e : Epoch ℝ := ⟨(1, 0, 0), 100000 / 1000, [corr]⟩
  let e' : Epoch ℝ := ⟨(1, 0, 0), 100000 / 1000, [corr']⟩
  have hlog₁ := (run_sender parseBoth (bothFrames ++ [(.obs, observedFrame)])
    (.new ⟨1023, by decide⟩ (7200 : ℝ) 100)).log
  have hlog₂ := (run_sender parseBoth (bothFrames ++ [(.obs, observedFrame)] ++ [(.obs, observedFrame)])
    (.new ⟨1023, by decide⟩ (7200 : ℝ) 100)).log
  rw [he₁, he₂] at hlog₁
  rw [List.append_assoc, List.singleton_append, he₁, he₂, he₃] at hlog₂
  obtain ⟨enc, henc, -, hstep⟩ := epoch_step (s := s₀) ⟨false, false, rfl⟩ e
  obtain ⟨-, hlast⟩ := hstep.both_of rfl (placed_nearCentre (100000 / 1000) [corr])
    ((fits_singleton hiod hudre).mpr (by rw [hprn]; decide))
  obtain ⟨enc', -, -, hstep'⟩ := epoch_step (hstep.encoder_eq ▸ henc) e'
  have hcalls := hstep'.corrections_only (hlast ▸ type3Recent_self _)
    ((fits_singleton hiod' hudre').mpr (by rw [hprn']; decide))
  refine ⟨(((s₀.epoch e).2.epoch e').1).map Prod.snd, fun hnil => ?_, ?_⟩
  · rw [List.map_eq_nil_iff.mp hnil] at hcalls
    cases hcalls
  · have hnil : ∀ c : Converter ℝ, epochs parseBoth c [] = [] := fun _ => rfl
    rw [List.append_assoc bothFrames, List.singleton_append, hlog₁, hlog₂, hnil, hnil]
    simp only [List.map_cons, List.map_nil, Sender.run, List.flatten_cons, List.flatten_nil, List.append_nil,
      List.map_append, List.append_assoc]
    rfl

/-- The client joins after the first epoch. -/
theorem run_twoEpochs : ∃ es s q, Transition.run (Service.step parseBoth fun _ => "")
    (.init ⟨1023, by decide⟩ (7200 : ℝ) 100 { mount := "RTCM3", lat := 0, lon := 0 }
      { mount := "RTCM23", lat := 0, lon := 0 }) es = some s ∧ s.epochs ≠ [] ∧ s.caster.joined 0 = some (1, q) ∧
      ((s.caster.feeds 1).logs q).taken ≠ [] := by
  let s₀ : Service ℝ := .init ⟨1023, by decide⟩ 7200 100 { mount := "RTCM3", lat := 0, lon := 0 }
    { mount := "RTCM23", lat := 0, lon := 0 }
  have hdelivers : ∀ {es s}, Transition.run (Service.step parseBoth fun _ => "") s₀ es = some s →
      Delivers (.new ⟨1023, by decide⟩ 7200 100) s := delivers_run parseBoth _ _ _ _ _
  obtain ⟨es₁, s₁, h₁, hone₁, hcalled₁, hown₁, hq₁, hobs₁, heph₁⟩ := run_feeds parseBoth (fun _ => "")
    (bothFrames ++ [(.obs, observedFrame)]) (by decide) (hdelivers (run_nil s₀)) ⟨rfl, rfl, rfl⟩ rfl rfl
  have hpub₁ := published_runFeeds h₁ hone₁ hq₁ hobs₁ heph₁
  rw [hcalled₁] at hpub₁
  -- The caster has had no client until then.
  have hcaster : s₁.caster.caster = s₀.caster.caster ∧ s₁.caster.stopped = false ∧ s₁.caster.connections = 0 := by
    refine keeps_of (I := fun s : Service ℝ => s.caster.caster = s₀.caster.caster ∧ s.caster.stopped = false ∧
      s.caster.connections = 0) (fun s e s' hs he hI => ?_) h₁ hown₁ ⟨rfl, rfl, rfl⟩
    rcases caster_of_own hs he with hc | ⟨_, _, _, -, hc⟩ <;> exact hc ▸ hI
  have havailable : (s₁.caster.feeds 1).feed.available = true :=
    (lively_run h₁ 1).available.resolve_right fun hnone => oneEpoch_published (hpub₁.symm.trans hnone.2)
  have hrequest : NtripCaster.requested (encode "GET /RTCM23 HTTP/1.0\r\n\r\n") = ("RTCM23", false) := by decide +kernel
  have hmount : s₁.caster.caster.feeds.get? "RTCM23" = some 1 := by
    rw [hcaster.1]
    decide +kernel
  obtain ⟨ces, c, hjoins, hces, -, hw, -, hsame, hidle⟩ := run_joined (fun _ => "") hcaster.2.1 (by decide +kernel)
    (by decide +kernel) hrequest hmount havailable
  rw [hcaster.2.2] at hw
  -- The service, with the client that has joined.
  have hjoined := run_caster parseBoth hces hjoins
  have h₂ := Transition.run_append_of h₁ hjoined
  have hq₂ : Service.quiet { s₁ with caster := c } := ⟨hq₁.1, (hidle 0).trans hq₁.2.1, (hidle 1).trans hq₁.2.2⟩
  obtain ⟨es₃, s₃, h₃, hone₃, hcalled₃, hown₃, hq₃, hobs₃, heph₃⟩ :=
    run_call parseBoth (fun _ => "") (hdelivers h₂) hq₂ hobs₁ heph₁ .obs (show observedFrame ≠ [] by decide)
  have hquiet : ∀ e ∈ ces.map Service.Event.caster, e.called = none := by
    intro e he
    obtain ⟨ev, -, rfl⟩ := List.mem_map.mp he
    rfl
  have h₁₂₃ := Transition.run_append_of h₂ h₃
  have hone := oneAtATime_append h₂ (oneAtATime_append h₁ hone₁ (oneAtATime_quiet s₁ hquiet)) hone₃
  have hpub₃ := published_runFeeds h₁₂₃ hone hq₃ hobs₃ heph₃
  rw [List.filterMap_append, List.filterMap_append, hcalled₁, List.filterMap_eq_nil_iff.mpr hquiet, List.append_nil,
    hcalled₃] at hpub₃
  -- What the second epoch yields is published to the client.
  obtain ⟨hw₃, -, items, hitems, hsince⟩ := attends_run h₃ hown₃ hw
  obtain ⟨more, hmore, hgrown⟩ := twoEpochs_published
  have hne : s₃.caster.since 0 ≠ [] := by
    have hnew : items = more := by
      refine List.append_cancel_left ((hitems.symm.trans hpub₃).trans (hgrown.trans ?_))
      rw [hsame, hpub₁]
    rw [hsince, hnew]
    exact List.append_ne_nil_of_right_ne_nil _ hmore
  obtain ⟨es', s', h', hepochs, hj, htaken⟩ := run_got h₁₂₃ hq₃.2.2 hw₃ hne
  refine ⟨es', s', _, h', hepochs ▸ epochs_ne_nil (hdelivers h₁₂₃) fun hnone => ?_, hj, htaken⟩
  rw [hitems, hsame, hpub₁] at hnone
  exact oneEpoch_published (List.append_eq_nil_iff.mp hnone).1

end Rtcm.Proof
