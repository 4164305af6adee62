import Rtcm3to2p3.Proof.Clients
import Rtcm3to2p3.Proof.Gaps
import Rtcm3to2p3.Proof.Sender
import Rtcm3to2p3.Spec.Reals
import Rtcm3to2p3.Spec.Service

/-!
# The service as a whole

The observation thread sends what the sender of `Epochs` sends for the same
epochs (`obsTurn_observes`), and publishes it in this order whatever the others
do: the invariant `Delivers`, kept by every step (`delivers_step`). What has been
published on the feed of RTCM 2.3 then decodes to the messages of the epochs
(`published_decodes`).
-/

namespace Rtcm.Proof

open Rtcm.Impl Rtcm.Spec Transition

variable {K : Type} [Field K] [LinearOrder K] [FloorRing K]

/-! ## The observation thread -/

/-- What a step of the observation thread leaves, and what it sends. -/
structure Observes (c c' : Converter K) (epoch : Option (Epoch K)) : Prop where
  rtcm3Feed : c'.rtcm3Feed = c.rtcm3Feed
  obsBuf : c'.obsBuf = c.obsBuf
  ephBuf : c'.ephBuf = c.ephBuf
  sender : senderOf c' = ((senderOf c).run epoch.toList).2
  rtcm23Feed : c'.rtcm23Feed = c.rtcm23Feed ++ ((senderOf c).run epoch.toList).1.flatten.map Prod.snd

theorem Observes.quiet {c c' : Converter K} (h3 : c'.rtcm3Feed = c.rtcm3Feed) (ho : c'.obsBuf = c.obsBuf)
    (he : c'.ephBuf = c.ephBuf) (hs : senderOf c' = senderOf c) (hf : c'.rtcm23Feed = c.rtcm23Feed) :
    Observes c c' none :=
  ⟨h3, ho, he, hs, hf.trans (List.append_nil _).symm⟩

/-- A call of `corrections` that finds no station has nothing to do. -/
def Based (gen : DgpsGenerator K) : ObsStage K → Prop
  | .correcting _ phase _ => gen.base = none → phase = .done (.ok [])
  | _ => True

omit [Field K] [LinearOrder K] [FloorRing K] in
theorem based_start (gen : DgpsGenerator K) (tow : K) (pseudoranges : Dict Int K) (frames : List Bytes) :
    Based gen (.correcting tow (Threads.start gen pseudoranges).phase frames) := by
  intro hb
  simp only [Threads.start, hb]

variable [PyMath K] (parse : Bytes → Option (Msg K))

omit [FloorRing K] in
theorem turn_base (tow : K) (call : Threads K) : (call.turn tow).gen.base = call.gen.base ∧
    (call.turn tow).gen.ephemerides = call.gen.ephemerides := by
  obtain ⟨g, phase, read, stored⟩ := call
  unfold Threads.turn
  rcases phase with ⟨base, _ | ⟨x, todo⟩, raw⟩ | ⟨raw, _ | ⟨x, todo⟩, rate⟩ | ⟨o, _ | ⟨x, todo⟩, out⟩ | result <;>
    exact ⟨rfl, rfl⟩

theorem obsTurn_observes {c : Converter K} {stage : ObsStage K} (hb : Based c.gen stage) :
    Observes c (Service.obsTurn parse c stage).2 (Service.sends c stage) ∧
      Based (Service.obsTurn parse c stage).2.gen (Service.obsTurn parse c stage).1 := by
  have hsame : Observes c c none := .quiet rfl rfl rfl rfl rfl
  cases stage with
  | idle => exact ⟨hsame, trivial⟩
  | looping frames =>
    cases frames with
    | nil => exact ⟨hsame, trivial⟩
    | cons frame frames =>
      simp only [Service.obsTurn, Converter.parseFrame]
      cases parse frame with
      | none => exact ⟨.quiet rfl rfl rfl rfl rfl, trivial⟩
      | some msg =>
        cases msg with
        | station msg => exact ⟨.quiet rfl rfl rfl rfl rfl, trivial⟩
        | gpsEphemeris | other => exact ⟨hsame, trivial⟩
        | gpsMsm7 msg =>
          dsimp only
          rcases parseGpsMsm7 msg with _ | ⟨tow, prs⟩
          · exact ⟨hsame, trivial⟩
          · exact ⟨hsame, based_start c.gen tow prs frames⟩
  | correcting tow phase frames =>
    have hturn : ∀ phase : Phase K, Observes c
        { c with gen := (Threads.turn tow ⟨c.gen, phase, fun _ => none, fun _ => none⟩).gen } none :=
      fun phase => .quiet rfl rfl rfl rfl rfl
    have hbase : ∀ phase : Phase K, Based c.gen (.correcting tow phase frames) → phase ≠ .done (.ok []) →
        Based (Threads.turn tow ⟨c.gen, phase, fun _ => none, fun _ => none⟩).gen
          (.correcting tow (Threads.turn tow ⟨c.gen, phase, fun _ => none, fun _ => none⟩).phase frames) := by
      intro phase hb hne hnone
      rw [(turn_base tow _).1] at hnone
      exact absurd (hb hnone) hne
    cases phase with
    | select | rate | emit => exact ⟨hturn _, hbase _ hb (by intro h; cases h)⟩
    | done result =>
      cases result with
      | error e => exact ⟨hsame, trivial⟩
      | ok corrections =>
        cases corrections with
        | nil => exact ⟨hsame, trivial⟩
        | cons x xs =>
          cases hbase : c.gen.base with
          | none => cases hb hbase
          | some base =>
            have hin := send_inputs c tow (x :: xs)
            obtain ⟨hs, hf⟩ := send_sender (e := ⟨base, tow, x :: xs⟩) hbase
            have hobs : Observes c (c.send tow (x :: xs)).2 (some ⟨base, tow, x :: xs⟩) := by
              refine ⟨hin.rtcm3Feed, hin.obsBuf, hin.ephBuf, hs, ?_⟩
              rw [hf]
              simp [Sender.run]
            simp only [Service.obsTurn, Service.sends, hbase, Option.map_some, List.isEmpty_cons, Bool.false_eq_true,
              if_false]
            generalize c.send tow (x :: xs) = result at hobs ⊢
            rcases result with ⟨_ | _, c'⟩ <;> exact ⟨hobs, trivial⟩

/-! ## The steps -/

/-- The `publish` call of a feed that an event is. -/
def callsTo (f : Nat) : Caster.Event → List Bytes
  | .publisher feed e => if feed = f then (Fanout.called e).toList else []
  | _ => []

inductive Acts (float : K → String) (s : Service K) : Service.Event → Service K → Prop
  | obsData (data : Bytes) (hi : s.obs = .idle) (hq : s.quiet) (hne : data ≠ []) :
    Acts float s (.obsData data) { s with
      conv := { s.conv with
        rtcm3Feed := publish s.conv.rtcm3Feed data
        obsBuf := (extractRtcm3Frames (s.conv.obsBuf ++ data)).2 }
      obs := .looping (extractRtcm3Frames (s.conv.obsBuf ++ data)).1
      pending := [(0, data)]
      chunks := s.chunks ++ [data] }
  | obsTurn (hq : s.quiet) : Acts float s .obsTurn { s with
      conv := (Service.obsTurn parse s.conv s.obs).2
      obs := (Service.obsTurn parse s.conv s.obs).1
      pending := ((Service.obsTurn parse s.conv s.obs).2.rtcm23Feed.drop s.conv.rtcm23Feed.length).map (1, ·)
      epochs := s.epochs ++ (Service.sends s.conv s.obs).toList }
  | ephData (data : Bytes) : Acts float s (.ephData data) { s with
      conv := { s.conv with ephBuf := (extractRtcm3Frames (s.conv.ephBuf ++ data)).2 }
      ephFrames := (extractRtcm3Frames (s.conv.ephBuf ++ data)).1 }
  | ephTurn (frame : Bytes) (frames : List Bytes) (hf : s.ephFrames = frame :: frames) :
    Acts float s .ephTurn { s with conv := (s.conv.onEphFrame parse frame).2, ephFrames := frames }
  | publishes (feed : Nat) (data : Bytes) (pending : List (Nat × Bytes)) (caster : Caster K)
    (hp : s.pending = (feed, data) :: pending)
    (hc : s.caster.step float (.publisher feed (.publish data)) = some caster) :
    Acts float s (.caster (.publisher feed (.publish data))) { s with caster, pending }
  | caster (e : Caster.Event) (caster : Caster K) (hcalls : ∀ f, callsTo f e = [])
    (hc : s.caster.step float e = some caster) : Acts float s (.caster e) { s with caster }

theorem acts_step {float : K → String} {s s' : Service K} {e : Service.Event}
    (h : s.step parse float e = some s') : Acts parse float s e s' := by
  have hcaster : ∀ ev, (∀ f, callsTo f ev = []) →
      (s.caster.step float ev).map (fun caster => ({ s with caster } : Service K)) = some s' →
      Acts parse float s (.caster ev) s' := by
    intro ev hcalls h
    obtain ⟨caster, hc, rfl⟩ := Option.map_eq_some_iff.mp h
    exact .caster ev caster hcalls hc
  cases e with
  | obsData data =>
    simp only [Service.step] at h
    split at h
    · rename_i hi
      split at h
      · rename_i hq
        exact Option.some.inj h ▸ .obsData data hi hq.1 hq.2
      · cases h
    · cases h
  | obsTurn =>
    simp only [Service.step] at h
    split at h
    · rename_i hq
      exact Option.some.inj h ▸ .obsTurn hq
    · cases h
  | ephData data =>
    simp only [Service.step] at h
    split at h
    · exact Option.some.inj h ▸ .ephData data
    · cases h
  | ephTurn =>
    simp only [Service.step] at h
    split at h
    · cases h
    · rename_i frame frames hf
      exact Option.some.inj h ▸ .ephTurn frame frames hf
  | caster ev =>
    simp only [Service.step] at h
    split at h
    · rename_i feed data
      split at h
      · cases h
      · rename_i next pending hp
        split at h
        · rename_i hn
          obtain ⟨caster, hc, rfl⟩ := Option.map_eq_some_iff.mp h
          exact .publishes feed data pending caster (hn.1 ▸ hp) hc
        · cases h
    · rename_i hne
      refine hcaster ev (fun f => ?_) h
      cases ev with
      | publisher feed ev =>
        cases ev with
        | publish data => exact absurd rfl (hne feed data)
        | _ => exact ite_self _
      | _ => rfl

/-! ## What is published -/

omit [Field K] [LinearOrder K] [FloorRing K] [PyMath K] in
/-- A step of the caster publishes what `publish` is called with. -/
theorem serves_published {s s' : Caster K} {e : Caster.Event} (h : Serves s e s') (f : Nat) :
    (callsTo f e).foldl publish (s.published f ++ (s.feeds f).announced) =
      s'.published f ++ (s'.feeds f).announced := by
  have hquiet : ∀ {feed : Nat} {ev : Fanout.Event} {feed' : Fanout}, Steps (s.feeds feed) ev feed' →
      Fanout.called ev = none → (s.feeds feed).copied ev = [] →
      (Function.update s.feeds feed feed' f).announced = (s.feeds f).announced := by
    intro feed ev feed' hf hcall hcopied
    refine forall_feeds (P := fun f F => F.announced = (s.feeds f).announced) (fun _ => rfl) ?_ f
    have hp := publish_step hf
    rw [hcall, hcopied] at hp
    exact hp.symm
  cases h with
  | connects | stop => rfl
  | goes e h bytes p he =>
    have hcalls : callsTo f e = [] := by
      cases e with
      | turn | fails | empty => rfl
      | connects | publisher | stop => cases he
    rw [hcalls]
    rfl
  | subscribes h more feed feed' hp hf =>
    dsimp only
    rw [hquiet hf rfl rfl]
    rfl
  | gets h more feed q item queue feed' hp hq hf =>
    dsimp only
    rw [hquiet hf rfl rfl]
    rfl
  | leaves h more feed q feed' hp hf =>
    dsimp only
    rw [hquiet hf rfl rfl]
    rfl
  | publisher feed ev feed' hp hf =>
    by_cases hff : feed = f
    · subst hff
      rw [callsTo, if_pos rfl, foldl_publish_append, publish_step hf]
      simp only [withFeed, Function.update_self, List.append_assoc]
    · rw [callsTo, if_neg hff]
      simp only [withFeed, Function.update_of_ne (Ne.symm hff)]
      rfl

section

variable {P : Bytes → Prop} (hP : ∀ (call : Call K) enc out enc', call.run enc = (.ok out, enc') → P out)

include hP

omit [PyMath K]

theorem attempt_sent {s s' : Sender K} {call : Int → Call K} {m : Call K × Bytes}
    (h : s.attempt call = (some m, s')) : P m.2 := by
  unfold Sender.attempt at h
  dsimp only at h
  split at h
  · cases (Prod.mk.inj h).1
  · rename_i out encoder hr
    obtain rfl := Option.some.inj (Prod.mk.inj h).1
    exact hP _ _ _ _ hr

/-- What holds of all that the encoder returns holds of what is sent for an epoch. -/
theorem epoch_sent (s : Sender K) (e : Epoch K) : ∀ m ∈ (s.epoch e).1, P m.2 := by
  have hsend : ∀ s : Sender K, ∀ m ∈ (s.sendCorrections e).1, P m.2 := by
    intro s m hm
    unfold Sender.sendCorrections at hm
    split at hm
    · cases hm
    · rename_i ha
      rw [List.mem_singleton.mp hm]
      exact attempt_sent hP ha
  unfold Sender.epoch
  split
  · exact hsend s
  · split
    · exact fun m hm => nomatch hm
    · rename_i ha
      exact List.forall_mem_cons.mpr ⟨attempt_sent hP ha, hsend _⟩

end

/-! ## The invariant -/

/-- What a converter has published on a feed. -/
def logOf (c : Converter K) (f : Nat) : List Bytes :=
  if f = 0 then c.rtcm3Feed else if f = 1 then c.rtcm23Feed else []

/-- The `publish` calls that are left for a feed. -/
def pendingOf (pending : List (Nat × Bytes)) (f : Nat) : List Bytes :=
  (pending.filter (·.1 = f)).map Prod.snd

/-- The invariant of a service that started with the converter `c₀`. -/
structure Delivers (c₀ : Converter K) (s : Service K) : Prop where
  sound : Sound s.caster
  based : Based s.conv.gen s.obs
  sender : senderOf s.conv = ((senderOf c₀).run s.epochs).2
  rtcm3Feed : s.conv.rtcm3Feed = s.chunks
  rtcm23Feed : s.conv.rtcm23Feed = ((senderOf c₀).run s.epochs).1.flatten.map Prod.snd
  pending : ∀ x ∈ s.pending, x.2 ≠ []
  published : ∀ f, s.caster.published f ++ (s.caster.feeds f).announced ++ pendingOf s.pending f = logOf s.conv f

omit [Field K] [LinearOrder K] [FloorRing K] [PyMath K] in
theorem publish_of_ne {data : Bytes} (h : data ≠ []) (feed : List Bytes) : publish feed data = feed ++ [data] := by
  rw [publish, if_neg]
  rwa [List.isEmpty_iff]

omit [PyMath K] in
/-- Between `publish` calls the feeds have published everything. -/
theorem Delivers.of_quiet {c₀ : Converter K} {s : Service K} (hs : Delivers c₀ s) (hq : s.quiet) (f : Nat) :
    s.caster.published f ++ (s.caster.feeds f).announced = logOf s.conv f := by
  have hp := hs.published f
  rw [hq.1] at hp
  rwa [show pendingOf [] f = [] from rfl, List.append_nil] at hp

theorem pendingOf_map (l : List Bytes) (g f : Nat) : pendingOf (l.map (g, ·)) f = if f = g then l else [] := by
  induction l with
  | nil => exact (ite_self _).symm
  | cons x l ih =>
    by_cases h : f = g
    · subst h
      rw [if_pos rfl] at ih ⊢
      simp only [pendingOf, List.map_cons, List.filter_cons, decide_true, if_true] at ih ⊢
      rw [ih]
    · rw [if_neg h] at ih ⊢
      simp only [pendingOf, List.map_cons, List.filter_cons, Ne.symm h, decide_false, Bool.false_eq_true,
        if_false] at ih ⊢
      exact ih

omit [PyMath K] in
theorem delivers_obsData {c₀ : Converter K} {s : Service K} (hs : Delivers c₀ s) {data : Bytes} (hq : s.quiet)
    (hne : data ≠ []) : Delivers c₀ { s with
      conv := { s.conv with
        rtcm3Feed := publish s.conv.rtcm3Feed data
        obsBuf := (extractRtcm3Frames (s.conv.obsBuf ++ data)).2 }
      obs := .looping (extractRtcm3Frames (s.conv.obsBuf ++ data)).1
      pending := [(0, data)]
      chunks := s.chunks ++ [data] } := by
  refine ⟨hs.sound, trivial, hs.sender, ?_, hs.rtcm23Feed, fun x hx => ?_, fun f => ?_⟩
  · dsimp only
    rw [publish_of_ne hne, hs.rtcm3Feed]
  · rw [List.mem_singleton.mp hx]
    exact hne
  · have hp := pendingOf_map [data] 0 f
    rw [List.map_singleton] at hp
    dsimp only
    rw [hs.of_quiet hq f, hp]
    unfold logOf
    by_cases hf : f = 0
    · rw [if_pos hf, if_pos hf, if_pos hf, publish_of_ne hne]
    · rw [if_neg hf, if_neg hf, if_neg hf, List.append_nil]

/-- What a step of the observation thread has left to publish. -/
theorem obsTurn_drop {c : Converter K} {stage : ObsStage K} (hb : Based c.gen stage) :
    (Service.obsTurn parse c stage).2.rtcm23Feed.drop c.rtcm23Feed.length =
      ((senderOf c).run (Service.sends c stage).toList).1.flatten.map Prod.snd := by
  rw [(obsTurn_observes parse hb).1.rtcm23Feed, List.drop_left' rfl]

theorem obsTurn_sent {c : Converter K} {stage : ObsStage K} (hb : Based c.gen stage) {P : Bytes → Prop}
    (hP : ∀ (call : Call K) enc out enc', call.run enc = (.ok out, enc') → P out) :
    ∀ d ∈ (Service.obsTurn parse c stage).2.rtcm23Feed.drop c.rtcm23Feed.length, P d := by
  rw [obsTurn_drop parse hb]
  cases Service.sends c stage with
  | none => exact fun d hd => nomatch hd
  | some e =>
    intro d hd
    obtain ⟨m, hm, rfl⟩ := List.mem_map.mp hd
    simp only [Option.toList_some, Sender.run, List.flatten_cons, List.flatten_nil, List.append_nil] at hm
    exact epoch_sent hP _ e m hm

theorem obsTurn_ne_nil {c : Converter K} {stage : ObsStage K} (hb : Based c.gen stage) :
    ∀ d ∈ (Service.obsTurn parse c stage).2.rtcm23Feed.drop c.rtcm23Feed.length, d ≠ [] :=
  obsTurn_sent parse hb fun _ _ _ _ => run_ne_nil

theorem delivers_obsTurn {c₀ : Converter K} {s : Service K} (hs : Delivers c₀ s) (hq : s.quiet) :
    Delivers c₀ { s with
      conv := (Service.obsTurn parse s.conv s.obs).2
      obs := (Service.obsTurn parse s.conv s.obs).1
      pending := ((Service.obsTurn parse s.conv s.obs).2.rtcm23Feed.drop s.conv.rtcm23Feed.length).map (1, ·)
      epochs := s.epochs ++ (Service.sends s.conv s.obs).toList } := by
  obtain ⟨hobs, hbased⟩ := obsTurn_observes parse hs.based
  have hrun : (senderOf c₀).run (s.epochs ++ (Service.sends s.conv s.obs).toList) =
      (((senderOf c₀).run s.epochs).1 ++ ((senderOf s.conv).run (Service.sends s.conv s.obs).toList).1,
        ((senderOf s.conv).run (Service.sends s.conv s.obs).toList).2) := by
    rw [run_append, ← hs.sender]
  refine ⟨hs.sound, hbased, ?_, hobs.rtcm3Feed.trans hs.rtcm3Feed, ?_, fun x hx => ?_, fun f => ?_⟩
  · dsimp only
    rw [hrun]
    exact hobs.sender
  · dsimp only
    rw [hrun, hobs.rtcm23Feed, hs.rtcm23Feed, List.flatten_append, List.map_append]
  · obtain ⟨d, hd, rfl⟩ := List.mem_map.mp hx
    exact obsTurn_ne_nil parse hs.based d hd
  · dsimp only
    rw [hs.of_quiet hq f, pendingOf_map, obsTurn_drop parse hs.based]
    unfold logOf
    rw [hobs.rtcm23Feed, hobs.rtcm3Feed]
    by_cases h0 : f = 0
    · rw [if_pos h0, if_pos h0, if_neg (by omega), List.append_nil]
    · by_cases h1 : f = 1
      · rw [if_neg h0, if_pos h1, if_pos h1, if_neg h0, if_pos h1]
      · rw [if_neg h0, if_neg h1, if_neg h1, if_neg h0, if_neg h1, List.append_nil]

omit [PyMath K] in
/-- The caster's steps, and what is left of the `publish` calls. -/
theorem delivers_caster {c₀ : Converter K} {s : Service K} (hs : Delivers c₀ s) {float : K → String}
    {e : Caster.Event} {caster : Caster K} (hc : s.caster.step float e = some caster) {pending : List (Nat × Bytes)}
    (hp : ∀ x ∈ pending, x.2 ≠ [])
    (hcalls : ∀ f, (callsTo f e).foldl publish [] ++ pendingOf pending f = pendingOf s.pending f) :
    Delivers c₀ { s with caster, pending } := by
  refine ⟨sound_step hc hs.sound, hs.based, hs.sender, hs.rtcm3Feed, hs.rtcm23Feed, hp, fun f => ?_⟩
  have hpub := serves_published (serves_step hc) f
  have hsplit : (callsTo f e).foldl publish (s.caster.published f ++ (s.caster.feeds f).announced) =
      s.caster.published f ++ (s.caster.feeds f).announced ++ (callsTo f e).foldl publish [] := by
    have h := foldl_publish_append (callsTo f e) (s.caster.published f ++ (s.caster.feeds f).announced) []
    rwa [List.append_nil] at h
  dsimp only
  rw [← hpub, hsplit, List.append_assoc, hcalls f, hs.published f]

omit [LinearOrder K] [FloorRing K] in
/-- The ephemeris thread stores the ephemeris of its frame, if it has one. -/
theorem onEphFrame_gen (c : Converter K) (frame : Bytes) : ∃ gen parseErrors,
    (c.onEphFrame parse frame).2 = { c with gen, parseErrors } ∧ (gen = c.gen ∨
      ∃ m, parse frame = some (.gpsEphemeris m) ∧ gen = c.gen.addEphemeris (parseEphemeris m)) := by
  unfold Converter.onEphFrame Converter.parseFrame
  cases parse frame with
  | none => exact ⟨c.gen, c.parseErrors + 1, rfl, .inl rfl⟩
  | some msg =>
    cases msg with
    | gpsEphemeris m => exact ⟨_, c.parseErrors, rfl, .inr ⟨m, rfl, rfl⟩⟩
    | station | gpsMsm7 | other => exact ⟨c.gen, c.parseErrors, rfl, .inl rfl⟩

theorem delivers_step {c₀ : Converter K} {float : K → String} {s s' : Service K} {e : Service.Event}
    (h : s.step parse float e = some s') (hs : Delivers c₀ s) : Delivers c₀ s' := by
  cases acts_step parse h with
  | obsData data hi hq hne => exact delivers_obsData hs hq hne
  | obsTurn hq => exact delivers_obsTurn parse hs hq
  | ephData data => exact ⟨hs.sound, hs.based, hs.sender, hs.rtcm3Feed, hs.rtcm23Feed, hs.pending, hs.published⟩
  | ephTurn frame frames hf =>
    obtain ⟨gen, parseErrors, hc, hgen⟩ := onEphFrame_gen parse s.conv frame
    have hbase : gen.base = s.conv.gen.base := by
      rcases hgen with rfl | ⟨m, -, rfl⟩ <;> rfl
    rw [hc]
    refine ⟨hs.sound, ?_, hs.sender, hs.rtcm3Feed, hs.rtcm23Feed, hs.pending, hs.published⟩
    have hbased := hs.based
    cases hobs : s.obs with
    | correcting tow phase frames =>
      rw [hobs] at hbased
      exact fun hn => hbased (hbase ▸ hn)
    | idle | looping => trivial
  | publishes feed data pending caster hp hc =>
    have hne := hs.pending (feed, data) (hp ▸ List.mem_cons_self)
    refine delivers_caster hs hc (fun x hx => hs.pending x (hp ▸ List.mem_cons_of_mem _ hx)) fun f => ?_
    rw [hp, callsTo]
    by_cases hf : feed = f
    · subst hf
      rw [if_pos rfl, Fanout.called, Option.toList_some, List.foldl_cons, List.foldl_nil, publish_of_ne hne]
      simp [pendingOf]
    · rw [if_neg hf]
      simp [pendingOf, hf]
  | caster ev caster hcalls hc =>
    refine delivers_caster hs hc hs.pending fun f => ?_
    rw [hcalls f]
    rfl

theorem delivers_run (stationId : StationId) (maxIodAgeS maxResidualM : K) (rtcm3 rtcm23 : MountInfo K)
    {float : K → String} {es : List Service.Event} {s : Service K}
    (h : Transition.run (Service.step parse float) (.init stationId maxIodAgeS maxResidualM rtcm3 rtcm23) es = some s) :
    Delivers (.new stationId maxIodAgeS maxResidualM) s := by
  refine keeps (fun _ _ _ => delivers_step parse) h ⟨sound_init _ _, trivial, rfl, rfl, rfl, (fun _ hx => nomatch hx),
    fun f => ?_⟩
  change [] = logOf (Converter.new stationId maxIodAgeS maxResidualM) f
  unfold logOf
  split_ifs <;> rfl

/-! ## The RTCM 2.3 feed -/

section

omit [PyMath K]

/-- What a service sends on the RTCM 2.3 feed for its epochs. -/
def sentFor (c₀ : Converter K) (epochs : List (Epoch K)) : List (Call K × Bytes) :=
  ((senderOf c₀).run epochs).1.flatten

theorem length_runCalls_le (enc : Rtcm2Encoder) (calls : List (Call K)) :
    (runCalls enc calls).1.length ≤ calls.length := by
  induction calls generalizing enc with
  | nil => exact le_rfl
  | cons call calls ih =>
    rw [runCalls]
    rcases call.run enc with ⟨_ | out, enc'⟩
    · exact (ih enc').trans (Nat.le_succ _)
    · exact Nat.succ_le_succ (ih enc')

/-- Of calls that all return, the first ones send the first messages. -/
theorem runCalls_take {enc : Rtcm2Encoder} {log : List (Call K × Bytes)}
    (h : (runCalls enc (log.map Prod.fst)).1 = log) (n : Nat) :
    (runCalls enc ((log.take n).map Prod.fst)).1 = log.take n := by
  have hsplit := congrArg Prod.fst (runCalls_append enc ((log.take n).map Prod.fst) ((log.drop n).map Prod.fst))
  rw [← List.map_append, List.take_append_drop, h] at hsplit
  have hfirst := length_runCalls_le enc ((log.take n).map Prod.fst)
  have hrest := length_runCalls_le (runCalls enc ((log.take n).map Prod.fst)).2 ((log.drop n).map Prod.fst)
  rw [List.length_map, List.length_take] at hfirst
  rw [List.length_map, List.length_drop] at hrest
  generalize (runCalls enc ((log.take n).map Prod.fst)).1 = first at *
  generalize (runCalls _ ((log.drop n).map Prod.fst)).1 = rest at hsplit hrest
  have hlen := congrArg List.length hsplit
  rw [List.length_append] at hlen
  have hn : first.length = min n log.length := by omega
  rw [List.take_eq_take_min, ← hn, hsplit, List.take_left]

/-- The messages for the epochs are those of their calls on a fresh encoder. -/
theorem runCalls_sentFor (stationId : StationId) (maxIodAgeS maxResidualM : K) (epochs : List (Epoch K)) :
    (runCalls ⟨false.toNat, false.toNat⟩ ((sentFor (.new stationId maxIodAgeS maxResidualM) epochs).map Prod.fst)).1 =
      sentFor (.new stationId maxIodAgeS maxResidualM) epochs :=
  congrArg Prod.fst
    (run_calls (s := senderOf (Converter.new stationId maxIodAgeS maxResidualM)) ⟨false, false, rfl⟩ epochs).2

/-- Any first messages of the feed decode. -/
theorem decode_take {log : List (Call K × Bytes)} (h : (runCalls ⟨false.toNat, false.toNat⟩ (log.map Prod.fst)).1 = log)
    (n : Nat) : Spec.decodeStream false false ((log.take n).map Prod.snd).flatten =
      { violations := 0, messages := (log.take n).map fun m => m.1.message, rest := [] } := by
  obtain ⟨ws, t29, t30, -, hsends⟩ := runCalls_sends ((log.take n).map Prod.fst) false false
  rw [runCalls_take h] at hsends
  exact hsends.decodeStream

end

omit [Field K] [LinearOrder K] [FloorRing K] [PyMath K] in
theorem announced_idle {F : Fanout} (h : F.publisher = .idle) : F.announced = [] := by
  rw [Fanout.announced, h]

omit [PyMath K] in
/-- What has been published on the RTCM 2.3 feed is the first messages, and decodes to them. -/
theorem published_decodes {stationId : StationId} {maxIodAgeS maxResidualM : K} {s : Service K}
    (hs : Delivers (.new stationId maxIodAgeS maxResidualM) s) :
    let log := (sentFor (.new stationId maxIodAgeS maxResidualM) s.epochs).take (s.caster.published 1).length
    s.caster.published 1 = log.map Prod.snd ∧ Spec.decodeStream false false (s.caster.published 1).flatten =
      { violations := 0, messages := log.map fun m => m.1.message, rest := [] } := by
  have h1 : s.caster.published 1 ++ (s.caster.feeds 1).announced ++ pendingOf s.pending 1 =
      (sentFor (.new stationId maxIodAgeS maxResidualM) s.epochs).map Prod.snd := (hs.published 1).trans hs.rtcm23Feed
  have hn : s.caster.published 1 = ((sentFor (.new stationId maxIodAgeS maxResidualM) s.epochs).take
      (s.caster.published 1).length).map Prod.snd := by
    rw [List.map_take, ← h1, List.append_assoc, List.take_left]
  have hdec := decode_take (runCalls_sentFor stationId maxIodAgeS maxResidualM s.epochs) (s.caster.published 1).length
  rw [← hn] at hdec
  exact ⟨hn, hdec⟩

end Rtcm.Proof
