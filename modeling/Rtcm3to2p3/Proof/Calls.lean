import Rtcm3to2p3.Proof.Sequence
import Rtcm3to2p3.Proof.Sequential
import Rtcm3to2p3.Proof.Snapshot

/-!
# The epochs of the service

Each epoch comes from a call of `corrections` that started in a state of the run
(`Corrects`, kept by `corrects_step`); the ephemerides that came in meanwhile
are the stores that interleave with its turns. What these make of the call is
said in `Snapshot`, and so `service_epochs`.
-/

namespace Rtcm.Proof

open Rtcm.Impl Rtcm.Spec Transition

variable {K : Type} [Field K] [LinearOrder K] [FloorRing K] [PyMath K] (parse : Bytes → Option (Msg K))

/-! ## The generator -/

/-- A turn of the last loop remembers the satellite's raw correction; another remembers nothing. -/
def Writes (tow : K) (phase : Phase K) (prev prev' : Dict Int (K × K)) : Prop :=
  prev' = prev ∨ ∃ o prn v todo out, phase = .emit o ((prn, v) :: todo) out ∧ prev' = prev.set prn (tow, v)

omit [FloorRing K] in
theorem turn_gen (tow : K) (call : Threads K) :
    ∃ prev, (call.turn tow).gen = { call.gen with prev } ∧ Writes tow call.phase call.gen.prev prev := by
  obtain ⟨g, phase, read, stored⟩ := call
  rcases phase with ⟨base, _ | ⟨x, todo⟩, raw⟩ | ⟨raw, _ | ⟨x, todo⟩, rate⟩ | ⟨o, _ | ⟨x, todo⟩, out⟩ | result
  case emit.cons => exact ⟨_, rfl, .inr ⟨_, _, _, _, _, rfl, rfl⟩⟩
  all_goals exact ⟨_, rfl, .inl rfl⟩

/-- The observation thread remembers a raw correction, or takes the station of a frame. -/
theorem obsTurn_gen (c : Converter K) (stage : ObsStage K) :
    (∃ prev, (Service.obsTurn parse c stage).2.gen = { c.gen with prev } ∧ (prev = c.gen.prev ∨
      ∃ tow phase frames, stage = .correcting tow phase frames ∧ Writes tow phase c.gen.prev prev)) ∨
      ∃ frame m, parse frame = some (.station m) ∧
        (Service.obsTurn parse c stage).2.gen = c.gen.setStation (parseStation m) := by
  cases stage with
  | idle => exact .inl ⟨_, rfl, .inl rfl⟩
  | looping frames =>
    cases frames with
    | nil => exact .inl ⟨_, rfl, .inl rfl⟩
    | cons frame frames =>
      simp only [Service.obsTurn, Converter.parseFrame]
      cases hf : parse frame with
      | none => exact .inl ⟨_, rfl, .inl rfl⟩
      | some msg =>
        cases msg with
        | station m => exact .inr ⟨frame, m, hf, rfl⟩
        | gpsEphemeris | other => exact .inl ⟨_, rfl, .inl rfl⟩
        | gpsMsm7 msg =>
          dsimp only
          rcases parseGpsMsm7 msg with _ | ⟨tow, prs⟩ <;> exact .inl ⟨_, rfl, .inl rfl⟩
  | correcting tow phase frames =>
    cases phase with
    | select | rate | emit =>
      obtain ⟨prev, hg, hw⟩ := turn_gen tow ⟨c.gen, _, fun _ => none, fun _ => none⟩
      exact .inl ⟨prev, hg, .inr ⟨tow, _, frames, rfl, hw⟩⟩
    | done result =>
      cases result with
      | error e => exact .inl ⟨_, rfl, .inl rfl⟩
      | ok corrections =>
        have hin := (send_inputs c tow corrections).gen
        simp only [Service.obsTurn]
        generalize c.send tow corrections = result at hin ⊢
        refine .inl ⟨c.gen.prev, ?_, .inl rfl⟩
        split
        · rfl
        · rcases result with ⟨_ | _, c'⟩ <;> exact hin

/-! ## The calls of `corrections` -/

section

variable (float : K → String)

/-- The state comes between two others in a run. -/
def Between (s₀ start s : Service K) : Prop :=
  (∃ es, Transition.run (Service.step parse float) s₀ es = some start) ∧
    ∃ es, Transition.run (Service.step parse float) start es = some s

/-- Between two states of a run `feed_eph` takes up a frame with this ephemeris. -/
def TakesUp (s₀ s : Service K) (eph : Ephemeris K) : Prop :=
  ∃ start s' frame frames msg, Between parse float s₀ start s ∧ start.ephFrames = frame :: frames ∧
    parse frame = some (.gpsEphemeris msg) ∧ eph = parseEphemeris msg ∧
    start.step parse float .ephTurn = some s' ∧ ∃ es, Transition.run (Service.step parse float) s' es = some s

/-- A call that started when a frame of observations was taken up, and is there now. -/
structure Calls (start s : Service K) (tow : K) (gen : DgpsGenerator K) (phase : Phase K) (pseudoranges : Dict Int K)
    (events : List (Event K)) : Prop where
  frame : ∃ frame frames msg, start.obs = .looping (frame :: frames) ∧ parse frame = some (.gpsMsm7 msg) ∧
    parseGpsMsm7 msg = .ok (tow, pseudoranges)
  gen : (interleaved tow (.start start.conv.gen pseudoranges) events).gen = gen
  phase : (interleaved tow (.start start.conv.gen pseudoranges) events).phase = phase
  stores : ∀ eph, .store eph ∈ events → TakesUp parse float start s eph

end

variable {float : K → String}

theorem Between.step {s₀ start s s' : Service K} {e : Service.Event} (h : Between parse float s₀ start s)
    (hs : s.step parse float e = some s') : Between parse float s₀ start s' := by
  obtain ⟨h₀, es, h⟩ := h
  exact ⟨h₀, es ++ [e], Transition.run_append_of h (run_cons_of hs rfl)⟩

theorem TakesUp.step {s₀ s s' : Service K} {eph : Ephemeris K} {e : Service.Event} (h : TakesUp parse float s₀ s eph)
    (hs : s.step parse float e = some s') : TakesUp parse float s₀ s' eph := by
  obtain ⟨start, s₁, frame, frames, msg, hb, hf, hp, he, hturn, es, h⟩ := h
  exact ⟨start, s₁, frame, frames, msg, hb.step parse hs, hf, hp, he, hturn, es ++ [e],
    Transition.run_append_of h (run_cons_of hs rfl)⟩

theorem takesUp_turn {s₀ s s' : Service K} {es : List Service.Event} {frame : Bytes} {frames : List Bytes}
    {msg : Msg1019 K} (h : Transition.run (Service.step parse float) s₀ es = some s)
    (hf : s.ephFrames = frame :: frames) (hp : parse frame = some (.gpsEphemeris msg))
    (hs : s.step parse float .ephTurn = some s') : TakesUp parse float s₀ s' (parseEphemeris msg) :=
  ⟨s, s', frame, frames, msg, ⟨⟨es, h⟩, [.ephTurn], run_cons_of hs rfl⟩, hf, hp, rfl, hs, [], rfl⟩

theorem Calls.step {start s s' : Service K} {tow : K} {gen : DgpsGenerator K} {phase : Phase K} {prs : Dict Int K}
    {events : List (Event K)} {e : Service.Event} (h : Calls parse float start s tow gen phase prs events)
    (hs : s.step parse float e = some s') : Calls parse float start s' tow gen phase prs events :=
  ⟨h.frame, h.gen, h.phase, fun eph hm => (h.stores eph hm).step parse hs⟩

theorem Calls.turn {start s s' : Service K} {tow : K} {gen : DgpsGenerator K} {phase : Phase K} {prs : Dict Int K}
    {events : List (Event K)} {e : Service.Event} (h : Calls parse float start s tow gen phase prs events)
    (hs : s.step parse float e = some s') (read stored : Int → Option (Ephemeris K)) :
    Calls parse float start s' tow (Threads.turn tow ⟨gen, phase, read, stored⟩).gen
      (Threads.turn tow ⟨gen, phase, read, stored⟩).phase prs (events ++ [.turn]) := by
  obtain ⟨hframe, rfl, rfl, hstores⟩ := h
  obtain ⟨hg, hp⟩ := turn_records tow (interleaved tow (.start start.conv.gen prs) events).gen
    (interleaved tow (.start start.conv.gen prs) events).phase read _ stored _
  refine ⟨hframe, ?_, ?_, fun eph hm => (hstores eph ?_).step parse hs⟩
  · rw [interleaved, List.foldl_append]
    exact hg.symm
  · rw [interleaved, List.foldl_append]
    exact hp.symm
  · rcases List.mem_append.mp hm with hm | hm
    · exact hm
    · cases List.mem_singleton.mp hm

theorem Calls.store {start s s' : Service K} {tow : K} {gen : DgpsGenerator K} {phase : Phase K} {prs : Dict Int K}
    {events : List (Event K)} {es : List Service.Event} (h : Calls parse float start s tow gen phase prs events)
    (hrun : Transition.run (Service.step parse float) start es = some s) {frame : Bytes} {frames : List Bytes}
    {msg : Msg1019 K} (hf : s.ephFrames = frame :: frames) (hp : parse frame = some (.gpsEphemeris msg))
    (hs : s.step parse float .ephTurn = some s') :
    Calls parse float start s' tow (gen.addEphemeris (parseEphemeris msg)) phase prs
      (events ++ [.store (parseEphemeris msg)]) := by
  obtain ⟨hframe, rfl, rfl, hstores⟩ := h
  refine ⟨hframe, ?_, ?_, fun eph hm => ?_⟩
  · rw [interleaved, List.foldl_append]
    rfl
  · rw [interleaved, List.foldl_append]
    rfl
  · rcases List.mem_append.mp hm with hm | hm
    · exact (hstores eph hm).step parse hs
    · cases List.mem_singleton.mp hm
      exact takesUp_turn parse hrun hf hp hs

/-- Where a call of `corrections` that is under way comes from. -/
theorem obsTurn_correcting {c : Converter K} {stage : ObsStage K} {tow : K} {phase : Phase K} {frames : List Bytes}
    (h : (Service.obsTurn parse c stage).1 = .correcting tow phase frames) :
    (∃ frame msg prs, stage = .looping (frame :: frames) ∧ parse frame = some (.gpsMsm7 msg) ∧
      parseGpsMsm7 msg = .ok (tow, prs) ∧ phase = (Threads.start c.gen prs).phase ∧
      (Service.obsTurn parse c stage).2.gen = c.gen) ∨
    ∃ phase₀, stage = .correcting tow phase₀ frames ∧
      phase = (Threads.turn tow ⟨c.gen, phase₀, fun _ => none, fun _ => none⟩).phase ∧
      (Service.obsTurn parse c stage).2.gen =
        (Threads.turn tow ⟨c.gen, phase₀, fun _ => none, fun _ => none⟩).gen := by
  cases stage with
  | idle => cases h
  | looping todo =>
    cases todo with
    | nil => cases h
    | cons frame todo =>
      simp only [Service.obsTurn, Converter.parseFrame] at h ⊢
      cases hf : parse frame with
      | none =>
        rw [hf] at h
        cases h
      | some msg =>
        rw [hf] at h
        cases msg with
        | station | gpsEphemeris | other => cases h
        | gpsMsm7 msg =>
          dsimp only at h ⊢
          cases hm : parseGpsMsm7 msg with
          | error e =>
            rw [hm] at h
            cases h
          | ok x =>
            rw [hm] at h
            cases h
            exact .inl ⟨frame, msg, x.2, rfl, hf, hm, rfl, rfl⟩
  | correcting tow₀ phase₀ frames₀ =>
    cases phase₀ with
    | select | rate | emit =>
      cases h
      exact .inr ⟨_, rfl, rfl, rfl⟩
    | done result =>
      cases result with
      | error e => cases h
      | ok corrections =>
        simp only [Service.obsTurn] at h
        split at h
        · cases h
        · split at h <;> cases h

omit [Field K] [LinearOrder K] [FloorRing K] [PyMath K] in
theorem sends_eq_some {c : Converter K} {stage : ObsStage K} {e : Epoch K} (h : Service.sends c stage = some e) :
    c.gen.base = some e.base ∧ ∃ frames, stage = .correcting e.tow (.done (.ok e.corrections)) frames := by
  unfold Service.sends at h
  split at h
  · obtain ⟨base, hb, rfl⟩ := Option.map_eq_some_iff.mp h
    exact ⟨hb, _, rfl⟩
  · cases h

omit [FloorRing K] in
theorem interleaved_base (tow : K) (call : Threads K) (events : List (Event K)) :
    (interleaved tow call events).gen.base = call.gen.base := by
  induction events generalizing call with
  | nil => rfl
  | cons event events ih =>
    cases event with
    | turn => exact (ih _).trans (turn_base tow call).1
    | store eph => exact ih _

section

variable (float : K → String) (s₀ : Service K)

/-- Every epoch was computed by a call that started before, and so is the next. -/
structure Corrects (s : Service K) : Prop where
  call : ∀ tow phase frames, s.obs = .correcting tow phase frames →
    ∃ start prs events, Between parse float s₀ start s ∧ Calls parse float start s tow s.conv.gen phase prs events
  epochs : ∀ e ∈ s.epochs, ∃ start gen prs events, Between parse float s₀ start s ∧
    Calls parse float start s e.tow gen (.done (.ok e.corrections)) prs events ∧ start.conv.gen.base = some e.base

end

variable {parse} {float : K → String} {s₀ : Service K}

theorem corrects_obsTurn {s s' : Service K} {es : List Service.Event}
    (h₀ : Transition.run (Service.step parse float) s₀ es = some s) (hs : Corrects parse float s₀ s)
    (h : s.step parse float .obsTurn = some s') (hobs : s'.obs = (Service.obsTurn parse s.conv s.obs).1)
    (hconv : s'.conv = (Service.obsTurn parse s.conv s.obs).2)
    (hepochs : s'.epochs = s.epochs ++ (Service.sends s.conv s.obs).toList) : Corrects parse float s₀ s' := by
  refine ⟨fun tow phase frames hc => ?_, fun e he => ?_⟩
  · rw [hobs] at hc
    rw [hconv]
    rcases obsTurn_correcting parse hc with ⟨frame, msg, prs, hstage, hf, hm, rfl, hg⟩ | ⟨phase₀, hstage, rfl, hg⟩
    · rw [hg]
      exact ⟨s, prs, [], ⟨⟨es, h₀⟩, [.obsTurn], run_cons_of h rfl⟩, ⟨frame, frames, msg, hstage, hf, hm⟩, rfl, rfl,
        fun eph hm => nomatch hm⟩
    · obtain ⟨start, prs, events, hb, hcall⟩ := hs.call tow phase₀ frames hstage
      rw [hg]
      exact ⟨start, prs, _, hb.step parse h, hcall.turn parse h _ _⟩
  · rw [hepochs] at he
    rcases List.mem_append.mp he with he | he
    · obtain ⟨start, gen, prs, events, hb, hcall, hbase⟩ := hs.epochs e he
      exact ⟨start, gen, prs, events, hb.step parse h, hcall.step parse h, hbase⟩
    · obtain ⟨hbase, frames, hstage⟩ := sends_eq_some (Option.mem_toList.mp he)
      obtain ⟨start, prs, events, hb, hcall⟩ := hs.call _ _ frames hstage
      refine ⟨start, s.conv.gen, prs, events, hb.step parse h, hcall.step parse h, ?_⟩
      rw [← hbase, ← hcall.gen]
      exact (interleaved_base e.tow (.start start.conv.gen prs) events).symm

theorem corrects_step {s s' : Service K} {e : Service.Event} {es : List Service.Event}
    (h₀ : Transition.run (Service.step parse float) s₀ es = some s) (hs : Corrects parse float s₀ s)
    (h : s.step parse float e = some s') : Corrects parse float s₀ s' := by
  -- A step of another thread, that leaves the generator as it is.
  have hquiet : ∀ {s'}, s.step parse float e = some s' → s'.obs = s.obs ∨ (∃ todo, s'.obs = .looping todo) →
      s'.conv.gen = s.conv.gen → s'.epochs = s.epochs → Corrects parse float s₀ s' := by
    intro s' h hobs hgen hepochs
    refine ⟨fun tow phase frames hc => ?_, fun e he => ?_⟩
    · rcases hobs with hobs | ⟨todo, hobs⟩
      · obtain ⟨start, prs, events, hb, hcall⟩ := hs.call tow phase frames (hobs ▸ hc)
        exact ⟨start, prs, events, hb.step parse h, hgen ▸ hcall.step parse h⟩
      · rw [hobs] at hc
        cases hc
    · obtain ⟨start, gen, prs, events, hb, hcall, hbase⟩ := hs.epochs e (hepochs ▸ he)
      exact ⟨start, gen, prs, events, hb.step parse h, hcall.step parse h, hbase⟩
  cases acts_step parse h with
  | obsData data => exact hquiet h (.inr ⟨_, rfl⟩) rfl rfl
  | obsTurn => exact corrects_obsTurn h₀ hs h rfl rfl rfl
  | ephData data => exact hquiet h (.inl rfl) rfl rfl
  | publishes | caster => exact hquiet h (.inl rfl) rfl rfl
  | ephTurn frame frames hf =>
    obtain ⟨gen, parseErrors, hconv, rfl | ⟨msg, hp, rfl⟩⟩ := onEphFrame_gen parse s.conv frame
    · exact hquiet h (.inl rfl) (by simp only [hconv]) rfl
    · refine ⟨fun tow phase todo hc => ?_, fun e he => ?_⟩
      · obtain ⟨start, prs, events, hb, hcall⟩ := hs.call tow phase todo hc
        obtain ⟨es, hrun⟩ := hb.2
        refine ⟨start, prs, events ++ [.store (parseEphemeris msg)], hb.step parse h, ?_⟩
        simpa only [hconv] using hcall.store parse hrun hf hp h
      · obtain ⟨start, gen, prs, events, hb, hcall, hbase⟩ := hs.epochs e he
        exact ⟨start, gen, prs, events, hb.step parse h, hcall.step parse h, hbase⟩

theorem corrects_run (float : K → String) (s₀ : Service K) (hidle : s₀.obs = .idle) (hnone : s₀.epochs = [])
    {es : List Service.Event} {s : Service K} (h : Transition.run (Service.step parse float) s₀ es = some s) :
    Corrects parse float s₀ s := by
  refine along (I := fun _ => Corrects parse float s₀) (fun es s₁ e s₂ h₀ he hs => corrects_step h₀ hs he) h
    ⟨fun tow phase frames hc => ?_, fun e he => ?_⟩
  · rw [hidle] at hc
    cases hc
  · rw [hnone] at he
    cases he

/-- What the table of ephemerides was, or what `feed_eph` has taken up since. -/
def TakenUp (parse : Bytes → Option (Msg K)) (float : K → String) (s₀ s : Service K) : Prop :=
  ∀ prn eph, s.conv.gen.ephemerides.get? prn = some eph →
    s₀.conv.gen.ephemerides.get? prn = some eph ∨ eph.prn = prn ∧ TakesUp parse float s₀ s eph

theorem takenUp_step {s s' : Service K} {e : Service.Event} {es : List Service.Event}
    (h₀ : Transition.run (Service.step parse float) s₀ es = some s) (hs : TakenUp parse float s₀ s)
    (h : s.step parse float e = some s') : TakenUp parse float s₀ s' := by
  have hold : ∀ {prn eph}, s.conv.gen.ephemerides.get? prn = some eph →
      s₀.conv.gen.ephemerides.get? prn = some eph ∨ eph.prn = prn ∧ TakesUp parse float s₀ s' eph :=
    fun hg => (hs _ _ hg).imp_right fun ht => ⟨ht.1, ht.2.step parse h⟩
  intro prn eph hg
  cases acts_step parse h with
  | obsData | ephData | publishes | caster => exact hold hg
  | obsTurn =>
    rcases obsTurn_gen parse s.conv s.obs with ⟨prev, hgen, -⟩ | ⟨frame, m, hf, hgen⟩ <;>
    · simp only [hgen] at hg
      exact hold hg
  | ephTurn frame frames hf =>
    obtain ⟨gen, parseErrors, hconv, rfl | ⟨msg, hp, rfl⟩⟩ := onEphFrame_gen parse s.conv frame
    · simp only [hconv] at hg
      exact hold hg
    · simp only [hconv, DgpsGenerator.addEphemeris, Dict.get?_set] at hg
      split_ifs at hg with hprn
      · cases hg
        exact .inr ⟨hprn.symm, takesUp_turn parse h₀ hf hp h⟩
      · exact hold hg

theorem takenUp_run (float : K → String) (s₀ : Service K) {es : List Service.Event} {s : Service K}
    (h : Transition.run (Service.step parse float) s₀ es = some s) : TakenUp parse float s₀ s :=
  along (I := fun _ => TakenUp parse float s₀) (fun _ _ _ _ h₀ he hs => takenUp_step h₀ hs he) h fun _ _ hg => .inl hg

/-- Whatever the other threads did meanwhile, the corrections of an epoch are
those of `corrections` for a frame of observations that `feed_obs` took up in
the run, on what the generator was then but for its table of ephemerides: issues
of data apart, a table of ephemerides that were there then or that `feed_eph`
took up since; and those that were there then it took up before, unless the run
started with them. -/
theorem service_epochs (float : K → String) (s₀ : Service K) (hidle : s₀.obs = .idle) (hnone : s₀.epochs = [])
    {es : List Service.Event} {s : Service K} (h : Transition.run (Service.step parse float) s₀ es = some s) :
    ∀ e ∈ s.epochs, ∃ start frame frames msg pseudoranges table, Between parse float s₀ start s ∧
      start.obs = .looping (frame :: frames) ∧ parse frame = some (.gpsMsm7 msg) ∧
      parseGpsMsm7 msg = .ok (e.tow, pseudoranges) ∧ start.conv.gen.base = some e.base ∧
      (∀ prn eph, start.conv.gen.ephemerides.get? prn = some eph →
        s₀.conv.gen.ephemerides.get? prn = some eph ∨ eph.prn = prn ∧ TakesUp parse float s₀ start eph) ∧
      (∀ prn eph, table.get? prn = some eph →
        start.conv.gen.ephemerides.get? prn = some eph ∨ eph.prn = prn ∧ TakesUp parse float start s eph) ∧
      Alike ((withTable start.conv.gen table).corrections e.tow pseudoranges).1 (.ok e.corrections) := by
  intro e he
  obtain ⟨start, gen, prs, events, hb, hcall, hbase⟩ := (corrects_run float s₀ hidle hnone h).epochs e he
  obtain ⟨frame, frames, msg, hobs, hf, hm⟩ := hcall.frame
  obtain ⟨es₀, h₀⟩ := hb.1
  refine ⟨start, frame, frames, msg, prs, _, hb, hobs, hf, hm, hbase, takenUp_run float s₀ h₀, fun prn eph hg => ?_,
    (interleaved_alike hcall.phase).1⟩
  exact (readTable_stored _ _ _ _ _ prn eph hg).imp_right fun ⟨hp, hst⟩ => ⟨hp, hcall.stores eph hst⟩

/-! ## One epoch -/

/-- A new sender sends at least the station. -/
theorem epoch_new_ne_nil {K : Type} [Field K] [LinearOrder K] [FloorRing K] (id : StationId)
    (maxIodAgeS maxResidualM : K) {e : Epoch K} (hp : Placed e) :
    ((senderOf (.new id maxIodAgeS maxResidualM)).epoch e).1 ≠ [] := by
  obtain ⟨enc, -, -, hstep⟩ := epoch_step (s := senderOf (.new id maxIodAgeS maxResidualM)) ⟨false, false, rfl⟩ e
  intro hnil
  rw [hnil, List.map_nil] at hstep
  generalize ((senderOf (.new id maxIodAgeS maxResidualM)).epoch e).2 = s' at hstep
  cases hstep with
  | nothing hr => cases hr
  | unplaced hr hp' => exact hp' hp

/-- What the converter publishes for the station, the orbits and a satellite. -/
theorem oneEpoch_published :
    (runFeeds parseBoth (.new ⟨1023, by decide⟩ (7200 : ℝ) 100)
      (bothFrames ++ [(.obs, observedFrame)])).rtcm23Feed ≠ [] := by
  obtain ⟨c', hc', hepochs⟩ := epochs_bothFrames (fun _ _ => rfl) ⟨1023, by decide⟩
  obtain ⟨c'', corr, published, -, -, -, -, hobserved⟩ :=
    epochs_observedOf hc' isFrame_observedFrame parseBoth_observedFrame rfl
  have hlog := (run_sender parseBoth (bothFrames ++ [(.obs, observedFrame)])
    (.new ⟨1023, by decide⟩ (7200 : ℝ) 100)).log
  rw [hepochs, hobserved] at hlog
  have hne := epoch_new_ne_nil ⟨1023, by decide⟩ 7200 100 (placed_nearCentre (100000 / 1000) [corr])
  intro hnil
  rw [hnil, List.map_cons, Sender.run, List.flatten_cons, List.map_append] at hlog
  exact hne (List.map_eq_nil_iff.mp (List.append_eq_nil_iff.mp (List.append_eq_nil_iff.mp hlog.symm).2).1)

omit [PyMath K] in
theorem epochs_ne_nil {stationId : StationId} {maxIodAgeS maxResidualM : K} {s : Service K}
    (hs : Delivers (.new stationId maxIodAgeS maxResidualM) s) (h : s.caster.published 1 ≠ []) : s.epochs ≠ [] := by
  intro hnone
  have hlog : s.caster.published 1 ++ (s.caster.feeds 1).announced ++ pendingOf s.pending 1 = s.conv.rtcm23Feed :=
    hs.published 1
  rw [hs.rtcm23Feed, hnone] at hlog
  exact h (List.append_eq_nil_iff.mp (List.append_eq_nil_iff.mp hlog).1).1

/-- Frames of the station, of an orbit and of its satellite yield an epoch. -/
theorem run_oneEpoch_calls (rtcm3 rtcm23 : MountInfo ℝ) (float : ℝ → String) : ∃ es s,
    Transition.run (Service.step parseBoth float) (.init ⟨1023, by decide⟩ 7200 100 rtcm3 rtcm23) es = some s ∧
      s.epochs ≠ [] ∧ s.caster.published 1 ≠ [] ∧ s.quiet ∧
      es.filterMap Service.Event.called = bothFrames ++ [(.obs, observedFrame)] ∧
      ∀ e ∈ es, (e.ofObs || e.ofEph) = true := by
  have hinit : Transition.run (Service.step parseBoth float) (.init ⟨1023, by decide⟩ 7200 100 rtcm3 rtcm23) [] =
    some _ := rfl
  obtain ⟨es, s, h, hes, hcalls, hown, hq, hobs, heph⟩ := run_feeds parseBoth float
    (bothFrames ++ [(.obs, observedFrame)]) (by decide)
    (delivers_run parseBoth ⟨1023, by decide⟩ 7200 100 rtcm3 rtcm23 hinit) ⟨rfl, rfl, rfl⟩ rfl rfl
  have hpub := published_runFeeds h hes hq hobs heph
  rw [hcalls] at hpub
  have hne : s.caster.published 1 ≠ [] := hpub ▸ oneEpoch_published
  exact ⟨es, s, h, epochs_ne_nil (delivers_run parseBoth _ _ _ _ _ h) hne, hne, hq, hcalls, hown⟩

theorem run_oneEpoch (rtcm3 rtcm23 : MountInfo ℝ) (float : ℝ → String) : ∃ es s,
    Transition.run (Service.step parseBoth float) (.init ⟨1023, by decide⟩ 7200 100 rtcm3 rtcm23) es = some s ∧
      s.epochs ≠ [] := by
  obtain ⟨es, s, h, hne, -⟩ := run_oneEpoch_calls rtcm3 rtcm23 float
  exact ⟨es, s, h, hne⟩

theorem service_epochs_one : ∃ (s₀ s : Service ℝ) (e : Epoch ℝ) (start : Service ℝ), e ∈ s.epochs ∧
    Between parseBoth (fun _ => "") s₀ start s ∧ start.conv.gen.base = some e.base := by
  obtain ⟨es, s, h, hne⟩ := run_oneEpoch { mount := "RTCM3", lat := 0, lon := 0 }
    { mount := "RTCM23", lat := 0, lon := 0 } fun _ => ""
  obtain ⟨e, he⟩ := List.exists_mem_of_ne_nil s.epochs hne
  obtain ⟨start, -, -, -, -, -, hb, -, -, -, hbase, -, -, -⟩ := service_epochs (fun _ => "") _ rfl rfl h e he
  exact ⟨_, s, e, start, he, hb, hbase⟩

end Rtcm.Proof
