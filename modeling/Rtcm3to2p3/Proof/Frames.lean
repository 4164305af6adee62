import Rtcm3to2p3.Proof.Bounds
import Rtcm3to2p3.Proof.Framing
import Rtcm3to2p3.Spec.Sources

/-!
# The frames of the two streams

What a call of `feed_obs` or `feed_eph` has left, and the buffer it leaves, are
of the chunks of its upstream (`stream_step`, `cut_step`). So the service cannot
tell the parser from one that knows only the frames of these (`step_only`,
`run_only`).
-/

namespace Rtcm.Proof

open Rtcm.Impl Rtcm.Spec Transition

variable {K : Type} [Field K] [LinearOrder K] [FloorRing K] [PyMath K] {parse : Bytes → Option (Msg K)}
  {float : K → String}

/-- The event that a call of `on_data` starts with. -/
def callOf : Upstream → Bytes → Service.Event
  | .obs, data => .obsData data
  | .eph, data => .ephData data

/-- The frames that a call of `on_data` has left. -/
def framesOf (s : Service K) : Upstream → List Bytes
  | .obs => s.obs.frames
  | .eph => s.ephFrames

/-- A call appends a chunk to what is left of its stream, and cuts off frames;
then it leaves the last of them. -/
theorem stream_step {s s' : Service K} {e : Service.Event} (h : s.step parse float e = some s')
    (hb : Based s.conv.gen s.obs) (u : Upstream) :
    (∃ data, e = callOf u data ∧ u.buf s'.conv = (extractRtcm3Frames (u.buf s.conv ++ data)).2 ∧
      framesOf s' u = (extractRtcm3Frames (u.buf s.conv ++ data)).1) ∨
    (∀ data, e ≠ callOf u data) ∧ u.buf s'.conv = u.buf s.conv ∧ framesOf s' u <:+ framesOf s u := by
  cases acts_step parse h with
  | obsData data =>
    cases u with
    | obs => exact .inl ⟨data, rfl, rfl, rfl⟩
    | eph => exact .inr ⟨nofun, rfl, List.suffix_rfl⟩
  | obsTurn =>
    have hobs := (obsTurn_observes parse hb).1
    cases u with
    | obs => exact .inr ⟨nofun, hobs.obsBuf, obsTurn_frames parse s.conv s.obs⟩
    | eph => exact .inr ⟨nofun, hobs.ephBuf, List.suffix_rfl⟩
  | ephData data =>
    cases u with
    | obs => exact .inr ⟨nofun, rfl, List.suffix_rfl⟩
    | eph => exact .inl ⟨data, rfl, rfl, rfl⟩
  | ephTurn frame frames hf =>
    obtain ⟨gen, parseErrors, hc, -⟩ := onEphFrame_gen parse s.conv frame
    cases u with
    | obs =>
      refine .inr ⟨nofun, ?_, List.suffix_rfl⟩
      rw [hc]
      rfl
    | eph =>
      refine .inr ⟨nofun, ?_, ?_⟩
      · rw [hc]
        rfl
      · rw [framesOf, framesOf, hf]
        exact List.suffix_cons frame frames
  | publishes | caster =>
    refine .inr ⟨fun data he => ?_, rfl, List.suffix_rfl⟩
    cases u <;> cases he

/-- What a call has left, and the buffer, are of the stream of these chunks. -/
def CutOf (s : Service K) (u : Upstream) (chunks : List Bytes) : Prop :=
  u.buf s.conv = (extractRtcm3Frames chunks.flatten).2 ∧
    ∀ frame ∈ framesOf s u, frame ∈ (extractRtcm3Frames chunks.flatten).1

theorem cut_step {s s' : Service K} {e : Service.Event} (h : s.step parse float e = some s')
    (hb : Based s.conv.gen s.obs) {u : Upstream} {chunks : List Bytes} (hc : CutOf s u chunks) :
    (∀ data, e = callOf u data → CutOf s' u (chunks ++ [data])) ∧
      ((∀ data, e ≠ callOf u data) → CutOf s' u chunks) := by
  obtain ⟨hbuf, hframes⟩ := hc
  have hnot : ∀ {data data'}, callOf u data = callOf u data' → data = data' := by
    intro data data' he
    cases u <;> cases he <;> rfl
  rcases stream_step h hb u with ⟨data, rfl, hbuf', hframes'⟩ | ⟨hne, hbuf', hframes'⟩
  · refine ⟨fun data' he => ?_, fun hne => absurd rfl (hne data)⟩
    obtain rfl := hnot he
    rw [hbuf] at hbuf' hframes'
    unfold CutOf
    rw [List.flatten_append, List.flatten_singleton, extract_append, hbuf', hframes']
    exact ⟨rfl, fun frame hf => List.mem_append_right _ hf⟩
  · exact ⟨fun data he => absurd he (hne data),
      fun _ => ⟨hbuf'.trans hbuf, fun frame hf => hframes frame (hframes'.subset hf)⟩⟩

/-! ## Runs -/

omit [Field K] [LinearOrder K] [FloorRing K] [PyMath K] in
theorem chunksIn_snoc (es : List Service.Event) (e : Service.Event) (u : Upstream) :
    (∀ data, e = callOf u data → Service.chunksIn (es ++ [e]) u = Service.chunksIn es u ++ [data]) ∧
      ((∀ data, e ≠ callOf u data) → Service.chunksIn (es ++ [e]) u = Service.chunksIn es u) := by
  have hsplit : Service.chunksIn (es ++ [e]) u = Service.chunksIn es u ++ Service.chunksIn [e] u := by
    simp only [Service.chunksIn, List.filterMap_append, List.filter_append, List.map_append]
  rw [hsplit]
  refine ⟨fun data he => ?_, fun hne => ?_⟩
  · subst he
    cases u <;> rfl
  · refine (congrArg _ ?_).trans (List.append_nil _)
    cases e with
    | obsData data =>
      cases u with
      | obs => exact absurd rfl (hne data)
      | eph => rfl
    | ephData data =>
      cases u with
      | obs => rfl
      | eph => exact absurd rfl (hne data)
    | obsTurn | ephTurn | caster => rfl

/-- In a run, of the chunks of the run. -/
theorem cut_run {id : StationId} {maxIodAgeS maxResidualM : K} {rtcm3 rtcm23 : MountInfo K} {es : List Service.Event}
    {s : Service K}
    (h : Transition.run (Service.step parse float) (.init id maxIodAgeS maxResidualM rtcm3 rtcm23) es = some s)
    (u : Upstream) : CutOf s u (Service.chunksIn es u) := by
  refine along (I := fun es s => CutOf s u (Service.chunksIn es u)) (fun es s₁ e s' h₁ he hs => ?_) h ?_
  · obtain ⟨hcall, hother⟩ := cut_step he (delivers_run parse _ _ _ _ _ h₁).based hs
    obtain ⟨hsnoc, hsame⟩ := chunksIn_snoc es e u
    by_cases hu : ∃ data, e = callOf u data
    · obtain ⟨data, rfl⟩ := hu
      exact hsnoc data rfl ▸ hcall data rfl
    · have hne : ∀ data, e ≠ callOf u data := fun data he => hu ⟨data, he⟩
      exact hsame hne ▸ hother hne
  · have hnil : extractRtcm3Frames [] = ([], []) := extract_rest .nil
    cases u <;> exact ⟨(congrArg Prod.snd hnil).symm, fun frame hf => absurd hf List.not_mem_nil⟩

/-! ## A parser of some frames -/

/-- The parser of the frames of two streams; other frames have no message. -/
def only (parse : Bytes → Option (Msg K)) (obs eph : List Bytes) (frame : Bytes) : Option (Msg K) :=
  match parse frame with
  | some (.gpsEphemeris m) => some (if frame ∈ eph then .gpsEphemeris m else .other "")
  | some msg => some (if frame ∈ obs then msg else .other "")
  | none => none

variable {obs eph : List Bytes}

section

omit [Field K] [LinearOrder K] [FloorRing K] [PyMath K]

theorem only_gpsEphemeris {frame : Bytes} {m : Msg1019 K} (h : only parse obs eph frame = some (.gpsEphemeris m)) :
    frame ∈ eph ∧ parse frame = some (.gpsEphemeris m) := by
  unfold only at h
  cases hp : parse frame with
  | none =>
    rw [hp] at h
    cases h
  | some msg =>
    rw [hp] at h
    cases msg with
    | gpsEphemeris m' =>
      dsimp only at h
      split_ifs at h with hf
      · cases h
        exact ⟨hf, rfl⟩
      · cases h
    | station | gpsMsm7 | other =>
      dsimp only at h
      split_ifs at h
      all_goals cases h

theorem only_obs {frame : Bytes} {msg : Msg K} (h : only parse obs eph frame = some msg)
    (hm : (∃ m, msg = .station m) ∨ ∃ m, msg = .gpsMsm7 m) : frame ∈ obs ∧ parse frame = some msg := by
  unfold only at h
  cases hp : parse frame with
  | none =>
    rw [hp] at h
    cases h
  | some msg' =>
    rw [hp] at h
    cases msg' with
    | gpsEphemeris m' =>
      dsimp only at h
      split_ifs at h
      all_goals
        cases h
        rcases hm with ⟨m, hm⟩ | ⟨m, hm⟩ <;> cases hm
    | station | gpsMsm7 | other =>
      dsimp only at h
      split_ifs at h with hf
      · cases h
        exact ⟨hf, rfl⟩
      · cases h
        rcases hm with ⟨m, hm⟩ | ⟨m, hm⟩ <;> cases hm

end

variable (parse)

omit [LinearOrder K] [FloorRing K] in
/-- The ephemeris thread takes nothing else from a frame. -/
theorem onEphFrame_only (c : Converter K) {frame : Bytes} (h : frame ∈ eph) :
    c.onEphFrame (only parse obs eph) frame = c.onEphFrame parse frame := by
  unfold Converter.onEphFrame Converter.parseFrame only
  cases parse frame with
  | none => rfl
  | some msg =>
    cases msg with
    | gpsEphemeris m =>
      dsimp only
      rw [if_pos h]
    | station | gpsMsm7 | other =>
      dsimp only
      split_ifs <;> rfl

/-- Nor does the observation thread. -/
theorem obsTurn_only (c : Converter K) {stage : ObsStage K} (h : ∀ frame ∈ stage.frames, frame ∈ obs) :
    Service.obsTurn (only parse obs eph) c stage = Service.obsTurn parse c stage := by
  cases stage with
  | idle => rfl
  | correcting tow phase frames => rfl
  | looping frames =>
    cases frames with
    | nil => rfl
    | cons frame frames =>
      have hf := h frame List.mem_cons_self
      simp only [Service.obsTurn, Converter.parseFrame, only]
      cases parse frame with
      | none => rfl
      | some msg =>
        cases msg with
        | gpsEphemeris m =>
          dsimp only
          split_ifs <;> rfl
        | station | gpsMsm7 | other =>
          dsimp only
          rw [if_pos hf]

theorem step_only (float : K → String) (s : Service K) (e : Service.Event)
    (hobs : ∀ frame ∈ framesOf s .obs, frame ∈ obs)
    (heph : ∀ frame ∈ framesOf s .eph, frame ∈ eph) :
    s.step (only parse obs eph) float e = s.step parse float e := by
  cases e with
  | obsData | ephData | caster => rfl
  | obsTurn =>
    simp only [Service.step]
    rw [obsTurn_only parse s.conv hobs]
  | ephTurn =>
    simp only [Service.step]
    cases hf : s.ephFrames with
    | nil => rfl
    | cons frame frames =>
      dsimp only
      rw [onEphFrame_only parse s.conv (heph frame (by rw [framesOf, hf]; exact List.mem_cons_self))]


/-- A run is one with a parser of the frames that the upstreams have sent. -/
theorem run_only {id : StationId} {maxIodAgeS maxResidualM : K} {rtcm3 rtcm23 : MountInfo K} {es : List Service.Event}
    {s : Service K}
    (h : Transition.run (Service.step parse float) (.init id maxIodAgeS maxResidualM rtcm3 rtcm23) es = some s)
    (hobs : Service.framesIn es .obs ⊆ obs) (heph : Service.framesIn es .eph ⊆ eph) :
    Transition.run (Service.step (only parse obs eph) float) (.init id maxIodAgeS maxResidualM rtcm3 rtcm23) es =
      some s := by
  refine along (I := fun es s => Service.framesIn es .obs ⊆ obs → Service.framesIn es .eph ⊆ eph →
      Transition.run (Service.step (only parse obs eph) float) (.init id maxIodAgeS maxResidualM rtcm3 rtcm23) es =
        some s) (fun es s₁ e s' h₁ he ih hobs heph => ?_) h (fun _ _ => rfl) hobs heph
  have hgrow : ∀ u, Service.framesIn es u ⊆ Service.framesIn (es ++ [e]) u := by
    intro u
    obtain ⟨hsnoc, hsame⟩ := chunksIn_snoc es e u
    unfold Service.framesIn
    by_cases hu : ∃ data, e = callOf u data
    · obtain ⟨data, hu⟩ := hu
      rw [hsnoc data hu, List.flatten_append, extract_append]
      exact List.subset_append_left _ _
    · rw [hsame fun data he => hu ⟨data, he⟩]
      exact List.Subset.refl _
  have hobs₁ := List.Subset.trans (hgrow .obs) hobs
  have heph₁ := List.Subset.trans (hgrow .eph) heph
  refine run_append_of (ih hobs₁ heph₁) (run_cons_of ?_ rfl)
  rw [step_only parse float s₁ e (fun frame hf => hobs₁ ((cut_run h₁ .obs).2 frame hf))
    fun frame hf => heph₁ ((cut_run h₁ .eph).2 frame hf)]
  exact he

end Rtcm.Proof
