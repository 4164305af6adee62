import Rtcm3to2p3.Proof.Framing
import Rtcm3to2p3.Spec.Feed

/-!
# Feeding a converter

A run of one upstream is the frames handed over, handled one after the other
(`run_eq`), and those are all the frames of the stream exactly if no chunk
loses one (`handed_eq_iff`).
-/

namespace Rtcm.Proof

open Rtcm.Impl Rtcm.Spec

/-! ## Loops over frames -/

section

variable {σ : Type} (onFrame : σ → Bytes → Py Unit × σ)

/-- A loop is the frames it reaches, one after the other. -/
theorem forFrames_state (c : σ) (frames : List Bytes) :
    (forFrames onFrame c frames).2 = (handed onFrame c frames).foldl (fun c frame => (onFrame c frame).2) c := by
  induction frames generalizing c with
  | nil => rfl
  | cons frame frames ih =>
    rw [forFrames, handed]
    rcases h : onFrame c frame with ⟨_ | _, c'⟩
    · simp only [List.foldl_cons, List.foldl_nil, h]
    · simp only [List.foldl_cons, ih, h]

theorem forFrames_singleton (c : σ) (frame : Bytes) : forFrames onFrame c [frame] = onFrame c frame := by
  rw [forFrames]
  rcases onFrame c frame with ⟨_ | _, c'⟩ <;> rfl

/-- A frame alone is not lost. -/
theorem noneLost_singleton (c : σ) (frame : Bytes) : NoneLost onFrame c [frame] := by
  rw [NoneLost]
  split
  · rfl
  · exact trivial

theorem length_handed_le (c : σ) (frames : List Bytes) : (handed onFrame c frames).length ≤ frames.length := by
  induction frames generalizing c with
  | nil => exact Nat.le_refl 0
  | cons frame frames ih =>
    rw [handed]
    split
    · simp
    · exact Nat.succ_le_succ (ih _)

theorem handed_eq_iff_noneLost (c : σ) (frames : List Bytes) :
    handed onFrame c frames = frames ↔ NoneLost onFrame c frames := by
  induction frames generalizing c with
  | nil => exact ⟨fun _ => trivial, fun _ => rfl⟩
  | cons frame frames ih =>
    rw [handed, NoneLost]
    split
    · rw [List.cons.injEq, eq_comm (a := [])]
      exact ⟨And.right, fun h => ⟨rfl, h⟩⟩
    · rw [List.cons.injEq, ih]
      exact ⟨And.right, fun h => ⟨rfl, h⟩⟩

end

variable {K : Type}

/-! ## What a handler does not touch -/

/-- `c` with other buffers, and other bytes passed through. -/
def rebuffered (c : Converter K) (feed : List Bytes) (obsBuf ephBuf : Bytes) : Converter K :=
  { c with rtcm3Feed := feed, obsBuf := obsBuf, ephBuf := ephBuf }

/-- The bytes passed through and the buffers after chunks from `c₀`, the rest from `c`. -/
def withChunks (c c₀ : Converter K) (chunks : List Bytes) : Upstream → Converter K
  | .obs => rebuffered c (chunks.foldl publish c₀.rtcm3Feed) (extractChunks c₀.obsBuf chunks).2 c₀.ephBuf
  | .eph => rebuffered c c₀.rtcm3Feed c₀.obsBuf (extractChunks c₀.ephBuf chunks).2

theorem received_eq (u : Upstream) (c : Converter K) (data : Bytes) : u.received c data = withChunks c c [data] u := by
  cases u <;> rfl

theorem buf_withChunks (u : Upstream) (c c₀ : Converter K) (chunks : List Bytes) :
    u.buf (withChunks c c₀ chunks u) = (extractChunks (u.buf c₀) chunks).2 := by
  cases u <;> rfl

variable [Field K] [LinearOrder K] [FloorRing K]

theorem maybeEmitType3_rebuffered (c : Converter K) (tow : K) (zcount : Int) (f : List Bytes) (o e : Bytes) :
    (rebuffered c f o e).maybeEmitType3 tow zcount =
      ((c.maybeEmitType3 tow zcount).1, rebuffered (c.maybeEmitType3 tow zcount).2 f o e) := by
  unfold Converter.maybeEmitType3
  simp only [show (rebuffered c f o e).gen = c.gen from rfl,
    show (rebuffered c f o e).lastType3Tow = c.lastType3Tow from rfl]
  cases c.gen.base with
  | none => rfl
  | some base =>
    cases type3Recent c.lastType3Tow tow with
    | true => rfl
    | false =>
      simp only [Converter.nextSeq, rebuffered]
      rcases c.encoder.encodeType3 c.stationId.val zcount ((c.seq + 1) % 8 : Nat) 0 base with ⟨_ | _, _⟩ <;> rfl

theorem send_rebuffered (c : Converter K) (tow : K) (corrections : List (Correction K)) (f : List Bytes) (o e : Bytes) :
    (rebuffered c f o e).send tow corrections =
      ((c.send tow corrections).1, rebuffered (c.send tow corrections).2 f o e) := by
  unfold Converter.send
  dsimp only
  rw [maybeEmitType3_rebuffered]
  rcases c.maybeEmitType3 tow (modifiedZcount tow) with ⟨_ | _, c'⟩
  · rfl
  simp only [Converter.nextSeq, rebuffered]
  rcases c'.encoder.encodeType1 c'.stationId.val (modifiedZcount tow) ((c'.seq + 1) % 8 : Nat) 0
    corrections with ⟨_ | _, _⟩ <;> rfl

variable [PyMath K]

theorem onObservations_rebuffered (c : Converter K) (msg : Msg1077 K) (f : List Bytes) (o e : Bytes) :
    (rebuffered c f o e).onObservations msg =
      ((c.onObservations msg).1, rebuffered (c.onObservations msg).2 f o e) := by
  unfold Converter.onObservations
  rcases parseGpsMsm7 msg with _ | ⟨tow, prs⟩
  · rfl
  simp only [show (rebuffered c f o e).gen = c.gen from rfl]
  rcases c.gen.corrections tow prs with ⟨_ | corrections, gen⟩
  · rfl
  dsimp only
  cases corrections.isEmpty with
  | true => rfl
  | false => exact send_rebuffered { c with gen } tow corrections f o e

variable (parse : Bytes → Option (Msg K)) (u : Upstream)

/-- What a handler does with a frame, by what the parser makes of it. -/
inductive FrameStep (c : Converter K) (frame : Bytes) : Upstream → Py Unit × Converter K → Prop
  | unparsed (u : Upstream) (h : parse frame = none) :
    FrameStep c frame u (.ok (), { c with parseErrors := c.parseErrors + 1 })
  | station (m : Msg1005 K) (h : parse frame = some (.station m)) :
    FrameStep c frame .obs (.ok (), { c with gen := c.gen.setStation (parseStation m) })
  | observations (m : Msg1077 K) (h : parse frame = some (.gpsMsm7 m)) : FrameStep c frame .obs (c.onObservations m)
  | ephemeris (m : Msg1019 K) (h : parse frame = some (.gpsEphemeris m)) :
    FrameStep c frame .eph (.ok (), { c with gen := c.gen.addEphemeris (parseEphemeris m) })
  | ignored (u : Upstream) : FrameStep c frame u (.ok (), c)

theorem frame_step (c : Converter K) (frame : Bytes) : FrameStep parse c frame u (u.onFrame parse c frame) := by
  cases u with
  | obs =>
    simp only [Upstream.onFrame, Converter.onObsFrame, Converter.parseFrame]
    cases hm : parse frame with
    | none => exact .unparsed _ hm
    | some msg =>
      cases msg with
      | station m => exact .station m hm
      | gpsMsm7 m => exact .observations m hm
      | gpsEphemeris | other => exact .ignored _
  | eph =>
    simp only [Upstream.onFrame, Converter.onEphFrame, Converter.parseFrame]
    cases hm : parse frame with
    | none => exact .unparsed _ hm
    | some msg =>
      cases msg with
      | gpsEphemeris m => exact .ephemeris m hm
      | station | gpsMsm7 | other => exact .ignored _

/-- A handler neither reads nor writes the buffers and the bytes passed through. -/
theorem onFrame_rebuffered (c : Converter K) (frame : Bytes) (f : List Bytes) (o e : Bytes) :
    u.onFrame parse (rebuffered c f o e) frame =
      ((u.onFrame parse c frame).1, rebuffered (u.onFrame parse c frame).2 f o e) := by
  cases u with
  | obs =>
    simp only [Upstream.onFrame, Converter.onObsFrame, Converter.parseFrame]
    cases parse frame with
    | none => rfl
    | some msg =>
      cases msg with
      | gpsMsm7 msg => exact onObservations_rebuffered c msg f o e
      | station | gpsEphemeris | other => rfl
  | eph =>
    simp only [Upstream.onFrame, Converter.onEphFrame, Converter.parseFrame]
    cases parse frame with
    | none => rfl
    | some msg => cases msg <;> rfl

/-- The converter after frames are handled one after the other. -/
def handleAll (c : Converter K) (frames : List Bytes) : Converter K :=
  frames.foldl (fun c frame => (u.onFrame parse c frame).2) c

theorem handleAll_rebuffered (c : Converter K) (frames : List Bytes) (f : List Bytes) (o e : Bytes) :
    handleAll parse u (rebuffered c f o e) frames = rebuffered (handleAll parse u c frames) f o e := by
  induction frames generalizing c with
  | nil => rfl
  | cons frame frames ih =>
    simp only [handleAll, List.foldl_cons] at ih ⊢
    rw [onFrame_rebuffered, ih]

theorem feed_eq (c : Converter K) (data : Bytes) :
    u.feed parse c data =
      forFrames (u.onFrame parse) (u.received c data) (extractRtcm3Frames (u.buf c ++ data)).1 := by
  cases u <;> rfl

/-- A chunk of frames, after an empty buffer. -/
theorem feed_frames {c : Converter K} (hb : u.buf c = []) {frames : List Bytes} (h : ∀ f ∈ frames, rtcm3.IsFrame f) :
    u.feed parse c frames.flatten = forFrames (u.onFrame parse) (u.received c frames.flatten) frames := by
  rw [feed_eq, hb, List.nil_append, extract_flatten h]

theorem feed_frame {c : Converter K} (hb : u.buf c = []) {frame : Bytes} (h : rtcm3.IsFrame frame) :
    u.feed parse c frame = u.onFrame parse (u.received c frame) frame := by
  rw [feed_eq, hb, List.nil_append, extract_frame h, forFrames_singleton]

/-! ## Runs -/

theorem handleAll_withChunks (c c₀ : Converter K) (chunks frames : List Bytes) :
    handleAll parse u (withChunks c c₀ chunks u) frames = withChunks (handleAll parse u c frames) c₀ chunks u := by
  cases u <;> exact handleAll_rebuffered _ _ _ _ _ _ _

/-- A call is the frames it hands over. -/
theorem feed_state (c : Converter K) (data : Bytes) :
    (u.feed parse c data).2 =
      withChunks (handleAll parse u c (u.handed parse c [data])) c [data] u := by
  rw [feed_eq, forFrames_state, Upstream.handed, Upstream.handed, List.append_nil, received_eq]
  exact handleAll_withChunks parse u c c [data] _

theorem buf_feed (c : Converter K) (data : Bytes) :
    u.buf (u.feed parse c data).2 = (extractRtcm3Frames (u.buf c ++ data)).2 := by
  rw [feed_state, buf_withChunks]
  rfl

/-- A run is the frames handed over, handled one after the other. -/
theorem run_eq (c : Converter K) (chunks : List Bytes) :
    u.run parse c chunks = withChunks (handleAll parse u c (u.handed parse c chunks)) c chunks u := by
  induction chunks generalizing c with
  | nil => cases u <;> rfl
  | cons data chunks ih =>
    have hrun : u.run parse c (data :: chunks) = u.run parse (u.feed parse c data).2 chunks := rfl
    have hhanded : u.handed parse c (data :: chunks) =
        u.handed parse c [data] ++ u.handed parse (u.feed parse c data).2 chunks := by
      simp only [Upstream.handed, List.append_nil]
    rw [hrun, ih, hhanded, handleAll, handleAll, List.foldl_append]
    generalize u.handed parse (u.feed parse c data).2 chunks = frames
    rw [feed_state]
    change withChunks (handleAll parse u _ frames) _ chunks u =
      withChunks (handleAll parse u (handleAll parse u c _) frames) c (data :: chunks) u
    rw [handleAll_withChunks]
    cases u <;> rfl

theorem buf_run (c : Converter K) (chunks : List Bytes) :
    u.buf (u.run parse c chunks) = (extractChunks (u.buf c) chunks).2 := by
  rw [run_eq, buf_withChunks]

theorem length_handed_run_le (c : Converter K) (chunks : List Bytes) :
    (u.handed parse c chunks).length ≤ (extractChunks (u.buf c) chunks).1.length := by
  induction chunks generalizing c with
  | nil => exact Nat.le_refl 0
  | cons data chunks ih =>
    rw [Upstream.handed, extractChunks, List.length_append, List.length_append]
    exact Nat.add_le_add (length_handed_le _ _ _) (buf_feed parse u c data ▸ ih _)

/-- All the frames of the stream are handed over if and only if no chunk loses one. -/
theorem handed_eq_iff (c : Converter K) (chunks : List Bytes) :
    u.handed parse c chunks = (extractChunks (u.buf c) chunks).1 ↔ u.Lossless parse c chunks := by
  induction chunks generalizing c with
  | nil => exact ⟨fun _ => trivial, fun _ => rfl⟩
  | cons data chunks ih =>
    rw [Upstream.handed, Upstream.Lossless, extractChunks, ← ih, ← handed_eq_iff_noneLost, buf_feed]
    constructor
    · intro h
      have h1 := length_handed_le (u.onFrame parse) (u.received c data) (extractRtcm3Frames (u.buf c ++ data)).1
      have h2 := length_handed_run_le parse u (u.feed parse c data).2 chunks
      have hl := congrArg List.length h
      rw [buf_feed] at h2
      rw [List.length_append, List.length_append] at hl
      exact List.append_inj h (by omega)
    · rintro ⟨h1, h2⟩
      rw [h1, h2]

/-- A chunk that completes at most one frame loses none. -/
theorem lossless_cons {c : Converter K} {data : Bytes} {chunks frames : List Bytes} {rest : Bytes}
    (he : extractRtcm3Frames (u.buf c ++ data) = (frames, rest)) (hone : frames.length ≤ 1)
    (h : ∀ c', u.buf c' = rest → u.Lossless parse c' chunks) : u.Lossless parse c (data :: chunks) := by
  refine ⟨?_, h _ (by rw [buf_feed, he])⟩
  rw [he]
  match frames, hone with
  | [], _ => exact trivial
  | [frame], _ => exact noneLost_singleton _ _ _

theorem lossless_frame {c : Converter K} (hb : u.buf c = []) {frame : Bytes} (h : rtcm3.IsFrame frame) :
    u.Lossless parse c [frame] := by
  have he : extractRtcm3Frames (u.buf c ++ frame) = ([frame], []) := by rw [hb, List.nil_append, extract_frame h]
  exact lossless_cons parse u he (Nat.le_refl 1) fun _ _ => trivial

theorem flatten_publish (feed chunks : List Bytes) :
    (chunks.foldl publish feed).flatten = feed.flatten ++ chunks.flatten := by
  induction chunks generalizing feed with
  | nil => rw [List.foldl_nil, List.flatten_nil, List.append_nil]
  | cons data chunks ih =>
    rw [List.foldl_cons, ih, publish, List.flatten_cons]
    split
    · rename_i h
      rw [List.isEmpty_iff.mp h, List.nil_append]
    · rw [List.flatten_append, List.flatten_singleton, List.append_assoc]

/-- Chunks with bytes in them: the same bytes, the same frames. -/
theorem extractChunks_congr (buf : Bytes) {chunks chunks' : List Bytes} (h : ∀ d ∈ chunks, d ≠ [])
    (h' : ∀ d ∈ chunks', d ≠ []) (he : chunks.flatten = chunks'.flatten) :
    extractChunks buf chunks = extractChunks buf chunks' := by
  match chunks, chunks' with
  | [], [] => rfl
  | [], d :: ds => exact absurd (List.append_eq_nil_iff.mp he.symm).1 (h' d List.mem_cons_self)
  | d :: ds, [] => exact absurd (List.append_eq_nil_iff.mp he).1 (h d List.mem_cons_self)
  | d :: ds, d' :: ds' =>
    obtain ⟨ns, hc⟩ := extractChunks_cut_cons buf d ds
    obtain ⟨ns', hc'⟩ := extractChunks_cut_cons buf d' ds'
    rw [he] at hc
    obtain ⟨-, h1, h2⟩ := hc.unique hc'
    exact Prod.ext h1 h2

end Rtcm.Proof
