import Rtcm3to2p3.Proof.Stream

/-!
# Streams and chunks

A run that loses no frame does not depend on the chunks (`chunks_irrelevant`),
and frames are handed over intact after a buffer without a preamble, and after
no other (`frames_handed`). A chunk loses the frames after one that raises,
and a preamble in the buffer takes the bytes of frames that follow.
-/

namespace Rtcm.Proof

open Rtcm.Impl Rtcm.Spec

section

variable {K : Type} [Field K] [LinearOrder K] [FloorRing K] [PyMath K] (parse : Bytes → Option (Msg K))

/-- A stream of observations, split in two ways, from any converter: if in
both runs each frame that raises is the last complete one of its chunk, both
leave the same, and pass the stream through. -/
theorem chunks_irrelevant (c : Converter K) (chunks chunks' : List Bytes) (h : ∀ d ∈ chunks, d ≠ [])
    (h' : ∀ d ∈ chunks', d ≠ []) (he : chunks.flatten = chunks'.flatten)
    (hl : Upstream.obs.Lossless parse c chunks) (hl' : Upstream.obs.Lossless parse c chunks') :
    SameOutcome (Upstream.obs.run parse c chunks) (Upstream.obs.run parse c chunks') ∧
      (Upstream.obs.run parse c chunks).rtcm3Feed.flatten = c.rtcm3Feed.flatten ++ chunks.flatten := by
  have hx := extractChunks_congr c.obsBuf h h' he
  rw [run_eq, run_eq, (handed_eq_iff _ _ _ _).mpr hl, (handed_eq_iff _ _ _ _).mpr hl',
    show Upstream.obs.buf c = c.obsBuf from rfl, hx]
  refine ⟨⟨?_, ?_⟩, flatten_publish _ _⟩
  · exact (flatten_publish _ _).trans ((congrArg _ he).trans (flatten_publish _ _).symm)
  · simp only [withChunks, rebuffered, hx]

end

theorem isRest_preamble : rtcm3.IsRest [PREAMBLE3] := ⟨(fun _ h => Option.some.inj h ▸ rfl), fun _ h => nomatch h⟩

/-- A frame as it is, and cut after its preamble. -/
theorem chunks_irrelevant_split :
    SameOutcome
      (Upstream.obs.run parseThree (.new ⟨1023, by decide⟩ 7200 100 : Converter ℝ) [nearCentreFrame])
      (Upstream.obs.run parseThree (.new ⟨1023, by decide⟩ 7200 100) [[PREAMBLE3], nearCentreFrame.tail]) := by
  have hb : Upstream.obs.buf (.new ⟨1023, by decide⟩ 7200 100 : Converter ℝ) = [] := rfl
  refine (chunks_irrelevant parseThree (.new ⟨1023, by decide⟩ 7200 100) [nearCentreFrame]
    [[PREAMBLE3], nearCentreFrame.tail] (by decide) (by decide) rfl (lossless_frame _ _ rfl isFrame_nearCentreFrame)
    ⟨?_, ?_, trivial⟩).1
  · rw [hb, List.nil_append, extract_rest isRest_preamble]
    exact trivial
  · rw [buf_feed, hb, List.nil_append, extract_rest isRest_preamble,
      show [PREAMBLE3] ++ nearCentreFrame.tail = nearCentreFrame from rfl, extract_frame isFrame_nearCentreFrame]
    exact noneLost_singleton _ _ _

/-- Observations that raise, then a station: in one chunk the station is lost. -/
theorem not_chunks_irrelevant : ¬ ∀ (parse : Bytes → Option (Msg ℝ)) (c : Converter ℝ) (chunks chunks' : List Bytes),
    (∀ d ∈ chunks, d ≠ []) → (∀ d ∈ chunks', d ≠ []) → chunks.flatten = chunks'.flatten →
      SameOutcome (Upstream.obs.run parse c chunks) (Upstream.obs.run parse c chunks') := by
  intro h
  have hframes : ∀ f ∈ [observedFrame, nearCentreFrame], rtcm3.IsFrame f := by
    simp only [List.forall_mem_cons, isFrame_observedFrame, isFrame_nearCentreFrame, true_and]
    exact fun _ h => nomatch h
  let c : Converter ℝ := knowsNoOrbit (.new ⟨1023, by decide⟩ 7200 100)
  have hs := (h parseThree c [[observedFrame, nearCentreFrame].flatten] [observedFrame, nearCentreFrame] (by decide)
    (by decide) rfl).state
  have hraise : ∀ data, ∃ e, Upstream.obs.onFrame parseThree (Upstream.obs.received c data) observedFrame =
      (.error e, Upstream.obs.received c data) := fun data =>
    onFrame_observedFrame rfl (Dict.get?_set_self ..) rfl
  have hone : (Upstream.obs.run parseThree c [[observedFrame, nearCentreFrame].flatten]).gen.base = some (0, 0, 0) := by
    obtain ⟨e, he⟩ := hraise [observedFrame, nearCentreFrame].flatten
    rw [Upstream.run, List.foldl_cons, List.foldl_nil, feed_frames parseThree .obs rfl hframes, forFrames, he]
    rfl
  have htwo : (Upstream.obs.run parseThree c [observedFrame, nearCentreFrame]).gen.base = some (1, 0, 0) := by
    obtain ⟨e, he⟩ := hraise observedFrame
    rw [Upstream.run, List.foldl_cons, List.foldl_cons, List.foldl_nil,
      feed_frame parseThree .obs rfl isFrame_observedFrame, he,
      feed_station ?_ isFrame_nearCentreFrame parseThree_nearCentreFrame]
    · rfl
    · exact congrArg Prod.snd (extract_frame isFrame_observedFrame)
  have hb := congrArg (fun c : Converter ℝ => c.gen.base) hs
  dsimp only at hb
  rw [hone, htwo] at hb
  norm_num at hb

section

variable {K : Type} [Field K] [LinearOrder K] [FloorRing K] [PyMath K] (parse : Bytes → Option (Msg K)) (u : Upstream)

/-- Well-formed frames, in whatever chunks they arrive: the stream is cut into
them, so that none is swallowed or split, and they are all handed over, in
order, if and only if there was no preamble in the buffer and no chunk loses a
frame. -/
theorem frames_handed (c : Converter K) (g : Bytes) (gs chunks : List Bytes)
    (hw : ∀ f ∈ g :: gs, WellFormed f) (he : chunks.flatten = (g :: gs).flatten) :
    extractChunks (u.buf c) chunks = (g :: gs, []) ∧ u.handed parse c chunks = g :: gs ↔
      PREAMBLE3 ∉ u.buf c ∧ u.Lossless parse c chunks := by
  have hquiet : rtcm3.Quiet (u.buf c) ↔ PREAMBLE3 ∉ u.buf c := by
    refine ⟨fun h hm => ?_, fun h b hb => ?_⟩
    · have := h _ hm
      cases this
    · exact beq_eq_false_iff_ne.mpr fun hp => h (hp ▸ hb)
  obtain ⟨data, chunks, rfl⟩ : ∃ data chunks', chunks = data :: chunks' := by
    cases chunks with
    | nil =>
      have hne := (hw g List.mem_cons_self).isFrame.ne_nil
      exact absurd (List.append_eq_nil_iff.mp he.symm).1 hne
    | cons data chunks => exact ⟨data, chunks, rfl⟩
  obtain ⟨ns, hc⟩ := extractChunks_cut_cons (u.buf c) data chunks
  obtain ⟨ns', hgs⟩ := Framer.Cut.flatten (F := rtcm3) fun f hf => (hw f hf).isFrame
  rw [he] at hc
  have hcut : extractChunks (u.buf c) (data :: chunks) = (g :: gs, []) ↔ PREAMBLE3 ∉ u.buf c := by
    refine ⟨fun h => ?_, fun h => ?_⟩
    · rw [h] at hc
      exact hquiet.mp hc.quiet_of_frames
    · obtain ⟨ns'', hn⟩ := hgs.noise (hquiet.mpr h)
      obtain ⟨-, h1, h2⟩ := hc.unique hn
      exact Prod.ext h1 h2
  rw [← handed_eq_iff, ← hcut]
  refine and_congr_right fun h => ?_
  rw [h]

end

theorem wellFormed_nearCentreFrame : WellFormed nearCentreFrame :=
  ⟨isFrame_nearCentreFrame, by decide, by decide +kernel⟩

theorem wellFormed_observedFrame : WellFormed observedFrame :=
  ⟨isFrame_observedFrame, by decide, by decide +kernel⟩

/-- Two frames, cut within both, after two bytes that are no preamble. -/
theorem frames_handed_cut :
    let c : Converter ℝ := Upstream.obs.run parseThree (.new ⟨1023, by decide⟩ 7200 100) [[0x00, 0x01]]
    Upstream.obs.handed parseThree c [nearCentreFrame.take 10, nearCentreFrame.drop 10 ++ observedFrame.take 5,
      observedFrame.drop 5] = [nearCentreFrame, observedFrame] := by
  intro c
  have hb : Upstream.obs.buf c = [] := by
    rw [buf_run]
    decide +kernel
  have hw : ∀ f ∈ [nearCentreFrame, observedFrame], WellFormed f :=
    List.forall_mem_cons.mpr ⟨wellFormed_nearCentreFrame, List.forall_mem_singleton.mpr wellFormed_observedFrame⟩
  refine ((frames_handed parseThree .obs c nearCentreFrame [observedFrame] _ hw (by decide)).mpr ⟨?_, ?_⟩).2
  · rw [hb]
    exact List.not_mem_nil
  · have h₁ : extractRtcm3Frames (Upstream.obs.buf c ++ nearCentreFrame.take 10) = ([], nearCentreFrame.take 10) := by
      rw [hb]
      decide +kernel
    have h₂ : extractRtcm3Frames (nearCentreFrame.take 10 ++ (nearCentreFrame.drop 10 ++ observedFrame.take 5)) =
        ([nearCentreFrame], observedFrame.take 5) := by decide +kernel
    have h₃ : extractRtcm3Frames (observedFrame.take 5 ++ observedFrame.drop 5) = ([observedFrame], []) := by
      decide +kernel
    refine lossless_cons _ _ h₁ (by decide) fun c₁ hb₁ => ?_
    refine lossless_cons _ _ (by rw [hb₁, h₂]) (by decide) fun c₂ hb₂ => ?_
    exact lossless_cons _ _ (by rw [hb₂, h₃]) (by decide) fun _ _ => trivial

/-- A preamble alone, then a frame: the two are an incomplete frame of 774 bytes. -/
theorem not_frames_handed : ¬ ∀ (parse : Bytes → Option (Msg ℝ)) (u : Upstream) (c : Converter ℝ)
    (before gs chunks : List Bytes), (∀ g ∈ gs, WellFormed g) → chunks.flatten = gs.flatten →
      gs.Sublist (u.handed parse (u.run parse c before) chunks) := by
  intro h
  have hs := h parseThree .obs (.new ⟨1023, by decide⟩ 7200 100) [[PREAMBLE3]] [nearCentreFrame] [nearCentreFrame]
    (fun _ hf => List.mem_singleton.mp hf ▸ wellFormed_nearCentreFrame) rfl
  have hrest : rtcm3.IsRest (PREAMBLE3 :: nearCentreFrame) := by
    refine ⟨(fun _ h => Option.some.inj h ▸ rfl), fun n hn _ => ?_⟩
    obtain rfl := Option.some.inj hn
    decide
  have hbuf : Upstream.obs.buf (Upstream.obs.run parseThree (.new ⟨1023, by decide⟩ 7200 100 : Converter ℝ)
      [[PREAMBLE3]]) = [PREAMBLE3] := by
    rw [buf_run]
    exact congrArg Prod.snd (extract_rest isRest_preamble)
  rw [Upstream.handed, hbuf, List.singleton_append, extract_rest hrest] at hs
  exact absurd (List.sublist_nil.mp hs) (by decide)

end Rtcm.Proof
