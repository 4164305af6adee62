import Rtcm3to2p3.Spec.Framing

/-!
# `extract_rtcm3_frames`

The frames it returns and what it leaves in the buffer are the buffer's cut
(`extract_cut`), so chunk by chunk they are the stream's
(`extractChunks_cut`, `framing`), however it is split.
-/

namespace Rtcm.Proof

open Rtcm.Impl Rtcm.Spec

theorem frameLength_le (b1 b2 : UInt8) : frameLength b1 b2 ≤ 1029 := by
  have h1 : b1.toNat &&& 3 < 2 ^ 2 := Nat.and_lt_two_pow _ (by decide)
  have h2 := b2.toNat_lt
  have : (b1.toNat &&& 3) <<< 8 ||| b2.toNat < 2 ^ 10 :=
    Nat.or_lt_two_pow (by rw [Nat.shiftLeft_eq]; omega) (by omega)
  rw [frameLength]
  omega

theorem frameLength_ge (b1 b2 : UInt8) : 6 ≤ frameLength b1 b2 := by
  rw [frameLength]; omega

theorem frameSize_eq {l : Bytes} (h : 3 ≤ l.length) :
    rtcm3.size l = some (frameLength (l.getD 1 0) (l.getD 2 0)) := by
  match l, h with
  | _ :: _ :: _ :: _, _ => rfl

theorem frameSize_length {l : Bytes} {n : Nat} (h : rtcm3.size l = some n) : 3 ≤ l.length := by
  match l, h with
  | _ :: _ :: _ :: _, _ => simp

/-- What is left of a stream is shorter than the longest frame. -/
theorem isRest_length {r : Bytes} (h : rtcm3.IsRest r) : r.length ≤ 1028 := by
  by_cases hl : r.length < 3
  · omega
  · have := h.short _ (frameSize_eq (by omega)) (by rintro rfl; simp at hl)
    have := frameLength_le (r.getD 1 0) (r.getD 2 0)
    omega

/-- The buffer's first preamble, and the noise before it. -/
theorem find_preamble {buf : Bytes} {start : Nat} (h : buf.findIdx? (· == PREAMBLE3) = some start) :
    rtcm3.Quiet (buf.take start) ∧ rtcm3.Starts (buf.drop start) ∧ buf.drop start ≠ [] := by
  obtain ⟨hlt, hs, hq⟩ := List.findIdx?_eq_some_iff_getElem.mp h
  refine ⟨fun a ha => ?_, fun a ha => ?_, by rw [ne_eq, List.drop_eq_nil_iff]; omega⟩
  · obtain ⟨i, hi, rfl⟩ := List.mem_take_iff_getElem.mp ha
    exact Bool.not_eq_true _ ▸ hq i (by omega)
  · rw [List.head?_drop, List.getElem?_eq_getElem hlt, Option.mem_some_iff] at ha
    exact ha ▸ hs

theorem extract_cut (buf : Bytes) :
    ∃ ns, rtcm3.Cut buf ns (extractRtcm3Frames buf).1 (extractRtcm3Frames buf).2 := by
  induction buf using extractRtcm3Frames.induct with
  | case1 buf h =>
    have hq : rtcm3.Quiet buf := fun a ha => List.findIdx?_eq_none_iff.mp h a ha
    have hc := Framer.Cut.rest hq .nil
    rw [List.append_nil] at hc
    rw [extractRtcm3Frames, h]
    exact ⟨[buf], hc⟩
  | case2 buf start h buf' hl =>
    obtain ⟨hq, hs, -⟩ := find_preamble h
    rw [extractRtcm3Frames, h]
    simp only [buf'] at hl
    simp only [hl, if_true]
    have hr : rtcm3.IsRest (buf.drop start) :=
      ⟨hs, fun n hn _ => absurd (frameSize_length hn) (by omega)⟩
    exact ⟨[buf.take start], by simpa only [List.take_append_drop] using Framer.Cut.rest hq hr⟩
  | case3 buf start h buf' hl total ht =>
    obtain ⟨hq, hs, -⟩ := find_preamble h
    rw [extractRtcm3Frames, h]
    simp only [buf', total] at hl ht
    simp only [hl, ht, if_true, if_false]
    have hr : rtcm3.IsRest (buf.drop start) := ⟨hs, fun n hn _ => by
      rw [frameSize_eq (by omega), Option.some.injEq] at hn
      omega⟩
    exact ⟨[buf.take start], by simpa only [List.take_append_drop] using Framer.Cut.rest hq hr⟩
  | case4 buf start h buf' hl total ht frames rest he ih =>
    obtain ⟨hq, hs, -⟩ := find_preamble h
    obtain ⟨ns, hc⟩ := ih
    rw [extractRtcm3Frames, h]
    simp only [buf', total] at hl ht hc
    simp only [hl, ht, if_false]
    have hsize := frameSize_eq (l := buf.drop start) (by omega)
    have hge := frameLength_ge ((buf.drop start).getD 1 0) ((buf.drop start).getD 2 0)
    generalize frameLength ((buf.drop start).getD 1 0) ((buf.drop start).getD 2 0) = n at *
    have hf : rtcm3.IsFrame ((buf.drop start).take n) := .take hs hsize (by omega) (by omega)
    refine ⟨buf.take start :: ns, ?_⟩
    have := Framer.Cut.frame hq hf hc
    rwa [List.take_append_drop, List.take_append_drop] at this

/-- A cut is what the function computes. -/
theorem extract_eq {buf : Bytes} {ns fs : List Bytes} {r : Bytes} (h : rtcm3.Cut buf ns fs r) :
    extractRtcm3Frames buf = (fs, r) := by
  obtain ⟨ns', h'⟩ := extract_cut buf
  obtain ⟨-, h1, h2⟩ := h'.unique h
  exact Prod.ext h1 h2

/-- What comes after is cut with what is left. -/
theorem extract_append (s c : Bytes) : extractRtcm3Frames (s ++ c) =
    ((extractRtcm3Frames s).1 ++ (extractRtcm3Frames ((extractRtcm3Frames s).2 ++ c)).1,
      (extractRtcm3Frames ((extractRtcm3Frames s).2 ++ c)).2) := by
  obtain ⟨ns, h⟩ := extract_cut s
  obtain ⟨ns', h'⟩ := extract_cut ((extractRtcm3Frames s).2 ++ c)
  obtain ⟨ns'', h''⟩ := h.append h'
  exact extract_eq h''

theorem extract_rest {buf : Bytes} (h : rtcm3.IsRest buf) : extractRtcm3Frames buf = ([], buf) := extract_eq h.cut

theorem extract_flatten {frames : List Bytes} (h : ∀ f ∈ frames, rtcm3.IsFrame f) :
    extractRtcm3Frames frames.flatten = (frames, []) := by
  obtain ⟨ns, hc⟩ := Framer.Cut.flatten h
  exact extract_eq hc

theorem extract_frame {frame : Bytes} (h : rtcm3.IsFrame frame) : extractRtcm3Frames frame = ([frame], []) := by
  have hall : ∀ f ∈ [frame], rtcm3.IsFrame f := fun f hf => List.mem_singleton.mp hf ▸ h
  have hf := extract_flatten hall
  rwa [List.flatten_singleton] at hf

theorem extractChunks_cut {buf : Bytes} (hb : rtcm3.IsRest buf) (chunks : List Bytes) :
    ∃ ns, rtcm3.Cut (buf ++ chunks.flatten) ns (extractChunks buf chunks).1 (extractChunks buf chunks).2 := by
  induction chunks generalizing buf with
  | nil => exact ⟨[[]], by rw [List.flatten_nil, List.append_nil]; exact hb.cut⟩
  | cons chunk chunks ih =>
    obtain ⟨ns, h⟩ := extract_cut (buf ++ chunk)
    obtain ⟨ns', h'⟩ := ih h.isRest
    obtain ⟨ns'', h''⟩ := h.append h'
    refine ⟨ns'', ?_⟩
    rw [List.flatten_cons, ← List.append_assoc]
    exact h''

/-- The first chunk makes any buffer a rest. -/
theorem extractChunks_cut_cons (buf chunk : Bytes) (chunks : List Bytes) :
    ∃ ns, rtcm3.Cut (buf ++ (chunk :: chunks).flatten) ns (extractChunks buf (chunk :: chunks)).1
      (extractChunks buf (chunk :: chunks)).2 := by
  obtain ⟨ns, h⟩ := extract_cut (buf ++ chunk)
  obtain ⟨ns', h'⟩ := extractChunks_cut h.isRest chunks
  obtain ⟨ns'', h''⟩ := h.append h'
  refine ⟨ns'', ?_⟩
  rw [List.flatten_cons, ← List.append_assoc]
  exact h''

/-- A stream, in whatever chunks it is appended to an empty buffer: the frames
taken off and what is left are those of its one cut, so they are the same for
other chunks, and the buffer holds at most 1028 bytes. -/
theorem framing (chunks : List Bytes) :
    ∃ ns, rtcm3.Cut chunks.flatten ns (extractChunks [] chunks).1 (extractChunks [] chunks).2 ∧
      (∀ ns' fs r, rtcm3.Cut chunks.flatten ns' fs r →
        ns' = ns ∧ fs = (extractChunks [] chunks).1 ∧ r = (extractChunks [] chunks).2) ∧
      (∀ chunks' : List Bytes, chunks'.flatten = chunks.flatten →
        extractChunks [] chunks' = extractChunks [] chunks) ∧
      (extractChunks [] chunks).2.length ≤ 1028 := by
  obtain ⟨ns, h⟩ := extractChunks_cut .nil chunks
  rw [List.nil_append] at h
  refine ⟨ns, h, fun ns' fs r h' => h'.unique h, fun chunks' he => ?_, isRest_length h.isRest⟩
  obtain ⟨ns', h'⟩ := extractChunks_cut .nil chunks'
  rw [List.nil_append, he] at h'
  obtain ⟨-, h1, h2⟩ := h'.unique h
  exact Prod.ext h1 h2

end Rtcm.Proof
