import Rtcm3to2p3.Impl.Service
import Rtcm3to2p3.Lib.Framing

/-!
# RTCM 3 framing

What a frame is, and streams that arrive in chunks.
-/

namespace Rtcm.Spec

open Rtcm.Impl

/-- The length declared by the 10 low bits of the second and third byte. -/
def frameSize : Bytes → Option Nat
  | _ :: b1 :: b2 :: _ => some (frameLength b1 b2)
  | _ => none

/-- RTCM 3 frames: a preamble, and the length of the rest. -/
def rtcm3 : Framer UInt8 where
  start b := b == PREAMBLE3
  size := frameSize
  size_append {l _} m h := by
    match l, h with
    | _ :: _ :: _ :: _, h => exact h
  size_take {l n} h hn := by
    match l, h with
    | a :: b1 :: b2 :: l, h =>
      have hle : 6 ≤ n := by
        obtain rfl := Option.some.inj h
        rw [frameLength]; omega
      obtain ⟨k, rfl⟩ : ∃ k, n = k + 3 := ⟨n - 3, by omega⟩
      exact h

/-- CRC-24Q of a byte string, after `crc`. -/
def crc24q (crc : Nat) : Bytes → Nat
  | [] => crc
  | b :: bs =>
    crc24q ((List.range 8).foldl (fun crc _ =>
      if crc.testBit 23 then (crc <<< 1 ^^^ 0x1864CFB) % 2 ^ 24 else crc <<< 1) (crc ^^^ b.toNat <<< 16)) bs

/-- A well-formed frame: its reserved bits are zero and its CRC checks. -/
structure WellFormed (f : Bytes) : Prop where
  isFrame : rtcm3.IsFrame f
  reserved : (f.getD 1 0).toNat &&& 0xFC = 0
  crc : crc24q 0 f = 0

/-- Chunks appended to a buffer one by one, and the frames taken off it after
each: all the frames, and what the buffer holds then. -/
def extractChunks (buf : Bytes) : List Bytes → List Bytes × Bytes
  | [] => ([], buf)
  | chunk :: chunks =>
    let (frames, rest) := extractRtcm3Frames (buf ++ chunk)
    let (frames', rest') := extractChunks rest chunks
    (frames ++ frames', rest')

end Rtcm.Spec
