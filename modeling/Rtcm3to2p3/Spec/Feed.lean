import Rtcm3to2p3.Spec.Framing

/-!
# Runs of the converter's two streams

The chunks of one upstream fed to a converter one after the other, an
exception out of one call swallowed as `NtripClient.stream` does, and the
frames the handler is called with.
-/

namespace Rtcm.Spec

open Rtcm.Impl

/-- The frames a loop over `frames` reaches: one that raises is the last. -/
def handed {σ : Type} (onFrame : σ → Bytes → Py Unit × σ) (c : σ) : List Bytes → List Bytes
  | [] => []
  | frame :: frames =>
    match onFrame c frame with
    | (.error _, _) => [frame]
    | (.ok (), c) => frame :: handed onFrame c frames

/-- No frame of `frames` raises but the last. -/
def NoneLost {σ : Type} (onFrame : σ → Bytes → Py Unit × σ) (c : σ) : List Bytes → Prop
  | [] => True
  | frame :: frames =>
    match onFrame c frame with
    | (.error _, _) => frames = []
    | (.ok (), c) => NoneLost onFrame c frames

inductive Upstream where
  | obs
  | eph
deriving DecidableEq

variable {K : Type} [Field K] [LinearOrder K] [FloorRing K] [PyMath K]

namespace Upstream

def buf : Upstream → Converter K → Bytes
  | obs, c => c.obsBuf
  | eph, c => c.ephBuf

def onFrame (parse : Bytes → Option (Msg K)) : Upstream → Converter K → Bytes → Py Unit × Converter K
  | obs => Converter.onObsFrame parse
  | eph => Converter.onEphFrame parse

def feed (parse : Bytes → Option (Msg K)) : Upstream → Converter K → Bytes → Py Unit × Converter K
  | obs => Converter.feedObs parse
  | eph => Converter.feedEph parse

/-- The converter when the first frame of a chunk is handled. -/
def received : Upstream → Converter K → Bytes → Converter K
  | obs, c, data => { c with
      rtcm3Feed := publish c.rtcm3Feed data
      obsBuf := (extractRtcm3Frames (c.obsBuf ++ data)).2 }
  | eph, c, data => { c with ephBuf := (extractRtcm3Frames (c.ephBuf ++ data)).2 }

variable (parse : Bytes → Option (Msg K)) (u : Upstream)

/-- The converter after the chunks. -/
def run (c : Converter K) (chunks : List Bytes) : Converter K :=
  chunks.foldl (fun c data => (u.feed parse c data).2) c

/-- The frames of the chunks that the handler is called with. -/
def handed (c : Converter K) : List Bytes → List Bytes
  | [] => []
  | data :: chunks =>
    Spec.handed (u.onFrame parse) (u.received c data) (extractRtcm3Frames (u.buf c ++ data)).1 ++
      handed (u.feed parse c data).2 chunks

/-- In no chunk a frame raises while later frames of the chunk wait. -/
def Lossless (c : Converter K) : List Bytes → Prop
  | [] => True
  | data :: chunks =>
    NoneLost (u.onFrame parse) (u.received c data) (extractRtcm3Frames (u.buf c ++ data)).1 ∧
      Lossless (u.feed parse c data).2 chunks

end Upstream

/-- What a run leaves: everything but how the bytes passed through were split. -/
structure SameOutcome (c c' : Converter K) : Prop where
  passthrough : c.rtcm3Feed.flatten = c'.rtcm3Feed.flatten
  state : { c with rtcm3Feed := [] } = { c' with rtcm3Feed := [] }

end Rtcm.Spec
