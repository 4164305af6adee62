import Rtcm3to2p3.Spec.Input
import Rtcm3to2p3.Spec.Wire

/-!
# Epochs and what is sent for them

Calls of `feed_obs` and `feed_eph` in any order, the exceptions swallowed: the
frames handled, the epochs that yield corrections, and what each had published
on the RTCM 2.3 feed. For that feed a converter is a `Sender`, and what a run
publishes depends on its epochs alone.
-/

namespace Rtcm.Spec

open Rtcm.Impl

/-- What a loop over `frames` calls its handler with. -/
def visited {σ : Type} (onFrame : σ → Bytes → Py Unit × σ) (c : σ) : List Bytes → List (σ × Bytes)
  | [] => []
  | frame :: frames =>
    (c, frame) ::
      match onFrame c frame with
      | (.error _, _) => []
      | (.ok (), c) => visited onFrame c frames

/-- An observation epoch that yields corrections. -/
structure Epoch (K : Type) where
  base : K × K × K
  tow : K
  corrections : List (Correction K)

/-- A frame handled, and the converter before it. -/
structure Visit (K : Type) where
  upstream : Upstream
  converter : Converter K
  frame : Bytes

section

variable {K : Type} [Field K] [LinearOrder K] [PyMath K]

/-- The epoch of observations, if the generator returns corrections for it. -/
def epochOf (gen : DgpsGenerator K) (msg : Msg1077 K) : Option (Epoch K) :=
  match gen.base, parseGpsMsm7 msg with
  | some base, .ok (tow, pseudoranges) =>
    match (gen.corrections tow pseudoranges).1 with
    | .ok (c :: cs) => some { base, tow, corrections := c :: cs }
    | _ => none
  | _, _ => none

variable [FloorRing K] (parse : Bytes → Option (Msg K))

namespace Visit

def epoch (v : Visit K) : Option (Epoch K) :=
  match v.upstream, parse v.frame with
  | .obs, some (.gpsMsm7 msg) => epochOf v.converter.gen msg
  | _, _ => none

def after (v : Visit K) : Converter K := (v.upstream.onFrame parse v.converter v.frame).2

/-- What handling the frame published on the RTCM 2.3 feed. -/
def published (v : Visit K) : List Bytes :=
  (v.after parse).rtcm23Feed.drop v.converter.rtcm23Feed.length

end Visit

/-- The converter after the calls. -/
def runFeeds (c : Converter K) (calls : List (Upstream × Bytes)) : Converter K :=
  calls.foldl (fun c call => (call.1.feed parse c call.2).2) c

/-- The frames that are handled, in order. -/
def visits (c : Converter K) : List (Upstream × Bytes) → List (Visit K)
  | [] => []
  | (u, data) :: calls =>
    (visited (u.onFrame parse) (u.received c data) (extractRtcm3Frames (u.buf c ++ data)).1).map
        (fun x => ⟨u, x.1, x.2⟩) ++
      visits (u.feed parse c data).2 calls

/-- The epochs that yield corrections, in order, each with what it had published. -/
def epochs (c : Converter K) (calls : List (Upstream × Bytes)) : List (Epoch K × List Bytes) :=
  (visits parse c calls).filterMap fun v => (v.epoch parse).map fun e => (e, v.published parse)

end

/-! ## Corrections on the wire -/

section

variable {K : Type} [Field K] [LinearOrder K]

/-- A record, and the correction it was sent for. -/
structure RecordCarries (c : Correction K) (r : SatRecord) : Prop where
  prn : (r.prn : Int) = c.prn
  iod : (r.iod : Int) = c.iod
  udre : (r.udre : Int) = c.udre
  available : r.prc ≠ -32768 ∧ r.rrc ≠ -128
  prcFine : |c.rrc| ≤ 0.254 → |r.prc * PRC_SCALE K r.scale - c.prc| ≤ 0.01
  prc : |r.prc * PRC_SCALE K r.scale - c.prc| ≤ 0.16
  rrc : |c.rrc| ≤ 4.064 → |r.rrc * RRC_SCALE K r.scale - c.rrc| ≤ 0.016

/-- The Type 1 message of an epoch. -/
structure Type1Carries (stationId : StationId) (e : Epoch K) (m : Message) : Prop where
  type : m.type = 1
  stationId : (m.stationId : Int) = stationId.val
  health : m.health = 0
  zcount : m.zcount ≤ 5999
  /-- Of the hour. -/
  time : ∃ k : ℤ, |0.6 * m.zcount - e.tow + 3600.0 * k| ≤ 0.3
  ascending : e.corrections.Pairwise fun c c' => c.prn < c'.prn
  sats : ∃ rs, m.body = .sats rs ∧ List.Forall₂ RecordCarries e.corrections rs

end

/-! ## The cadence of the station -/

section

variable {K : Type} [Field K] [LinearOrder K]

/-- The absolute time of each message published, that of its epoch. -/
def stamps (E : List (Epoch K × List Bytes)) (times : List K) : List K :=
  (List.zipWith (fun x t => x.2.map fun _ => t) E times).flatten

/-- A time of week a message can have, in seconds. -/
def IsTow (tow : K) : Prop := ∃ n : ℕ, n < 604800000 ∧ tow = n / (1000 : ℕ)

/-- The station is sent in time, in a stream of messages with these times and types. -/
structure Cadence (interval : K) (L : List (K × Nat)) : Prop where
  /-- No Type 1 message comes before the first Type 3 message. -/
  first : ∀ (i : Nat) (t : K), L[i]? = some (t, 1) → ∃ j < i, ∃ s, L[j]? = some (s, 3)
  /-- Consecutive Type 3 messages are that far apart. -/
  apart : ((L.filter fun x => x.2 = 3).map Prod.fst).IsChain fun s t => interval ≤ t - s
  /-- Before a Type 1 message there is a Type 3 message that is no older. -/
  recent : ∀ (i : Nat) (t : K), L[i]? = some (t, 1) → ∃ j < i, ∃ s, L[j]? = some (s, 3) ∧ t - interval ≤ s ∧ s ≤ t

end

/-! ## The sender -/

/-- What decides the messages a converter sends. -/
structure Sender (K : Type) where
  stationId : StationId
  encoder : Rtcm2Encoder
  seq : Nat
  lastType3Tow : Option K
  messagesOut : Nat

def senderOf {K : Type} (c : Converter K) : Sender K where
  stationId := c.stationId
  encoder := c.encoder
  seq := c.seq
  lastType3Tow := c.lastType3Tow
  messagesOut := c.messagesOut

variable {K : Type} [Field K] [LinearOrder K] [FloorRing K]

namespace Sender

/-- A call under the next sequence number, and its message if it returns. -/
def attempt (s : Sender K) (call : Int → Call K) : Option (Call K × Bytes) × Sender K :=
  let seq := (s.seq + 1) % 8
  match (call seq).run s.encoder with
  | (.error _, encoder) => (none, { s with seq, encoder })
  | (.ok out, encoder) => (some (call seq, out), { s with seq, encoder })

/-- The calls for an epoch, but for the sequence number. -/
def type1 (s : Sender K) (e : Epoch K) (seq : Int) : Call K :=
  .type1 s.stationId.val (modifiedZcount e.tow) seq 0 e.corrections
def type3 (s : Sender K) (e : Epoch K) (seq : Int) : Call K :=
  .type3 s.stationId.val (modifiedZcount e.tow) seq 0 e.base

/-- The corrections of an epoch. -/
def sendCorrections (s : Sender K) (e : Epoch K) : List (Call K × Bytes) × Sender K :=
  match s.attempt (s.type1 e) with
  | (none, s) => ([], s)
  | (some m, s) => ([m], { s with messagesOut := s.messagesOut + 1 })

/-- What is sent for an epoch: the station first, if it is due. -/
def epoch (s : Sender K) (e : Epoch K) : List (Call K × Bytes) × Sender K :=
  if type3Recent s.lastType3Tow e.tow then s.sendCorrections e
  else
    match s.attempt (s.type3 e) with
    | (none, s) => ([], s)
    | (some m, s) =>
      let (ms, s) := { s with lastType3Tow := some e.tow }.sendCorrections e
      (m :: ms, s)

/-- What is sent for each of the epochs. -/
def run (s : Sender K) : List (Epoch K) → List (List (Call K × Bytes)) × Sender K
  | [] => ([], s)
  | e :: es =>
    let (ms, s) := s.epoch e
    let (mss, s) := s.run es
    (ms :: mss, s)

end Sender

end Rtcm.Spec
