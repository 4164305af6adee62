import Rtcm3to2p3.Impl.Rtcm2
import Rtcm3to2p3.Spec.Decoder

/-!
# Streams of messages

Calls of `encode_type1` and `encode_type3` on one encoder, and the messages
a receiver of the calls that returned is meant to read.
-/

namespace Rtcm.Spec

open Rtcm.Impl

variable {K : Type} [Field K] [LinearOrder K] [FloorRing K]

/-- A call of `encode_type1` or `encode_type3`. -/
inductive Call (K : Type) where
  | type1 (stationId zcount seq health : Int) (corrections : List (Correction K))
  | type3 (stationId zcount seq health : Int) (ecef : K × K × K)

def Call.run (enc : Rtcm2Encoder) : Call K → Py Bytes × Rtcm2Encoder
  | .type1 s z q h cs => enc.encodeType1 s z q h cs
  | .type3 s z q h ecef => enc.encodeType3 s z q h ecef

/-- Calls on one encoder, the exceptions caught: the calls that returned, with
their bytes, and the encoder after them. -/
def runCalls (enc : Rtcm2Encoder) : List (Call K) → List (Call K × Bytes) × Rtcm2Encoder
  | [] => ([], enc)
  | c :: cs =>
    match c.run enc with
    | (.error _, enc) => runCalls enc cs
    | (.ok out, enc) => ((c, out) :: (runCalls enc cs).1, (runCalls enc cs).2)

/-- On this encoder the call either returns whole words, exactly when `ok` if
the seeds are bits, or raises `ValueError`, as if it had not been made. -/
structure AllOrNothing (enc : Rtcm2Encoder) (c : Call K) (nWords : Nat) (ok : Prop) : Prop where
  returns : enc.d29 ≤ 1 → enc.d30 ≤ 1 → ((∃ out, (c.run enc).1 = .ok out) ↔ ok)
  whole : ∀ out, (c.run enc).1 = .ok out → out.length = 5 * (2 + nWords)
  refused : ∀ e, (c.run enc).1 = .error e → (∃ msg, e = .valueError msg) ∧ (c.run enc).2 = enc
  absent : ∀ e, (c.run enc).1 = .error e → ∀ calls, runCalls enc (c :: calls) = runCalls enc calls

/-- The record a receiver reads for a correction: its PRN, UDRE and IOD, and
the scale and the counts of `_encode_prc_rrc`. -/
def satRecord (c : Correction K) : SatRecord where
  scale := (encodePrcRrc c.prc c.rrc).1.toNat
  udre := c.udre.toNat
  prn := c.prn.toNat
  prc := (encodePrcRrc c.prc c.rrc).2.1
  rrc := (encodePrcRrc c.prc c.rrc).2.2
  iod := c.iod.toNat

/-- The message of a call: `⌈40 n / 24⌉` words after the header for `n`
records, four for the coordinates, in centimetres. -/
def Call.message : Call K → Message
  | .type1 s z q h cs => {
      preamble := 0x66
      type := 1
      stationId := s.toNat
      zcount := z.toNat
      seq := q.toNat
      length := (40 * cs.length + 23) / 24
      health := h.toNat
      body := .sats (cs.map satRecord) }
  | .type3 s z q h (x, y, z') => {
      preamble := 0x66
      type := 3
      stationId := s.toNat
      zcount := z.toNat
      seq := q.toNat
      length := 4
      health := h.toNat
      body := .ecef (HalfEven.round (x / ECEF_SCALE K)) (HalfEven.round (y / ECEF_SCALE K))
        (HalfEven.round (z' / ECEF_SCALE K)) }

end Rtcm.Spec
