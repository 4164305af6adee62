import Mathlib.Data.List.DropRight
import Mathlib.Data.Rat.Floor
import Rtcm3to2p3.Impl.Parity
import Rtcm3to2p3.Lib.Round

/-!
# `rtcm2.py`: the RTCM 2.3 encoder

Type 1 (corrections) and Type 3 (station position) messages as 24-bit data
words (`packType1Body`, `packType3Body`), sent with their parity as five
6-of-8 bytes a word by an encoder that keeps the parity's seeds from word to
word and from message to message. Metres and metres per second are exact
numbers of an ordered field `K`.
-/

namespace Rtcm.Impl

variable {K : Type} [Field K] [LinearOrder K] [FloorRing K]

def PREAMBLE : Int := 0x66
def RTCM2_TYPE1 : Int := 1
def RTCM2_TYPE3 : Int := 3
/-- Metres per LSB of a Type 3 coordinate. -/
def ECEF_SCALE (K : Type) [Field K] : K := 0.01
def ECEF_MAX : Int := 2 ^ 31 - 1

/-- Metres per LSB, for each scale factor bit. -/
def PRC_SCALE (K : Type) [Field K] (scale : Int) : K := if scale = 0 then 0.02 else 0.32
/-- Metres/second per LSB. -/
def RRC_SCALE (K : Type) [Field K] (scale : Int) : K := if scale = 0 then 0.002 else 0.032
def PRC_MAX : Int := 32767
def RRC_MAX : Int := 127

/-- One satellite's correction. -/
structure Correction (K : Type) where
  prn : Int
  prc : K
  rrc : K
  iod : Int
  udre : Int := 0
  deriving DecidableEq

/-- `_encode_prc_rrc`: the scale factor bit, the PRC counts and the RRC counts. -/
def encodePrcRrc (prc rrc : K) : Int × Int × Int :=
  let prcCounts scale := HalfEven.round (prc / PRC_SCALE K scale)
  let rrcCounts scale := HalfEven.round (rrc / RRC_SCALE K scale)
  let fits scale := |prcCounts scale| ≤ PRC_MAX ∧ |rrcCounts scale| ≤ RRC_MAX
  if fits 0 then (0, prcCounts 0, rrcCounts 0)
  else if fits 1 then (1, prcCounts 1, rrcCounts 1)
  else (1, max (-PRC_MAX) (min PRC_MAX (prcCounts 1)), max (-RRC_MAX) (min RRC_MAX (rrcCounts 1)))

/-- The range checks both messages start with. -/
def checkHeader (stationId zcount seq health : Int) : Py Unit :=
  if ¬ (0 ≤ stationId ∧ stationId < 2 ^ 10) then .error (.valueError "station_id out of range 0..1023")
  else if ¬ (0 ≤ zcount ∧ zcount < 8192) then .error (.valueError "zcount out of range 0..8191")
  else if ¬ (0 ≤ seq ∧ seq < 8) then .error (.valueError "seq out of range 0..7")
  else if ¬ (0 ≤ health ∧ health < 8) then .error (.valueError "health out of range 0..7")
  else .ok ()

/-- The two header words' fields, written to an empty writer. -/
def writeHeader (type stationId zcount seq nWords health : Int) : Py BitWriter := do
  let w ← ({} : BitWriter).writeUnsigned PREAMBLE 8
  let w ← w.writeUnsigned type 6
  let w ← w.writeUnsigned stationId 10
  let w ← w.writeUnsigned zcount 13
  let w ← w.writeUnsigned seq 3
  let w ← w.writeUnsigned nWords 5
  w.writeUnsigned health 3

/-- One turn of the loop over the corrections: the record's checks and its 40 bits. -/
def packSat (sat : BitWriter) (c : Correction K) : Py BitWriter :=
  if ¬ (1 ≤ c.prn ∧ c.prn ≤ 32) then .error (.valueError s!"PRN out of range 1..32: {c.prn}")
  else if ¬ (0 ≤ c.udre ∧ c.udre < 4) then .error (.valueError s!"UDRE out of range 0..3: {c.udre}")
  else if ¬ (0 ≤ c.iod ∧ c.iod < 256) then .error (.valueError s!"IOD out of range 0..255: {c.iod}")
  else do
    let (scale, prcCounts, rrcCounts) := encodePrcRrc c.prc c.rrc
    let sat ← sat.writeUnsigned scale 1
    let sat ← sat.writeUnsigned c.udre 2
    let sat ← sat.writeUnsigned (c.prn % 32) 5
    let sat ← sat.writeSigned prcCounts 16
    let sat ← sat.writeSigned rrcCounts 8
    sat.writeUnsigned c.iod 8

/-- `for _ in range(n): stream.write_unsigned(r.read_unsigned(1), 1)` -/
def copyBits : Nat → BitReader → BitWriter → Py BitWriter
  | 0, _, stream => .ok stream
  | n + 1, r, stream => do
    let (bit, r) ← r.readUnsigned 1
    copyBits n r (← stream.writeUnsigned bit 1)

/-- `while stream.nbits < total_bits: stream.write_unsigned(0, 1)`: a turn adds
a bit, so there are `total_bits - stream.nbits` of them. -/
def fillBits : Nat → Nat → BitWriter → Py BitWriter
  | 0, _, stream => .ok stream
  | fuel + 1, totalBits, stream =>
    if stream.nbits < totalBits then do fillBits fuel totalBits (← stream.writeUnsigned 0 1)
    else .ok stream

/-- `[reader.read_unsigned(WORD_DATA_BITS) for _ in range(n)]` -/
def readWords : Nat → BitReader → Py (List Nat)
  | 0, _ => .ok []
  | n + 1, r => do
    let (word, r) ← r.readUnsigned WORD_DATA_BITS
    return word :: (← readWords n r)

/-- `_pack_type1_body` -/
def packType1Body (stationId zcount seq health : Int) (corrections : List (Correction K)) :
    Py (List Nat) := do
  checkHeader stationId zcount seq health
  let sat ← corrections.foldlM packSat {}
  let nWords := (sat.nbits + (WORD_DATA_BITS - 1)) / WORD_DATA_BITS
  let hdr ← writeHeader RTCM2_TYPE1 stationId zcount seq nWords health
  let totalBits := 48 + nWords * WORD_DATA_BITS
  let stream ← copyBits 48 { data := ← hdr.toBytes } {}
  let stream ← copyBits sat.nbits { data := ← sat.toBytes } stream
  let stream ← fillBits (totalBits - stream.nbits) totalBits stream
  readWords (totalBits / WORD_DATA_BITS) { data := ← stream.toBytes }

/-- `str(x)` of a number below 10^16 that a double keeps the digits of, at most
seven of them after the point. -/
def floatStr (x : K) : String :=
  let units := (HalfEven.round (|x| * ((10 ^ 7 : Nat) : K))).toNat
  let digits := (toString (10 ^ 7 + units % 10 ^ 7)).toList.tail
  let digits := digits.take 1 ++ (digits.drop 1).rdropWhile (· == '0')
  (if x < 0 then "-" else "") ++ toString (units / 10 ^ 7) ++ "." ++ .ofList digits

example : floatStr (-30000000.04 : ℚ) = "-30000000.04" := by decide +kernel

/-- One turn of the loop over the coordinates. -/
def packCoord (stream : BitWriter) (coord : K) : Py BitWriter :=
  let counts := HalfEven.round (coord / ECEF_SCALE K)
  if ¬ (-ECEF_MAX - 1 ≤ counts ∧ counts ≤ ECEF_MAX) then
    .error (.valueError s!"ECEF coordinate out of 32-bit range: {floatStr coord} m")
  else stream.writeSigned counts 32

/-- `_pack_type3_body` -/
def packType3Body (stationId zcount seq health : Int) (ecef : K × K × K) : Py (List Nat) := do
  checkHeader stationId zcount seq health
  let stream ← writeHeader RTCM2_TYPE3 stationId zcount seq 4 health
  let stream ← [ecef.1, ecef.2.1, ecef.2.2].foldlM packCoord stream
  let totalBits := 48 + 4 * WORD_DATA_BITS
  readWords (totalBits / WORD_DATA_BITS) { data := ← stream.toBytes }

/-- `_reverse6` -/
def reverse6 (value : Nat) : Nat :=
  ((List.range 6).map fun i => ((value >>> i) &&& 1) <<< (5 - i)).sum

/-- `_word30_to_bytes` -/
def word30ToBytes (word30 : Nat) : Bytes :=
  (List.range 5).map fun g =>
    let group := (word30 >>> (WORD_BITS - 6 - g * 6)) &&& 0x3F
    UInt8.ofNat (0x40 ||| reverse6 group)

/-- The parity's seeds, kept across the stream. -/
structure Rtcm2Encoder where
  d29 : Nat := 0
  d30 : Nat := 0
  deriving DecidableEq, Repr

namespace Rtcm2Encoder

/-- `[(dw >> (WORD_DATA_BITS - 1 - i)) & 1 for i in range(WORD_DATA_BITS)]` -/
def dataBits (dw : Nat) : List Nat :=
  (List.range WORD_DATA_BITS).map fun i => (dw >>> (WORD_DATA_BITS - 1 - i)) &&& 1

/-- `encode_words`. The seeds move with each word, so a word that raises
leaves them as the words before it did. -/
def encodeWords (enc : Rtcm2Encoder) : List Nat → Py Bytes × Rtcm2Encoder
  | [] => (.ok [], enc)
  | dw :: rest =>
    match encodeWord (dataBits dw) enc.d29 enc.d30 with
    | .error e => (.error e, enc)
    | .ok (word30, d29, d30) =>
      let (out, enc) := encodeWords ⟨d29, d30⟩ rest
      (out.map (word30ToBytes word30 ++ ·), enc)

/-- `encode_type1` -/
def encodeType1 (enc : Rtcm2Encoder) (stationId zcount seq health : Int)
    (corrections : List (Correction K)) : Py Bytes × Rtcm2Encoder :=
  match packType1Body stationId zcount seq health corrections with
  | .error e => (.error e, enc)
  | .ok words => enc.encodeWords words

/-- `encode_type3` -/
def encodeType3 (enc : Rtcm2Encoder) (stationId zcount seq health : Int) (ecef : K × K × K) :
    Py Bytes × Rtcm2Encoder :=
  match packType3Body stationId zcount seq health ecef with
  | .error e => (.error e, enc)
  | .ok words => enc.encodeWords words

end Rtcm2Encoder

end Rtcm.Impl
