import Rtcm3to2p3.Lib.BitString

/-!
# The reference decoder of an RTCM 2.3 stream

What a receiver does with the wire bytes, as the tests transcribe it from
RTKLIB: un-reverse the six low bits of each byte, cut the bits into 30-bit
words from the first one on, undo a word's inversion if the word before
ended in a one, check its parity with RTKLIB's Hamming table, chain the last
two bits into the next word, and read the fields of the messages whose
lengths the headers give. It shares no code and no table with the encoder.
The last section is the tests' other check of the parity alone.
-/

namespace Rtcm.Spec

open BitString

/-- `_HAMMING`: each parity bit's mask over `D29* D30* d1 … d24` and the six
parity bits. -/
def HAMMING : List Nat := [0xBB1F3480, 0x5D8F9A40, 0xAEC7CD00, 0x5763E680, 0x6BB1F340, 0x8B7A89C0]

/-- `_decode_word`: the three data bytes of a word that comes after `D29*` and
`D30*`, in its two top bits; nothing if its parity is wrong. -/
def decodeWord (word32 : Nat) : Option (List UInt8) :=
  let w := if word32 &&& 0x40000000 ≠ 0 then word32 ^^^ 0x3FFFFFC0 else word32
  let parity := HAMMING.foldl (fun p h => p <<< 1 ||| popcount (w &&& h) &&& 1) 0
  if parity ≠ word32 &&& 0x3F then none
  else some [UInt8.ofNat (w >>> 22), UInt8.ofNat (w >>> 14), UInt8.ofNat (w >>> 6)]

/-- The data bits of a 6-of-8 byte, none if its two top bits are not `01`. -/
def deframeByte (raw : UInt8) : List Bool :=
  if raw &&& 0xC0 ≠ 0x40 then []
  else toBits 6 ((List.range 6).map fun i => ((raw.toNat >>> i) &&& 1) <<< (5 - i)).sum

def deframeBits (data : List UInt8) : List Bool := data.flatMap deframeByte

/-- The first `n` words of `bits`, each decoded after the last two bits of the
word before. -/
def decodeWords : Nat → Bool → Bool → List Bool → List (Option (List UInt8))
  | 0, _, _, _ => []
  | n + 1, d29, d30, bits =>
    decodeWord (d29.toNat <<< 31 ||| d30.toNat <<< 30 ||| ofBits (bits.take 30)) ::
      decodeWords n (bits.getD 28 false) (bits.getD 29 false) (bits.drop 30)

/-! ## Messages -/

/-- `_getbits` -/
def getbits (buff : List UInt8) (pos n : Nat) : Nat := ofBits (slice (ofBytes buff) pos n)
def getbitsSigned (buff : List UInt8) (pos n : Nat) : Int := signed (slice (ofBytes buff) pos n)

structure SatRecord where
  scale : Nat
  udre : Nat
  prn : Nat
  prc : Int
  rrc : Int
  iod : Nat
  deriving DecidableEq, Repr

inductive Body where
  | sats (l : List SatRecord)
  | ecef (x y z : Int)
  deriving DecidableEq, Repr

structure Message where
  preamble : Nat
  type : Nat
  stationId : Nat
  zcount : Nat
  seq : Nat
  /-- The number of data words after the two header words. -/
  length : Nat
  health : Nat
  body : Body
  deriving DecidableEq, Repr

/-- The record at bit `i`; PRN 32 is sent as 0. -/
def parseSat (buff : List UInt8) (i : Nat) : SatRecord where
  scale := getbits buff i 1
  udre := getbits buff (i + 1) 2
  prn := if getbits buff (i + 3) 5 = 0 then 32 else getbits buff (i + 3) 5
  prc := getbitsSigned buff (i + 8) 16
  rrc := getbitsSigned buff (i + 24) 8
  iod := getbits buff (i + 32) 8

/-- `_parse_type1` and `_parse_type3`: 40-bit records from bit 48 on as long as
a whole one is left, or three coordinates. -/
def parseMessage (buff : List UInt8) : Message where
  preamble := getbits buff 0 8
  type := getbits buff 8 6
  stationId := getbits buff 14 10
  zcount := getbits buff 24 13
  seq := getbits buff 37 3
  length := getbits buff 40 5
  health := getbits buff 45 3
  body :=
    if getbits buff 8 6 = 3 then
      .ecef (getbitsSigned buff 48 32) (getbitsSigned buff 80 32) (getbitsSigned buff 112 32)
    else
      .sats ((List.range ((8 * buff.length - 48) / 40)).map fun k => parseSat buff (48 + 40 * k))

/-- Cut data bytes into messages, `n` of them at most: the sixth byte's top
five bits are the number of words after the header. -/
def cutMessages : Nat → List UInt8 → List (List UInt8) × List UInt8
  | 0, data => ([], data)
  | n + 1, data =>
    let length := ((data.getD 5 0).toNat >>> 3) * 3 + 6
    if data.length < 6 ∨ data.length < length then ([], data)
    else
      let (msgs, rest) := cutMessages n (data.drop length)
      (data.take length :: msgs, rest)

/-- What the decoder makes of a stream. -/
structure Decoded where
  /-- Words with a wrong parity. -/
  violations : Nat
  messages : List Message
  /-- The data bytes of a message that is not complete. -/
  rest : List UInt8
  deriving DecidableEq, Repr

/-- The word-aligned decoder, with the seeds `d29` and `d30`. -/
def decodeStream (d29 d30 : Bool) (data : List UInt8) : Decoded :=
  let bits := deframeBits data
  let words := decodeWords (bits.length / 30) d29 d30 bits
  let bytes := (words.filterMap id).flatten
  let (msgs, rest) := cutMessages bytes.length bytes
  { violations := words.countP Option.isNone
    messages := msgs.map parseMessage
    rest }

/-! ## The word-aligned checker -/

/-- `_PARITY_SEED` and `_PARITY_EQ`: whether a parity bit's seed is `D29*`, and
the data bits it is taken over, `D25` to `D30`. -/
def PARITY_EQ : List (Bool × List Nat) :=
  [(true, [1, 2, 3, 5, 6, 10, 11, 12, 13, 14, 17, 18, 20, 23]),
    (false, [2, 3, 4, 6, 7, 11, 12, 13, 14, 15, 18, 19, 21, 24]),
    (true, [1, 3, 4, 5, 7, 8, 12, 13, 14, 15, 16, 19, 20, 22]),
    (false, [2, 4, 5, 6, 8, 9, 13, 14, 15, 16, 17, 20, 21, 23]),
    (false, [1, 3, 5, 6, 7, 9, 10, 14, 15, 16, 17, 18, 21, 22, 24]),
    (true, [3, 5, 6, 8, 9, 10, 11, 13, 15, 19, 22, 23, 24])]

/-- The parity bits of a received word's data bits, with the inversion undone. -/
def recomputed (d29 d30 : Bool) (big : List Bool) : List Bool :=
  PARITY_EQ.map fun (seedD29, idxs) =>
    idxs.foldl (fun v idx => v ^^ (big.getD (idx - 1) false ^^ d30)) (if seedD29 then d29 else d30)

/-- The words among the first `n` whose parity bits are not those recomputed
after the last two bits of the word before. -/
def badWords : Nat → Bool → Bool → List Bool → Nat
  | 0, _, _, _ => 0
  | n + 1, d29, d30, bits =>
    let big := bits.take 30
    (if recomputed d29 d30 big = big.drop 24 then 0 else 1) +
      badWords n (big.getD 28 false) (big.getD 29 false) (bits.drop 30)

/-- `parity_violations`, with the seeds `d29` and `d30`. -/
def parityViolations (d29 d30 : Bool) (data : List UInt8) : Nat :=
  badWords ((deframeBits data).length / 30) d29 d30 (deframeBits data)

/-- Bits to flip in the low six of each of `n` wire bytes. -/
structure Flips (n : Nat) where
  masks : List UInt8
  length : masks.length = n
  low : ∀ m ∈ masks, m &&& 0xC0 = 0

/-- The number of bits flipped. -/
def Flips.count {n : Nat} (f : Flips n) : Nat := (f.masks.map fun m => popcount m.toNat).sum

def Flips.apply {n : Nat} (f : Flips n) (data : List UInt8) : List UInt8 := List.zipWith (· ^^^ ·) data f.masks

end Rtcm.Spec
