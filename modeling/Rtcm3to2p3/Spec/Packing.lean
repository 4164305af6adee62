import Rtcm3to2p3.Impl.Bits

/-!
# Sequences of writes and reads

The calls of `write_unsigned` and `write_signed` on one `BitWriter`, each with
its exception caught, and the reads of the same widths off a `BitReader`.
-/

namespace Rtcm.Spec

open Rtcm.Impl

/-- A call of `write_signed` or `write_unsigned`. -/
structure Write where
  signed : Bool
  value : Int
  nbits : Int
  deriving DecidableEq

namespace Write

/-- The range of `nbits` bits, in two's complement or without a sign. -/
def low (c : Write) : Int := if c.signed then -2 ^ (c.nbits - 1).toNat else 0
def high (c : Write) : Int := if c.signed then 2 ^ (c.nbits - 1).toNat else 2 ^ c.nbits.toNat

/-- There is a bit to write, and the value fits. -/
def Fits (c : Write) : Prop := 1 ≤ c.nbits ∧ c.low ≤ c.value ∧ c.value < c.high

instance : DecidablePred Fits := fun _ => inferInstanceAs (Decidable (_ ∧ _ ∧ _))

/-- What the call returns or raises, and the writer after it. -/
def call (c : Write) (w : BitWriter) : Py Unit × BitWriter :=
  match if c.signed then w.writeSigned c.value c.nbits else w.writeUnsigned c.value c.nbits with
  | .ok w' => (.ok (), w')
  | .error e => (.error e, w)

end Write

/-- The writer after a sequence of calls. -/
def writeAll (w : BitWriter) (cs : List Write) : BitWriter := cs.foldl (fun w c => (c.call w).2) w

/-- The calls that succeed. -/
def written (cs : List Write) : List Write := cs.filter fun c => c.Fits

/-- The widths of the calls that succeed. -/
def totalBits (cs : List Write) : Nat := ((written cs).map fun c => c.nbits.toNat).sum

/-- What `read_signed` or `read_unsigned` returns or raises, and the reader
after it. -/
def readCall (signed : Bool) (nbits : Int) (r : BitReader) : Py Int × BitReader :=
  match if signed then r.readSigned nbits else (r.readUnsigned nbits).map fun p => ((p.1 : Int), p.2) with
  | .ok p => (.ok p.1, p.2)
  | .error e => (.error e, r)

/-- Reads of the widths and signs of `cs`. -/
def readAll (r : BitReader) : List Write → List (Py Int) × BitReader
  | [] => ([], r)
  | c :: cs =>
    let p := readCall c.signed c.nbits r
    let q := readAll p.2 cs
    (p.1 :: q.1, q.2)

end Rtcm.Spec
