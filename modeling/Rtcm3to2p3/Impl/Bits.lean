import Rtcm3to2p3.Lib.BitString
import Mathlib.Data.Int.Cast.Lemmas

/-!
# `bits.py`: bit packing, most significant bit first

`BitWriter` collects integer fields in one growing number, `BitReader` takes
them off a byte string bit by bit. Both raise `ValueError` on a width below
one, a value that does not fit or a read past the end, and are unchanged
then. Both carry what their methods maintain: the number has no bit above
`nbits`, and the position is within the data.
-/

namespace Rtcm.Impl

open BitString (bigEndian)

abbrev Bytes := List UInt8

/-- The exceptions the modelled code can raise. -/
inductive PyError where
  | valueError (msg : String)
  | zeroDivisionError (msg : String)
  | attributeError (msg : String)
  | keyError (msg : String)
  deriving DecidableEq, Repr

abbrev Py := Except PyError

theorem bind_ok {α β : Type} (a : α) (f : α → Py β) : ((Except.ok a : Py α) >>= f) = f a := rfl
theorem bind_error {α β : Type} (e : PyError) (f : α → Py β) : ((Except.error e : Py α) >>= f) = .error e := rfl

structure BitWriter where
  acc : Nat := 0
  nbits : Nat := 0
  acc_lt : acc < 2 ^ nbits := by decide
  deriving DecidableEq

namespace BitWriter

theorem append_lt {acc nbits value n : Nat} (h : acc < 2 ^ nbits) (hv : value < 2 ^ n) :
    acc <<< n ||| value < 2 ^ (nbits + n) := by
  rw [BitString.shiftLeft_or acc hv, Nat.pow_add]
  calc acc * 2 ^ n + value < acc * 2 ^ n + 2 ^ n := by omega
    _ = (acc + 1) * 2 ^ n := by rw [Nat.add_mul, Nat.one_mul]
    _ ≤ 2 ^ nbits * 2 ^ n := Nat.mul_le_mul_right _ h

/-- `write_unsigned` -/
def writeUnsigned (w : BitWriter) (value nbits : Int) : Py BitWriter :=
  if nbits < 1 then .error (.valueError s!"nbits must be >= 1, got {nbits}")
  else if h : 0 ≤ value ∧ value < 2 ^ nbits.toNat then
    .ok {
      acc := w.acc <<< nbits.toNat ||| value.toNat
      nbits := w.nbits + nbits.toNat
      acc_lt := append_lt w.acc_lt ((Int.toNat_lt h.1).mpr (by simpa using h.2)) }
  else .error (.valueError s!"{value} does not fit in {nbits} unsigned bits")

/-- `write_signed`: `value & ((1 << nbits) - 1)` is `value` modulo `2^nbits`. -/
def writeSigned (w : BitWriter) (value nbits : Int) : Py BitWriter :=
  if nbits < 1 then .error (.valueError s!"nbits must be >= 1, got {nbits}")
  else
    let lo : Int := -2 ^ (nbits - 1).toNat
    let hi : Int := 2 ^ (nbits - 1).toNat - 1
    if lo ≤ value ∧ value ≤ hi then w.writeUnsigned (value % 2 ^ nbits.toNat) nbits
    else .error (.valueError s!"{value} does not fit in {nbits} signed bits [{lo},{hi}]")

/-- `to_bytes` -/
def toBytes (w : BitWriter) (padBit : Nat := 0) : Py Bytes :=
  if padBit ≠ 0 ∧ padBit ≠ 1 then .error (.valueError "pad_bit must be 0 or 1")
  else
    let rem := (-(w.nbits : Int) % 8).toNat
    let acc := if rem ≠ 0 then w.acc <<< rem ||| (if padBit ≠ 0 then 1 <<< rem - 1 else 0) else w.acc
    let total := w.nbits + rem
    .ok (if total ≠ 0 then bigEndian (total / 8) acc else [])

end BitWriter

structure BitReader where
  data : Bytes
  pos : Nat := 0
  pos_le : pos ≤ 8 * data.length := by omega
  deriving DecidableEq

namespace BitReader

def remaining (r : BitReader) : Nat := r.data.length * 8 - r.pos

/-- The loop of `read_unsigned`: `n` more bits from `pos`, after `value`. -/
def readLoop (data : Bytes) : Nat → Nat → Nat → Nat
  | 0, _, value => value
  | n + 1, pos, value =>
    let byte := data.getD (pos >>> 3) 0
    let bit := (byte.toNat >>> (7 - (pos &&& 7))) &&& 1
    readLoop data n (pos + 1) (value <<< 1 ||| bit)

/-- `read_unsigned` -/
def readUnsigned (r : BitReader) (nbits : Int) : Py (Nat × BitReader) :=
  if nbits < 1 then .error (.valueError s!"nbits must be >= 1, got {nbits}")
  else if h : nbits > r.remaining then
    .error (.valueError s!"need {nbits} bits, only {r.remaining} remain")
  else
    .ok (readLoop r.data nbits.toNat r.pos 0,
      { r with
        pos := r.pos + nbits.toNat
        pos_le := by have := r.pos_le; simp only [remaining] at h; omega })

/-- `read_signed` -/
def readSigned (r : BitReader) (nbits : Int) : Py (Int × BitReader) :=
  match r.readUnsigned nbits with
  | .error e => .error e
  | .ok (value, r) =>
    if value &&& 1 <<< (nbits - 1).toNat ≠ 0 then .ok ((value : Int) - 2 ^ nbits.toNat, r)
    else .ok (value, r)

end BitReader

end Rtcm.Impl
