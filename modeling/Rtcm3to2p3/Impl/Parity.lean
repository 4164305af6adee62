import Rtcm3to2p3.Impl.Bits

/-!
# `parity.py`: the GPS / RTCM 2.3 word parity

A word is 24 data bits and six parity bits `D25 … D30`, each the exclusive
or of a seed (`D29*` or `D30*`, the last two bits of the word before) and of
the data bits its mask lists. With `D30*` set the data bits are sent
inverted; the parity is that of the bits before the inversion.
-/

namespace Rtcm.Impl

/-- The 1-indexed data bits of each parity bit, `D25` to `D30`. -/
def PARITY_MASKS : List (List Nat) :=
  [[1, 2, 3, 5, 6, 10, 11, 12, 13, 14, 17, 18, 20, 23],
    [2, 3, 4, 6, 7, 11, 12, 13, 14, 15, 18, 19, 21, 24],
    [1, 3, 4, 5, 7, 8, 12, 13, 14, 15, 16, 19, 20, 22],
    [2, 4, 5, 6, 8, 9, 13, 14, 15, 16, 17, 20, 21, 23],
    [1, 3, 5, 6, 7, 9, 10, 14, 15, 16, 17, 18, 21, 22, 24],
    [3, 5, 6, 8, 9, 10, 11, 13, 15, 19, 22, 23, 24]]

/-- Whether the parity bit's seed is `D29*` (`D30*` otherwise). -/
def SEED_IS_D29 : List Bool := [true, false, true, false, false, true]

def WORD_DATA_BITS : Nat := 24
def WORD_PARITY_BITS : Nat := 6
def WORD_BITS : Nat := WORD_DATA_BITS + WORD_PARITY_BITS

def isBit (b : Nat) : Bool := b = 0 || b = 1

/-- `parity_bits` -/
def parityBits (data : List Nat) (d29star d30star : Nat) : Py (List Nat) :=
  if data.length ≠ WORD_DATA_BITS then
    .error (.valueError s!"expected {WORD_DATA_BITS} data bits, got {data.length}")
  else if data.any (fun b => !isBit b) || !isBit d29star || !isBit d30star then
    .error (.valueError "all bits must be 0 or 1")
  else
    .ok ((PARITY_MASKS.zip SEED_IS_D29).map fun (mask, seedD29) =>
      mask.foldl (fun p idx => p ^^^ data.getD (idx - 1) 0) (if seedD29 then d29star else d30star))

/-- `encode_word`: the 30-bit word sent, and its last two bits. -/
def encodeWord (data : List Nat) (d29star d30star : Nat) : Py (Nat × Nat × Nat) :=
  match parityBits data d29star d30star with
  | .error e => .error e
  | .ok parity =>
    let d := data.map (· ^^^ d30star)
    let word := d.foldl (fun word b => word <<< 1 ||| b) 0
    let word := parity.foldl (fun word b => word <<< 1 ||| b) word
    .ok (word, parity.getD 4 0, parity.getD 5 0)

end Rtcm.Impl
