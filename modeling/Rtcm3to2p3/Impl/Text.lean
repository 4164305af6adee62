import Rtcm3to2p3.Impl.Bits
import Rtcm3to2p3.Lib.Delimited

/-!
# `str` and `bytes`, as `ntrip.py` uses them

Text that is decoded or taken apart is the list of its characters. A lone
surrogate, which `encode` does not take, is no character here.
-/

namespace Rtcm.Impl

/-- `str.encode` -/
def encode (s : String) : Bytes := s.toList.flatMap String.utf8EncodeChar

/-- The length of the longest start of a character that ill-formed bytes have,
which one replacement character stands for. -/
def illFormed : Bytes → Nat
  | 0xE0 :: b :: _ => if 0xA0 ≤ b ∧ b ≤ 0xBF then 2 else 1
  | 0xED :: b :: _ => if 0x80 ≤ b ∧ b ≤ 0x9F then 2 else 1
  | 0xF0 :: b :: rest => if 0x90 ≤ b ∧ b ≤ 0xBF then tails rest else 1
  | 0xF4 :: b :: rest => if 0x80 ≤ b ∧ b ≤ 0x8F then tails rest else 1
  | a :: b :: rest =>
    if 0xE1 ≤ a ∧ a ≤ 0xEF ∧ 0x80 ≤ b ∧ b ≤ 0xBF then 2
    else if 0xF1 ≤ a ∧ a ≤ 0xF3 ∧ 0x80 ≤ b ∧ b ≤ 0xBF then tails rest
    else 1
  | _ => 1
where
  /-- After two bytes of a character of four. -/
  tails : Bytes → Nat
    | c :: _ => if 0x80 ≤ c ∧ c ≤ 0xBF then 3 else 2
    | [] => 2

/-- `skip` bytes of the last character are left. -/
def decodeFrom : Nat → Bytes → List Char
  | _, [] => []
  | skip + 1, _ :: bytes => decodeFrom skip bytes
  | 0, b :: bytes =>
    match (b :: bytes).toByteArray.utf8DecodeChar? 0 with
    | some c => c :: decodeFrom (c.utf8Size - 1) bytes
    | none => Char.ofNat 0xFFFD :: decodeFrom (illFormed (b :: bytes) - 1) bytes

/-- `bytes.decode(errors="replace")` -/
def decode (bytes : Bytes) : List Char := decodeFrom 0 bytes

/-- `str.lower`, of ASCII letters. No other letter's lower case is one of
those that a line is asked to start with. -/
def lower (s : List Char) : List Char := s.map Char.toLower

/-- `bytes.strip` -/
def strip (s : Bytes) : Bytes :=
  let space := fun b => b ∈ ([0x20, 0x09, 0x0A, 0x0B, 0x0C, 0x0D] : Bytes)
  ((s.dropWhile space).reverse.dropWhile space).reverse

/-- The letter of a base64 digit. -/
def base64Char (n : Nat) : Char :=
  "ABCDEFGHIJKLMNOPQRSTUVWXYZabcdefghijklmnopqrstuvwxyz0123456789+/".toList.getD n 'A'

/-- `base64.b64encode` -/
def b64encode : Bytes → List Char
  | [] => []
  | [a] => [base64Char (a.toNat / 4), base64Char (a.toNat % 4 * 16), '=', '=']
  | [a, b] =>
    [base64Char (a.toNat / 4), base64Char (a.toNat % 4 * 16 + b.toNat / 16), base64Char (b.toNat % 16 * 4), '=']
  | a :: b :: c :: rest =>
    base64Char (a.toNat / 4) :: base64Char (a.toNat % 4 * 16 + b.toNat / 16) ::
      base64Char (b.toNat % 16 * 4 + c.toNat / 64) :: base64Char (c.toNat % 64) :: b64encode rest

example : b64encode (encode "user:pass") = "dXNlcjpwYXNz".toList := by decide

end Rtcm.Impl
