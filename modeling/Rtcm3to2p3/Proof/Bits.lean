import Rtcm3to2p3.Impl.Bits
import Mathlib.Tactic.Ring
import Mathlib.Tactic.Linarith

/-!
# `BitWriter` and `BitReader` on bit strings

A writer is the string of the bits written to it (`writer`), a reader the
string of its data's bits and a position. A write that is accepted appends
the field's bits (`writeUnsigned_writer`, `writeSigned_writer`), `to_bytes`
gives bytes with the writer's bits and then the padding (`toBytes_writer`),
and a read returns the number the next bits write (`readUnsigned_eq`,
`readSigned_eq`).
-/

namespace Rtcm.Proof

open Rtcm.Impl BitString

/-- The writer to which the bits `bs` have been written. -/
def writer (bs : List Bool) : BitWriter := ⟨ofBits bs, bs.length, ofBits_lt bs⟩

@[simp] theorem writer_nbits (bs : List Bool) : (writer bs).nbits = bs.length := rfl
@[simp] theorem writer_acc (bs : List Bool) : (writer bs).acc = ofBits bs := rfl

theorem writer_nil : ({} : BitWriter) = writer [] := rfl

theorem writer_ext {w w' : BitWriter} (ha : w.acc = w'.acc) (hn : w.nbits = w'.nbits) : w = w' := by
  cases w; cases w'; simp only at ha hn; subst ha hn; rfl

/-- Every writer is that of the bits written to it. -/
theorem exists_writer (w : BitWriter) : ∃ bs, w = writer bs := by
  refine ⟨toBits w.nbits w.acc, writer_ext ?_ (length_toBits _ _).symm⟩
  rw [writer_acc, ofBits_toBits, Nat.mod_eq_of_lt w.acc_lt]

/-! ## Writing -/

theorem writeUnsigned_writer (bs : List Bool) {v n : Int} (hn : 1 ≤ n) (h0 : 0 ≤ v)
    (hv : v < 2 ^ n.toNat) :
    (writer bs).writeUnsigned v n = .ok (writer (bs ++ toBits n.toNat v.toNat)) := by
  have hlt : v.toNat < 2 ^ n.toNat := (Int.toNat_lt h0).mpr (by simpa using hv)
  rw [BitWriter.writeUnsigned, if_neg (by omega), dif_pos ⟨h0, hv⟩]
  refine congrArg Except.ok (writer_ext ?_ ?_)
  · exact ofBits_shiftLeft_or bs hlt
  · simp

/-- A width and a value literal, as the callers write them. -/
theorem writeUnsigned_ok (bs : List Bool) {v : Int} {n : Nat} (hn : 1 ≤ n) (h0 : 0 ≤ v)
    (hv : v < 2 ^ n) : (writer bs).writeUnsigned v n = .ok (writer (bs ++ toBits n v.toNat)) := by
  rw [writeUnsigned_writer bs (by omega) h0 (by simpa using hv), Int.toNat_natCast]

theorem writeUnsigned_error {w : BitWriter} {v n : Int} (h : n < 1 ∨ ¬ (0 ≤ v ∧ v < 2 ^ n.toNat)) :
    ∃ msg, w.writeUnsigned v n = .error (.valueError msg) := by
  unfold BitWriter.writeUnsigned
  split
  · exact ⟨_, rfl⟩
  · rename_i hn
    rw [dif_neg (h.resolve_left hn)]
    exact ⟨_, rfl⟩

/-- The two's complement of `v` in `n` bits. -/
def twos (n : Nat) (v : Int) : Nat := (v % 2 ^ n).toNat

theorem twos_lt (n : Nat) (v : Int) : twos n v < 2 ^ n := by
  have h0 := Int.emod_nonneg v (show (2 : Int) ^ n ≠ 0 by positivity)
  have := Int.emod_lt_of_pos v (show (0 : Int) < 2 ^ n by positivity)
  exact (Int.toNat_lt h0).mpr (by simpa using this)

theorem writeSigned_ok (bs : List Bool) {v : Int} {n : Nat} (hn : 1 ≤ n)
    (hv : -2 ^ (n - 1) ≤ v ∧ v ≤ 2 ^ (n - 1) - 1) :
    (writer bs).writeSigned v n = .ok (writer (bs ++ toBits n (twos n v))) := by
  have e : ((n : Int) - 1).toNat = n - 1 := by omega
  rw [BitWriter.writeSigned, if_neg (by omega)]
  simp only [e, Int.toNat_natCast, hv, and_self, if_true]
  exact writeUnsigned_ok bs hn (Int.emod_nonneg v (by positivity)) (Int.emod_lt_of_pos v (by positivity))

theorem writeSigned_error {w : BitWriter} {v n : Int}
    (h : n < 1 ∨ ¬ (-2 ^ (n - 1).toNat ≤ v ∧ v ≤ 2 ^ (n - 1).toNat - 1)) :
    ∃ msg, w.writeSigned v n = .error (.valueError msg) := by
  unfold BitWriter.writeSigned
  split
  · exact ⟨_, rfl⟩
  · rename_i hn
    simp only [h.resolve_left hn, if_false]
    exact ⟨_, rfl⟩

/-! ## Bytes -/

/-- The number of padding bits after `n` bits. -/
def padding (n : Nat) : Nat := (-(n : Int) % 8).toNat

theorem padding_spec (n : Nat) : padding n < 8 ∧ (n + padding n) % 8 = 0 := by
  unfold padding; omega

/-- `to_bytes` gives the writer's bits and then the padding. -/
theorem toBytes_writer (bs : List Bool) (pad : Nat) (hp : pad = 0 ∨ pad = 1) :
    ∃ l, (writer bs).toBytes pad = .ok l ∧
      ofBytes l = bs ++ List.replicate (padding bs.length) (decide (pad = 1)) := by
  rw [BitWriter.toBytes, if_neg (by omega)]
  refine ⟨_, rfl, ?_⟩
  have hp8 := (padding_spec bs.length).2
  generalize hk : padding bs.length = k at hp8 ⊢
  have hk' : (-(bs.length : Int) % 8).toNat = k := hk
  have hacc : (if k ≠ 0 then (writer bs).acc <<< k ||| (if pad ≠ 0 then 1 <<< k - 1 else 0)
      else (writer bs).acc) = ofBits (bs ++ List.replicate k (decide (pad = 1))) := by
    have hv : (if pad ≠ 0 then 1 <<< k - 1 else 0) = ofBits (List.replicate k (decide (pad = 1))) := by
      rcases hp with rfl | rfl
      · simp [ofBits_replicate_false]
      · simp [ofBits_replicate_true, Nat.shiftLeft_eq]
    by_cases h0 : k = 0
    · subst h0; simp
    · rw [if_pos h0, hv, writer_acc, shiftLeft_or _ (by
        simpa using ofBits_lt (List.replicate k (decide (pad = 1)))), ofBits_append, List.length_replicate]
  simp only [writer_nbits, hk', hacc]
  generalize he : bs ++ List.replicate k (decide (pad = 1)) = es
  have hl : es.length = bs.length + k := by rw [← he]; simp
  rw [← hl] at hp8 ⊢
  split
  · rw [ofBytes_bigEndian, Nat.mul_div_cancel' (Nat.dvd_of_mod_eq_zero hp8), toBits_ofBits]
  · rename_i h0
    rw [List.length_eq_zero_iff.mp (by omega : es.length = 0)]; rfl

/-- `to_bytes` of a whole number of bytes. -/
theorem toBytes_whole (bs : List Bool) (h : bs.length % 8 = 0) :
    ∃ l, (writer bs).toBytes = .ok l ∧ ofBytes l = bs := by
  obtain ⟨l, hl, hb⟩ := toBytes_writer bs 0 (.inl rfl)
  have : padding bs.length = 0 := by unfold padding; omega
  rw [this] at hb
  exact ⟨l, hl, by simpa using hb⟩

/-! ## Reading -/

/-- The loop of `read_unsigned`, by induction on the bits to read. -/
theorem readLoop_eq (data : Bytes) : ∀ (n pos value : Nat), pos + n ≤ 8 * data.length →
    BitReader.readLoop data n pos value = value * 2 ^ n + ofBits (slice (ofBytes data) pos n)
  | 0, pos, value, _ => by simp [BitReader.readLoop, slice]
  | n + 1, pos, value, h => by
    have hp : pos < (ofBytes data).length := by rw [length_ofBytes]; omega
    have hb : (data.getD (pos >>> 3) 0).toNat >>> (7 - (pos &&& 7)) &&& 1 =
        ((ofBytes data)[pos]).toNat := by
      have := ofBytes_getElem? (l := data) (p := pos) (by omega)
      rw [List.getElem?_eq_getElem hp, Option.some.injEq] at this
      rw [this, testBit_toNat, Nat.and_one_is_mod, Nat.shiftRight_eq_div_pow,
        Nat.shiftRight_eq_div_pow, show pos &&& 7 = pos % 8 from Nat.and_two_pow_sub_one_eq_mod pos 3]
    simp only [BitReader.readLoop]
    rw [hb, readLoop_eq data n _ _ (by omega), slice_succ hp, ofBits_cons, length_slice (by
      rw [length_ofBytes]; omega), shiftLeft_or _ (by have := Bool.toNat_le (ofBytes data)[pos]; omega)]
    ring

/-- The reader of `data` at bit `pos`. -/
abbrev reader (data : Bytes) (pos : Nat) (h : pos ≤ 8 * data.length) : BitReader := ⟨data, pos, h⟩

theorem readUnsigned_eq {data : Bytes} {pos n : Nat} (hn : 1 ≤ n) (h : pos + n ≤ 8 * data.length) :
    (reader data pos (by omega)).readUnsigned n =
      .ok (ofBits (slice (ofBytes data) pos n), reader data (pos + n) h) := by
  have hr : ¬ ((n : Int) > (reader data pos (by omega)).remaining) := by
    simp only [BitReader.remaining]; omega
  rw [BitReader.readUnsigned, if_neg (by omega), dif_neg hr]
  simp only [Int.toNat_natCast, readLoop_eq data n pos 0 h, Nat.zero_mul, Nat.zero_add]

theorem readUnsigned_error {r : BitReader} {n : Int} (h : n < 1 ∨ n > r.remaining) :
    ∃ msg, r.readUnsigned n = .error (.valueError msg) := by
  unfold BitReader.readUnsigned
  split
  · exact ⟨_, rfl⟩
  · rename_i hn
    rw [dif_pos (h.resolve_left hn)]
    exact ⟨_, rfl⟩

theorem readSigned_eq {data : Bytes} {pos n : Nat} (hn : 1 ≤ n) (h : pos + n ≤ 8 * data.length) :
    (reader data pos (by omega)).readSigned n =
      .ok (signed (slice (ofBytes data) pos n), reader data (pos + n) h) := by
  rw [BitReader.readSigned, readUnsigned_eq hn h]
  have hl : (slice (ofBytes data) pos n).length = n := length_slice (by rw [length_ofBytes]; omega)
  generalize slice (ofBytes data) pos n = bs at hl
  subst hl
  have e : ((bs.length : Int) - 1).toNat = bs.length - 1 := by omega
  have ht : (ofBits bs &&& 1 <<< (bs.length - 1) ≠ 0) ↔ bs.head? = some true := by
    rw [head_ofBits, Nat.one_shiftLeft, Nat.and_two_pow, Nat.mul_ne_zero_iff]
    have hlt := ofBits_lt bs
    have hp : 2 ^ bs.length = 2 * 2 ^ (bs.length - 1) := by
      rw [← pow_succ', Nat.sub_add_cancel hn]
    rw [testBit_toNat]
    have hpos := Nat.two_pow_pos (bs.length - 1)
    have hne : bs ≠ [] := by rintro rfl; simp at hn
    constructor
    · rintro ⟨h1, -⟩
      refine ⟨?_, hne⟩
      by_contra hlt'
      rw [Nat.div_eq_of_lt (by omega)] at h1
      exact h1 rfl
    · rintro ⟨h1, -⟩
      refine ⟨?_, by omega⟩
      have : ofBits bs / 2 ^ (bs.length - 1) = 1 := by
        rw [Nat.div_eq_iff hpos]; omega
      rw [this]; decide
  simp only [e, Int.toNat_natCast, ht, signed]
  split <;> rfl

/-- The two's complement of a value in range, read back. -/
theorem signed_twos {n : Nat} {v : Int} (hn : 1 ≤ n) (hv : -2 ^ (n - 1) ≤ v ∧ v ≤ 2 ^ (n - 1) - 1) :
    signed (toBits n (twos n v)) = v := by
  have hp : (2 : Int) ^ n = 2 * 2 ^ (n - 1) := by rw [← pow_succ', Nat.sub_add_cancel hn]
  have hpos : (0 : Int) < 2 ^ (n - 1) := by positivity
  have hof : ofBits (toBits n (twos n v)) = twos n v := by
    rw [ofBits_toBits, Nat.mod_eq_of_lt (twos_lt n v)]
  have ht : (twos n v : Int) = v % 2 ^ n := Int.toNat_of_nonneg (Int.emod_nonneg v (by positivity))
  have hne : toBits n (twos n v) ≠ [] := by
    intro h; have := congrArg List.length h; rw [length_toBits, List.length_nil] at this; omega
  simp only [signed, head_ofBits, hof, length_toBits, ht]
  have hc : (2 ^ (n - 1) ≤ twos n v ∧ toBits n (twos n v) ≠ []) ↔ v < 0 := by
    refine ⟨fun h => ?_, fun h => ⟨?_, hne⟩⟩
    · have h1 : ((2 ^ (n - 1) : Nat) : Int) ≤ twos n v := by exact_mod_cast h.1
      rw [ht] at h1
      push_cast at h1
      by_contra h0
      rw [Int.emod_eq_of_lt (by omega) (by omega)] at h1
      omega
    · have h1 : v % 2 ^ n = v + 2 ^ n := by
        rw [← Int.add_emod_right, Int.emod_eq_of_lt (by omega) (by omega)]
      zify
      rw [ht, h1]
      omega
  by_cases h : v < 0
  · rw [if_pos (hc.mpr h), ← Int.add_emod_right, Int.emod_eq_of_lt (by omega) (by omega)]
    omega
  · rw [if_neg (fun h' => h (hc.mp h')), Int.emod_eq_of_lt (by omega) (by omega)]

end Rtcm.Proof
