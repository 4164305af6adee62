import Rtcm3to2p3.Spec.Packing
import Rtcm3to2p3.Proof.Bits

/-!
# Packing and unpacking a sequence of fields

A call that fits appends the field's bits (`call_fits`), any other raises
`ValueError` and leaves the writer as it was (`call_not_fits`), so a sequence
of calls writes the bits of those that fit (`writeAll_writer`). A read takes
one field's bits off and returns its value, whatever stands before and after
(`readCall_field`), and so does a sequence of reads (`readAll_fields`). With
the padding of `to_bytes` that is the round trip (`packing_roundtrip`).
-/

namespace Rtcm.Proof

open Rtcm.Impl Rtcm.Spec BitString

/-- The bits of a field. -/
def fieldBits (c : Write) : List Bool := toBits c.nbits.toNat (twos c.nbits.toNat c.value)

@[simp] theorem length_fieldBits (c : Write) : (fieldBits c).length = c.nbits.toNat := length_toBits _ _

/-! ## Writing -/

theorem twos_of_nonneg {n : Nat} {v : Int} (h0 : 0 ≤ v) (hv : v < 2 ^ n) : twos n v = v.toNat := by
  rw [twos, Int.emod_eq_of_lt h0 hv]

/-- The width of a call that fits, as a natural number. -/
theorem exists_width {c : Write} (h : c.Fits) : ∃ n : Nat, 1 ≤ n ∧ c.nbits = n :=
  ⟨c.nbits.toNat, by have := h.1; omega, by have := h.1; omega⟩

theorem fits_signed {v : Int} {n : Nat} (hn : 1 ≤ n) :
    (⟨true, v, n⟩ : Write).Fits ↔ -2 ^ (n - 1) ≤ v ∧ v ≤ 2 ^ (n - 1) - 1 := by
  have e : ((n : Int) - 1).toNat = n - 1 := by omega
  simp only [Write.Fits, Write.low, Write.high, if_true, e]
  omega

theorem fits_unsigned {v : Int} {n : Nat} (hn : 1 ≤ n) : (⟨false, v, n⟩ : Write).Fits ↔ 0 ≤ v ∧ v < 2 ^ n := by
  simp only [Write.Fits, Write.low, Write.high, Bool.false_eq_true, if_false, Int.toNat_natCast]
  omega

theorem call_fits {c : Write} (h : c.Fits) (bs : List Bool) :
    c.call (writer bs) = (.ok (), writer (bs ++ fieldBits c)) := by
  obtain ⟨n, hn, hw⟩ := exists_width h
  obtain ⟨signed, v, nbits⟩ := c
  subst hw
  cases signed with
  | true => simp only [Write.call, if_true, writeSigned_ok bs hn ((fits_signed hn).mp h), fieldBits, Int.toNat_natCast]
  | false =>
    obtain ⟨h0, hv⟩ := (fits_unsigned hn).mp h
    simp only [Write.call, Bool.false_eq_true, if_false, writeUnsigned_ok bs hn h0 hv, fieldBits, Int.toNat_natCast,
      twos_of_nonneg h0 hv]

theorem call_not_fits {c : Write} (h : ¬ c.Fits) (w : BitWriter) :
    ∃ msg, c.call w = (.error (.valueError msg), w) := by
  obtain ⟨signed, v, n⟩ := c
  cases signed with
  | true =>
    have hbad : n < 1 ∨ ¬ (-2 ^ (n - 1).toNat ≤ v ∧ v ≤ 2 ^ (n - 1).toNat - 1) := by
      simp only [Write.Fits, Write.low, Write.high, if_true] at h
      omega
    obtain ⟨msg, he⟩ := writeSigned_error (w := w) hbad
    exact ⟨msg, by simp only [Write.call, if_true, he]⟩
  | false =>
    have hbad : n < 1 ∨ ¬ (0 ≤ v ∧ v < 2 ^ n.toNat) := by
      simp only [Write.Fits, Write.low, Write.high, Bool.false_eq_true, if_false] at h
      omega
    obtain ⟨msg, he⟩ := writeUnsigned_error (w := w) hbad
    exact ⟨msg, by simp only [Write.call, Bool.false_eq_true, if_false, he]⟩

/-- What any call does to any writer. -/
theorem call_outcome (c : Write) (w : BitWriter) :
    ((∃ msg, (c.call w).1 = .error (.valueError msg)) ↔ ¬ c.Fits) ∧ (c.Fits → (c.call w).1 = .ok ()) ∧
      (¬ c.Fits → (c.call w).2 = w) := by
  by_cases h : c.Fits
  · obtain ⟨bs, rfl⟩ := exists_writer w
    simp [call_fits h, h]
  · obtain ⟨msg, he⟩ := call_not_fits h w
    simp [he, h]

/-- By induction on the calls. -/
theorem writeAll_writer (cs : List Write) (bs : List Bool) :
    writeAll (writer bs) cs = writer (bs ++ (written cs).flatMap fieldBits) := by
  induction cs generalizing bs with
  | nil => simp [writeAll, written]
  | cons c cs ih =>
    rw [writeAll, List.foldl_cons, ← writeAll]
    by_cases h : c.Fits
    · rw [call_fits h, ih, written, written, List.filter_cons_of_pos (by simpa using h), List.flatMap_cons,
        List.append_assoc]
    · obtain ⟨msg, he⟩ := call_not_fits h (writer bs)
      rw [he, ih, written, written, List.filter_cons_of_neg (by simpa using h)]

theorem length_flatMap_fieldBits (cs : List Write) : ((written cs).flatMap fieldBits).length = totalBits cs := by
  simp [totalBits, List.length_flatMap]

/-! ## Reading -/

theorem slice_field {bs pre post : List Bool} {c : Write} (hd : bs = pre ++ (fieldBits c ++ post)) :
    slice bs pre.length c.nbits.toNat = fieldBits c := by
  rw [hd, slice_right _ _ le_rfl, Nat.sub_self]
  exact slice_left _ (length_fieldBits c)

/-- A field after `pre`, whatever follows it. -/
theorem readCall_field {data : Bytes} {pre post : List Bool} {c : Write} (h : c.Fits)
    (hd : ofBytes data = pre ++ (fieldBits c ++ post)) (hp : pre.length ≤ 8 * data.length) :
    ∃ hp', readCall c.signed c.nbits (reader data pre.length hp) =
      (.ok c.value, reader data (pre.length + c.nbits.toNat) hp') := by
  have hslice := slice_field hd
  have hend : pre.length + c.nbits.toNat ≤ 8 * data.length := by
    have hl := congrArg List.length hd
    simp only [length_ofBytes, List.length_append, length_fieldBits] at hl
    omega
  refine ⟨hend, ?_⟩
  obtain ⟨n, hn, hw⟩ := exists_width h
  obtain ⟨signed, v, nbits⟩ := c
  subst hw
  cases signed with
  | true =>
    have hvalue : signed (slice (ofBytes data) pre.length n) = v :=
      (congrArg signed hslice).trans (signed_twos hn ((fits_signed hn).mp h))
    simp only [readCall, if_true, readSigned_eq hn hend, hvalue, Int.toNat_natCast]
  | false =>
    obtain ⟨h0, hv⟩ := (fits_unsigned hn).mp h
    have hvalue : (ofBits (slice (ofBytes data) pre.length n) : Int) = v := by
      rw [show slice (ofBytes data) pre.length n = fieldBits ⟨false, v, n⟩ from hslice, fieldBits, ofBits_toBits,
        Int.toNat_natCast, Nat.mod_eq_of_lt (twos_lt n v), twos_of_nonneg h0 hv, Int.toNat_of_nonneg h0]
    simp only [readCall, Bool.false_eq_true, if_false, readUnsigned_eq hn hend, Except.map, hvalue, Int.toNat_natCast]

/-- By induction on the fields, from any position. -/
theorem readAll_fields {data : Bytes} {cs : List Write} (h : ∀ c ∈ cs, c.Fits) (pre : List Bool) {post : List Bool}
    (hd : ofBytes data = pre ++ (cs.flatMap fieldBits ++ post)) (hp : pre.length ≤ 8 * data.length) :
    ∃ hp', readAll (reader data pre.length hp) cs =
      (cs.map fun c => .ok c.value, reader data (pre ++ cs.flatMap fieldBits).length hp') := by
  induction cs generalizing pre with
  | nil => exact ⟨by simpa using hp, by simp [readAll]⟩
  | cons c cs ih =>
    rw [List.flatMap_cons, List.append_assoc] at hd
    obtain ⟨hmid, hread⟩ := readCall_field (h c List.mem_cons_self) hd hp
    have hpos : pre.length + c.nbits.toNat = (pre ++ fieldBits c).length := by simp
    simp only [hpos] at hread hmid
    obtain ⟨hend, hrest⟩ := ih (fun c hc => h c (List.mem_cons_of_mem _ hc)) _ (by rw [hd, List.append_assoc]) hmid
    simp only [List.append_assoc, ← List.flatMap_cons] at hrest hend
    exact ⟨hend, by simp only [readAll, hread, hrest, List.map_cons]⟩

theorem readCall_past (signed : Bool) {n : Int} {r : BitReader} (h : r.remaining < n) :
    ∃ msg, readCall signed n r = (.error (.valueError msg), r) := by
  obtain ⟨msg, he⟩ := readUnsigned_error (.inr h : n < 1 ∨ n > r.remaining)
  refine ⟨msg, ?_⟩
  cases signed with
  | true => simp only [readCall, if_true, BitReader.readSigned, he]
  | false =>
    simp only [readCall, Bool.false_eq_true, if_false, he]
    rfl

/-! ## The round trip -/

theorem mem_written {cs : List Write} {c : Write} (h : c ∈ written cs) : c.Fits := by
  simpa using (List.mem_filter.mp h).2

/-- The bytes of any sequence of calls. -/
theorem toBytes_writeAll (cs : List Write) (pad : Bool) :
    ∃ data, (writeAll {} cs).toBytes pad.toNat = .ok data ∧
      ofBytes data = (written cs).flatMap fieldBits ++ List.replicate (padding (totalBits cs)) pad := by
  have hpad : decide (pad.toNat = 1) = pad := by cases pad <;> rfl
  obtain ⟨data, hdata, hbits⟩ := toBytes_writer ((written cs).flatMap fieldBits) pad.toNat (by cases pad <;> decide)
  rw [hpad, length_flatMap_fieldBits] at hbits
  refine ⟨data, ?_, hbits⟩
  rw [writer_nil, writeAll_writer, List.nil_append]
  exact hdata

/-- Any sequence of calls on a new writer, and either pad bit. -/
theorem packing_roundtrip (cs : List Write) (pad : Bool) :
    (∀ (c : Write) (w : BitWriter), ((∃ msg, (c.call w).1 = .error (.valueError msg)) ↔ ¬ c.Fits) ∧
      (c.Fits → (c.call w).1 = .ok ()) ∧ (¬ c.Fits → (c.call w).2 = w)) ∧
    ∃ data r, (writeAll {} cs).toBytes pad.toNat = .ok data ∧ data.length = (totalBits cs + 7) / 8 ∧
      (∀ b ∈ (ofBytes data).drop (totalBits cs), b = pad) ∧
      readAll (reader data 0 (Nat.zero_le _)) (written cs) = ((written cs).map fun c => .ok c.value, r) ∧
      r.remaining = 8 * data.length - totalBits cs ∧ r.remaining ≤ 7 ∧
      ∀ (signed : Bool) (n : Int), r.remaining < n →
        (∃ msg, (readCall signed n r).1 = .error (.valueError msg)) ∧ (readCall signed n r).2 = r := by
  refine ⟨call_outcome, ?_⟩
  obtain ⟨data, hdata, hbits⟩ := toBytes_writeAll cs pad
  have hlen : 8 * data.length = totalBits cs + padding (totalBits cs) := by
    have hl := congrArg List.length hbits
    simpa only [length_ofBytes, List.length_append, List.length_replicate, length_flatMap_fieldBits] using hl
  obtain ⟨hpad, -⟩ := padding_spec (totalBits cs)
  obtain ⟨hend, hread⟩ := readAll_fields (fun c => mem_written) [] hbits (Nat.zero_le _)
  simp only [List.nil_append, length_flatMap_fieldBits] at hread hend
  have hdrop : (ofBytes data).drop (totalBits cs) = List.replicate (padding (totalBits cs)) pad := by
    rw [hbits]
    exact List.drop_left' (length_flatMap_fieldBits cs)
  have hremaining : (reader data (totalBits cs) hend).remaining = 8 * data.length - totalBits cs := by
    rw [BitReader.remaining, Nat.mul_comm]
  refine ⟨data, _, hdata, by omega, ?_, hread, hremaining, by omega, fun signed n hn => ?_⟩
  · rw [hdrop]
    exact fun b => List.eq_of_mem_replicate
  · obtain ⟨msg, he⟩ := readCall_past signed hn
    exact ⟨⟨msg, by rw [he]⟩, by rw [he]⟩

end Rtcm.Proof
