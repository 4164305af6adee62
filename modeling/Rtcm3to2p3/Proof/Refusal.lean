import Rtcm3to2p3.Proof.Wire

/-!
# What the encoder refuses

A message is built whole before its first word is sent, and only the first
word can meet seeds that are not bits (`encodeWords_all_or_nothing`), so a
call returns all of its words or changes nothing (`run_all_or_nothing`). It
returns for what `Accepts` says, spelt out in `encode_atomic`.
-/

namespace Rtcm.Proof

open Rtcm.Impl Rtcm.Spec BitString

variable {K : Type} [Field K] [LinearOrder K] [FloorRing K]

theorem exists_toNat {b : Nat} (h : b ≤ 1) : ∃ s : Bool, b = s.toNat := by
  rcases Nat.le_one_iff_eq_zero_or_eq_one.mp h with rfl | rfl
  · exact ⟨false, rfl⟩
  · exact ⟨true, rfl⟩

theorem isBit_iff {b : Nat} : isBit b = true ↔ b ≤ 1 := by
  simp only [isBit, Bool.or_eq_true, decide_eq_true_eq]
  omega

theorem encodeWord_error (data : List Nat) {d29 d30 : Nat} (h : ¬ (d29 ≤ 1 ∧ d30 ≤ 1)) :
    ∃ msg, encodeWord data d29 d30 = .error (.valueError msg) := by
  have hbits : (data.any (fun b => !isBit b) || !isBit d29 || !isBit d30) = true := by
    simp only [Bool.or_eq_true, Bool.not_eq_true', ← Bool.not_eq_true, isBit_iff]
    omega
  unfold encodeWord parityBits
  by_cases hlen : data.length = WORD_DATA_BITS
  · rw [if_neg (not_not.mpr hlen), if_pos hbits]
    exact ⟨_, rfl⟩
  · rw [if_pos hlen]
    exact ⟨_, rfl⟩

theorem encodeWords_all_or_nothing (enc : Rtcm2Encoder) (ws : List Nat) :
    (∃ out enc', enc.encodeWords ws = (.ok out, enc') ∧ out.length = 5 * ws.length) ∨
      ¬ (enc.d29 ≤ 1 ∧ enc.d30 ≤ 1) ∧ ∃ msg, enc.encodeWords ws = (.error (.valueError msg), enc) := by
  by_cases h : enc.d29 ≤ 1 ∧ enc.d30 ≤ 1
  · obtain ⟨s29, h29⟩ := exists_toNat h.1
    obtain ⟨s30, h30⟩ := exists_toNat h.2
    obtain ⟨out, t29, t30, he, -, hlen, -⟩ := encodeWords_decode ws s29 s30
    rw [← h29, ← h30] at he
    exact .inl ⟨out, _, he, hlen⟩
  · cases ws with
    | nil => exact .inl ⟨[], enc, rfl, rfl⟩
    | cons w ws =>
      obtain ⟨msg, he⟩ := encodeWord_error (Rtcm2Encoder.dataBits w) h
      exact .inr ⟨h, msg, by rw [Rtcm2Encoder.encodeWords, he]⟩

theorem parseMessage_length (buff : Bytes) : (parseMessage buff).length = getbits buff 40 5 := rfl

theorem IsBody.message_length {m : Message} {n : Nat} {bs : List Bool} (h : IsBody m n bs) : m.length = n := by
  rw [← h.parse _ h.bits, parseMessage_length, h.words _ h.bits]

/-- A call returns all of its message, or raises and leaves the encoder as it was. -/
theorem run_all_or_nothing (enc : Rtcm2Encoder) (c : Call K) :
    Accepts c ∧ (∃ out enc', c.run enc = (.ok out, enc') ∧ out.length = 5 * (2 + c.message.length)) ∨
      ¬ (Accepts c ∧ enc.d29 ≤ 1 ∧ enc.d30 ≤ 1) ∧ ∃ msg, c.run enc = (.error (.valueError msg), enc) := by
  by_cases ha : Accepts c
  · obtain ⟨n, bs, hb, hrun⟩ := run_ok enc ha
    rw [hrun]
    rcases encodeWords_all_or_nothing enc (wordsOf (2 + n) bs) with ⟨out, enc', he, hlen⟩ | ⟨h, herr⟩
    · exact .inl ⟨ha, out, enc', he, by rw [hlen, length_wordsOf, hb.message_length]⟩
    · exact .inr ⟨fun hc => h hc.2, herr⟩
  · exact .inr ⟨fun hc => ha hc.1, run_error enc ha⟩

theorem allOrNothing (enc : Rtcm2Encoder) (c : Call K) : AllOrNothing enc c c.message.length (Accepts c) := by
  rcases run_all_or_nothing enc c with ⟨ha, out, enc', hrun, hlen⟩ | ⟨hna, msg, hrun⟩
  · refine ⟨fun _ _ => iff_of_true ⟨out, by rw [hrun]⟩ ha, ?_, ?_, ?_⟩
    · intro out' ho
      rw [hrun] at ho
      rw [← Except.ok.inj ho, hlen]
    all_goals
      intro e he
      rw [hrun] at he
      exact absurd he (by simp)
  · refine ⟨fun h29 h30 => iff_of_false (fun ⟨out, ho⟩ => ?_) (fun ha => hna ⟨ha, h29, h30⟩), ?_, ?_, ?_⟩
    · rw [hrun] at ho
      exact absurd ho (by simp)
    · intro out ho
      rw [hrun] at ho
      exact absurd ho (by simp)
    · intro e he
      rw [hrun] at he
      exact ⟨⟨msg, (Except.error.inj he).symm⟩, by rw [hrun]⟩
    · intro e _ calls
      rw [runCalls, hrun]

/-! ## What is accepted -/

theorem headerOk_iff {stationId zcount seq health : Int} : HeaderOk stationId zcount seq health ↔
    (0 ≤ stationId ∧ stationId ≤ 1023) ∧ (0 ≤ zcount ∧ zcount ≤ 8191) ∧ (0 ≤ seq ∧ seq ≤ 7) ∧
      0 ≤ health ∧ health ≤ 7 := by
  unfold HeaderOk
  omega

omit [Field K] [LinearOrder K] [FloorRing K] in
theorem recordOk_iff {c : Correction K} : RecordOk c ↔
    (1 ≤ c.prn ∧ c.prn ≤ 32) ∧ (0 ≤ c.udre ∧ c.udre ≤ 3) ∧ 0 ≤ c.iod ∧ c.iod ≤ 255 := by
  unfold RecordOk
  omega

/-- On any encoder: `encode_type1` returns exactly for a header in range and at
most 18 corrections in range, `encode_type3` for a header in range and
coordinates of 32 bits. Either sends whole words, or raises `ValueError` and
is as if it had not been called. -/
theorem encode_atomic (enc : Rtcm2Encoder) (stationId zcount seq health : Int) (corrections : List (Correction K))
    (ecef : K × K × K) :
    AllOrNothing enc (.type1 stationId zcount seq health corrections) ((40 * corrections.length + 23) / 24)
      (((0 ≤ stationId ∧ stationId ≤ 1023) ∧ (0 ≤ zcount ∧ zcount ≤ 8191) ∧ (0 ≤ seq ∧ seq ≤ 7) ∧
          0 ≤ health ∧ health ≤ 7) ∧
        (∀ c ∈ corrections, (1 ≤ c.prn ∧ c.prn ≤ 32) ∧ (0 ≤ c.udre ∧ c.udre ≤ 3) ∧ 0 ≤ c.iod ∧ c.iod ≤ 255) ∧
        corrections.length ≤ 18) ∧
    AllOrNothing enc (.type3 stationId zcount seq health ecef) 4
      (((0 ≤ stationId ∧ stationId ≤ 1023) ∧ (0 ≤ zcount ∧ zcount ≤ 8191) ∧ (0 ≤ seq ∧ seq ≤ 7) ∧
          0 ≤ health ∧ health ≤ 7) ∧
        ∀ coord ∈ [ecef.1, ecef.2.1, ecef.2.2], -2 ^ 31 ≤ HalfEven.round (coord / ECEF_SCALE K) ∧
          HalfEven.round (coord / ECEF_SCALE K) ≤ 2 ^ 31 - 1) := by
  have h1 := allOrNothing enc (.type1 stationId zcount seq health corrections)
  have h3 := allOrNothing enc (.type3 stationId zcount seq health ecef)
  simp only [Accepts, Accepts1, Accepts3, headerOk_iff, recordOk_iff] at h1 h3
  refine ⟨h1, ?_⟩
  simp only [List.forall_mem_cons, List.not_mem_nil, false_implies, implies_true, and_true]
  exact h3

end Rtcm.Proof
