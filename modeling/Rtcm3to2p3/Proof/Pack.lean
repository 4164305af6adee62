import Rtcm3to2p3.Impl.Rtcm2
import Rtcm3to2p3.Proof.Bits

/-!
# The message bodies

What `packType1Body` and `packType3Body` accept (`Accepts1`, `Accepts3`), the
bits of the body they build (`type1Bits`, `type3Bits`), and that they return
those bits cut into 24-bit words (`packType1Body_ok`, `packType3Body_ok`) or
raise `ValueError` (`packType1Body_error`, `packType3Body_error`).
-/

namespace Rtcm.Proof

open Rtcm.Impl BitString

variable {K : Type} [Field K] [LinearOrder K] [FloorRing K]

/-- `ValueError`, whatever its text. -/
def RaisesValueError {α : Type} (x : Py α) : Prop := ∃ msg, x = .error (.valueError msg)

theorem RaisesValueError.bind {α β : Type} {x : Py α} (h : RaisesValueError x) (f : α → Py β) :
    RaisesValueError (x >>= f) := by
  obtain ⟨msg, rfl⟩ := h
  exact ⟨msg, rfl⟩

/-! ## The quantiser's range -/

theorem clamp_le (m x : Int) (hm : 0 ≤ m) : |max (-m) (min m x)| ≤ m := by
  rw [abs_le]; omega

/-- Neither field is ever its most negative value. -/
theorem encodePrcRrc_range (prc rrc : K) :
    ((encodePrcRrc prc rrc).1 = 0 ∨ (encodePrcRrc prc rrc).1 = 1) ∧
      |(encodePrcRrc prc rrc).2.1| ≤ PRC_MAX ∧ |(encodePrcRrc prc rrc).2.2| ≤ RRC_MAX := by
  unfold encodePrcRrc
  dsimp only
  split_ifs with h0 h1
  · exact ⟨.inl rfl, h0⟩
  · exact ⟨.inr rfl, h1⟩
  · exact ⟨.inr rfl, clamp_le _ _ (by decide), clamp_le _ _ (by decide)⟩

/-! ## The header -/

/-- The header's values are in range. -/
def HeaderOk (stationId zcount seq health : Int) : Prop :=
  (0 ≤ stationId ∧ stationId < 2 ^ 10) ∧ (0 ≤ zcount ∧ zcount < 8192) ∧ (0 ≤ seq ∧ seq < 8) ∧
    (0 ≤ health ∧ health < 8)

theorem checkHeader_ok {stationId zcount seq health : Int} (h : HeaderOk stationId zcount seq health) :
    checkHeader stationId zcount seq health = .ok () := by
  obtain ⟨h1, h2, h3, h4⟩ := h
  simp only [checkHeader, h1, h2, h3, h4, and_self, not_true_eq_false, if_false]

theorem checkHeader_error {stationId zcount seq health : Int} (h : ¬ HeaderOk stationId zcount seq health) :
    RaisesValueError (checkHeader stationId zcount seq health) := by
  unfold checkHeader
  split_ifs with h1 h2 h3 h4
  · exact absurd ⟨h1, h2, h3, h4⟩ h
  all_goals exact ⟨_, rfl⟩

/-- The two header words' bits. -/
def headerBits (type stationId zcount seq nWords health : Nat) : List Bool :=
  toBits 8 0x66 ++ (toBits 6 type ++ (toBits 10 stationId ++ (toBits 13 zcount ++ (toBits 3 seq ++
    (toBits 5 nWords ++ toBits 3 health)))))

@[simp] theorem length_headerBits (t s z q n h : Nat) : (headerBits t s z q n h).length = 48 := by
  simp [headerBits]

theorem writeHeader_ok {type stationId zcount seq health : Int} {nWords : Nat}
    (ht : 0 ≤ type ∧ type < 2 ^ 6) (h : HeaderOk stationId zcount seq health) (hn : nWords < 2 ^ 5) :
    writeHeader type stationId zcount seq nWords health =
      .ok (writer (headerBits type.toNat stationId.toNat zcount.toNat seq.toNat nWords health.toNat)) := by
  obtain ⟨h1, h2, h3, h4⟩ := h
  rw [writeHeader, writer_nil]
  rw [show (8 : Int) = (8 : Nat) from rfl, writeUnsigned_ok _ (by decide) (by decide) (by decide), bind_ok,
    show (6 : Int) = (6 : Nat) from rfl, writeUnsigned_ok _ (by decide) ht.1 ht.2, bind_ok,
    show (10 : Int) = (10 : Nat) from rfl, writeUnsigned_ok _ (by decide) h1.1 h1.2, bind_ok,
    show (13 : Int) = (13 : Nat) from rfl, writeUnsigned_ok _ (by decide) h2.1 h2.2, bind_ok,
    show (3 : Int) = (3 : Nat) from rfl, writeUnsigned_ok _ (by decide) h3.1 h3.2, bind_ok,
    show (5 : Int) = (5 : Nat) from rfl, writeUnsigned_ok _ (by decide) (by omega) (by exact_mod_cast hn),
    bind_ok, writeUnsigned_ok _ (by decide) h4.1 h4.2]
  simp only [headerBits, List.nil_append, List.append_assoc, Int.toNat_natCast]
  rfl

/-- The number of words does not fit its field. -/
theorem writeHeader_error {type stationId zcount seq health : Int} {nWords : Nat}
    (ht : 0 ≤ type ∧ type < 2 ^ 6) (h : HeaderOk stationId zcount seq health) (hn : ¬ nWords < 2 ^ 5) :
    RaisesValueError (writeHeader type stationId zcount seq nWords health) := by
  obtain ⟨h1, h2, h3, h4⟩ := h
  rw [writeHeader, writer_nil]
  rw [show (8 : Int) = (8 : Nat) from rfl, writeUnsigned_ok _ (by decide) (by decide) (by decide), bind_ok,
    show (6 : Int) = (6 : Nat) from rfl, writeUnsigned_ok _ (by decide) ht.1 ht.2, bind_ok,
    show (10 : Int) = (10 : Nat) from rfl, writeUnsigned_ok _ (by decide) h1.1 h1.2, bind_ok,
    show (13 : Int) = (13 : Nat) from rfl, writeUnsigned_ok _ (by decide) h2.1 h2.2, bind_ok,
    show (3 : Int) = (3 : Nat) from rfl, writeUnsigned_ok _ (by decide) h3.1 h3.2, bind_ok]
  exact RaisesValueError.bind (writeUnsigned_error (.inr fun h => hn (by exact_mod_cast h.2))) _

/-! ## Records -/

/-- The record's values are in range. -/
def RecordOk (c : Correction K) : Prop :=
  (1 ≤ c.prn ∧ c.prn ≤ 32) ∧ (0 ≤ c.udre ∧ c.udre < 4) ∧ (0 ≤ c.iod ∧ c.iod < 256)

/-- A record's 40 bits. -/
def recordBits (c : Correction K) : List Bool :=
  toBits 1 (encodePrcRrc c.prc c.rrc).1.toNat ++ (toBits 2 c.udre.toNat ++ (toBits 5 (c.prn % 32).toNat ++
    (toBits 16 (twos 16 (encodePrcRrc c.prc c.rrc).2.1) ++
      (toBits 8 (twos 8 (encodePrcRrc c.prc c.rrc).2.2) ++ toBits 8 c.iod.toNat))))

@[simp] theorem length_recordBits (c : Correction K) : (recordBits c).length = 40 := by simp [recordBits]

theorem packSat_ok (bs : List Bool) {c : Correction K} (h : RecordOk c) :
    packSat (writer bs) c = .ok (writer (bs ++ recordBits c)) := by
  obtain ⟨h1, h2, h3⟩ := h
  obtain ⟨hs, hp, hr⟩ := encodePrcRrc_range c.prc c.rrc
  rw [PRC_MAX, abs_le] at hp
  rw [RRC_MAX, abs_le] at hr
  simp only [packSat, recordBits, h1, h2, h3, and_self, not_true_eq_false, if_false]
  generalize encodePrcRrc c.prc c.rrc = q at hs hp hr ⊢
  obtain ⟨s, p, r⟩ := q
  simp only at hs hp hr ⊢
  rw [show (1 : Int) = (1 : Nat) from rfl, writeUnsigned_ok _ (by decide) (by omega) (by omega), bind_ok,
    show (2 : Int) = (2 : Nat) from rfl, writeUnsigned_ok _ (by decide) h2.1 h2.2, bind_ok,
    show (5 : Int) = (5 : Nat) from rfl, writeUnsigned_ok _ (by decide) (by omega) (by omega), bind_ok,
    show (16 : Int) = (16 : Nat) from rfl, writeSigned_ok _ (by decide) (by omega), bind_ok,
    show (8 : Int) = (8 : Nat) from rfl, writeSigned_ok _ (by decide) (by omega), bind_ok,
    writeUnsigned_ok _ (by decide) h3.1 h3.2]
  simp only [List.append_assoc]

theorem packSat_error {w : BitWriter} {c : Correction K} (h : ¬ RecordOk c) :
    RaisesValueError (packSat w c) := by
  unfold packSat
  split_ifs with h1 h2 h3
  · exact absurd ⟨h1, h2, h3⟩ h
  all_goals exact ⟨_, rfl⟩

theorem foldlM_packSat_ok (bs : List Bool) {cs : List (Correction K)} (h : ∀ c ∈ cs, RecordOk c) :
    cs.foldlM packSat (writer bs) = .ok (writer (bs ++ cs.flatMap recordBits)) := by
  induction cs generalizing bs with
  | nil => simp only [List.foldlM_nil, List.flatMap_nil, List.append_nil]; rfl
  | cons c cs ih =>
    rw [List.foldlM_cons, packSat_ok bs (h c List.mem_cons_self), bind_ok,
      ih _ fun c hc => h c (List.mem_cons_of_mem _ hc), List.flatMap_cons, List.append_assoc]

theorem foldlM_packSat_error (bs : List Bool) {cs : List (Correction K)} (h : ¬ ∀ c ∈ cs, RecordOk c) :
    RaisesValueError (cs.foldlM packSat (writer bs)) := by
  induction cs generalizing bs with
  | nil => exact absurd (fun _ h => nomatch h) h
  | cons c cs ih =>
    rw [List.foldlM_cons]
    by_cases hc : RecordOk c
    · rw [packSat_ok bs hc, bind_ok]
      exact ih _ fun h' => h fun c' hc' => by
        rcases List.mem_cons.mp hc' with rfl | hc'
        · exact hc
        · exact h' c' hc'
    · exact (packSat_error hc).bind _

theorem length_records (cs : List (Correction K)) : (cs.flatMap recordBits).length = 40 * cs.length := by
  induction cs with
  | nil => rfl
  | cons c cs ih => rw [List.flatMap_cons, List.length_append, ih, length_recordBits, List.length_cons]; omega

/-! ## Re-slicing -/

theorem copyBits_eq (data : Bytes) (n pos : Nat) (bs : List Bool) (h : pos + n ≤ 8 * data.length) :
    copyBits n (reader data pos (by omega)) (writer bs) =
      .ok (writer (bs ++ slice (ofBytes data) pos n)) := by
  induction n generalizing pos bs with
  | zero => simp [copyBits, slice]
  | succ n ih =>
    have hp : pos < (ofBytes data).length := by rw [length_ofBytes]; omega
    have hb : ofBits (slice (ofBytes data) pos 1) = ((ofBytes data)[pos]).toNat := by
      rw [slice_succ hp]; simp [slice]
    have hlt := Bool.toNat_le (ofBytes data)[pos]
    rw [copyBits, show (1 : Int) = (1 : Nat) from rfl, readUnsigned_eq (by decide) (by omega), bind_ok]
    simp only [hb]
    rw [writeUnsigned_ok bs (by decide) (by omega) (by omega), bind_ok, Int.toNat_natCast, ih (pos + 1) _ (by omega),
      slice_succ hp, List.append_assoc]
    have ht : toBits 1 ((ofBytes data)[pos]).toNat = [(ofBytes data)[pos]] := by
      cases (ofBytes data)[pos] <;> rfl
    rw [ht, List.singleton_append]

theorem fillBits_eq {totalBits : Nat} (fuel : Nat) (bs : List Bool) (h : totalBits - bs.length ≤ fuel) :
    fillBits fuel totalBits (writer bs) =
      .ok (writer (bs ++ List.replicate (totalBits - bs.length) false)) := by
  induction fuel generalizing bs with
  | zero => rw [show totalBits - bs.length = 0 by omega, List.replicate_zero, List.append_nil]; rfl
  | succ fuel ih =>
    rw [fillBits, writer_nbits]
    split
    · rename_i hlt
      rw [show (1 : Int) = (1 : Nat) from rfl, writeUnsigned_ok bs (by decide) (by decide) (by decide), bind_ok,
        ih _ (by simp; omega), List.append_assoc, List.length_append, length_toBits,
        show totalBits - bs.length = (totalBits - (bs.length + 1)) + 1 by omega, List.replicate_succ]
      rfl
    · rename_i hlt
      rw [show totalBits - bs.length = 0 by omega, List.replicate_zero, List.append_nil]

/-- The 24-bit words of a bit string. -/
def wordsOf (n : Nat) (bs : List Bool) : List Nat := (List.range n).map fun k => ofBits (slice bs (24 * k) 24)

theorem readWords_eq (data : Bytes) (n pos : Nat) (h : pos + 24 * n ≤ 8 * data.length) :
    readWords n (reader data pos (by omega)) = .ok (wordsOf n ((ofBytes data).drop pos)) := by
  induction n generalizing pos with
  | zero => rfl
  | succ n ih =>
    rw [readWords, show ((WORD_DATA_BITS : Nat) : Int) = (24 : Nat) from rfl,
      readUnsigned_eq (by decide) (by omega), bind_ok]
    simp only
    rw [ih (pos + 24) (by omega), bind_ok]
    refine congrArg Except.ok ?_
    simp only [wordsOf, List.range_succ_eq_map, List.map_cons, List.map_map, slice, List.drop_drop,
      Nat.mul_zero, Nat.add_zero]
    refine congrArg (_ :: ·) (List.map_congr_left fun k _ => ?_)
    simp only [Function.comp_apply, show pos + 24 + 24 * k = pos + 24 * (k + 1) by omega]

/-- Writing a string of whole words out and reading it back. -/
theorem toBytes_readWords {bs : List Bool} {n : Nat} (h : bs.length = 24 * n) :
    ∃ l, (writer bs).toBytes = .ok l ∧ readWords n ⟨l, 0, Nat.zero_le _⟩ = .ok (wordsOf n bs) := by
  obtain ⟨l, hl, hb⟩ := toBytes_whole bs (by omega)
  have hlen : 8 * l.length = 24 * n := by rw [← length_ofBytes, hb, h]
  refine ⟨l, hl, ?_⟩
  have := readWords_eq l n 0 (by omega)
  rwa [hb, List.drop_zero] at this

/-! ## Type 1 -/

/-- The number of words `n` records take. -/
def recordWords (n : Nat) : Nat := (40 * n + 23) / 24

/-- What `encode_type1` accepts. -/
def Accepts1 (stationId zcount seq health : Int) (cs : List (Correction K)) : Prop :=
  HeaderOk stationId zcount seq health ∧ (∀ c ∈ cs, RecordOk c) ∧ cs.length ≤ 18

/-- A Type 1 body: the header, the records and the fill. -/
def type1Bits (stationId zcount seq health : Int) (cs : List (Correction K)) : List Bool :=
  headerBits 1 stationId.toNat zcount.toNat seq.toNat (recordWords cs.length) health.toNat ++
    (cs.flatMap recordBits ++ List.replicate (24 * recordWords cs.length - 40 * cs.length) false)

theorem length_type1Bits (s z q h : Int) (cs : List (Correction K)) :
    (type1Bits s z q h cs).length = 24 * (2 + recordWords cs.length) := by
  simp only [type1Bits, List.length_append, length_headerBits, length_records, List.length_replicate,
    recordWords]
  omega

/-- A writer's bytes, from which its bits can be copied. -/
theorem toBytes_copyBits (bs cs : List Bool) :
    ∃ l, (writer cs).toBytes = .ok l ∧
      copyBits cs.length ⟨l, 0, Nat.zero_le _⟩ (writer bs) = .ok (writer (bs ++ cs)) := by
  obtain ⟨l, hl, hb⟩ := toBytes_writer cs 0 (.inl rfl)
  have hlen : cs.length ≤ 8 * l.length := by rw [← length_ofBytes, hb]; simp
  refine ⟨l, hl, ?_⟩
  have := copyBits_eq l cs.length 0 bs (by omega)
  rwa [hb, slice_left _ rfl] at this

theorem packType1Body_ok {stationId zcount seq health : Int} {cs : List (Correction K)}
    (h : Accepts1 stationId zcount seq health cs) :
    packType1Body stationId zcount seq health cs =
      .ok (wordsOf (2 + recordWords cs.length) (type1Bits stationId zcount seq health cs)) := by
  obtain ⟨hh, hr, hn⟩ := h
  have hw : recordWords cs.length < 2 ^ 5 := by unfold recordWords; omega
  have hdiv : ((writer (cs.flatMap recordBits)).nbits + (WORD_DATA_BITS - 1)) / WORD_DATA_BITS =
      recordWords cs.length := by rw [writer_nbits, length_records]; rfl
  generalize hH : headerBits (RTCM2_TYPE1).toNat stationId.toNat zcount.toNat seq.toNat
    (recordWords cs.length) health.toNat = H
  have hHl : H.length = 48 := by rw [← hH, length_headerBits]
  rw [packType1Body, checkHeader_ok hh, bind_ok, writer_nil, foldlM_packSat_ok [] hr, bind_ok,
    List.nil_append]
  simp only [hdiv]
  rw [writeHeader_ok (by decide) hh hw, bind_ok, hH]
  obtain ⟨l1, e1, c1⟩ := toBytes_copyBits [] H
  obtain ⟨l2, e2, c2⟩ := toBytes_copyBits H (cs.flatMap recordBits)
  rw [e1, bind_ok, ← hHl, c1, bind_ok, e2, bind_ok, writer_nbits, List.nil_append, c2, bind_ok,
    fillBits_eq _ _ (by rw [writer_nbits]), bind_ok]
  have hb : H ++ cs.flatMap recordBits ++ List.replicate (H.length + recordWords cs.length * WORD_DATA_BITS -
      (H ++ cs.flatMap recordBits).length) false = type1Bits stationId zcount seq health cs := by
    rw [type1Bits, List.append_assoc, List.length_append, length_records, ← hH, Nat.add_sub_add_left,
      Nat.mul_comm]
    rfl
  rw [hb]
  obtain ⟨l, e, r⟩ := toBytes_readWords (length_type1Bits stationId zcount seq health cs)
  rw [e, bind_ok, show (H.length + recordWords cs.length * WORD_DATA_BITS) / WORD_DATA_BITS =
    2 + recordWords cs.length by rw [hHl]; simp only [WORD_DATA_BITS]; omega, r]

theorem packType1Body_error {stationId zcount seq health : Int} {cs : List (Correction K)}
    (h : ¬ Accepts1 stationId zcount seq health cs) :
    RaisesValueError (packType1Body stationId zcount seq health cs) := by
  rw [packType1Body]
  by_cases hh : HeaderOk stationId zcount seq health
  · rw [checkHeader_ok hh, bind_ok, writer_nil]
    by_cases hr : ∀ c ∈ cs, RecordOk c
    · have hn : ¬ recordWords cs.length < 2 ^ 5 := fun hw => h ⟨hh, hr, by unfold recordWords at hw; omega⟩
      have hdiv : ((writer (cs.flatMap recordBits)).nbits + (WORD_DATA_BITS - 1)) / WORD_DATA_BITS =
          recordWords cs.length := by rw [writer_nbits, length_records]; rfl
      rw [foldlM_packSat_ok [] hr, bind_ok, List.nil_append]
      simp only [hdiv]
      exact (writeHeader_error (by decide) hh hn).bind _
    · exact (foldlM_packSat_error [] hr).bind _
  · exact (checkHeader_error hh).bind _

/-! ## Type 3 -/

/-- A coordinate in centimetres. -/
def counts (coord : K) : Int := HalfEven.round (coord / ECEF_SCALE K)

/-- The coordinate fits a signed 32-bit number of centimetres. -/
def CoordOk (coord : K) : Prop := -2 ^ 31 ≤ counts coord ∧ counts coord ≤ 2 ^ 31 - 1

/-- What `encode_type3` accepts. -/
def Accepts3 (stationId zcount seq health : Int) (ecef : K × K × K) : Prop :=
  HeaderOk stationId zcount seq health ∧ CoordOk ecef.1 ∧ CoordOk ecef.2.1 ∧ CoordOk ecef.2.2

/-- A Type 3 body. -/
def type3Bits (stationId zcount seq health : Int) (ecef : K × K × K) : List Bool :=
  headerBits 3 stationId.toNat zcount.toNat seq.toNat 4 health.toNat ++
    (toBits 32 (twos 32 (counts ecef.1)) ++ (toBits 32 (twos 32 (counts ecef.2.1)) ++
      toBits 32 (twos 32 (counts ecef.2.2))))

theorem length_type3Bits (s z q h : Int) (ecef : K × K × K) : (type3Bits s z q h ecef).length = 24 * 6 := by
  simp [type3Bits]

theorem packCoord_ok (bs : List Bool) {coord : K} (h : CoordOk coord) :
    packCoord (writer bs) coord = .ok (writer (bs ++ toBits 32 (twos 32 (counts coord)))) := by
  have hc : -ECEF_MAX - 1 ≤ counts coord ∧ counts coord ≤ ECEF_MAX := by
    unfold CoordOk at h; simp only [ECEF_MAX]; omega
  rw [packCoord, show HalfEven.round (coord / ECEF_SCALE K) = counts coord from rfl, if_neg (not_not.mpr hc),
    show (32 : Int) = (32 : Nat) from rfl, writeSigned_ok bs (by decide) (by exact h)]

theorem packCoord_error {w : BitWriter} {coord : K} (h : ¬ CoordOk coord) :
    RaisesValueError (packCoord w coord) := by
  have hc : ¬ (-ECEF_MAX - 1 ≤ counts coord ∧ counts coord ≤ ECEF_MAX) := fun hc => h (by
    simp only [ECEF_MAX] at hc; unfold CoordOk; omega)
  rw [packCoord, show HalfEven.round (coord / ECEF_SCALE K) = counts coord from rfl, if_pos hc]
  exact ⟨_, rfl⟩

theorem packType3Body_ok {stationId zcount seq health : Int} {ecef : K × K × K}
    (h : Accepts3 stationId zcount seq health ecef) :
    packType3Body stationId zcount seq health ecef =
      .ok (wordsOf 6 (type3Bits stationId zcount seq health ecef)) := by
  obtain ⟨hh, hx, hy, hz⟩ := h
  rw [packType3Body, checkHeader_ok hh, bind_ok, show (4 : Int) = (4 : Nat) from rfl,
    writeHeader_ok (by decide) hh (by decide), bind_ok]
  simp only [List.foldlM_cons, List.foldlM_nil]
  rw [packCoord_ok _ hx, bind_ok, packCoord_ok _ hy, bind_ok, packCoord_ok _ hz, bind_ok, pure_bind]
  obtain ⟨l, e, r⟩ := toBytes_readWords (length_type3Bits stationId zcount seq health ecef)
  rw [List.append_assoc, List.append_assoc, show headerBits (RTCM2_TYPE3).toNat stationId.toNat zcount.toNat
    seq.toNat 4 health.toNat ++ (toBits 32 (twos 32 (counts ecef.1)) ++ (toBits 32 (twos 32 (counts ecef.2.1)) ++
      toBits 32 (twos 32 (counts ecef.2.2)))) = type3Bits stationId zcount seq health ecef from rfl, e, bind_ok]
  exact r

theorem packType3Body_error {stationId zcount seq health : Int} {ecef : K × K × K}
    (h : ¬ Accepts3 stationId zcount seq health ecef) :
    RaisesValueError (packType3Body stationId zcount seq health ecef) := by
  rw [packType3Body]
  by_cases hh : HeaderOk stationId zcount seq health
  · rw [checkHeader_ok hh, bind_ok, show (4 : Int) = (4 : Nat) from rfl,
      writeHeader_ok (by decide) hh (by decide), bind_ok]
    simp only [List.foldlM_cons, List.foldlM_nil]
    refine RaisesValueError.bind ?_ _
    by_cases hx : CoordOk ecef.1
    · rw [packCoord_ok _ hx, bind_ok]
      by_cases hy : CoordOk ecef.2.1
      · rw [packCoord_ok _ hy, bind_ok]
        exact (packCoord_error fun hz => h ⟨hh, hx, hy, hz⟩).bind _
      · exact (packCoord_error hy).bind _
    · exact (packCoord_error hx).bind _
  · exact (checkHeader_error hh).bind _

end Rtcm.Proof
