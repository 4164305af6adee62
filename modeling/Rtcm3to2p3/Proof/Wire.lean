import Rtcm3to2p3.Spec.Wire
import Rtcm3to2p3.Proof.Pack
import Rtcm3to2p3.Proof.Parity

/-!
# The wire round trip

The reference decoder on the bytes of an encoder's calls. A body's words
hold its bits (`ofBytes_words`), the header's field of them cuts the stream
at the message's end (`cutMessages_body`), and the fields are read back where
they were written (`parseMessage_type1`, `parseMessage_type3`). By induction
on the calls, a call that raises changing nothing (`run_error`), the decoder
recovers the messages of those that returned (`wire_roundtrip`).
-/

namespace Rtcm.Proof

open Rtcm.Impl Rtcm.Spec BitString

variable {K : Type} [Field K] [LinearOrder K] [FloorRing K]

/-! ## Words and bytes -/

/-- The data bytes of words. -/
def dataBytes (ws : List Nat) : Bytes := ws.flatMap fun w => bigEndian 3 (w % 2 ^ 24)

theorem length_dataBytes (ws : List Nat) : (dataBytes ws).length = 3 * ws.length := by
  induction ws with
  | nil => rfl
  | cons w ws ih =>
    simp only [dataBytes, List.flatMap_cons, List.length_append, length_bigEndian, List.length_cons] at ih ⊢
    omega

theorem dataBytes_append (ws vs : List Nat) : dataBytes (ws ++ vs) = dataBytes ws ++ dataBytes vs :=
  List.flatMap_append

/-- The words of a bit string hold its bits. -/
theorem ofBytes_words (n : Nat) {bs : List Bool} (h : 24 * n ≤ bs.length) :
    ofBytes (dataBytes (wordsOf n bs)) = bs.take (24 * n) := by
  induction n with
  | zero => rfl
  | succ n ih =>
    have hl : (slice bs (24 * n) 24).length = 24 := length_slice (by omega)
    have hw : ofBits (slice bs (24 * n) 24) % 2 ^ 24 = ofBits (slice bs (24 * n) 24) := by
      have := ofBits_lt (slice bs (24 * n) 24)
      rw [hl] at this
      exact Nat.mod_eq_of_lt this
    simp only [wordsOf] at ih ⊢
    rw [List.range_succ, List.map_append, dataBytes_append, ofBytes_append, ih (by omega)]
    simp only [List.map_cons, List.map_nil, dataBytes, List.flatMap_cons, List.flatMap_nil,
      List.append_nil, hw, ofBytes_bigEndian]
    rw [show 8 * 3 = 24 from rfl]
    have ht := toBits_ofBits (slice bs (24 * n) 24)
    rw [hl] at ht
    rw [ht, Nat.mul_succ, List.take_add]
    rfl

theorem length_wordsOf (n : Nat) (bs : List Bool) : (wordsOf n bs).length = n := by simp [wordsOf]

/-! ## Reading the fields back -/

theorem getbits_of {buff : Bytes} {p n v : Nat} (hb : slice (ofBytes buff) p n = toBits n v)
    (hv : v < 2 ^ n) : getbits buff p n = v := by
  rw [getbits, hb, ofBits_toBits, Nat.mod_eq_of_lt hv]

theorem getbitsSigned_of {buff : Bytes} {p n : Nat} {v : Int} (hn : 1 ≤ n)
    (hb : slice (ofBytes buff) p n = toBits n (twos n v)) (hv : -2 ^ (n - 1) ≤ v ∧ v ≤ 2 ^ (n - 1) - 1) :
    getbitsSigned buff p n = v := by
  rw [getbitsSigned, hb, signed_twos hn hv]

/-- The header's fields, where the decoder looks for them. -/
theorem header_fields {bs rest : List Bool} {t s z q n h : Nat} (hb : bs = headerBits t s z q n h ++ rest) :
    slice bs 0 8 = toBits 8 0x66 ∧ slice bs 8 6 = toBits 6 t ∧ slice bs 14 10 = toBits 10 s ∧
      slice bs 24 13 = toBits 13 z ∧ slice bs 37 3 = toBits 3 q ∧ slice bs 40 5 = toBits 5 n ∧
      slice bs 45 3 = toBits 3 h := by
  subst hb
  simp only [headerBits, List.append_assoc]
  refine ⟨slice_left _ (length_toBits _ _), ?_, ?_, ?_, ?_, ?_, ?_⟩
  all_goals
    repeat rw [slice_right _ _ (by rw [length_toBits]; omega), length_toBits]
    exact slice_left _ (length_toBits _ _)

/-- A record's fields, from its first bit. -/
theorem record_fields (c : Correction K) (post : List Bool) :
    slice (recordBits c ++ post) 0 1 = toBits 1 (encodePrcRrc c.prc c.rrc).1.toNat ∧
      slice (recordBits c ++ post) 1 2 = toBits 2 c.udre.toNat ∧
      slice (recordBits c ++ post) 3 5 = toBits 5 (c.prn % 32).toNat ∧
      slice (recordBits c ++ post) 8 16 = toBits 16 (twos 16 (encodePrcRrc c.prc c.rrc).2.1) ∧
      slice (recordBits c ++ post) 24 8 = toBits 8 (twos 8 (encodePrcRrc c.prc c.rrc).2.2) ∧
      slice (recordBits c ++ post) 32 8 = toBits 8 c.iod.toNat := by
  simp only [recordBits, List.append_assoc]
  refine ⟨slice_left _ (length_toBits _ _), ?_, ?_, ?_, ?_, ?_⟩
  all_goals
    repeat rw [slice_right _ _ (by rw [length_toBits]; omega), length_toBits]
    exact slice_left _ (length_toBits _ _)

/-- A record, where the decoder looks for it. -/
theorem parseSat_record {buff : Bytes} {pre post : List Bool} {i : Nat} {c : Correction K} (hc : RecordOk c)
    (hb : ofBytes buff = pre ++ (recordBits c ++ post)) (hi : pre.length = i) :
    parseSat buff i = satRecord c := by
  obtain ⟨hprn, hudre, hiod⟩ := hc
  obtain ⟨hs, hp, hr⟩ := encodePrcRrc_range c.prc c.rrc
  rw [PRC_MAX, abs_le] at hp
  rw [RRC_MAX, abs_le] at hr
  have hsl : ∀ p n, slice (ofBytes buff) (i + p) n = slice (recordBits c ++ post) p n := fun p n => by
    rw [hb, slice_right _ _ (by omega), hi, Nat.add_sub_cancel_left]
  obtain ⟨f0, f1, f3, f8, f24, f32⟩ := record_fields c post
  rw [← hsl] at f0 f1 f3 f8 f24 f32
  rw [Nat.add_zero] at f0
  have hprn' : (if (c.prn % 32).toNat = 0 then 32 else (c.prn % 32).toNat) = c.prn.toNat := by
    split <;> omega
  simp only [parseSat, satRecord]
  rw [getbits_of f0 (by omega), getbits_of f1 (by omega), getbits_of f3 (by omega),
    getbitsSigned_of (by decide) f8 (by norm_num; omega), getbitsSigned_of (by decide) f24 (by norm_num; omega),
    getbits_of f32 (by omega), hprn']

/-- The header of a message whose bits are a header's and then others. -/
theorem parseMessage_header {buff : Bytes} {rest : List Bool} {t n : Nat} {s z q h : Int}
    (hb : ofBytes buff = headerBits t s.toNat z.toNat q.toNat n h.toNat ++ rest) (hh : HeaderOk s z q h)
    (ht : t < 2 ^ 6) (hn : n < 2 ^ 5) :
    getbits buff 0 8 = 0x66 ∧ getbits buff 8 6 = t ∧ getbits buff 14 10 = s.toNat ∧
      getbits buff 24 13 = z.toNat ∧ getbits buff 37 3 = q.toNat ∧ getbits buff 40 5 = n ∧
      getbits buff 45 3 = h.toNat := by
  obtain ⟨h1, h2, h3, h4⟩ := hh
  obtain ⟨f0, f8, f14, f24, f37, f40, f45⟩ := header_fields hb
  exact ⟨getbits_of f0 (by decide), getbits_of f8 ht, getbits_of f14 (by omega), getbits_of f24 (by omega),
    getbits_of f37 (by omega), getbits_of f40 hn, getbits_of f45 (by omega)⟩

theorem parseMessage_type1 {buff : Bytes} {s z q h : Int} {cs : List (Correction K)}
    (ha : Accepts1 s z q h cs) (hb : ofBytes buff = type1Bits s z q h cs) :
    parseMessage buff = (Call.type1 s z q h cs).message := by
  obtain ⟨hh, hr, hn⟩ := ha
  have hlen : 8 * buff.length = 24 * (2 + recordWords cs.length) := by
    rw [← length_ofBytes, hb, length_type1Bits]
  have hrec : (8 * buff.length - 48) / 40 = cs.length := by
    rw [hlen]; simp only [recordWords]; omega
  obtain ⟨f0, f8, f14, f24, f37, f40, f45⟩ :=
    parseMessage_header hb hh (by decide) (by simp only [recordWords]; omega)
  have hsats : (List.range cs.length).map (fun k => parseSat buff (48 + 40 * k)) = cs.map satRecord := by
    apply List.ext_getElem (by simp)
    intro k h1 h2
    have hk : k < cs.length := by simpa using h2
    simp only [List.getElem_map, List.getElem_range]
    have hsplit : cs = cs.take k ++ (cs[k] :: cs.drop (k + 1)) := by
      rw [← List.drop_eq_getElem_cons hk, List.take_append_drop]
    have hbits : cs.flatMap recordBits =
        (cs.take k).flatMap recordBits ++ (recordBits cs[k] ++ (cs.drop (k + 1)).flatMap recordBits) := by
      conv_lhs => rw [hsplit]
      rw [List.flatMap_append, List.flatMap_cons]
    have hb' : ofBytes buff = (headerBits 1 s.toNat z.toNat q.toNat (recordWords cs.length) h.toNat ++
        (cs.take k).flatMap recordBits) ++ (recordBits cs[k] ++ ((cs.drop (k + 1)).flatMap recordBits ++
          List.replicate (24 * recordWords cs.length - 40 * cs.length) false)) := by
      rw [hb, type1Bits, hbits]
      simp only [List.append_assoc]
    refine parseSat_record (hr _ (List.getElem_mem hk)) hb' ?_
    rw [List.length_append, length_headerBits, length_records, List.length_take, Nat.min_eq_left (by omega)]
  simp only [parseMessage, Call.message, f0, f8, f14, f24, f37, f40, f45, hrec, hsats]
  rw [if_neg (by decide)]
  rfl

theorem parseMessage_type3 {buff : Bytes} {s z q h : Int} {ecef : K × K × K} (ha : Accepts3 s z q h ecef)
    (hb : ofBytes buff = type3Bits s z q h ecef) :
    parseMessage buff = (Call.type3 s z q h ecef).message := by
  obtain ⟨hh, hx, hy, hz⟩ := ha
  obtain ⟨f0, f8, f14, f24, f37, f40, f45⟩ := parseMessage_header hb hh (by decide) (by decide)
  have hsl : ∀ p n, slice (ofBytes buff) (48 + p) n = slice (toBits 32 (twos 32 (counts ecef.1)) ++
      (toBits 32 (twos 32 (counts ecef.2.1)) ++ toBits 32 (twos 32 (counts ecef.2.2)))) p n := fun p n => by
    rw [hb, type3Bits, slice_right _ _ (by rw [length_headerBits]; omega), length_headerBits,
      Nat.add_sub_cancel_left]
  have fx : slice (ofBytes buff) 48 32 = toBits 32 (twos 32 (counts ecef.1)) := by
    rw [show 48 = 48 + 0 from rfl, hsl, slice_left _ (length_toBits _ _)]
  have fy : slice (ofBytes buff) 80 32 = toBits 32 (twos 32 (counts ecef.2.1)) := by
    rw [show 80 = 48 + 32 from rfl, hsl, slice_right _ _ (by simp), length_toBits, Nat.sub_self,
      slice_left _ (length_toBits _ _)]
  have fz : slice (ofBytes buff) 112 32 = toBits 32 (twos 32 (counts ecef.2.2)) := by
    rw [show 112 = 48 + 64 from rfl, hsl, slice_right _ _ (by simp), length_toBits, slice_right _ _ (by simp),
      length_toBits, slice_self (length_toBits _ _)]
  simp only [parseMessage, Call.message, f0, f8, f14, f24, f37, f40, f45]
  rw [if_pos trivial, getbitsSigned_of (by decide) fx hx, getbitsSigned_of (by decide) fy hy,
    getbitsSigned_of (by decide) fz hz]
  rfl

/-! ## Messages -/

/-- The top five bits of the sixth byte. -/
theorem length_field {buff : Bytes} (h : 6 ≤ buff.length) :
    (buff.getD 5 0).toNat >>> 3 = getbits buff 40 5 := by
  obtain ⟨pre, b, post, rfl, hp⟩ : ∃ pre b post, buff = pre ++ b :: post ∧ pre.length = 5 :=
    ⟨buff.take 5, buff[5], buff.drop 6, by rw [← List.drop_eq_getElem_cons, List.take_append_drop],
      by rw [List.length_take]; omega⟩
  have hb := b.toNat_lt
  rw [getbits, ofBytes_append, ofBytes_cons, slice_right _ _ (by rw [length_ofBytes, hp]), length_ofBytes, hp,
    show (8 : Nat) = 5 + 3 from rfl, toBits_add, List.append_assoc, slice_left _ (length_toBits _ _),
    ofBits_toBits, Nat.shiftRight_eq_div_pow, Nat.mod_eq_of_lt (by omega),
    List.getD_append_right _ _ _ _ (by omega), hp]
  rfl

/-- `bs` is a body of `2 + n` words that the decoder reads as `m`. -/
structure IsBody (m : Message) (n : Nat) (bs : List Bool) : Prop where
  length : bs.length = 24 * (2 + n)
  words : ∀ buff, ofBytes buff = bs → getbits buff 40 5 = n
  parse : ∀ buff, ofBytes buff = bs → parseMessage buff = m

/-- What an encoder accepts. -/
def Accepts : Call K → Prop
  | .type1 s z q h cs => Accepts1 s z q h cs
  | .type3 s z q h ecef => Accepts3 s z q h ecef

theorem run_error (enc : Rtcm2Encoder) {c : Call K} (h : ¬ Accepts c) :
    ∃ msg, c.run enc = (.error (.valueError msg), enc) := by
  cases c with
  | type1 s z q hl cs =>
    obtain ⟨msg, he⟩ := packType1Body_error h
    exact ⟨msg, by rw [Call.run, Rtcm2Encoder.encodeType1, he]⟩
  | type3 s z q hl ecef =>
    obtain ⟨msg, he⟩ := packType3Body_error h
    exact ⟨msg, by rw [Call.run, Rtcm2Encoder.encodeType3, he]⟩

theorem run_ok (enc : Rtcm2Encoder) {c : Call K} (h : Accepts c) :
    ∃ n bs, IsBody c.message n bs ∧ c.run enc = enc.encodeWords (wordsOf (2 + n) bs) := by
  cases c with
  | type1 s z q hl cs =>
    refine ⟨recordWords cs.length, type1Bits s z q hl cs, ⟨length_type1Bits _ _ _ _ _, fun buff hb => ?_,
      fun buff hb => parseMessage_type1 h hb⟩, by rw [Call.run, Rtcm2Encoder.encodeType1, packType1Body_ok h]⟩
    have hn := h.2.2
    exact (parseMessage_header hb h.1 (by decide) (by simp only [recordWords]; omega)).2.2.2.2.2.1
  | type3 s z q hl ecef =>
    exact ⟨4, type3Bits s z q hl ecef, ⟨length_type3Bits _ _ _ _ _, fun buff hb =>
      (parseMessage_header hb h.1 (by decide) (by decide)).2.2.2.2.2.1, fun buff hb => parseMessage_type3 h hb⟩,
      by rw [Call.run, Rtcm2Encoder.encodeType3, packType3Body_ok h]⟩

theorem IsBody.bits {m : Message} {n : Nat} {bs : List Bool} (hb : IsBody m n bs) :
    ofBytes (dataBytes (wordsOf (2 + n) bs)) = bs := by
  rw [ofBytes_words _ (by rw [hb.length]), ← hb.length, List.take_length]

/-- The stream is cut at the end of a body. -/
theorem cutMessages_body {m : Message} {n : Nat} {bs : List Bool} (hb : IsBody m n bs) (fuel : Nat)
    (rest : Bytes) :
    cutMessages (fuel + 1) (dataBytes (wordsOf (2 + n) bs) ++ rest) =
      (dataBytes (wordsOf (2 + n) bs) :: (cutMessages fuel rest).1, (cutMessages fuel rest).2) := by
  have hw := hb.words _ hb.bits
  have hlen : (dataBytes (wordsOf (2 + n) bs)).length = n * 3 + 6 := by
    rw [length_dataBytes, length_wordsOf]; omega
  generalize dataBytes (wordsOf (2 + n) bs) = d at hw hlen
  have hf : ((d ++ rest).getD 5 0).toNat >>> 3 = n := by
    rw [List.getD_append _ _ _ _ (by omega), length_field (by omega), hw]
  simp only [cutMessages, hf]
  rw [if_neg (by rw [List.length_append]; omega), List.take_left' hlen, List.drop_left' hlen]

/-! ## Streams -/

/-- The words `ws`, sent between the seeds `s29 s30` and `t29 t30`, are the
messages of `log`. -/
structure Sends (log : List (Call K × Bytes)) (ws : List Nat) (s29 s30 t29 t30 : Bool) : Prop where
  top : ∀ b ∈ (log.map Prod.snd).flatten, b &&& 0xC0 = 0x40
  length : ((log.map Prod.snd).flatten).length = 5 * ws.length
  bits : (deframeBits (log.map Prod.snd).flatten).length = 30 * ws.length
  decode : ∀ n rest, decodeWords (ws.length + n) s29 s30 (deframeBits (log.map Prod.snd).flatten ++ rest) =
    ws.map (fun w => some (bigEndian 3 (w % 2 ^ 24))) ++ decodeWords n t29 t30 rest
  count : log.length ≤ ws.length
  cut : ∀ fuel, log.length ≤ fuel → ∃ bodies, cutMessages fuel (dataBytes ws) = (bodies, []) ∧
    bodies.map parseMessage = log.map fun e => e.1.message

theorem Sends.nil (s29 s30 : Bool) : Sends ([] : List (Call K × Bytes)) [] s29 s30 s29 s30 where
  top := by simp
  length := rfl
  bits := rfl
  decode := fun n rest => by simp [deframeBits]
  count := Nat.le_refl 0
  cut := fun fuel _ => ⟨[], by cases fuel <;> rfl, rfl⟩

/-- A message sent before others. -/
theorem Sends.cons {c : Call K} {n : Nat} {bs : List Bool} (hb : IsBody c.message n bs) (s29 s30 : Bool) :
    ∃ out u29 u30, Rtcm2Encoder.encodeWords ⟨s29.toNat, s30.toNat⟩ (wordsOf (2 + n) bs) =
        (.ok out, ⟨Bool.toNat u29, Bool.toNat u30⟩) ∧
      ∀ (log : List (Call K × Bytes)) (ws : List Nat) (t29 t30 : Bool), Sends log ws u29 u30 t29 t30 →
        Sends ((c, out) :: log) (wordsOf (2 + n) bs ++ ws) s29 s30 t29 t30 := by
  obtain ⟨out, u29, u30, he, htop, hlen, hbits, hdec⟩ := encodeWords_decode (wordsOf (2 + n) bs) s29 s30
  refine ⟨out, u29, u30, he, fun log ws t29 t30 h => ⟨?_, ?_, ?_, ?_, ?_, ?_⟩⟩
  · simp only [List.map_cons, List.flatten_cons, List.mem_append]
    rintro b (hm | hm)
    · exact htop b hm
    · exact h.top b hm
  · rw [List.map_cons, List.flatten_cons, List.length_append, hlen, h.length, List.length_append]
    omega
  · rw [List.map_cons, List.flatten_cons, deframeBits_append, List.length_append, hbits, h.bits, List.length_append]
    omega
  · intro k rest
    rw [List.map_cons, List.flatten_cons, deframeBits_append, List.append_assoc, List.length_append, Nat.add_assoc,
      hdec, h.decode, List.map_append, List.append_assoc]
  · have := h.count
    rw [List.length_cons, List.length_append, length_wordsOf]
    omega
  · rintro (_ | fuel) hf
    · simp at hf
    · obtain ⟨bodies, hcut, hparse⟩ := h.cut fuel (by simpa using hf)
      refine ⟨dataBytes (wordsOf (2 + n) bs) :: bodies, ?_, ?_⟩
      · rw [dataBytes_append, cutMessages_body hb, hcut]
      · rw [List.map_cons, List.map_cons, hparse, hb.parse _ hb.bits]

/-- Calls on one encoder, by induction on them: a call that raises leaves the
seeds, one that returns sends its message and passes its seeds on. -/
theorem runCalls_sends (calls : List (Call K)) (s29 s30 : Bool) :
    ∃ ws t29 t30, (runCalls ⟨s29.toNat, s30.toNat⟩ calls).2 = ⟨t29.toNat, t30.toNat⟩ ∧
      Sends (runCalls ⟨s29.toNat, s30.toNat⟩ calls).1 ws s29 s30 t29 t30 := by
  induction calls generalizing s29 s30 with
  | nil => exact ⟨[], s29, s30, rfl, Sends.nil s29 s30⟩
  | cons c calls ih =>
    by_cases ha : Accepts c
    · obtain ⟨n, bs, hb, hrun⟩ := run_ok ⟨s29.toNat, s30.toNat⟩ ha
      obtain ⟨out, u29, u30, he, hcons⟩ := Sends.cons hb s29 s30
      obtain ⟨ws, t29, t30, hs, hsends⟩ := ih u29 u30
      have hlog : runCalls ⟨s29.toNat, s30.toNat⟩ (c :: calls) =
          ((c, out) :: (runCalls ⟨u29.toNat, u30.toNat⟩ calls).1, (runCalls ⟨u29.toNat, u30.toNat⟩ calls).2) := by
        rw [runCalls, hrun, he]
      rw [hlog]
      exact ⟨wordsOf (2 + n) bs ++ ws, t29, t30, hs, hcons _ ws t29 t30 hsends⟩
    · obtain ⟨msg, hrun⟩ := run_error ⟨s29.toNat, s30.toNat⟩ ha
      have hlog : runCalls ⟨s29.toNat, s30.toNat⟩ (c :: calls) = runCalls ⟨s29.toNat, s30.toNat⟩ calls := by
        rw [runCalls, hrun]
      rw [hlog]
      exact ih s29 s30

/-- The decoder's violations and messages of words it decoded. -/
theorem Sends.decodeStream {log : List (Call K × Bytes)} {ws : List Nat} {s29 s30 t29 t30 : Bool}
    (h : Sends log ws s29 s30 t29 t30) :
    decodeStream s29 s30 (log.map Prod.snd).flatten =
      { violations := 0, messages := log.map fun e => e.1.message, rest := [] } := by
  have hdec := h.decode 0 []
  rw [Nat.add_zero, List.append_nil, decodeWords, List.append_nil] at hdec
  have hdiv : (deframeBits (log.map Prod.snd).flatten).length / 30 = ws.length := by
    rw [h.bits, Nat.mul_div_cancel_left _ (by decide)]
  have hbytes : (List.filterMap id (ws.map fun w => some (bigEndian 3 (w % 2 ^ 24)))).flatten =
      dataBytes ws := by
    rw [List.filterMap_map, show (id ∘ fun w => some (bigEndian 3 (w % 2 ^ 24))) =
      some ∘ fun w => bigEndian 3 (w % 2 ^ 24) from rfl, List.filterMap_eq_map]
    rfl
  obtain ⟨bodies, hcut, hparse⟩ := h.cut (dataBytes ws).length (by
    rw [length_dataBytes]; have := h.count; omega)
  simp only [Spec.decodeStream, hdiv, hdec, hbytes, hcut, hparse]
  refine Decoded.mk.injEq .. ▸ ⟨?_, rfl, rfl⟩
  rw [List.countP_map]
  exact List.countP_eq_zero.mpr fun w _ => by simp

/-- Any calls on one encoder, from any seeds: the bytes of those that
returned are 6-of-8 bytes in whole words, and the decoder, started with the
encoder's seeds, finds no parity violation in them and recovers exactly the
messages of those calls, in order. -/
theorem wire_roundtrip (d29star d30star : Bool) (calls : List (Call K)) :
    let log := (runCalls ⟨d29star.toNat, d30star.toNat⟩ calls).1
    let W := (log.map Prod.snd).flatten
    (∀ b ∈ W, b &&& 0xC0 = 0x40) ∧ 5 ∣ W.length ∧
      Spec.decodeStream d29star d30star W =
        { violations := 0, messages := log.map fun e => e.1.message, rest := [] } := by
  obtain ⟨ws, t29, t30, -, h⟩ := runCalls_sends calls d29star d30star
  exact ⟨h.top, ⟨ws.length, h.length⟩, h.decodeStream⟩

end Rtcm.Proof
