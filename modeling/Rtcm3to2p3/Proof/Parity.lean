import Rtcm3to2p3.Impl.Rtcm2
import Rtcm3to2p3.Spec.Decoder
import Rtcm3to2p3.Proof.Bits

/-!
# Words: what the encoder sends and the reference decoder reads

`encodeWord` on bits is `wordBits`: the data bits, inverted if `D30*` is
set, and the parity bits `parBits` (`encodeWord_eq`). The encoder's masks
and the decoder's Hamming table select the same bits (`positions_hamming`),
so the decoder recovers the data bits (`decodeWord_wordBits`). The 6-of-8
bytes of a word hold its 30 bits (`deframeBits_word30`), and from these
`encodeWords_decode`: a whole list of words, with the seeds it leaves.
-/

namespace Rtcm.Proof

open Rtcm.Impl Rtcm.Spec BitString

/-- The parity bits of the data bits `l`, `D25` to `D30`. -/
def parBits (l : List Bool) (s29 s30 : Bool) : List Bool :=
  (PARITY_MASKS.zip SEED_IS_D29).map fun (mask, seedD29) =>
    parity ((if seedD29 then s29 else s30) :: mask.map fun idx => l.getD (idx - 1) false)

/-- The 30 bits sent for the data bits `l`. -/
def wordBits (l : List Bool) (s29 s30 : Bool) : List Bool := l.map (· ^^ s30) ++ parBits l s29 s30

@[simp] theorem length_parBits (l : List Bool) (s29 s30 : Bool) : (parBits l s29 s30).length = 6 := rfl

theorem length_wordBits {l : List Bool} (h : l.length = 24) (s29 s30 : Bool) :
    (wordBits l s29 s30).length = 30 := by simp [wordBits, h]

/-! ## The encoder's word -/

theorem toNat_xor (a b : Bool) : a.toNat ^^^ b.toNat = (a ^^ b).toNat := by cases a <;> cases b <;> rfl

theorem isBit_toNat (b : Bool) : isBit b.toNat = true := by cases b <;> rfl

theorem getD_map_toNat (l : List Bool) (i : Nat) : (l.map Bool.toNat).getD i 0 = (l.getD i false).toNat := by
  simp only [List.getD_eq_getElem?_getD, List.getElem?_map]
  cases l[i]? <;> rfl

/-- A parity bit's loop over its mask. -/
theorem foldl_mask (l : List Bool) (mask : List Nat) (s : Bool) :
    mask.foldl (fun p idx => p ^^^ (l.map Bool.toNat).getD (idx - 1) 0) s.toNat =
      (parity (s :: mask.map fun idx => l.getD (idx - 1) false)).toNat := by
  induction mask generalizing s with
  | nil => simp
  | cons i mask ih =>
    rw [List.foldl_cons, getD_map_toNat, toNat_xor, ih, List.map_cons]
    simp only [parity_cons, Bool.xor_assoc]

theorem parityBits_eq {l : List Bool} (h : l.length = 24) (s29 s30 : Bool) :
    parityBits (l.map Bool.toNat) s29.toNat s30.toNat = .ok ((parBits l s29 s30).map Bool.toNat) := by
  have hb : ((l.map Bool.toNat).any (fun b => !isBit b) || !isBit s29.toNat || !isBit s30.toNat) = false := by
    simp [isBit_toNat]
  rw [parityBits, if_neg (by simp [h, WORD_DATA_BITS]), if_neg (by rw [hb]; simp)]
  simp only [parBits, List.map_map]
  refine congrArg Except.ok (List.map_congr_left fun ⟨mask, sd⟩ _ => ?_)
  simp only [Function.comp_apply, ← foldl_mask]
  cases sd <;> rfl

theorem foldl_bit (l bs : List Bool) :
    (l.map Bool.toNat).foldl (fun word b => word <<< 1 ||| b) (ofBits bs) = ofBits (bs ++ l) := by
  have := foldl_shiftLeft_or id l bs
  rw [List.map_id] at this
  rw [← this, List.foldl_map]
  rfl

theorem encodeWord_eq {l : List Bool} (h : l.length = 24) (s29 s30 : Bool) :
    encodeWord (l.map Bool.toNat) s29.toNat s30.toNat =
      .ok (ofBits (wordBits l s29 s30), ((parBits l s29 s30).getD 4 false).toNat,
        ((parBits l s29 s30).getD 5 false).toNat) := by
  have hd : (l.map Bool.toNat).map (· ^^^ s30.toNat) = (l.map (· ^^ s30)).map Bool.toNat := by
    simp only [List.map_map]
    exact List.map_congr_left fun b _ => toNat_xor b s30
  rw [encodeWord, parityBits_eq h]
  simp only [hd]
  rw [show (0 : Nat) = ofBits [] from rfl, foldl_bit, foldl_bit, List.nil_append]
  simp only [ofBits_nil, getD_map_toNat, wordBits]

/-! ## The decoder's word -/

/-- The Hamming table's masks select the seed and the bits of the encoder's masks. -/
theorem positions_hamming :
    HAMMING.map (fun h => positions (toBits 32 h)) =
      (PARITY_MASKS.zip SEED_IS_D29).map fun (mask, seedD29) =>
        (if seedD29 then 0 else 1) :: mask.map (· + 1) := by decide +kernel

theorem masks_range : ∀ p ∈ PARITY_MASKS.zip SEED_IS_D29, ∀ idx ∈ p.1, 1 ≤ idx ∧ idx ≤ 24 := by decide

theorem hamming_lt : ∀ h ∈ HAMMING, h < 2 ^ 32 := by decide

/-- The bits of a word before its inversion: the seeds, the data, the parity. -/
def sourceBits (l : List Bool) (s29 s30 : Bool) : List Bool := s29 :: s30 :: (l ++ parBits l s29 s30)

theorem length_sourceBits {l : List Bool} (h : l.length = 24) (s29 s30 : Bool) :
    (sourceBits l s29 s30).length = 32 := by simp [sourceBits, h]

/-- The decoder's parity of a word is the encoder's. -/
theorem hamming_parity {l : List Bool} (h : l.length = 24) (s29 s30 : Bool) :
    HAMMING.foldl (fun p m => p <<< 1 ||| popcount (ofBits (sourceBits l s29 s30) &&& m) &&& 1) 0 =
      ofBits (parBits l s29 s30) := by
  have hb : ∀ m ∈ HAMMING, popcount (ofBits (sourceBits l s29 s30) &&& m) &&& 1 =
      (parity ((positions (toBits 32 m)).map fun i => (sourceBits l s29 s30).getD i false)).toNat := by
    intro m hm
    have hl : (sourceBits l s29 s30).length = (toBits 32 m).length := by
      rw [length_sourceBits h, length_toBits]
    rw [Nat.and_one_is_mod, ← popcount_and hl, ofBits_toBits, Nat.mod_eq_of_lt (hamming_lt m hm)]
  have hf : HAMMING.foldl (fun p m => p <<< 1 ||| popcount (ofBits (sourceBits l s29 s30) &&& m) &&& 1) 0 =
      HAMMING.foldl (fun p m => p <<< 1 |||
        (parity ((positions (toBits 32 m)).map fun i => (sourceBits l s29 s30).getD i false)).toNat)
        (ofBits []) :=
    List.foldl_ext _ _ _ fun p m hm => by rw [hb m hm]
  rw [hf, foldl_shiftLeft_or, List.nil_append]
  have hp : HAMMING.map (fun m => parity ((positions (toBits 32 m)).map fun i =>
      (sourceBits l s29 s30).getD i false)) =
      (HAMMING.map fun m => positions (toBits 32 m)).map fun ps =>
        parity (ps.map fun i => (sourceBits l s29 s30).getD i false) := by
    rw [List.map_map]; rfl
  rw [hp, positions_hamming, List.map_map, parBits]
  refine congrArg ofBits (List.map_congr_left fun ⟨mask, sd⟩ hm => ?_)
  simp only [Function.comp_apply, List.map_cons, List.map_map, parity_cons]
  refine congrArg₂ _ (by cases sd <;> rfl) (congrArg parity (List.map_congr_left fun idx hi => ?_))
  have hr := masks_range _ hm idx hi
  simp only [Function.comp_apply, sourceBits]
  rw [show idx + 1 = (idx - 1) + 1 + 1 by omega, List.getD_cons_succ, List.getD_cons_succ,
    List.getD_append _ _ _ _ (by omega)]

theorem zipWith_xor_replicate (xs : List Bool) (b : Bool) :
    List.zipWith (· ^^ ·) xs (List.replicate xs.length b) = xs.map (· ^^ b) := by
  induction xs with
  | nil => rfl
  | cons x xs ih => simp [List.replicate_succ, ih]

/-- The inversion, undone. -/
theorem uninvert {l : List Bool} (h : l.length = 24) (s29 s30 : Bool) :
    (if ofBits (s29 :: s30 :: wordBits l s29 s30) &&& 0x40000000 ≠ 0
      then ofBits (s29 :: s30 :: wordBits l s29 s30) ^^^ 0x3FFFFFC0
      else ofBits (s29 :: s30 :: wordBits l s29 s30)) = ofBits (sourceBits l s29 s30) := by
  have hl : (s29 :: s30 :: wordBits l s29 s30).length = 32 := by simp [length_wordBits h]
  have h1 : (0x40000000 : Nat) = ofBits (false :: true :: List.replicate 30 false) := by decide
  have h2 : (0x3FFFFFC0 : Nat) =
      ofBits (false :: false :: (List.replicate 24 true ++ List.replicate 6 false)) := by decide
  have hz : ∀ xs : List Bool, List.zipWith (· && ·) xs (List.replicate xs.length false) =
      List.replicate xs.length false := fun xs => by
    induction xs with
    | nil => rfl
    | cons x xs ih => simp [List.replicate_succ, ih]
  have ht : (ofBits (s29 :: s30 :: wordBits l s29 s30) &&& 0x40000000 ≠ 0) ↔ s30 = true := by
    rw [h1, ofBits_and (by rw [hl]; rfl), List.zipWith_cons_cons, List.zipWith_cons_cons,
      ← length_wordBits h s29 s30, hz, length_wordBits h]
    cases s29 <;> cases s30 <;> decide
  simp only [ht]
  cases s30
  · simp [wordBits, sourceBits]
  · rw [if_pos rfl, h2, ofBits_xor (by rw [hl]; rfl), List.zipWith_cons_cons, List.zipWith_cons_cons,
      wordBits, List.zipWith_append (by simp [h])]
    have e1 := zipWith_xor_replicate (l.map (· ^^ true)) true
    have e2 := zipWith_xor_replicate (parBits l s29 true) false
    rw [List.length_map, h, List.map_map] at e1
    rw [length_parBits] at e2
    rw [e1, e2]
    simp [sourceBits, Function.comp_def]

theorem word32_eq (s29 s30 : Bool) {bits : List Bool} (h : bits.length = 30) :
    s29.toNat <<< 31 ||| s30.toNat <<< 30 ||| ofBits bits = ofBits (s29 :: s30 :: bits) := by
  have hb := ofBits_lt bits
  rw [h] at hb
  have hs : s29.toNat <<< 31 ||| s30.toNat <<< 30 = (2 * s29.toNat + s30.toNat) <<< 30 := by
    cases s29 <;> cases s30 <;> decide
  rw [hs, shiftLeft_or _ hb, ofBits_cons, ofBits_cons, List.length_cons, h, pow_succ]
  generalize 2 ^ 30 = Q
  ring

/-- The decoder recovers a word's data bits. -/
theorem decodeWord_wordBits {l : List Bool} (h : l.length = 24) (s29 s30 : Bool) :
    decodeWord (s29.toNat <<< 31 ||| s30.toNat <<< 30 ||| ofBits (wordBits l s29 s30)) =
      some (bigEndian 3 (ofBits l)) := by
  rw [word32_eq s29 s30 (length_wordBits h s29 s30), decodeWord]
  simp only [uninvert h, hamming_parity h]
  have hp : ofBits (s29 :: s30 :: wordBits l s29 s30) &&& 0x3F = ofBits (parBits l s29 s30) := by
    rw [show (0x3F : Nat) = 2 ^ 6 - 1 from rfl, Nat.and_two_pow_sub_one_eq_mod, wordBits]
    exact ofBits_append_mod (s29 :: s30 :: l.map (· ^^ s30)) (parBits l s29 s30)
  rw [hp, if_neg (by simp)]
  have hs : ofBits (sourceBits l s29 s30) >>> 6 = ofBits (s29 :: s30 :: l) := by
    rw [Nat.shiftRight_eq_div_pow]
    exact ofBits_append_div (s29 :: s30 :: l) (parBits l s29 s30)
  have he : [UInt8.ofNat (ofBits (sourceBits l s29 s30) >>> 22),
      UInt8.ofNat (ofBits (sourceBits l s29 s30) >>> 14),
      UInt8.ofNat (ofBits (sourceBits l s29 s30) >>> 6)] = bigEndian 3 (ofBits (s29 :: s30 :: l)) := by
    rw [← hs, show (22 : Nat) = 6 + 16 from rfl, show (14 : Nat) = 6 + 8 from rfl, Nat.shiftRight_add,
      Nat.shiftRight_add]
    rfl
  rw [he]
  refine congrArg some (ofBytes_inj ?_)
  rw [ofBytes_bigEndian, ofBytes_bigEndian]
  have := toBits_ofBits_append [s29, s30] l
  rw [h] at this
  rw [show 8 * 3 = 24 from rfl, show s29 :: s30 :: l = [s29, s30] ++ l from rfl, this, ← h, toBits_ofBits]

/-! ## The 6-of-8 bytes -/

theorem deframeByte_group : ∀ v < 64, deframeByte (UInt8.ofNat (0x40 ||| reverse6 v)) = toBits 6 v := by
  decide +kernel

theorem group_top : ∀ v < 64, UInt8.ofNat (0x40 ||| reverse6 v) &&& 0xC0 = 0x40 := by decide +kernel

theorem deframeBits_append (a b : Bytes) : deframeBits (a ++ b) = deframeBits a ++ deframeBits b :=
  List.flatMap_append

/-- The five bytes of a word hold its 30 bits. -/
theorem deframeBits_word30 (w : Nat) : deframeBits (word30ToBytes w) = toBits 30 w := by
  have hg : ∀ g, (w >>> (WORD_BITS - 6 - g * 6)) &&& 0x3F < 64 := fun g => by
    rw [show (0x3F : Nat) = 2 ^ 6 - 1 from rfl, Nat.and_two_pow_sub_one_eq_mod]
    exact Nat.mod_lt _ (by decide)
  have ht : ∀ v, toBits 6 (v &&& 0x3F) = toBits 6 v := fun v => toBits_congr (by
    rw [show (0x3F : Nat) = 2 ^ 6 - 1 from rfl, Nat.and_two_pow_sub_one_eq_mod, Nat.mod_mod])
  have hm : deframeBits (word30ToBytes w) =
      (List.range 5).flatMap fun g => toBits 6 (w >>> (WORD_BITS - 6 - g * 6)) := by
    rw [deframeBits, word30ToBytes, List.flatMap_map]
    refine List.flatMap_congr fun g _ => ?_
    rw [deframeByte_group _ (hg g), ht]
  rw [hm]
  simp only [List.range, List.range.loop, List.flatMap_cons, List.flatMap_nil, List.append_nil,
    WORD_BITS, WORD_DATA_BITS, WORD_PARITY_BITS, Nat.shiftRight_eq_div_pow]
  rw [show (30 : Nat) = 6 + 24 from rfl, toBits_add, show (24 : Nat) = 6 + 18 from rfl, toBits_add 6 18,
    show (18 : Nat) = 6 + 12 from rfl, toBits_add 6 12, show (12 : Nat) = 6 + 6 from rfl, toBits_add 6 6]
  simp

theorem word30ToBytes_top (w : Nat) : ∀ b ∈ word30ToBytes w, b &&& 0xC0 = 0x40 := by
  intro b hb
  obtain ⟨g, -, rfl⟩ := List.mem_map.mp hb
  refine group_top _ ?_
  rw [show (0x3F : Nat) = 2 ^ 6 - 1 from rfl, Nat.and_two_pow_sub_one_eq_mod]
  exact Nat.mod_lt _ (by decide)

/-! ## Lists of words -/

theorem dataBits_eq (dw : Nat) : Rtcm2Encoder.dataBits dw = (toBits 24 dw).map Bool.toNat := by
  apply List.ext_getElem?
  intro i
  simp only [Rtcm2Encoder.dataBits, WORD_DATA_BITS, List.getElem?_map]
  by_cases hi : i < 24
  · rw [List.getElem?_range hi, toBits_getElem? _ hi, Option.map_some, Option.map_some, testBit_toNat,
      Nat.shiftRight_eq_div_pow, Nat.and_one_is_mod]
  · rw [List.getElem?_eq_none (by simpa using hi), List.getElem?_eq_none (by simpa using hi)]
    rfl

section

variable {l : List Bool} (hl : l.length = 24) (s29 s30 : Bool)
include hl

theorem deframeBits_wordBits :
    deframeBits (word30ToBytes (ofBits (wordBits l s29 s30))) = wordBits l s29 s30 := by
  rw [deframeBits_word30, ← length_wordBits hl s29 s30, toBits_ofBits]

/-- A word ends in its parity bits, the seeds of the next. -/
theorem getD_wordBits (rest : List Bool) (i : Nat) (hi : i < 6) :
    (wordBits l s29 s30 ++ rest).getD (24 + i) false = (parBits l s29 s30).getD i false := by
  rw [List.getD_append _ _ _ _ (by rw [length_wordBits hl]; omega), wordBits,
    List.getD_append_right _ _ _ _ (by simp [hl]), List.length_map, hl, Nat.add_sub_cancel_left]

end

/-- The first word's bytes, and those of the words after it. -/
theorem encodeWords_cons {w : Nat} {ws : List Nat} {s29 s30 t29 t30 : Bool} {out : Bytes}
    (h : Rtcm2Encoder.encodeWords ⟨((parBits (toBits 24 w) s29 s30).getD 4 false).toNat,
      ((parBits (toBits 24 w) s29 s30).getD 5 false).toNat⟩ ws = (.ok out, ⟨t29.toNat, t30.toNat⟩)) :
    Rtcm2Encoder.encodeWords ⟨s29.toNat, s30.toNat⟩ (w :: ws) =
      (.ok (word30ToBytes (ofBits (wordBits (toBits 24 w) s29 s30)) ++ out), ⟨t29.toNat, t30.toNat⟩) := by
  simp only [Rtcm2Encoder.encodeWords, dataBits_eq, encodeWord_eq (length_toBits 24 w), h]
  rfl

/-- What a list of words is sent as: 6-of-8 bytes from which the decoder,
started with the same seeds, recovers the words, and goes on with the seeds
the encoder is left with. -/
theorem encodeWords_decode (ws : List Nat) (s29 s30 : Bool) :
    ∃ out t29 t30,
      Rtcm2Encoder.encodeWords ⟨s29.toNat, s30.toNat⟩ ws = (.ok out, ⟨t29.toNat, t30.toNat⟩) ∧
      (∀ b ∈ out, b &&& 0xC0 = 0x40) ∧ out.length = 5 * ws.length ∧
      (deframeBits out).length = 30 * ws.length ∧
      ∀ n rest, decodeWords (ws.length + n) s29 s30 (deframeBits out ++ rest) =
        ws.map (fun w => some (bigEndian 3 (w % 2 ^ 24))) ++ decodeWords n t29 t30 rest := by
  induction ws generalizing s29 s30 with
  | nil => exact ⟨[], s29, s30, rfl, by simp, rfl, rfl, fun n rest => by simp [deframeBits]⟩
  | cons w ws ih =>
    have hl : (toBits 24 w).length = 24 := length_toBits 24 w
    obtain ⟨out, t29, t30, he, htop, hlen, hbits, hdec⟩ :=
      ih ((parBits (toBits 24 w) s29 s30).getD 4 false) ((parBits (toBits 24 w) s29 s30).getD 5 false)
    have hw := length_wordBits hl s29 s30
    have hd30 := deframeBits_wordBits hl s29 s30
    refine ⟨_, t29, t30, encodeWords_cons he, ?_, ?_, ?_, ?_⟩
    · intro b hb
      rcases List.mem_append.mp hb with hb | hb
      · exact word30ToBytes_top _ b hb
      · exact htop b hb
    · rw [List.length_append, hlen, List.length_cons]
      simp only [word30ToBytes, List.length_map, List.length_range]
      omega
    · rw [deframeBits_append, hd30, List.length_append, hw, hbits, List.length_cons]; omega
    · intro n rest
      rw [deframeBits_append, hd30, List.append_assoc, List.length_cons, Nat.add_right_comm, decodeWords,
        List.take_left' hw, List.drop_left' hw, decodeWord_wordBits hl, ofBits_toBits, List.map_cons,
        List.cons_append]
      have hp := getD_wordBits hl s29 s30 (deframeBits out ++ rest)
      rw [hp 4 (by decide), hp 5 (by decide), hdec]

end Rtcm.Proof
