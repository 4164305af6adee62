import Rtcm3to2p3.Lib.ParityCheck
import Rtcm3to2p3.Proof.Parity

/-!
# Flipped bits on the wire

A received word passes the checker exactly if the bits flipped in it pass the
parity equations on their own (`recomputed_flip`). The equations' columns are
distinct and odd (`COLUMNS`), so up to three bits do not, and the first word
with a flipped bit is found, its seeds being right (`encodeWords_check`). From
this `corruption_detected`, on the wire bytes.
-/

namespace Rtcm.Proof

open Rtcm.Impl Rtcm.Spec BitString ParityCheck

theorem PARITY_EQ_eq : PARITY_EQ = (PARITY_MASKS.zip SEED_IS_D29).map Prod.swap := by decide

/-- The equations' sums over the flipped data bits. -/
def checkSums (e : List Bool) : List Bool :=
  PARITY_EQ.map fun p => parity (p.2.map fun idx => e.getD (idx - 1) false)

/-! ## A word -/

theorem foldl_parity {α : Type*} (f : α → Bool) (l : List α) (s : Bool) :
    l.foldl (fun v a => v ^^ f a) s = (s ^^ parity (l.map f)) := by
  rw [← foldl_xor, List.foldl_map]

theorem getD_zipWith_xor {a b : List Bool} (h : a.length = b.length) (i : Nat) :
    (List.zipWith (· ^^ ·) a b).getD i false = (a.getD i false ^^ b.getD i false) := by
  simp only [List.getD_eq_getElem?_getD, List.getElem?_zipWith]
  by_cases hi : i < a.length
  · rw [List.getElem?_eq_getElem hi, List.getElem?_eq_getElem (h ▸ hi)]
    rfl
  · rw [List.getElem?_eq_none (by omega), List.getElem?_eq_none (by omega)]
    rfl

theorem zipWith_xor_right_inj {a b c : List Bool} (hb : b.length = a.length) (hc : c.length = a.length) :
    List.zipWith (· ^^ ·) a b = List.zipWith (· ^^ ·) a c ↔ b = c := by
  refine ⟨fun h => List.ext_getElem (hb.trans hc.symm) fun i h1 h2 => ?_, fun h => h ▸ rfl⟩
  have hi := congrArg (·.getD i false) h
  rw [getD_zipWith_xor hb.symm, getD_zipWith_xor hc.symm, List.getD_eq_getElem b _ h1,
    List.getD_eq_getElem c _ h2] at hi
  exact Bool.xor_right_inj.mp hi

/-- The recomputed parity bits differ from those sent by the sums over the flips. -/
theorem recomputed_flip {l e : List Bool} (hl : l.length = 24) (he : e.length = 30) (s29 s30 : Bool) :
    recomputed s29 s30 (List.zipWith (· ^^ ·) (wordBits l s29 s30) e) =
      List.zipWith (· ^^ ·) (parBits l s29 s30) (checkSums e) := by
  have hw : (wordBits l s29 s30).length = e.length := by rw [length_wordBits hl, he]
  simp only [recomputed, checkSums, parBits, PARITY_EQ_eq, List.map_map, List.zipWith_map, List.zipWith_self]
  refine List.map_congr_left fun p hm => ?_
  simp only [Function.comp_apply, Prod.fst_swap, Prod.snd_swap, foldl_parity, parity_cons, Bool.xor_assoc,
    ← parity_map_xor]
  refine congrArg₂ _ rfl (congrArg parity (List.map_congr_left fun idx hi => ?_))
  have hr := masks_range _ hm idx hi
  rw [getD_zipWith_xor hw, wordBits, List.getD_append _ _ _ _ (by rw [List.length_map]; omega)]
  rw [List.getD_eq_getElem _ _ (by rw [List.length_map]; omega), List.getElem_map,
    List.getD_eq_getElem l _ (by omega)]
  cases s30 <;> simp

/-- What a flipped bit changes: the columns of the six equations. -/
def COLUMNS : List Nat :=
  [21, 11, 55, 14, 61, 59, 22, 44, 56, 49, 35, 7, 47, 31, 62, 28, 25, 19, 38, 13, 26, 52, 41, 50, 1, 2, 4, 8, 16, 32]

theorem positions_columns : ∀ k < 6, positions (COLUMNS.map (·.testBit k)) =
    ((PARITY_EQ.getD k default).2.map (· - 1)) ++ [24 + k] := by decide

theorem columns_odd : ∀ c ∈ COLUMNS, parity ((List.range 6).map c.testBit) = true := by decide

theorem getD_checkSums (e : List Bool) : ∀ k < 6, (checkSums e).getD k false =
    parity (((PARITY_EQ.getD k default).2.map (· - 1)).map fun i => e.getD i false) := by
  intro k hk
  rw [List.map_map]
  have hlen : PARITY_EQ.length = 6 := rfl
  rw [checkSums, List.getD_eq_getElem _ _ (by rw [List.length_map, hlen]; exact hk), List.getElem_map,
    List.getD_eq_getElem _ _ (by rw [hlen]; exact hk)]
  rfl

/-- Flips that pass the equations have a zero syndrome. -/
theorem syndrome_of_checkSums {e : List Bool} (he : e.length = 30) (h : checkSums e = e.drop 24) :
    syndrome COLUMNS e = 0 := by
  have hlt : syndrome COLUMNS e < 2 ^ 6 := syndrome_lt (by decide) e
  refine Nat.eq_of_testBit_eq fun k => ?_
  rw [Nat.zero_testBit]
  by_cases hk : k < 6
  · have hrow := congrArg (·.getD k false) h
    rw [testBit_syndrome, parity_zipWith (by rw [he]; rfl), positions_columns k hk, List.map_append, parity_append,
      ← getD_checkSums e k hk, hrow]
    simp [List.getD_eq_getElem?_getD]
  · exact Nat.testBit_lt_two_pow (lt_of_lt_of_le hlt (Nat.pow_le_pow_right (by decide) (not_lt.mp hk)))

theorem eq_replicate_of_count {e : List Bool} {n : Nat} (he : e.length = n) (h : e.count true = 0) :
    e = List.replicate n false := by
  refine List.eq_replicate_iff.mpr ⟨he, fun b hb => ?_⟩
  cases b
  · rfl
  · exact absurd hb (List.count_eq_zero.mp h)

/-- Up to three flipped bits pass the equations only if there are none. -/
theorem checkSums_eq_iff {e : List Bool} (he : e.length = 30) (h3 : e.count true ≤ 3) :
    checkSums e = e.drop 24 ↔ e.count true = 0 := by
  constructor
  · intro h
    by_contra h0
    refine syndrome_ne_zero (f := fun n => parity ((List.range 6).map n.testBit)) (by decide) (fun a b => ?_)
      columns_odd (by decide) (he.trans rfl) (by omega) h3 (syndrome_of_checkSums he h)
    rw [← parity_map_xor]
    exact congrArg parity (List.map_congr_left fun k _ => Nat.testBit_xor a b k)
  · intro h0
    rw [eq_replicate_of_count he h0]
    decide

theorem word_check {l e : List Bool} (hl : l.length = 24) (he : e.length = 30) (h3 : e.count true ≤ 3)
    (s29 s30 : Bool) :
    recomputed s29 s30 (List.zipWith (· ^^ ·) (wordBits l s29 s30) e) =
      (List.zipWith (· ^^ ·) (wordBits l s29 s30) e).drop 24 ↔ e.count true = 0 := by
  have hd : (wordBits l s29 s30).drop 24 = parBits l s29 s30 := by
    rw [wordBits, List.drop_left' (by rw [List.length_map, hl])]
  rw [recomputed_flip hl he, List.drop_zipWith, hd, zipWith_xor_right_inj (by rfl) (by simp [he]),
    checkSums_eq_iff he h3]

/-! ## Words in a row -/

/-- Flips of up to three bits of a list of words are found, if there are any:
the seeds of the first word with a flipped bit are those it was sent with. -/
theorem encodeWords_check (ws : List Nat) (s29 s30 : Bool) :
    ∃ (out : Bytes) (t29 t30 : Bool),
      Rtcm2Encoder.encodeWords ⟨s29.toNat, s30.toNat⟩ ws = (.ok out, ⟨t29.toNat, t30.toNat⟩) ∧
      (∀ b ∈ out, b &&& 0xC0 = 0x40) ∧ (deframeBits out).length = 30 * ws.length ∧
      ∀ e : List Bool, e.length = 30 * ws.length → e.count true ≤ 3 →
        (badWords ws.length s29 s30 (List.zipWith (· ^^ ·) (deframeBits out) e) = 0 ↔ e.count true = 0) := by
  induction ws generalizing s29 s30 with
  | nil =>
    refine ⟨[], s29, s30, rfl, by simp, rfl, fun e he _ => ?_⟩
    rw [List.length_eq_zero_iff.mp he]
    simp [badWords]
  | cons w ws ih =>
    have hl : (toBits 24 w).length = 24 := length_toBits 24 w
    obtain ⟨out, t29, t30, henc, htop, hbits, hcheck⟩ :=
      ih ((parBits (toBits 24 w) s29 s30).getD 4 false) ((parBits (toBits 24 w) s29 s30).getD 5 false)
    have hw := length_wordBits hl s29 s30
    have hd30 := deframeBits_wordBits hl s29 s30
    refine ⟨_, t29, t30, encodeWords_cons henc, ?_, ?_, fun e he h3 => ?_⟩
    · intro b hb
      rcases List.mem_append.mp hb with hb | hb
      · exact word30ToBytes_top _ b hb
      · exact htop b hb
    · rw [deframeBits_append, hd30, List.length_append, hw, hbits, List.length_cons]; omega
    · obtain ⟨e₁, e₂, rfl, he₁⟩ : ∃ e₁ e₂, e = e₁ ++ e₂ ∧ e₁.length = 30 :=
        ⟨e.take 30, e.drop 30, (List.take_append_drop 30 e).symm, by
          rw [List.length_take, he, List.length_cons]; omega⟩
      rw [List.length_append, List.length_cons] at he
      rw [List.count_append] at h3 ⊢
      have hz : (List.zipWith (· ^^ ·) (wordBits (toBits 24 w) s29 s30) e₁).length = 30 := by
        rw [List.length_zipWith, hw, he₁, Nat.min_self]
      rw [deframeBits_append, hd30, List.zipWith_append (by rw [hw, he₁]), List.length_cons, badWords,
        List.take_left' hz, List.drop_left' hz, Nat.add_eq_zero_iff, Nat.add_eq_zero_iff]
      simp only [ite_eq_left_iff, one_ne_zero, imp_false, not_not, word_check hl he₁ (by omega)]
      refine and_congr_right fun h0 => ?_
      -- no bit of this word is flipped, so the next word's seeds are those it was sent with
      have hsame : List.zipWith (· ^^ ·) (wordBits (toBits 24 w) s29 s30) e₁ = wordBits (toBits 24 w) s29 s30 := by
        rw [eq_replicate_of_count (he₁.trans hw.symm) h0, zipWith_xor_replicate]
        simp
      have hp := getD_wordBits hl s29 s30 []
      rw [List.append_nil] at hp
      rw [hsame, hp 4 (by decide), hp 5 (by decide)]
      exact hcheck e₂ (by omega) (by omega)

/-! ## Wire bytes -/

/-- The data bits that a mask of a wire byte's low six bits flips. -/
def flippedBits (m : UInt8) : List Bool := (List.range 6).map m.toNat.testBit

theorem byte_table : ∀ n < 256,
    (UInt8.ofNat n &&& 0xC0 = 0x40 → deframeByte (UInt8.ofNat n) = flippedBits (UInt8.ofNat n)) ∧
    (UInt8.ofNat n &&& 0xC0 = 0 → (flippedBits (UInt8.ofNat n)).count true = popcount n) := by decide +kernel

theorem deframeByte_eq {b : UInt8} (h : b &&& 0xC0 = 0x40) : deframeByte b = flippedBits b := by
  have hb := (byte_table b.toNat b.toNat_lt).1
  rw [UInt8.ofNat_toNat] at hb
  exact hb h

theorem flippedBits_count {m : UInt8} (h : m &&& 0xC0 = 0) : (flippedBits m).count true = popcount m.toNat := by
  have hm := (byte_table m.toNat m.toNat_lt).2
  rw [UInt8.ofNat_toNat] at hm
  exact hm h

@[simp] theorem length_flippedBits (m : UInt8) : (flippedBits m).length = 6 := by simp [flippedBits]

theorem deframeByte_xor {b m : UInt8} (hb : b &&& 0xC0 = 0x40) (hm : m &&& 0xC0 = 0) :
    deframeByte (b ^^^ m) = List.zipWith (· ^^ ·) (deframeByte b) (flippedBits m) := by
  have hdist : (b ^^^ m) &&& 0xC0 = (b &&& 0xC0) ^^^ (m &&& 0xC0) := by
    rw [← UInt8.toNat_inj]
    simp only [UInt8.toNat_and, UInt8.toNat_xor, Nat.and_xor_distrib_right]
  have hx : (b ^^^ m) &&& 0xC0 = 0x40 := by rw [hdist, hb, hm, UInt8.xor_zero]
  rw [deframeByte_eq hx, deframeByte_eq hb, flippedBits, flippedBits, flippedBits, List.zipWith_map, List.zipWith_self,
    UInt8.toNat_xor]
  exact List.map_congr_left fun k _ => Nat.testBit_xor b.toNat m.toNat k

theorem deframeBits_flip {out masks : List UInt8} (hl : masks.length = out.length) (hb : ∀ b ∈ out, b &&& 0xC0 = 0x40)
    (hm : ∀ m ∈ masks, m &&& 0xC0 = 0) :
    deframeBits (List.zipWith (· ^^^ ·) out masks) =
      List.zipWith (· ^^ ·) (deframeBits out) (masks.flatMap flippedBits) ∧
    (masks.flatMap flippedBits).length = (deframeBits out).length := by
  induction out generalizing masks with
  | nil =>
    rw [List.length_eq_zero_iff.mp hl]
    exact ⟨rfl, rfl⟩
  | cons b out ih =>
    cases masks with
    | nil => cases hl
    | cons m masks =>
      rw [List.forall_mem_cons] at hb hm
      have hlen : (deframeByte b).length = 6 := by rw [deframeByte_eq hb.1, length_flippedBits]
      obtain ⟨hbits, hlength⟩ := ih (by simpa using hl) hb.2 hm.2
      have hcons : deframeBits (b :: out) = deframeByte b ++ deframeBits out := rfl
      have hcons' : deframeBits (List.zipWith (· ^^^ ·) (b :: out) (m :: masks)) =
          deframeByte (b ^^^ m) ++ deframeBits (List.zipWith (· ^^^ ·) out masks) := rfl
      rw [hcons, hcons', List.flatMap_cons, deframeByte_xor hb.1 hm.1, hbits,
        List.zipWith_append (hlen.trans (length_flippedBits m).symm), List.length_append, List.length_append, hlength,
        hlen, length_flippedBits]
      exact ⟨rfl, rfl⟩

/-- The checker, started with the seeds of the encoder, finds no bad word in
what the encoder sent, and at least one if one, two or three bits are flipped
on the way, anywhere. -/
theorem corruption_detected (ws : List Nat) (d29 d30 : Bool) :
    ∃ out enc, Rtcm2Encoder.encodeWords ⟨d29.toNat, d30.toNat⟩ ws = (.ok out, enc) ∧
      parityViolations d29 d30 out = 0 ∧
      ∀ flips : Flips out.length, 1 ≤ flips.count → flips.count ≤ 3 →
        0 < parityViolations d29 d30 (flips.apply out) := by
  obtain ⟨out, t29, t30, henc, htop, hbits, hcheck⟩ := encodeWords_check ws d29 d30
  have hn : 30 * ws.length / 30 = ws.length := Nat.mul_div_cancel_left _ (by decide)
  refine ⟨out, _, henc, ?_, fun flips h1 h3 => ?_⟩
  · have hzero := (hcheck (List.replicate (30 * ws.length) false) (by simp) (by simp [List.count_replicate])).mpr
      (by simp [List.count_replicate])
    rw [← hbits, zipWith_xor_replicate] at hzero
    rw [parityViolations, hbits, hn]
    simpa using hzero
  · obtain ⟨hflip, hlen⟩ := deframeBits_flip flips.length htop flips.low
    have hcount : (flips.masks.flatMap flippedBits).count true = flips.count := by
      rw [List.count_flatMap, Flips.count]
      exact congrArg List.sum (List.map_congr_left fun m hm => flippedBits_count (flips.low m hm))
    rw [parityViolations, Flips.apply, hflip, List.length_zipWith, hlen, Nat.min_self, hbits, hn, Nat.pos_iff_ne_zero]
    intro hz
    have h0 := (hcheck _ (hlen.trans hbits) (by omega)).mp hz
    omega

end Rtcm.Proof
