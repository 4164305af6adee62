import Rtcm3to2p3.Lib.Quantise
import Rtcm3to2p3.Proof.Pack
import Rtcm3to2p3.Spec.Quantiser
import Mathlib.Data.Rat.Floor

/-!
# The PRC/RRC quantiser

`_encode_prc_rrc` is two saturating quantisers that share a scale factor bit:
fine when both values fit it, else coarse (`encodePrcRrc_fine`,
`encodePrcRrc_coarse`). A coarse LSB is sixteen fine ones (`prcScale_coarse`,
`rrcScale_coarse`) and both ranges are one short of a multiple of sixteen, so
what is beyond the fine range is still beyond it once quantised. Hence a field
is right for its value (`quantises_fine`, `quantises_coarse`), the decoded PRC
grows with the PRC (`decodePrcRrc_mono`) and the decoded pair is encoded as it
was (`encodePrcRrc_decode`).
-/

namespace Rtcm.Proof

open Rtcm.Impl Rtcm.Spec

variable {K : Type} [Field K] [LinearOrder K] [FloorRing K]

/-- Both values fit the fine scale. -/
def Fine (prc rrc : K) : Prop :=
  Quantise.Fits (PRC_SCALE K 0) PRC_MAX prc ∧ Quantise.Fits (RRC_SCALE K 0) RRC_MAX rrc

theorem encodePrcRrc_fine {prc rrc : K} (h : Fine prc rrc) : encodePrcRrc prc rrc =
    (0, Quantise.counts (PRC_SCALE K 0) PRC_MAX prc, Quantise.counts (RRC_SCALE K 0) RRC_MAX rrc) := by
  rw [Quantise.counts_of_fits h.1, Quantise.counts_of_fits h.2]
  exact if_pos h

theorem encodePrcRrc_coarse {prc rrc : K} (h : ¬ Fine prc rrc) : encodePrcRrc prc rrc =
    (1, Quantise.counts (PRC_SCALE K 1) PRC_MAX prc, Quantise.counts (RRC_SCALE K 1) RRC_MAX rrc) := by
  refine (if_neg h).trans (ite_eq_right_iff.mpr fun h1 => ?_)
  exact Prod.ext rfl (Prod.ext (Quantise.counts_of_fits h1.1).symm (Quantise.counts_of_fits h1.2).symm)

theorem fine_iff (prc rrc : K) : (encodePrcRrc prc rrc).1 = 0 ↔ Fine prc rrc := by
  by_cases h : Fine prc rrc
  · rw [encodePrcRrc_fine h]
    exact iff_of_true rfl h
  · rw [encodePrcRrc_coarse h]
    exact iff_of_false one_ne_zero h

/-! ## A field's two scales -/

/-- A coarse LSB is sixteen fine ones, and the range is one short of a multiple of sixteen. -/
structure Scales (lsb : Int → K) (max : Int) : Prop where
  pos : ∀ s, 0 < lsb s
  le : ∀ s, lsb s ≤ lsb 1
  coarse : lsb 1 = (16 : Int) * lsb 0
  range : max + 1 = 16 * ((max + 1) / 16)
  le_range : (max + 1) / 16 ≤ max

variable [IsStrictOrderedRing K]

omit [FloorRing K] in
theorem prcScales : Scales (PRC_SCALE K) PRC_MAX where
  pos s := by unfold PRC_SCALE; split_ifs <;> norm_num
  le s := by rw [PRC_SCALE, PRC_SCALE, if_neg one_ne_zero]; split_ifs <;> norm_num
  coarse := by norm_num [PRC_SCALE]
  range := by decide
  le_range := by decide

omit [FloorRing K] in
theorem rrcScales : Scales (RRC_SCALE K) RRC_MAX where
  pos s := by unfold RRC_SCALE; split_ifs <;> norm_num
  le s := by rw [RRC_SCALE, RRC_SCALE, if_neg one_ne_zero]; split_ifs <;> norm_num
  coarse := by norm_num [RRC_SCALE]
  range := by decide
  le_range := by decide

namespace Scales

variable {lsb : Int → K} {max : Int} {x y : K} (h : Scales lsb max)
include h

omit [FloorRing K] [IsStrictOrderedRing K] in
theorem zero_le : 0 ≤ max := zero_le_one.trans (Quantise.one_le_range (by decide) h.range h.le_range)

theorem quantises_fine (hx : Quantise.Fits (lsb 0) max x) :
    Quantises lsb max x 0 (Quantise.counts (lsb 0) max x) where
  nearest _ := (Quantise.abs_counts_mul_sub_le (h.pos 0) hx).trans_eq (by ring)
  saturated hc := by
    refine absurd ?_ hc
    rw [h.coarse]
    exact Quantise.fits_coarser (by decide) h.range h.le_range hx

theorem quantises_coarse : Quantises lsb max x 1 (Quantise.counts (lsb 1) max x) where
  nearest hx := (Quantise.abs_counts_mul_sub_le (h.pos 1) hx).trans_eq (by ring)
  saturated hx := by
    have hmax : (0 : K) ≤ max := by exact_mod_cast h.zero_le
    have hlim : 0 ≤ max * lsb 1 := mul_nonneg hmax (h.pos 1).le
    refine ⟨rfl, ?_, fun t m' hm' => Quantise.abs_saturated_sub_le (h.pos 1) h.zero_le hx ?_⟩
    · rcases Quantise.saturated (h.pos 1) h.zero_le hx with ⟨hx, hc⟩ | ⟨hx, hc⟩
      · exact .inl ⟨by linarith, hc⟩
      · exact .inr ⟨by linarith, hc⟩
    · rw [abs_mul, abs_of_pos (h.pos t)]
      exact mul_le_mul (by exact_mod_cast hm') (h.le t) (h.pos t).le hmax

/-- What is beyond the fine range is still beyond it once decoded. -/
theorem not_fits_decoded (hx : ¬ Quantise.Fits (lsb 0) max x) :
    ¬ Quantise.Fits (lsb 0) max (Quantise.counts (lsb 1) max x * lsb 1) := by
  rw [h.coarse]
  exact Quantise.not_fits_coarser (by decide) h.range h.le_range (h.pos 0) hx

theorem decoded_mono (s : Int) (hxy : x ≤ y) :
    Quantise.counts (lsb s) max x * lsb s ≤ Quantise.counts (lsb s) max y * lsb s :=
  mul_le_mul_of_nonneg_right (by exact_mod_cast Quantise.counts_mono (h.pos s) hxy) (h.pos s).le

theorem fine_le_coarse (hxy : x ≤ y) (hx : Quantise.Fits (lsb 0) max x) (hy : ¬ Quantise.Fits (lsb 0) max y) :
    Quantise.counts (lsb 0) max x * lsb 0 ≤ Quantise.counts (lsb 1) max y * lsb 1 := by
  rw [h.coarse]
  exact Quantise.mul_le_coarser (by decide) h.range h.le_range (h.pos 0) hxy hx hy

theorem coarse_le_fine (hxy : x ≤ y) (hx : ¬ Quantise.Fits (lsb 0) max x) (hy : Quantise.Fits (lsb 0) max y) :
    Quantise.counts (lsb 1) max x * lsb 1 ≤ Quantise.counts (lsb 0) max y * lsb 0 := by
  rw [h.coarse]
  exact Quantise.coarser_le_mul (by decide) h.range h.le_range (h.pos 0) hxy hx hy

theorem fits_counts (s : Int) : Quantise.Fits (lsb s) max (Quantise.counts (lsb s) max x * lsb s) :=
  (Quantise.fits_mul (h.pos s)).mpr (Quantise.abs_counts_le h.zero_le x)

theorem counts_decoded (s : Int) :
    Quantise.counts (lsb s) max (Quantise.counts (lsb s) max x * lsb s) = Quantise.counts (lsb s) max x :=
  Quantise.counts_mul (h.pos s) (Quantise.abs_counts_le h.zero_le x)

end Scales

/-! ## The pair -/

theorem quantises_prc (prc rrc : K) :
    Quantises (PRC_SCALE K) PRC_MAX prc (encodePrcRrc prc rrc).1 (encodePrcRrc prc rrc).2.1 := by
  by_cases h : Fine prc rrc
  · rw [encodePrcRrc_fine h]
    exact prcScales.quantises_fine h.1
  · rw [encodePrcRrc_coarse h]
    exact prcScales.quantises_coarse

theorem quantises_rrc (prc rrc : K) :
    Quantises (RRC_SCALE K) RRC_MAX rrc (encodePrcRrc prc rrc).1 (encodePrcRrc prc rrc).2.2 := by
  by_cases h : Fine prc rrc
  · rw [encodePrcRrc_fine h]
    exact rrcScales.quantises_fine h.2
  · rw [encodePrcRrc_coarse h]
    exact rrcScales.quantises_coarse

theorem decodePrcRrc_mono (rrc : K) {prc prc' : K} (hle : prc ≤ prc') :
    (decodePrcRrc (encodePrcRrc prc rrc) : K × K).1 ≤ (decodePrcRrc (encodePrcRrc prc' rrc) : K × K).1 := by
  by_cases h : Fine prc rrc <;> by_cases h' : Fine prc' rrc
  · rw [encodePrcRrc_fine h, encodePrcRrc_fine h']
    exact prcScales.decoded_mono 0 hle
  · -- the RRC fits the fine scale, so it is the PRC that does not
    rw [encodePrcRrc_fine h, encodePrcRrc_coarse h']
    exact prcScales.fine_le_coarse hle h.1 fun hp => h' ⟨hp, h.2⟩
  · rw [encodePrcRrc_coarse h, encodePrcRrc_fine h']
    exact prcScales.coarse_le_fine hle (fun hp => h ⟨hp, h'.2⟩) h'.1
  · rw [encodePrcRrc_coarse h, encodePrcRrc_coarse h']
    exact prcScales.decoded_mono 1 hle

theorem encodePrcRrc_decode (prc rrc : K) :
    encodePrcRrc (decodePrcRrc (encodePrcRrc prc rrc) : K × K).1 (decodePrcRrc (encodePrcRrc prc rrc) : K × K).2 =
      encodePrcRrc prc rrc := by
  by_cases h : Fine prc rrc
  · have hdec : Fine (Quantise.counts (PRC_SCALE K 0) PRC_MAX prc * PRC_SCALE K 0)
        (Quantise.counts (RRC_SCALE K 0) RRC_MAX rrc * RRC_SCALE K 0) :=
      ⟨prcScales.fits_counts 0, rrcScales.fits_counts 0⟩
    rw [encodePrcRrc_fine h]
    refine (encodePrcRrc_fine hdec).trans ?_
    rw [prcScales.counts_decoded, rrcScales.counts_decoded]
  · have hdec : ¬ Fine (Quantise.counts (PRC_SCALE K 1) PRC_MAX prc * PRC_SCALE K 1)
        (Quantise.counts (RRC_SCALE K 1) RRC_MAX rrc * RRC_SCALE K 1) := fun hd =>
      h ⟨by_contra fun hp => prcScales.not_fits_decoded hp hd.1, by_contra fun hr => rrcScales.not_fits_decoded hr hd.2⟩
    rw [encodePrcRrc_coarse h]
    refine (encodePrcRrc_coarse hdec).trans ?_
    rw [prcScales.counts_decoded, rrcScales.counts_decoded]

/-- Neither field is ever the reserved value, the scale is fine exactly when
both values fit it, each field is right for its value, the decoded PRC does
not fall as the PRC grows, and the decoded pair is encoded as it was. -/
theorem encodePrcRrc_quantises (prc rrc : K) :
    |(encodePrcRrc prc rrc).2.1| ≤ 32767 ∧ |(encodePrcRrc prc rrc).2.2| ≤ 127 ∧
      ((encodePrcRrc prc rrc).1 = 0 ∨ (encodePrcRrc prc rrc).1 = 1) ∧
      ((encodePrcRrc prc rrc).1 = 0 ↔
        |HalfEven.round (prc / PRC_SCALE K 0)| ≤ 32767 ∧ |HalfEven.round (rrc / RRC_SCALE K 0)| ≤ 127) ∧
      Quantises (PRC_SCALE K) 32767 prc (encodePrcRrc prc rrc).1 (encodePrcRrc prc rrc).2.1 ∧
      Quantises (RRC_SCALE K) 127 rrc (encodePrcRrc prc rrc).1 (encodePrcRrc prc rrc).2.2 ∧
      (∀ prc', prc ≤ prc' →
        (decodePrcRrc (encodePrcRrc prc rrc) : K × K).1 ≤ (decodePrcRrc (encodePrcRrc prc' rrc) : K × K).1) ∧
      encodePrcRrc (decodePrcRrc (encodePrcRrc prc rrc) : K × K).1
        (decodePrcRrc (encodePrcRrc prc rrc) : K × K).2 = encodePrcRrc prc rrc := by
  obtain ⟨hs, hp, hr⟩ := encodePrcRrc_range prc rrc
  exact ⟨hp, hr, hs, fine_iff prc rrc, quantises_prc prc rrc, quantises_rrc prc rrc,
    fun _ => decodePrcRrc_mono rrc, encodePrcRrc_decode prc rrc⟩

/-- A PRC that needs the coarse scale and an RRC beyond it. -/
theorem encodePrcRrc_quantises_coarse :
    |(encodePrcRrc (1000 : ℚ) 5).2.1| ≤ 32767 ∧ |(encodePrcRrc (1000 : ℚ) 5).2.2| ≤ 127 ∧
      ((encodePrcRrc (1000 : ℚ) 5).1 = 0 ∨ (encodePrcRrc (1000 : ℚ) 5).1 = 1) ∧
      ((encodePrcRrc (1000 : ℚ) 5).1 = 0 ↔
        |HalfEven.round ((1000 : ℚ) / PRC_SCALE ℚ 0)| ≤ 32767 ∧ |HalfEven.round ((5 : ℚ) / RRC_SCALE ℚ 0)| ≤ 127) ∧
      Quantises (PRC_SCALE ℚ) 32767 1000 (encodePrcRrc (1000 : ℚ) 5).1 (encodePrcRrc (1000 : ℚ) 5).2.1 ∧
      Quantises (RRC_SCALE ℚ) 127 5 (encodePrcRrc (1000 : ℚ) 5).1 (encodePrcRrc (1000 : ℚ) 5).2.2 ∧
      (∀ prc' : ℚ, 1000 ≤ prc' →
        (decodePrcRrc (encodePrcRrc (1000 : ℚ) 5) : ℚ × ℚ).1 ≤ (decodePrcRrc (encodePrcRrc prc' 5) : ℚ × ℚ).1) ∧
      encodePrcRrc (decodePrcRrc (encodePrcRrc (1000 : ℚ) 5) : ℚ × ℚ).1
        (decodePrcRrc (encodePrcRrc (1000 : ℚ) 5) : ℚ × ℚ).2 = encodePrcRrc (1000 : ℚ) 5 :=
  encodePrcRrc_quantises 1000 5

end Rtcm.Proof
