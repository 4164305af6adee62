import Rtcm3to2p3.Impl.Rtcm2

/-!
# What the PRC and RRC fields say

A receiver multiplies the two counts by the LSBs of the scale factor bit
(`decodePrcRrc`). A field is right for a value (`Quantises`) when it is within
half an LSB of it, or saturated, at the coarse scale, when the value is beyond
that scale's range.
-/

namespace Rtcm.Spec

open Rtcm.Impl

variable {K : Type} [Field K] [LinearOrder K] [FloorRing K]

/-- The metres and metres per second of the scale factor bit and the counts. -/
def decodePrcRrc (fields : Int × Int × Int) : K × K :=
  (fields.2.1 * PRC_SCALE K fields.1, fields.2.2 * RRC_SCALE K fields.1)

/-- `m` LSBs of scale `s` for `x`, of at most `max`. -/
structure Quantises (lsb : Int → K) (max : Int) (x : K) (s m : Int) : Prop where
  nearest : |HalfEven.round (x / lsb 1)| ≤ max → |m * lsb s - x| ≤ 0.5 * lsb s
  saturated : ¬ |HalfEven.round (x / lsb 1)| ≤ max →
    s = 1 ∧ (0 < x ∧ m = max ∨ x < 0 ∧ m = -max) ∧
      ∀ t m' : Int, |m'| ≤ max → |m * lsb s - x| ≤ |m' * lsb t - x|

end Rtcm.Spec
