import Rtcm3to2p3.Spec.Threads

/-!
# What an interrupted call returns

A call of `corrections` beside the ephemeris thread, against the same call on a
table that nobody writes to.
-/

namespace Rtcm.Spec

open Rtcm.Impl

variable {K : Type}

/-- The generator with another table of ephemerides. -/
def withTable (gen : DgpsGenerator K) (table : Dict Int (Ephemeris K)) : DgpsGenerator K :=
  { gen with ephemerides := table }

/-- What was read for these satellites. -/
def readTable (read : Int → Option (Ephemeris K)) (prns : List Int) : Dict Int (Ephemeris K) :=
  prns.foldl (fun d prn => (read prn).elim d (d.set prn)) ∅

/-- The generator on the ephemerides that a call's first loop has read. -/
def frozenTo (gen : DgpsGenerator K) (pseudoranges : Dict Int K) (call : Threads K) : DgpsGenerator K :=
  withTable gen (readTable call.read (pseudoranges.items.map Prod.fst))

/-- The same correction, but for the issue of data. -/
def Reissued (c c' : Correction K) : Prop := c' = { c with iod := c'.iod }

/-- The same result, but for the issues of data. -/
inductive Alike : Py (List (Correction K)) → Py (List (Correction K)) → Prop
  | raised (e : PyError) : Alike (.error e) (.error e)
  | returned (out out' : List (Correction K)) (h : List.Forall₂ Reissued out out') : Alike (.ok out) (.ok out')

end Rtcm.Spec
