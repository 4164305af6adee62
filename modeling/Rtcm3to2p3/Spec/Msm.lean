import Rtcm3to2p3.Impl.Dgps
import Rtcm3to2p3.Impl.Rtcm3Input

/-!
# GPS MSM7 messages

The content of a message 1077 (`Msm7`): the satellites and the signals of its
masks, the cells of its cell mask, a rough range for every satellite and a
fine one for every cell. pyrtcm numbers the satellites in the order of their
mask and the cells row by row (`Msm7.flatten`). It has no number for id 64,
and a message of which that number is read raises (`Readable`).
-/

namespace Rtcm.Spec

open Rtcm.Impl

/-- The first loop is over the satellites and the second one over the cells, so
their attributes are as many. -/
structure Attributes {K : Type} (m : Msg1077 K) : Prop where
  satellites : m.DF397.length = m.PRN.length ∧ m.DF398.length = m.PRN.length
  cells : m.CELLPRN.length = m.DF405.length ∧ m.CELLSIG.length = m.DF405.length

/-- No satellite number that is read is missing: a satellite without one has no
rough range, and no L1 C/A cell with a fine one. -/
structure Readable {K : Type} (m : Msg1077 K) : Prop where
  satellites : ∀ ms, (none, ms) ∈ m.PRN.zip m.DF397 → 255 ≤ ms
  cells : ∀ fine, (none, L1CA, some fine) ∉ m.CELLPRN.zip (m.CELLSIG.zip m.DF405)

structure Msm7 where
  /-- DF004, milliseconds of the week. -/
  epoch : Nat
  /-- The ids of the satellite mask. -/
  satellites : List Int
  mask : ∀ id ∈ satellites, 1 ≤ id ∧ id ≤ 64
  ascending : satellites.Pairwise (· < ·)
  signals : List String
  distinct : signals.Nodup
  cellMask : Int → String → Bool
  DF397 : Int → Fin (2 ^ 8)
  DF398 : Int → Fin (2 ^ 10)
  DF405 : Int → String → BitVec 20

namespace Msm7

variable (m : Msm7)

/-- The cells of a satellite's row. -/
def row (prn : Int) : List (Int × String) := (m.signals.filter (m.cellMask prn)).map fun sig => (prn, sig)

def cells : List (Int × String) := m.satellites.flatMap m.row

/-- The number pyrtcm gives a satellite. -/
def number (id : Int) : Option Int := if id = 64 then none else some id

/-- Id 64 is not read. -/
def Readable : Prop := 64 ∈ m.satellites → (m.DF397 64 : Nat) = 255 ∧ (64, L1CA) ∉ m.cells

variable (K : Type) [Field K]

/-- The rough range modulo a millisecond, in units of `2⁻¹⁰` ms. -/
def modMs (prn : Int) : K := (m.DF398 prn : Nat) / (2 ^ 10 : Nat)

/-- The fine pseudorange, a signed number of `2⁻²⁹` ms. -/
def fineMs (prn : Int) (sig : String) : K := (m.DF405 prn sig).toInt / (2 ^ 29 : Nat)

/-- The attributes of the message. -/
def flatten : Msg1077 K where
  DF004 := m.epoch
  PRN := m.satellites.map number
  DF397 := m.satellites.map fun prn => (m.DF397 prn : Nat)
  DF398 := m.satellites.map (m.modMs K)
  CELLPRN := m.cells.map fun cell => number cell.1
  CELLSIG := m.cells.map Prod.snd
  DF405 := m.cells.map fun cell => some (m.fineMs K cell.1 cell.2)

end Msm7

/-- The code for a fine pseudorange that is not available, `-2¹⁹`. -/
def FINE_NOT_AVAILABLE : BitVec 20 := BitVec.intMin 20

/-- The satellite's L1 C/A cell has no fine pseudorange. -/
def Msm7.NoFine (m : Msm7) (prn : Int) : Prop := (prn, L1CA) ∈ m.cells ∧ m.DF405 prn L1CA = FINE_NOT_AVAILABLE

/-- The message gives the satellite no pseudorange, and no generator gets a
raw correction for it. -/
def Msm7.Unranged (K : Type) [Field K] [LinearOrder K] [PyMath K] (m : Msm7) (prn : Int) : Prop :=
  ∀ (tow : K) (pseudoranges : Dict Int K), parseGpsMsm7 (m.flatten K) = .ok (tow, pseudoranges) →
    pseudoranges.get? prn = none ∧
      ∀ (gen : DgpsGenerator K) (base : K × K × K) (raw : Dict Int K),
        gen.rawCorrections base tow pseudoranges = .ok raw → raw.get? prn = none

end Rtcm.Spec
