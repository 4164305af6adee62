import Rtcm3to2p3.Lib.BitString
import Mathlib.Data.List.Nodup
import Mathlib.Data.Nat.Bitwise

/-!
# Linear checks

The syndrome of an error is the exclusive or of the columns at its ones.

* `testBit_syndrome`: row by row;
* `syndrome_ne_zero`: if the columns are distinct, and a functional is one on
  each of them, no error of one, two or three bits has a zero syndrome.
-/

namespace ParityCheck

open BitString

/-- The exclusive or of the columns where `e` has a one. -/
def syndrome : List Nat → List Bool → Nat
  | c :: cols, b :: e => (if b then c else 0) ^^^ syndrome cols e
  | _, _ => 0

theorem testBit_syndrome (cols : List Nat) (e : List Bool) (k : Nat) :
    (syndrome cols e).testBit k = parity (List.zipWith (· && ·) e (cols.map (·.testBit k))) := by
  induction cols generalizing e with
  | nil => cases e <;> simp [syndrome]
  | cons c cols ih =>
    cases e with
    | nil => simp [syndrome]
    | cons b e =>
      rw [syndrome, Nat.testBit_xor, ih]
      cases b <;> simp

theorem syndrome_lt {n : Nat} {cols : List Nat} (h : ∀ c ∈ cols, c < 2 ^ n) (e : List Bool) :
    syndrome cols e < 2 ^ n := by
  induction cols generalizing e with
  | nil => cases e <;> exact Nat.two_pow_pos n
  | cons c cols ih =>
    cases e with
    | nil => exact Nat.two_pow_pos n
    | cons b e =>
      refine Nat.xor_lt_two_pow ?_ (ih (fun c hc => h c (List.mem_cons_of_mem _ hc)) e)
      cases b
      · exact Nat.two_pow_pos n
      · exact h c List.mem_cons_self

theorem syndrome_count_zero (cols : List Nat) {e : List Bool} (h : e.count true = 0) : syndrome cols e = 0 := by
  induction cols generalizing e with
  | nil => cases e <;> rfl
  | cons c cols ih =>
    cases e with
    | nil => rfl
    | cons b e =>
      cases b
      · rw [syndrome, if_neg (by decide), Nat.zero_xor]
        exact ih (by simpa using h)
      · simp at h

theorem syndrome_count_one {cols : List Nat} {e : List Bool} (hl : e.length = cols.length) (h : e.count true = 1) :
    syndrome cols e ∈ cols := by
  induction cols generalizing e with
  | nil => simp [List.length_eq_zero_iff.mp hl] at h
  | cons c cols ih =>
    cases e with
    | nil => cases hl
    | cons b e =>
      cases b
      · rw [syndrome, if_neg (by decide), Nat.zero_xor]
        exact List.mem_cons_of_mem _ (ih (by simpa using hl) (by simpa using h))
      · rw [syndrome, if_pos rfl, syndrome_count_zero cols (by simpa using h), Nat.xor_zero]
        exact List.mem_cons_self

theorem syndrome_count_two {cols : List Nat} (hn : cols.Nodup) {e : List Bool} (hl : e.length = cols.length)
    (h : e.count true = 2) : syndrome cols e ≠ 0 := by
  induction cols generalizing e with
  | nil => simp [List.length_eq_zero_iff.mp hl] at h
  | cons c cols ih =>
    rw [List.nodup_cons] at hn
    cases e with
    | nil => cases hl
    | cons b e =>
      cases b
      · rw [syndrome, if_neg (by decide), Nat.zero_xor]
        exact ih hn.2 (by simpa using hl) (by simpa using h)
      -- the other one's column is another one
      · have hm := syndrome_count_one (by simpa using hl) (show e.count true = 1 by simpa using h)
        rw [syndrome, if_pos rfl, Ne, Nat.xor_eq_zero_iff]
        exact fun he => hn.1 (he ▸ hm)

/-- A functional that is one on each column counts the ones. -/
theorem functional_syndrome {f : Nat → Bool} (h0 : f 0 = false) (hadd : ∀ a b, f (a ^^^ b) = (f a ^^ f b))
    {cols : List Nat} (hc : ∀ c ∈ cols, f c = true) {e : List Bool} (hl : e.length = cols.length) :
    f (syndrome cols e) = decide (e.count true % 2 = 1) := by
  induction cols generalizing e with
  | nil => rw [List.length_eq_zero_iff.mp hl]; exact h0
  | cons c cols ih =>
    cases e with
    | nil => cases hl
    | cons b e =>
      rw [syndrome, hadd, ih (fun c hc' => hc c (List.mem_cons_of_mem _ hc')) (by simpa using hl)]
      cases b
      · simp [h0]
      · rw [if_pos rfl, hc c List.mem_cons_self, List.count_cons_self]
        rcases Nat.mod_two_eq_zero_or_one (e.count true) with h | h <;> simp [Nat.add_mod, h]

theorem syndrome_ne_zero {f : Nat → Bool} (h0 : f 0 = false) (hadd : ∀ a b, f (a ^^^ b) = (f a ^^ f b))
    {cols : List Nat} (hc : ∀ c ∈ cols, f c = true) (hn : cols.Nodup) {e : List Bool}
    (hl : e.length = cols.length) (h1 : 1 ≤ e.count true) (h3 : e.count true ≤ 3) : syndrome cols e ≠ 0 := by
  by_cases h : e.count true = 2
  · exact syndrome_count_two hn hl h
  · intro hz
    have hodd := functional_syndrome h0 hadd hc hl
    rw [hz, h0] at hodd
    have : e.count true % 2 ≠ 1 := by simpa using hodd.symm
    omega

end ParityCheck
