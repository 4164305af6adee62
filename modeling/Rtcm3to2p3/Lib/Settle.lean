import Mathlib.Topology.MetricSpace.Contracting

/-!
# Fixed-point iteration with a tolerance and a limit

`settle f close n x` applies `f` until a value is close to the one before it,
`n` times at most. It stops at the first close step if there is one among the
`n` (`settle_cases`, `settle_settles`).

If `f` is Lipschitz, the step from the result is short either way: one factor
below the tolerance, or `n` factors below the first step (`dist_settle_le`).
For a contraction that bounds the distance to the fixed point
(`dist_settle_fixedPoint_le`), and steps that shrink to the tolerance within
the limit end the iteration before it (`settle_settles_of_pow`).
-/

namespace Settle

open NNReal

section

variable {α : Type*} (f : α → α) (close : α → α → Prop) [DecidableRel close]

/-- Applies `f` until a value is close to the one before it, `n` times at most. -/
def settle : Nat → α → α
  | 0, x => x
  | n + 1, x => if close (f x) x then f x else settle n (f x)

/-- The steps from `x` before step `k` are not close. -/
def Far (x : α) (k : Nat) : Prop := ∀ j < k, ¬ close (f^[j + 1] x) (f^[j] x)

/-- Step `k` from `x` is the first close one. -/
def StopsAt (x : α) (k : Nat) : Prop := Far f close x k ∧ close (f^[k + 1] x) (f^[k] x)

variable {f close} {x : α} {n k : Nat}

omit [DecidableRel close] in
theorem Far.head (h : Far f close x (k + 1)) : ¬ close (f x) x := h 0 k.succ_pos

omit [DecidableRel close] in
theorem Far.tail (h : Far f close x (k + 1)) : Far f close (f x) k := fun j hj => h (j + 1) (by omega)

theorem settle_of_far (h : Far f close x n) : settle f close n x = f^[n] x := by
  induction n generalizing x with
  | zero => rfl
  | succ n ih => rw [settle, if_neg h.head, ih h.tail, Function.iterate_succ_apply]

theorem settle_of_stopsAt (h : StopsAt f close x k) (hk : k < n) : settle f close n x = f^[k + 1] x := by
  induction k generalizing n x with
  | zero =>
    obtain ⟨m, rfl⟩ := Nat.exists_eq_add_one.mpr hk
    exact if_pos h.2
  | succ k ih =>
    obtain ⟨m, rfl⟩ := Nat.exists_eq_add_one.mpr (k.succ_pos.trans hk)
    rw [settle, if_neg h.1.head, ih ⟨h.1.tail, h.2⟩ (by omega)]
    exact (Function.iterate_succ_apply f (k + 1) x).symm

variable (f close x n)

theorem settle_cases :
    (∃ k < n, StopsAt f close x k ∧ settle f close n x = f^[k + 1] x) ∨
      (Far f close x n ∧ settle f close n x = f^[n] x) := by
  classical
  by_cases h : Far f close x n
  · exact .inr ⟨h, settle_of_far h⟩
  · have hex : ∃ k, k < n ∧ close (f^[k + 1] x) (f^[k] x) := by
      simpa only [Far, not_forall, not_not, exists_prop] using h
    have hstop : StopsAt f close x (Nat.find hex) := by
      refine ⟨fun j hj hc => Nat.find_min hex hj ⟨?_, hc⟩, (Nat.find_spec hex).2⟩
      exact hj.trans (Nat.find_spec hex).1
    exact .inl ⟨_, (Nat.find_spec hex).1, hstop, settle_of_stopsAt hstop (Nat.find_spec hex).1⟩

variable {f close x n}

theorem settle_settles (hk : k < n) (h : close (f^[k + 1] x) (f^[k] x)) :
    ∃ k < n, StopsAt f close x k ∧ settle f close n x = f^[k + 1] x :=
  (settle_cases f close x n).resolve_right fun hfar => hfar.1 k hk h

end

/-! ## Lipschitz functions -/

section

variable {α : Type*} {K : ℝ≥0} {f : α → α} {close : α → α → Prop} [DecidableRel close]
  {x : α} {tol : ℝ} {n k : Nat}

theorem dist_settle_le [PseudoMetricSpace α] (hf : LipschitzWith K f) (hclose : ∀ y z, close y z → dist y z ≤ tol) :
    dist (settle f close n x) (f (settle f close n x)) ≤ max (K * tol) (dist x (f x) * K ^ n) := by
  rcases settle_cases f close x n with ⟨k, -, hstop, heq⟩ | ⟨-, heq⟩
  · have hstep : f (f^[k] x) = f^[k + 1] x := (Function.iterate_succ_apply' f k x).symm
    have hprev := hclose _ _ hstop.2
    rw [dist_comm, ← hstep] at hprev
    rw [heq, ← hstep]
    exact le_max_of_le_left (hf.dist_le_mul_of_le hprev)
  · rw [heq, ← Function.iterate_succ_apply' f n x]
    exact le_max_of_le_right (hf.dist_iterate_succ_le_geometric x n)

theorem settle_settles_of_pow [PseudoMetricSpace α] (hf : LipschitzWith K f) (hk : k < n)
    (hclose : ∀ y z, dist y z ≤ dist x (f x) * K ^ k → close y z) :
    ∃ k < n, StopsAt f close x k ∧ settle f close n x = f^[k + 1] x := by
  refine settle_settles hk (hclose _ _ ?_)
  rw [dist_comm]
  exact hf.dist_iterate_succ_le_geometric x k

theorem dist_settle_fixedPoint_le [MetricSpace α] (hf : ContractingWith K f)
    (hclose : ∀ y z, close y z → dist y z ≤ tol) {y : α} (hy : Function.IsFixedPt f y) :
    dist (settle f close n x) y ≤ max (K * tol) (dist x (f x) * K ^ n) / (1 - K) :=
  (hf.dist_le_of_fixedPoint _ hy).trans
    (div_le_div_of_nonneg_right (dist_settle_le hf.toLipschitzWith hclose) hf.one_sub_K_pos.le)

end

end Settle
