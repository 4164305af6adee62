import Mathlib.Data.List.Induction
import Mathlib.Order.WellFounded

/-!
# Machines that take one event at a time

A machine is a partial step function; `run` takes events one after the other.

* `keeps`: what each step keeps, a run keeps; `along`: the same of the events
  so far and the state after them;
* `records`: what the steps add to a log, a run adds;
* `simulates`: a machine that matches each step with a run matches runs;
* `decreases`: a measure that every event of a kind lowers, and no other
  raises, bounds how many there are of them in a run;
* `reaches`: events that lower a rank, of which there is always another, lead
  to where it is not lowered;
* `recurs`: in a run without end, a rank that they lower until the states are
  good makes them good again and again, if there is always another of them.
-/

namespace Transition

variable {σ ε : Type*} (step : σ → ε → Option σ)

/-- The state after the events, none if one of them is not there. -/
def run (s : σ) (es : List ε) : Option σ := es.foldlM step s

variable {step}

@[simp] theorem run_nil (s : σ) : run step s [] = some s := rfl

theorem run_cons {s s' : σ} {e : ε} {es : List ε} (h : run step s (e :: es) = some s') :
    ∃ s₁, step s e = some s₁ ∧ run step s₁ es = some s' :=
  Option.bind_eq_some_iff.mp h

theorem run_cons_of {s s₁ s' : σ} {e : ε} {es : List ε} (h : step s e = some s₁) (h' : run step s₁ es = some s') :
    run step s (e :: es) = some s' :=
  Option.bind_eq_some_iff.mpr ⟨s₁, h, h'⟩

theorem run_append {s s' : σ} {es es' : List ε} (h : run step s (es ++ es') = some s') :
    ∃ s₁, run step s es = some s₁ ∧ run step s₁ es' = some s' := by
  rw [run, List.foldlM_append] at h
  exact Option.bind_eq_some_iff.mp h

theorem run_append_of {s s₁ s' : σ} {es es' : List ε} (h : run step s es = some s₁)
    (h' : run step s₁ es' = some s') : run step s (es ++ es') = some s' := by
  rw [run, List.foldlM_append]
  exact Option.bind_eq_some_iff.mpr ⟨s₁, h, h'⟩

/-- What the steps keep, a run keeps. -/
theorem keeps {I : σ → Prop} (hI : ∀ s e s', step s e = some s' → I s → I s') {s s' : σ} {es : List ε}
    (h : run step s es = some s') (h₀ : I s) : I s' := by
  induction es generalizing s with
  | nil =>
    cases h
    exact h₀
  | cons e es ih =>
    obtain ⟨s₁, he, h⟩ := run_cons h
    exact ih h (hI s e s₁ he h₀)

/-- The same of the events `p`. -/
theorem keeps_of {I : σ → Prop} {p : ε → Prop} (hI : ∀ s e s', step s e = some s' → p e → I s → I s') {s s' : σ}
    {es : List ε} (h : run step s es = some s') (hes : ∀ e ∈ es, p e) (h₀ : I s) : I s' := by
  induction es generalizing s with
  | nil =>
    cases h
    exact h₀
  | cons e es ih =>
    obtain ⟨s₁, he, h⟩ := run_cons h
    exact ih h (fun e he => hes e (List.mem_cons_of_mem _ he)) (hI s e s₁ he (hes e List.mem_cons_self) h₀)

/-- What each next step of a run keeps, of the events so far and the state after them. -/
theorem along {I : List ε → σ → Prop} {s : σ}
    (hI : ∀ es s₁ e s₂, run step s es = some s₁ → step s₁ e = some s₂ → I es s₁ → I (es ++ [e]) s₂) {s' : σ}
    {es : List ε} (h : run step s es = some s') (h₀ : I [] s) : I es s' := by
  induction es using List.reverseRecOn generalizing s' with
  | nil =>
    cases h
    exact h₀
  | append_singleton es e ih =>
    obtain ⟨s₁, h₁, h⟩ := run_append h
    obtain ⟨s₂, he, h⟩ := run_cons h
    cases h
    exact hI es s₁ e s' h₁ he (ih h₁)

/-- A log to which each step adds what its event says. -/
theorem records {β : Type*} {log : σ → List β} {f : ε → Option β}
    (hlog : ∀ s e s', step s e = some s' → log s' = log s ++ (f e).toList) {s s' : σ} {es : List ε}
    (h : run step s es = some s') : log s' = log s ++ es.filterMap f := by
  induction es generalizing s with
  | nil =>
    cases h
    exact (List.append_nil _).symm
  | cons e es ih =>
    obtain ⟨s₁, he, h⟩ := run_cons h
    rw [ih h, hlog s e s₁ he, List.append_assoc]
    cases hf : f e with
    | none => rw [List.filterMap_cons_none hf]; rfl
    | some b => rw [List.filterMap_cons_some hf]; rfl

/-- A machine that has a run for each step of another, of the events `p`, has one for each run. -/
theorem simulates {σ' ε' : Type*} {step' : σ' → ε' → Option σ'} {R : σ → σ' → Prop} {p : ε → Prop}
    (hR : ∀ s e s₁ t, step s e = some s₁ → p e → R s t → ∃ es t₁, run step' t es = some t₁ ∧ R s₁ t₁)
    {s s' : σ} {es : List ε} (h : run step s es = some s') (hes : ∀ e ∈ es, p e) {t : σ'} (h₀ : R s t) :
    ∃ es' t', run step' t es' = some t' ∧ R s' t' := by
  induction es generalizing s t with
  | nil =>
    cases h
    exact ⟨[], t, rfl, h₀⟩
  | cons e es ih =>
    obtain ⟨s₁, he, h⟩ := run_cons h
    obtain ⟨es₁, t₁, h₁, hR₁⟩ := hR s e s₁ t he (hes e List.mem_cons_self) h₀
    obtain ⟨es', t', h', hR'⟩ := ih h (fun e he => hes e (List.mem_cons_of_mem _ he)) hR₁
    exact ⟨es₁ ++ es', t', run_append_of h₁ h', hR'⟩

/-- A measure that the events `p` lower, and no others raise. -/
theorem decreases {I : σ → Prop} {p : ε → Bool} {m : σ → Nat}
    (hI : ∀ s e s', step s e = some s' → I s → I s')
    (hp : ∀ s e s', step s e = some s' → I s → p e = true → m s' < m s)
    (hle : ∀ s e s', step s e = some s' → I s → p e = false → m s' ≤ m s)
    {s s' : σ} {es : List ε} (h : run step s es = some s') (h₀ : I s) :
    es.countP p + m s' ≤ m s := by
  induction es generalizing s with
  | nil =>
    cases h
    simp
  | cons e es ih =>
    obtain ⟨s₁, he, h⟩ := run_cons h
    have hrest := ih h (hI s e s₁ he h₀)
    cases hpe : p e with
    | true =>
      have hlt := hp s e s₁ he h₀ hpe
      rw [List.countP_cons_of_pos hpe]
      omega
    | false =>
      have hle := hle s e s₁ he h₀ hpe
      rw [List.countP_cons_of_neg (by rw [hpe]; exact Bool.false_ne_true)]
      omega

/-! ## Ranks -/

/-- Where there is always another of the events `p`, and they lower a rank until
the state is good, they lead to a good state. -/
theorem reaches {ρ : Type*} [Preorder ρ] [WellFoundedLT ρ] {I good : σ → Prop} {p : ε → Prop} {rank : σ → ρ}
    (hI : ∀ s e s', step s e = some s' → I s → I s')
    (hp : ∀ s e s', step s e = some s' → I s → ¬ good s → p e → rank s' < rank s)
    (hex : ∀ s, I s → ¬ good s → ∃ e s', p e ∧ step s e = some s') {s : σ} (hs : I s) :
    ∃ es s', run step s es = some s' ∧ (∀ e ∈ es, p e) ∧ good s' := by
  suffices hrank : ∀ r : ρ, ∀ s, rank s ≤ r → I s → ∃ es s', run step s es = some s' ∧ (∀ e ∈ es, p e) ∧ good s' from
    hrank _ s le_rfl hs
  intro r
  induction r using WellFoundedLT.induction with
  | ind r ih =>
    intro s hr hs
    by_cases hg : good s
    · exact ⟨[], s, rfl, (fun _ h => nomatch h), hg⟩
    · obtain ⟨e, s₁, hpe, he⟩ := hex s hs hg
      obtain ⟨es, s', h, hes, hgood⟩ := ih _ ((hp _ _ _ he hs hg hpe).trans_le hr) s₁ le_rfl (hI _ _ _ he hs)
      exact ⟨e :: es, s', run_cons_of he h, List.forall_mem_cons.mpr ⟨hpe, hes⟩, hgood⟩

/-- Until the states are good, the events `p` lower a rank and no others raise
it: a run in which there is always another of them is good again and again. -/
theorem recurs {ρ : Type*} [Preorder ρ] [WellFoundedLT ρ] {I good : σ → Prop} {p : ε → Prop} {rank : σ → ρ}
    (hI : ∀ s e s', step s e = some s' → I s → I s')
    (hp : ∀ s e s', step s e = some s' → I s → ¬ good s → p e → rank s' < rank s)
    (hle : ∀ s e s', step s e = some s' → I s → ¬ good s → ¬ p e → rank s' ≤ rank s)
    {states : Nat → σ} {events : Nat → ε} (h : ∀ i, step (states i) (events i) = some (states (i + 1)))
    (h₀ : I (states 0)) (hfair : ∀ i, ∃ j, i ≤ j ∧ p (events j)) (i : Nat) : ∃ j, i ≤ j ∧ good (states j) := by
  have hinv : ∀ i, I (states i) := by
    intro i
    induction i with
    | zero => exact h₀
    | succ i ih => exact hI _ _ _ (h i) ih
  -- On the rank, and within it on the distance to the next of the events.
  suffices hrank : ∀ r : ρ, ∀ d i, rank (states i) ≤ r → p (events (i + d)) → ∃ j, i ≤ j ∧ good (states j) by
    obtain ⟨j, hj, hpj⟩ := hfair i
    exact hrank _ (j - i) i le_rfl (by rwa [Nat.add_sub_cancel' hj])
  intro r
  induction r using WellFoundedLT.induction with
  | ind r ih =>
    intro d
    induction d with
    | zero =>
      intro i hr hpi
      by_cases hg : good (states i)
      · exact ⟨i, le_rfl, hg⟩
      · have hlt := hp _ _ _ (h i) (hinv i) hg hpi
        obtain ⟨j, hj, hpj⟩ := hfair (i + 1)
        obtain ⟨k, hk, hgood⟩ := ih _ (hlt.trans_le hr) (j - (i + 1)) (i + 1) le_rfl
          (by rwa [Nat.add_sub_cancel' hj])
        exact ⟨k, (Nat.le_succ i).trans hk, hgood⟩
    | succ d ihd =>
      intro i hr hpi
      have hpi' : p (events (i + 1 + d)) := by rwa [Nat.add_right_comm]
      by_cases hg : good (states i)
      · exact ⟨i, le_rfl, hg⟩
      · by_cases hpe : p (events i)
        · have hlt := hp _ _ _ (h i) (hinv i) hg hpe
          obtain ⟨k, hk, hgood⟩ := ih _ (hlt.trans_le hr) d (i + 1) le_rfl hpi'
          exact ⟨k, (Nat.le_succ i).trans hk, hgood⟩
        · obtain ⟨k, hk, hgood⟩ := ihd (i + 1) ((hle _ _ _ (h i) (hinv i) hg hpe).trans hr) hpi'
          exact ⟨k, (Nat.le_succ i).trans hk, hgood⟩

/-- A run that ends in a state that an event keeps goes on for ever. -/
theorem goes_on {s s' : σ} {es : List ε} {e : ε} (h : run step s es = some s') (he : step s' e = some s') :
    ∃ (states : Nat → σ) (events : Nat → ε), states 0 = s ∧ (∀ i, step (states i) (events i) = some (states (i + 1))) ∧
      (∀ i, i < es.length → es[i]? = some (events i)) ∧ ∀ i, es.length ≤ i → events i = e := by
  induction es generalizing s with
  | nil =>
    cases h
    exact ⟨fun _ => s', fun _ => e, rfl, fun _ => he, fun i hi => absurd hi (Nat.not_lt_zero i), fun _ _ => rfl⟩
  | cons e₀ es ih =>
    obtain ⟨s₁, hfirst, hrest⟩ := run_cons h
    obtain ⟨states, events, h0, hstep, hevents, hend⟩ := ih hrest
    refine ⟨fun i => i.casesOn s states, fun i => i.casesOn e₀ events, rfl, fun i => ?_, fun i hi => ?_, fun i hi => ?_⟩
    · cases i with
      | zero => exact hfirst.trans (congrArg some h0.symm)
      | succ i => exact hstep i
    · cases i with
      | zero => rfl
      | succ i => exact hevents i (Nat.lt_of_succ_lt_succ hi)
    · cases i with
      | zero => exact absurd hi (Nat.not_succ_le_zero _)
      | succ i => exact hend i (Nat.le_of_succ_le_succ hi)

end Transition
