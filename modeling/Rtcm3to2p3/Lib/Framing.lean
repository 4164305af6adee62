import Mathlib.Data.List.Basic

/-!
# Cutting a stream into frames

A `Framer` says how frames are found in a stream: by the symbol they start
with, and by the length their first symbols declare. `Cut` is the
decomposition of a stream into noise, frames and what is left after them.

* `Cut.unique`: a stream has at most one;
* `Cut.append`: what is left can be kept and cut with what follows, so a
  stream can be cut as it arrives;
* `Cut.flatten`: a stream of frames is cut into them;
* `Cut.countP`: noise holds no start symbol.
-/

structure Framer (α : Type*) where
  start : α → Bool
  /-- The length a string of symbols declares, once it has enough of them. -/
  size : List α → Option Nat
  size_append {l : List α} {n : Nat} (m : List α) : size l = some n → size (l ++ m) = some n
  size_take {l : List α} {n : Nat} : size l = some n → n ≤ l.length → size (l.take n) = some n

namespace Framer

variable {α : Type*} (F : Framer α)

/-- No symbol a frame could start with. -/
def Quiet (l : List α) : Prop := ∀ a ∈ l, F.start a = false

/-- Empty, or from a start symbol on. -/
def Starts (l : List α) : Prop := ∀ a ∈ l.head?, F.start a = true

structure IsFrame (f : List α) : Prop where
  ne_nil : f ≠ []
  starts : F.Starts f
  size : F.size f = some f.length

/-- An incomplete frame, or nothing. -/
structure IsRest (r : List α) : Prop where
  starts : F.Starts r
  short : ∀ n, F.size r = some n → r ≠ [] → r.length < n

/-- The stream, the noise before each frame and after the last, the frames
and what is left. -/
inductive Cut : List α → List (List α) → List (List α) → List α → Prop
  | rest {n r : List α} : F.Quiet n → F.IsRest r → Cut (n ++ r) [n] [] r
  | frame {n f s : List α} {ns fs : List (List α)} {r : List α} : F.Quiet n → F.IsFrame f →
      Cut s ns fs r → Cut (n ++ (f ++ s)) (n :: ns) (f :: fs) r

variable {F}

theorem IsRest.nil : F.IsRest [] := ⟨(fun _ h => nomatch h), fun _ _ h => absurd rfl h⟩

theorem IsFrame.append_starts {f : List α} (h : F.IsFrame f) (s : List α) : F.Starts (f ++ s) := by
  intro a ha
  rw [List.head?_append_of_ne_nil _ h.ne_nil] at ha
  exact h.starts a ha

/-- A string that starts a frame and has the length it declares holds one. -/
theorem IsFrame.take {l : List α} {n : Nat} (hs : F.Starts l) (hn : F.size l = some n) (h0 : 0 < n) (h : n ≤ l.length) :
    F.IsFrame (l.take n) := by
  have hl : (l.take n).length = n := List.length_take_of_le h
  refine ⟨List.ne_nil_of_length_pos (by rwa [hl]), fun a ha => hs a ?_, by rw [hl, F.size_take hn h]⟩
  rwa [List.head?_take, if_neg (Nat.ne_of_gt h0)] at ha

/-- Noise ends where a start symbol is. -/
theorem Quiet.unique {n₁ n₂ l₁ l₂ : List α} (h₁ : F.Quiet n₁) (h₂ : F.Quiet n₂) (s₁ : F.Starts l₁)
    (s₂ : F.Starts l₂) (h : n₁ ++ l₁ = n₂ ++ l₂) : n₁ = n₂ ∧ l₁ = l₂ := by
  induction n₁ generalizing n₂ with
  | nil =>
    cases n₂ with
    | nil => exact ⟨rfl, h⟩
    | cons a n₂ =>
      have h' : l₁ = a :: (n₂ ++ l₂) := h
      have := s₁ a (by rw [h']; rfl)
      rw [h₂ a List.mem_cons_self] at this
      cases this
  | cons a n₁ ih =>
    cases n₂ with
    | nil =>
      have h' : a :: (n₁ ++ l₁) = l₂ := h
      have := s₂ a (by rw [← h']; rfl)
      rw [h₁ a List.mem_cons_self] at this
      cases this
    | cons b n₂ =>
      obtain ⟨rfl, h'⟩ := List.cons.inj h
      obtain ⟨rfl, hl⟩ := ih (fun x hx => h₁ x (List.mem_cons_of_mem _ hx))
        (fun x hx => h₂ x (List.mem_cons_of_mem _ hx)) h'
      exact ⟨rfl, hl⟩

/-- What starts with a frame is not the rest of a stream. -/
theorem IsRest.not_frame {f s : List α} (h : F.IsRest (f ++ s)) (hf : F.IsFrame f) : False := by
  have := h.short _ (F.size_append s hf.size) (by simp [hf.ne_nil])
  rw [List.length_append] at this
  omega

theorem IsFrame.unique {f₁ f₂ s₁ s₂ : List α} (h₁ : F.IsFrame f₁) (h₂ : F.IsFrame f₂)
    (h : f₁ ++ s₁ = f₂ ++ s₂) : f₁ = f₂ ∧ s₁ = s₂ := by
  have hs := F.size_append s₁ h₁.size
  rw [h, F.size_append s₂ h₂.size, Option.some.injEq] at hs
  exact List.append_inj h hs.symm

theorem Cut.unique {s : List α} {ns₁ ns₂ fs₁ fs₂ : List (List α)} {r₁ r₂ : List α}
    (h₁ : F.Cut s ns₁ fs₁ r₁) (h₂ : F.Cut s ns₂ fs₂ r₂) : ns₁ = ns₂ ∧ fs₁ = fs₂ ∧ r₁ = r₂ := by
  induction h₁ generalizing ns₂ fs₂ r₂ with
  | @rest n₁ r₁ hn₁ hr₁ =>
    generalize hs : n₁ ++ r₁ = s at h₂
    cases h₂ with
    | rest hn₂ hr₂ =>
      obtain ⟨rfl, rfl⟩ := hn₁.unique hn₂ hr₁.starts hr₂.starts hs
      exact ⟨rfl, rfl, rfl⟩
    | frame hn₂ hf₂ _ =>
      obtain ⟨-, rfl⟩ := hn₁.unique hn₂ hr₁.starts (hf₂.append_starts _) hs
      exact (hr₁.not_frame hf₂).elim
  | @frame n₁ f₁ t₁ _ _ _ hn₁ hf₁ _ ih =>
    generalize hs : n₁ ++ (f₁ ++ t₁) = s at h₂
    cases h₂ with
    | rest hn₂ hr₂ =>
      obtain ⟨-, rfl⟩ := hn₁.unique hn₂ (hf₁.append_starts _) hr₂.starts hs
      exact (hr₂.not_frame hf₁).elim
    | frame hn₂ hf₂ h₂ =>
      obtain ⟨rfl, h⟩ := hn₁.unique hn₂ (hf₁.append_starts _) (hf₂.append_starts _) hs
      obtain ⟨rfl, rfl⟩ := hf₁.unique hf₂ h
      obtain ⟨rfl, rfl, rfl⟩ := ih h₂
      exact ⟨rfl, rfl, rfl⟩

/-- Noise before a stream is noise of it. -/
theorem Cut.noise {n s : List α} {ns fs : List (List α)} {r : List α} (hn : F.Quiet n)
    (h : F.Cut s ns fs r) : ∃ ns', F.Cut (n ++ s) ns' fs r := by
  have quiet {m : List α} (hm : F.Quiet m) : F.Quiet (n ++ m) := fun a ha =>
    (List.mem_append.mp ha).elim (hn a) (hm a)
  cases h with
  | @rest m r hm hr => exact ⟨[n ++ m], List.append_assoc n m r ▸ .rest (quiet hm) hr⟩
  | @frame m f t ns _ _ hm hf h => exact ⟨(n ++ m) :: ns, List.append_assoc n m _ ▸ .frame (quiet hm) hf h⟩

/-- What is left is cut with what follows. -/
theorem Cut.append {s c : List α} {ns ns' fs fs' : List (List α)} {r r' : List α}
    (h : F.Cut s ns fs r) (h' : F.Cut (r ++ c) ns' fs' r') :
    ∃ ns'', F.Cut (s ++ c) ns'' (fs ++ fs') r' := by
  induction h with
  | @rest n r hn _ => exact List.append_assoc n r c ▸ h'.noise hn
  | @frame n f t _ _ _ hn hf _ ih =>
    obtain ⟨ns'', h''⟩ := ih h'
    refine ⟨n :: ns'', ?_⟩
    rw [List.append_assoc, List.append_assoc]
    exact .frame hn hf h''

theorem Cut.isRest {s : List α} {ns fs : List (List α)} {r : List α} (h : F.Cut s ns fs r) : F.IsRest r := by
  induction h with
  | rest _ hr => exact hr
  | frame _ _ _ ih => exact ih

/-- What is left is left. -/
theorem IsRest.cut {r : List α} (h : F.IsRest r) : F.Cut r [[]] [] r :=
  .rest (n := []) (fun _ h => nomatch h) h

theorem Cut.flatten {gs : List (List α)} (h : ∀ g ∈ gs, F.IsFrame g) : ∃ ns, F.Cut gs.flatten ns gs [] := by
  induction gs with
  | nil => exact ⟨_, IsRest.nil.cut⟩
  | cons g gs ih =>
    obtain ⟨ns, hc⟩ := ih fun g hg => h g (List.mem_cons_of_mem _ hg)
    exact ⟨[] :: ns, .frame (n := []) (fun _ h => nomatch h) (h g List.mem_cons_self) hc⟩

/-- Noise has no start symbol: all are in the frames and in what is left. -/
theorem Cut.countP {s : List α} {ns fs : List (List α)} {r : List α} (h : F.Cut s ns fs r) :
    s.countP F.start = fs.flatten.countP F.start + r.countP F.start := by
  have quiet {n : List α} (hn : F.Quiet n) : n.countP F.start = 0 :=
    List.countP_eq_zero.mpr fun a ha => by rw [hn a ha]; exact Bool.false_ne_true
  induction h with
  | rest hn _ => rw [List.countP_append, quiet hn, List.flatten_nil, List.countP_nil]
  | frame hn _ _ ih =>
    rw [List.countP_append, quiet hn, List.countP_append, ih, List.flatten_cons, List.countP_append]
    omega

theorem Cut.length_le {s : List α} {ns fs : List (List α)} {r : List α} (h : F.Cut s ns fs r) :
    fs.flatten.length + r.length ≤ s.length := by
  induction h with
  | rest hn _ =>
    rw [List.flatten_nil, List.length_nil, List.length_append]
    omega
  | frame hn _ _ ih =>
    rw [List.flatten_cons, List.length_append, List.length_append, List.length_append]
    omega

/-- A stream is cut into the frames it ends with only if nothing before them
starts one. -/
theorem Cut.quiet_of_frames {b : List α} {ns gs : List (List α)} (h : F.Cut (b ++ gs.flatten) ns gs []) :
    F.Quiet b := by
  have hc := h.countP
  rw [List.countP_append, List.countP_nil] at hc
  have h0 := List.countP_eq_zero.mp (show b.countP F.start = 0 by omega)
  exact fun a ha => Bool.not_eq_true _ ▸ h0 a ha

end Framer
