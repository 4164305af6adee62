import Mathlib.Data.Finset.Card
import Mathlib.Data.List.Sort
import Mathlib.Data.List.Nodup

/-!
# Insertion-ordered dictionaries

A `Dict` is the list of its items, oldest key first; a key is never there
twice. Setting a key that is there keeps its place.

* `get?_set`: what a store changes;
* `mem_items`: the items are what can be read;
* `perm_of_get?`: dictionaries that read the same have the same items, up to
  order, and so the same items sorted by key (`sorted_congr`).
-/

structure Dict (κ α : Type*) where
  items : List (κ × α)
  nodup : (items.map Prod.fst).Nodup

namespace Dict

variable {κ α β : Type*}

def empty : Dict κ α := ⟨[], List.nodup_nil⟩

instance : EmptyCollection (Dict κ α) := ⟨empty⟩
instance : Inhabited (Dict κ α) := ⟨∅⟩

def values (d : Dict κ α) : List α := d.items.map Prod.snd

theorem items_nodup (d : Dict κ α) : d.items.Nodup := List.Nodup.of_map _ d.nodup

section

variable [DecidableEq κ]

instance [DecidableEq α] : DecidableEq (Dict κ α) := fun d e =>
  decidable_of_iff (d.items = e.items) ⟨fun h => by cases d; cases e; cases h; rfl, fun h => h ▸ rfl⟩

/-- The item list after a store. -/
def setItems (items : List (κ × α)) (k : κ) (v : α) : List (κ × α) :=
  match items with
  | [] => [(k, v)]
  | (j, w) :: rest => if j = k then (k, v) :: rest else (j, w) :: setItems rest k v

theorem mem_keys_setItems {items : List (κ × α)} {k j : κ} {v : α} :
    j ∈ (setItems items k v).map Prod.fst ↔ j = k ∨ j ∈ items.map Prod.fst := by
  induction items with
  | nil => simp [setItems]
  | cons e rest ih =>
    rw [setItems]
    split
    · rename_i h
      simp [h]
    · rw [List.map_cons, List.mem_cons, ih, List.map_cons, List.mem_cons]
      exact or_left_comm

theorem nodup_setItems {items : List (κ × α)} (h : (items.map Prod.fst).Nodup) (k : κ) (v : α) :
    ((setItems items k v).map Prod.fst).Nodup := by
  induction items with
  | nil => exact List.nodup_singleton k
  | cons e rest ih =>
    rw [List.map_cons, List.nodup_cons] at h
    rw [setItems]
    split
    · rename_i hk
      rw [List.map_cons, List.nodup_cons]
      exact ⟨hk ▸ h.1, h.2⟩
    · rename_i hk
      rw [List.map_cons, List.nodup_cons, mem_keys_setItems]
      exact ⟨fun hm => hm.elim hk h.1, ih h.2⟩

/-- `d.get(k)` -/
def get? (d : Dict κ α) (k : κ) : Option α := d.items.lookup k

/-- `d[k] = v` -/
def set (d : Dict κ α) (k : κ) (v : α) : Dict κ α := ⟨setItems d.items k v, nodup_setItems d.nodup k v⟩

@[simp] theorem get?_empty (k : κ) : (∅ : Dict κ α).get? k = none := rfl

theorem lookup_cons_eq (k j : κ) (w : α) (rest : List (κ × α)) :
    ((j, w) :: rest).lookup k = if k = j then some w else rest.lookup k := by
  rw [List.lookup_cons]
  by_cases h : k = j
  · rw [if_pos h, beq_iff_eq.mpr h]
  · rw [if_neg h, beq_eq_false_iff_ne.mpr h]

theorem lookup_setItems (items : List (κ × α)) (k j : κ) (v : α) :
    (setItems items k v).lookup j = if j = k then some v else items.lookup j := by
  induction items with
  | nil => rw [setItems, lookup_cons_eq, List.lookup_nil]
  | cons e rest ih =>
    obtain ⟨i, w⟩ := e
    rw [setItems, lookup_cons_eq]
    split
    · rename_i h
      subst h
      rw [lookup_cons_eq]
      split <;> rfl
    · rename_i h
      rw [lookup_cons_eq, ih]
      by_cases hj : j = i
      · rw [if_pos hj, if_neg (hj ▸ h), if_pos hj]
      · rw [if_neg hj, if_neg hj]

theorem get?_set (d : Dict κ α) (k j : κ) (v : α) :
    (d.set k v).get? j = if j = k then some v else d.get? j := lookup_setItems d.items k j v

@[simp] theorem get?_set_self (d : Dict κ α) (k : κ) (v : α) : (d.set k v).get? k = some v := by
  rw [get?_set, if_pos rfl]

theorem get?_set_ne (d : Dict κ α) {k j : κ} (v : α) (h : j ≠ k) : (d.set k v).get? j = d.get? j := by
  rw [get?_set, if_neg h]

theorem forall_get?_empty {P : κ → α → Prop} : ∀ k v, (∅ : Dict κ α).get? k = some v → P k v :=
  fun _ _ h => nomatch h

/-- To check a stored item and the others is to check all. -/
theorem forall_get?_set {d : Dict κ α} {P : κ → α → Prop} (h : ∀ k v, d.get? k = some v → P k v) {j : κ} {w : α}
    (hw : P j w) : ∀ k v, (d.set j w).get? k = some v → P k v := by
  intro k v hv
  rw [get?_set] at hv
  split at hv
  · rename_i hk
    exact hk ▸ Option.some.inj hv ▸ hw
  · exact h k v hv

theorem lookup_eq_some {items : List (κ × α)} (h : (items.map Prod.fst).Nodup) {k : κ} {v : α} :
    items.lookup k = some v ↔ (k, v) ∈ items := by
  induction items with
  | nil => simp
  | cons e rest ih =>
    obtain ⟨j, w⟩ := e
    rw [List.map_cons, List.nodup_cons] at h
    rw [lookup_cons_eq, List.mem_cons, Prod.mk.injEq]
    split
    · rename_i hj
      subst hj
      rw [Option.some.injEq, eq_comm]
      refine ⟨fun hv => .inl ⟨rfl, hv⟩, fun hm => hm.elim And.right fun hm => ?_⟩
      exact absurd (List.mem_map_of_mem (f := Prod.fst) hm) h.1
    · rename_i hj
      rw [ih h.2]
      exact ⟨.inr, fun hm => hm.resolve_left fun he => hj he.1⟩

theorem mem_items {d : Dict κ α} {k : κ} {v : α} : (k, v) ∈ d.items ↔ d.get? k = some v :=
  (lookup_eq_some d.nodup).symm

theorem mem_values {d : Dict κ α} {v : α} : v ∈ d.values ↔ ∃ k, d.get? k = some v := by
  rw [values, List.mem_map]
  exact ⟨fun ⟨e, he, hv⟩ => ⟨e.1, mem_items.mp (hv ▸ he)⟩, fun ⟨k, hk⟩ => ⟨(k, v), mem_items.mpr hk, rfl⟩⟩

/-- A dictionary has no more items than its keys can be. -/
theorem length_le_card {d : Dict κ α} (keys : Finset κ) (h : ∀ k v, d.get? k = some v → k ∈ keys) :
    d.items.length ≤ keys.card := by
  have hsub : (d.items.map Prod.fst).toFinset ⊆ keys := by
    intro k hk
    obtain ⟨⟨_, v⟩, hx, rfl⟩ := List.mem_map.mp (List.mem_toFinset.mp hk)
    exact h _ v (mem_items.mp hx)
  have hcard := Finset.card_le_card hsub
  rwa [List.toFinset_card_of_nodup d.nodup, List.length_map] at hcard

theorem isEmpty_iff {d : Dict κ α} : d.items.isEmpty = true ↔ ∀ k, d.get? k = none := by
  rw [List.isEmpty_iff]
  refine ⟨fun h k => by rw [get?, h]; rfl, fun h => List.eq_nil_iff_forall_not_mem.mpr fun e he => ?_⟩
  have := mem_items.mp he
  rw [h] at this
  cases this

theorem isEmpty_congr {d : Dict κ α} {e : Dict κ β} (h : ∀ k, e.get? k = none ↔ d.get? k = none) :
    e.items.isEmpty = d.items.isEmpty :=
  Bool.eq_iff_iff.mpr (isEmpty_iff.trans ((forall_congr' h).trans isEmpty_iff.symm))

/-- `e` reads as `d` with `f` applied to every value. -/
theorem perm_of_get? {d : Dict κ α} {e : Dict κ β} {f : κ → α → β}
    (h : ∀ k, e.get? k = (d.get? k).map (f k)) :
    e.items.Perm (d.items.map fun x => (x.1, f x.1 x.2)) := by
  have hn : (d.items.map fun x => (x.1, f x.1 x.2)).Nodup := by
    refine List.Nodup.of_map Prod.fst ?_
    rw [List.map_map]
    exact d.nodup
  refine (List.perm_ext_iff_of_nodup e.items_nodup hn).mpr fun ⟨k, v⟩ => ?_
  rw [mem_items, h, List.mem_map, Option.map_eq_some_iff]
  constructor
  · rintro ⟨w, hw, rfl⟩
    exact ⟨(k, w), mem_items.mpr hw, rfl⟩
  · rintro ⟨⟨j, w⟩, hw, he⟩
    obtain ⟨rfl, rfl⟩ := Prod.mk.injEq .. ▸ he
    exact ⟨w, mem_items.mp hw, rfl⟩

theorem values_perm {d : Dict κ α} {e : Dict κ β} {f : α → β} (h : ∀ k, e.get? k = (d.get? k).map f) :
    e.values.Perm (d.values.map f) := by
  have := (perm_of_get? (f := fun _ => f) h).map Prod.snd
  rw [List.map_map] at this
  rw [values, values, List.map_map]
  exact this

/-! ## Loops over items -/

theorem lookup_eq_none {items : List (κ × α)} {k : κ} (h : k ∉ items.map Prod.fst) :
    items.lookup k = none := by
  induction items with
  | nil => rfl
  | cons x items ih =>
    rw [List.map_cons, List.mem_cons, not_or] at h
    rw [lookup_cons_eq k x.1 x.2, if_neg h.1, ih h.2]

/-- A loop over items whose turn for a key stores at most that key. -/
theorem get?_foldl {step : Dict κ β → κ × α → Dict κ β} {f : κ → α → Option β}
    (hstep : ∀ d x p, (step d x).get? p = if p = x.1 then (f x.1 x.2).or (d.get? p) else d.get? p)
    {items : List (κ × α)} (h : (items.map Prod.fst).Nodup) (d : Dict κ β) (p : κ) :
    (items.foldl step d).get? p = ((items.lookup p).bind (f p)).or (d.get? p) := by
  induction items generalizing d with
  | nil => rfl
  | cons x items ih =>
    rw [List.map_cons, List.nodup_cons] at h
    rw [List.foldl_cons, ih h.2, hstep, lookup_cons_eq p x.1 x.2]
    split
    · rename_i hp
      rw [hp, lookup_eq_none h.1]
      rfl
    · rfl

/-- A loop over keys that stores for each what there is to store. -/
theorem get?_foldl_elim (f : κ → Option α) (keys : List κ) (d : Dict κ α) (p : κ) :
    (keys.foldl (fun d k => (f k).elim d (d.set k)) d).get? p =
      if p ∈ keys then (f p).or (d.get? p) else d.get? p := by
  induction keys generalizing d with
  | nil => rfl
  | cons k keys ih =>
    have hturn : ((f k).elim d (d.set k)).get? p = if p = k then (f p).or (d.get? p) else d.get? p := by
      by_cases hp : p = k
      · subst hp
        rw [if_pos rfl]
        cases f p with
        | none => rfl
        | some v => exact get?_set_self d p v
      · rw [if_neg hp]
        cases f k with
        | none => rfl
        | some v => exact get?_set_ne d v hp
    rw [List.foldl_cons, ih, hturn]
    by_cases hp : p = k
    · rw [if_pos hp, if_pos (List.mem_cons.mpr (.inl hp))]
      split
      · cases f p <;> rfl
      · rfl
    · simp only [List.mem_cons, hp, if_false, false_or]

/-- A turn that stores what it computes, if anything, or fails. -/
def storeResult {ε : Type*} (d : Dict κ β) (k : κ) : Option (Except ε β) → Except ε (Dict κ β)
  | none => .ok d
  | some v => v.map (d.set k)

/-- The same for a loop that can fail: `g` is what a turn computes to store. -/
theorem get?_foldlM_ok {ε : Type*} {step : Dict κ β → κ × α → Except ε (Dict κ β)}
    {g : κ → α → Option (Except ε β)}
    (hstep : ∀ d x, step d x = storeResult d x.1 (g x.1 x.2))
    {items : List (κ × α)} (h : (items.map Prod.fst).Nodup) {d e : Dict κ β}
    (he : items.foldlM step d = .ok e) (p : κ) :
    (∀ v, (items.lookup p).bind (g p) = some v → ∃ b, v = .ok b ∧ e.get? p = some b) ∧
      ((items.lookup p).bind (g p) = none → e.get? p = d.get? p) := by
  induction items generalizing d with
  | nil =>
    obtain rfl : d = e := Except.ok.inj he
    exact ⟨(fun v hv => by cases hv), fun _ => rfl⟩
  | cons x items ih =>
    rw [List.map_cons, List.nodup_cons] at h
    rw [List.foldlM_cons, hstep] at he
    rw [lookup_cons_eq p x.1 x.2]
    have hnone := lookup_eq_none h.1
    rcases hg : g x.1 x.2 with _ | (err | b)
    · rw [hg] at he
      have := ih h.2 he
      split
      · rename_i hp
        subst hp
        rw [Option.bind_some, hg]
        rw [hnone] at this
        exact ⟨(fun v hv => by cases hv), fun _ => this.2 rfl⟩
      · exact this
    · rw [hg] at he
      cases he
    · rw [hg] at he
      have := ih h.2 he
      split
      · rename_i hp
        subst hp
        rw [Option.bind_some, hg]
        rw [hnone] at this
        refine ⟨fun v hv => ⟨b, (Option.some.inj hv).symm, ?_⟩, fun hn => by cases hn⟩
        rw [this.2 rfl, get?_set_self]
      · rename_i hp
        refine ⟨this.1, fun hn => ?_⟩
        rw [this.2 hn, get?_set_ne _ _ hp]

/-- It fails exactly if a turn does. -/
theorem foldlM_error_iff {ε : Type*} {step : Dict κ β → κ × α → Except ε (Dict κ β)}
    {g : κ → α → Option (Except ε β)}
    (hstep : ∀ d x, step d x = storeResult d x.1 (g x.1 x.2))
    (items : List (κ × α)) (d : Dict κ β) :
    (∃ err, items.foldlM step d = .error err) ↔ ∃ x ∈ items, ∃ err, g x.1 x.2 = some (.error err) := by
  induction items generalizing d with
  | nil => exact ⟨(fun ⟨_, he⟩ => nomatch he), fun ⟨_, hx, _⟩ => nomatch hx⟩
  | cons x items ih =>
    rw [List.foldlM_cons, hstep]
    simp only [List.mem_cons, exists_eq_or_imp]
    rcases hg : g x.1 x.2 with _ | (err | b)
    · exact (ih d).trans ⟨.inr, fun h => h.resolve_left fun ⟨_, h⟩ => nomatch h⟩
    · exact ⟨fun _ => .inl ⟨err, rfl⟩, fun _ => ⟨err, rfl⟩⟩
    · refine (ih (d.set x.1 b)).trans ⟨.inr, fun h => h.resolve_left fun ⟨_, h⟩ => ?_⟩
      cases Option.some.inj h

/-! ## Sorted items -/

variable [LinearOrder κ]

/-- `sorted(d.items())`. No two items have the same key, so values are never compared. -/
def sorted (d : Dict κ α) : List (κ × α) := d.items.insertionSort fun a b => a.1 ≤ b.1

instance : Std.Total fun a b : κ × α => a.1 ≤ b.1 := ⟨fun a b => le_total a.1 b.1⟩
instance : IsTrans (κ × α) fun a b => a.1 ≤ b.1 := ⟨fun _ _ _ => le_trans⟩

end

variable [LinearOrder κ]

theorem sorted_perm (d : Dict κ α) : d.sorted.Perm d.items := List.perm_insertionSort _ _

theorem mem_sorted {d : Dict κ α} {k : κ} {v : α} : (k, v) ∈ d.sorted ↔ d.get? k = some v := by
  rw [d.sorted_perm.mem_iff, mem_items]

theorem nodup_sorted (d : Dict κ α) : (d.sorted.map Prod.fst).Nodup :=
  (d.sorted_perm.map Prod.fst).nodup_iff.mpr d.nodup

theorem pairwise_sorted (d : Dict κ α) : d.sorted.Pairwise fun a b => a.1 < b.1 := by
  have hle : d.sorted.Pairwise fun a b => a.1 ≤ b.1 := List.pairwise_insertionSort _ _
  have hne : d.sorted.Pairwise fun a b => a.1 ≠ b.1 := List.pairwise_map.mp d.nodup_sorted
  exact (hle.and hne).imp fun h => lt_of_le_of_ne h.1 h.2

theorem sorted_congr {d : Dict κ α} {e : Dict κ β} {f : κ → α → β}
    (h : ∀ k, e.get? k = (d.get? k).map (f k)) :
    e.sorted = d.sorted.map fun x => (x.1, f x.1 x.2) := by
  refine @List.Perm.eq_of_pairwise _ (fun a b => a.1 < b.1) _ _ (fun a b _ _ hab hba => ?_)
    e.pairwise_sorted (List.pairwise_map.mpr d.pairwise_sorted) ?_
  · exact absurd hab (lt_asymm hba)
  · exact e.sorted_perm.trans ((perm_of_get? h).trans (d.sorted_perm.symm.map _))

end Dict
