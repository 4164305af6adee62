import Mathlib.Data.List.Basic

/-!
# Bounded queues

A `BoundedQueue` holds at most as many items as its bound. `offer` puts an
item in it, or drops the item when the queue is full. A `Log` is a queue
beside its history: what was taken of it, and what was offered to it.

* `Log.fifo`: the items taken and the items waiting are the accepted offers,
  in their order;
* `Log.sublist`: so they are a subsequence of the offers;
* `Log.eq_offered`: they are all of them if the queue was never full.
-/

/-- A first-in first-out queue, its oldest item first. -/
structure BoundedQueue (α : Type*) (n : Nat) where
  items : List α
  bound : items.length ≤ n

namespace BoundedQueue

variable {α : Type*} {n : Nat}

instance [DecidableEq α] : DecidableEq (BoundedQueue α n) := fun q r =>
  decidable_of_iff (q.items = r.items) ⟨fun h => by cases q; cases r; cases h; rfl, fun h => h ▸ rfl⟩

def empty : BoundedQueue α n := ⟨[], n.zero_le⟩

/-- The queue after a put, none if it is full. -/
def put? (q : BoundedQueue α n) (a : α) : Option (BoundedQueue α n) :=
  if h : q.items.length < n then some ⟨q.items ++ [a], by rw [List.length_append]; exact h⟩ else none

/-- A put that drops what does not fit. -/
def offer (q : BoundedQueue α n) (a : α) : BoundedQueue α n := (q.put? a).getD q

/-- The oldest item and the others, none if there is no item. -/
def get? (q : BoundedQueue α n) : Option (α × BoundedQueue α n) :=
  match h : q.items with
  | [] => none
  | a :: rest => some (a, ⟨rest, by have := q.bound; simp only [h, List.length_cons] at this; omega⟩)

theorem items_offer (q : BoundedQueue α n) (a : α) :
    (q.offer a).items = if q.items.length < n then q.items ++ [a] else q.items := by
  unfold offer put?
  split <;> rfl

theorem get?_eq_some {q r : BoundedQueue α n} {a : α} (h : q.get? = some (a, r)) : q.items = a :: r.items := by
  unfold get? at h
  split at h
  · cases h
  · cases h
    assumption

/-- An item offered to a queue, and how many items waited there. -/
structure Offer (α : Type*) where
  item : α
  backlog : Nat

/-- A queue, and the past that led to it. -/
structure Log (α : Type*) (n : Nat) where
  queue : BoundedQueue α n
  taken : List α
  offers : List (Offer α)
  fifo : taken ++ queue.items = (offers.filter (·.backlog < n)).map Offer.item
  backlog_le : ∀ o ∈ offers, o.backlog ≤ n

namespace Log

def empty : Log α n where
  queue := .empty
  taken := []
  offers := []
  fifo := rfl
  backlog_le := fun _ h => nomatch h

/-- What went through the queue: the items taken, and those waiting. -/
def received (l : Log α n) : List α := l.taken ++ l.queue.items

theorem offer_fifo (l : Log α n) (a : α) :
    l.taken ++ (l.queue.offer a).items =
      ((l.offers ++ [Offer.mk a l.queue.items.length]).filter (·.backlog < n)).map Offer.item := by
  rw [BoundedQueue.items_offer, List.filter_append, List.map_append, ← l.fifo]
  by_cases h : l.queue.items.length < n
  · simp [h]
  · simp [h]

def offer (l : Log α n) (a : α) : Log α n where
  queue := l.queue.offer a
  taken := l.taken
  offers := l.offers ++ [⟨a, l.queue.items.length⟩]
  fifo := l.offer_fifo a
  backlog_le := by
    intro o ho
    rcases List.mem_append.mp ho with ho | ho
    · exact l.backlog_le o ho
    · rw [List.mem_singleton.mp ho]
      exact l.queue.bound

/-- A get, which leaves an empty queue as it is. -/
def take (l : Log α n) : Log α n :=
  match h : l.queue.get? with
  | none => l
  | some (a, queue) => { l with
      queue := queue
      taken := l.taken ++ [a]
      fifo := by rw [← l.fifo, BoundedQueue.get?_eq_some h, List.append_assoc, List.singleton_append] }

@[simp] theorem offers_offer (l : Log α n) (a : α) :
    (l.offer a).offers = l.offers ++ [⟨a, l.queue.items.length⟩] := rfl

@[simp] theorem offers_take (l : Log α n) : l.take.offers = l.offers := by
  unfold take
  split <;> rfl

theorem received_offer (l : Log α n) (a : α) :
    (l.offer a).received = l.received ++ if l.queue.items.length < n then [a] else [] := by
  rw [received, show (l.offer a).queue = l.queue.offer a from rfl, items_offer, received]
  split
  · exact (List.append_assoc ..).symm
  · exact (List.append_nil _).symm

@[simp] theorem received_take (l : Log α n) : l.take.received = l.received := by
  unfold take
  split
  · rfl
  · rename_i a queue h
    rw [received, received, get?_eq_some h, List.append_assoc]
    rfl

theorem length_offer_le (l : Log α n) (a : α) : (l.offer a).queue.items.length ≤ l.queue.items.length + 1 := by
  rw [show (l.offer a).queue = l.queue.offer a from rfl, items_offer]
  split
  · simp
  · omega

theorem length_take_le (l : Log α n) : l.take.queue.items.length ≤ l.queue.items.length := by
  unfold take
  split
  · exact Nat.le_refl _
  · rename_i h
    simp [get?_eq_some h]

/-- What went through a queue is a subsequence of what was offered to it. -/
theorem sublist (l : Log α n) : l.received.Sublist (l.offers.map Offer.item) := by
  rw [received, l.fifo]
  exact List.filter_sublist.map _

/-- A queue that was never full received every offer. -/
theorem eq_offered (l : Log α n) (h : ∀ o ∈ l.offers, o.backlog < n) : l.received = l.offers.map Offer.item := by
  rw [received, l.fifo, List.filter_eq_self.mpr fun o ho => decide_eq_true (h o ho)]

end Log

end BoundedQueue
