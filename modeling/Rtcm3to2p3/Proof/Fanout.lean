import Rtcm3to2p3.Impl.Service
import Rtcm3to2p3.Spec.Fanout

/-!
# What a feed delivers

`Steps` lists the steps, and `Moves` what a step does to one queue: nothing, a
get, the copy of the set it is in, or the put that follows. A run's offers to
a queue are then the items published to it (`offered_run`), and the queue's
history keeps their order and number. The items published to a subscriber are
those published between its joining and its leaving (`publishedTo_joined`).
Runs that differ only in when the others read leave a queue with the same
history (`run_concerns`). `feed_delivers` puts these together.
-/

namespace Rtcm.Proof

open Rtcm.Impl Rtcm.Spec Rtcm.Spec.Fanout

/-! ## The steps -/

inductive Steps (s : Fanout) : Event → Fanout → Prop
  | subscribe : Steps s .subscribe { s with feed := s.feed.subscribe s.next, next := s.next + 1 }
  | unsubscribe (q : Nat) : Steps s (.unsubscribe q) { s with feed := s.feed.unsubscribe q }
  | get (q : Nat) : Steps s (.get q) { s with logs := Function.update s.logs q (s.logs q).take }
  | nothing (h : s.publisher = .idle) : Steps s (.publish []) s
  | announce (data : Bytes) (h : s.publisher = .idle) (hd : data ≠ []) :
    Steps s (.publish data) { s with feed := s.feed.announce data, publisher := .copying data }
  | snapshot (data : Bytes) (order : List Nat) (h : s.publisher = .copying data) (hn : order.Nodup)
    (ho : order.toFinset = s.feed.subs) : Steps s (.snapshot order) { s with publisher := .putting data order }
  | put (data : Bytes) (q : Nat) (todo : List Nat) (h : s.publisher = .putting data (q :: todo)) :
    Steps s .put
      { s with publisher := .putting data todo, logs := Function.update s.logs q ((s.logs q).offer data) }
  | returns (data : Bytes) (h : s.publisher = .putting data []) : Steps s .returns { s with publisher := .idle }

theorem step_of_steps {s s' : Fanout} {e : Event} (h : Steps s e s') : s.step e = some s' := by
  cases h with
  | subscribe | unsubscribe | get => rfl
  | nothing h => simp only [step, h, List.isEmpty_nil, if_true]
  | announce data h hd => simp only [step, h, List.isEmpty_eq_false_iff.mpr hd, Bool.false_eq_true, if_false]
  | snapshot data order h hn ho => simp only [step, h, hn, ho, and_self, if_true]
  | put data q todo h => simp only [step, h]
  | returns data h => simp only [step, h]

theorem steps_of_step {s s' : Fanout} {e : Event} (h : s.step e = some s') : Steps s e s' := by
  cases e with
  | subscribe =>
    cases h
    exact .subscribe
  | unsubscribe q =>
    cases h
    exact .unsubscribe q
  | get q =>
    cases h
    exact .get q
  | publish data =>
    simp only [step] at h
    split at h
    · rename_i hp
      split at h
      · rename_i hd
        cases h
        cases List.isEmpty_iff.mp hd
        exact .nothing hp
      · rename_i hd
        cases h
        exact .announce data hp fun he => hd (List.isEmpty_iff.mpr he)
    · cases h
  | snapshot order =>
    simp only [step] at h
    split at h
    · rename_i data hp
      split at h
      · rename_i ho
        cases h
        exact .snapshot data order hp ho.1 ho.2
      · cases h
    · cases h
  | put =>
    simp only [step] at h
    split at h
    · rename_i data q todo hp
      cases h
      exact .put data q todo hp
    · cases h
  | returns =>
    simp only [step] at h
    split at h
    · rename_i data hp
      cases h
      exact .returns data hp
    · cases h

theorem next_step {s s' : Fanout} {e : Event} (h : Steps s e s') : s.next ≤ s'.next := by
  cases h <;> simp

/-- What the publisher is at is something it may be at. -/
structure Orderly (s : Fanout) : Prop where
  subs_lt : ∀ q ∈ s.feed.subs, q < s.next
  copying : ∀ data, s.publisher = .copying data → data ≠ []
  nodup : ∀ data todo, s.publisher = .putting data todo → todo.Nodup

theorem orderly_init (name : String) : Orderly (init name) where
  subs_lt := by simp [init, Feed.new]
  copying := by simp [init]
  nodup := by simp [init]

theorem orderly_step {s s' : Fanout} {e : Event} (hs : Orderly s) (h : Steps s e s') : Orderly s' := by
  cases h with
  | subscribe =>
    refine ⟨fun q hq => ?_, hs.copying, hs.nodup⟩
    rcases Finset.mem_insert.mp hq with rfl | hq
    · exact Nat.lt_succ_self _
    · exact (hs.subs_lt q hq).trans (Nat.lt_succ_self _)
  | unsubscribe q => exact ⟨fun r hr => hs.subs_lt r (Finset.mem_of_mem_erase hr), hs.copying, hs.nodup⟩
  | get q => exact ⟨hs.subs_lt, hs.copying, hs.nodup⟩
  | nothing => exact hs
  | announce data _ hd =>
    refine ⟨hs.subs_lt, fun _ h => ?_, fun _ _ h => nomatch h⟩
    cases h
    exact hd
  | snapshot data order _ hn _ =>
    refine ⟨hs.subs_lt, fun _ h => (nomatch h), fun _ _ h => ?_⟩
    cases h
    exact hn
  | put data q todo hp =>
    refine ⟨hs.subs_lt, fun _ h => (nomatch h), fun _ _ h => ?_⟩
    cases h
    exact (List.nodup_cons.mp (hs.nodup _ _ hp)).2
  | returns => exact ⟨hs.subs_lt, fun _ h => (nomatch h), fun _ _ h => nomatch h⟩

theorem orderly_run {s s' : Fanout} {es : List Event} (hs : Orderly s) (h : s.run es = some s') : Orderly s' :=
  Transition.keeps (fun _ _ _ he hs => orderly_step hs (steps_of_step he)) h hs

/-! ## One queue -/

/-- What a step does to a queue, and what it publishes to it. -/
inductive Moves (q : Nat) (s s' : Fanout) : List Bytes → Prop
  | rests (hl : s'.logs q = s.logs q) (hf : s'.inFlight q = s.inFlight q) : Moves q s s' []
  | takes (hl : s'.logs q = (s.logs q).take) (hf : s'.inFlight q = s.inFlight q) : Moves q s s' []
  | copied (data : Bytes) (hl : s'.logs q = s.logs q) (h : s.inFlight q = []) (hf : s'.inFlight q = [data]) :
    Moves q s s' [data]
  | puts (data : Bytes) (hl : s'.logs q = (s.logs q).offer data) (h : s.inFlight q = [data])
    (hf : s'.inFlight q = []) : Moves q s s' []

theorem inFlight_idle {s : Fanout} (h : s.publisher = .idle) (q : Nat) : s.inFlight q = [] := by
  simp only [inFlight, h]

theorem inFlight_copying {s : Fanout} {data : Bytes} (h : s.publisher = .copying data) (q : Nat) :
    s.inFlight q = [] := by
  simp only [inFlight, h]

theorem inFlight_putting {s : Fanout} {data : Bytes} {todo : List Nat} (h : s.publisher = .putting data todo)
    (q : Nat) : s.inFlight q = if q ∈ todo then [data] else [] := by
  simp only [inFlight, h]

theorem publishedTo_cons {s s' : Fanout} {e : Event} (h : s.step e = some s') (q : Nat) (es : List Event) :
    s.publishedTo q (e :: es) = s.publishedTo q [e] ++ s'.publishedTo q es := by
  simp only [publishedTo, snapshots, h, Option.map_some, Option.getD_some, List.append_nil, List.filter_append,
    List.map_append]

/-- Only a copy of the set publishes. -/
theorem publishedTo_rest {s s' : Fanout} {e : Event} (h : s.step e = some s') (he : s.copied e = []) (q : Nat) :
    s.publishedTo q [e] = [] := by
  simp only [publishedTo, snapshots, h, he, Option.map_some, Option.getD_some, List.append_nil, List.filter_nil,
    List.map_nil]

theorem publishedTo_snapshot {s s' : Fanout} {data : Bytes} {order : List Nat} (hp : s.publisher = .copying data)
    (h : s.step (.snapshot order) = some s') (q : Nat) :
    s.publishedTo q [.snapshot order] = if q ∈ order then [data] else [] := by
  simp only [publishedTo, snapshots, h, Fanout.copied, hp, Option.map_some, Option.getD_some, List.append_nil]
  split
  · rename_i hq
    simp [hq]
  · rename_i hq
    simp [hq]

theorem moves_step {s s' : Fanout} {e : Event} (hs : Orderly s) (h : Steps s e s') (q : Nat) :
    Moves q s s' (s.publishedTo q [e]) := by
  have he := step_of_steps h
  cases h with
  | subscribe | unsubscribe =>
    rw [publishedTo_rest he rfl]
    exact .rests rfl rfl
  | get r =>
    rw [publishedTo_rest he rfl]
    by_cases hq : q = r
    · subst hq
      exact .takes (Function.update_self ..) rfl
    · exact .rests (Function.update_of_ne hq ..) rfl
  | nothing =>
    rw [publishedTo_rest he rfl]
    exact .rests rfl rfl
  | announce data hp =>
    rw [publishedTo_rest he rfl]
    exact .rests rfl (by rw [inFlight_idle hp, inFlight_copying rfl])
  | snapshot data order hp =>
    rw [publishedTo_snapshot hp he]
    split
    · rename_i hq
      exact .copied data rfl (inFlight_copying hp q) ((inFlight_putting rfl q).trans (if_pos hq))
    · rename_i hq
      exact .rests rfl (((inFlight_putting rfl q).trans (if_neg hq)).trans (inFlight_copying hp q).symm)
  | put data r todo hp =>
    rw [publishedTo_rest he rfl]
    have hf := inFlight_putting hp q
    by_cases hq : q = r
    · subst hq
      rw [if_pos List.mem_cons_self] at hf
      -- the copy of the set holds a queue once
      have hn : q ∉ todo := (List.nodup_cons.mp (hs.nodup _ _ hp)).1
      exact .puts data (Function.update_self ..) hf ((inFlight_putting rfl q).trans (if_neg hn))
    · refine .rests (Function.update_of_ne hq ..) ?_
      rw [hf, inFlight_putting rfl q]
      simp only [List.mem_cons, hq, false_or]
  | returns data hp =>
    rw [publishedTo_rest he rfl]
    refine .rests rfl ?_
    rw [inFlight_idle rfl, inFlight_putting hp, if_neg List.not_mem_nil]

/-- The items a queue was offered, and the one it is about to be offered. -/
abbrev offered (s : Fanout) (q : Nat) : List Bytes := (s.logs q).offers.map (·.item) ++ s.inFlight q

theorem offered_step {s s' : Fanout} {e : Event} (hs : Orderly s) (h : Steps s e s') (q : Nat) :
    offered s' q = offered s q ++ s.publishedTo q [e] := by
  have hm := moves_step hs h q
  generalize s.publishedTo q [e] = published at hm
  unfold offered
  cases hm with
  | rests hl hf => rw [hl, hf, List.append_nil]
  | takes hl hf => rw [hl, hf, BoundedQueue.Log.offers_take, List.append_nil]
  | copied data hl hf hf' => rw [hl, hf, hf', List.append_nil]
  | puts data hl hf hf' =>
    rw [hl, hf, hf', BoundedQueue.Log.offers_offer, List.map_append, List.append_nil, List.append_nil]
    rfl

theorem offered_run {s s' : Fanout} {es : List Event} (hs : Orderly s) (h : s.run es = some s') (q : Nat) :
    offered s' q = offered s q ++ s.publishedTo q es := by
  induction es generalizing s with
  | nil =>
    cases h
    exact (List.append_nil _).symm
  | cons e es ih =>
    obtain ⟨s₁, he, h⟩ := Transition.run_cons h
    have hs₁ := steps_of_step he
    rw [ih (orderly_step hs hs₁) h, offered_step hs hs₁, publishedTo_cons he q es, List.append_assoc]

/-- Every offer to the queue found room. -/
abbrev Roomy (s : Fanout) (q : Nat) : Prop := ∀ o ∈ (s.logs q).offers, o.backlog < MAXSIZE

theorem roomy_step {s s' : Fanout} {e : Event} (hs : Orderly s) (h : Steps s e s') {q : Nat}
    (hq : (s.logs q).queue.items.length < MAXSIZE) (hr : Roomy s q) : Roomy s' q := by
  have hm := moves_step hs h q
  generalize s.publishedTo q [e] = published at hm
  unfold Roomy
  cases hm with
  | rests hl => rwa [hl]
  | takes hl => rwa [hl, BoundedQueue.Log.offers_take]
  | copied data hl => rwa [hl]
  | puts data hl =>
    rw [hl, BoundedQueue.Log.offers_offer]
    intro o ho
    rcases List.mem_append.mp ho with ho | ho
    · exact hr o ho
    · rw [List.mem_singleton.mp ho]
      exact hq

theorem keepsUp_cons {s s' : Fanout} {e : Event} {es : List Event} {q : Nat} (he : s.step e = some s')
    (h : s.KeepsUp q (e :: es)) : s'.KeepsUp q es := by
  intro es' t hp ht
  refine h (e :: es') t (List.cons_prefix_cons.mpr ⟨rfl, hp⟩) ?_
  exact Option.bind_eq_some_iff.mpr ⟨s', he, ht⟩

theorem roomy_run {s s' : Fanout} {es : List Event} (hs : Orderly s) (h : s.run es = some s') {q : Nat}
    (hk : s.KeepsUp q es) (hr : Roomy s q) : Roomy s' q := by
  induction es generalizing s with
  | nil =>
    cases h
    exact hr
  | cons e es ih =>
    obtain ⟨s₁, he, h⟩ := Transition.run_cons h
    have hs₁ := steps_of_step he
    have hq := hk [] s List.nil_prefix rfl
    exact ih (orderly_step hs hs₁) h (keepsUp_cons he hk) (roomy_step hs hs₁ hq hr)

theorem length_step {s s' : Fanout} {e : Event} (hs : Orderly s) (h : Steps s e s') (q : Nat) :
    (s'.logs q).queue.items.length ≤ (s.logs q).queue.items.length + 1 := by
  have hm := moves_step hs h q
  generalize s.publishedTo q [e] = published at hm
  cases hm with
  | rests hl | copied data hl =>
    rw [hl]
    exact Nat.le_succ _
  | takes hl =>
    rw [hl]
    exact (s.logs q).length_take_le.trans (Nat.le_succ _)
  | puts data hl =>
    rw [hl]
    exact (s.logs q).length_offer_le data

theorem length_run {s s' : Fanout} {es : List Event} (hs : Orderly s) (h : s.run es = some s') (q : Nat) :
    (s'.logs q).queue.items.length ≤ (s.logs q).queue.items.length + es.length := by
  induction es generalizing s with
  | nil =>
    cases h
    exact le_rfl
  | cons e es ih =>
    obtain ⟨s₁, he, h⟩ := Transition.run_cons h
    have hs₁ := steps_of_step he
    have hle := ih (orderly_step hs hs₁) h
    have hle₁ := length_step hs hs₁ q
    rw [List.length_cons]
    omega

/-- No queue fills up in fewer steps than it holds items. -/
theorem keepsUp_of_length (name : String) (q : Nat) {es : List Event} (h : es.length < MAXSIZE) :
    (init name).KeepsUp q es := by
  intro es' s' hp hr
  have hle := length_run (orderly_init name) hr q
  have hl := hp.length_le
  have h₀ : ((init name).logs q).queue.items.length = 0 := rfl
  omega

/-! ## The items published to a subscriber -/

theorem snapshots_cons {s s' : Fanout} {e : Event} (h : s.step e = some s') (es : List Event) :
    s.snapshots (e :: es) = s.copied e ++ s'.snapshots es := by
  simp only [snapshots, h, Option.map_some, Option.getD_some]

theorem snapshots_append {s s' : Fanout} {es : List Event} (h : s.run es = some s') (es' : List Event) :
    s.snapshots (es ++ es') = s.snapshots es ++ s'.snapshots es' := by
  induction es generalizing s with
  | nil =>
    cases h
    rfl
  | cons e es ih =>
    obtain ⟨s₁, he, h⟩ := Transition.run_cons h
    rw [List.cons_append, snapshots_cons he, snapshots_cons he, ih h, List.append_assoc]

/-- A step publishes a non-empty item, to the subscribers there are. -/
theorem copied_step {s s' : Fanout} {e : Event} (hs : Orderly s) (h : Steps s e s') :
    ∀ x ∈ s.copied e, x.1 ≠ [] ∧ ∀ q, q ∈ x.2 ↔ q ∈ s.feed.subs := by
  cases h with
  | snapshot data order hp hn ho =>
    intro x hx
    simp only [Fanout.copied, hp, List.mem_singleton] at hx
    subst hx
    exact ⟨hs.copying data hp, fun q => by rw [← ho, List.mem_toFinset]⟩
  | _ => exact fun _ h => nomatch h

/-- What the steps of a run publish, under what they keep. -/
theorem forall_snapshots {I : Fanout → Prop} {P : Bytes × List Nat → Prop} {es : List Event}
    (hI : ∀ e ∈ es, ∀ s s', Orderly s → Steps s e s' → I s → I s')
    (hP : ∀ s e s', Orderly s → Steps s e s' → I s → ∀ x ∈ s.copied e, P x)
    {s s' : Fanout} (hs : Orderly s) (h : s.run es = some s') (h₀ : I s) : ∀ x ∈ s.snapshots es, P x := by
  induction es generalizing s with
  | nil => exact fun _ h => nomatch h
  | cons e es ih =>
    obtain ⟨s₁, he, h⟩ := Transition.run_cons h
    have hs₁ := steps_of_step he
    rw [snapshots_cons he]
    intro x hx
    rcases List.mem_append.mp hx with hx | hx
    · exact hP s e s₁ hs hs₁ h₀ x hx
    · exact ih (fun e' he' => hI e' (List.mem_cons_of_mem _ he')) (orderly_step hs hs₁) h
        (hI e List.mem_cons_self s s₁ hs hs₁ h₀) x hx

theorem snapshots_ne_nil {s s' : Fanout} {es : List Event} (hs : Orderly s) (h : s.run es = some s') :
    ∀ x ∈ s.snapshots es, x.1 ≠ [] :=
  forall_snapshots (I := fun _ => True) (fun _ _ _ _ _ _ _ => trivial)
    (fun _ _ _ hs h _ x hx => (copied_step hs h x hx).1) hs h trivial

/-- While a queue is in the set, everything is published to it. -/
theorem snapshots_during {s s' : Fanout} {es : List Event} (hs : Orderly s) (h : s.run es = some s') {q : Nat}
    (hq : q ∈ s.feed.subs) (hu : .unsubscribe q ∉ es) :
    q ∈ s'.feed.subs ∧ ∀ x ∈ s.snapshots es, q ∈ x.2 := by
  have hI : ∀ e ∈ es, ∀ s s', Orderly s → Steps s e s' → q ∈ s.feed.subs → q ∈ s'.feed.subs := by
    intro e he s s' _ h hq
    cases h with
    | subscribe => exact Finset.mem_insert_of_mem hq
    | unsubscribe r => exact Finset.mem_erase.mpr ⟨fun hr => hu (hr ▸ he), hq⟩
    | _ => exact hq
  have hkeeps : ∀ s e s', s.step e = some s' → e ∈ es → Orderly s ∧ q ∈ s.feed.subs → Orderly s' ∧ q ∈ s'.feed.subs :=
    fun s e s' hstep he hs =>
      have h := steps_of_step hstep
      ⟨orderly_step hs.1 h, hI e he s s' hs.1 h hs.2⟩
  exact ⟨(Transition.keeps_of hkeeps h (fun _ he => he) ⟨hs, hq⟩).2,
    forall_snapshots hI (fun s e s' hs h hq x hx => ((copied_step hs h x hx).2 q).mpr hq) hs h hq⟩

/-- Once a queue is out of the set, nothing is published to it. -/
theorem snapshots_after {s s' : Fanout} {es : List Event} (hs : Orderly s) (h : s.run es = some s') {q : Nat}
    (hq : q ∉ s.feed.subs) (hn : q < s.next) : ∀ x ∈ s.snapshots es, q ∉ x.2 := by
  refine forall_snapshots (I := fun s => q ∉ s.feed.subs ∧ q < s.next) ?_ ?_ hs h ⟨hq, hn⟩
  · intro e _ s s' _ h hq
    refine ⟨?_, hq.2.trans_le (next_step h)⟩
    cases h with
    | subscribe =>
      intro hm
      rcases Finset.mem_insert.mp hm with rfl | hm
      · exact Nat.lt_irrefl _ hq.2
      · exact hq.1 hm
    | unsubscribe r => exact fun hm => hq.1 (Finset.mem_of_mem_erase hm)
    | _ => exact hq.1
  · exact fun s e s' hs h hq x hx hm => hq.1 (((copied_step hs h x hx).2 q).mp hm)

/-- Before a queue is made, nothing is published to it. -/
theorem snapshots_before {s s' : Fanout} {es : List Event} (hs : Orderly s) (h : s.run es = some s') :
    ∀ x ∈ s.snapshots es, s'.next ∉ x.2 := by
  induction es generalizing s with
  | nil => exact fun _ h => nomatch h
  | cons e es ih =>
    obtain ⟨s₁, he, h⟩ := Transition.run_cons h
    have hs₁ := steps_of_step he
    have hs₂ := orderly_step hs hs₁
    have hle : s.next ≤ s'.next := (next_step hs₁).trans <|
      Transition.keeps (I := fun t => s₁.next ≤ t.next) (fun _ _ _ ht hi => hi.trans (next_step (steps_of_step ht))) h
        le_rfl
    rw [snapshots_cons he]
    intro x hx
    rcases List.mem_append.mp hx with hx | hx
    · intro hq
      have hlt := hs.subs_lt _ (((copied_step hs hs₁ x hx).2 _).mp hq)
      omega
    · exact ih hs₂ h x hx

theorem publishedTo_all {s : Fanout} {q : Nat} {es : List Event} (h : ∀ x ∈ s.snapshots es, q ∈ x.2) :
    s.publishedTo q es = (s.snapshots es).map Prod.fst := by
  rw [publishedTo, List.filter_eq_self.mpr fun x hx => decide_eq_true (h x hx)]

theorem publishedTo_none {s : Fanout} {q : Nat} {es : List Event} (h : ∀ x ∈ s.snapshots es, q ∉ x.2) :
    s.publishedTo q es = [] := by
  rw [publishedTo, List.filter_eq_nil_iff.mpr fun x hx => by simpa using h x hx, List.map_nil]

theorem publishedTo_append {s s' : Fanout} {es : List Event} (h : s.run es = some s') (q : Nat)
    (es' : List Event) : s.publishedTo q (es ++ es') = s.publishedTo q es ++ s'.publishedTo q es' := by
  simp only [publishedTo, snapshots_append h, List.filter_append, List.map_append]

/-- What is published to a subscriber is what is published between its joining
and its leaving. -/
theorem publishedTo_joined {s s₀ s' : Fanout} {pre during post : List Event} (hs : Orderly s)
    (h₀ : s.run pre = some s₀) (h : s.run (pre ++ .subscribe :: (during ++ post)) = some s')
    (hu : .unsubscribe s₀.next ∉ during) (hpost : post = [] ∨ ∃ es, post = .unsubscribe s₀.next :: es) :
    ∃ s₁, s₀.step .subscribe = some s₁ ∧
      s.publishedTo s₀.next (pre ++ .subscribe :: (during ++ post)) = (s₁.snapshots during).map Prod.fst := by
  obtain ⟨t, ht, h⟩ := Transition.run_append h
  obtain rfl : s₀ = t := Option.some.inj (h₀.symm.trans ht)
  obtain ⟨s₁, he, h⟩ := Transition.run_cons h
  obtain ⟨s₂, hd, h⟩ := Transition.run_append h
  have hs₀ := orderly_run hs h₀
  have hs₁ := orderly_step hs₀ (steps_of_step he)
  have hs₂ := orderly_run hs₁ hd
  have hq₁ : s₀.next ∈ s₁.feed.subs ∧ s₀.next < s₁.next := by
    cases he
    exact ⟨Finset.mem_insert_self _ _, Nat.lt_succ_self _⟩
  obtain ⟨hq₂, hall⟩ := snapshots_during hs₁ hd hq₁.1 hu
  have hafter : s₂.publishedTo s₀.next post = [] := by
    rcases hpost with rfl | ⟨es, rfl⟩
    · rfl
    · obtain ⟨s₃, he₃, h⟩ := Transition.run_cons h
      have hs₃ := orderly_step hs₂ (steps_of_step he₃)
      have hq₃ : s₀.next ∉ s₃.feed.subs ∧ s₀.next < s₃.next := by
        cases he₃
        exact ⟨Finset.notMem_erase _ _, hs₂.subs_lt _ hq₂⟩
      rw [publishedTo_cons he₃, publishedTo_rest he₃ rfl, publishedTo_none (snapshots_after hs₃ h hq₃.1 hq₃.2),
        List.append_nil]
  refine ⟨s₁, he, ?_⟩
  rw [publishedTo_append h₀, publishedTo_none (snapshots_before hs h₀), publishedTo_cons he, publishedTo_rest he rfl,
    publishedTo_append hd, publishedTo_all hall, hafter, List.nil_append, List.nil_append, List.append_nil]

/-! ## The other subscribers -/

/-- The same feed, and the same history of one queue. -/
structure Agree (q : Nat) (s t : Fanout) : Prop where
  feed : s.feed = t.feed
  next : s.next = t.next
  publisher : s.publisher = t.publisher
  log : s.logs q = t.logs q

theorem Agree.refl (q : Nat) (s : Fanout) : Agree q s s := ⟨rfl, rfl, rfl, rfl⟩

/-- A step that concerns a subscriber is a step of both, to the same effect on
its queue. -/
theorem agree_step {q : Nat} {s t s' : Fanout} {e : Event} (ha : Agree q s t) (hc : concerns q e = true)
    (h : Steps s e s') : ∃ t', t.step e = some t' ∧ Agree q s' t' := by
  have hfeed := ha.feed
  have hnext := ha.next
  have hpub := ha.publisher
  cases h with
  | subscribe =>
    refine ⟨_, step_of_steps .subscribe, ?_, ?_, hpub, ha.log⟩
    · simp only [hfeed, hnext]
    · simp only [hnext]
  | unsubscribe r => exact ⟨_, step_of_steps (.unsubscribe r), by simp only [hfeed], hnext, hpub, ha.log⟩
  | get r =>
    obtain rfl : r = q := beq_iff_eq.mp hc
    refine ⟨_, step_of_steps (.get r), hfeed, hnext, hpub, ?_⟩
    simp only [Function.update_self, ha.log]
  | nothing hp => exact ⟨_, step_of_steps (.nothing (hpub ▸ hp)), ha⟩
  | announce data hp hd =>
    exact ⟨_, step_of_steps (.announce data (hpub ▸ hp) hd), by simp only [hfeed], hnext, rfl, ha.log⟩
  | snapshot data order hp hn ho =>
    exact ⟨_, step_of_steps (.snapshot data order (hpub ▸ hp) hn (hfeed ▸ ho)), hfeed, hnext, rfl, ha.log⟩
  | put data r todo hp =>
    refine ⟨_, step_of_steps (.put data r todo (hpub ▸ hp)), hfeed, hnext, rfl, ?_⟩
    by_cases hr : q = r
    · subst hr
      simp only [Function.update_self, ha.log]
    · simp only [Function.update_of_ne hr, ha.log]
  | returns data hp => exact ⟨_, step_of_steps (.returns data (hpub ▸ hp)), hfeed, hnext, rfl, ha.log⟩

/-- A read of another subscriber can be taken or left. -/
theorem agree_get {q r : Nat} {s t : Fanout} (ha : Agree q s t) (hc : concerns q (.get r) = false) :
    Agree q { s with logs := Function.update s.logs r (s.logs r).take } t := by
  have hr : q ≠ r := fun h => by simp [concerns, h] at hc
  exact ⟨ha.feed, ha.next, ha.publisher, (Function.update_of_ne hr ..).trans ha.log⟩

theorem agree_symm {q : Nat} {s t : Fanout} (ha : Agree q s t) : Agree q t s :=
  ⟨ha.feed.symm, ha.next.symm, ha.publisher.symm, ha.log.symm⟩

theorem concerns_eq_false {q : Nat} {e : Event} (h : concerns q e = false) : ∃ r, e = .get r := by
  cases e with
  | get r => exact ⟨r, rfl⟩
  | _ => cases h

/-- Without the reads of the others. -/
theorem run_filter_concerns {q : Nat} {es : List Event} {s t s' : Fanout} (ha : Agree q s t)
    (h : s.run es = some s') : ∃ t', t.run (es.filter (concerns q)) = some t' ∧ Agree q s' t' := by
  induction es generalizing s t with
  | nil =>
    cases h
    exact ⟨t, rfl, ha⟩
  | cons e es ih =>
    obtain ⟨s₁, he, h⟩ := Transition.run_cons h
    cases hc : concerns q e with
    | true =>
      obtain ⟨t₁, ht, ha₁⟩ := agree_step ha hc (steps_of_step he)
      obtain ⟨t', ht', ha'⟩ := ih ha₁ h
      rw [List.filter_cons_of_pos hc]
      exact ⟨t', Option.bind_eq_some_iff.mpr ⟨t₁, ht, ht'⟩, ha'⟩
    | false =>
      obtain ⟨r, rfl⟩ := concerns_eq_false hc
      cases he
      rw [List.filter_cons_of_neg (by rw [hc]; exact Bool.false_ne_true)]
      exact ih (agree_get ha hc) h

/-- With any reads of the others. -/
theorem run_of_filter_concerns {q : Nat} {es : List Event} {s t s' : Fanout} (ha : Agree q s t)
    (h : s.run (es.filter (concerns q)) = some s') : ∃ t', t.run es = some t' ∧ Agree q s' t' := by
  induction es generalizing s t with
  | nil =>
    cases h
    exact ⟨t, rfl, ha⟩
  | cons e es ih =>
    cases hc : concerns q e with
    | true =>
      rw [List.filter_cons_of_pos hc] at h
      obtain ⟨s₁, he, h⟩ := Transition.run_cons h
      obtain ⟨t₁, ht, ha₁⟩ := agree_step ha hc (steps_of_step he)
      obtain ⟨t', ht', ha'⟩ := ih ha₁ h
      exact ⟨t', Option.bind_eq_some_iff.mpr ⟨t₁, ht, ht'⟩, ha'⟩
    | false =>
      rw [List.filter_cons_of_neg (by rw [hc]; exact Bool.false_ne_true)] at h
      obtain ⟨r, rfl⟩ := concerns_eq_false hc
      obtain ⟨t', ht', ha'⟩ := ih (agree_symm (agree_get (agree_symm ha) hc)) h
      exact ⟨t', Option.bind_eq_some_iff.mpr ⟨_, rfl, ht'⟩, ha'⟩

/-- Runs that differ only in the reads of the others leave a queue with the
same history. -/
theorem run_concerns {q : Nat} {es es' : List Event} {s s' : Fanout} (h : s.run es = some s')
    (he : es'.filter (concerns q) = es.filter (concerns q)) : ∃ t', s.run es' = some t' ∧ Agree q s' t' := by
  obtain ⟨t, ht, ha⟩ := run_filter_concerns (Agree.refl q s) h
  rw [← he] at ht
  obtain ⟨t', ht', ha'⟩ := run_of_filter_concerns (Agree.refl q s) ht
  exact ⟨t', ht', ha.feed.trans ha'.feed, ha.next.trans ha'.next, ha.publisher.trans ha'.publisher,
    ha.log.trans ha'.log⟩

/-! ## The publisher alone -/

theorem foldl_publish_append (calls feed feed' : List Bytes) :
    calls.foldl publish (feed ++ feed') = feed ++ calls.foldl publish feed' := by
  induction calls generalizing feed' with
  | nil => rfl
  | cons data calls ih =>
    have hp : publish (feed ++ feed') data = feed ++ publish feed' data := by
      unfold publish
      split
      · rfl
      · exact List.append_assoc ..
    rw [List.foldl_cons, List.foldl_cons, hp, ih]

theorem publish_step {s s' : Fanout} {e : Event} (h : Steps s e s') :
    (called e).toList.foldl publish s.announced = (s.copied e).map Prod.fst ++ s'.announced := by
  cases h with
  | subscribe | unsubscribe | get | nothing => rfl
  | announce data hp hd =>
    have hs : s.announced = [] := by simp only [announced, hp]
    rw [hs]
    simp only [called, Option.toList_some, List.foldl_cons, List.foldl_nil, publish,
      List.isEmpty_eq_false_iff.mpr hd]
    rfl
  | snapshot data order hp => simp [called, Fanout.copied, announced, hp]
  | put data q todo hp => simp [called, Fanout.copied, announced, hp]
  | returns data hp => simp [called, Fanout.copied, announced, hp]

/-- A run publishes what `publish` is called with, as far as the calls got. -/
theorem publish_calls {s s' : Fanout} {es : List Event} (h : s.run es = some s') :
    (es.filterMap called).foldl publish s.announced = (s.snapshots es).map Prod.fst ++ s'.announced := by
  induction es generalizing s with
  | nil =>
    cases h
    rfl
  | cons e es ih =>
    obtain ⟨s₁, he, h⟩ := Transition.run_cons h
    have hc : (e :: es).filterMap called = (called e).toList ++ es.filterMap called := by
      rw [List.filterMap_cons]
      cases called e <;> rfl
    rw [hc, List.foldl_append, publish_step (steps_of_step he), foldl_publish_append, ih h, snapshots_cons he,
      List.map_append, List.append_assoc]

/-- The puts of an item that no other step comes between. -/
theorem run_puts {s : Fanout} {data : Bytes} {todo : List Nat} (h : s.publisher = .putting data todo) :
    ∃ s', s.run (List.replicate todo.length .put ++ [.returns]) = some s' ∧ s'.publisher = .idle ∧ s'.feed = s.feed ∧
      (fun q => (s'.logs q).queue) = Feed.putAll data todo fun q => (s.logs q).queue := by
  induction todo generalizing s with
  | nil =>
    exact ⟨_, Option.bind_eq_some_iff.mpr ⟨_, step_of_steps (.returns data h), rfl⟩, rfl, rfl, rfl⟩
  | cons q todo ih =>
    obtain ⟨s', hr, hp, hf, hq⟩ := ih
      (s := { s with publisher := .putting data todo, logs := Function.update s.logs q ((s.logs q).offer data) }) rfl
    refine ⟨s', Option.bind_eq_some_iff.mpr ⟨_, step_of_steps (.put data q todo h), hr⟩, hp, hf, ?_⟩
    rw [hq, Feed.putAll]
    congr 1
    funext r
    by_cases hr : r = q
    · subst hr
      simp only [Function.update_self]
      rfl
    · simp only [Function.update_of_ne hr]

/-- A call of `publish` that no other step comes between. -/
theorem run_publish {s : Fanout} (h : s.publisher = .idle) {data : Bytes} (hd : data ≠ []) {subs : List Nat}
    (hn : subs.Nodup) (hs : subs.toFinset = s.feed.subs) :
    ∃ s', s.run (.publish data :: .snapshot subs :: (List.replicate subs.length .put ++ [.returns])) = some s' ∧
      s'.publisher = .idle ∧
      (s'.feed, fun q => (s'.logs q).queue) = s.feed.publish data subs fun q => (s.logs q).queue := by
  obtain ⟨s', hr, hp, hf, hq⟩ := run_puts
    (s := { s with feed := s.feed.announce data, publisher := .putting data subs }) rfl
  refine ⟨s', ?_, hp, ?_⟩
  · refine Option.bind_eq_some_iff.mpr ⟨_, step_of_steps (.announce data h hd), ?_⟩
    exact Option.bind_eq_some_iff.mpr ⟨_, step_of_steps (.snapshot data subs rfl hn hs), hr⟩
  · rw [Feed.publish, List.isEmpty_eq_false_iff.mpr hd, hq, hf]
    rfl

/-! ## The delivery -/

/-- What a subscriber receives is, in order and once each, the non-empty items
published to it but those whose put found 512 items in its queue; if its queue
stays shorter, it is every item published between its joining and its leaving;
and it is the same whatever the others read. -/
theorem feed_delivers (name : String) {es : List Event} {s : Fanout} (h : (init name).run es = some s) (q : Nat) :
    (s.received q).Sublist ((init name).publishedTo q es) ∧
    (∀ x ∈ (init name).snapshots es, x.1 ≠ []) ∧
    (s.logs q).offers.map (·.item) ++ s.inFlight q = (init name).publishedTo q es ∧
    s.received q = ((s.logs q).offers.filter (·.backlog ≠ 512)).map (·.item) ∧
    (∀ pre during post s₀, es = pre ++ .subscribe :: (during ++ post) → (init name).run pre = some s₀ → s₀.next = q →
      .unsubscribe q ∉ during → (post = [] ∨ ∃ es', post = .unsubscribe q :: es') → (init name).KeepsUp q es →
      ∃ s₁, s₀.step .subscribe = some s₁ ∧
        s.received q ++ s.inFlight q = (s₁.snapshots during).map Prod.fst) ∧
    ∀ es', es'.filter (concerns q) = es.filter (concerns q) →
      ∃ s', (init name).run es' = some s' ∧ s'.logs q = s.logs q := by
  have hs := orderly_init name
  have hoff : offered s q = (init name).publishedTo q es := offered_run hs h q
  refine ⟨?_, snapshots_ne_nil hs h, hoff, ?_, ?_, ?_⟩
  · rw [← hoff]
    exact (s.logs q).sublist.trans (List.sublist_append_left _ _)
  · rw [Fanout.received, BoundedQueue.Log.received, (s.logs q).fifo]
    congr 1
    refine List.filter_congr fun o ho => ?_
    have hle : o.backlog ≤ 512 := (s.logs q).backlog_le o ho
    rw [MAXSIZE, decide_eq_decide]
    omega
  · intro pre during post s₀ hes h₀ hq hu hpost hk
    subst hq hes
    obtain ⟨s₁, he, hp⟩ := publishedTo_joined hs h₀ h hu hpost
    have hr : Roomy s s₀.next := roomy_run hs h hk fun _ ho => absurd ho List.not_mem_nil
    refine ⟨s₁, he, ?_⟩
    rw [← hp, ← hoff, Fanout.received, (s.logs _).eq_offered hr]
  · intro es' he
    obtain ⟨s', hr, ha⟩ := run_concerns h he
    exact ⟨s', hr, ha.log.symm⟩

/-- Two clients, one that leaves while an item is put. -/
def twoClients : List Event :=
  [.subscribe, .publish [1, 2], .subscribe, .snapshot [1, 0], .put, .get 1, .unsubscribe 1, .put, .returns,
    .publish [3], .get 0, .snapshot [0], .put]

theorem feed_delivers_two : ∃ s, (init "RTCM3").run twoClients = some s ∧ s.received 0 = [[1, 2], [3]] ∧
    (s.received 1).Sublist ((init "RTCM3").publishedTo 1 twoClients) ∧ s.received 1 ++ s.inFlight 1 = [[1, 2]] := by
  obtain ⟨s, hs⟩ : ∃ s, (init "RTCM3").run twoClients = some s := ⟨_, rfl⟩
  have h₀ : ((init "RTCM3").run twoClients).map (·.received 0) = some [[1, 2], [3]] := by decide
  rw [hs] at h₀
  have hc := feed_delivers "RTCM3" hs 1
  refine ⟨s, hs, Option.some.inj h₀, hc.1, ?_⟩
  obtain ⟨s₀, hs₀⟩ : ∃ s, (init "RTCM3").run [.subscribe, .publish [1, 2]] = some s := ⟨_, rfl⟩
  have hn : ((init "RTCM3").run [.subscribe, .publish [1, 2]]).map (·.next) = some 1 := rfl
  obtain ⟨s₁, he, hr⟩ := hc.2.2.2.2.1 [.subscribe, .publish [1, 2]] [.snapshot [1, 0], .put, .get 1] _ s₀ rfl hs₀
    (by rw [hs₀] at hn; exact Option.some.inj hn) (by decide) (.inr ⟨_, rfl⟩) (keepsUp_of_length _ _ (by decide))
  rw [hr]
  cases hs₀
  cases he
  rfl

end Rtcm.Proof
