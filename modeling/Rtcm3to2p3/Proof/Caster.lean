import Rtcm3to2p3.Lib.Transition
import Rtcm3to2p3.Proof.Fanout
import Rtcm3to2p3.Spec.Caster

/-!
# The caster and its threads

`Serves` lists the steps. Each feed is `Orderly` by itself; what the threads add
is kept by every step (`sound_step`): which queue is whose (`Members`), what was
published since a client joined (`Records`), and what it was sent (`HasSent`).
-/

namespace Rtcm.Proof

open Rtcm.Impl Rtcm.Spec Transition

variable {K : Type} {float : K → String}

/-! ## The steps -/

/-- What a thread does without its feed: the bytes it sends, and where it goes on. -/
inductive Goes (server : String) : Handler → Bytes → Handler → Prop
  | reads (incoming req incoming' req' : Bytes) (hr : req'.length ≤ 4351) :
    Goes server (.requesting incoming req) [] (.requesting incoming' req')
  | closes (incoming req : Bytes) : Goes server (.requesting incoming req) [] .closed
  | refuses (incoming req : Bytes) (todo : List (String × Nat)) :
    Goes server (.requesting incoming req) [] (.listing todo [])
  | accepts (incoming req : Bytes) (ntrip2 : Bool) (feed : Nat) :
    Goes server (.requesting incoming req) [] (.replying ntrip2 feed)
  | lists (todo todo' : List (String × Nat)) (rows rows' : List String) :
    Goes server (.listing todo rows) [] (.listing todo' rows')
  | table (todo : List (String × Nat)) (rows : List String) (bytes : Bytes)
    (hb : bytes <+: NtripCaster.tableOf server rows) : Goes server (.listing todo rows) bytes .closed
  | replies (ntrip2 : Bool) (feed : Nat) :
    Goes server (.replying ntrip2 feed) (NtripCaster.accepted server ntrip2) (.subscribing feed)
  | unheard (ntrip2 : Bool) (feed : Nat) (bytes : Bytes) (hb : bytes <+: NtripCaster.accepted server ntrip2) :
    Goes server (.replying ntrip2 feed) bytes .closed
  | waits (feed q : Nat) : Goes server (.serving feed q) [] (.waiting feed q)
  | stops (feed q : Nat) : Goes server (.serving feed q) [] (.leaving feed q)
  | empties (feed q : Nat) : Goes server (.waiting feed q) [] (.serving feed q)
  | sends (feed q : Nat) (item : Bytes) : Goes server (.sending feed q item) item (.serving feed q)
  | breaks (feed q : Nat) (item bytes : Bytes) (hb : bytes <+: item) :
    Goes server (.sending feed q item) bytes (.leaving feed q)

/-- The caster after a step of a feed, and where the threads are then. -/
def withFeed (s : Caster K) (feed : Nat) (feed' : Fanout) (items : List Bytes) : Caster K := { s with
  feeds := Function.update s.feeds feed feed'
  published := Function.update s.published feed (s.published feed ++ items)
  since := fun h => if (s.handlers h).queue.map Prod.fst = some feed then s.since h ++ items else s.since h }

inductive Serves (s : Caster K) : Caster.Event → Caster K → Prop
  | connects (incoming : Bytes) : Serves s (.connects incoming) { s with
      connections := s.connections + 1
      handlers := Function.update s.handlers s.connections (.requesting incoming []) }
  | goes (e : Caster.Event) (h : Nat) (bytes : Bytes) (p : Handler) (he : e.thread = some h)
    (hg : Goes s.caster.server (s.handlers h) bytes p) : Serves s e (s.goes h bytes p)
  | subscribes (h more feed : Nat) (feed' : Fanout) (hp : s.handlers h = .subscribing feed)
    (hf : Steps (s.feeds feed) .subscribe feed') : Serves s (.turn h more)
      { s with
        feeds := Function.update s.feeds feed feed'
        handlers := Function.update s.handlers h (.serving feed (s.feeds feed).next)
        joined := Function.update s.joined h (some (feed, (s.feeds feed).next)) }
  | gets (h more feed q : Nat) (item : Bytes) (queue : Queue) (feed' : Fanout) (hp : s.handlers h = .waiting feed q)
    (hq : ((s.feeds feed).logs q).queue.get? = some (item, queue)) (hf : Steps (s.feeds feed) (.get q) feed') :
    Serves s (.turn h more)
      { s with
        feeds := Function.update s.feeds feed feed'
        handlers := Function.update s.handlers h (.sending feed q item) }
  | leaves (h more feed q : Nat) (feed' : Fanout) (hp : s.handlers h = .leaving feed q)
    (hf : Steps (s.feeds feed) (.unsubscribe q) feed') : Serves s (.turn h more)
      { s with feeds := Function.update s.feeds feed feed', handlers := Function.update s.handlers h .closed }
  | publisher (feed : Nat) (e : Fanout.Event) (feed' : Fanout) (hp : Caster.isPublisher e = true)
    (hf : Steps (s.feeds feed) e feed') : Serves s (.publisher feed e)
      (withFeed s feed feed' (((s.feeds feed).copied e).map Prod.fst))
  | stop : Serves s .stop { s with stopped := true }

theorem withFeed_nil (s : Caster K) (feed : Nat) (feed' : Fanout) :
    withFeed s feed feed' [] = { s with feeds := Function.update s.feeds feed feed' } := by
  simp only [withFeed, List.append_nil, Function.update_eq_self, ite_self]

theorem feedStep_eq {s : Caster K} {feed : Nat} {e : Fanout.Event} {feed' : Fanout}
    (h : Steps (s.feeds feed) e feed') :
    s.feedStep feed e = some (withFeed s feed feed' (((s.feeds feed).copied e).map Prod.fst)) := by
  rw [Caster.feedStep, step_of_steps h]
  rfl

/-- A subscriber's step of a feed publishes nothing. -/
theorem feedStep_quiet {s : Caster K} {feed : Nat} {e : Fanout.Event} {feed' : Fanout}
    (h : Steps (s.feeds feed) e feed') (he : (s.feeds feed).copied e = []) :
    s.feedStep feed e = some { s with feeds := Function.update s.feeds feed feed' } := by
  rw [feedStep_eq h, he, List.map_nil, withFeed_nil]

theorem goes_nil (s : Caster K) (h : Nat) (p : Handler) :
    s.goes h [] p = { s with handlers := Function.update s.handlers h p } := by
  simp only [Caster.goes, List.append_nil, Function.update_eq_self]

theorem serves_turn {s s' : Caster K} {h more : Nat} (hs : s.turn float h more = some s') :
    Serves s (.turn h more) s' := by
  have goes : ∀ {bytes p}, Goes s.caster.server (s.handlers h) bytes p → s' = s.goes h bytes p →
      Serves s (.turn h more) s' := fun hg he => he ▸ .goes _ h _ _ rfl hg
  unfold Caster.turn at hs
  split at hs
  · rename_i incoming req hp
    split at hs
    · dsimp only at hs
      split at hs
      · exact goes (hp ▸ .refuses incoming req _) (Option.some.inj hs).symm
      · split at hs
        · exact goes (hp ▸ .accepts incoming req _ _) (Option.some.inj hs).symm
        · exact goes (hp ▸ .refuses incoming req _) (Option.some.inj hs).symm
    · split at hs
      · exact goes (hp ▸ .closes incoming req) (Option.some.inj hs).symm
      · rename_i hmore _
        refine goes (hp ▸ .reads incoming req _ _ ?_) (Option.some.inj hs).symm
        rw [not_or] at hmore
        rw [recv, List.length_append, List.length_take]
        omega
  · rename_i mount feed todo rows hp
    split at hs
    · split at hs
      · exact goes (hp ▸ .lists _ _ rows _) (Option.some.inj hs).symm
      · exact goes (hp ▸ .table _ rows [] List.nil_prefix) (Option.some.inj hs).symm
    · exact goes (hp ▸ .lists _ _ rows _) (Option.some.inj hs).symm
  · rename_i rows hp
    exact goes (hp ▸ .table _ rows _ (List.prefix_refl _)) (Option.some.inj hs).symm
  · rename_i ntrip2 feed hp
    exact goes (hp ▸ .replies ntrip2 feed) (Option.some.inj hs).symm
  · rename_i feed hp
    rw [feedStep_quiet .subscribe rfl] at hs
    exact Option.some.inj hs ▸ .subscribes h more feed _ hp .subscribe
  · rename_i feed q hp
    refine goes ?_ (Option.some.inj hs).symm
    split
    · exact hp ▸ .stops feed q
    · exact hp ▸ .waits feed q
  · rename_i feed q hp
    split at hs
    · cases hs
    · rename_i item queue hq
      rw [feedStep_quiet (.get q) rfl, Option.map_some, goes_nil] at hs
      exact Option.some.inj hs ▸ .gets h more feed q item queue _ hp hq (.get q)
  · rename_i feed q item hp
    exact goes (hp ▸ .sends feed q item) (Option.some.inj hs).symm
  · rename_i feed q hp
    rw [feedStep_quiet (.unsubscribe q) rfl, Option.map_some, goes_nil] at hs
    exact Option.some.inj hs ▸ .leaves h more feed q _ hp (.unsubscribe q)
  · cases hs

theorem serves_step {s s' : Caster K} {e : Caster.Event} (hs : s.step float e = some s') : Serves s e s' := by
  cases e with
  | connects incoming => exact Option.some.inj hs ▸ .connects incoming
  | turn h more => exact serves_turn hs
  | fails h k =>
    have goes : ∀ {bytes p}, Goes s.caster.server (s.handlers h) bytes p → s' = s.goes h bytes p →
        Serves s (.fails h k) s' := fun hg he => he ▸ .goes _ h _ _ rfl hg
    simp only [Caster.step, Caster.fails] at hs
    split at hs
    · rename_i incoming req hp
      exact goes (hp ▸ .closes incoming req) (Option.some.inj hs).symm
    · rename_i rows hp
      exact goes (hp ▸ .table _ rows _ (List.take_prefix k _)) (Option.some.inj hs).symm
    · rename_i ntrip2 feed hp
      exact goes (hp ▸ .unheard ntrip2 feed _ (List.take_prefix k _)) (Option.some.inj hs).symm
    · rename_i feed q item hp
      exact goes (hp ▸ .breaks feed q item _ (List.take_prefix k _)) (Option.some.inj hs).symm
    · cases hs
  | empty h =>
    simp only [Caster.step] at hs
    split at hs
    · rename_i feed q hp
      split at hs
      · exact Option.some.inj hs ▸ .goes _ h _ _ rfl (hp ▸ .empties feed q)
      · cases hs
    · cases hs
  | publisher feed e =>
    simp only [Caster.step] at hs
    split at hs
    · rename_i hp
      rw [Caster.feedStep] at hs
      obtain ⟨feed', hf, rfl⟩ := Option.map_eq_some_iff.mp hs
      exact .publisher feed e feed' hp (steps_of_step hf)
    · cases hs
  | stop => exact Option.some.inj hs ▸ .stop

/-! ## Feeds -/

/-- The queues that have not been given out are empty, and none of them is
about to be offered an item. -/
structure Unused (s : Fanout) : Prop where
  logs : ∀ q, s.next ≤ q → s.logs q = .empty
  todo : ∀ data todo, s.publisher = .putting data todo → ∀ q ∈ todo, q < s.next

theorem unused_init (name : String) : Unused (.init name) := ⟨fun _ _ => rfl, fun _ _ h => nomatch h⟩

theorem unused_step {s s' : Fanout} {e : Fanout.Event} (ho : Orderly s) (hs : Unused s) (h : Steps s e s') :
    Unused s' := by
  cases h with
  | subscribe =>
    refine ⟨fun q hq => hs.logs q (Nat.le_of_succ_le hq), fun data todo hp q hq => ?_⟩
    exact Nat.lt_succ_of_lt (hs.todo data todo hp q hq)
  | unsubscribe q => exact ⟨hs.logs, hs.todo⟩
  | get q =>
    refine ⟨fun r hr => ?_, hs.todo⟩
    by_cases hq : r = q
    · subst hq
      simp only [Function.update_self, hs.logs r hr]
      rfl
    · simp only [Function.update_of_ne hq, hs.logs r hr]
  | nothing => exact hs
  | announce => exact ⟨hs.logs, fun _ _ h => nomatch h⟩
  | snapshot data order _ _ hsubs =>
    refine ⟨hs.logs, fun _ _ hp q hq => ?_⟩
    cases hp
    exact ho.subs_lt q (hsubs ▸ List.mem_toFinset.mpr hq)
  | put data q todo hp =>
    have hlt := hs.todo _ _ hp
    refine ⟨fun r hr => ?_, fun _ _ h => ?_⟩
    · have hne : r ≠ q := fun he => absurd (hlt q List.mem_cons_self) (by rw [← he]; exact Nat.not_lt.mpr hr)
      simp only [Function.update_of_ne hne, hs.logs r hr]
    · cases h
      exact fun r hr => hlt r (List.mem_cons_of_mem _ hr)
  | returns => exact ⟨hs.logs, fun _ _ h => nomatch h⟩

theorem offered_unused {s : Fanout} (hs : Unused s) : offered s s.next = [] := by
  have hf : s.inFlight s.next = [] := by
    unfold Fanout.inFlight
    split
    · rename_i data todo hp
      exact if_neg fun hm => Nat.lt_irrefl _ (hs.todo data todo hp _ hm)
    · rfl
  rw [offered, hs.logs _ le_rfl, hf]
  rfl

/-- What a step publishes to a queue, it publishes to the subscribers. -/
theorem publishedTo_step {s s' : Fanout} {e : Fanout.Event} (ho : Orderly s) (h : Steps s e s') (q : Nat) :
    s.publishedTo q [e] = if q ∈ s.feed.subs then (s.copied e).map Prod.fst else [] := by
  have hsnap : s.snapshots [e] = s.copied e := by rw [snapshots_cons (step_of_steps h)]; exact List.append_nil _
  have hmem := copied_step ho h
  split
  · rename_i hq
    rw [publishedTo_all (hsnap ▸ fun x hx => ((hmem x hx).2 q).mpr hq), hsnap]
  · rename_i hq
    exact publishedTo_none (hsnap ▸ fun x hx hm => hq (((hmem x hx).2 q).mp hm))

theorem subs_publisher {s s' : Fanout} {e : Fanout.Event} (h : Steps s e s') (he : Caster.isPublisher e = true) :
    s'.feed.subs = s.feed.subs ∧ s'.next = s.next := by
  cases h with
  | subscribe | unsubscribe | get => cases he
  | nothing | announce | snapshot | put | returns => exact ⟨rfl, rfl⟩

/-- Only a get takes an item. -/
theorem taken_step {s s' : Fanout} {e : Fanout.Event} (h : Steps s e s') {q : Nat} (he : e ≠ .get q) :
    (s'.logs q).taken = (s.logs q).taken := by
  cases h with
  | subscribe | unsubscribe | nothing | announce | snapshot | returns => rfl
  | get r =>
    have hr : q ≠ r := fun hr => he (hr ▸ rfl)
    simp only [Function.update_of_ne hr]
  | put data r todo hp =>
    by_cases hq : q = r
    · subst hq
      simp only [Function.update_self]
      rfl
    · simp only [Function.update_of_ne hq]

theorem taken_get {l : BoundedQueue.Log Bytes MAXSIZE} {item : Bytes} {queue : Queue}
    (h : l.queue.get? = some (item, queue)) : l.take.taken = l.taken ++ [item] := by
  unfold BoundedQueue.Log.take
  split
  · rename_i hn
    rw [h] at hn
    cases hn
  · rename_i hn
    rw [h] at hn
    cases hn
    rfl

/-! ## The invariant -/

/-- What a thread has sent: nothing, the status line, and then what it has got
from its queue but for what it holds; a connection that broke is cut short. -/
def HasSent (s : Caster K) (h : Nat) : Prop :=
  match s.joined h with
  | none =>
    match s.handlers h with
    | .requesting _ _ | .listing _ _ | .replying _ _ => s.sent h = []
    | .subscribing _ => ∃ ntrip2, s.sent h = NtripCaster.accepted s.caster.server ntrip2
    | _ => (∃ rows, s.sent h <+: NtripCaster.tableOf s.caster.server rows) ∨
        ∃ ntrip2, s.sent h <+: NtripCaster.accepted s.caster.server ntrip2
  | some (feed, q) => ∃ ntrip2 sent, s.sent h = NtripCaster.accepted s.caster.server ntrip2 ++ sent ∧
      match s.handlers h with
      | .leaving _ _ | .closed => sent <+: ((s.feeds feed).logs q).taken.flatten
      | p => sent ++ p.held = ((s.feeds feed).logs q).taken.flatten

/-- Who has a queue, and which. -/
structure Members (s : Caster K) : Prop where
  /-- A thread with a queue has joined, and one that has joined has one until it is closed. -/
  queue : ∀ h x, (s.handlers h).queue = some x → s.joined h = some x
  alone : ∀ h x, s.joined h = some x → (s.handlers h).queue = some x ∨ s.handlers h = .closed
  /-- No queue is given twice. -/
  made : ∀ h f q, s.joined h = some (f, q) → q < (s.feeds f).next
  own : ∀ h h' x, s.joined h = some x → s.joined h' = some x → h = h'
  /-- The subscribers of a feed are the queues of the threads. -/
  subs : ∀ f q, q ∈ (s.feeds f).feed.subs ↔ ∃ h, (s.handlers h).queue = some (f, q)

/-- What is recorded of the feeds. -/
structure Records (s : Caster K) : Prop where
  since : ∀ h f q, s.joined h = some (f, q) → offered (s.feeds f) q = s.since h
  outside : ∀ h, s.joined h = none → s.since h = []
  published : ∀ h f q, s.joined h = some (f, q) → s.since h <:+: s.published f
  latest : ∀ h f q, (s.handlers h).queue = some (f, q) → s.since h <:+ s.published f

/-- The invariant of a caster with its threads. -/
structure Sound (s : Caster K) : Prop where
  orderly : ∀ f, Orderly (s.feeds f)
  unused : ∀ f, Unused (s.feeds f)
  fresh : ∀ h, s.connections ≤ h → s.handlers h = .closed ∧ s.joined h = none ∧ s.sent h = []
  members : Members s
  records : Records s
  sent : ∀ h, HasSent s h

theorem sound_init (caster : NtripCaster K) (name : Nat → String) : Sound (.init caster name) where
  orderly f := orderly_init (name f)
  unused f := unused_init (name f)
  fresh _ _ := ⟨rfl, rfl, rfl⟩
  members := {
    queue := fun _ _ h => nomatch h
    alone := fun _ _ h => nomatch h
    made := fun _ _ _ h => nomatch h
    own := fun _ _ _ h => nomatch h
    subs := fun f q => by simp [Caster.init, Fanout.init, Feed.new, Handler.queue] }
  records := {
    since := fun _ _ _ h => nomatch h
    outside := fun _ _ => rfl
    published := fun _ _ _ h => nomatch h
    latest := fun _ _ _ h => nomatch h }
  sent _ := .inl ⟨[], List.nil_prefix⟩

theorem old_of_ne {s : Caster K} (hs : Sound s) {h : Nat} (hc : s.handlers h ≠ .closed) : h < s.connections := by
  by_contra hlt
  exact hc (hs.fresh h (Nat.le_of_not_lt hlt)).1

/-! ### Threads that go on -/

theorem Goes.queue_eq {server : String} {p p' : Handler} {bytes : Bytes} (h : Goes server p bytes p') :
    p'.queue = p.queue := by
  cases h <;> rfl

theorem Goes.not_closed {server : String} {p p' : Handler} {bytes : Bytes} (h : Goes server p bytes p') :
    p ≠ .closed := by
  cases h <;> nofun

theorem queue_update {H : Nat → Handler} {h : Nat} {p : Handler} (hp : p.queue = (H h).queue) (h' : Nat) :
    (Function.update H h p h').queue = (H h').queue := by
  by_cases he : h' = h
  · subst he
    rw [Function.update_self, hp]
  · rw [Function.update_of_ne he]

/-- A step after which the threads have the queues they had. -/
theorem Members.congr {s s' : Caster K} (hm : Members s)
    (hq : ∀ h, (s'.handlers h).queue = (s.handlers h).queue)
    (hc : ∀ h x, s.joined h = some x → s.handlers h = .closed → s'.handlers h = .closed) (hj : s'.joined = s.joined)
    (hf : ∀ f, (s'.feeds f).feed.subs = (s.feeds f).feed.subs ∧ (s'.feeds f).next = (s.feeds f).next) :
    Members s' where
  queue h x hx := by
    rw [hj]
    exact hm.queue h x (hq h ▸ hx)
  alone h x hx := by
    rw [hj] at hx
    rw [hq]
    exact (hm.alone h x hx).imp_right (hc h x hx)
  made h f q hx := by
    rw [(hf f).2]
    exact hm.made h f q (hj ▸ hx)
  own := hj ▸ hm.own
  subs f q := by
    rw [(hf f).1, hm.subs f q]
    simp only [hq]

/-- A step that publishes nothing and gives no queue. -/
theorem Records.congr {s s' : Caster K} (hr : Records s)
    (hq : ∀ h x, (s'.handlers h).queue = some x → (s.handlers h).queue = some x) (hj : s'.joined = s.joined)
    (hs : s'.since = s.since) (hp : s'.published = s.published)
    (hf : ∀ f q, offered (s'.feeds f) q = offered (s.feeds f) q) : Records s' where
  since h f q hx := by
    rw [hf, hs]
    exact hr.since h f q (hj ▸ hx)
  outside h hx := by
    rw [hs]
    exact hr.outside h (hj ▸ hx)
  published h f q hx := by
    rw [hs, hp]
    exact hr.published h f q (hj ▸ hx)
  latest h f q hx := by
    rw [hs, hp]
    exact hr.latest h f q (hq h _ hx)

/-- A thread without a queue has sent a status line at most, or its part of a table. -/
theorem hasSent_goes_none {s : Caster K} {h : Nat} (hsent : HasSent s h) (hm : Members s) (hj : s.joined h = none)
    {bytes : Bytes} {p : Handler} (hg : Goes s.caster.server (s.handlers h) bytes p) :
    HasSent (s.goes h bytes p) h := by
  have hqueue := hm.queue h
  unfold HasSent at hsent ⊢
  simp only [Caster.goes, Function.update_self]
  rw [hj] at hsent hqueue ⊢
  generalize s.handlers h = p₀ at *
  cases hg with
  | reads | refuses | accepts | lists =>
    dsimp only at hsent ⊢
    rw [hsent, List.append_nil]
  | closes =>
    dsimp only at hsent ⊢
    exact .inl ⟨[], by rw [hsent]; exact List.nil_prefix⟩
  | table todo rows _ hb =>
    dsimp only at hsent ⊢
    exact .inl ⟨rows, by rwa [hsent, List.nil_append]⟩
  | replies ntrip2 =>
    dsimp only at hsent ⊢
    exact ⟨ntrip2, by rw [hsent, List.nil_append]⟩
  | unheard ntrip2 _ _ hb =>
    dsimp only at hsent ⊢
    exact .inr ⟨ntrip2, by rwa [hsent, List.nil_append]⟩
  | waits | stops | empties | sends | breaks => cases hqueue _ rfl

/-- A thread with a queue sends what it holds, or a part of it and no more. -/
theorem hasSent_goes_some {s : Caster K} {h : Nat} (hsent : HasSent s h) (hm : Members s) {x : Nat × Nat}
    (hj : s.joined h = some x) {bytes : Bytes} {p : Handler} (hg : Goes s.caster.server (s.handlers h) bytes p) :
    HasSent (s.goes h bytes p) h := by
  have hqueue := (hm.alone h x hj).resolve_right hg.not_closed
  unfold HasSent at hsent ⊢
  simp only [Caster.goes, Function.update_self]
  rw [hj] at hsent ⊢
  obtain ⟨ntrip2, sent, hbytes, hsent⟩ := hsent
  generalize s.handlers h = p₀ at *
  refine ⟨ntrip2, sent ++ bytes, by rw [hbytes, List.append_assoc], ?_⟩
  cases hg with
  | reads | closes | refuses | accepts | lists | table | replies | unheard => cases hqueue
  | waits | empties | sends =>
    simp only [Handler.held, List.append_nil] at hsent ⊢
    exact hsent
  | stops =>
    simp only [Handler.held, List.append_nil] at hsent ⊢
    exact hsent ▸ List.prefix_refl _
  | breaks _ _ item _ hb =>
    simp only [Handler.held] at hsent ⊢
    rw [← hsent]
    exact (List.prefix_append_right_inj sent).mpr hb

/-- What another thread has sent is not touched. -/
theorem HasSent.congr {s s' : Caster K} {h : Nat} (hs : HasSent s h) (hc : s'.caster = s.caster)
    (hj : s'.joined h = s.joined h) (hp : s'.handlers h = s.handlers h) (hb : s'.sent h = s.sent h)
    (hl : ∀ f q, s.joined h = some (f, q) → ((s'.feeds f).logs q).taken = ((s.feeds f).logs q).taken) :
    HasSent s' h := by
  unfold HasSent at hs ⊢
  rw [hc, hj, hp, hb]
  cases hjoined : s.joined h with
  | none =>
    rw [hjoined] at hs
    exact hs
  | some x =>
    rw [hjoined] at hs
    obtain ⟨ntrip2, sent, hbytes, hs⟩ := hs
    refine ⟨ntrip2, sent, hbytes, ?_⟩
    rw [hl x.1 x.2 hjoined]
    exact hs

theorem sound_goes {s : Caster K} (hs : Sound s) {h : Nat} {bytes : Bytes} {p : Handler}
    (hg : Goes s.caster.server (s.handlers h) bytes p) : Sound (s.goes h bytes p) := by
  have hold := old_of_ne hs hg.not_closed
  have hqueue := fun h' => queue_update (H := s.handlers) hg.queue_eq h'
  refine ⟨hs.orderly, hs.unused, fun h' hle => ?_, hs.members.congr hqueue (fun h' x _ hc => ?_) rfl fun _ => ⟨rfl, rfl⟩,
    hs.records.congr (fun h' x hx => hqueue h' ▸ hx) rfl rfl rfl fun _ _ => rfl, fun h' => ?_⟩
  · have hne : h' ≠ h := fun he => absurd hold (Nat.not_lt.mpr (he ▸ hle))
    simp only [Caster.goes, Function.update_of_ne hne]
    exact hs.fresh h' hle
  · have hne : h' ≠ h := fun he => hg.not_closed (he ▸ hc)
    simp only [Caster.goes, Function.update_of_ne hne, hc]
  · by_cases he : h' = h
    · subst he
      cases hj : s.joined h' with
      | none => exact hasSent_goes_none (hs.sent h') hs.members hj hg
      | some x => exact hasSent_goes_some (hs.sent h') hs.members hj hg
    · refine (hs.sent h').congr rfl rfl ?_ ?_ fun _ _ _ => rfl
      · simp only [Caster.goes, Function.update_of_ne he]
      · simp only [Caster.goes, Function.update_of_ne he]

/-! ### Steps of a feed -/

theorem offered_quiet {s s' : Fanout} {e : Fanout.Event} (ho : Orderly s) (h : Steps s e s') (he : s.copied e = [])
    (q : Nat) : offered s' q = offered s q := by
  rw [offered_step ho h, publishedTo_rest (step_of_steps h) he, List.append_nil]

/-- A property of the feeds, after a step of one of them. -/
theorem forall_feeds {P : Nat → Fanout → Prop} {feeds : Nat → Fanout} {feed : Nat} {feed' : Fanout}
    (h : ∀ f, P f (feeds f)) (h' : P feed feed') (f : Nat) : P f (Function.update feeds feed feed' f) := by
  by_cases hf : f = feed
  · subst hf
    rwa [Function.update_self]
  · rw [Function.update_of_ne hf]
    exact h f

theorem feeds_step {s : Caster K} (hs : Sound s) {feed : Nat} {e : Fanout.Event} {feed' : Fanout}
    (hf : Steps (s.feeds feed) e feed') :
    (∀ f, Orderly (Function.update s.feeds feed feed' f)) ∧ ∀ f, Unused (Function.update s.feeds feed feed' f) :=
  ⟨forall_feeds (P := fun _ => Orderly) hs.orderly (orderly_step (hs.orderly feed) hf),
    forall_feeds (P := fun _ => Unused) hs.unused (unused_step (hs.orderly feed) (hs.unused feed) hf)⟩

theorem offered_feeds {s : Caster K} (hs : Sound s) {feed : Nat} {e : Fanout.Event} {feed' : Fanout}
    (hf : Steps (s.feeds feed) e feed') (he : (s.feeds feed).copied e = []) (f q : Nat) :
    offered (Function.update s.feeds feed feed' f) q = offered (s.feeds f) q :=
  forall_feeds (P := fun f F => offered F q = offered (s.feeds f) q) (fun _ => rfl)
    (offered_quiet (hs.orderly feed) hf he q) f

theorem taken_feeds {s : Caster K} {feed : Nat} {e : Fanout.Event} {feed' : Fanout} (hf : Steps (s.feeds feed) e feed')
    {f q : Nat} (he : f = feed → e ≠ .get q) :
    ((Function.update s.feeds feed feed' f).logs q).taken = ((s.feeds f).logs q).taken := by
  by_cases h : f = feed
  · subst h
    rw [Function.update_self, taken_step hf (he rfl)]
  · rw [Function.update_of_ne h]

/-- A thread that has not joined gets a queue nobody has had. -/
theorem Members.join {s s' : Caster K} (hm : Members s) {h feed : Nat} (hn : s.joined h = none)
    (hj : s'.joined = Function.update s.joined h (some (feed, (s.feeds feed).next)))
    (hh : ∀ h' ≠ h, s'.handlers h' = s.handlers h')
    (hq : (s'.handlers h).queue = some (feed, (s.feeds feed).next))
    (hsubs : ∀ f q, q ∈ (s'.feeds f).feed.subs ↔ (feed, (s.feeds feed).next) = (f, q) ∨ q ∈ (s.feeds f).feed.subs)
    (hle : ∀ f, (s.feeds f).next ≤ (s'.feeds f).next) (hlt : (s.feeds feed).next < (s'.feeds feed).next) :
    Members s' := by
  have hnew : ∀ h', s.joined h' ≠ some (feed, (s.feeds feed).next) := fun h' hx =>
    Nat.lt_irrefl _ (hm.made h' feed _ hx)
  have hold : (s.handlers h).queue = none := by
    cases hqueue : (s.handlers h).queue with
    | none => rfl
    | some x => exact absurd (hm.queue h x hqueue) (by rw [hn]; nofun)
  have hjoined : ∀ h' x, s'.joined h' = some x →
      (h' = h ∧ x = (feed, (s.feeds feed).next)) ∨ (h' ≠ h ∧ s.joined h' = some x) := by
    intro h' x hx
    rw [hj] at hx
    by_cases he : h' = h
    · subst he
      rw [Function.update_self] at hx
      exact .inl ⟨rfl, (Option.some.inj hx).symm⟩
    · rw [Function.update_of_ne he] at hx
      exact .inr ⟨he, hx⟩
  refine ⟨fun h' x hx => ?_, fun h' x hx => ?_, fun h' f q hx => ?_, fun h₁ h₂ x hx₁ hx₂ => ?_, fun f q => ?_⟩
  · rw [hj]
    by_cases he : h' = h
    · subst he
      rw [Function.update_self, ← hq, hx]
    · rw [Function.update_of_ne he]
      exact hm.queue h' x (hh h' he ▸ hx)
  · rcases hjoined h' x hx with ⟨rfl, rfl⟩ | ⟨he, hx⟩
    · exact .inl hq
    · rw [hh h' he]
      exact hm.alone h' x hx
  · rcases hjoined h' _ hx with ⟨rfl, hx⟩ | ⟨-, hx⟩
    · cases hx
      exact hlt
    · exact (hm.made h' f q hx).trans_le (hle f)
  · rcases hjoined h₁ x hx₁ with ⟨rfl, rfl⟩ | ⟨-, hx₁⟩ <;> rcases hjoined h₂ _ hx₂ with ⟨rfl, hx₂⟩ | ⟨-, hx₂⟩
    · rfl
    · exact absurd hx₂ (hnew h₂)
    · exact absurd (hx₂ ▸ hx₁) (hnew h₁)
    · exact hm.own h₁ h₂ x hx₁ hx₂
  · rw [hsubs, hm.subs]
    constructor
    · rintro (hx | ⟨h', hx⟩)
      · exact ⟨h, hq.trans (congrArg some hx)⟩
      · have he : h' ≠ h := fun he => by rw [he, hold] at hx; cases hx
        exact ⟨h', by rw [hh h' he, hx]⟩
    · rintro ⟨h', hx⟩
      by_cases he : h' = h
      · subst he
        exact .inl (Option.some.inj (hq.symm.trans hx))
      · exact .inr ⟨h', hh h' he ▸ hx⟩

theorem sound_subscribe {s : Caster K} (hs : Sound s) {h feed : Nat} {feed' : Fanout}
    (hp : s.handlers h = .subscribing feed) (hf : Steps (s.feeds feed) .subscribe feed') :
    Sound { s with
      feeds := Function.update s.feeds feed feed'
      handlers := Function.update s.handlers h (.serving feed (s.feeds feed).next)
      joined := Function.update s.joined h (some (feed, (s.feeds feed).next)) } := by
  have hold := old_of_ne hs (h := h) (by rw [hp]; nofun)
  have hnone : s.joined h = none := by
    cases hj : s.joined h with
    | none => rfl
    | some x => rcases hs.members.alone h x hj with hq | hc <;> rw [hp] at * <;> contradiction
  have hoff := offered_feeds hs hf rfl
  have hsince := hs.records.outside h hnone
  have hlogs : ∀ f q, ((Function.update s.feeds feed feed' f).logs q).taken = ((s.feeds f).logs q).taken :=
    fun f q => taken_feeds hf fun _ => nofun
  have hjoined : ∀ {h' : Nat}, h' ≠ h → Function.update s.joined h (some (feed, (s.feeds feed).next)) h' = s.joined h' :=
    fun he => Function.update_of_ne he ..
  refine ⟨(feeds_step hs hf).1, (feeds_step hs hf).2, fun h' hle => ?_, ?_, ?_, fun h' => ?_⟩
  · have hne : h' ≠ h := fun he => absurd hold (Nat.not_lt.mpr (he ▸ hle))
    simp only [Function.update_of_ne hne]
    exact hs.fresh h' hle
  · cases hf
    refine hs.members.join hnone rfl (fun h' he => Function.update_of_ne he ..) ?_ (fun f q => ?_) ?_ ?_
    · simp only [Function.update_self, Handler.queue]
    · by_cases hf : f = feed
      · subst hf
        simp only [Function.update_self, Feed.subscribe, Finset.mem_insert, Prod.mk.injEq, true_and]
        rw [eq_comm]
      · simp only [Function.update_of_ne hf, Prod.mk.injEq, Ne.symm hf, false_and, false_or]
    · exact forall_feeds (P := fun f F => (s.feeds f).next ≤ F.next) (fun _ => le_rfl) (Nat.le_succ _)
    · simp only [Function.update_self]
      exact Nat.lt_succ_self _
  · refine ⟨fun h' f q hj => ?_, fun h' hj => ?_, fun h' f q hj => ?_, fun h' f q hq => ?_⟩
    all_goals by_cases he : h' = h
    · subst he
      simp only [Function.update_self, Option.some.injEq, Prod.mk.injEq] at hj
      obtain ⟨rfl, rfl⟩ := hj
      rw [hoff, hsince, offered_unused (hs.unused _)]
    · rw [hoff]
      exact hs.records.since h' f q (hjoined he ▸ hj)
    · exact he ▸ hsince
    · exact hs.records.outside h' (hjoined he ▸ hj)
    · rw [he]
      exact hsince ▸ List.nil_infix
    · exact hs.records.published h' f q (hjoined he ▸ hj)
    · rw [he]
      exact hsince ▸ List.nil_suffix
    · simp only [Function.update_of_ne he] at hq
      exact hs.records.latest h' f q hq
  · by_cases he : h' = h
    · subst he
      have hsent := hs.sent h'
      unfold HasSent at hsent ⊢
      rw [hnone, hp] at hsent
      obtain ⟨ntrip2, hsent⟩ := hsent
      simp only [Function.update_self]
      refine ⟨ntrip2, [], by rw [hsent, List.append_nil], ?_⟩
      have htaken := hlogs feed (s.feeds feed).next
      rw [Function.update_self, (hs.unused feed).logs _ le_rfl] at htaken
      rw [htaken]
      rfl
    · exact (hs.sent h').congr rfl (hjoined he) (Function.update_of_ne he ..) rfl fun f q _ => hlogs f q

theorem sound_get {s : Caster K} (hs : Sound s) {h feed q : Nat} {item : Bytes} {queue : Queue} {feed' : Fanout}
    (hp : s.handlers h = .waiting feed q) (hq : ((s.feeds feed).logs q).queue.get? = some (item, queue))
    (hf : Steps (s.feeds feed) (.get q) feed') :
    Sound { s with
      feeds := Function.update s.feeds feed feed'
      handlers := Function.update s.handlers h (.sending feed q item) } := by
  have hold := old_of_ne hs (h := h) (by rw [hp]; nofun)
  have hqueue := fun h' => queue_update (H := s.handlers) (h := h) (p := .sending feed q item) (by rw [hp]; rfl) h'
  have hjoined := hs.members.queue h (feed, q) (by rw [hp]; rfl)
  refine ⟨(feeds_step hs hf).1, (feeds_step hs hf).2, fun h' hle => ?_, hs.members.congr hqueue (fun h' x _ hc => ?_) rfl
    ?_, hs.records.congr (fun h' x hx => hqueue h' ▸ hx) rfl rfl rfl (offered_feeds hs hf rfl), fun h' => ?_⟩
  · have hne : h' ≠ h := fun he => absurd hold (Nat.not_lt.mpr (he ▸ hle))
    simp only [Function.update_of_ne hne]
    exact hs.fresh h' hle
  · have hne : h' ≠ h := fun he => by rw [he, hp] at hc; cases hc
    simp only [Function.update_of_ne hne, hc]
  · cases hf
    exact forall_feeds (P := fun f F => F.feed.subs = (s.feeds f).feed.subs ∧ F.next = (s.feeds f).next)
      (fun _ => ⟨rfl, rfl⟩) ⟨rfl, rfl⟩
  · by_cases he : h' = h
    · subst he
      have hsent := hs.sent h'
      unfold HasSent at hsent ⊢
      rw [hjoined, hp] at hsent
      obtain ⟨ntrip2, sent, hbytes, hsent⟩ := hsent
      simp only [hjoined, Function.update_self]
      refine ⟨ntrip2, sent, hbytes, ?_⟩
      cases hf
      simp only [Function.update_self, taken_get hq, Handler.held, List.append_nil] at hsent ⊢
      rw [hsent, List.flatten_append, List.flatten_singleton]
    -- another thread has another queue
    · refine (hs.sent h').congr rfl rfl (Function.update_of_ne he ..) rfl fun f r hj => taken_feeds hf ?_
      rintro rfl hr
      cases hr
      exact he (hs.members.own h' h _ hj hjoined)

theorem sound_leave {s : Caster K} (hs : Sound s) {h feed q : Nat} {feed' : Fanout}
    (hp : s.handlers h = .leaving feed q) (hf : Steps (s.feeds feed) (.unsubscribe q) feed') :
    Sound { s with
      feeds := Function.update s.feeds feed feed'
      handlers := Function.update s.handlers h .closed } := by
  have hold := old_of_ne hs (h := h) (by rw [hp]; nofun)
  have hjoined := hs.members.queue h (feed, q) (by rw [hp]; rfl)
  have hqueue : ∀ h' x, (Function.update s.handlers h .closed h').queue = some x ↔
      h' ≠ h ∧ (s.handlers h').queue = some x := by
    intro h' x
    by_cases he : h' = h
    · subst he
      rw [Function.update_self]
      exact ⟨(fun hx => nomatch hx), fun hx => absurd rfl hx.1⟩
    · rw [Function.update_of_ne he]
      exact ⟨fun hx => ⟨he, hx⟩, And.right⟩
  have hnext : ∀ f, (Function.update s.feeds feed feed' f).next = (s.feeds f).next := by
    cases hf
    exact forall_feeds (P := fun f F => F.next = (s.feeds f).next) (fun _ => rfl) rfl
  refine ⟨(feeds_step hs hf).1, (feeds_step hs hf).2, fun h' hle => ?_, ⟨fun h' x hx => ?_, fun h' x hj => ?_,
    fun h' f r hj => ?_, hs.members.own, fun f r => ?_⟩,
    hs.records.congr (fun h' x hx => ((hqueue h' x).mp hx).2) rfl rfl rfl (offered_feeds hs hf rfl), fun h' => ?_⟩
  · have hne : h' ≠ h := fun he => absurd hold (Nat.not_lt.mpr (he ▸ hle))
    simp only [Function.update_of_ne hne]
    exact hs.fresh h' hle
  · exact hs.members.queue h' x ((hqueue h' x).mp hx).2
  · by_cases he : h' = h
    · subst he
      exact .inr (Function.update_self ..)
    · simp only [Function.update_of_ne he]
      exact hs.members.alone h' x hj
  · rw [hnext]
    exact hs.members.made h' f r hj
  · simp only [hqueue]
    have hmem : r ∈ (Function.update s.feeds feed feed' f).feed.subs ↔
        (f, r) ≠ (feed, q) ∧ r ∈ (s.feeds f).feed.subs := by
      cases hf
      by_cases hff : f = feed
      · subst hff
        simp only [Function.update_self, Feed.unsubscribe, Finset.mem_erase, ne_eq, Prod.mk.injEq, true_and]
      · simp only [Function.update_of_ne hff, ne_eq, Prod.mk.injEq, hff, false_and, not_false_eq_true, true_and]
    rw [hmem, hs.members.subs f r]
    constructor
    · rintro ⟨hne, h', hx⟩
      refine ⟨h', fun he => hne ?_, hx⟩
      rw [he, hp] at hx
      exact (Option.some.inj hx).symm
    · rintro ⟨h', he, hx⟩
      refine ⟨fun hne => he ?_, h', hx⟩
      exact hs.members.own h' h _ (hs.members.queue h' _ hx) (hne ▸ hjoined)
  · by_cases he : h' = h
    · subst he
      have hsent := hs.sent h'
      unfold HasSent at hsent ⊢
      rw [hjoined, hp] at hsent
      obtain ⟨ntrip2, sent, hbytes, hsent⟩ := hsent
      simp only [hjoined, Function.update_self]
      refine ⟨ntrip2, sent, hbytes, ?_⟩
      have htaken := taken_feeds hf (f := feed) (q := q) fun _ => nofun
      rw [Function.update_self] at htaken
      rw [htaken]
      exact hsent
    · exact (hs.sent h').congr rfl rfl (Function.update_of_ne he ..) rfl fun f r _ => taken_feeds hf fun _ => nofun

/-- What is published on a feed is published to the threads that serve it. -/
theorem Records.publish {s : Caster K} (hs : Sound s) {feed : Nat} {e : Fanout.Event} {feed' : Fanout}
    (hf : Steps (s.feeds feed) e feed') :
    Records (withFeed s feed feed' (((s.feeds feed).copied e).map Prod.fst)) := by
  have hserves : ∀ h f q, s.joined h = some (f, q) → ((s.handlers h).queue.map Prod.fst = some feed ↔
      f = feed ∧ q ∈ (s.feeds f).feed.subs) := by
    intro h f q hj
    rw [hs.members.subs f q]
    constructor
    · intro hq
      obtain ⟨x, hx, rfl⟩ := Option.map_eq_some_iff.mp hq
      obtain rfl := Option.some.inj (hj.symm.trans (hs.members.queue h x hx))
      exact ⟨rfl, h, hx⟩
    · rintro ⟨rfl, h', hx⟩
      obtain rfl := hs.members.own h' h _ (hs.members.queue h' _ hx) hj
      rw [hx]
      rfl
  have hseen : ∀ h f q, s.joined h = some (f, q) → (s.handlers h).queue.map Prod.fst = some feed →
      s.since h <:+ s.published feed := by
    intro h f q hj hq
    obtain ⟨x, hx, rfl⟩ := Option.map_eq_some_iff.mp hq
    exact hs.records.latest h x.1 x.2 hx
  have hsuffix : ∀ {l l' items : List Bytes}, l <:+ l' → l ++ items <:+ l' ++ items := fun h => by
    obtain ⟨pre, rfl⟩ := h
    exact ⟨pre, by rw [List.append_assoc]⟩
  refine ⟨fun h f q hj => ?_, fun h hj => ?_, fun h f q hj => ?_, fun h f q hq => ?_⟩
  · have hold := hs.records.since h f q hj
    by_cases hff : f = feed
    · subst hff
      have hstep := offered_step (hs.orderly f) hf q
      rw [publishedTo_step (hs.orderly f) hf q, hold] at hstep
      simp only [withFeed, Function.update_self, hstep]
      by_cases hq : q ∈ (s.feeds f).feed.subs
      · rw [if_pos hq, if_pos ((hserves h f q hj).mpr ⟨rfl, hq⟩)]
      · rw [if_neg hq, if_neg fun hx => hq ((hserves h f q hj).mp hx).2, List.append_nil]
    · simp only [withFeed, Function.update_of_ne hff]
      rw [if_neg fun hx => hff ((hserves h f q hj).mp hx).1, hold]
  · have hq : (s.handlers h).queue = none := by
      cases hx : (s.handlers h).queue with
      | none => rfl
      | some x => exact absurd (hs.members.queue h x hx) (by rw [show s.joined h = none from hj]; nofun)
    simp only [withFeed, hq, Option.map_none, reduceCtorEq, if_false]
    exact hs.records.outside h hj
  · simp only [withFeed]
    by_cases hq : (s.handlers h).queue.map Prod.fst = some feed
    · obtain ⟨rfl, -⟩ := (hserves h f q hj).mp hq
      rw [if_pos hq, Function.update_self]
      exact (hsuffix (hseen h f q hj hq)).isInfix
    · rw [if_neg hq]
      refine (hs.records.published h f q hj).trans ?_
      by_cases hff : f = feed
      · subst hff
        rw [Function.update_self]
        exact (List.prefix_append _ _).isInfix
      · rw [Function.update_of_ne hff]
  · simp only [withFeed] at hq ⊢
    have hlatest := hs.records.latest h f q hq
    rw [hq]
    by_cases hff : f = feed
    · subst hff
      simp only [Option.map_some, if_true, Function.update_self]
      exact hsuffix hlatest
    · simp only [Option.map_some, Option.some.injEq, hff, if_false, Function.update_of_ne, ne_eq, not_false_eq_true]
      exact hlatest

theorem sound_publisher {s : Caster K} (hs : Sound s) {feed : Nat} {e : Fanout.Event} {feed' : Fanout}
    (he : Caster.isPublisher e = true) (hf : Steps (s.feeds feed) e feed') :
    Sound (withFeed s feed feed' (((s.feeds feed).copied e).map Prod.fst)) where
  orderly := (feeds_step hs hf).1
  unused := (feeds_step hs hf).2
  fresh := hs.fresh
  members := hs.members.congr (fun _ => rfl) (fun _ _ _ hc => hc) rfl
    (forall_feeds (P := fun f F => F.feed.subs = (s.feeds f).feed.subs ∧ F.next = (s.feeds f).next)
      (fun _ => ⟨rfl, rfl⟩) (subs_publisher hf he))
  records := .publish hs hf
  sent h := (hs.sent h).congr rfl rfl rfl rfl fun f q _ => taken_feeds hf fun _ hget => by
    rw [hget] at he
    cases he

theorem sound_connects {s : Caster K} (hs : Sound s) (incoming : Bytes) :
    Sound { s with
      connections := s.connections + 1
      handlers := Function.update s.handlers s.connections (.requesting incoming []) } := by
  obtain ⟨hc, hj, hb⟩ := hs.fresh s.connections le_rfl
  have hqueue := fun h' => queue_update (H := s.handlers) (h := s.connections) (p := .requesting incoming [])
    (by rw [hc]; rfl) h'
  refine ⟨hs.orderly, hs.unused, fun h' hle => ?_, hs.members.congr hqueue (fun h' x hx hc' => ?_) rfl
    fun _ => ⟨rfl, rfl⟩, hs.records.congr (fun h' x hx => hqueue h' ▸ hx) rfl rfl rfl fun _ _ => rfl, fun h' => ?_⟩
  · have hne : h' ≠ s.connections := fun he => absurd (he ▸ hle) (Nat.not_succ_le_self _)
    simp only [Function.update_of_ne hne]
    exact hs.fresh h' (Nat.le_of_succ_le hle)
  · have hne : h' ≠ s.connections := fun he => by rw [he, hj] at hx; cases hx
    simp only [Function.update_of_ne hne, hc']
  · by_cases he : h' = s.connections
    · subst he
      unfold HasSent
      simp only [hj, Function.update_self, hb]
    · exact (hs.sent h').congr rfl rfl (Function.update_of_ne he ..) rfl fun _ _ _ => rfl

theorem sound_step {s s' : Caster K} {e : Caster.Event} (h : s.step float e = some s') (hs : Sound s) : Sound s' := by
  cases serves_step h with
  | connects incoming => exact sound_connects hs incoming
  | goes _ h bytes p _ hg => exact sound_goes hs hg
  | subscribes h more feed feed' hp hf => exact sound_subscribe hs hp hf
  | gets h more feed q item queue feed' hp hq hf => exact sound_get hs hp hq hf
  | leaves h more feed q feed' hp hf => exact sound_leave hs hp hf
  | publisher feed e feed' hp hf => exact sound_publisher hs hp hf
  | stop =>
    exact ⟨hs.orderly, hs.unused, hs.fresh, hs.members.congr (fun _ => rfl) (fun _ _ _ hc => hc) rfl fun _ => ⟨rfl, rfl⟩,
      hs.records.congr (fun _ _ hq => hq) rfl rfl rfl fun _ _ => rfl,
      fun h => (hs.sent h).congr rfl rfl rfl rfl fun _ _ _ => rfl⟩

theorem sound_run (caster : NtripCaster K) (name : Nat → String) {es : List Caster.Event} {s : Caster K}
    (h : Transition.run (Caster.step float) (.init caster name) es = some s) : Sound s :=
  keeps (fun _ _ _ => sound_step) h (sound_init caster name)

end Rtcm.Proof
