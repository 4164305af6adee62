import Mathlib.Data.Rat.Floor
import Rtcm3to2p3.Proof.Caster

/-!
# What the caster's clients receive

`client_receives` reads the invariant of `Caster.lean` at one client. A thread
of a stopped caster has fewer calls left after each of its own
(`callsLeft_lt`), and always one to make (`turn_or_empty`): `stop_closes`.
-/

namespace Rtcm.Proof

open Rtcm.Impl Rtcm.Spec Transition

variable {K : Type} {float : K → String}

/-! ## What is received -/

theorem HasSent.outside {s : Caster K} {t : Nat} (hs : HasSent s t) (hj : s.joined t = none) :
    (∃ rows, s.sent t <+: NtripCaster.tableOf s.caster.server rows) ∨
      ∃ ntrip2, s.sent t <+: NtripCaster.accepted s.caster.server ntrip2 := by
  unfold HasSent at hs
  rw [hj] at hs
  dsimp only at hs
  split at hs
  · exact .inl ⟨[], hs ▸ List.nil_prefix⟩
  · exact .inl ⟨[], hs ▸ List.nil_prefix⟩
  · exact .inl ⟨[], hs ▸ List.nil_prefix⟩
  · obtain ⟨ntrip2, hs⟩ := hs
    exact .inr ⟨ntrip2, hs ▸ List.prefix_refl _⟩
  · exact hs

theorem HasSent.joined {s : Caster K} {t f q : Nat} (hs : HasSent s t) (hj : s.joined t = some (f, q)) :
    ∃ ntrip2 sent, s.sent t = NtripCaster.accepted s.caster.server ntrip2 ++ sent ∧
      sent ++ (s.handlers t).held <+: ((s.feeds f).logs q).taken.flatten ∧
      ((s.handlers t).serves = true → sent ++ (s.handlers t).held = ((s.feeds f).logs q).taken.flatten) := by
  unfold HasSent at hs
  rw [hj] at hs
  obtain ⟨ntrip2, sent, hbytes, hs⟩ := hs
  refine ⟨ntrip2, sent, hbytes, ?_⟩
  split at hs
  · rename_i hp
    rw [hp]
    exact ⟨by rwa [show sent ++ Handler.held (.leaving ..) = sent from List.append_nil _], fun h => nomatch h⟩
  · rename_i hp
    rw [hp]
    exact ⟨by rwa [show sent ++ Handler.held .closed = sent from List.append_nil _], fun h => nomatch h⟩
  · exact ⟨hs ▸ List.prefix_refl _, fun _ => hs⟩

/-- Whatever the order of the threads' and the publishers' steps, and whichever
connections break: the subscribers of a feed are the queues of the threads that
have not left, no two threads have the same queue, and who is not subscribed is
sent a sourcetable or a status line at most. A subscriber is sent the status
line and then, in order and without change, what it gets from its queue. This
went through the queue as it was published since the thread joined, but for
the items whose put found 512 others. -/
theorem client_receives (caster : NtripCaster K) (name : Nat → String) {es : List Caster.Event} {s : Caster K}
    (h : Transition.run (Caster.step float) (.init caster name) es = some s) :
    (∀ f q, q ∈ (s.feeds f).feed.subs ↔ ∃ t, (s.handlers t).queue = some (f, q)) ∧
    (∀ t t' x, s.joined t = some x → s.joined t' = some x → t = t') ∧
    (∀ t, s.joined t = none → (∃ rows, s.sent t <+: NtripCaster.tableOf s.caster.server rows) ∨
      ∃ ntrip2, s.sent t <+: NtripCaster.accepted s.caster.server ntrip2) ∧
    ∀ t f q, s.joined t = some (f, q) →
      (∃ ntrip2 sent, s.sent t = NtripCaster.accepted s.caster.server ntrip2 ++ sent ∧
        sent ++ (s.handlers t).held <+: ((s.feeds f).logs q).taken.flatten ∧
        ((s.handlers t).serves = true → sent ++ (s.handlers t).held = ((s.feeds f).logs q).taken.flatten)) ∧
      ((s.feeds f).logs q).offers.map (·.item) ++ (s.feeds f).inFlight q = s.since t ∧
      (s.feeds f).received q = (((s.feeds f).logs q).offers.filter (·.backlog ≠ 512)).map (·.item) ∧
      s.since t <:+: s.published f ∧ ((s.handlers t).queue = some (f, q) → s.since t <:+ s.published f) := by
  have hs := sound_run caster name h
  refine ⟨hs.members.subs, hs.members.own, fun t hj => ?_, fun t f q hj => ⟨?_, hs.records.since t f q hj, ?_,
    hs.records.published t f q hj, hs.records.latest t f q⟩⟩
  · exact (hs.sent t).outside hj
  · exact (hs.sent t).joined hj
  · rw [Fanout.received, BoundedQueue.Log.received, ((s.feeds f).logs q).fifo]
    refine congrArg _ (List.filter_congr fun o ho => ?_)
    have hle : o.backlog ≤ 512 := ((s.feeds f).logs q).backlog_le o ho
    rw [MAXSIZE, decide_eq_decide]
    omega

def oneMount : NtripCaster ℚ := NtripCaster.addFeed {} 0 { mount := "RTCM3", lat := 0, lon := 0 }

/-- A client that joins after the first item, and is sent the second. -/
def joins : List Caster.Event :=
  [.publisher 0 (.publish [1]), .publisher 0 (.snapshot []), .publisher 0 .returns,
    .connects (encode "GET /RTCM3 HTTP/1.0\r\n\r\n"), .turn 0 255, .turn 0 0, .turn 0 0, .turn 0 0, .turn 0 0,
    .publisher 0 (.publish [2]), .publisher 0 (.snapshot [0]), .publisher 0 .put, .turn 0 0, .turn 0 0]

theorem run_joins : ∃ s, Transition.run (Caster.step fun _ => "") (.init oneMount fun _ => "RTCM3") joins = some s ∧
    s.sent 0 = encode "ICY 200 OK\r\n" ++ [2] ∧ s.joined 0 = some (0, 0) ∧ s.since 0 = [[2]] ∧ s.connections = 1 := by
  have h : (Transition.run (Caster.step fun _ => "") (.init oneMount fun _ => "RTCM3") joins).map
      (fun s => (s.sent 0, s.joined 0, s.since 0, s.connections)) =
      some (encode "ICY 200 OK\r\n" ++ [2], some (0, 0), [[2]], 1) := by decide +kernel
  obtain ⟨s, hs, hr⟩ := Option.map_eq_some_iff.mp h
  simp only [Prod.mk.injEq] at hr
  exact ⟨s, hs, hr⟩

theorem client_receives_joins : ∃ s,
    Transition.run (Caster.step fun _ => "") (.init oneMount fun _ => "RTCM3") joins = some s ∧
      s.sent 0 = encode "ICY 200 OK\r\n" ++ [2] ∧
      ((s.feeds 0).logs 0).offers.map (·.item) ++ (s.feeds 0).inFlight 0 = [[2]] := by
  obtain ⟨s, hs, hsent, hj, hsince, -⟩ := run_joins
  have hc := (client_receives oneMount (fun _ => "RTCM3") hs).2.2.2 0 0 0 hj
  exact ⟨s, hs, hsent, hc.2.1.trans hsince⟩

/-! ## After the caster is stopped -/

theorem callsLeft_turn {s s' : Caster K} {h more : Nat} (hst : s.stopped = true) (hs : s.turn float h more = some s') :
    (s'.handlers h).callsLeft s.caster.feeds.items.length < (s.handlers h).callsLeft s.caster.feeds.items.length := by
  have hgoes : ∀ {bytes p}, some (s.goes h bytes p) = some s' → s'.handlers h = p := fun he =>
    Option.some.inj he ▸ Function.update_self ..
  unfold Caster.turn at hs
  split at hs
  · rename_i incoming req hp
    rw [hp]
    split at hs
    · dsimp only at hs
      split at hs
      · rw [hgoes hs, Handler.callsLeft, Handler.callsLeft]
        omega
      · split at hs
        · rw [hgoes hs, Handler.callsLeft, Handler.callsLeft]
          omega
        · rw [hgoes hs, Handler.callsLeft, Handler.callsLeft]
          omega
    · split at hs
      · rw [hgoes hs, Handler.callsLeft, Handler.callsLeft]
        omega
      · rename_i hne
        have hlt := length_recv_lt (by decide : 0 < 256) more hne
        rw [hgoes hs, Handler.callsLeft, Handler.callsLeft]
        omega
  · rename_i mount feed todo rows hp
    rw [hp]
    split at hs
    · split at hs
      · rw [hgoes hs, Handler.callsLeft, Handler.callsLeft, List.length_cons]
        omega
      · rw [hgoes hs, Handler.callsLeft, Handler.callsLeft]
        omega
    · rw [hgoes hs, Handler.callsLeft, Handler.callsLeft, List.length_cons]
      omega
  · rename_i rows hp
    rw [hp, hgoes hs, Handler.callsLeft, Handler.callsLeft]
    omega
  · rename_i ntrip2 feed hp
    rw [hp, hgoes hs, Handler.callsLeft, Handler.callsLeft]
    omega
  · rename_i feed hp
    rw [feedStep_quiet .subscribe rfl] at hs
    obtain rfl := Option.some.inj hs
    rw [hp]
    simp only [Function.update_self, Handler.callsLeft]
    omega
  · rename_i feed q hp
    rw [if_pos hst] at hs
    rw [hp, hgoes hs, Handler.callsLeft, Handler.callsLeft]
    omega
  · rename_i feed q hp
    split at hs
    · cases hs
    · rename_i item queue hq
      rw [feedStep_quiet (.get q) rfl, Option.map_some] at hs
      rw [hp, ← Option.some.inj hs]
      simp only [Caster.goes, Function.update_self, Handler.callsLeft]
      omega
  · rename_i feed q item hp
    rw [hp, hgoes hs, Handler.callsLeft, Handler.callsLeft]
    omega
  · rename_i feed q hp
    rw [feedStep_quiet (.unsubscribe q) rfl, Option.map_some] at hs
    rw [hp, ← Option.some.inj hs]
    simp only [Caster.goes, Function.update_self, Handler.callsLeft]
    omega
  · cases hs

theorem callsLeft_fails {s s' : Caster K} {h k : Nat} (hs : s.fails h k = some s') (n : Nat) :
    (s'.handlers h).callsLeft n < (s.handlers h).callsLeft n := by
  have hgoes : ∀ {bytes p}, some (s.goes h bytes p) = some s' → s'.handlers h = p := fun he =>
    Option.some.inj he ▸ Function.update_self ..
  unfold Caster.fails at hs
  split at hs
  · rename_i hp
    rw [hp, hgoes hs, Handler.callsLeft, Handler.callsLeft]
    omega
  · rename_i hp
    rw [hp, hgoes hs, Handler.callsLeft, Handler.callsLeft]
    omega
  · rename_i hp
    rw [hp, hgoes hs, Handler.callsLeft, Handler.callsLeft]
    omega
  · rename_i hp
    rw [hp, hgoes hs, Handler.callsLeft, Handler.callsLeft]
    omega
  · cases hs

/-- A call of a thread of a stopped caster leaves it fewer. -/
theorem callsLeft_lt {s s' : Caster K} {e : Caster.Event} {h : Nat} (hst : s.stopped = true)
    (hs : s.step float e = some s') (he : e.thread = some h) :
    (s'.handlers h).callsLeft s.caster.feeds.items.length < (s.handlers h).callsLeft s.caster.feeds.items.length := by
  cases e with
  | turn h' more =>
    cases he
    exact callsLeft_turn hst hs
  | fails h' k =>
    cases he
    exact callsLeft_fails hs _
  | empty h' =>
    cases he
    simp only [Caster.step] at hs
    split at hs
    · rename_i feed q hp
      split at hs
      · obtain rfl := Option.some.inj hs
        simp only [Caster.goes, Function.update_self, hp, Handler.callsLeft]
        omega
      · cases hs
    · cases hs
  | connects | publisher | stop => cases he

/-- What no step takes back, and what is not another thread's. -/
structure Later (s s' : Caster K) (e : Caster.Event) : Prop where
  caster : s'.caster = s.caster
  stopped : s.stopped = true → s'.stopped = true
  connections : s.connections ≤ s'.connections
  handlers : ∀ h < s.connections, e.thread ≠ some h → s'.handlers h = s.handlers h

theorem later_of_serves {s s' : Caster K} {e : Caster.Event} (h : Serves s e s') : Later s s' e := by
  cases h with
  | connects incoming => exact ⟨rfl, id, Nat.le_succ _, fun h hlt _ => Function.update_of_ne (Nat.ne_of_lt hlt) ..⟩
  | goes _ h _ _ he =>
    refine ⟨rfl, id, le_rfl, fun h' _ hne => Function.update_of_ne (fun hh => hne ?_) ..⟩
    rw [hh, he]
  | subscribes h | gets h | leaves h =>
    refine ⟨rfl, id, le_rfl, fun h' _ hne => Function.update_of_ne (fun hh => hne ?_) ..⟩
    rw [hh]
    rfl
  | publisher => exact ⟨rfl, id, le_rfl, fun _ _ _ => rfl⟩
  | stop => exact ⟨rfl, fun _ => rfl, le_rfl, fun _ _ _ => rfl⟩

/-- A thread that is not closed has a call to return. -/
theorem turn_or_empty (s : Caster K) {h : Nat} (hc : s.handlers h ≠ .closed) :
    s.turn float h 0 ≠ none ∨ s.step float (.empty h) ≠ none := by
  unfold Caster.turn Caster.step
  cases hp : s.handlers h with
  | closed => exact absurd hp hc
  | waiting feed q =>
    dsimp only
    cases hq : ((s.feeds feed).logs q).queue.get? with
    | none =>
      refine .inr ?_
      have hnil : ((s.feeds feed).logs q).queue.items = [] := by
        unfold BoundedQueue.get? at hq
        split at hq
        · assumption
        · cases hq
      simp only [hp, hnil, if_true]
      nofun
    | some x =>
      refine .inl ?_
      dsimp only
      rw [feedStep_quiet (.get q) rfl]
      nofun
  | subscribing feed =>
    dsimp only
    rw [feedStep_quiet .subscribe rfl]
    exact .inl nofun
  | leaving feed q =>
    dsimp only
    rw [feedStep_quiet (.unsubscribe q) rfl]
    exact .inl nofun
  | requesting incoming req =>
    refine .inl ?_
    dsimp only
    split_ifs
    · split
      · nofun
      · split_ifs
        all_goals nofun
    · nofun
    · nofun
  | listing todo rows =>
    refine .inl ?_
    cases todo with
    | nil => nofun
    | cons x todo =>
      dsimp only
      split_ifs
      · split
        all_goals nofun
      · nofun
  | replying | serving | sending => exact .inl nofun

/-- Once the caster is stopped, each thread returns after a bounded number of
its own calls, whatever the others and the publishers do; until then it always
has one to make, and when all have returned no feed has a subscriber left. -/
theorem stop_closes (caster : NtripCaster K) (name : Nat → String) {es es' : List Caster.Event} {s s' : Caster K}
    (h : Transition.run (Caster.step float) (.init caster name) es = some s) (hst : s.stopped = true)
    (h' : Transition.run (Caster.step float) s es' = some s') :
    (∀ t < s.connections, es'.countP (fun e => e.thread == some t) +
      (s'.handlers t).callsLeft s.caster.feeds.items.length ≤
        (s.handlers t).callsLeft s.caster.feeds.items.length) ∧
    (∀ t, s'.handlers t ≠ .closed → s'.turn float t 0 ≠ none ∨ s'.step float (.empty t) ≠ none) ∧
    ((∀ t, s'.handlers t = .closed) → ∀ f, (s'.feeds f).feed.subs = ∅) := by
  refine ⟨fun t ht => ?_, fun t => turn_or_empty s', fun hall f => ?_⟩
  · refine decreases (I := fun u => u.caster = s.caster ∧ u.stopped = true ∧ s.connections ≤ u.connections)
      (m := fun u => (u.handlers t).callsLeft s.caster.feeds.items.length) ?_ ?_ ?_ h' ⟨rfl, hst, le_rfl⟩
    · intro u e u' hu hI
      have hl := later_of_serves (serves_step hu)
      exact ⟨hl.caster.trans hI.1, hl.stopped hI.2.1, hI.2.2.trans hl.connections⟩
    · intro u e u' hu hI he
      have hlt := callsLeft_lt hI.2.1 hu (eq_of_beq he)
      rwa [hI.1] at hlt
    · intro u e u' hu hI he
      have hl := later_of_serves (serves_step hu)
      rw [hl.handlers t (ht.trans_le hI.2.2) fun hh => by simp [hh] at he]
  · have hs' : Sound s' := keeps (fun _ _ _ => sound_step) h' (sound_run caster name h)
    refine Finset.eq_empty_of_forall_notMem fun q hq => ?_
    obtain ⟨t, ht⟩ := (hs'.members.subs f q).mp hq
    rw [hall t] at ht
    cases ht

theorem stop_closes_joins : ∃ s s', Transition.run (Caster.step fun _ => "") (.init oneMount fun _ => "RTCM3")
      (joins ++ [.stop]) = some s ∧
    Transition.run (Caster.step fun _ => "") s [.turn 0 0, .turn 0 0] = some s' ∧
      2 + (s'.handlers 0).callsLeft 1 ≤ (s.handlers 0).callsLeft 1 := by
  have h : ((Transition.run (Caster.step fun _ => "") (.init oneMount fun _ => "RTCM3") (joins ++ [.stop])).bind fun s =>
      (Transition.run (Caster.step fun _ => "") s [.turn 0 0, .turn 0 0]).map fun _ =>
        (s.stopped, s.connections, s.caster.feeds.items.length)) = some (true, 1, 1) := by decide +kernel
  obtain ⟨s, hs, h⟩ := Option.bind_eq_some_iff.mp h
  obtain ⟨s', hs', hr⟩ := Option.map_eq_some_iff.mp h
  simp only [Prod.mk.injEq] at hr
  have hc := (stop_closes oneMount (fun _ => "RTCM3") hs hr.1 hs').1 0 (by rw [hr.2.1]; decide)
  rw [hr.2.2] at hc
  exact ⟨s, s', hs, hs', hc⟩

end Rtcm.Proof
