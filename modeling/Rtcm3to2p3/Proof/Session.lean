import Rtcm3to2p3.Lib.Transition
import Rtcm3to2p3.Spec.Session

/-!
# What a client hands on, and when it waits

`Proceeds` lists the steps. The waits since a connection was made double up to
30 s (`Backs`), what was handed on of a connection is a prefix of what came
after its header (`Hands`), and once `stop` is set each call leaves fewer
(`callsLeft_step`). From these `stream_waits` and `stream_delivers`.
-/

namespace Rtcm.Proof

open Rtcm.Impl Rtcm.Spec Transition

variable {σ : Type} {client : NtripClient} {onData : σ → Bytes → Py Unit × σ}

/-! ## The steps -/

inductive Proceeds (client : NtripClient) (onData : σ → Bytes → Py Unit × σ) (s : Session σ) :
    Session.Event → Session σ → Prop
  | checks (more : Nat) (hp : s.stage = .checking) : Proceeds client onData s (.turn more)
      { s with stage := if s.stopped then .returned else .connecting }
  | loops (more : Nat) (incoming : Bytes) (hp : s.stage = .looping incoming) :
    Proceeds client onData s (.turn more) { s with stage := if s.stopped then .checking else .receiving incoming }
  | closed (more : Nat) (incoming : Bytes) (hp : s.stage = .receiving incoming) :
    Proceeds client onData s (.turn more) { s with stage := .pausing }
  | receives (more : Nat) (data incoming : Bytes) (hp : s.stage = .receiving (data ++ incoming)) (hne : data ≠ [])
    (hle : data.length ≤ 4096) : Proceeds client onData s (.turn more) { s with stage := .handing data incoming }
  | hands (more : Nat) (data incoming : Bytes) (stage : Stage) (hp : s.stage = .handing data incoming)
    (hs : stage = .looping incoming ∨ stage = .pausing) : Proceeds client onData s (.turn more)
      { s with stage, app := (onData s.app data).2, links := Session.hand data s.links }
  | wakes (more : Nat) (hp : s.stage = .pausing) (hst : s.stopped = true) :
    Proceeds client onData s (.turn more) { s with stage := .returned }
  | refused (incoming : Bytes) (hp : s.stage = .connecting) (hc : (client.connect incoming).toOption = none) :
    Proceeds client onData s (.connects incoming) { s with stage := .pausing }
  | connects (sent incoming : Bytes) (hp : s.stage = .connecting) (hc : client.connect sent = .ok incoming) :
    Proceeds client onData s (.connects sent)
      { s with stage := .looping incoming, backoff := 2, waits := [], links := (incoming, []) :: s.links }
  | fails (hp : s.stage = .connecting ∨ ∃ incoming, s.stage = .receiving incoming) :
    Proceeds client onData s .fails { s with stage := .pausing }
  | elapses (hp : s.stage = .pausing) (hst : s.stopped = false) : Proceeds client onData s .elapses
      { s with stage := .checking, backoff := min (s.backoff * 2) 30, waits := s.waits ++ [s.backoff] }
  | stop : Proceeds client onData s .stop { s with stopped := true }

theorem proceeds_turn {s s' : Session σ} {more : Nat} (h : s.step client onData (.turn more) = some s') :
    Proceeds client onData s (.turn more) s' := by
  simp only [Session.step] at h
  split at h
  · rename_i hp
    exact Option.some.inj h ▸ .checks more hp
  · rename_i incoming hp
    exact Option.some.inj h ▸ .loops more incoming hp
  · rename_i incoming hp
    obtain rfl := Option.some.inj h
    split
    · exact .closed more incoming hp
    · rename_i hne
      refine .receives more _ _ ?_ (fun he => hne (List.isEmpty_iff.mpr he)) ?_
      · rw [hp, recv, List.take_append_drop]
      · rw [recv, List.length_take]
        omega
  · rename_i data incoming hp
    split at h
    · rename_i app ha
      obtain rfl := Option.some.inj h
      have hands := @Proceeds.hands _ client onData s more data incoming (.looping incoming) hp (.inl rfl)
      rwa [ha] at hands
    · rename_i app ha
      obtain rfl := Option.some.inj h
      have hands := @Proceeds.hands _ client onData s more data incoming (.pausing) hp (.inr rfl)
      rwa [ha] at hands
  · rename_i hp
    split at h
    · rename_i hst
      exact Option.some.inj h ▸ .wakes more hp hst
    · cases h
  · cases h
  · cases h

theorem proceeds_step {s s' : Session σ} {e : Session.Event} (h : s.step client onData e = some s') :
    Proceeds client onData s e s' := by
  cases e with
  | turn more => exact proceeds_turn h
  | connects incoming =>
    simp only [Session.step] at h
    split at h
    · rename_i hp
      split at h
      · rename_i hc
        exact Option.some.inj h ▸ .refused incoming hp (congrArg Except.toOption hc)
      · rename_i hc
        exact Option.some.inj h ▸ .connects _ _ hp hc
    · cases h
  | fails =>
    simp only [Session.step] at h
    split at h
    · rename_i hp
      exact Option.some.inj h ▸ .fails (.inl hp)
    · rename_i incoming hp
      exact Option.some.inj h ▸ .fails (.inr ⟨incoming, hp⟩)
    · cases h
  | elapses =>
    simp only [Session.step] at h
    split at h
    · rename_i hp
      split at h
      · cases h
      · rename_i hst
        exact Option.some.inj h ▸ .elapses hp (by simpa using hst)
    · cases h
  | stop => exact Option.some.inj h ▸ .stop

/-! ## The waits -/

theorem backoffOf_succ (k : Nat) : min (backoffOf k * 2) 30 = backoffOf (k + 1) := by
  unfold backoffOf
  rw [Nat.pow_succ 2 (k + 1)]
  omega

theorem backoffOf_range (k : Nat) : 2 ≤ backoffOf k ∧ backoffOf k ≤ 30 := by
  have hpow : 2 ^ 1 ≤ 2 ^ (k + 1) := Nat.pow_le_pow_right (by decide) (by omega)
  unfold backoffOf
  omega

structure Backs (s : Session σ) : Prop where
  backoff : s.backoff = backoffOf s.waits.length
  waits : s.waits = (List.range s.waits.length).map backoffOf
  returned : s.stage = .returned → s.stopped = true

theorem backs_start (app : σ) : Backs (.start app) := ⟨rfl, rfl, fun h => nomatch h⟩

theorem backs_step {s s' : Session σ} {e : Session.Event} (h : Proceeds client onData s e s') (hs : Backs s) :
    Backs s' := by
  cases h with
  | checks more hp | loops more _ hp =>
    refine ⟨hs.backoff, hs.waits, fun hr => ?_⟩
    dsimp only at hr ⊢
    split at hr
    · assumption
    · cases hr
  | hands more data incoming stage hp hst =>
    refine ⟨hs.backoff, hs.waits, fun hr => ?_⟩
    rcases hst with rfl | rfl <;> cases hr
  | wakes more hp hst => exact ⟨hs.backoff, hs.waits, fun _ => hst⟩
  | connects => exact ⟨rfl, rfl, fun hr => nomatch hr⟩
  | elapses =>
    refine ⟨?_, ?_, fun hr => nomatch hr⟩
    · rw [List.length_append, List.length_singleton, ← backoffOf_succ, ← hs.backoff]
    · rw [List.length_append, List.length_singleton, List.range_succ, List.map_append, ← hs.waits, List.map_singleton,
        ← hs.backoff]
  | closed | receives | refused | fails => exact ⟨hs.backoff, hs.waits, fun hr => nomatch hr⟩
  | stop => exact ⟨hs.backoff, hs.waits, fun _ => rfl⟩

theorem callsLeft_step {s s' : Session σ} {e : Session.Event} (h : Proceeds client onData s e s')
    (hst : s.stopped = true) (he : Session.own e = true) : s'.stage.callsLeft < s.stage.callsLeft := by
  cases h with
  | checks more hp | loops more _ hp =>
    rw [hp]
    simp only [hst, if_true, Stage.callsLeft]
    omega
  | hands more data incoming stage hp hstage =>
    rw [hp]
    rcases hstage with rfl | rfl <;> simp only [Stage.callsLeft] <;> omega
  | closed more _ hp | receives more _ _ hp | wakes more hp | refused _ hp | connects _ _ hp =>
    rw [hp]
    simp only [Stage.callsLeft]
    omega
  | fails hp =>
    rcases hp with hp | ⟨incoming, hp⟩ <;> rw [hp] <;> simp only [Stage.callsLeft] <;> omega
  | elapses hp hf =>
    rw [hst] at hf
    cases hf
  | stop => cases he

theorem stopped_step {s s' : Session σ} {e : Session.Event} (h : Proceeds client onData s e s')
    (hst : s.stopped = true) : s'.stopped = true := by
  cases h with
  | stop => rfl
  | _ => exact hst

/-- Only another thread sets `stop`, and `stream` returns for nothing else. -/
theorem own_step {s s' : Session σ} {e : Session.Event} (h : Proceeds client onData s e s')
    (he : Session.own e = true) : s'.stopped = s.stopped ∧ (s'.stage = .returned → s.stopped = true) := by
  cases h with
  | checks more hp =>
    refine ⟨rfl, fun hr => ?_⟩
    dsimp only at hr
    split at hr
    · assumption
    · cases hr
  | loops more incoming hp =>
    refine ⟨rfl, fun hr => ?_⟩
    dsimp only at hr
    split at hr <;> cases hr
  | hands more data incoming stage hp hst =>
    refine ⟨rfl, fun hr => ?_⟩
    rcases hst with rfl | rfl <;> cases hr
  | wakes more hp hst => exact ⟨rfl, fun _ => hst⟩
  | closed | receives | refused | connects | fails | elapses => exact ⟨rfl, fun hr => by cases hr⟩
  | stop => cases he

/-- `stream` has a call to make until it returns. -/
theorem can_proceed (s : Session σ) (hr : s.stage ≠ .returned) :
    s.step client onData (.turn 0) ≠ none ∨ s.step client onData .fails ≠ none ∨
      s.step client onData .elapses ≠ none := by
  simp only [Session.step]
  cases hp : s.stage with
  | returned => exact absurd hp hr
  | checking | looping | receiving => exact .inl nofun
  | connecting => exact .inr (.inl nofun)
  | handing data incoming =>
    refine .inl ?_
    dsimp only
    split
    all_goals nofun
  | pausing =>
    cases hst : s.stopped with
    | true =>
      refine .inl ?_
      simp only [if_true]
      nofun
    | false =>
      refine .inr (.inr ?_)
      simp only [Bool.false_eq_true, if_false]
      nofun

/-- Whatever fails, and however often: the waits since a connection was made
are 2, 4, 8, 16 s and then 30 s each, and `stream` only returns once `stop` is
set. From then on it returns within four calls of its own, and until then it
always has one to make. -/
theorem stream_waits (app : σ) {es : List Session.Event} {s : Session σ}
    (h : run (Session.step client onData) (.start app) es = some s) :
    s.waits = (List.range s.waits.length).map backoffOf ∧ s.backoff = backoffOf s.waits.length ∧
      (∀ w ∈ s.backoff :: s.waits, 2 ≤ w ∧ w ≤ 30) ∧ (s.stage = .returned → s.stopped = true) ∧
      (s.stage ≠ .returned → s.step client onData (.turn 0) ≠ none ∨ s.step client onData .fails ≠ none ∨
        s.step client onData .elapses ≠ none) ∧
      ∀ es' s', s.stopped = true → run (Session.step client onData) s es' = some s' →
        es'.countP Session.own + s'.stage.callsLeft ≤ s.stage.callsLeft ∧ s.stage.callsLeft ≤ 4 ∧
          (s'.stage.callsLeft = 0 → s'.stage = .returned) := by
  have hs : Backs s := keeps (fun _ _ _ he => backs_step (proceeds_step he)) h (backs_start app)
  refine ⟨hs.waits, hs.backoff, List.forall_mem_cons.mpr ⟨?_, fun w hw => ?_⟩, hs.returned, can_proceed s,
    fun es' s' hst h' => ⟨?_, ?_, fun hc => ?_⟩⟩
  · rw [hs.backoff]
    exact backoffOf_range _
  · rw [hs.waits] at hw
    obtain ⟨k, -, rfl⟩ := List.mem_map.mp hw
    exact backoffOf_range k
  · refine decreases (I := fun u => u.stopped = true) (m := fun u => u.stage.callsLeft)
      (fun u e u' hu => stopped_step (proceeds_step hu)) (fun u e u' hu => callsLeft_step (proceeds_step hu)) ?_ h' hst
    intro u e u' hu hI he
    cases e with
    | stop =>
      obtain rfl := Option.some.inj hu
      exact le_rfl
    | _ => cases he
  · cases s.stage <;> simp only [Stage.callsLeft] <;> omega
  · cases hp : s'.stage with
    | returned => rfl
    | _ =>
      rw [hp] at hc
      cases hc

/-! ## What is handed on -/

theorem handed_hand (data body : Bytes) (chunks : List Bytes) (links : List (Bytes × List Bytes)) :
    (Session.hand data ((body, chunks) :: links)).reverse.flatMap Prod.snd =
      ((body, chunks) :: links).reverse.flatMap Prod.snd ++ [data] := by
  simp [Session.hand, List.flatMap_append]

/-- `app` is what the calls of `on_data` made of `app₀`. -/
structure Hands (onData : σ → Bytes → Py Unit × σ) (app₀ : σ) (s : Session σ) : Prop where
  app : s.app = s.handed.foldl (fun app data => (onData app data).2) app₀
  links : ∀ x ∈ s.links, x.2.flatten <+: x.1 ∧ ∀ data ∈ x.2, data ≠ [] ∧ data.length ≤ 4096
  current : ∀ left, s.stage.left = some left → ∃ body chunks links, s.links = (body, chunks) :: links ∧
    chunks.flatten ++ left = body
  handing : ∀ data incoming, s.stage = .handing data incoming → data ≠ [] ∧ data.length ≤ 4096

theorem hands_start (app : σ) : Hands onData app (.start app) :=
  ⟨rfl, (fun _ h => nomatch h), (fun _ h => nomatch h), fun _ _ h => nomatch h⟩

theorem hands_step {app₀ : σ} {s s' : Session σ} {e : Session.Event} (h : Proceeds client onData s e s')
    (hs : Hands onData app₀ s) : Hands onData app₀ s' := by
  cases h with
  | checks more hp =>
    refine ⟨hs.app, hs.links, fun left hl => ?_, fun data incoming hd => ?_⟩
    · dsimp only at hl
      split at hl <;> cases hl
    · dsimp only at hd
      split at hd <;> cases hd
  | loops more incoming hp =>
    refine ⟨hs.app, hs.links, fun left hl => hs.current left ?_, fun data incoming hd => ?_⟩
    · dsimp only at hl
      split at hl
      · cases hl
      · rwa [hp]
    · dsimp only at hd
      split at hd <;> cases hd
  | receives more data incoming hp hne hle =>
    refine ⟨hs.app, hs.links, fun left hl => hs.current left ?_, fun _ _ hd => ?_⟩
    · rwa [hp]
    · cases hd
      exact ⟨hne, hle⟩
  | hands more data incoming stage hp hst =>
    obtain ⟨body, chunks, links, hlinks, hbody⟩ := hs.current (data ++ incoming) (by rw [hp]; rfl)
    obtain ⟨hne, hle⟩ := hs.handing data incoming hp
    have hbody' : (chunks ++ [data]).flatten ++ incoming = body := by
      rw [← hbody, List.flatten_append, List.flatten_singleton, List.append_assoc]
    have hold := hs.links
    rw [hlinks, List.forall_mem_cons] at hold
    refine ⟨?_, ?_, fun left hl => ?_, fun _ _ hd => ?_⟩
    · rw [Session.handed, hlinks, handed_hand, List.foldl_append, ← hlinks, ← Session.handed, ← hs.app]
      rfl
    · rw [hlinks, Session.hand, List.forall_mem_cons]
      refine ⟨⟨?_, fun d hd => ?_⟩, hold.2⟩
      · exact hbody' ▸ List.prefix_append _ _
      · rcases List.mem_append.mp hd with hd | hd
        · exact hold.1.2 d hd
        · rw [List.mem_singleton.mp hd]
          exact ⟨hne, hle⟩
    · refine ⟨body, chunks ++ [data], links, by rw [hlinks, Session.hand], ?_⟩
      rcases hst with rfl | rfl
      · cases hl
        exact hbody'
      · cases hl
    · rcases hst with rfl | rfl <;> cases hd
  | connects sent incoming hp hc =>
    refine ⟨?_, List.forall_mem_cons.mpr ⟨⟨List.nil_prefix, fun _ h => nomatch h⟩, hs.links⟩,
      fun left hl => ?_, fun _ _ hd => nomatch hd⟩
    · rw [Session.handed, List.reverse_cons, List.flatMap_append, List.flatMap_singleton, List.append_nil]
      exact hs.app
    · cases hl
      exact ⟨_, [], s.links, rfl, rfl⟩
  | closed | wakes | refused | fails | elapses => exact ⟨hs.app, hs.links, (fun _ h => nomatch h), fun _ _ h => nomatch h⟩
  | stop => exact ⟨hs.app, hs.links, hs.current, hs.handing⟩

theorem handed_step {app₀ : σ} {s s' : Session σ} {e : Session.Event} (h : Proceeds client onData s e s')
    (hs : Hands onData app₀ s) :
    (∃ data incoming, s.stage = .handing data incoming ∧ s'.handed = s.handed ++ [data] ∧
      ∀ data incoming, s'.stage ≠ .handing data incoming) ∨
    s'.handed = s.handed ∧ ∀ data incoming, s.stage = .handing data incoming → e = .stop ∧ s'.stage = s.stage := by
  cases h with
  | hands more data incoming stage hp hst =>
    obtain ⟨body, chunks, links, hlinks, -⟩ := hs.current (data ++ incoming) (by rw [hp]; rfl)
    refine .inl ⟨data, incoming, hp, ?_, fun data' incoming' hx => ?_⟩
    · rw [Session.handed, Session.handed, hlinks, handed_hand]
    · rcases hst with rfl | rfl <;> cases hx
  | connects sent incoming hp hc =>
    refine .inr ⟨?_, fun data incoming hx => by rw [hp] at hx; cases hx⟩
    rw [Session.handed, List.reverse_cons, List.flatMap_append, List.flatMap_singleton, List.append_nil]
    rfl
  | checks more hp | loops more _ hp | closed more _ hp | receives more _ _ hp | wakes more hp | refused _ hp
  | elapses hp => exact .inr ⟨rfl, fun data incoming hx => by rw [hp] at hx; cases hx⟩
  | fails hp =>
    refine .inr ⟨rfl, fun data incoming hx => ?_⟩
    rcases hp with hp | ⟨_, hp⟩ <;> rw [hp] at hx <;> cases hx
  | stop => exact .inr ⟨rfl, fun data incoming hx => ⟨rfl, rfl⟩⟩

/-- The bodies are those of the connections made. -/
theorem bodies_step {s s' : Session σ} {e : Session.Event} (h : Proceeds client onData s e s') :
    s'.bodies = s.bodies ++ (Session.streamed client e).toList := by
  have hsame : ∀ links : List (Bytes × List Bytes), links.map Prod.fst = s.links.map Prod.fst →
      (links.map Prod.fst).reverse = s.bodies ++ [] := by
    intro links hl
    rw [hl, List.append_nil, Session.bodies]
  cases h with
  | connects sent incoming hp hc =>
    rw [Session.streamed, hc]
    exact (congrArg List.reverse (List.map_cons ..)).trans List.reverse_cons
  | refused incoming hp hc =>
    rw [Session.streamed, hc]
    exact hsame _ rfl
  | hands more data incoming stage hp hst =>
    refine hsame _ ?_
    cases s.links <;> rfl
  | checks | loops | closed | receives | wakes | fails | elapses | stop => exact hsame _ rfl

/-- Whatever breaks in between: the calls of `on_data` are made with what came
after the header of each connection of the run that started a stream, in order,
from its first byte and without a gap, in chunks of 1 to 4096 bytes; what is
left of a connection when it breaks is lost. -/
theorem stream_delivers (app : σ) {es : List Session.Event} {s : Session σ}
    (h : run (Session.step client onData) (.start app) es = some s) :
    s.app = s.handed.foldl (fun app data => (onData app data).2) app ∧
      s.bodies = es.filterMap (Session.streamed client) ∧
      (∀ x ∈ s.links, x.2.flatten <+: x.1 ∧ ∀ data ∈ x.2, data ≠ [] ∧ data.length ≤ 4096) ∧
      ∀ left, s.stage.left = some left → ∃ body chunks links, s.links = (body, chunks) :: links ∧
        chunks.flatten ++ left = body := by
  have hs : Hands onData app s := keeps (fun _ _ _ he => hands_step (proceeds_step he)) h (hands_start app)
  have hbodies := records (fun _ _ _ he => bodies_step (proceeds_step he)) h
  exact ⟨hs.app, hbodies, hs.links, hs.current⟩

/-- Two chunks, the end of the connection, a wait, and an upstream that cannot be reached. -/
def reconnects : List Session.Event :=
  [.turn 0, .connects (encode "ICY 200 OK\r\n" ++ [1, 2, 3]), .turn 0, .turn 1, .turn 0, .turn 0, .turn 0, .turn 0,
    .turn 0, .turn 0, .elapses, .turn 0, .fails]

/-- Keeps the chunks. -/
def keep (chunks : List Bytes) (data : Bytes) : Py Unit × List Bytes := (.ok (), chunks ++ [data])

theorem run_reconnects : ∃ s, run (Session.step ⟨"host", "M", "", "", ""⟩ keep) (.start []) reconnects = some s ∧
    s.waits = [2] ∧ s.handed = [[1, 2], [3]] := by
  have h : (run (Session.step ⟨"host", "M", "", "", ""⟩ keep) (.start []) reconnects).map
      (fun s => (s.waits, s.handed)) = some ([2], [[1, 2], [3]]) := by decide +kernel
  obtain ⟨s, hs, hr⟩ := Option.map_eq_some_iff.mp h
  simp only [Prod.mk.injEq] at hr
  exact ⟨s, hs, hr⟩

theorem stream_waits_reconnects :
    ∃ s, run (Session.step ⟨"host", "M", "", "", ""⟩ keep) (.start []) reconnects = some s ∧ s.backoff = 4 := by
  obtain ⟨s, hs, hw, -⟩ := run_reconnects
  have hb := (stream_waits [] hs).2.1
  rw [hw] at hb
  exact ⟨s, hs, hb⟩

theorem stream_delivers_reconnects :
    ∃ s, run (Session.step ⟨"host", "M", "", "", ""⟩ keep) (.start []) reconnects = some s ∧
      s.app = [[1, 2], [3]] ∧ s.bodies = [[1, 2, 3]] := by
  obtain ⟨s, hs, -, hd⟩ := run_reconnects
  obtain ⟨ha, hb, -⟩ := stream_delivers [] hs
  rw [hd] at ha
  exact ⟨s, hs, ha, hb⟩

end Rtcm.Proof
