import Rtcm3to2p3.Proof.Frames
import Rtcm3to2p3.Proof.Relay
import Rtcm3to2p3.Proof.Returns
import Rtcm3to2p3.Proof.Session
import Rtcm3to2p3.Spec.Program

/-!
# The program as a whole

`Advances` lists the steps of the threads. The invariant `Wired` ties them
together: the chunks that the two clients hand over are those that the service
is called with, each call of `on_data` is the service's as long as it is under
way, and what it has left is of its own stream (`CutOf`). A step keeps it
(`wired_step`), so the results on clients, service and caster hold of what the
program makes of them: `program_relays`.
-/

namespace Rtcm.Proof

open Rtcm.Impl Rtcm.Spec Transition

variable {K : Type} [Field K] [LinearOrder K] [FloorRing K] [PyMath K] (parse : Bytes → Option (Msg K))
  (float : K → String) (config : Config K)

/-! ## The steps -/

/-- A call of `_serve_on` that is not of the service. -/
inductive Listens (stopped : Bool) (server : Server) : Program.Outcome → Server → Prop
  | binds (hp : server.stage = .binding) :
    Listens stopped server .returns { server with stage := .adding, isOpen := true }
  | refused (hp : server.stage = .binding) : Listens stopped server .fails { server with stage := .ended }
  | adds (hp : server.stage = .adding) : Listens stopped server .returns { server with stage := .checking }
  | checks (hp : server.stage = .checking) :
    Listens stopped server .returns { server with stage := if stopped then .closing else .accepting }
  | accepts (incoming : Bytes) (hp : server.stage = .accepting) (ho : server.isOpen = true) :
    Listens stopped server (.accepts incoming) { server with stage := .checking }
  | timesOut (hp : server.stage = .accepting) : Listens stopped server .timesOut { server with stage := .checking }
  | fails (hp : server.stage = .accepting) : Listens stopped server .fails { server with stage := .closing }
  | closes (hp : server.stage = .closing) :
    Listens stopped server .returns { server with stage := .ended, isOpen := false }

/-- The events that it goes on with. -/
def turnOf : Upstream → Service.Event
  | .obs => .obsTurn
  | .eph => .ephTurn

/-- A call of `on_data` is in its loop over frames. -/
def Loops (s : Service K) : Upstream → Prop
  | .obs => s.obs ≠ .idle
  | .eph => s.ephFrames ≠ []

/-- A call of `run` that is not of the service. -/
inductive Runs (p : Program K) : Main → List Server → Prop
  | starts (address : String) (addresses : List String) (hp : p.main = .starting (address :: addresses)) :
    Runs p (.starting addresses) (p.servers ++ [⟨address, .binding, false⟩])
  | started (hp : p.main = .starting []) : Runs p (.launching [.eph, .obs]) p.servers
  | launches (u : Upstream) (todo : List Upstream) (hp : p.main = .launching (u :: todo)) :
    Runs p (.launching todo) p.servers
  | launched (hp : p.main = .launching []) : Runs p .waiting p.servers
  | wakes (hp : p.main = .waiting) (hs : p.stop = true) : Runs p .stopping p.servers
  | closes (next i : Nat) (hp : p.main = .closing next) (hi : p.listed[next]? = some i) :
    Runs p (.closing (next + 1)) (p.servers.modify i fun server => { server with isOpen := false })
  | returns (next : Nat) (hp : p.main = .closing next) (hi : p.listed.length ≤ next) : Runs p .returned p.servers

inductive Advances (p : Program K) : Program.Event → Program K → Prop
  | signal : Advances p .signal { p with stop := true, links := fun u => { p.links u with stopped := true } }
  | main (main : Main) (servers : List Server) (h : Runs p main servers) : Advances p .main { p with main, servers }
  | stops (service : Service K) (hp : p.main = .stopping)
    (h : p.service.step parse float (.caster .stop) = some service) :
    Advances p .main { p with main := .closing 0, service }
  | server (i : Nat) (server server' : Server) (outcome : Program.Outcome) (service : Service K)
    (hi : p.servers[i]? = some server) (h : Listens p.service.caster.stopped server outcome server')
    (hs : (∃ incoming, outcome = .accepts incoming ∧
        p.service.step parse float (.caster (.connects incoming)) = some service) ∨
      (∀ incoming, outcome ≠ .accepts incoming) ∧ service = p.service) :
    Advances p (.server i outcome) { p.goes i server' with
      listed := if server.stage = .adding then p.listed ++ [i] else p.listed
      service }
  | hands (u : Upstream) (e : Session.Event) (data incoming : Bytes) (result : Py Unit) (link : Session Unit)
    (hu : u ∉ p.main.unstarted) (hp : (p.links u).stage = .handing data incoming) (hc : p.calls u = some result)
    (ho : p.isOver u = true) (he : Session.own e = true)
    (h : (p.links u).step (Program.client config u) (fun _ _ => (result, ())) e = some link) :
    Advances p (.link u e) { p with
      links := Function.update p.links u link
      calls := Function.update p.calls u none }
  | link (u : Upstream) (e : Session.Event) (link : Session Unit) (hu : u ∉ p.main.unstarted)
    (hp : ∀ data incoming, (p.links u).stage ≠ .handing data incoming) (he : Session.own e = true)
    (h : (p.links u).step (Program.client config u) (fun _ _ => (.ok (), ())) e = some link) :
    Advances p (.link u e) { p with links := Function.update p.links u link }
  | calls (u : Upstream) (data incoming : Bytes) (service : Service K) (hp : (p.links u).stage = .handing data incoming)
    (hc : p.calls u = none) (h : p.service.step parse float (callOf u data) = some service) :
    Advances p (.service (callOf u data)) { p with service, calls := Function.update p.calls u (some (.ok ())) }
  | turns (u : Upstream) (result : Py Unit) (service : Service K) (hl : Loops p.service u)
    (h : p.service.step parse float (turnOf u) = some service) :
    Advances p (.service (turnOf u)) { p with service, calls := Function.update p.calls u (some result) }
  | caster (e : Caster.Event) (service : Service K) (hc : ∀ incoming, e ≠ .connects incoming) (hs : e ≠ .stop)
    (h : p.service.step parse float (.caster e) = some service) :
    Advances p (.service (.caster e)) { p with service }

theorem advances_main {p p' : Program K} (h : p.turnMain parse float = some p') :
    Advances parse float config p .main p' := by
  unfold Program.turnMain at h
  split at h
  · rename_i address addresses hp
    exact Option.some.inj h ▸ .main _ _ (.starts address addresses hp)
  · rename_i hp
    exact Option.some.inj h ▸ .main _ _ (.started hp)
  · rename_i u todo hp
    exact Option.some.inj h ▸ .main _ _ (.launches u todo hp)
  · rename_i hp
    exact Option.some.inj h ▸ .main _ _ (.launched hp)
  · rename_i hp
    split at h
    · rename_i hs
      exact Option.some.inj h ▸ .main _ _ (.wakes hp hs)
    · cases h
  · rename_i hp
    obtain ⟨service, hs, rfl⟩ := Option.map_eq_some_iff.mp h
    exact .stops service hp hs
  · rename_i next hp
    split at h
    · rename_i hi
      exact Option.some.inj h ▸ .main _ _ (.returns next hp (List.getElem?_eq_none_iff.mp hi))
    · rename_i i hi
      exact Option.some.inj h ▸ .main _ _ (.closes next i hp hi)
  · cases h

theorem advances_server {p p' : Program K} {i : Nat} {server : Server} {outcome : Program.Outcome}
    (hi : p.servers[i]? = some server) (h : p.turnServer parse float i server outcome = some p') :
    Advances parse float config p (.server i outcome) p' := by
  have hgoes : ∀ {stage : Listening} {server' : Server}, server.stage = stage → stage ≠ .adding →
      Listens p.service.caster.stopped server outcome server' → (∀ incoming, outcome ≠ .accepts incoming) →
      Advances parse float config p (.server i outcome) (p.goes i server') := by
    intro stage server' hp hne hl ho
    have hm : Advances parse float config p (.server i outcome) _ :=
      .server i server server' outcome p.service hi hl (.inr ⟨ho, rfl⟩)
    rwa [if_neg (hp ▸ hne)] at hm
  unfold Program.turnServer at h
  split at h
  · rename_i hp
    exact Option.some.inj h ▸ hgoes hp nofun (.binds hp) nofun
  · rename_i hp
    exact Option.some.inj h ▸ hgoes hp nofun (.refused hp) nofun
  · rename_i hp
    have hm : Advances parse float config p (.server i .returns) _ :=
      .server i server _ _ p.service hi (.adds hp) (.inr ⟨nofun, rfl⟩)
    rw [if_pos hp] at hm
    exact Option.some.inj h ▸ hm
  · rename_i hp
    exact Option.some.inj h ▸ hgoes hp nofun (.checks hp) nofun
  · rename_i incoming hp
    split at h
    · rename_i ho
      obtain ⟨service, hs, rfl⟩ := Option.map_eq_some_iff.mp h
      have hm : Advances parse float config p (.server i (.accepts incoming)) _ :=
        .server i server _ _ service hi (.accepts incoming hp ho) (.inl ⟨incoming, rfl, hs⟩)
      rwa [if_neg (by rw [hp]; nofun)] at hm
    · cases h
  · rename_i hp
    exact Option.some.inj h ▸ hgoes hp nofun (.timesOut hp) nofun
  · rename_i hp
    exact Option.some.inj h ▸ hgoes hp nofun (.fails hp) nofun
  · rename_i hp
    exact Option.some.inj h ▸ hgoes hp nofun (.closes hp) nofun
  · cases h

theorem advances_link {p p' : Program K} {u : Upstream} {e : Session.Event} (he : Session.own e = true)
    (hu : u ∉ p.main.unstarted) (h : p.turnLink config u e = some p') :
    Advances parse float config p (.link u e) p' := by
  unfold Program.turnLink at h
  split at h
  · cases h
  · rename_i data incoming result hp hc
    split at h
    · rename_i ho
      obtain ⟨link, hl, rfl⟩ := Option.map_eq_some_iff.mp h
      exact .hands u e data incoming result link hu hp hc ho he hl
    · cases h
  · rename_i hnone hsome
    obtain ⟨link, hl, rfl⟩ := Option.map_eq_some_iff.mp h
    refine .link u e link hu (fun data incoming hp => ?_) he hl
    cases hc : p.calls u with
    | none => exact hnone data incoming hp hc
    | some result => exact hsome data incoming result hp hc

theorem advances_service {p p' : Program K} {e : Service.Event} (h : p.turnService parse float e = some p') :
    Advances parse float config p (.service e) p' := by
  unfold Program.turnService at h
  split at h
  · rename_i data
    split at h
    · rename_i data' incoming hp hc
      split at h
      · rename_i hd
        subst hd
        obtain ⟨service, hs, rfl⟩ := Option.map_eq_some_iff.mp h
        exact .calls .obs _ incoming service hp hc hs
      · cases h
    · cases h
  · split at h
    · cases h
    · rename_i hnot
      obtain ⟨service, hs, rfl⟩ := Option.map_eq_some_iff.mp h
      exact .turns .obs _ service hnot hs
  · rename_i data
    split at h
    · rename_i data' incoming hp hc
      split at h
      · rename_i hd
        subst hd
        obtain ⟨service, hs, rfl⟩ := Option.map_eq_some_iff.mp h
        exact .calls .eph _ incoming service hp hc hs
      · cases h
    · cases h
  · split at h
    · cases h
    · rename_i frame frames hf
      obtain ⟨service, hs, rfl⟩ := Option.map_eq_some_iff.mp h
      exact .turns .eph _ service (fun hnil => by rw [hnil] at hf; cases hf) hs
  · rename_i e
    split at h
    · cases h
    · cases h
    · rename_i hconnects hstop
      obtain ⟨service, hs, rfl⟩ := Option.map_eq_some_iff.mp h
      exact .caster e service hconnects hstop hs

theorem advances_step {p p' : Program K} {e : Program.Event} (h : p.step parse float config e = some p') :
    Advances parse float config p e p' := by
  cases e with
  | signal => exact Option.some.inj h ▸ .signal
  | main => exact advances_main parse float config h
  | server i outcome =>
    simp only [Program.step] at h
    split at h
    · cases h
    · rename_i server hi
      exact advances_server parse float config hi h
  | link u e =>
    simp only [Program.step] at h
    split at h
    · rename_i hown
      exact advances_link parse float config hown.1 hown.2 h
    · cases h
  | service e => exact advances_service parse float config h

variable {parse float config}

/-! ## The calls of the two threads -/

/-- No call of `on_data` is under way. -/
def Rests (s : Service K) : Upstream → Prop
  | .obs => s.outside
  | .eph => s.ephFrames = []

omit [Field K] [LinearOrder K] [FloorRing K] [PyMath K] in
theorem isOver_iff (p : Program K) (u : Upstream) : p.isOver u = true ↔ Rests p.service u := by
  cases u with
  | obs =>
    unfold Program.isOver Rests Service.outside
    cases p.service.obs with
    | idle => simp
    | looping | correcting => simp
  | eph => exact List.isEmpty_iff

omit [Field K] [LinearOrder K] [FloorRing K] [PyMath K] in
theorem not_rests {s : Service K} {u : Upstream} (h : Loops s u) : ¬ Rests s u := by
  cases u with
  | obs => exact fun hr => h hr.1
  | eph => exact h

/-- The service's other steps start no call. -/
theorem rests_step {s s' : Service K} {e : Service.Event} (h : s.step parse float e = some s') (hs : TwoFeeds s)
    {u : Upstream} (he : ∀ data, e ≠ callOf u data) (ht : e ≠ turnOf u) (hr : Rests s u) : Rests s' u := by
  cases u with
  | eph =>
    have hne : e.ofEph = false := by
      cases e with
      | ephData data => exact absurd rfl (he data)
      | ephTurn => exact absurd rfl ht
      | obsData | obsTurn | caster => rfl
    exact (ephFrames_eq parse h hne).trans hr
  | obs =>
    obtain ⟨hi, hp, h0, h1⟩ := hr
    cases acts_step parse h with
    | obsData data => exact absurd rfl (he data)
    | obsTurn => exact absurd rfl ht
    | ephData | ephTurn => exact ⟨hi, hp, h0, h1⟩
    | publishes feed data pending caster hcall =>
      rw [hp] at hcall
      cases hcall
    | caster ev caster hcalls hc =>
      have hidle : ∀ f, (s.caster.feeds f).publisher = .idle := fun f => by
        obtain rfl | rfl | hf : f = 0 ∨ f = 1 ∨ 2 ≤ f := by omega
        · exact h0
        · exact h1
        · exact hs.others f hf
      have hsame : ∀ f, (caster.feeds f).publisher = .idle := by
        intro f
        cases serves_step hc with
        | publisher feed ev feed' hp hstep =>
          refine forall_feeds (P := fun _ F => F.publisher = .idle) hidle ?_ f
          have hfeed := hidle feed
          cases hstep with
          | subscribe | unsubscribe | get => cases hp
          | nothing => exact hfeed
          | returns => rfl
          | announce data =>
            have hcall := hcalls feed
            simp [callsTo, Fanout.called] at hcall
          | snapshot data order hcopy => rw [hfeed] at hcopy; cases hcopy
          | put data q todo hput => rw [hfeed] at hput; cases hput
        | goes _ t bytes p he hg =>
          rw [publishers_step (.goes ev t bytes p he hg) (by rintro f e rfl; cases he)]
          exact hidle f
        | connects | subscribes | gets | leaves | stop =>
          rw [publishers_step (serves_step hc) (by rintro f ev ⟨⟩)]
          exact hidle f
      exact ⟨hi, hp, hsame 0, hsame 1⟩

theorem chunks_step {s s' : Service K} {e : Service.Event} (h : s.step parse float e = some s') :
    (∀ data, e = .obsData data → s'.chunks = s.chunks ++ [data]) ∧
      ((∀ data, e ≠ .obsData data) → s'.chunks = s.chunks) := by
  cases acts_step parse h with
  | obsData data => exact ⟨fun data' he => by cases he; rfl, fun hne => absurd rfl (hne data)⟩
  | obsTurn | ephData | ephTurn | publishes | caster => exact ⟨fun _ he => (by cases he), fun _ => rfl⟩

/-- The service that a program starts with, and runs on chunks of 1 to 4096 bytes. -/
def Serving (parse : Bytes → Option (Msg K)) (float : K → String) (config : Config K) (id : StationId)
    (s : Service K) : Prop :=
  ∃ es, Transition.run (Service.step parse float)
    (.init id config.maxIodAgeS config.maxResidualM config.rtcm3Info config.rtcm23Info) es = some s ∧
      ∀ e ∈ es, ∀ call, e.called = some call → call.2 ≠ [] ∧ call.2.length ≤ 4096

theorem Serving.step {id : StationId} {s s' : Service K} {e : Service.Event} (h : Serving parse float config id s)
    (hs : s.step parse float e = some s') (he : ∀ call, e.called = some call → call.2 ≠ [] ∧ call.2.length ≤ 4096) :
    Serving parse float config id s' := by
  obtain ⟨es, h, hes⟩ := h
  refine ⟨es ++ [e], run_append_of h (run_cons_of hs rfl), fun e' he' => ?_⟩
  rcases List.mem_append.mp he' with he' | he'
  · exact hes e' he'
  · exact List.mem_singleton.mp he' ▸ he

theorem Serving.delivers {id : StationId} {s : Service K} (h : Serving parse float config id s) :
    Delivers (.new id config.maxIodAgeS config.maxResidualM) s := by
  obtain ⟨es, h, -⟩ := h
  exact delivers_run parse _ _ _ _ _ h

theorem Serving.twoFeeds {id : StationId} {s : Service K} (h : Serving parse float config id s) : TwoFeeds s := by
  obtain ⟨es, h, -⟩ := h
  exact keeps (fun _ _ _ => twoFeeds_step parse) h ⟨fun x hx => absurd hx List.not_mem_nil, fun _ _ => rfl⟩

/-- What a client keeps, whatever its `on_data` does. -/
def Streams (s : Session Unit) : Prop := Hands (fun _ _ => (.ok (), ())) () s

omit [Field K] [LinearOrder K] [FloorRing K] [PyMath K] in
theorem streams_step {client : NtripClient} {s s' : Session Unit} {e : Session.Event}
    {onData : Unit → Bytes → Py Unit × Unit} (h : s.step client onData e = some s') (hs : Streams s) :
    Streams s' ∧ ((∃ data incoming, s.stage = .handing data incoming ∧ s'.handed = s.handed ++ [data] ∧
      ∀ data incoming, s'.stage ≠ .handing data incoming) ∨
    s'.handed = s.handed ∧ ∀ data incoming, s.stage = .handing data incoming → e = .stop ∧ s'.stage = s.stage) := by
  have hs' : Hands onData () s := ⟨rfl, hs.links, hs.current, hs.handing⟩
  have h' := hands_step (proceeds_step h) hs'
  exact ⟨⟨rfl, h'.links, h'.current, h'.handing⟩, handed_step (proceeds_step h) hs'⟩

/-- The invariant of the program: the clients hand over what the service is
called with, and its calls are theirs. -/
structure Wired (parse : Bytes → Option (Msg K)) (float : K → String) (config : Config K) (id : StationId)
    (p : Program K) : Prop where
  service : Serving parse float config id p.service
  streams : ∀ u, Streams (p.links u)
  stopped : ∀ u, (p.links u).stopped = p.stop
  returned : ∀ u, (p.links u).stage = .returned → p.stop = true
  call : ∀ u, p.calls u ≠ none → ∃ data incoming, (p.links u).stage = .handing data incoming
  rests : ∀ u, p.calls u = none → Rests p.service u
  chunks : p.service.chunks = p.chunks .obs
  cut : ∀ u, CutOf p.service u (p.chunks u)

theorem wired_start (id : StationId) : Wired parse float config id (.start config id) where
  service := ⟨[], rfl, fun e he => absurd he List.not_mem_nil⟩
  streams _ := hands_start ()
  stopped _ := rfl
  returned _ h := by cases h
  call _ h := absurd rfl h
  rests u _ := by
    cases u with
    | obs => exact ⟨rfl, rfl, rfl, rfl⟩
    | eph => rfl
  chunks := rfl
  cut u := by
    have hnil : extractRtcm3Frames [] = ([], []) := extract_rest .nil
    cases u <;> exact ⟨(congrArg Prod.snd hnil).symm, fun frame hf => absurd hf List.not_mem_nil⟩

/-- The threads of the caster, and `run`. -/
theorem wired_aside {id : StationId} {p p' : Program K} (h : Wired parse float config id p)
    (hlinks : p'.links = p.links)
    (hcalls : p'.calls = p.calls) (hstop : p'.stop = p.stop)
    (hs : p'.service = p.service ∨ ∃ e, p.service.step parse float (.caster e) = some p'.service) :
    Wired parse float config id p' := by
  have hchunks : ∀ u, p'.chunks u = p.chunks u := fun u => by simp only [Program.chunks, hlinks, hcalls]
  have hnot : ∀ e u, (∀ data, Service.Event.caster e ≠ callOf u data) ∧ Service.Event.caster e ≠ turnOf u := by
    intro e u
    cases u <;> exact ⟨nofun, nofun⟩
  refine ⟨?_, fun u => ?_, fun u => ?_, fun u hr => ?_, fun u hc => ?_, fun u hc => ?_, ?_, fun u => ?_⟩
  · rcases hs with hs | ⟨e, hs⟩
    · exact hs ▸ h.service
    · exact h.service.step hs nofun
  · rw [hlinks]
    exact h.streams u
  · rw [hlinks, hstop]
    exact h.stopped u
  · rw [hlinks] at hr
    exact hstop.trans (h.returned u hr)
  · rw [hlinks]
    exact h.call u (hcalls ▸ hc)
  · have hrest := h.rests u (hcalls ▸ hc)
    rcases hs with hs | ⟨e, hs⟩
    · exact hs ▸ hrest
    · exact rests_step hs h.service.twoFeeds (hnot e u).1 (hnot e u).2 hrest
  · rw [hchunks, ← h.chunks]
    rcases hs with hs | ⟨e, hs⟩
    · rw [hs]
    · exact (chunks_step hs).2 nofun
  · rw [hchunks]
    rcases hs with hs | ⟨e, hs⟩
    · exact hs ▸ h.cut u
    · exact (cut_step hs h.service.delivers.based (h.cut u)).2 (hnot e u).1

omit [Field K] [LinearOrder K] [FloorRing K] [PyMath K] in
theorem chunks_none {p : Program K} {u : Upstream} (hc : p.calls u = none) : p.chunks u = (p.links u).handed := by
  unfold Program.chunks
  rw [hc]
  cases (p.links u).stage <;> exact List.append_nil _

omit [Field K] [LinearOrder K] [FloorRing K] [PyMath K] in
theorem chunks_some {p : Program K} {u : Upstream} {data incoming : Bytes} {result : Py Unit}
    (hp : (p.links u).stage = .handing data incoming) (hc : p.calls u = some result) :
    p.chunks u = (p.links u).handed ++ [data] := by
  unfold Program.chunks
  rw [hc, hp]

theorem Wired.no_call {id : StationId} {p : Program K} (h : Wired parse float config id p) {u : Upstream}
    (hp : ∀ data incoming, (p.links u).stage ≠ .handing data incoming) : p.calls u = none :=
  by_contra fun hcall => by
    obtain ⟨data, incoming, hp'⟩ := h.call u hcall
    exact hp data incoming hp'

/-- The chunk is of the call from its first step on. -/
theorem chunks_call {id : StationId} {p : Program K} (h : Wired parse float config id p) {u : Upstream}
    {e : Service.Event}
    (service : Service K) (result : Py Unit)
    (he : (∃ data incoming, e = callOf u data ∧ (p.links u).stage = .handing data incoming ∧ p.calls u = none) ∨
      e = turnOf u ∧ Loops p.service u) :
    let p' := { p with service, calls := Function.update p.calls u (some result) }
    (∀ v, v ≠ u → Program.chunks p' v = p.chunks v) ∧
      ((∃ data, e = callOf u data ∧ Program.chunks p' u = p.chunks u ++ [data]) ∨
        e = turnOf u ∧ Program.chunks p' u = p.chunks u) := by
  intro p'
  refine ⟨fun v hv => ?_, ?_⟩
  · unfold Program.chunks
    dsimp only [p']
    rw [Function.update_of_ne hv]
  · rcases he with ⟨data, incoming, rfl, hp, hc⟩ | ⟨rfl, hl⟩
    · refine .inl ⟨data, rfl, ?_⟩
      rw [chunks_some (p := p') hp (Function.update_self ..), chunks_none hc]
    · obtain ⟨r, hc⟩ := Option.ne_none_iff_exists'.mp fun hc => not_rests hl (h.rests u hc)
      obtain ⟨data, incoming, hp⟩ := h.call u (by rw [hc]; nofun)
      refine .inr ⟨rfl, ?_⟩
      rw [chunks_some (p := p') hp (Function.update_self ..), chunks_some hp hc]

/-- A step within a call of `on_data`, the first or another. -/
theorem wired_call {id : StationId} {p : Program K} (h : Wired parse float config id p) {u : Upstream}
    {e : Service.Event}
    {service : Service K} (result : Py Unit) (hs : p.service.step parse float e = some service)
    (he : (∃ data incoming, e = callOf u data ∧ (p.links u).stage = .handing data incoming ∧ p.calls u = none) ∨
      e = turnOf u ∧ Loops p.service u) :
    Wired parse float config id { p with service, calls := Function.update p.calls u (some result) } := by
  have hother : ∀ v, v ≠ u → (∀ data, e ≠ callOf v data) ∧ e ≠ turnOf v := by
    intro v hne
    rcases he with ⟨data, incoming, rfl, -⟩ | ⟨rfl, -⟩ <;> cases u <;> cases v <;>
      first | exact absurd rfl hne | exact ⟨nofun, nofun⟩
  obtain ⟨hold, hnew⟩ := chunks_call h service result he
  have hcut := fun v => cut_step hs h.service.delivers.based (h.cut v)
  have hsize : ∀ call, e.called = some call → call.2 ≠ [] ∧ call.2.length ≤ 4096 := by
    intro call hcall
    rcases he with ⟨data, incoming, rfl, hp, -⟩ | ⟨rfl, -⟩
    · have hdata := (h.streams u).handing data incoming hp
      cases u <;> cases hcall <;> exact hdata
    · cases u <;> cases hcall
  refine ⟨h.service.step hs hsize, h.streams, h.stopped, h.returned, fun v hc => ?_, fun v hc => ?_, ?_, fun v => ?_⟩
  · dsimp only at hc
    by_cases hv : v = u
    · subst hv
      rcases he with ⟨data, incoming, -, hp, -⟩ | ⟨-, hl⟩
      · exact ⟨data, incoming, hp⟩
      · exact h.call v fun hnone => not_rests hl (h.rests v hnone)
    · exact h.call v (by rwa [Function.update_of_ne hv] at hc)
  · dsimp only at hc
    by_cases hv : v = u
    · subst hv
      rw [Function.update_self] at hc
      cases hc
    · rw [Function.update_of_ne hv] at hc
      exact rests_step hs h.service.twoFeeds (hother v hv).1 (hother v hv).2 (h.rests v hc)
  · have hchunks := chunks_step hs
    rw [h.chunks] at hchunks
    cases u with
    | obs =>
      rcases hnew with ⟨data, rfl, hnew⟩ | ⟨rfl, hnew⟩
      · exact (hchunks.1 data rfl).trans hnew.symm
      · exact (hchunks.2 nofun).trans hnew.symm
    | eph => exact (hchunks.2 (hother .obs nofun).1).trans (hold .obs nofun).symm
  · by_cases hv : v = u
    · subst hv
      rcases hnew with ⟨data, rfl, hnew⟩ | ⟨rfl, hnew⟩
      · exact hnew ▸ (hcut v).1 data rfl
      · exact hnew ▸ (hcut v).2 (by cases v <;> nofun)
    · exact hold v hv ▸ (hcut v).2 (hother v hv).1

/-- The chunk stays the call's when it returns. -/
theorem chunks_link {id : StationId} {p : Program K} (h : Wired parse float config id p) {u : Upstream}
    {e : Session.Event}
    {link : Session Unit} {onData : Unit → Bytes → Py Unit × Unit}
    (hs : (p.links u).step (Program.client config u) onData e = some link) (he : Session.own e = true)
    (hc : p.calls u ≠ none ∨ ∀ data incoming, (p.links u).stage ≠ .handing data incoming) (v : Upstream) :
    Program.chunks { p with
      links := Function.update p.links u link
      calls := Function.update p.calls u none } v = p.chunks v := by
  by_cases hv : v = u
  · subst hv
    rw [chunks_none (Function.update_self ..)]
    dsimp only
    rw [Function.update_self]
    rcases (streams_step hs (h.streams v)).2 with ⟨data, incoming, hp, hh, -⟩ | ⟨hh, hnot⟩
    · rcases hc with hcall | hnot
      · obtain ⟨r, hr⟩ := Option.ne_none_iff_exists'.mp hcall
        rw [chunks_some hp hr, hh]
      · exact absurd hp (hnot data incoming)
    · rw [hh, chunks_none (by_contra fun hcall => ?_)]
      obtain ⟨data, incoming, hp⟩ := h.call v hcall
      obtain ⟨rfl, -⟩ := hnot data incoming hp
      cases he
  · unfold Program.chunks
    dsimp only
    rw [Function.update_of_ne hv, Function.update_of_ne hv]

/-- A step of a client, that ends a call of `on_data` if it is in one. -/
theorem wired_link {id : StationId} {p : Program K} (h : Wired parse float config id p) {u : Upstream}
    {e : Session.Event}
    {link : Session Unit} {onData : Unit → Bytes → Py Unit × Unit}
    (hs : (p.links u).step (Program.client config u) onData e = some link) (he : Session.own e = true)
    (hc : p.calls u ≠ none ∧ p.isOver u = true ∨ ∀ data incoming, (p.links u).stage ≠ .handing data incoming) :
    Wired parse float config id { p with
      links := Function.update p.links u link
      calls := Function.update p.calls u none } := by
  obtain ⟨hstreams, -⟩ := streams_step hs (h.streams u)
  obtain ⟨hstopped, hreturned⟩ := own_step (proceeds_step hs) he
  have hrests : Rests p.service u := by
    rcases hc with ⟨-, ho⟩ | hnot
    · exact (isOver_iff p u).mp ho
    · exact h.rests u (h.no_call hnot)
  have hsame := chunks_link h hs he (hc.imp_left And.left)
  refine ⟨h.service, fun v => ?_, fun v => ?_, fun v hr => ?_, fun v hcall => ?_, fun v hcall => ?_, ?_, fun v => ?_⟩
  · by_cases hv : v = u
    · subst hv
      dsimp only
      rwa [Function.update_self]
    · dsimp only
      rw [Function.update_of_ne hv]
      exact h.streams v
  · by_cases hv : v = u
    · subst hv
      dsimp only
      rw [Function.update_self, hstopped]
      exact h.stopped v
    · dsimp only
      rw [Function.update_of_ne hv]
      exact h.stopped v
  · dsimp only at hr ⊢
    by_cases hv : v = u
    · subst hv
      rw [Function.update_self] at hr
      exact (h.stopped v).symm.trans (hreturned hr)
    · rw [Function.update_of_ne hv] at hr
      exact h.returned v hr
  · dsimp only at hcall ⊢
    by_cases hv : v = u
    · subst hv
      rw [Function.update_self] at hcall
      exact absurd rfl hcall
    · rw [Function.update_of_ne hv] at hcall ⊢
      exact h.call v hcall
  · dsimp only at hcall ⊢
    by_cases hv : v = u
    · exact hv ▸ hrests
    · rw [Function.update_of_ne hv] at hcall
      exact h.rests v hcall
  · rw [hsame]
    exact h.chunks
  · rw [hsame]
    exact h.cut v

theorem wired_step {id : StationId} {p p' : Program K} {e : Program.Event} (hs : p.step parse float config e = some p')
    (h : Wired parse float config id p) : Wired parse float config id p' := by
  cases advances_step parse float config hs with
  | signal =>
    have hchunks : ∀ u, Program.chunks { p with stop := true, links := fun u => { p.links u with stopped := true } } u =
        p.chunks u := fun u => rfl
    refine ⟨h.service, fun u => ?_, fun _ => rfl, fun _ _ => rfl, h.call, h.rests, h.chunks, h.cut⟩
    have hstep : (p.links u).step (Program.client config u) (fun _ _ => (.ok (), ())) .stop =
      some { p.links u with stopped := true } := rfl
    exact (streams_step hstep (h.streams u)).1
  | main => exact wired_aside h rfl rfl rfl (.inl rfl)
  | stops service hp hc => exact wired_aside h rfl rfl rfl (.inr ⟨.stop, hc⟩)
  | server i server server' outcome service hi hl hc =>
    refine wired_aside h rfl rfl rfl ?_
    rcases hc with ⟨incoming, rfl, hc⟩ | ⟨-, rfl⟩
    · exact .inr ⟨.connects incoming, hc⟩
    · exact .inl rfl
  | hands u e data incoming result link hu hp hc ho he hl =>
    exact wired_link h hl he (.inl ⟨by rw [hc]; nofun, ho⟩)
  | link u e link hu hp he hl =>
    have hw := wired_link h hl he (.inr hp)
    rwa [← h.no_call hp, Function.update_eq_self] at hw
  | calls u data incoming service hp hc hcall => exact wired_call h _ hcall (.inl ⟨data, incoming, rfl, hp, hc⟩)
  | turns u result service hl hturn => exact wired_call h result hturn (.inr ⟨rfl, hl⟩)
  | caster e service hc hst hcaster => exact wired_aside h rfl rfl rfl (.inr ⟨e, hcaster⟩)

omit [LinearOrder K] [FloorRing K] [PyMath K] in
theorem new_eq_ok {p₀ : Program K} (h : Program.new config = .ok p₀) :
    ∃ id : StationId, id.val = config.stationId ∧ p₀ = .start config id := by
  unfold Program.new Converter.init at h
  split at h
  · cases h
  · rename_i conv hconv
    split at hconv
    · rename_i hid
      cases hconv
      cases h
      exact ⟨⟨config.stationId, hid⟩, rfl, rfl⟩
    · cases hconv

theorem wired_run {p₀ p : Program K} {es : List Program.Event} (hnew : Program.new config = .ok p₀)
    (h : Transition.run (Program.step parse float config) p₀ es = some p) :
    ∃ id : StationId, id.val = config.stationId ∧ Wired parse float config id p := by
  obtain ⟨id, hid, rfl⟩ := new_eq_ok hnew
  exact ⟨id, hid, keeps (fun _ _ _ => wired_step) h (wired_start id)⟩

/-! ## What the clients of the RTCM 3 mount receive -/

/-- The mounts stay as they were configured. -/
theorem Serving.feeds {id : StationId} {s : Service K} (h : Serving parse float config id s) :
    s.caster.caster.feeds.get? config.rtcm23Mount = some 1 ∧
      (config.rtcm3Mount ≠ config.rtcm23Mount → s.caster.caster.feeds.get? config.rtcm3Mount = some 0) := by
  obtain ⟨es, h, -⟩ := h
  have hcaster : s.caster.caster = (NtripCaster.addFeed {} 0 config.rtcm3Info).addFeed 1 config.rtcm23Info := by
    refine keeps (I := fun s : Service K => s.caster.caster = _) (fun s e s' hs hI => ?_) h rfl
    cases acts_step parse hs with
    | obsData | obsTurn | ephData | ephTurn => exact hI
    | publishes _ _ _ _ _ hc => exact (later_of_serves (serves_step hc)).caster.trans hI
    | caster _ _ _ hc => exact (later_of_serves (serves_step hc)).caster.trans hI
  rw [hcaster]
  refine ⟨Dict.get?_set_self .., fun hne => ?_⟩
  exact (Dict.get?_set_ne _ _ hne).trans (Dict.get?_set_self ..)

/-- The bodies of an upstream are those of the connections made. -/
theorem bodies_advances {p p' : Program K} {e : Program.Event} (h : Advances parse float config p e p')
    (u : Upstream) : (p'.links u).bodies = (p.links u).bodies ++ (Program.streamed config u e).toList := by
  have hlink : ∀ v e link onData, (p.links v).step (Program.client config v) onData e = some link →
      (Function.update p.links v link u).bodies =
        (p.links u).bodies ++ (Program.streamed config u (.link v e)).toList := by
    intro v e link onData hs
    rw [Program.streamed]
    split_ifs with hv
    · subst hv
      rw [Function.update_self]
      exact bodies_step (proceeds_step hs)
    · rw [Function.update_of_ne (Ne.symm hv)]
      exact (List.append_nil _).symm
  cases h with
  | hands v e data incoming result link hu hp hc ho he hl => exact hlink v e link _ hl
  | link v e link hu hp he hl => exact hlink v e link _ hl
  | signal | main | stops | server | calls | turns | caster => exact (List.append_nil _).symm

/-- From the upstream to the clients, however often a connection breaks and
whatever the other threads do. `feed_obs` gets what followed the header of each
connection made, from its first byte and without a gap; all of it is published when
the call is over; and a client that has joined the RTCM 3 feed is sent, after
the status line, chunks of it in order, without a gap if its queue was never
full. Only `stop` ends the thread of an upstream. -/
theorem program_relays {p₀ p : Program K} {es : List Program.Event} (hnew : Program.new config = .ok p₀)
    (h : Transition.run (Program.step parse float config) p₀ es = some p) :
    let caster := p.service.caster
    (∀ u, (p.links u).bodies = es.filterMap (Program.streamed config u) ∧
      ∀ x ∈ (p.links u).links, x.2.flatten <+: x.1) ∧
    (∀ u, (p.links u).stage = .returned → p.stop = true) ∧
    (p.calls .obs = none → caster.published 0 = (p.links .obs).handed) ∧
    (caster.caster.feeds.get? config.rtcm23Mount = some 1 ∧
      (config.rtcm3Mount ≠ config.rtcm23Mount → caster.caster.feeds.get? config.rtcm3Mount = some 0)) ∧
    ∀ t q, caster.joined t = some (0, q) →
      let taken := ((caster.feeds 0).logs q).taken
      (∃ ntrip2 bytes, caster.sent t = NtripCaster.accepted caster.caster.server ntrip2 ++ bytes ∧
        bytes ++ (caster.handlers t).held <+: taken.flatten ∧
        ((caster.handlers t).serves = true → bytes ++ (caster.handlers t).held = taken.flatten)) ∧
      taken.Sublist (p.chunks .obs) ∧
      ((∀ o ∈ ((caster.feeds 0).logs q).offers, o.backlog ≠ 512) → taken <:+: p.chunks .obs) := by
  intro caster
  obtain ⟨id, -, hp⟩ := wired_run hnew h
  have hs := hp.service.delivers
  have hlog : caster.published 0 ++ (caster.feeds 0).announced ++ pendingOf p.service.pending 0 = p.chunks .obs :=
    (hs.published 0).trans (hs.rtcm3Feed.trans hp.chunks)
  have hpub : caster.published 0 <+: p.chunks .obs := ⟨_, by rw [← List.append_assoc, hlog]⟩
  have hbodies : ∀ u, (p.links u).bodies = es.filterMap (Program.streamed config u) := by
    intro u
    have hstart : (p₀.links u).bodies = [] := by
      obtain ⟨id, -, rfl⟩ := new_eq_ok hnew
      rfl
    have hstep : ∀ (p : Program K) (e : Program.Event) (p' : Program K), p.step parse float config e = some p' →
        (p'.links u).bodies = (p.links u).bodies ++ (Program.streamed config u e).toList :=
      fun p e p' he => bodies_advances (advances_step parse float config he) u
    have hrun := records hstep h
    rwa [hstart, List.nil_append] at hrun
  refine ⟨fun u => ⟨hbodies u, fun x hx => ((hp.streams u).links x hx).1⟩, hp.returned, fun hc => ?_,
    hp.service.feeds, fun t q hj => ?_⟩
  · obtain ⟨-, hq⟩ : p.service.outside := hp.rests .obs hc
    have hall := hs.of_quiet hq 0
    rw [announced_idle hq.2.1, List.append_nil] at hall
    exact hall.trans (hs.rtcm3Feed.trans (hp.chunks.trans (chunks_none hc)))
  · intro taken
    obtain ⟨htaken, hroomy⟩ := taken_published hs.sound hj
    exact ⟨(hs.sound.sent t).joined hj, htaken.trans hpub.sublist, fun hr => (hroomy hr).trans hpub.isInfix⟩

theorem stationId_default : 1 ≤ (1023 : Int) ∧ (1023 : Int) ≤ 1023 := by decide

/-- A program with the default configuration and without a parser. -/
noncomputable def relaying (es : List Program.Event) : Option (Program ℝ) :=
  Transition.run (Program.step (fun _ => none) (fun _ => "") {}) (.start {} ⟨1023, stationId_default⟩) es

/-- The threads start, and the upstream sends two bytes, one by one. A client
joins after the first, and is sent the second. -/
def oneUpstream : List Program.Event :=
  [.main, .main, .main, .main, .main, .server 0 .returns, .server 0 .returns, .server 0 .returns,
    .link .obs (.turn 0), .link .obs (.connects (encode "ICY 200 OK\r\n" ++ [1, 2, 3])), .link .obs (.turn 0),
    .link .obs (.turn 0), .service (.obsData [1]), .service (.caster (.publisher 0 (.publish [1]))),
    .service (.caster (.publisher 0 (.snapshot []))), .service (.caster (.publisher 0 .returns)), .service .obsTurn,
    .link .obs (.turn 0), .server 0 (.accepts (encode "GET /ADDE_RTCM3 HTTP/1.0\r\n\r\n")),
    .service (.caster (.turn 0 255)), .service (.caster (.turn 0 0)), .service (.caster (.turn 0 0)),
    .service (.caster (.turn 0 0)), .service (.caster (.turn 0 0)), .link .obs (.turn 0), .link .obs (.turn 0),
    .service (.obsData [2]), .service (.caster (.publisher 0 (.publish [2]))),
    .service (.caster (.publisher 0 (.snapshot [0]))), .service (.caster (.publisher 0 .put)),
    .service (.caster (.publisher 0 .returns)), .service .obsTurn, .link .obs (.turn 0), .service (.caster (.turn 0 0)),
    .service (.caster (.turn 0 0))]

theorem run_oneUpstream : ∃ p, relaying oneUpstream = some p ∧ p.chunks .obs = [[1], [2]] ∧
    p.service.caster.joined 0 = some (0, 0) ∧ p.service.caster.stopped = false := by
  have h : (relaying oneUpstream).map
      (fun p => (p.chunks .obs, p.service.caster.joined 0, p.service.caster.stopped)) =
        some ([[1], [2]], some (0, 0), false) := by decide +kernel
  obtain ⟨p, hp, hr⟩ := Option.map_eq_some_iff.mp h
  simp only [Prod.mk.injEq] at hr
  exact ⟨p, hp, hr⟩

theorem new_default : Program.new ({} : Config ℝ) = .ok (.start {} ⟨1023, stationId_default⟩) := rfl

theorem program_relays_oneUpstream : ∃ p, relaying oneUpstream = some p ∧
    ((p.service.caster.feeds 0).logs 0).taken.Sublist [[1], [2]] := by
  obtain ⟨p, hp, hchunks, hj, -⟩ := run_oneUpstream
  have ht := ((program_relays new_default hp).2.2.2.2 0 0 hj).2.1
  rw [hchunks] at ht
  exact ⟨p, hp, ht⟩

end Rtcm.Proof
