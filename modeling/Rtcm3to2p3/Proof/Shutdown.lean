import Mathlib.Algebra.BigOperators.Group.Finset.Basic
import Mathlib.Algebra.Order.BigOperators.Group.Finset
import Rtcm3to2p3.Proof.Clients
import Rtcm3to2p3.Proof.Drives

/-!
# The program stops

Once `caster.stop` has set its event, every step of a thread leaves the program
less to do (`programLeft_lt`): first the calls of `run`, of `_serve_on` and of
the two clients, then what is left of a call of `feed_obs`, then the frames of
the ephemerides and the calls of `_handle`. As long as a thread has not ended,
one of them has a next step (`settled_of_stuck`). Hence `program_stops`.
-/

namespace Rtcm.Proof

open Rtcm.Impl Rtcm.Spec Transition

variable {K : Type}

/-! ## What is left of a program -/

/-- Of the threads of `_serve_on`, twice. -/
def serversLeft (servers : List Server) : Nat := (servers.map fun server => 2 * server.stage.callsLeft).sum

/-- Of `caster.stop`: the sockets that are not closed yet, and the return. -/
def mainLeft (main : Main) (listed : List Nat) : Nat :=
  match main with
  | .closing next => listed.length - next + 1
  | _ => 0

/-- Of a client, twice, and the start of a call of `on_data`. -/
def linkLeft (stage : Stage) (call : Option (Py Unit)) : Nat :=
  2 * stage.callsLeft +
    match stage, call with
    | .handing _ _, none => 1
    | _, _ => 0

def linksLeft (links : Upstream → Session Unit) (calls : Upstream → Option (Py Unit)) : Nat :=
  linkLeft (links .obs).stage (calls .obs) + linkLeft (links .eph).stage (calls .eph)

/-- Of the threads of `_handle`. -/
def handlersLeft (s : Caster K) : Nat :=
  ∑ t ∈ Finset.range s.connections, (s.handlers t).callsLeft s.caster.feeds.items.length

/-- Of the calls of `feed_obs` and `feed_eph`, and of the caster's threads. -/
def serviceLeft (s : Service K) : ((Nat ×ₗ Nat ×ₗ Nat) ×ₗ Nat ×ₗ Nat ×ₗ Nat) ×ₗ Nat :=
  toLex (callLeft s, s.ephFrames.length + handlersLeft s.caster)

def programLeft (p : Program K) : Nat ×ₗ ((Nat ×ₗ Nat ×ₗ Nat) ×ₗ Nat ×ₗ Nat ×ₗ Nat) ×ₗ Nat :=
  toLex (serversLeft p.servers + mainLeft p.main p.listed + linksLeft p.links p.calls, serviceLeft p.service)

theorem programLeft_threads {p p' : Program K}
    (h : serversLeft p'.servers + mainLeft p'.main p'.listed + linksLeft p'.links p'.calls <
      serversLeft p.servers + mainLeft p.main p.listed + linksLeft p.links p.calls) :
    programLeft p' < programLeft p :=
  Prod.Lex.toLex_lt_toLex.mpr (.inl h)

theorem serversLeft_set {servers : List Server} {i : Nat} {server : Server} (hi : servers[i]? = some server)
    (server' : Server) : serversLeft (servers.set i server') + 2 * server.stage.callsLeft =
      serversLeft servers + 2 * server'.stage.callsLeft := by
  unfold serversLeft
  induction servers generalizing i with
  | nil => cases hi
  | cons first servers ih =>
    cases i with
    | zero =>
      obtain rfl := Option.some.inj hi
      simp only [List.set_cons_zero, List.map_cons, List.sum_cons]
      omega
    | succ i =>
      have hrest := ih hi
      simp only [List.set_cons_succ, List.map_cons, List.sum_cons]
      omega

theorem serversLeft_modify (servers : List Server) (i : Nat) :
    serversLeft (servers.modify i fun server => { server with isOpen := false }) = serversLeft servers := by
  unfold serversLeft
  induction servers generalizing i with
  | nil => cases i <;> rfl
  | cons first servers ih =>
    cases i with
    | zero => rfl
    | succ i => simp only [List.modify_succ_cons, List.map_cons, List.sum_cons, ih]

theorem linkLeft_lt {stage stage' : Stage} (h : stage'.callsLeft < stage.callsLeft) (call call' : Option (Py Unit)) :
    linkLeft stage' call' < linkLeft stage call := by
  have hle : linkLeft stage' call' ≤ 2 * stage'.callsLeft + 1 := by
    unfold linkLeft
    split <;> omega
  have hge : 2 * stage.callsLeft ≤ linkLeft stage call := Nat.le_add_right ..
  omega

theorem linksLeft_lt {links : Upstream → Session Unit} {calls : Upstream → Option (Py Unit)} {u : Upstream}
    {link : Session Unit} {call : Option (Py Unit)}
    (h : linkLeft link.stage call < linkLeft (links u).stage (calls u)) :
    linksLeft (Function.update links u link) (Function.update calls u call) < linksLeft links calls := by
  unfold linksLeft
  cases u with
  | obs =>
    simp only [Function.update_self, Function.update_of_ne (show Upstream.eph ≠ .obs by decide)]
    omega
  | eph =>
    simp only [Function.update_self, Function.update_of_ne (show Upstream.obs ≠ .eph by decide)]
    omega

/-- A call that is under way has been counted. -/
theorem linksLeft_call {links : Upstream → Session Unit} {calls : Upstream → Option (Py Unit)} {u : Upstream}
    (h : calls u ≠ none) (result : Py Unit) :
    linksLeft links (Function.update calls u (some result)) = linksLeft links calls := by
  have hsome : ∀ stage, linkLeft stage (some result) = linkLeft stage (calls u) := by
    intro stage
    obtain ⟨result', hc⟩ := Option.ne_none_iff_exists'.mp h
    rw [hc]
    cases stage <;> rfl
  unfold linksLeft
  cases u with
  | obs => rw [Function.update_self, hsome, Function.update_of_ne (by decide)]
  | eph => rw [Function.update_self, hsome, Function.update_of_ne (by decide)]

/-- A thread of a stopped caster leaves fewer calls of all. -/
theorem handlersLeft_lt {float : K → String} {s s' : Caster K} {e : Caster.Event} {t : Nat} (hs : Sound s)
    (hst : s.stopped = true) (h : s.step float e = some s') (he : e.thread = some t) :
    handlersLeft s' < handlersLeft s := by
  have hlater := later_of_serves (serves_step h)
  have hlt := callsLeft_lt hst h he
  have hconnections : s'.connections = s.connections := by
    cases serves_step h with
    | connects | publisher | stop => cases he
    | goes | subscribes | gets | leaves => rfl
  have ht : t < s.connections := by
    by_contra hge
    rw [(hs.fresh t (Nat.le_of_not_lt hge)).1] at hlt
    exact absurd hlt (Nat.not_lt_zero _)
  unfold handlersLeft
  rw [hconnections, hlater.caster]
  refine Finset.sum_lt_sum (fun t' ht' => ?_) ⟨t, Finset.mem_range.mpr ht, hlt⟩
  by_cases htt : t' = t
  · exact htt ▸ hlt.le
  · rw [hlater.handlers t' (Finset.mem_range.mp ht') fun hh => htt (Option.some.inj (he.symm.trans hh)).symm]

variable [Field K] [LinearOrder K] [FloorRing K] [PyMath K] {parse : Bytes → Option (Msg K)} {float : K → String}
  {config : Config K}

/-- No `publish` call is under way between two calls of `feed_obs`. -/
theorem publisher_within {s s' : Service K} {f : Nat} {e : Fanout.Event} (hs : TwoFeeds s)
    (h : s.step parse float (.caster (.publisher f e)) = some s') : ¬ s.outside := by
  rintro ⟨-, hpending, h0, h1⟩
  have hidle : (s.caster.feeds f).publisher = .idle := by
    by_cases hf : 2 ≤ f
    · exact hs.others f hf
    · obtain rfl | rfl : f = 0 ∨ f = 1 := by omega
      · exact h0
      · exact h1
  cases acts_step parse h with
  | publishes feed data pending caster hp hc =>
    rw [hpending] at hp
    cases hp
  | caster e caster hcalls hc =>
    cases serves_step hc with
    | goes _ _ _ _ he => cases he
    | publisher feed e feed' hp hstep =>
      cases hstep with
      | subscribe | unsubscribe | get => cases hp
      | nothing | announce =>
        have hcall := hcalls f
        rw [callsTo, if_pos rfl] at hcall
        cases hcall
      | snapshot data order hcopy =>
        rw [hidle] at hcopy
        cases hcopy
      | put data q todo hput =>
        rw [hidle] at hput
        cases hput
      | returns data hput =>
        rw [hidle] at hput
        cases hput

/-! ## The way to the end -/

/-- `run` is past `stop.wait()`, and past `self._stop.set()`. -/
def Woken : Main → Prop
  | .stopping | .closing _ | .returned => True
  | _ => False

def Closing : Main → Prop
  | .closing _ | .returned => True
  | _ => False

theorem woken_of_closing {main : Main} (h : Closing main) : Woken main := by
  cases main with
  | stopping | closing | returned => trivial
  | starting | launching | waiting => exact h.elim

/-- What of the shutdown holds in every state of the program. -/
structure Halts (p : Program K) : Prop where
  stop : Woken p.main → p.stop = true
  main : p.service.caster.stopped = true → Closing p.main
  servers : ∀ server ∈ p.servers, server.stage = .ended ∨ server.stage = .binding → server.isOpen = false

omit [LinearOrder K] [FloorRing K] [PyMath K] in
theorem halts_start (id : StationId) : Halts (.start config id) :=
  ⟨fun h => h.elim, fun h => (by cases h), fun _ h => absurd h List.not_mem_nil⟩

theorem listens_isOpen {stopped : Bool} {server server' : Server} {outcome : Program.Outcome}
    (h : Listens stopped server outcome server')
    (hs : server.stage = .ended ∨ server.stage = .binding → server.isOpen = false) :
    server'.stage = .ended ∨ server'.stage = .binding → server'.isOpen = false := by
  cases h with
  | refused hp => exact fun _ => hs (.inr hp)
  | closes => exact fun _ => rfl
  | binds | adds | accepts | timesOut | fails =>
    rintro (h | h) <;> cases h
  | checks =>
    dsimp only
    split
    all_goals rintro (h | h) <;> cases h

theorem halts_step {p p' : Program K} {e : Program.Event} (h : Advances parse float config p e p') (hs : Halts p) :
    Halts p' := by
  -- The steps that neither `run` nor `_serve_on` makes.
  have hservice : ∀ {e s}, p.service.step parse float e = some s → e ≠ .caster .stop →
      s.caster.stopped = true → Closing p.main := fun h he hst => hs.main ((casterStopped_step h).2 he ▸ hst)
  cases h with
  | signal => exact ⟨fun _ => rfl, hs.main, hs.servers⟩
  | main main servers h =>
    have hnot : ∀ {main}, p.main = main → ¬ Closing main → p.service.caster.stopped = true → False :=
      fun hp hc hst => hc (hp ▸ hs.main hst)
    cases h with
    | starts address addresses hp =>
      refine ⟨fun h => h.elim, fun hst => (hnot hp id hst).elim, fun server hm => ?_⟩
      rcases List.mem_append.mp hm with hm | hm
      · exact hs.servers server hm
      · exact fun _ => List.mem_singleton.mp hm ▸ rfl
    | started hp | launches _ _ hp | launched hp =>
      exact ⟨fun h => h.elim, fun hst => (hnot hp id hst).elim, hs.servers⟩
    | wakes hp hstop => exact ⟨fun _ => hstop, fun hst => (hnot hp id hst).elim, hs.servers⟩
    | closes next i hp hi =>
      refine ⟨fun _ => hs.stop (by rw [hp]; trivial), fun _ => trivial, fun server hm => ?_⟩
      obtain ⟨j, hj⟩ := List.mem_iff_getElem?.mp hm
      rw [List.getElem?_modify] at hj
      obtain ⟨server₀, hj₀, hsame⟩ := Option.map_eq_some_iff.mp hj
      by_cases hij : i = j
      · rw [if_pos hij] at hsame
        exact fun _ => hsame ▸ rfl
      · rw [if_neg hij] at hsame
        exact hsame ▸ hs.servers server₀ (List.mem_of_getElem? hj₀)
    | returns next hp hi => exact ⟨fun _ => hs.stop (by rw [hp]; trivial), fun _ => trivial, hs.servers⟩
  | stops service hp hc => exact ⟨fun _ => hs.stop (by rw [hp]; trivial), fun _ => trivial, hs.servers⟩
  | server i server server' outcome service hi hl hc =>
    refine ⟨hs.stop, fun hst => ?_, fun server₁ hm => ?_⟩
    · rcases hc with ⟨incoming, -, hc⟩ | ⟨-, rfl⟩
      · exact hservice hc (by simp) hst
      · exact hs.main hst
    · rcases List.mem_or_eq_of_mem_set hm with hm | rfl
      · exact hs.servers server₁ hm
      · exact listens_isOpen hl (hs.servers server (List.mem_of_getElem? hi))
  | hands | link => exact ⟨hs.stop, hs.main, hs.servers⟩
  | calls u data incoming service hp hc h => exact ⟨hs.stop, hservice h (by cases u <;> simp [callOf]), hs.servers⟩
  | turns u result service hl h => exact ⟨hs.stop, hservice h (by cases u <;> simp [turnOf]), hs.servers⟩
  | caster e service hc hstop h => exact ⟨hs.stop, hservice h (by simpa using hstop), hs.servers⟩

/-! ## Each step leaves less -/

theorem mainLeft_server {stopped : Bool} {server server' : Server} {outcome : Program.Outcome} (main : Main)
    (listed : List Nat) (i : Nat) (h : Listens stopped server outcome server') (hst : stopped = true) :
    2 * server'.stage.callsLeft + mainLeft main (if server.stage = .adding then listed ++ [i] else listed) <
      2 * server.stage.callsLeft + mainLeft main listed := by
  have hmain : mainLeft main (listed ++ [i]) ≤ mainLeft main listed + 1 := by
    cases main with
    | closing next =>
      simp only [mainLeft, List.length_append, List.length_singleton]
      omega
    | starting | launching | waiting | stopping | returned => exact Nat.zero_le _
  cases h with
  | adds hp =>
    rw [hp, if_pos rfl]
    simp only [Listening.callsLeft]
    omega
  | checks hp =>
    rw [hp, if_neg (show Listening.checking ≠ .adding by decide), if_pos hst]
    simp only [Listening.callsLeft]
    omega
  | binds hp | refused hp | accepts _ hp | timesOut hp | fails hp | closes hp =>
    rw [hp, if_neg (by decide)]
    simp only [Listening.callsLeft]
    omega

/-- Another step of a call of `on_data`. -/
theorem serviceLeft_turns {s s' : Service K} {u : Upstream} (hs : TwoFeeds s) (hl : Loops s u)
    (h : s.step parse float (turnOf u) = some s') : serviceLeft s' < serviceLeft s := by
  cases u with
  | obs => exact Prod.Lex.toLex_lt_toLex.mpr (.inl (callLeft_lt parse h hs (not_rests hl) rfl))
  | eph =>
    have hsame : s'.caster = s.caster := by
      cases acts_step parse h with
      | ephTurn => rfl
    refine Prod.Lex.toLex_lt_toLex.mpr (.inr ⟨callLeft_le parse h rfl, ?_⟩)
    rw [hsame]
    exact Nat.add_lt_add_right (ephFrames_lt parse h hl rfl) _

/-- A step of a publisher, or of a thread of `_handle`. -/
theorem serviceLeft_caster {c₀ : Converter K} {s s' : Service K} {e : Caster.Event} (hd : Delivers c₀ s)
    (hs : TwoFeeds s) (hst : s.caster.stopped = true) (hc : ∀ incoming, e ≠ .connects incoming) (hstop : e ≠ .stop)
    (h : s.step parse float (.caster e) = some s') : serviceLeft s' < serviceLeft s := by
  have hpublisher : ∀ {f ev}, e = .publisher f ev → serviceLeft s' < serviceLeft s := by
    rintro f ev rfl
    exact Prod.Lex.toLex_lt_toLex.mpr (.inl (callLeft_lt parse h hs (publisher_within hs h) rfl))
  have hthread : ∀ {t}, e.thread = some t → Service.Event.ofObs (.caster e) = false →
      serviceLeft s' < serviceLeft s := by
    intro t ht hobs
    have hlt : handlersLeft s'.caster < handlersLeft s.caster := by
      cases acts_step parse h with
      | publishes => cases ht
      | caster e caster _ hc => exact handlersLeft_lt hd.sound hst hc ht
    refine Prod.Lex.toLex_lt_toLex.mpr (.inr ⟨callLeft_le parse h hobs, ?_⟩)
    rw [ephFrames_eq parse h rfl]
    exact Nat.add_lt_add_left hlt _
  cases e with
  | publisher f ev => exact hpublisher rfl
  | turn t more | fails t k | empty t => exact hthread rfl rfl
  | connects incoming => exact absurd rfl (hc incoming)
  | stop => exact absurd rfl hstop

/-- Every step of a thread of a stopped program leaves it less to do. -/
theorem programLeft_lt {id : StationId} {p p' : Program K} {e : Program.Event} (hw : Wired parse float config id p)
    (hs : Halts p) (hst : p.service.caster.stopped = true) (h : Advances parse float config p e p') (he : e ≠ .signal) :
    programLeft p' < programLeft p := by
  have hclosing := hs.main hst
  have hlinks : ∀ u, (p.links u).stopped = true := fun u => (hw.stopped u).trans (hs.stop (woken_of_closing hclosing))
  have hcall : ∀ {u}, Loops p.service u → p.calls u ≠ none := fun hl hnone => not_rests hl (hw.rests _ hnone)
  cases h with
  | signal => exact absurd rfl he
  | main main servers h =>
    refine programLeft_threads ?_
    cases h with
    | starts _ _ hp | started hp | launches _ _ hp | launched hp | wakes hp =>
      rw [hp] at hclosing
      exact hclosing.elim
    | closes next i hp hi =>
      have hlt := (List.getElem?_eq_some_iff.mp hi).1
      dsimp only
      rw [hp, serversLeft_modify]
      simp only [mainLeft]
      omega
    | returns next hp hi =>
      dsimp only
      rw [hp]
      simp only [mainLeft]
      omega
  | stops service hp hc =>
    rw [hp] at hclosing
    exact hclosing.elim
  | server i server server' outcome service hi hl hc =>
    refine programLeft_threads ?_
    have hset := serversLeft_set hi server'
    have hlt := mainLeft_server p.main p.listed i hl hst
    simp only [Program.goes]
    omega
  | hands u e data incoming result link hu hp hc ho hown hl =>
    refine programLeft_threads (Nat.add_lt_add_left (linksLeft_lt ?_) _)
    exact linkLeft_lt (callsLeft_step (proceeds_step hl) (hlinks u) hown) _ _
  | link u e link hu hp hown hl =>
    refine programLeft_threads (Nat.add_lt_add_left ?_ _)
    have hlt : linksLeft (Function.update p.links u link) (Function.update p.calls u (p.calls u)) <
        linksLeft p.links p.calls :=
      linksLeft_lt (linkLeft_lt (callsLeft_step (proceeds_step hl) (hlinks u) hown) _ _)
    rwa [Function.update_eq_self] at hlt
  | calls u data incoming service hp hc h =>
    refine programLeft_threads (Nat.add_lt_add_left ?_ _)
    have hlt : linksLeft (Function.update p.links u (p.links u)) (Function.update p.calls u (some (.ok ()))) <
        linksLeft p.links p.calls := by
      refine linksLeft_lt ?_
      rw [hp, hc]
      exact Nat.lt_succ_self _
    rwa [Function.update_eq_self] at hlt
  | turns u result service hl h =>
    refine Prod.Lex.toLex_lt_toLex.mpr (.inr ⟨?_, serviceLeft_turns hw.service.twoFeeds hl h⟩)
    dsimp only
    rw [linksLeft_call (hcall hl)]
  | caster e service hc hstop h =>
    have hlt := serviceLeft_caster hw.service.delivers hw.service.twoFeeds hst hc hstop h
    exact Prod.Lex.toLex_lt_toLex.mpr (.inr ⟨rfl, hlt⟩)

/-! ## There is always a next step -/

/-- A call of `on_data` has a next step, or returns. -/
theorem call_goes_on {id : StationId} {p : Program K} (hw : Wired parse float config id p) {u : Upstream}
    (hu : u ∉ p.main.unstarted) (hc : p.calls u ≠ none) :
    ∃ e, e ≠ .signal ∧ p.step parse float config e ≠ none := by
  obtain ⟨data, incoming, hp⟩ := hw.call u hc
  obtain ⟨result, hc⟩ := Option.ne_none_iff_exists'.mp hc
  by_cases hr : Rests p.service u
  · refine ⟨.link u (.turn 0), by simp, ?_⟩
    simp only [Program.step, Session.own, hu, not_false_iff, and_self, if_true, Program.turnLink, hp, hc,
      (isOver_iff p u).mpr hr, Session.step]
    cases result <;> simp
  · cases u with
    | eph =>
      obtain ⟨frame, frames, hf⟩ := List.exists_cons_of_ne_nil hr
      refine ⟨.service .ephTurn, by simp, ?_⟩
      simp [Program.step, Program.turnService, hf, Program.inCall, Service.step]
    | obs =>
      obtain ⟨e, s', hobs, hs⟩ := obs_steps parse float hw.service.delivers hw.service.twoFeeds
      cases e with
      | obsData data =>
        cases acts_step parse hs with
        | obsData _ hi hq => exact absurd ⟨hi, hq⟩ hr
      | obsTurn =>
        refine ⟨.service .obsTurn, by simp, ?_⟩
        cases hi : p.service.obs with
        | idle =>
          cases acts_step parse hs with
          | obsTurn hq => exact absurd ⟨hi, hq⟩ hr
        | looping | correcting => simp [Program.step, Program.turnService, hi, Program.inCall, hs]
      | ephData | ephTurn => cases hobs
      | caster ev =>
        refine ⟨.service (.caster ev), by simp, ?_⟩
        cases ev with
        | publisher => simp [Program.step, Program.turnService, hs]
        | connects | turn | fails | empty | stop => cases hobs

/-- So has a client that has not returned. -/
theorem link_goes_on {id : StationId} {p : Program K} (hw : Wired parse float config id p) {u : Upstream}
    (hu : u ∉ p.main.unstarted) (hr : (p.links u).stage ≠ .returned) :
    ∃ e, e ≠ .signal ∧ p.step parse float config e ≠ none := by
  by_cases hc : p.calls u = none
  · by_cases hp : ∃ data incoming, (p.links u).stage = .handing data incoming
    · obtain ⟨data, incoming, hp⟩ := hp
      obtain ⟨service, hs⟩ : ∃ service, p.service.step parse float (callOf u data) = some service := by
        have hrests := hw.rests u hc
        have hne := ((hw.streams u).handing data incoming hp).1
        cases u with
        | obs =>
          simp only [callOf, Service.step, hrests.1]
          exact ⟨_, if_pos ⟨hrests.2, hne⟩⟩
        | eph => exact ⟨_, if_pos hrests⟩
      exact ⟨.service (callOf u data), by simp, by rw [step_call hp hc hs]; exact Option.some_ne_none _⟩
    · have hp : ∀ data incoming, (p.links u).stage ≠ .handing data incoming := fun data incoming h => hp ⟨_, _, h⟩
      have hlink : ∀ e, Session.own e = true →
          (p.links u).step (Program.client config u) (fun _ _ => (.ok (), ())) e ≠ none →
          ∃ e, e ≠ .signal ∧ p.step parse float config e ≠ none := by
        intro e he hs
        obtain ⟨link, hl⟩ := Option.ne_none_iff_exists'.mp hs
        exact ⟨.link u e, by simp, by rw [step_link hu hp he hl]; exact Option.some_ne_none _⟩
      rcases can_proceed (p.links u) hr with h | h | h
      · exact hlink _ rfl h
      · exact hlink _ rfl h
      · exact hlink _ rfl h
  · exact call_goes_on hw hu hc

/-- So has a thread of `_serve_on` that has not ended. -/
theorem server_goes_on {p : Program K} {i : Nat} {server : Server} (hi : p.servers[i]? = some server)
    (he : server.stage ≠ .ended) : ∃ e, e ≠ .signal ∧ p.step parse float config e ≠ none := by
  obtain ⟨address, stage, isOpen⟩ := server
  cases stage with
  | ended => exact absurd rfl he
  | accepting => exact ⟨.server i .timesOut, by simp, by simp [Program.step, hi, Program.turnServer]⟩
  | binding | adding | checking | closing =>
    exact ⟨.server i .returns, by simp, by simp [Program.step, hi, Program.turnServer]⟩

/-- And one of `_handle`. -/
theorem handler_goes_on {p : Program K} {t : Nat} (ht : p.service.caster.handlers t ≠ .closed) :
    ∃ e, e ≠ .signal ∧ p.step parse float config e ≠ none := by
  rcases @turn_or_empty _ float p.service.caster _ ht with h | h
  · refine ⟨.service (.caster (.turn t 0)), by simp, ?_⟩
    simpa [Program.step, Program.turnService, Service.step, Caster.step] using h
  · refine ⟨.service (.caster (.empty t)), by simp, ?_⟩
    simpa [Program.step, Program.turnService, Service.step] using h

theorem settled_of_stuck {id : StationId} {p : Program K} (hw : Wired parse float config id p) (hs : Halts p)
    (hst : p.service.caster.stopped = true) (hend : ∀ e, e ≠ .signal → p.step parse float config e = none) :
    p.Settled := by
  have hnot : ¬ ∃ e, e ≠ .signal ∧ p.step parse float config e ≠ none := fun ⟨e, he, h⟩ => h (hend e he)
  have hclosing := hs.main hst
  have hmain : p.main = .returned := by
    cases hp : p.main with
    | returned => rfl
    | closing next =>
      refine absurd ⟨.main, by simp, ?_⟩ hnot
      simp only [Program.step, Program.turnMain, hp]
      split <;> simp
    | starting | launching | waiting | stopping =>
      rw [hp] at hclosing
      exact hclosing.elim
  have hu : ∀ u, u ∉ p.main.unstarted := fun u => by rw [hmain]; exact List.not_mem_nil
  have hcalls : ∀ u, p.calls u = none := fun u => by_contra fun hc => hnot (call_goes_on hw (hu u) hc)
  have hhandlers : ∀ t, p.service.caster.handlers t = .closed := fun t => by_contra fun ht => hnot (handler_goes_on ht)
  refine ⟨hmain, fun server hm => ?_, fun u => by_contra fun hr => hnot (link_goes_on hw (hu u) hr), hcalls, hhandlers,
    fun f => ?_⟩
  · obtain ⟨i, hi⟩ := List.mem_iff_getElem?.mp hm
    have hended : server.stage = .ended := by_contra fun he => hnot (server_goes_on hi he)
    exact ⟨hended, hs.servers server hm (.inl hended)⟩
  · refine Finset.eq_empty_of_forall_notMem fun q hq => ?_
    obtain ⟨t, ht⟩ := (hw.service.delivers.sound.members.subs f q).mp hq
    rw [hhandlers t] at ht
    cases ht

theorem stopped_of_advances {p p' : Program K} {e : Program.Event} (h : Advances parse float config p e p')
    (hst : p.service.caster.stopped = true) : p'.service.caster.stopped = true := by
  cases h with
  | signal | main | hands | link => exact hst
  | stops service hp hc => exact stopped_service hc hst
  | server i server server' outcome service hi hl hc =>
    rcases hc with ⟨incoming, -, hc⟩ | ⟨-, rfl⟩
    · exact stopped_service hc hst
    · exact hst
  | calls _ _ _ _ _ _ h | turns _ _ _ _ h | caster _ _ _ _ h => exact stopped_service h hst

theorem programLeft_signal {p p' : Program K} {e : Program.Event} (h : p.step parse float config e = some p')
    (he : e = .signal) : programLeft p' = programLeft p := by
  subst he
  obtain rfl := Option.some.inj h
  rfl

/-- After `caster.stop` has set its event, nothing keeps the program from its
end, in whatever order its threads go on and whatever fails. All threads can
end; a program in which no thread has a step left has its threads ended, its
sockets closed and no subscriber; and only signals can come without end. -/
theorem program_stops {p₀ p : Program K} {es : List Program.Event} (hnew : Program.new config = .ok p₀)
    (h : Transition.run (Program.step parse float config) p₀ es = some p) (hst : p.service.caster.stopped = true) :
    (∃ es' p', Transition.run (Program.step parse float config) p es' = some p' ∧ (∀ e ∈ es', e ≠ .signal) ∧
      p'.Settled) ∧
    (∀ es' p', Transition.run (Program.step parse float config) p es' = some p' →
      (∀ e, e ≠ .signal → p'.step parse float config e = none) → p'.Settled) ∧
    ∀ (states : Nat → Program K) (events : Nat → Program.Event), states 0 = p →
      (∀ i, (states i).step parse float config (events i) = some (states (i + 1))) →
      ∃ n, ∀ i, n ≤ i → events i = .signal := by
  obtain ⟨id, -, rfl⟩ := new_eq_ok hnew
  have hkeep : ∀ (p : Program K) e p', p.step parse float config e = some p' →
      Wired parse float config id p ∧ Halts p → Wired parse float config id p' ∧ Halts p' :=
    fun _ _ _ h hI => ⟨wired_step h hI.1, halts_step (advances_step parse float config h) hI.2⟩
  have hstopped : ∀ (p : Program K) e p', p.step parse float config e = some p' →
      (Wired parse float config id p ∧ Halts p) ∧ p.service.caster.stopped = true →
      (Wired parse float config id p' ∧ Halts p') ∧ p'.service.caster.stopped = true :=
    fun _ _ _ h hI => ⟨hkeep _ _ _ h hI.1, stopped_of_advances (advances_step parse float config h) hI.2⟩
  have hless : ∀ (p : Program K) e p', p.step parse float config e = some p' →
      (Wired parse float config id p ∧ Halts p) ∧ p.service.caster.stopped = true → e ≠ .signal →
      programLeft p' < programLeft p :=
    fun _ _ _ h hI he => programLeft_lt hI.1.1 hI.1.2 hI.2 (advances_step parse float config h) he
  have hp := And.intro (keeps hkeep h ⟨wired_start id, halts_start id⟩) hst
  refine ⟨?_, fun es' p' h' hend => ?_, fun states events h₀ hrun => ?_⟩
  · refine reaches hstopped (fun p e p' h hI _ he => hless p e p' h hI he) (fun p hI hns => ?_) hp
    by_contra hno
    refine hns (settled_of_stuck hI.1.1 hI.1.2 hI.2 fun e he => ?_)
    exact Option.eq_none_iff_forall_ne_some.mpr fun p' h => hno ⟨e, p', he, h⟩
  · obtain ⟨⟨hw, hs⟩, hst'⟩ := keeps hstopped h' hp
    exact settled_of_stuck hw hs hst' hend
  · by_contra hno
    have hfair : ∀ i, ∃ j, i ≤ j ∧ events j ≠ .signal := by
      intro i
      by_contra hall
      exact hno ⟨i, fun j hj => by_contra fun hne => hall ⟨j, hj, hne⟩⟩
    -- No state is good, so there cannot always be another step of a thread.
    obtain ⟨j, -, hfalse⟩ := @recurs _ _ _ _ _ _ _ (fun _ => False) (fun e => e ≠ .signal) programLeft hstopped
      (fun p e p' h hI _ he => hless p e p' h hI he)
      (fun p e p' h _ _ he => (programLeft_signal h (not_not.mp he)).le) _ _ hrun (h₀ ▸ hp) hfair 0
    exact hfalse

theorem program_stops_oneUpstream : ∃ p, relaying (oneUpstream ++ [.signal, .main, .main]) = some p ∧
    p.service.caster.joined 0 = some (0, 0) ∧
    ∃ es' p', Transition.run (Program.step (fun _ => none) (fun _ => "") {}) p es' = some p' ∧ p'.Settled := by
  have h : (relaying (oneUpstream ++ [.signal, .main, .main])).map
      (fun p => (p.service.caster.joined 0, p.service.caster.stopped)) = some (some (0, 0), true) := by decide +kernel
  obtain ⟨p, hp, hr⟩ := Option.map_eq_some_iff.mp h
  simp only [Prod.mk.injEq] at hr
  obtain ⟨⟨es', p', h', -, hsettled⟩, -⟩ := program_stops new_default hp hr.2
  exact ⟨p, hp, hr.1, es', p', h', hsettled⟩

end Rtcm.Proof
