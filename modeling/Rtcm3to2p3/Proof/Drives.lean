import Rtcm3to2p3.Proof.Header
import Rtcm3to2p3.Proof.Program

/-!
# The program runs the service

The other direction of `Wired`: no run of the service is out of reach of the
program. Once its threads are up (`start_up`), a step of the service is a run of
the program that leaves it up (`up_step`): for a call of `on_data`, the upstream
cuts the connection off and sends the chunk on a new one (`redials`, `dials`).
Hence `program_serves`.
-/

namespace Rtcm.Proof

open Rtcm.Impl Rtcm.Spec Delimited Transition

variable {K : Type} [Field K] [LinearOrder K] [FloorRing K] [PyMath K] {parse : Bytes → Option (Msg K)}
  {float : K → String} {config : Config K}

/-! ## The clients -/

/-- A step of a client outside `on_data`. -/
theorem step_link {p : Program K} {u : Upstream} {e : Session.Event} {link : Session Unit} (hu : u ∉ p.main.unstarted)
    (hp : ∀ data incoming, (p.links u).stage ≠ .handing data incoming) (he : Session.own e = true)
    (h : (p.links u).step (Program.client config u) (fun _ _ => (.ok (), ())) e = some link) :
    p.step parse float config (.link u e) = some { p with links := Function.update p.links u link } := by
  simp only [Program.step, he, hu, not_false_iff, and_self, if_true, Program.turnLink]
  split
  · rename_i data incoming hx _
    exact absurd hx (hp data incoming)
  · rename_i data incoming result hx _
    exact absurd hx (hp data incoming)
  · rw [h]
    rfl

/-- A client outside `on_data`. -/
def outsideStep (client : NtripClient) (s : Session Unit) (e : Session.Event) : Option (Session Unit) :=
  match s.stage with
  | .handing _ _ => none
  | _ => if Session.own e then s.step client (fun _ _ => (.ok (), ())) e else none

theorem run_link {p : Program K} {u : Upstream} (hu : u ∉ p.main.unstarted) {es : List Session.Event}
    {link : Session Unit} (h : run (outsideStep (Program.client config u)) (p.links u) es = some link) :
    ∃ es', run (Program.step parse float config) p es' = some { p with links := Function.update p.links u link } := by
  have hsame : p = { p with links := Function.update p.links u (p.links u) } := by rw [Function.update_eq_self]
  have hrun : ∃ es' p', run (Program.step parse float config) p es' = some p' ∧
      p' = { p with links := Function.update p.links u link } := by
    refine simulates (R := fun s p' => p' = { p with links := Function.update p.links u s }) (p := fun _ => True)
      (fun s e s₁ p' hs _ hp => ?_) h (fun _ _ => trivial) hsame
    subst hp
    have hfree : ∀ data incoming, s.stage ≠ .handing data incoming := by
      intro data incoming hp
      simp only [outsideStep, hp] at hs
      cases hs
    obtain ⟨he, hstep⟩ : Session.own e = true ∧
        s.step (Program.client config u) (fun _ _ => (.ok (), ())) e = some s₁ := by
      unfold outsideStep at hs
      split at hs
      · cases hs
      · split_ifs at hs with he
        exact ⟨he, hs⟩
    have hl : Program.step parse float config { p with links := Function.update p.links u s } (.link u e) = some _ :=
      step_link hu (by simpa only [Function.update_self] using hfree) he
        (by simpa only [Function.update_self] using hstep)
    refine ⟨[.link u e], _, run_cons_of hl rfl, ?_⟩
    simp only [Function.update_idem]
  obtain ⟨es', p', h', rfl⟩ := hrun
  exact ⟨es', h'⟩

theorem connect_icy (client : NtripClient) (data : Bytes) :
    client.connect (encode "ICY 200 OK\r\n" ++ data) = .ok data := by
  have hup : UpTo CRLF (encode "ICY 200 OK\r\n") (encode "ICY 200 OK\r\n" ++ data) :=
    ⟨List.prefix_append _ _, by decide, by decide⟩
  obtain ⟨incoming, hsplit, hc⟩ := connect_afterStatus client hup
  have hstarts : Starts (encode "ICY 200 OK\r\n") := .inl (by decide)
  have hicy : ¬ encode "HTTP" <+: encode "ICY 200 OK\r\n" := by decide
  rw [hc, ← List.append_cancel_left hsplit, afterStatus, if_pos hstarts, if_neg hicy]

/-- A client that is cut off connects again. -/
theorem redials (client : NtripClient) {s : Session Unit} (hst : s.stopped = false)
    (h : s.stage = .checking ∨ s.stage = .pausing ∨ s.stage = .looping []) :
    ∃ es s', run (outsideStep client) s es = some s' ∧ s'.stage = .connecting ∧ s'.stopped = false := by
  obtain ⟨stage, backoff, stopped, app, waits, links⟩ := s
  dsimp only at hst h
  subst hst
  rcases h with rfl | rfl | rfl
  · exact ⟨[.turn 0], _, rfl, rfl, rfl⟩
  · exact ⟨[.elapses, .turn 0], _, rfl, rfl, rfl⟩
  · exact ⟨[.turn 0, .turn 0, .elapses, .turn 0], _, rfl, rfl, rfl⟩

/-- The upstream sends a chunk. -/
theorem dials (client : NtripClient) {s : Session Unit} (hst : s.stopped = false) (h : s.stage = .connecting)
    {data : Bytes} (hne : data ≠ []) (hle : data.length ≤ 4096) :
    ∃ es s', run (outsideStep client) s es = some s' ∧ s'.stage = .handing data [] ∧ s'.stopped = false := by
  obtain ⟨stage, backoff, stopped, app, waits, links⟩ := s
  dsimp only at hst h
  subst hst
  subst h
  have htake : recv 4096 data.length data = (data, []) := by
    have hmin : data.length ≤ min 4096 (data.length + 1) := by omega
    rw [recv, List.take_of_length_le hmin, List.drop_of_length_le hmin]
  have hempty : data.isEmpty = false := by
    cases data with
    | nil => exact absurd rfl hne
    | cons b data => rfl
  have hconnects : outsideStep client ⟨.connecting, backoff, false, app, waits, links⟩
      (.connects (encode "ICY 200 OK\r\n" ++ data)) =
        some ⟨.looping data, 2, false, app, [], (data, []) :: links⟩ := by
    simp only [outsideStep, Session.own, Session.step, if_true, connect_icy]
  have hreceives : outsideStep client ⟨.receiving data, 2, false, app, [], (data, []) :: links⟩
      (.turn data.length) = some ⟨.handing data [], 2, false, app, [], (data, []) :: links⟩ := by
    simp only [outsideStep, Session.own, Session.step, if_true, htake, hempty, Bool.false_eq_true, if_false]
  have hloops : outsideStep client ⟨.looping data, 2, false, app, [], (data, []) :: links⟩ (.turn 0) =
      some ⟨.receiving data, 2, false, app, [], (data, []) :: links⟩ := rfl
  exact ⟨[.connects (encode "ICY 200 OK\r\n" ++ data), .turn 0, .turn data.length], _,
    run_cons_of hconnects (run_cons_of hloops (run_cons_of hreceives rfl)), rfl, rfl⟩

/-! ## The calls -/

/-- The program is up: `run` waits, the first thread of `_serve_on` accepts, and
each client connects or is in its call of `on_data`. -/
structure Up (p : Program K) : Prop where
  main : p.main = .waiting
  server : ∃ address, p.servers[0]? = some ⟨address, .accepting, true⟩
  running : p.service.caster.stopped = false
  stopped : ∀ u, (p.links u).stopped = false
  links : ∀ u, p.calls u = none ∧ (p.links u).stage = .connecting ∨
    p.calls u ≠ none ∧ ∃ data, (p.links u).stage = .handing data []

omit [Field K] [LinearOrder K] [FloorRing K] [PyMath K] in
theorem Up.started {p : Program K} (h : Up p) (u : Upstream) : u ∉ p.main.unstarted := by
  rw [h.main]
  exact List.not_mem_nil

/-- A call that is over returns, and its client connects again. -/
theorem up_redials {p : Program K} (h : Up p) {u : Upstream} (hr : Rests p.service u) :
    ∃ es link, run (Program.step parse float config) p es = some { p with
      links := Function.update p.links u link
      calls := Function.update p.calls u none } ∧ link.stage = .connecting ∧ link.stopped = false := by
  rcases h.links u with ⟨hc, hp⟩ | ⟨hc, data, hp⟩
  · refine ⟨[], p.links u, ?_, hp, h.stopped u⟩
    rw [Function.update_eq_self, ← hc, Function.update_eq_self]
    rfl
  · obtain ⟨result, hc⟩ := Option.ne_none_iff_exists'.mp hc
    obtain ⟨link, hl, hstage, hst⟩ : ∃ link,
        (p.links u).step (Program.client config u) (fun _ _ => (result, ())) (.turn 0) = some link ∧
        (link.stage = .checking ∨ link.stage = .pausing ∨ link.stage = .looping []) ∧
          link.stopped = false := by
      have hst := h.stopped u
      simp only [Session.step, hp]
      rcases result with _ | ⟨⟩
      · exact ⟨_, rfl, .inr (.inl rfl), hst⟩
      · exact ⟨_, rfl, .inr (.inr rfl), hst⟩
    have hreturns : p.step parse float config (.link u (.turn 0)) = some { p with
        links := Function.update p.links u link
        calls := Function.update p.calls u none } := by
      simp only [Program.step, Session.own, h.started u, not_false_iff, and_self, if_true, Program.turnLink, hp, hc,
        (isOver_iff p u).mpr hr, hl, Option.map_some]
    obtain ⟨es, link', hrun, hconn, hst'⟩ := redials (Program.client config u) hst hstage
    obtain ⟨es', h'⟩ : ∃ es', run (Program.step parse float config) _ es' = some _ :=
      run_link (p := { p with links := Function.update p.links u link, calls := Function.update p.calls u none })
        (h.started u) (by simpa only [Function.update_self] using hrun)
    refine ⟨.link u (.turn 0) :: es', link', run_cons_of hreturns ?_, hconn, hst'⟩
    simpa only [Function.update_idem] using h'

theorem step_call {p : Program K} {u : Upstream} {data incoming : Bytes} {service : Service K}
    (hp : (p.links u).stage = .handing data incoming) (hc : p.calls u = none)
    (hs : p.service.step parse float (callOf u data) = some service) :
    p.step parse float config (.service (callOf u data)) =
      some { p with service, calls := Function.update p.calls u (some (.ok ())) } := by
  cases u <;> simp only [callOf] at hs <;>
    simp only [Program.step, callOf, Program.turnService, hp, hc, if_true, Program.inCall, hs, Option.map_some]

theorem rests_of_call {s s' : Service K} {u : Upstream} {data : Bytes}
    (h : s.step parse float (callOf u data) = some s') : Rests s u := by
  cases u with
  | obs =>
    cases acts_step parse h with
    | obsData _ hi hq => exact ⟨hi, hq⟩
  | eph =>
    simp only [callOf, Service.step] at h
    split at h
    · assumption
    · cases h

omit [Field K] [LinearOrder K] [FloorRing K] [PyMath K] in
/-- A client that is called on with its chunk leaves the program up. -/
theorem Up.called {p : Program K} (h : Up p) {u : Upstream} {data : Bytes} {link : Session Unit} {service : Service K}
    {result : Py Unit} (hp : link.stage = .handing data []) (hst : link.stopped = false)
    (hrun : service.caster.stopped = false) : Up { p with
      links := Function.update p.links u link
      calls := Function.update p.calls u (some result)
      service } := by
  refine ⟨h.main, h.server, hrun, fun v => ?_, fun v => ?_⟩
  · by_cases hv : v = u
    · subst hv
      dsimp only
      rwa [Function.update_self]
    · dsimp only
      rw [Function.update_of_ne hv]
      exact h.stopped v
  · by_cases hv : v = u
    · subst hv
      dsimp only
      rw [Function.update_self, Function.update_self]
      exact .inr ⟨nofun, data, hp⟩
    · dsimp only
      rw [Function.update_of_ne hv, Function.update_of_ne hv]
      exact h.links v

/-- A call of the service: the upstream sends its chunk on a new connection. -/
theorem up_calls {p : Program K} (h : Up p) {u : Upstream} {data : Bytes} {service : Service K}
    (hs : p.service.step parse float (callOf u data) = some service) (hne : data ≠ []) (hle : data.length ≤ 4096)
    (hrun : service.caster.stopped = false) :
    ∃ es p', run (Program.step parse float config) p es = some p' ∧ Up p' ∧ p'.service = service := by
  obtain ⟨es₁, link₁, h₁, hconn, hst₁⟩ := @up_redials _ _ _ _ _ parse float config _ h u (rests_of_call hs)
  obtain ⟨es, link₂, hdial, hhand, hst₂⟩ := dials (Program.client config u) hst₁ hconn hne hle
  obtain ⟨es₂, h₂⟩ : ∃ es', run (Program.step parse float config) _ es' = some _ :=
    run_link (p := { p with links := Function.update p.links u link₁, calls := Function.update p.calls u none })
      (h.started u) (by simpa only [Function.update_self] using hdial)
  simp only [Function.update_idem] at h₂
  have h₃ : Program.step parse float config { p with
      links := Function.update p.links u link₂
      calls := Function.update p.calls u none } (.service (callOf u data)) = some _ :=
    step_call (by simpa only [Function.update_self] using hhand) (Function.update_self ..) hs
  simp only [Function.update_idem] at h₃
  exact ⟨_, _, run_append_of h₁ (run_append_of h₂ (run_cons_of h₃ (run_nil _))), h.called hhand hst₂ hrun, rfl⟩

omit [Field K] [LinearOrder K] [FloorRing K] [PyMath K] in
/-- What of the service does not stop the caster leaves the program up. -/
theorem Up.aside {p : Program K} (h : Up p) {service : Service K} (hrun : service.caster.stopped = false) :
    Up { p with service } := ⟨h.main, h.server, hrun, h.stopped, h.links⟩

/-- A new connection, that the first thread of `_serve_on` accepts. -/
theorem up_accepts {p : Program K} (h : Up p) {incoming : Bytes} {service : Service K}
    (hs : p.service.step parse float (.caster (.connects incoming)) = some service)
    (hrun : service.caster.stopped = false) :
    ∃ es, run (Program.step parse float config) p es = some { p with service } := by
  obtain ⟨address, hi⟩ := h.server
  obtain ⟨hlt, hget⟩ := List.getElem?_eq_some_iff.mp hi
  have hsame : p.servers.set 0 ⟨address, .accepting, true⟩ = p.servers := by rw [← hget, List.set_getElem_self]
  have haccepts : p.step parse float config (.server 0 (.accepts incoming)) = some { p with
      servers := p.servers.set 0 ⟨address, .checking, true⟩
      service } := by
    simp only [Program.step, hi, Program.turnServer, if_true, hs, Option.map_some]
    rfl
  have hchecks : Program.step parse float config { p with
      servers := p.servers.set 0 ⟨address, .checking, true⟩
      service } (.server 0 .returns) = some { p with service } := by
    simp only [Program.step, List.getElem?_set_self hlt, Program.turnServer, hrun, Bool.false_eq_true, if_false,
      Program.goes, List.set_set, hsame]
  exact ⟨_, run_cons_of haccepts (run_cons_of hchecks (run_nil _))⟩

/-- A step of a thread of the caster. -/
theorem up_caster {p : Program K} (h : Up p) {e : Caster.Event} {service : Service K}
    (hs : p.service.step parse float (.caster e) = some service) (hrun : service.caster.stopped = false) :
    ∃ es p', run (Program.step parse float config) p es = some p' ∧ Up p' ∧ p'.service = service := by
  have hstep : p.step parse float config (.service (.caster e)) = some { p with service } →
      ∃ es p', run (Program.step parse float config) p es = some p' ∧ Up p' ∧ p'.service = service :=
    fun hstep => ⟨_, _, run_cons_of hstep (run_nil _), h.aside hrun, rfl⟩
  cases e with
  | connects incoming =>
    obtain ⟨es, he⟩ : ∃ es, run (Program.step parse float config) p es = some _ := up_accepts h hs hrun
    exact ⟨es, _, he, h.aside hrun, rfl⟩
  | stop =>
    obtain rfl := Option.some.inj hs
    cases hrun
  | turn t more | fails t k | empty t | publisher f ev =>
    exact hstep (by simp only [Program.step, Program.turnService, hs, Option.map_some])

/-- Each step of the service is a run of the program. -/
theorem up_step {p : Program K} (hw : ∃ id, Wired parse float config id p) (h : Up p) {e : Service.Event}
    {service : Service K}
    (hs : p.service.step parse float e = some service)
    (hsize : ∀ call, e.called = some call → call.2 ≠ [] ∧ call.2.length ≤ 4096)
    (hrun : service.caster.stopped = false) :
    ∃ es p', run (Program.step parse float config) p es = some p' ∧ Up p' ∧ p'.service = service := by
  obtain ⟨id, hw⟩ := hw
  have hcalling : ∀ {u}, Loops p.service u → p.calls u ≠ none := fun hl hnone => not_rests hl (hw.rests _ hnone)
  -- Another step within a call.
  have hturns : ∀ {u result}, Loops p.service u →
      Up { p with service, calls := Function.update p.calls u (some result) } := by
    intro u result hl
    obtain ⟨-, data, hp⟩ := (h.links u).resolve_left fun hn => hcalling hl hn.1
    have hup := @Up.called _ _ h u _ _ service result hp (h.stopped u) hrun
    rwa [Function.update_eq_self] at hup
  cases e with
  | obsData data =>
    obtain ⟨hne, hle⟩ := hsize (.obs, data) rfl
    exact up_calls (u := .obs) h hs hne hle hrun
  | ephData data =>
    obtain ⟨hne, hle⟩ := hsize (.eph, data) rfl
    exact up_calls (u := .eph) h hs hne hle hrun
  | obsTurn =>
    cases hi : p.service.obs with
    | idle =>
      have hq : p.service.quiet := by
        cases acts_step parse hs with
        | obsTurn hq => exact hq
      have hsame : p.service.step parse float .obsTurn = some p.service := step_outside parse float ⟨hi, hq⟩
      exact ⟨[], p, rfl, h, Option.some.inj (hsame.symm.trans hs)⟩
    | looping | correcting =>
      have hl : Loops p.service .obs := by
        unfold Loops
        simp only [hi, ne_eq, reduceCtorEq, not_false_eq_true]
      have hstep : p.step parse float config (.service .obsTurn) = some { p with
          service
          calls := Function.update p.calls .obs (some (Program.obsResult parse p.service.conv p.service.obs)) } := by
        simp only [Program.step, Program.turnService, hi, Program.inCall, hs, Option.map_some]
      exact ⟨_, _, run_cons_of hstep (run_nil _), hturns hl, rfl⟩
  | ephTurn =>
    cases hf : p.service.ephFrames with
    | nil =>
      simp only [Service.step, hf] at hs
      cases hs
    | cons frame frames =>
      have hl : Loops p.service .eph := by
        unfold Loops
        simp only [hf, ne_eq, reduceCtorEq, not_false_eq_true]
      have hstep : p.step parse float config (.service .ephTurn) = some { p with
          service
          calls := Function.update p.calls .eph (some (p.service.conv.onEphFrame parse frame).1) } := by
        simp only [Program.step, Program.turnService, hf, Program.inCall, hs, Option.map_some]
      exact ⟨_, _, run_cons_of hstep (run_nil _), hturns hl, rfl⟩
  | caster ev => exact up_caster h hs hrun

/-! ## From the start -/

/-- `caster.start` -/
theorem run_starting (addresses : List String) {p : Program K} (hp : p.main = .starting addresses) :
    ∃ es, run (Program.step parse float config) p es = some { p with
      main := .starting []
      servers := p.servers ++ addresses.map fun address => ⟨address, .binding, false⟩ } := by
  induction addresses generalizing p with
  | nil => exact ⟨[], by rw [List.map_nil, List.append_nil, ← hp]; rfl⟩
  | cons address addresses ih =>
    have hstep : p.step parse float config .main = some { p with
        main := .starting addresses
        servers := p.servers ++ [⟨address, .binding, false⟩] } := by
      simp only [Program.step, Program.turnMain, hp]
    obtain ⟨es, h⟩ := ih (p := { p with
      main := .starting addresses
      servers := p.servers ++ [⟨address, .binding, false⟩] }) rfl
    refine ⟨.main :: es, run_cons_of hstep ?_⟩
    rwa [List.append_assoc] at h

/-- All threads start, and the first of `_serve_on` listens. -/
theorem start_up (id : StationId) (ha : config.listenAddresses ≠ []) :
    ∃ es p, run (Program.step parse float config) (.start config id) es = some p ∧ Up p ∧
      p.service = .init id config.maxIodAgeS config.maxResidualM config.rtcm3Info config.rtcm23Info := by
  obtain ⟨address, addresses, ha⟩ := List.exists_cons_of_ne_nil ha
  obtain ⟨es, h⟩ : ∃ es, run (Program.step parse float config) (.start config id) es = some _ :=
    run_starting config.listenAddresses rfl
  rw [ha] at h
  obtain ⟨p, hmore, hup, hp⟩ : ∃ p, run (Program.step parse float config) { Program.start config id with
      main := .starting []
      servers := [] ++ (address :: addresses).map fun address => ⟨address, .binding, false⟩ }
      [.main, .main, .main, .main, .server 0 .returns, .server 0 .returns, .server 0 .returns, .link .obs (.turn 0),
        .link .eph (.turn 0)] = some p ∧ Up p ∧
      p.service = .init id config.maxIodAgeS config.maxResidualM config.rtcm3Info config.rtcm23Info := by
    refine ⟨_, rfl, ⟨rfl, ⟨address, rfl⟩, rfl, fun u => ?_, fun u => .inl ?_⟩, rfl⟩
    · cases u <;> rfl
    · cases u <;> exact ⟨rfl, rfl⟩
  exact ⟨_, p, run_append_of h hmore, hup, hp⟩

/-- Nothing else stops the caster. -/
theorem casterStopped_step {s s' : Service K} {e : Service.Event} (h : s.step parse float e = some s') :
    (e = .caster .stop → s'.caster.stopped = true) ∧
      (e ≠ .caster .stop → s'.caster.stopped = s.caster.stopped) := by
  have hcaster : ∀ {ev caster}, s.caster.step float ev = some caster → (ev = .stop → caster.stopped = true) ∧
      (ev ≠ .stop → caster.stopped = s.caster.stopped) := by
    intro ev caster hc
    cases serves_step hc with
    | stop => exact ⟨fun _ => rfl, fun hne => absurd rfl hne⟩
    | goes _ _ _ _ he => exact ⟨fun hs => (by rw [hs] at he; cases he), fun _ => rfl⟩
    | connects | subscribes | gets | leaves | publisher => exact ⟨nofun, fun _ => rfl⟩
  cases acts_step parse h with
  | obsData | obsTurn | ephData | ephTurn => exact ⟨nofun, fun _ => rfl⟩
  | publishes feed data pending caster hp hc => exact ⟨nofun, fun _ => (hcaster hc).2 nofun⟩
  | caster ev caster hcalls hc =>
    exact ⟨fun he => (hcaster hc).1 (by cases he; rfl), fun hne => (hcaster hc).2 fun hev => hne (by rw [hev])⟩

/-- And nothing starts it again. -/
theorem stopped_service {s s' : Service K} {e : Service.Event} (h : s.step parse float e = some s')
    (hst : s.caster.stopped = true) : s'.caster.stopped = true := by
  by_cases he : e = .caster .stop
  · exact (casterStopped_step h).1 he
  · exact ((casterStopped_step h).2 he).trans hst

theorem not_stopped {s s' : Service K} {es : List Service.Event} (h : run (Service.step parse float) s es = some s')
    (hrun : s'.caster.stopped = false) : ∀ e ∈ es, e ≠ .caster .stop := by
  intro e he hstop
  obtain ⟨before, after, rfl⟩ := List.append_of_mem he
  obtain ⟨s₁, -, h⟩ := Transition.run_append h
  obtain ⟨s₂, h₂, h⟩ := run_cons h
  have hlast := keeps (I := fun s : Service K => s.caster.stopped = true) (fun _ _ _ => stopped_service) h
    ((casterStopped_step h₂).1 hstop)
  rw [hrun] at hlast
  cases hlast

/-- Every run of the service by itself, on chunks of 1 to 4096 bytes and without
`stop`, is one of the service in the program. -/
theorem run_serves (id : StationId) (ha : config.listenAddresses ≠ []) {s : Service K} {es : List Service.Event}
    (h : run (Service.step parse float)
      (.init id config.maxIodAgeS config.maxResidualM config.rtcm3Info config.rtcm23Info) es = some s)
    (hes : ∀ e ∈ es, (∀ call, e.called = some call → call.2 ≠ [] ∧ call.2.length ≤ 4096) ∧ e ≠ .caster .stop) :
    ∃ es p, run (Program.step parse float config) (.start config id) es = some p ∧ p.service = s := by
  obtain ⟨es₀, p, h₀, hup, hp⟩ : ∃ es p, run (Program.step parse float config) (.start config id) es = some p ∧ _ :=
    start_up id ha
  have hw := keeps (I := Wired parse float config id) (fun _ _ _ => wired_step) h₀ (wired_start id)
  have hsim : ∃ es' p', run (Program.step parse float config) p es' = some p' ∧
      Wired parse float config id p' ∧ Up p' ∧ p'.service = s := by
    refine simulates (R := fun s p => Wired parse float config id p ∧ Up p ∧ p.service = s)
      (fun s e s₁ p hs he hR => ?_) h hes ⟨hw, hup, hp⟩
    obtain ⟨hw, hup, rfl⟩ := hR
    obtain ⟨es, p₁, h₁, hup₁, hp₁⟩ := up_step ⟨id, hw⟩ hup hs he.1 (((casterStopped_step hs).2 he.2).trans hup.running)
    exact ⟨es, p₁, h₁, keeps (fun _ _ _ => wired_step) h₁ hw, hup₁, hp₁⟩
  obtain ⟨es', p', h', -, -, rfl⟩ := hsim
  exact ⟨_, p', run_append_of h₀ h', rfl⟩

/-- The states of the service that the program reaches before it is stopped are
those that the service reaches by itself, on chunks of 1 to 4096 bytes. -/
theorem program_serves {p₀ : Program K} (hnew : Program.new config = .ok p₀) (ha : config.listenAddresses ≠ [])
    (s : Service K) (hrun : s.caster.stopped = false) :
    (∃ es p, run (Program.step parse float config) p₀ es = some p ∧ p.service = s) ↔
      ∃ es, run (Service.step parse float) p₀.service es = some s ∧
        ∀ e ∈ es, ∀ call, e.called = some call → call.2 ≠ [] ∧ call.2.length ≤ 4096 := by
  obtain ⟨id, -, rfl⟩ := new_eq_ok hnew
  constructor
  · rintro ⟨es, p, h, rfl⟩
    exact (keeps (I := Wired parse float config id) (fun _ _ _ => wired_step) h (wired_start id)).service
  · rintro ⟨es, h, hes⟩
    have hnot := not_stopped h hrun
    exact run_serves id ha h fun e he => ⟨hes e he, hnot e he⟩

theorem program_serves_oneUpstream : ∃ s : Service ℝ, s.caster.joined 0 = some (0, 0) ∧
    ∃ es, run (Service.step (fun _ => none) fun _ => "") (Program.start {} ⟨1023, stationId_default⟩).service es =
        some s ∧ ∀ e ∈ es, ∀ call, e.called = some call → call.2 ≠ [] ∧ call.2.length ≤ 4096 := by
  obtain ⟨p, hp, -, hj, hst⟩ := run_oneUpstream
  exact ⟨p.service, hj, (program_serves new_default (by decide) p.service hst).mp ⟨oneUpstream, p, hp, rfl⟩⟩

end Rtcm.Proof
