import Rtcm3to2p3.Impl.Config
import Rtcm3to2p3.Spec.Feed
import Rtcm3to2p3.Spec.Service
import Rtcm3to2p3.Spec.Session

/-!
# The program

`Service.run` and the threads that it starts, in any order of their steps:
`_serve_on` for each address of the caster, which starts a thread of `_handle`
for each connection, and `stream` for each upstream, whose `on_data` is
`feed_obs` or `feed_eph`. `stop` is the event that `run` waits for.
-/

namespace Rtcm.Spec

open Rtcm.Impl

/-- Where a thread of `_serve_on` is. -/
inductive Listening where
  /-- Up to `srv.settimeout`. -/
  | binding
  /-- Before `self._servers.append(srv)`. -/
  | adding
  /-- Before `while not self._stop.is_set()`. -/
  | checking
  | accepting
  /-- Before the `srv.close()` at its end. -/
  | closing
  | ended
deriving DecidableEq

/-- The calls that a thread of `_serve_on` has left at most, once the caster is stopped. -/
def Listening.callsLeft : Listening → Nat
  | binding => 4
  | adding | accepting => 3
  | checking => 2
  | closing => 1
  | ended => 0

/-- A thread of `_serve_on`; `isOpen` is whether its socket listens. -/
structure Server where
  address : String
  stage : Listening
  isOpen : Bool
deriving DecidableEq

/-- Where `run` is. -/
inductive Main where
  /-- In `caster.start`. -/
  | starting (addresses : List String)
  /-- Before the threads of the upstreams `todo` are started. -/
  | launching (todo : List Upstream)
  /-- In `stop.wait()`. -/
  | waiting
  /-- In `caster.stop`, before `self._stop.set()`. -/
  | stopping
  /-- In its loop over `self._servers`. -/
  | closing (next : Nat)
  | returned
deriving DecidableEq

/-- The upstreams whose threads are not started yet. -/
def Main.unstarted : Main → List Upstream
  | starting _ => [.eph, .obs]
  | launching todo => todo
  | _ => []

/-- The threads of the program. `listed` is `_servers`, by the numbers of their
threads; `calls`, of an upstream whose `on_data` is under way, how its last step
went. -/
structure Program (K : Type) where
  main : Main
  stop : Bool
  servers : List Server
  listed : List Nat
  links : Upstream → Session Unit
  calls : Upstream → Option (Py Unit)
  service : Service K

namespace Program

/-- How a call of `_serve_on` goes. -/
inductive Outcome where
  | returns
  /-- `accept`, of a client that sends `incoming`. -/
  | accepts (incoming : Bytes)
  | timesOut
  /-- It raises `OSError`. -/
  | fails

inductive Event where
  /-- `stop.set()`, in a signal handler. -/
  | signal
  | main
  | server (i : Nat) (outcome : Outcome)
  | link (u : Upstream) (e : Session.Event)
  | service (e : Service.Event)

variable {K : Type} [Field K] [LinearOrder K] [FloorRing K]

/-- The client of an upstream. -/
def client (config : Config K) : Upstream → NtripClient
  | .obs => config.client config.obsMount
  | .eph => config.client config.ephMount

/-- `Service(config)`, before `run`. -/
def start (config : Config K) (stationId : StationId) : Program K where
  main := .starting config.listenAddresses
  stop := false
  servers := []
  listed := []
  links _ := .start ()
  calls _ := none
  service := .init stationId config.maxIodAgeS config.maxResidualM config.rtcm3Info config.rtcm23Info

/-- `Service(config)`, which raises if `Converter(…)` does. -/
def new (config : Config K) : Py (Program K) :=
  match Converter.init config.stationId config.maxIodAgeS config.maxResidualM with
  | .error e => .error e
  | .ok conv => .ok (start config conv.stationId)

variable [PyMath K] (parse : Bytes → Option (Msg K)) (float : K → String)

/-- The next call of `run`. -/
def turnMain (p : Program K) : Option (Program K) :=
  match p.main with
  | .starting (address :: addresses) =>
    some { p with main := .starting addresses, servers := p.servers ++ [⟨address, .binding, false⟩] }
  | .starting [] => some { p with main := .launching [.eph, .obs] }
  | .launching (_ :: todo) => some { p with main := .launching todo }
  | .launching [] => some { p with main := .waiting }
  | .waiting => if p.stop then some { p with main := .stopping } else none
  | .stopping =>
    (p.service.step parse float (.caster .stop)).map fun service => { p with main := .closing 0, service }
  | .closing next =>
    match p.listed[next]? with
    | none => some { p with main := .returned }
    | some i => some { p with
        main := .closing (next + 1)
        servers := p.servers.modify i fun server => { server with isOpen := false } }
  | .returned => none

/-- The thread goes on so. -/
def goes (p : Program K) (i : Nat) (server : Server) : Program K := { p with servers := p.servers.set i server }

/-- The next call of a thread of `_serve_on`. -/
def turnServer (p : Program K) (i : Nat) (server : Server) (outcome : Outcome) : Option (Program K) :=
  match server.stage, outcome with
  | .binding, .returns => some (p.goes i { server with stage := .adding, isOpen := true })
  | .binding, .fails => some (p.goes i { server with stage := .ended })
  | .adding, .returns => some { p.goes i { server with stage := .checking } with listed := p.listed ++ [i] }
  | .checking, .returns =>
    some (p.goes i { server with stage := if p.service.caster.stopped then .closing else .accepting })
  | .accepting, .accepts incoming =>
    if server.isOpen then
      (p.service.step parse float (.caster (.connects incoming))).map fun service =>
        { p.goes i { server with stage := .checking } with service }
    else none
  | .accepting, .timesOut => some (p.goes i { server with stage := .checking })
  | .accepting, .fails => some (p.goes i { server with stage := .closing })
  | .closing, .returns => some (p.goes i { server with stage := .ended, isOpen := false })
  | _, _ => none

/-- The call of `on_data` is at its end. -/
def isOver (p : Program K) : Upstream → Bool
  | .obs =>
    match p.service.obs with
    | .idle => p.service.quiet
    | _ => false
  | .eph => p.service.ephFrames.isEmpty

/-- The next call of `stream`; that of `on_data` returns or raises at its end. -/
def turnLink (config : Config K) (p : Program K) (u : Upstream) (e : Session.Event) : Option (Program K) :=
  match (p.links u).stage, p.calls u with
  | .handing _ _, none => none
  | .handing _ _, some result =>
    if p.isOver u then
      ((p.links u).step (client config u) (fun _ _ => (result, ())) e).map fun link =>
        { p with links := Function.update p.links u link, calls := Function.update p.calls u none }
    else none
  | _, _ =>
    ((p.links u).step (client config u) (fun _ _ => (.ok (), ())) e).map fun link =>
      { p with links := Function.update p.links u link }

/-- How a step of the observation thread ends, for its call. -/
def obsResult (c : Converter K) : ObsStage K → Py Unit
  | .looping (frame :: _) =>
    match (c.parseFrame parse frame).1 with
    | some (.gpsMsm7 msg) => (parseGpsMsm7 msg).map fun _ => ()
    | _ => .ok ()
  | .correcting _ (.done (.error e)) _ => .error e
  | .correcting tow (.done (.ok corrections)) _ =>
    if corrections.isEmpty then .ok () else (c.send tow corrections).1
  | _ => .ok ()

/-- A step of the call of `on_data`, that goes so. -/
def inCall (p : Program K) (u : Upstream) (result : Py Unit) (e : Service.Event) : Option (Program K) :=
  (p.service.step parse float e).map fun service =>
    { p with service, calls := Function.update p.calls u (some result) }

/-- A step of the service within the calls of `on_data`, or of a client's thread. -/
def turnService (p : Program K) : Service.Event → Option (Program K)
  | .obsData data =>
    match (p.links .obs).stage, p.calls .obs with
    | .handing data' _, none => if data' = data then p.inCall parse float .obs (.ok ()) (.obsData data) else none
    | _, _ => none
  | .obsTurn =>
    match p.service.obs with
    | .idle => none
    | stage => p.inCall parse float .obs (obsResult parse p.service.conv stage) .obsTurn
  | .ephData data =>
    match (p.links .eph).stage, p.calls .eph with
    | .handing data' _, none => if data' = data then p.inCall parse float .eph (.ok ()) (.ephData data) else none
    | _, _ => none
  | .ephTurn =>
    match p.service.ephFrames with
    | [] => none
    | frame :: _ => p.inCall parse float .eph (p.service.conv.onEphFrame parse frame).1 .ephTurn
  | .caster e =>
    match e with
    | .connects _ | .stop => none
    | e => (p.service.step parse float (.caster e)).map fun service => { p with service }

def step (config : Config K) (p : Program K) : Event → Option (Program K)
  | .signal => some { p with stop := true, links := fun u => { p.links u with stopped := true } }
  | .main => p.turnMain parse float
  | .server i outcome =>
    match p.servers[i]? with
    | none => none
    | some server => p.turnServer parse float i server outcome
  | .link u e => if Session.own e ∧ u ∉ p.main.unstarted then p.turnLink config u e else none
  | .service e => p.turnService parse float e

/-- The chunks that `on_data` of an upstream was called with. -/
def chunks (p : Program K) (u : Upstream) : List Bytes :=
  (p.links u).handed ++
    match (p.links u).stage, p.calls u with
    | .handing data _, some _ => [data]
    | _, _ => []

/-- What comes after the header of a connection to the upstream, if it is made and starts a stream. -/
def streamed (config : Config K) (u : Upstream) : Event → Option Bytes
  | .link v e => if v = u then Session.streamed (client config u) e else none
  | _ => none

/-- The frames of what an upstream has sent. -/
def frames (p : Program K) (u : Upstream) : List Bytes := (extractRtcm3Frames (p.chunks u).flatten).1

/-- Every thread has ended, no socket listens, and no feed has a subscriber. -/
structure Settled (p : Program K) : Prop where
  main : p.main = .returned
  servers : ∀ server ∈ p.servers, server.stage = .ended ∧ server.isOpen = false
  links : ∀ u, (p.links u).stage = .returned
  calls : ∀ u, p.calls u = none
  handlers : ∀ t, p.service.caster.handlers t = .closed
  subs : ∀ f, (p.service.caster.feeds f).feed.subs = ∅

end Program

end Rtcm.Spec
