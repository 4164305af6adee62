import Rtcm3to2p3.Impl.Ntrip

/-!
# A client that reconnects

`NtripClient.stream`, one call at a time: the connections that are made and
break, the calls of `on_data`, the waits between them, and `stop`, which
another thread sets.
-/

namespace Rtcm.Spec

open Rtcm.Impl

/-- Where `stream` is. -/
inductive Stage where
  /-- Before `while not stop.is_set()`. -/
  | checking
  /-- In `_connect`. -/
  | connecting
  /-- Before the inner `while`; what is still to come from the socket. -/
  | looping (incoming : Bytes)
  /-- In `recv`. -/
  | receiving (incoming : Bytes)
  /-- In `on_data`. -/
  | handing (data incoming : Bytes)
  /-- In `stop.wait(backoff)`. -/
  | pausing
  | returned
deriving DecidableEq

namespace Stage

/-- What of a connection has not been handed to `on_data`. -/
def left : Stage → Option Bytes
  | looping incoming | receiving incoming => some incoming
  | handing data incoming => some (data ++ incoming)
  | _ => none

/-- The calls left at most, once `stop` is set. -/
def callsLeft : Stage → Nat
  | checking | pausing => 1
  | looping _ => 2
  | connecting | handing _ _ => 3
  | receiving _ => 4
  | returned => 0

end Stage

/-- The `k`-th wait since a connection was made. -/
def backoffOf (k : Nat) : Nat := min (2 ^ (k + 1)) 30

/-- A call of `stream`, and the state its `on_data` works on. The last two only
record: the waits since a connection was made, and of each connection, the
latest first, what came after its header and what was handed on. -/
structure Session (σ : Type) where
  stage : Stage
  backoff : Nat
  stopped : Bool
  app : σ
  waits : List Nat
  links : List (Bytes × List Bytes)

namespace Session

inductive Event where
  /-- The next call returns, but for `_connect`; `more` is how much has arrived. -/
  | turn (more : Nat)
  /-- The upstream is reached, and sends `incoming` before it closes. -/
  | connects (incoming : Bytes)
  /-- `_connect` or `recv` raises. -/
  | fails
  /-- The wait is over, and `stop` is not set. -/
  | elapses
  | stop

variable {σ : Type}

def start (app : σ) : Session σ where
  stage := .checking
  backoff := 2
  stopped := false
  app := app
  waits := []
  links := []

/-- `on_data(data)`, of the latest connection. -/
def hand (data : Bytes) : List (Bytes × List Bytes) → List (Bytes × List Bytes)
  | [] => []
  | (body, chunks) :: links => (body, chunks ++ [data]) :: links

variable (client : NtripClient) (onData : σ → Bytes → Py Unit × σ)

def step (s : Session σ) : Event → Option (Session σ)
  | .turn more =>
    match s.stage with
    | .checking => some { s with stage := if s.stopped then .returned else .connecting }
    | .looping incoming => some { s with stage := if s.stopped then .checking else .receiving incoming }
    | .receiving incoming =>
      let (data, incoming) := recv 4096 more incoming
      some { s with stage := if data.isEmpty then .pausing else .handing data incoming }
    | .handing data incoming =>
      match onData s.app data with
      | (.ok (), app) => some { s with stage := .looping incoming, app, links := hand data s.links }
      | (.error _, app) => some { s with stage := .pausing, app, links := hand data s.links }
    | .pausing => if s.stopped then some { s with stage := .returned } else none
    | .connecting | .returned => none
  | .connects incoming =>
    match s.stage with
    | .connecting =>
      match client.connect incoming with
      | .error _ => some { s with stage := .pausing }
      | .ok incoming => some { s with
          stage := .looping incoming
          backoff := 2
          waits := []
          links := (incoming, []) :: s.links }
    | _ => none
  | .fails =>
    match s.stage with
    | .connecting | .receiving _ => some { s with stage := .pausing }
    | _ => none
  | .elapses =>
    match s.stage with
    | .pausing =>
      if s.stopped then none
      else some { s with
        stage := .checking
        backoff := min (s.backoff * 2) 30
        waits := s.waits ++ [s.backoff] }
    | _ => none
  | .stop => some { s with stopped := true }

/-- Not another thread's. -/
def own : Event → Bool
  | .stop => false
  | _ => true

/-- What came after the header of each connection, from the first on. -/
def bodies (s : Session σ) : List Bytes := (s.links.map Prod.fst).reverse

/-- What comes after the header of the connection that is made, if it starts a stream. -/
def streamed : Event → Option Bytes
  | .connects incoming => (client.connect incoming).toOption
  | _ => none

/-- What `on_data` was called with, from the first connection on. -/
def handed (s : Session σ) : List Bytes := s.links.reverse.flatMap Prod.snd

end Session

end Rtcm.Spec
