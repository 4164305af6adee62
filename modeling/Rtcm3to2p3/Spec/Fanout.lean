import Rtcm3to2p3.Impl.Ntrip
import Rtcm3to2p3.Lib.Transition

/-!
# A feed between its publisher and its subscribers

One publisher, and any number of clients that subscribe, read their queues and
leave. `publish` copies the set of subscribers under the lock and puts the
item in their queues after it, so a client can join, read or leave between any
two of its steps.
-/

namespace Rtcm.Spec

open Rtcm.Impl

/-- How far the publisher is: the item it has announced, and the queues of its
copy of the set that it has not put the item in. -/
inductive Publisher where
  | idle
  | copying (data : Bytes)
  | putting (data : Bytes) (todo : List Nat)
deriving DecidableEq

/-- A feed, the number of the next queue, the publisher, and every queue with
its history. -/
structure Fanout where
  feed : Feed
  next : Nat
  publisher : Publisher
  logs : Nat → BoundedQueue.Log Bytes MAXSIZE

namespace Fanout

inductive Event where
  | subscribe
  | unsubscribe (q : Nat)
  | get (q : Nat)
  | publish (data : Bytes)
  | snapshot (order : List Nat)
  | put
  | returns
deriving DecidableEq

def init (name : String) : Fanout where
  feed := .new name
  next := 0
  publisher := .idle
  logs _ := .empty

/-- One step, none if the publisher is not there. -/
def step (s : Fanout) : Event → Option Fanout
  | .subscribe => some { s with feed := s.feed.subscribe s.next, next := s.next + 1 }
  | .unsubscribe q => some { s with feed := s.feed.unsubscribe q }
  | .get q => some { s with logs := Function.update s.logs q (s.logs q).take }
  | .publish data =>
    match s.publisher with
    | .idle =>
      if data.isEmpty then some s
      else some { s with feed := s.feed.announce data, publisher := .copying data }
    | _ => none
  | .snapshot order =>
    match s.publisher with
    | .copying data =>
      -- the set is copied in whatever order it is iterated in
      if order.Nodup ∧ order.toFinset = s.feed.subs then some { s with publisher := .putting data order } else none
    | _ => none
  | .put =>
    match s.publisher with
    | .putting data (q :: todo) =>
      some { s with publisher := .putting data todo, logs := Function.update s.logs q ((s.logs q).offer data) }
    | _ => none
  | .returns =>
    match s.publisher with
    | .putting _ [] => some { s with publisher := .idle }
    | _ => none

abbrev run (s : Fanout) (es : List Event) : Option Fanout := Transition.run step s es

/-- What a subscriber has taken, and then what waits in its queue. -/
def received (s : Fanout) (q : Nat) : List Bytes := (s.logs q).received

/-- The item that a queue is about to be offered. -/
def inFlight (s : Fanout) (q : Nat) : List Bytes :=
  match s.publisher with
  | .putting data todo => if q ∈ todo then [data] else []
  | _ => []

/-- The item a step publishes, with the subscribers it is published to. -/
def copied (s : Fanout) : Event → List (Bytes × List Nat)
  | .snapshot order =>
    match s.publisher with
    | .copying data => [(data, order)]
    | _ => []
  | _ => []

/-- The items a run publishes, each with the subscribers it is published to. -/
def snapshots (s : Fanout) : List Event → List (Bytes × List Nat)
  | [] => []
  | e :: es => s.copied e ++ ((s.step e).map (snapshots · es)).getD []

/-- The item `publish` is called with. -/
def called : Event → Option Bytes
  | .publish data => some data
  | _ => none

/-- The item announced, until the set is copied for it. -/
def announced (s : Fanout) : List Bytes :=
  match s.publisher with
  | .copying data => [data]
  | _ => []

/-- The items published to a subscriber. -/
def publishedTo (s : Fanout) (q : Nat) (es : List Event) : List Bytes :=
  ((s.snapshots es).filter (q ∈ ·.2)).map Prod.fst

/-- The queue is not full in any state of the run. -/
def KeepsUp (s : Fanout) (q : Nat) (es : List Event) : Prop :=
  ∀ es' s', es' <+: es → s.run es' = some s' → (s'.logs q).queue.items.length < MAXSIZE

/-- Not a read of another subscriber. -/
def concerns (q : Nat) : Event → Bool
  | .get r => r == q
  | _ => true

end Fanout

end Rtcm.Spec
