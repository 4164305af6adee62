import Rtcm3to2p3.Spec.Fanout

/-!
# The caster and its clients

Any number of threads of `_handle`, each with its connection, beside the
publishers of the feeds. A step is a call of a thread that another can observe
or that can fail: a `recv`, a look at a feed's `available` or at `_stop`, a
`sendall`, and the feed's own steps.
-/

namespace Rtcm.Spec

open Rtcm.Impl

/-- How far a thread of `_handle` is. -/
inductive Handler where
  /-- In the loop of `recv`: what is still to come of the request, and what has. -/
  | requesting (incoming req : Bytes)
  /-- In `_sourcetable`: the mounts still to look at, and the rows so far. -/
  | listing (todo : List (String × Nat)) (rows : List String)
  /-- Before the `sendall` of the status line. -/
  | replying (ntrip2 : Bool) (feed : Nat)
  | subscribing (feed : Nat)
  /-- Before `while not self._stop.is_set()`. -/
  | serving (feed q : Nat)
  /-- In `q.get(timeout=10)`. -/
  | waiting (feed q : Nat)
  /-- In the `sendall` of an item. -/
  | sending (feed q : Nat) (item : Bytes)
  /-- In the `finally` of the loop. -/
  | leaving (feed q : Nat)
  | closed
deriving DecidableEq

namespace Handler

/-- The feed and the queue of a thread that has subscribed and not left. -/
def queue : Handler → Option (Nat × Nat)
  | serving feed q | waiting feed q | sending feed q _ | leaving feed q => some (feed, q)
  | _ => none

/-- In the loop over its queue. -/
def serves : Handler → Bool
  | serving _ _ | waiting _ _ | sending _ _ _ => true
  | _ => false

/-- What it has got from its queue and not sent. -/
def held : Handler → Bytes
  | sending _ _ item => item
  | _ => []

/-- The calls that a thread has left at most, once the caster is stopped: the
reads of its request, a look at each of `mounts` feeds, and the five steps from
the status line to the end. -/
def callsLeft (mounts : Nat) : Handler → Nat
  | requesting incoming _ => incoming.length + mounts + 6
  | listing todo _ => todo.length + 1
  | replying _ _ => 5
  | subscribing _ => 4
  | serving _ _ => 2
  | waiting _ _ => 4
  | sending _ _ _ => 3
  | leaving _ _ => 1
  | closed => 0

end Handler

/-- The caster, its feeds, and its threads, numbered as they connect, with what
each has sent. The last three only record: the queue a thread was given, what
has been published on a feed, and what of it while the thread was subscribed. -/
structure Caster (K : Type) where
  caster : NtripCaster K
  stopped : Bool
  feeds : Nat → Fanout
  connections : Nat
  handlers : Nat → Handler
  sent : Nat → Bytes
  joined : Nat → Option (Nat × Nat)
  published : Nat → List Bytes
  since : Nat → List Bytes

namespace Caster

inductive Event where
  | connects (incoming : Bytes)
  /-- The thread's next call returns; `more` is how much has arrived. -/
  | turn (h more : Nat)
  /-- The thread's next call raises `OSError`, `sendall` after `sent` bytes. -/
  | fails (h sent : Nat)
  /-- No item within the timeout of `q.get`. -/
  | empty (h : Nat)
  | publisher (feed : Nat) (e : Fanout.Event)
  | stop

/-- The thread whose call it is. -/
def Event.thread : Event → Option Nat
  | turn h _ | fails h _ | empty h => some h
  | _ => none

variable {K : Type}

def init (caster : NtripCaster K) (name : Nat → String) : Caster K where
  caster := caster
  stopped := false
  feeds feed := .init (name feed)
  connections := 0
  handlers _ := .closed
  sent _ := []
  joined _ := none
  published _ := []
  since _ := []

/-- A step of a feed. -/
def feedStep (s : Caster K) (feed : Nat) (e : Fanout.Event) : Option (Caster K) :=
  ((s.feeds feed).step e).map fun feed' => { s with
    feeds := Function.update s.feeds feed feed'
    published := Function.update s.published feed (s.published feed ++ ((s.feeds feed).copied e).map Prod.fst)
    since := fun h =>
      if (s.handlers h).queue.map Prod.fst = some feed then s.since h ++ ((s.feeds feed).copied e).map Prod.fst
      else s.since h }

/-- The thread sends `bytes` and goes on to `handler`. -/
def goes (s : Caster K) (h : Nat) (bytes : Bytes) (handler : Handler) : Caster K := { s with
  handlers := Function.update s.handlers h handler
  sent := Function.update s.sent h (s.sent h ++ bytes) }

/-- The next call of a thread returns, none if it is closed or waits. -/
def turn (float : K → String) (s : Caster K) (h more : Nat) : Option (Caster K) :=
  match s.handlers h with
  | .requesting incoming req =>
    if CRLF ++ CRLF <:+: req ∨ 4096 ≤ req.length then
      let (mount, ntrip2) := NtripCaster.requested req
      match s.caster.feeds.get? mount with
      | none => some (s.goes h [] (.listing s.caster.feeds.items []))
      | some feed =>
        if (s.feeds feed).feed.available then some (s.goes h [] (.replying ntrip2 feed))
        else some (s.goes h [] (.listing s.caster.feeds.items []))
    else if incoming = [] then some (s.goes h [] .closed)
    else some (s.goes h [] (.requesting (recv 256 more incoming).2 (req ++ (recv 256 more incoming).1)))
  | .listing ((mount, feed) :: todo) rows =>
    if (s.feeds feed).feed.available then
      match s.caster.record float mount with
      | .ok row => some (s.goes h [] (.listing todo (rows ++ [row])))
      | .error _ => some (s.goes h [] .closed)
    else some (s.goes h [] (.listing todo rows))
  | .listing [] rows => some (s.goes h (NtripCaster.tableOf s.caster.server rows) .closed)
  | .replying ntrip2 feed => some (s.goes h (NtripCaster.accepted s.caster.server ntrip2) (.subscribing feed))
  | .subscribing feed =>
    (s.feedStep feed .subscribe).map fun s' => { s' with
      handlers := Function.update s.handlers h (.serving feed (s.feeds feed).next)
      joined := Function.update s.joined h (some (feed, (s.feeds feed).next)) }
  | .serving feed q => some (s.goes h [] (if s.stopped then .leaving feed q else .waiting feed q))
  | .waiting feed q =>
    match ((s.feeds feed).logs q).queue.get? with
    | none => none
    | some (item, _) => (s.feedStep feed (.get q)).map (·.goes h [] (.sending feed q item))
  | .sending feed q item => some (s.goes h item (.serving feed q))
  | .leaving feed q => (s.feedStep feed (.unsubscribe q)).map (·.goes h [] .closed)
  | .closed => none

/-- The next call of a thread raises: its request, its reply or an item is not
sent, or only `k` bytes of it. -/
def fails (s : Caster K) (h k : Nat) : Option (Caster K) :=
  match s.handlers h with
  | .requesting _ _ => some (s.goes h [] .closed)
  | .listing [] rows => some (s.goes h ((NtripCaster.tableOf s.caster.server rows).take k) .closed)
  | .replying ntrip2 _ => some (s.goes h ((NtripCaster.accepted s.caster.server ntrip2).take k) .closed)
  | .sending feed q item => some (s.goes h (item.take k) (.leaving feed q))
  | _ => none

/-- Not a step of a subscriber. -/
def isPublisher : Fanout.Event → Bool
  | .publish _ | .snapshot _ | .put | .returns => true
  | _ => false

def step (float : K → String) (s : Caster K) : Event → Option (Caster K)
  | .connects incoming => some { s with
      connections := s.connections + 1
      handlers := Function.update s.handlers s.connections (.requesting incoming []) }
  | .turn h more => s.turn float h more
  | .fails h k => s.fails h k
  | .empty h =>
    match s.handlers h with
    | .waiting feed q =>
      if ((s.feeds feed).logs q).queue.items = [] then some (s.goes h [] (.serving feed q)) else none
    | _ => none
  | .publisher feed e => if isPublisher e then s.feedStep feed e else none
  | .stop => some { s with stopped := true }

end Caster

end Rtcm.Spec
