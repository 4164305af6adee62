import Mathlib.Data.Finset.Basic
import Mathlib.Logic.Function.Basic
import Rtcm3to2p3.Impl.Text
import Rtcm3to2p3.Lib.BoundedQueue
import Rtcm3to2p3.Lib.Dict

/-!
# `ntrip.py`: feeds, client and caster

A queue is an object of its own, which the set of a feed's subscribers refers
to by number; what waits in the queues is kept beside the feed. So is a feed
for the caster, which the feeds' state is a parameter of.

A socket that is read is the bytes that are still to come from it before it is
closed, and how many more than one of them have arrived at each `recv`.
-/

namespace Rtcm.Impl

/-- The `maxsize` of a subscriber's queue. -/
def MAXSIZE : Nat := 512

abbrev Queue := BoundedQueue Bytes MAXSIZE

structure Feed where
  name : String
  subs : Finset Nat
  available : Bool
  totalBytes : Nat

namespace Feed

def new (name : String) : Feed := ⟨name, ∅, false, 0⟩

/-- `subscribe`, of a queue just made. -/
def subscribe (q : Nat) (feed : Feed) : Feed := { feed with subs := insert q feed.subs }

def unsubscribe (q : Nat) (feed : Feed) : Feed := { feed with subs := feed.subs.erase q }

/-- What `publish` does before it copies the set. -/
def announce (data : Bytes) (feed : Feed) : Feed := { feed with
  totalBytes := feed.totalBytes + data.length
  available := true }

/-- The loop of `publish`. -/
def putAll (data : Bytes) : List Nat → (Nat → Queue) → Nat → Queue
  | [], queues => queues
  | q :: subs, queues => putAll data subs (Function.update queues q ((queues q).offer data))

/-- `publish`, which copies the set in some order. -/
def publish (data : Bytes) (subs : List Nat) (feed : Feed) (queues : Nat → Queue) : Feed × (Nat → Queue) :=
  if data.isEmpty then (feed, queues) else (feed.announce data, putAll data subs queues)

end Feed

open Delimited

def CRLF : Bytes := [0x0D, 0x0A]

/-- `recv(n)`: what has arrived, `n` bytes of it at most, and what is still to
come; no byte if the socket is closed. -/
def recv (n more : Nat) (incoming : Bytes) : Bytes × Bytes :=
  (incoming.take (min n (more + 1)), incoming.drop (min n (more + 1)))

theorem length_recv_lt {n : Nat} (hn : 0 < n) (more : Nat) {incoming : Bytes} (h : incoming ≠ []) :
    (recv n more incoming).2.length < incoming.length := by
  have hpos := List.length_pos_iff.mpr h
  simp only [recv, List.length_drop]
  omega

/-- `OSError`, with its message. -/
structure OSError where
  msg : String
deriving DecidableEq

/-- The metadata of a mount. -/
structure MountInfo (K : Type) where
  mount : String
  identifier : String := "relay"
  fmt : String := "RTCM 3"
  fmtDetails : String := ""
  carrier : Int := 2
  nav : String := "GPS"
  country : String := "AUS"
  lat : K
  lon : K

/-- `str_record`, for the text of a float. -/
def MountInfo.strRecord {K : Type} (float : K → String) (info : MountInfo K) : String :=
  "STR;" ++ info.mount ++ ";" ++ info.identifier ++ ";" ++ info.fmt ++ ";" ++ info.fmtDetails ++ ";" ++
    toString info.carrier ++ ";" ++ info.nav ++ ";relay;" ++ info.country ++ ";" ++ float info.lat ++ ";" ++
    float info.lon ++ ";0;0;ntrip-rtcm3-to-rtcm2p3;none;B;N;0;"

/-- `_basic_auth` -/
def basicAuth (user password : String) : String := .ofList (b64encode (encode (user ++ ":" ++ password)))

structure NtripClient where
  host : String
  mountpoint : String
  user : String := ""
  password : String := ""
  userAgent : String := "NTRIP rtcm3to2p3"

namespace NtripClient

/-- The lines of `_request`, but for the two empty ones at its end. -/
def lines (client : NtripClient) : List String :=
  ["GET /" ++ client.mountpoint ++ " HTTP/1.1", "Host: " ++ client.host, "Ntrip-Version: Ntrip/2.0",
      "User-Agent: " ++ client.userAgent] ++
    (if client.user ≠ "" ∨ client.password ≠ "" then
      ["Authorization: Basic " ++ basicAuth client.user client.password] else []) ++
    ["Connection: close"]

/-- `_request` -/
def request (client : NtripClient) : Bytes := CRLF.intercalate ((client.lines ++ ["", ""]).map encode)

/-- `_connect`, once the request is sent: what is still to come from the
socket it returns. The header is received one byte at a time. -/
def connect (client : NtripClient) (incoming : Bytes) : Except OSError Bytes :=
  match readUntil CRLF [] incoming with
  | none => .error ⟨"connection closed during response header"⟩
  | some (status, incoming) =>
    let line := strip status
    let httpOk := encode "HTTP/1" <+: line ∧ ((split (encode " ") line).drop 1).take 1 = [encode "200"]
    if ¬ (encode "ICY 200" <+: line ∨ httpOk) then
      .error ⟨"upstream did not start a stream (mount '" ++ client.mountpoint ++ "'?): " ++ .ofList (decode line)⟩
    else if encode "HTTP" <+: status then
      match readUntil (CRLF ++ CRLF) status incoming with
      | none => .error ⟨"connection closed during HTTP headers"⟩
      | some (_, incoming) => .ok incoming
    else .ok incoming

/-- The reads of `stream`, from one connection until it is closed. -/
def reads (more : Nat → Nat) (i : Nat) (incoming : Bytes) : List Bytes :=
  if h : incoming = [] then []
  else (recv 4096 (more i) incoming).1 :: reads more (i + 1) (recv 4096 (more i) incoming).2
termination_by incoming.length
decreasing_by exact length_recv_lt (by decide) _ h

/-- What `stream` hands to `on_data` from one connection. -/
def stream (client : NtripClient) (more : Nat → Nat) (incoming : Bytes) : Except OSError (List Bytes) :=
  (client.connect incoming).map (reads more 0)

end NtripClient

/-- The caster's feeds are numbers of feeds. -/
structure NtripCaster (K : Type) where
  server : String := "ntrip-rtcm3-to-rtcm2p3"
  feeds : Dict String Nat := ∅
  info : Dict String (MountInfo K) := ∅

/-- How `_handle` goes on after the request: it closes the connection, after
the reply if there is one, or subscribes to a feed. -/
inductive Handled where
  | closed (reply : Bytes)
  | serves (reply : Bytes) (feed : Nat)
deriving DecidableEq

namespace NtripCaster

variable {K : Type}

/-- `add_feed` -/
def addFeed (caster : NtripCaster K) (feed : Nat) (info : MountInfo K) : NtripCaster K := { caster with
  feeds := caster.feeds.set info.mount feed
  info := caster.info.set info.mount info }

/-- The sourcetable with these records. -/
def tableOf (server : String) (rows : List String) : Bytes :=
  let body := encode ("\r\n".intercalate rows ++ "\r\nENDSOURCETABLE\r\n")
  encode ("SOURCETABLE 200 OK\r\nServer: " ++ server ++
    "\r\nContent-Type: gnss/sourcetable\r\nContent-Length: " ++ toString body.length ++ "\r\n\r\n") ++ body

/-- `self._info[mount].str_record()` -/
def record (float : K → String) (caster : NtripCaster K) (mount : String) : Py String :=
  match caster.info.get? mount with
  | some info => .ok (info.strRecord float)
  | none => .error (.keyError mount)

/-- `_sourcetable` -/
def sourcetable (float : K → String) (state : Nat → Feed) (caster : NtripCaster K) : Py Bytes := do
  let available := caster.feeds.items.filter fun x => (state x.2).available
  let rows ← available.mapM fun x => caster.record float x.1
  return tableOf caster.server rows

/-- The request, none if the client closes the connection before its end. -/
def readRequest (more : Nat → Nat) (i : Nat) (incoming req : Bytes) : Option Bytes :=
  if CRLF ++ CRLF <:+: req ∨ 4096 ≤ req.length then some req
  else if _h : incoming = [] then none
  else readRequest more (i + 1) (recv 256 (more i) incoming).2 (req ++ (recv 256 (more i) incoming).1)
termination_by incoming.length
decreasing_by exact length_recv_lt (by decide) _ ‹_›

/-- The mount that is asked for, and whether in NTRIP 2. -/
def requested (req : Bytes) : String × Bool :=
  let lines := split "\r\n".toList (decode req)
  let ntrip2 := lines.any fun line =>
    decide ("ntrip-version".toList <+: lower line ∧ "2.0".toList <:+: line)
  let words := split " ".toList (lines.headD [])
  (if 1 < words.length then .ofList ((words.getD 1 []).dropWhile (· == '/')) else "", ntrip2)

/-- The reply before a stream. -/
def accepted (server : String) (ntrip2 : Bool) : Bytes :=
  if ntrip2 then
    encode ("HTTP/1.1 200 OK\r\nNtrip-Version: Ntrip/2.0\r\nServer: " ++ server ++
      "\r\nContent-Type: gnss/data\r\nConnection: close\r\n\r\n")
  else encode "ICY 200 OK\r\n"

/-- `_handle`, up to the subscription. -/
def handle (float : K → String) (state : Nat → Feed) (caster : NtripCaster K) (more : Nat → Nat) (incoming : Bytes) :
    Py Handled :=
  match readRequest more 0 incoming [] with
  | none => .ok (.closed [])
  | some req =>
    let (mount, ntrip2) := requested req
    match caster.feeds.get? mount with
    | none => (caster.sourcetable float state).map .closed
    | some feed =>
      if (state feed).available then .ok (.serves (accepted caster.server ntrip2) feed)
      else (caster.sourcetable float state).map .closed

end NtripCaster

end Rtcm.Impl
