import Rtcm3to2p3.Spec.Caster

/-!
# What a request is answered with

What a client may be sent, said of all the bytes that it sends and of two
states of the caster: when it connected, and later.
-/

namespace Rtcm.Spec

open Rtcm.Impl Delimited

variable {K : Type}

/-- The first line, of 4096 bytes at most, asks for the mount. -/
def Asks (incoming : Bytes) (mount : String) : Prop :=
  ∃ line, UpTo CRLF line incoming ∧ line.length ≤ 4096 ∧ (NtripCaster.requested line).1 = mount

/-- The bytes have the end of a request. -/
def Whole (incoming : Bytes) : Prop := CRLF ++ CRLF <:+: incoming ∨ 4096 ≤ incoming.length

/-- The request is answered with a feed: that of its mount, which is available. -/
structure Granted (s : Caster K) (incoming : Bytes) (mount : String) (ntrip2 : Bool) (feed : Nat) : Prop where
  whole : Whole incoming
  mount : s.caster.feeds.get? mount = some feed
  available : (s.feeds feed).feed.available = true
  /-- Of a client that waits after its request. -/
  version : UpTo (CRLF ++ CRLF) incoming incoming → incoming.length ≤ 4096 →
    ntrip2 = (NtripCaster.requested incoming).2

/-- The request is answered with a sourcetable, or is to be: no feed of its
mount was available when the client connected. Of the mounts `seen`, the rows
list those that were available then, and only such as are now. -/
structure Refused (float : K → String) (s₀ s : Caster K) (incoming : Bytes) (mount : String)
    (seen : List (String × Nat)) (rows : List String) : Prop where
  whole : Whole incoming
  mount : ∀ feed, s.caster.feeds.get? mount = some feed → (s₀.feeds feed).feed.available = false
  rows : ∃ listed : List (String × Nat), listed.Sublist seen ∧
    List.Forall₂ (fun x row => s.caster.record float x.1 = .ok row) listed rows ∧
    (∀ x ∈ listed, (s.feeds x.2).feed.available = true) ∧
    ∀ x ∈ seen, (s₀.feeds x.2).feed.available = true → x ∈ listed

/-- What a client that sends these bytes has been sent. -/
structure Answered (float : K → String) (s₀ s : Caster K) (h : Nat) (incoming : Bytes) (mount : String) : Prop where
  joined : ∀ feed q, s.joined h = some (feed, q) →
    ∃ ntrip2, NtripCaster.accepted s.caster.server ntrip2 <+: s.sent h ∧ Granted s incoming mount ntrip2 feed
  outside : s.joined h = none → s.sent h = [] ∨
    (∃ ntrip2 feed, s.sent h <+: NtripCaster.accepted s.caster.server ntrip2 ∧ Granted s incoming mount ntrip2 feed) ∨
    ∃ rows, s.sent h <+: NtripCaster.tableOf s.caster.server rows ∧
      Refused float s₀ s incoming mount s.caster.feeds.items rows

end Rtcm.Spec
