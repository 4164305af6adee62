import Rtcm3to2p3.Impl.Ntrip

/-!
# The header of an upstream's reply

A reply starts a stream with `ICY 200` or with an HTTP/1 status 200. An ICY
reply's header is its status line, an HTTP reply's are the lines up to a blank
one; what comes after it is the stream (`AfterHeader`).
-/

namespace Rtcm.Spec

open Rtcm.Impl Delimited

def IsIcy200 (line : Bytes) : Prop := encode "ICY 200" <+: line

/-- An HTTP/1 version, and then the status. -/
def IsHttp200 (line : Bytes) : Prop :=
  encode "HTTP/1" <+: line ∧ ((split (encode " ") line).drop 1).take 1 = [encode "200"]

instance : DecidablePred IsIcy200 := fun line => inferInstanceAs (Decidable (encode "ICY 200" <+: line))

instance : DecidablePred IsHttp200 := fun _ => inferInstanceAs (Decidable (_ ∧ _))

/-- What was sent is the header of a reply that starts a stream, and then
`rest`. The blanks around the status line do not count. -/
inductive AfterHeader (sent rest : Bytes) : Prop where
  | icy {status : Bytes} : UpTo CRLF status sent → IsIcy200 (strip status) → sent = status ++ rest →
      AfterHeader sent rest
  | http {status header : Bytes} : UpTo CRLF status sent → IsHttp200 (strip status) →
      UpTo (CRLF ++ CRLF) header sent → sent = header ++ rest → AfterHeader sent rest

/-- The client returns exactly what comes after the header, raises if there is
no such header, and hands on all of it and nothing else. -/
structure HeaderConsumed (client : NtripClient) (sent : Bytes) : Prop where
  returns : ∀ rest, client.connect sent = .ok rest ↔ AfterHeader sent rest
  relays : ∀ more chunks, client.stream more sent = .ok chunks → AfterHeader sent chunks.flatten

end Rtcm.Spec
