import Rtcm3to2p3.Impl.Ntrip

/-!
# An exchange between client and caster

What a caster serves, said of the calls of `add_feed` alone, and what a
sourcetable and a queue hold for a client.
-/

namespace Rtcm.Spec

open Rtcm.Impl Delimited

variable {K : Type}

/-- A caster with its feeds added. -/
def built (server : String) (calls : List (Nat × MountInfo K)) : NtripCaster K :=
  calls.foldl (fun caster x => caster.addFeed x.1 x.2) { server }

/-- What a mount was last added with. -/
def added (calls : List (Nat × MountInfo K)) (mount : String) : Option (Nat × MountInfo K) :=
  (calls.filter fun x => x.2.mount = mount).getLast?

/-- The items put in a queue. -/
def putIn (log : BoundedQueue.Log Bytes MAXSIZE) : List Bytes :=
  (log.offers.filter (·.backlog < MAXSIZE)).map (·.item)

/-- The bytes sent to a subscriber: the reply, and the items it got from its
queue. -/
def sent (reply : Bytes) (log : BoundedQueue.Log Bytes MAXSIZE) : Bytes := reply ++ log.taken.flatten

/-- The mounts of a sourcetable's STR records. -/
def listed (table : Bytes) : List String :=
  ((split "\r\n".toList (decode table)).filter ("STR;".toList.isPrefixOf ·)).map fun line =>
    .ofList ((split ";".toList line).getD 1 [])

end Rtcm.Spec
