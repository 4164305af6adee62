import Mathlib.Data.Finset.Card
import Rtcm3to2p3.Spec.Service

/-!
# What the service holds on to

Bounds on everything a service keeps between its steps, for each client that is
connected, and of each stream that it converts.
-/

namespace Rtcm.Spec

open Rtcm.Impl

variable {K : Type}

/-- The frames that `feed_obs` has left. -/
def ObsStage.frames : ObsStage K → List Bytes
  | .idle => []
  | .looping frames => frames
  | .correcting _ _ frames => frames

/-- The threads whose connection is open. -/
def Caster.opened (s : Caster K) : Finset Nat := (Finset.range s.connections).filter fun t => s.handlers t ≠ .closed

/-- What is held, if the two streams come in chunks of `chunk` bytes at most. -/
structure Bounded (chunk : Nat) (s : Service K) : Prop where
  buffers : s.conv.obsBuf.length ≤ 1028 ∧ s.conv.ephBuf.length ≤ 1028
  frames : s.obs.frames.flatten.length ≤ 1028 + chunk ∧ s.ephFrames.flatten.length ≤ 1028 + chunk
  satellites : s.conv.gen.ephemerides.items.length ≤ 64 ∧ s.conv.gen.prev.items.length ≤ 64
  pending : s.pending.length ≤ 2
  queues : ∀ f q, ((s.caster.feeds f).logs q).queue.items.length ≤ 512 ∧
    ∀ item ∈ ((s.caster.feeds f).logs q).queue.items, item.length ≤ max chunk 165
  subscribers : ∀ f, (s.caster.feeds f).feed.subs.card ≤ s.caster.opened.card
  requests : ∀ t incoming req, s.caster.handlers t = .requesting incoming req → req.length ≤ 4351

end Rtcm.Spec
