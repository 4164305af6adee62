import Rtcm3to2p3.Spec.Wire

/-!
# Messages that do not all arrive

A slow client's queue drops whole messages, and a client joins between two of
them with whatever seeds its decoder starts with. What the word decoder makes
of the messages that do arrive.
-/

namespace Rtcm.Spec

/-- A message's data bytes, word by word, and the seeds before and after it. -/
structure OnAir where
  words : List (List UInt8)
  before : Bool × Bool
  after : Bool × Bool

/-- What is read of messages by a decoder with these seeds: every word, but the
first of a message that was sent after other seeds. -/
def heard (seeds : Bool × Bool) : List OnAir → List (Option (List UInt8))
  | [] => []
  | m :: ms =>
    (if seeds = m.before then m.words.map some else none :: m.words.tail.map some) ++ heard m.after ms

/-- The messages that were sent after other seeds than the decoder has then. -/
def misseeded (seeds : Bool × Bool) : List OnAir → Nat
  | [] => 0
  | m :: ms => (if seeds = m.before then 0 else 1) + misseeded m.after ms

/-- Each message was sent after the seeds the one before it left. -/
def Chained (seeds : Bool × Bool) : List OnAir → Prop
  | [] => True
  | m :: ms => m.before = seeds ∧ m.words ≠ [] ∧ Chained m.after ms

end Rtcm.Spec
