import Rtcm3to2p3.Spec.Dgps
import Mathlib.Logic.Function.Basic

/-!
# `corrections` beside the ephemeris thread

A call of `corrections` on the observation thread, one turn of its loops at a
time, and `add_ephemeris` on the ephemeris thread between any two turns. A
turn reads the ephemeris table at most once.
-/

namespace Rtcm.Spec

open Rtcm.Impl

variable {K : Type}

/-- What a call has left to do: the turns of each loop, and what it has
computed so far. -/
inductive Phase (K : Type) where
  | select (base : K × K × K) (todo : List (Int × K)) (raw : Dict Int K)
  | rate (raw : Dict Int K) (todo : List (Int × K)) (rawRate : Dict Int K)
  | emit (o : DgpsGenerator.Offsets K) (todo : List (Int × K)) (out : List (Correction K))
  | done (result : Py (List (Correction K)))

/-- The call may still read the satellite's ephemeris. -/
def Phase.awaits (prn : Int) : Phase K → Bool
  | .select .. => true
  | .rate .. => true
  | .emit _ todo _ => todo.any (·.1 == prn)
  | .done _ => false

/-- A call under way, and the generator both threads share. `read` and `stored`
only record: what the first loop read of a satellite, and the last ephemeris
stored for it since, until the last loop has had its turn. -/
structure Threads (K : Type) where
  gen : DgpsGenerator K
  phase : Phase K
  read : Int → Option (Ephemeris K)
  stored : Int → Option (Ephemeris K)

namespace Threads

def start (gen : DgpsGenerator K) (pseudoranges : Dict Int K) : Threads K where
  gen := gen
  phase := match gen.base with
    | none => .done (.ok [])
    | some base => .select base pseudoranges.items ∅
  read _ := none
  stored _ := none

/-- The corrections emitted so far. -/
def emitted (call : Threads K) : List (Correction K) :=
  match call.phase with
  | .emit _ _ out => out
  | .done (.ok out) => out
  | _ => []

variable [Field K] [LinearOrder K] [PyMath K]

/-- The observation thread's next turn. -/
def turn (tow : K) (call : Threads K) : Threads K :=
  match call.phase with
  | .select base ((prn, pr) :: todo) raw => { call with
      phase := match call.gen.selectSat base tow raw prn pr (call.gen.ephemerides.get? prn) with
        | .error e => .done (.error e)
        | .ok raw => .select base todo raw
      read := Function.update call.read prn (call.gen.ephemerides.get? prn)
      stored := Function.update call.stored prn none }
  | .select _ [] raw => { call with
      phase := if raw.items.isEmpty then .done (.ok []) else .rate raw raw.items ∅ }
  | .rate raw ((prn, value) :: todo) rawRate => { call with
      phase := .rate raw todo (DgpsGenerator.rateSat tow rawRate prn value (call.gen.prev.get? prn)) }
  | .rate raw [] rawRate => { call with phase := .emit (.of raw rawRate) raw.sorted [] }
  | .emit o ((prn, value) :: todo) out => { call with
      gen := { call.gen with prev := call.gen.prev.set prn (tow, value) }
      phase := match call.gen.emitSat o prn value (call.gen.ephemerides.get? prn) with
        | .error e => .done (.error e)
        | .ok c => .emit o todo (out ++ c.toList) }
  | .emit _ [] out => { call with phase := .done (.ok out) }
  | .done _ => call

/-- The ephemeris thread's store. -/
def store (eph : Ephemeris K) (call : Threads K) : Threads K := { call with
  gen := call.gen.addEphemeris eph
  stored := if call.phase.awaits eph.prn then Function.update call.stored eph.prn (some eph) else call.stored }

end Threads

/-- One step of either thread. -/
inductive Event (K : Type) where
  | turn
  | store (eph : Ephemeris K)

variable [Field K] [LinearOrder K] [PyMath K]

def Event.apply (tow : K) (call : Threads K) : Event K → Threads K
  | .turn => call.turn tow
  | .store eph => call.store eph

/-- The steps of both threads, in the order they happen. -/
def interleaved (tow : K) (call : Threads K) (events : List (Event K)) : Threads K := events.foldl (Event.apply tow) call

end Rtcm.Spec
