import Rtcm3to2p3.Impl.Bits
import Rtcm3to2p3.Impl.Config
import Rtcm3to2p3.Impl.Dgps
import Rtcm3to2p3.Impl.Ephemeris
import Rtcm3to2p3.Impl.Ntrip
import Rtcm3to2p3.Impl.Parity
import Rtcm3to2p3.Impl.Rtcm2
import Rtcm3to2p3.Impl.Rtcm3Input
import Rtcm3to2p3.Impl.Service
import Rtcm3to2p3.Impl.Text
import Rtcm3to2p3.Lib.BitString
import Rtcm3to2p3.Lib.BoundedQueue
import Rtcm3to2p3.Lib.Delimited
import Rtcm3to2p3.Lib.Dict
import Rtcm3to2p3.Lib.Double
import Rtcm3to2p3.Lib.Framing
import Rtcm3to2p3.Lib.Median
import Rtcm3to2p3.Lib.ParityCheck
import Rtcm3to2p3.Lib.Quantise
import Rtcm3to2p3.Lib.Round
import Rtcm3to2p3.Lib.Settle
import Rtcm3to2p3.Lib.Transition
import Rtcm3to2p3.Lib.TurningFrame
import Rtcm3to2p3.Proof.Answers
import Rtcm3to2p3.Proof.Bits
import Rtcm3to2p3.Proof.Bounds
import Rtcm3to2p3.Proof.Cadence
import Rtcm3to2p3.Proof.Calls
import Rtcm3to2p3.Proof.Caster
import Rtcm3to2p3.Proof.Checker
import Rtcm3to2p3.Proof.Chunks
import Rtcm3to2p3.Proof.Clients
import Rtcm3to2p3.Proof.Dgps
import Rtcm3to2p3.Proof.Drift
import Rtcm3to2p3.Proof.Drives
import Rtcm3to2p3.Proof.Exchange
import Rtcm3to2p3.Proof.Fanout
import Rtcm3to2p3.Proof.Feed
import Rtcm3to2p3.Proof.Frames
import Rtcm3to2p3.Proof.Framing
import Rtcm3to2p3.Proof.Gaps
import Rtcm3to2p3.Proof.Handover
import Rtcm3to2p3.Proof.Header
import Rtcm3to2p3.Proof.History
import Rtcm3to2p3.Proof.Joining
import Rtcm3to2p3.Proof.Kepler
import Rtcm3to2p3.Proof.Learning
import Rtcm3to2p3.Proof.Messages
import Rtcm3to2p3.Proof.Msm
import Rtcm3to2p3.Proof.Orbit
import Rtcm3to2p3.Proof.Outlier
import Rtcm3to2p3.Proof.Pack
import Rtcm3to2p3.Proof.Packing
import Rtcm3to2p3.Proof.Parity
import Rtcm3to2p3.Proof.Precision
import Rtcm3to2p3.Proof.Program
import Rtcm3to2p3.Proof.Provenance
import Rtcm3to2p3.Proof.Quantiser
import Rtcm3to2p3.Proof.Range
import Rtcm3to2p3.Proof.Refusal
import Rtcm3to2p3.Proof.Relay
import Rtcm3to2p3.Proof.Returns
import Rtcm3to2p3.Proof.Rollover
import Rtcm3to2p3.Proof.Selection
import Rtcm3to2p3.Proof.Sender
import Rtcm3to2p3.Proof.Sequence
import Rtcm3to2p3.Proof.Sequential
import Rtcm3to2p3.Proof.Service
import Rtcm3to2p3.Proof.Session
import Rtcm3to2p3.Proof.Shutdown
import Rtcm3to2p3.Proof.Snapshot
import Rtcm3to2p3.Proof.Station
import Rtcm3to2p3.Proof.Stream
import Rtcm3to2p3.Proof.Text
import Rtcm3to2p3.Proof.Threads
import Rtcm3to2p3.Proof.TwoRuns
import Rtcm3to2p3.Proof.Wire
import Rtcm3to2p3.Spec.Answers
import Rtcm3to2p3.Spec.Bounds
import Rtcm3to2p3.Spec.Caster
import Rtcm3to2p3.Spec.Decoder
import Rtcm3to2p3.Spec.Dgps
import Rtcm3to2p3.Spec.Epochs
import Rtcm3to2p3.Spec.Exchange
import Rtcm3to2p3.Spec.Fanout
import Rtcm3to2p3.Spec.Feed
import Rtcm3to2p3.Spec.Framing
import Rtcm3to2p3.Spec.Gaps
import Rtcm3to2p3.Spec.Header
import Rtcm3to2p3.Spec.Input
import Rtcm3to2p3.Spec.Msm
import Rtcm3to2p3.Spec.Orbit
import Rtcm3to2p3.Spec.Packing
import Rtcm3to2p3.Spec.Program
import Rtcm3to2p3.Spec.Quantiser
import Rtcm3to2p3.Spec.Range
import Rtcm3to2p3.Spec.Selection
import Rtcm3to2p3.Spec.Service
import Rtcm3to2p3.Spec.Session
import Rtcm3to2p3.Spec.Snapshot
import Rtcm3to2p3.Spec.Sources
import Rtcm3to2p3.Spec.Wire
