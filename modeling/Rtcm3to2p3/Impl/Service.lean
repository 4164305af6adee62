import Rtcm3to2p3.Impl.Dgps
import Rtcm3to2p3.Impl.Rtcm3Input
import Rtcm3to2p3.Lib.Double

/-!
# `service.py`: the converter

`Converter` cuts the observation and the ephemeris stream into RTCM 3 frames,
has them parsed and publishes corrections. pyrtcm's parser is `parse`, `none`
where it raises. A method that raises leaves the converter as it was then, so
each returns the converter beside its result. Times of week are exact, and
rounded to doubles where one is compared with the last (`elapsed`).
-/

namespace Rtcm.Impl

/-- The preamble of an RTCM 3 frame. -/
def PREAMBLE3 : UInt8 := 0xD3

/-- The length a frame's first three bytes declare, header and CRC included. -/
def frameLength (b1 b2 : UInt8) : Nat := 3 + ((b1.toNat &&& 0x03) <<< 8 ||| b2.toNat) + 3

/-- `extract_rtcm3_frames`: the complete frames, and what stays in the buffer. -/
def extractRtcm3Frames (buf : Bytes) : List Bytes × Bytes :=
  match buf.findIdx? (· == PREAMBLE3) with
  | none => ([], [])
  | some start =>
    let buf' := buf.drop start
    if buf'.length < 3 then ([], buf')
    else
      let total := frameLength (buf'.getD 1 0) (buf'.getD 2 0)
      if buf'.length < total then ([], buf')
      else
        let (frames, rest) := extractRtcm3Frames (buf'.drop total)
        (buf'.take total :: frames, rest)
termination_by buf.length
decreasing_by simp only [List.length_drop, frameLength, buf', total] at *; omega

/-- `Feed.publish`, of what a feed has published. -/
def publish (feed : List Bytes) (data : Bytes) : List Bytes :=
  if data.isEmpty then feed else feed ++ [data]

/-- `for frame in frames: on_frame(frame)` -/
def forFrames {σ : Type} (onFrame : σ → Bytes → Py Unit × σ) (c : σ) : List Bytes → Py Unit × σ
  | [] => (.ok (), c)
  | frame :: frames =>
    match onFrame c frame with
    | (.error e, c) => (.error e, c)
    | (.ok (), c) => forFrames onFrame c frames

variable {K : Type}

/-- The RTCM 2.3 reference station ids that are not rejected. -/
abbrev StationId := { id : Int // 1 ≤ id ∧ id ≤ 1023 }

structure Converter (K : Type) where
  /-- What was published on the two feeds. -/
  rtcm3Feed : List Bytes
  rtcm23Feed : List Bytes
  gen : DgpsGenerator K
  encoder : Rtcm2Encoder
  obsBuf : Bytes
  ephBuf : Bytes
  seq : Nat
  lastType3Tow : Option K
  stationId : StationId
  messagesOut : Nat
  parseErrors : Nat

namespace Converter

/-- `_parse` -/
def parseFrame (parse : Bytes → Option (Msg K)) (c : Converter K) (frame : Bytes) :
    Option (Msg K) × Converter K :=
  match parse frame with
  | some msg => (some msg, c)
  | none => (none, { c with parseErrors := c.parseErrors + 1 })

/-- `_next_seq` -/
def nextSeq (c : Converter K) : Nat × Converter K :=
  ((c.seq + 1) % 8, { c with seq := (c.seq + 1) % 8 })

end Converter

variable [Field K] [LinearOrder K] [FloorRing K]

def WEEK_S : K := 604800.0
/-- The base station position is sent again this often. -/
def TYPE3_INTERVAL_S : K := 60.0

/-- `x % y`, for a positive `y`. -/
def pyMod (x y : K) : K := x - y * ⌊x / y⌋

/-- `modified_zcount` -/
def modifiedZcount (tow : K) : Int := HalfEven.round (pyMod tow 3600 / 0.6) % 6000

/-- `(tow - self._last_type3_tow) % _WEEK_S`, in doubles: a time of week is
rounded when it is divided into seconds, and the difference of two is. -/
def elapsed (last tow : K) : K := Double.mod (Double.round (Double.round tow - Double.round last)) WEEK_S

/-- `elapsed is not None and elapsed < _TYPE3_INTERVAL_S` -/
def type3Recent (lastType3Tow : Option K) (tow : K) : Bool :=
  match lastType3Tow with
  | none => false
  | some last => elapsed last tow < TYPE3_INTERVAL_S

namespace Converter

/-- What `__init__` sets, for a station id it does not reject. -/
def new (stationId : StationId) (maxIodAgeS maxResidualM : K) : Converter K where
  rtcm3Feed := []
  rtcm23Feed := []
  gen := DgpsGenerator.init maxIodAgeS maxResidualM
  encoder := {}
  obsBuf := []
  ephBuf := []
  seq := 0
  lastType3Tow := none
  stationId := stationId
  messagesOut := 0
  parseErrors := 0

/-- `Converter(rtcm3_feed, rtcm23_feed, station_id, max_iod_age_s, max_residual_m)` -/
def init (stationId : Int := 1023) (maxIodAgeS : K := 7200.0) (maxResidualM : K := 100.0) :
    Py (Converter K) :=
  if h : 1 ≤ stationId ∧ stationId ≤ 1023 then .ok (new ⟨stationId, h⟩ maxIodAgeS maxResidualM)
  else .error (.valueError s!"station_id must be 1..1023, got {stationId}")

/-- `_maybe_emit_type3` -/
def maybeEmitType3 (c : Converter K) (tow : K) (zcount : Int) : Py Unit × Converter K :=
  match c.gen.base with
  | none => (.ok (), c)
  | some base =>
    if type3Recent c.lastType3Tow tow then (.ok (), c)
    else
      let (seq, c) := c.nextSeq
      match c.encoder.encodeType3 c.stationId.val zcount seq 0 base with
      | (.error e, encoder) => (.error e, { c with encoder })
      | (.ok out, encoder) =>
        (.ok (), { c with encoder, rtcm23Feed := publish c.rtcm23Feed out, lastType3Tow := some tow })

/-- The end of `_on_obs_frame`, with corrections to send. -/
def send (c : Converter K) (tow : K) (corrections : List (Correction K)) : Py Unit × Converter K :=
  let zcount := modifiedZcount tow
  match c.maybeEmitType3 tow zcount with
  | (.error e, c) => (.error e, c)
  | (.ok (), c) =>
    let (seq, c) := c.nextSeq
    match c.encoder.encodeType1 c.stationId.val zcount seq 0 corrections with
    | (.error e, encoder) => (.error e, { c with encoder })
    | (.ok out, encoder) =>
      (.ok (), { c with
        encoder, rtcm23Feed := publish c.rtcm23Feed out, messagesOut := c.messagesOut + 1 })

variable [PyMath K] (parse : Bytes → Option (Msg K))

/-- The observation branch of `_on_obs_frame`. -/
def onObservations (c : Converter K) (msg : Msg1077 K) : Py Unit × Converter K :=
  match parseGpsMsm7 msg with
  | .error e => (.error e, c)
  | .ok (tow, pseudoranges) =>
    match c.gen.corrections tow pseudoranges with
    | (.error e, gen) => (.error e, { c with gen })
    | (.ok corrections, gen) =>
      if corrections.isEmpty then (.ok (), { c with gen })
      else { c with gen }.send tow corrections

/-- `_on_obs_frame` -/
def onObsFrame (c : Converter K) (frame : Bytes) : Py Unit × Converter K :=
  match c.parseFrame parse frame with
  | (none, c) => (.ok (), c)
  | (some (.station msg), c) => (.ok (), { c with gen := c.gen.setStation (parseStation msg) })
  | (some (.gpsMsm7 msg), c) => c.onObservations msg
  | (some _, c) => (.ok (), c)

/-- `_on_eph_frame` -/
def onEphFrame (c : Converter K) (frame : Bytes) : Py Unit × Converter K :=
  match c.parseFrame parse frame with
  | (some (.gpsEphemeris msg), c) => (.ok (), { c with gen := c.gen.addEphemeris (parseEphemeris msg) })
  | (_, c) => (.ok (), c)

/-- `feed_obs` -/
def feedObs (c : Converter K) (data : Bytes) : Py Unit × Converter K :=
  let (frames, rest) := extractRtcm3Frames (c.obsBuf ++ data)
  forFrames (onObsFrame parse) { c with rtcm3Feed := publish c.rtcm3Feed data, obsBuf := rest } frames

/-- `feed_eph` -/
def feedEph (c : Converter K) (data : Bytes) : Py Unit × Converter K :=
  let (frames, rest) := extractRtcm3Frames (c.ephBuf ++ data)
  forFrames (onEphFrame parse) { c with ephBuf := rest } frames

end Converter

end Rtcm.Impl
