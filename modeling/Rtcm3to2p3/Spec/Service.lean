import Rtcm3to2p3.Spec.Caster
import Rtcm3to2p3.Spec.Epochs
import Rtcm3to2p3.Spec.Threads

/-!
# The service

`Service.run`: the thread that is called with observations, the one that is
called with ephemerides, and the caster with its clients, in any order of their
steps. The observation thread hands over to the others between any two reads of
the table of ephemerides, and at every step of the `publish` calls that it
makes. Feed 0 is the RTCM 3 feed, feed 1 the RTCM 2.3 feed.
-/

namespace Rtcm.Spec

open Rtcm.Impl

/-- Where the observation thread is. -/
inductive ObsStage (K : Type) where
  /-- Outside `feed_obs`. -/
  | idle
  /-- In its loop, before the next frame. -/
  | looping (frames : List Bytes)
  /-- In `gen.corrections`, of a frame that others come after. -/
  | correcting (tow : K) (phase : Phase K) (frames : List Bytes)

/-- The shared converter; the frames that `feed_eph` has left; the `publish`
calls that `feed_obs` has left before it goes on. The last two only record what
`feed_obs` was called with and the epochs that yielded corrections. -/
structure Service (K : Type) where
  conv : Converter K
  obs : ObsStage K
  ephFrames : List Bytes
  pending : List (Nat × Bytes)
  caster : Caster K
  chunks : List Bytes
  epochs : List (Epoch K)

namespace Service

inductive Event where
  | obsData (data : Bytes)
  | obsTurn
  | ephData (data : Bytes)
  | ephTurn
  | caster (e : Caster.Event)

variable {K : Type} [Field K] [LinearOrder K] [FloorRing K]

/-- `Service.__init__` -/
def init (stationId : StationId) (maxIodAgeS maxResidualM : K) (rtcm3 rtcm23 : MountInfo K) : Service K where
  conv := .new stationId maxIodAgeS maxResidualM
  obs := .idle
  ephFrames := []
  pending := []
  caster := .init ((NtripCaster.addFeed {} 0 rtcm3).addFeed 1 rtcm23)
    fun feed => if feed = 0 then rtcm3.mount else rtcm23.mount
  chunks := []
  epochs := []

variable [PyMath K] (parse : Bytes → Option (Msg K))

/-- The observation thread's next step: a frame up to `gen.corrections`, a turn
of a loop there, or what is sent for its corrections. -/
def obsTurn (c : Converter K) : ObsStage K → ObsStage K × Converter K
  | .idle => (.idle, c)
  | .looping [] => (.idle, c)
  | .looping (frame :: frames) =>
    match c.parseFrame parse frame with
    | (none, c) => (.looping frames, c)
    | (some (.station msg), c) => (.looping frames, { c with gen := c.gen.setStation (parseStation msg) })
    | (some (.gpsMsm7 msg), c) =>
      match parseGpsMsm7 msg with
      | .error _ => (.idle, c)
      | .ok (tow, pseudoranges) => (.correcting tow (Threads.start c.gen pseudoranges).phase frames, c)
    | (some _, c) => (.looping frames, c)
  | .correcting tow phase frames =>
    match phase with
    | .done (.error _) => (.idle, c)
    | .done (.ok corrections) =>
      if corrections.isEmpty then (.looping frames, c)
      else
        match c.send tow corrections with
        | (.error _, c) => (.idle, c)
        | (.ok (), c) => (.looping frames, c)
    | phase =>
      let call := Threads.turn tow ⟨c.gen, phase, fun _ => none, fun _ => none⟩
      (.correcting tow call.phase frames, { c with gen := call.gen })

/-- The epoch that a step sends the corrections of. -/
def sends (c : Converter K) : ObsStage K → Option (Epoch K)
  | .correcting tow (.done (.ok (x :: xs))) _ => c.gen.base.map fun base => ⟨base, tow, x :: xs⟩
  | _ => none

/-- No `publish` call is under way. -/
def quiet (s : Service K) : Prop :=
  s.pending = [] ∧ (s.caster.feeds 0).publisher = .idle ∧ (s.caster.feeds 1).publisher = .idle

instance (s : Service K) : Decidable s.quiet := inferInstanceAs (Decidable (_ ∧ _ ∧ _))

def step (float : K → String) (s : Service K) : Event → Option (Service K)
  | .obsData data =>
    match s.obs with
    | .idle =>
      if s.quiet ∧ data ≠ [] then
        let (frames, rest) := extractRtcm3Frames (s.conv.obsBuf ++ data)
        some { s with
          conv := { s.conv with rtcm3Feed := publish s.conv.rtcm3Feed data, obsBuf := rest }
          obs := .looping frames
          pending := [(0, data)]
          chunks := s.chunks ++ [data] }
      else none
    | _ => none
  | .obsTurn =>
    if s.quiet then
      let (obs, conv) := obsTurn parse s.conv s.obs
      some { s with
        conv, obs
        pending := (conv.rtcm23Feed.drop s.conv.rtcm23Feed.length).map (1, ·)
        epochs := s.epochs ++ (sends s.conv s.obs).toList }
    else none
  | .ephData data =>
    if s.ephFrames = [] then
      let (frames, rest) := extractRtcm3Frames (s.conv.ephBuf ++ data)
      some { s with conv := { s.conv with ephBuf := rest }, ephFrames := frames }
    else none
  | .ephTurn =>
    match s.ephFrames with
    | [] => none
    | frame :: frames => some { s with conv := (s.conv.onEphFrame parse frame).2, ephFrames := frames }
  | .caster e =>
    match e with
    | .publisher feed (.publish data) =>
      match s.pending with
      | [] => none
      | next :: pending =>
        if next = (feed, data) ∧ (s.caster.feeds 0).publisher = .idle ∧ (s.caster.feeds 1).publisher = .idle then
          (s.caster.step float e).map fun caster => { s with caster, pending }
        else none
    | e => (s.caster.step float e).map fun caster => { s with caster }

/-- The call of `feed_obs` or `feed_eph` that an event starts. -/
def Event.called : Event → Option (Upstream × Bytes)
  | .obsData data => some (.obs, data)
  | .ephData data => some (.eph, data)
  | _ => none

/-- The chunks that the calls of an upstream were made with. -/
def chunksIn (es : List Event) (u : Upstream) : List Bytes :=
  ((es.filterMap Event.called).filter fun call => call.1 = u).map Prod.snd

/-- The frames of what an upstream has sent. -/
def framesIn (es : List Event) (u : Upstream) : List Bytes := (extractRtcm3Frames (chunksIn es u).flatten).1

/-- The observation thread is outside `feed_obs`. -/
def outside (s : Service K) : Prop := s.obs = .idle ∧ s.quiet

/-- A step of the thread that calls `feed_obs`. -/
def Event.ofObs : Event → Bool
  | .obsData _ | .obsTurn | .caster (.publisher _ _) => true
  | _ => false

/-- A step of the thread that calls `feed_eph`. -/
def Event.ofEph : Event → Bool
  | .ephData _ | .ephTurn => true
  | _ => false

/-- No call starts while another is under way. -/
def OneAtATime (float : K → String) (s : Service K) : List Event → Prop
  | [] => True
  | e :: es => (e.called.isSome → s.obs = .idle ∧ s.ephFrames = []) ∧
      ∀ s', s.step parse float e = some s' → OneAtATime float s' es

end Service

end Rtcm.Spec
