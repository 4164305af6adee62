import Rtcm3to2p3.Proof.Gaps
import Rtcm3to2p3.Proof.Joining

/-!
# What the clients of the service receive

The feeds publish the chunks of the one stream and the messages of the epochs
(`service_publishes`). What a client has taken is a part of what was published
(`taken_published`), and of the RTCM 2.3 feed the decoder reads the messages in
it (`client_reads`), from the seeds of the first: `service_serves`.
-/

namespace Rtcm.Proof

open Rtcm.Impl Rtcm.Spec Transition

variable {K : Type}

section

variable [Field K] [LinearOrder K] [FloorRing K] [PyMath K] (parse : Bytes → Option (Msg K))

/-- In any order of the threads' steps: the RTCM 3 feed publishes the chunks
that `feed_obs` is called with, as they are, and the RTCM 2.3 feed the messages
that a fresh sender sends for the epochs, in order. What has been published
there decodes, from the first word, to these messages without a parity
violation. Between two calls of `publish` nothing is left to publish. -/
theorem service_publishes (stationId : StationId) (maxIodAgeS maxResidualM : K) (rtcm3 rtcm23 : MountInfo K)
    {float : K → String} {es : List Service.Event} {s : Service K}
    (h : Transition.run (Service.step parse float) (.init stationId maxIodAgeS maxResidualM rtcm3 rtcm23) es = some s) :
    let log := sentFor (.new stationId maxIodAgeS maxResidualM) s.epochs
    s.caster.published 0 ++ (s.caster.feeds 0).announced ++ pendingOf s.pending 0 = s.chunks ∧
    s.caster.published 1 ++ (s.caster.feeds 1).announced ++ pendingOf s.pending 1 = log.map Prod.snd ∧
    (s.quiet → s.caster.published 0 = s.chunks ∧ s.caster.published 1 = log.map Prod.snd) ∧
    ∃ n, s.caster.published 1 = (log.take n).map Prod.snd ∧
      Spec.decodeStream false false (s.caster.published 1).flatten =
        { violations := 0, messages := (log.take n).map fun m => m.1.message, rest := [] } := by
  intro log
  have hs := delivers_run parse stationId maxIodAgeS maxResidualM rtcm3 rtcm23 h
  have h0 : s.caster.published 0 ++ (s.caster.feeds 0).announced ++ pendingOf s.pending 0 = s.chunks :=
    (hs.published 0).trans hs.rtcm3Feed
  have h1 : s.caster.published 1 ++ (s.caster.feeds 1).announced ++ pendingOf s.pending 1 = log.map Prod.snd :=
    (hs.published 1).trans hs.rtcm23Feed
  refine ⟨h0, h1, fun hq => ?_, (s.caster.published 1).length, published_decodes hs⟩
  have h0 := hs.of_quiet hq 0
  have h1 := hs.of_quiet hq 1
  rw [announced_idle hq.2.1, List.append_nil] at h0
  rw [announced_idle hq.2.2, List.append_nil] at h1
  exact ⟨h0.trans hs.rtcm3Feed, h1.trans hs.rtcm23Feed⟩

end

theorem service_publishes_one : ∃ s : Service ℝ, s.epochs ≠ [] ∧ s.caster.published 1 ≠ [] ∧
    s.caster.published 1 = (sentFor (.new ⟨1023, by decide⟩ 7200 100) s.epochs).map Prod.snd ∧
    (decodeStream false false (s.caster.published 1).flatten).violations = 0 := by
  obtain ⟨es, s, h, hne, hpub, hq, -⟩ := run_oneEpoch_calls { mount := "RTCM3", lat := 0, lon := 0 }
    { mount := "RTCM23", lat := 0, lon := 0 } fun _ => ""
  obtain ⟨-, -, hquiet, n, -, hdecoded⟩ := service_publishes parseBoth ⟨1023, by decide⟩ 7200 100 _ _ h
  exact ⟨s, hne, hpub, (hquiet hq).2, by rw [hdecoded]⟩

/-! ## A client's items -/

/-- What a client has taken from its queue: items published, in order, and with
no gap if none found the queue full. -/
theorem taken_published {s : Caster K} (hs : Sound s) {t f q : Nat} (hj : s.joined t = some (f, q)) :
    ((s.feeds f).logs q).taken.Sublist (s.published f) ∧
      ((∀ o ∈ ((s.feeds f).logs q).offers, o.backlog ≠ 512) → ((s.feeds f).logs q).taken <:+: s.published f) := by
  have hsince : ((s.feeds f).logs q).offers.map (·.item) ++ (s.feeds f).inFlight q = s.since t :=
    hs.records.since t f q hj
  have hoffers : ((s.feeds f).logs q).offers.map (·.item) <+: s.since t := ⟨_, hsince⟩
  have hpub := hs.records.published t f q hj
  have htaken : ((s.feeds f).logs q).taken <+:
      (((s.feeds f).logs q).offers.filter (·.backlog < MAXSIZE)).map (·.item) :=
    ⟨_, ((s.feeds f).logs q).fifo⟩
  refine ⟨?_, fun hroom => ?_⟩
  · exact (htaken.sublist.trans (List.filter_sublist.map _)).trans (hoffers.sublist.trans hpub.sublist)
  · have hall : ((s.feeds f).logs q).offers.filter (·.backlog < MAXSIZE) = ((s.feeds f).logs q).offers := by
      refine List.filter_eq_self.mpr fun o ho => ?_
      have hle := ((s.feeds f).logs q).backlog_le o ho
      have hne : o.backlog ≠ MAXSIZE := hroom o ho
      exact decide_eq_true (by omega)
    rw [hall] at htaken
    exact (htaken.trans hoffers).isInfix.trans hpub

/-! ## The RTCM 2.3 mount -/

theorem infix_map {α β : Type*} {f : α → β} {L : List α} {l : List β} (h : l <:+: L.map f) :
    ∃ l', l' <:+: L ∧ l'.map f = l := by
  obtain ⟨s, t, h⟩ := h
  obtain ⟨st, t', rfl, hst, -⟩ := List.append_eq_map_iff.mp h
  obtain ⟨s', l', rfl, -, hl⟩ := List.append_eq_map_iff.mp hst.symm
  exact ⟨l', ⟨s', t', rfl⟩, hl⟩

variable [Field K] [LinearOrder K] [FloorRing K]

/-- What a client of the RTCM 2.3 mount reads of what it has taken. -/
theorem client_reads {log : List (Call K × Bytes)} {sent : List OnAir} {u : Bool × Bool}
    (hsent : List.Forall₂ (fun x m => SentAs m x.2 ∧ parseMessage m.words.flatten = x.1.message) log sent)
    (hchain : Chained u sent) {taken : List Bytes} (ht : taken.Sublist (log.map Prod.snd)) {roomy : Prop}
    (hroom : roomy → taken <:+: log.map Prod.snd) :
    ∃ got : List ((Call K × Bytes) × OnAir), got.Sublist (log.zip sent) ∧ got.map (fun x => x.1.2) = taken ∧ ∀ v,
      decodeWords ((deframeBits taken.flatten).length / 30) v.1 v.2 (deframeBits taken.flatten) =
        heard v (got.map Prod.snd) ∧
      (roomy → (heard v (got.map Prod.snd)).tail =
        (((got.map Prod.snd).flatMap OnAir.words).map some).tail) := by
  have hzip : log.map Prod.snd = (log.zip sent).map fun x => x.1.2 := by
    rw [← Function.comp_def, ← List.map_map, List.map_fst_zip (le_of_eq hsent.length_eq)]
  rw [hzip] at ht hroom
  by_cases hr : roomy
  · obtain ⟨got, hgot, rfl⟩ := infix_map (hroom hr)
    refine ⟨got, hgot.sublist, rfl, fun v => ⟨decodeWords_got hsent hgot.sublist v, fun _ => heard_infix hchain ?_⟩⟩
    have hmap := hgot.map Prod.snd
    rwa [List.map_snd_zip (le_of_eq hsent.length_eq.symm)] at hmap
  · obtain ⟨got, hgot, rfl⟩ := List.sublist_map_iff.mp ht
    exact ⟨got, hgot, rfl, fun v => ⟨decodeWords_got hsent hgot v, fun h => absurd h hr⟩⟩

variable [PyMath K] (parse : Bytes → Option (Msg K))

/-- In any order of the threads' steps, with any clients: a client of the RTCM 3
mount is sent, after the status line, chunks that `feed_obs` was called with;
one of the RTCM 2.3 mount messages sent for epochs, of which a decoder with any
seeds reads every word as it was sent, but the first of a message that comes
after a gap. If no item found the client's queue full there is no gap, and only
the first word of all can be lost. -/
theorem service_serves (stationId : StationId) (maxIodAgeS maxResidualM : K) (rtcm3 rtcm23 : MountInfo K)
    {float : K → String} {es : List Service.Event} {s : Service K}
    (h : Transition.run (Service.step parse float) (.init stationId maxIodAgeS maxResidualM rtcm3 rtcm23) es = some s) :
    let log := sentFor (.new stationId maxIodAgeS maxResidualM) s.epochs
    ∃ sent, List.Forall₂ (fun x m => parseMessage m.words.flatten = x.1.message) log sent ∧
      Chained (false, false) sent ∧ ∀ t f q, s.caster.joined t = some (f, q) →
        let taken := ((s.caster.feeds f).logs q).taken
        let roomy := ∀ o ∈ ((s.caster.feeds f).logs q).offers, o.backlog ≠ 512
        (∃ ntrip2 bytes, s.caster.sent t = NtripCaster.accepted s.caster.caster.server ntrip2 ++ bytes ∧
          bytes ++ (s.caster.handlers t).held <+: taken.flatten ∧
          ((s.caster.handlers t).serves = true → bytes ++ (s.caster.handlers t).held = taken.flatten)) ∧
        (f = 0 → taken.Sublist s.chunks ∧ (roomy → taken <:+: s.chunks)) ∧
        (f = 1 → ∃ got : List ((Call K × Bytes) × OnAir), got.Sublist (log.zip sent) ∧
          got.map (fun x => x.1.2) = taken ∧ ∀ v,
          decodeWords ((deframeBits taken.flatten).length / 30) v.1 v.2 (deframeBits taken.flatten) =
            heard v (got.map Prod.snd) ∧
          (roomy → (heard v (got.map Prod.snd)).tail =
            (((got.map Prod.snd).flatMap OnAir.words).map some).tail)) := by
  intro log
  have hs := delivers_run parse stationId maxIodAgeS maxResidualM rtcm3 rtcm23 h
  obtain ⟨sent, hsent, hchain⟩ := runCalls_sentAs (log.map Prod.fst) false false
  rw [runCalls_sentFor stationId maxIodAgeS maxResidualM s.epochs] at hsent
  refine ⟨sent, hsent.imp fun x m hm => hm.2, hchain, fun t f q hj => ?_⟩
  intro taken roomy
  obtain ⟨htaken, hroomy⟩ := taken_published hs.sound hj
  have hlog := hs.published f
  have hpub : s.caster.published f <+: logOf s.conv f := ⟨_, by rw [← List.append_assoc, hlog]⟩
  refine ⟨(hs.sound.sent t).joined hj, fun hf => ?_, fun hf => ?_⟩
  · subst hf
    have hchunks : logOf s.conv 0 = s.chunks := hs.rtcm3Feed
    rw [hchunks] at hpub
    exact ⟨htaken.trans hpub.sublist, fun hr => (hroomy hr).trans hpub.isInfix⟩
  · subst hf
    have hmsgs : logOf s.conv 1 = log.map Prod.snd := hs.rtcm23Feed
    rw [hmsgs] at hpub
    exact client_reads hsent hchain (htaken.trans hpub.sublist) fun hr => (hroomy hr).trans hpub.isInfix

theorem service_serves_twoEpochs : ∃ (s : Service ℝ) (q : Nat) (got : List ((Call ℝ × Bytes) × OnAir)),
    s.epochs ≠ [] ∧ s.caster.joined 0 = some (1, q) ∧ got ≠ [] ∧
      got.map (fun x => x.1.2) = ((s.caster.feeds 1).logs q).taken ∧ ∀ v : Bool × Bool,
        decodeWords ((deframeBits ((s.caster.feeds 1).logs q).taken.flatten).length / 30) v.1 v.2
          (deframeBits ((s.caster.feeds 1).logs q).taken.flatten) = heard v (got.map Prod.snd) := by
  obtain ⟨es, s, q, h, hne, hj, htaken⟩ := run_twoEpochs
  obtain ⟨sent, -, -, hserved⟩ := service_serves parseBoth ⟨1023, by decide⟩ 7200 100 _ _ h
  obtain ⟨got, -, hgot, hread⟩ := (hserved 0 1 q hj).2.2 rfl
  refine ⟨s, q, got, hne, hj, fun hnil => htaken ?_, hgot, fun v => (hread v).1⟩
  rw [← hgot, hnil]
  rfl

end Rtcm.Proof
