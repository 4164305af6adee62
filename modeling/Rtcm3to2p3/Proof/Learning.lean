import Rtcm3to2p3.Proof.Calls
import Rtcm3to2p3.Proof.Frames

/-!
# What the generator has learned

Everything that the generator of the service holds came in frames of the two
upstreams (`run_learned`): the station and the ephemerides as they are, and each
raw correction that it remembers as that of a frame of observations, for the
last loop of `corrections` has what its first loop computed (`Watched`). So the
corrections of each epoch are those of frames (`epochs_learned`).
-/

namespace Rtcm.Proof

open Rtcm.Impl Rtcm.Spec Transition

variable {K : Type} [Field K] [LinearOrder K] [FloorRing K] [PyMath K] {parse : Bytes → Option (Msg K)}
  {float : K → String}

/-- What `set_station` and `add_ephemeris` keep, of what comes in frames, the service keeps. -/
theorem gen_step {P : DgpsGenerator K → Prop} (hprev : ∀ gen prev, P gen → P { gen with prev })
    (hstation : ∀ gen frame m, parse frame = some (.station m) → P gen → P (gen.setStation (parseStation m)))
    (heph : ∀ gen frame m, parse frame = some (.gpsEphemeris m) → P gen → P (gen.addEphemeris (parseEphemeris m)))
    (s : Service K) (e : Service.Event) (s' : Service K) (h : s.step parse float e = some s')
    (hs : P s.conv.gen) : P s'.conv.gen := by
  cases acts_step parse h with
  | obsData | ephData | publishes | caster => exact hs
  | obsTurn hq =>
    rcases @obsTurn_gen _ _ _ _ _ parse s.conv s.obs with ⟨prev, hg, -⟩ | ⟨frame, m, hf, hg⟩
    · exact hg ▸ hprev _ _ hs
    · exact hg ▸ hstation _ frame m hf hs
  | ephTurn frame frames hf =>
    obtain ⟨gen, parseErrors, hconv, rfl | ⟨m, hp, rfl⟩⟩ := onEphFrame_gen parse s.conv frame
    · exact hconv ▸ hs
    · exact hconv ▸ heph _ frame m hp hs

/-- What a step adds to the raw corrections that the generator remembers. -/
theorem prev_step {s s' : Service K} {e : Service.Event} (h : s.step parse float e = some s') {prn : Int} {last : K × K}
    (hg : s'.conv.gen.prev.get? prn = some last) :
    s.conv.gen.prev.get? prn = some last ∨
      ∃ o todo out frames, s.obs = .correcting last.1 (.emit o ((prn, last.2) :: todo) out) frames := by
  cases acts_step parse h with
  | obsData | ephData | publishes | caster => exact .inl hg
  | obsTurn =>
    rcases obsTurn_gen parse s.conv s.obs with ⟨prev, hgen, hprev⟩ | ⟨frame, m, hf, hgen⟩
    · simp only [hgen] at hg
      rcases hprev with rfl | ⟨tow, phase, frames, hobs, rfl | ⟨o, prn', v, todo, out, rfl, rfl⟩⟩
      · exact .inl hg
      · exact .inl hg
      · rw [Dict.get?_set] at hg
        split_ifs at hg with hp
        · cases hg
          exact .inr ⟨o, todo, out, frames, hp ▸ hobs⟩
        · exact .inl hg
    · simp only [hgen] at hg
      exact .inl hg
  | ephTurn frame frames hf =>
    obtain ⟨gen, parseErrors, hconv, rfl | ⟨m, -, rfl⟩⟩ := onEphFrame_gen parse s.conv frame <;>
    · simp only [hconv] at hg
      exact .inl hg

section

variable {obs eph : List Bytes} {id : StationId} {maxIodAgeS maxResidualM : K} {rtcm3 rtcm23 : MountInfo K}
  {es : List Service.Event} {s : Service K}

/-- All but the raw corrections. -/
theorem run_known
    (h : run (Service.step (only parse obs eph) float) (.init id maxIodAgeS maxResidualM rtcm3 rtcm23) es = some s) :
    Learned parse obs eph maxIodAgeS maxResidualM { s.conv.gen with prev := ∅ } := by
  refine keeps (I := fun s : Service K => Learned parse obs eph maxIodAgeS maxResidualM { s.conv.gen with prev := ∅ })
    (gen_step (P := fun gen => Learned parse obs eph maxIodAgeS maxResidualM { gen with prev := ∅ })
      (fun gen prev h => h) (fun gen frame m hf h => ?_) fun gen frame m hf h => ?_)
    h ⟨rfl, rfl, (fun base hb => by cases hb), Dict.forall_get?_empty, Dict.forall_get?_empty⟩
  · obtain ⟨hmem, hf⟩ := only_obs hf (.inl ⟨m, rfl⟩)
    exact ⟨h.age, h.residual, fun base hb => ⟨frame, m, hmem, hf, (Option.some.inj hb).symm⟩, h.ephemerides, h.prev⟩
  · obtain ⟨hmem, hf⟩ := only_gpsEphemeris hf
    exact ⟨h.age, h.residual, h.base, Dict.forall_get?_set h.ephemerides ⟨frame, m, hmem, hf, rfl, rfl⟩, h.prev⟩

/-- What a call of `corrections` computed with, and what it computed so far. -/
theorem Calls.learned {start : Service K} {tow : K} {gen : DgpsGenerator K} {phase : Phase K}
    {prs : Dict Int K} {events : List (Event K)}
    (h : Calls (only parse obs eph) float start s tow gen phase prs events)
    (hstart : ∀ prn ephemeris, start.conv.gen.ephemerides.get? prn = some ephemeris →
      Orbiting parse eph prn ephemeris) :
    Observed parse obs tow prs ∧
      Holds (Orbiting parse eph) (interleaved tow (.start start.conv.gen prs) events) := by
  obtain ⟨frame, frames, msg, -, hf, hm⟩ := h.frame
  obtain ⟨hmem, hf⟩ := only_obs hf (.inr ⟨msg, rfl⟩)
  refine ⟨⟨frame, msg, hmem, hf, hm⟩, holds_interleaved tow ⟨hstart, fun _ _ hr => nomatch hr⟩ fun ephemeris hst => ?_⟩
  obtain ⟨-, -, frame, -, msg, -, -, hp, rfl, -⟩ := h.stores ephemeris hst
  obtain ⟨hmem, hp⟩ := only_gpsEphemeris hp
  exact ⟨frame, msg, hmem, hp, rfl, rfl⟩

/-- The raw corrections that are remembered are those of frames. -/
theorem run_remembered
    (h : run (Service.step (only parse obs eph) float) (.init id maxIodAgeS maxResidualM rtcm3 rtcm23) es = some s) :
    ∀ prn last, s.conv.gen.prev.get? prn = some last → Remembered parse obs eph prn last.1 last.2 := by
  refine along (I := fun _ s => ∀ prn last, s.conv.gen.prev.get? prn = some last →
      Remembered parse obs eph prn last.1 last.2) (fun es s₁ e s' h₁ he hs prn last hg => ?_) h Dict.forall_get?_empty
  rcases prev_step he hg with hold | ⟨o, todo, out, frames, hobs⟩
  · exact hs prn last hold
  · obtain ⟨start, prs, events, ⟨⟨es₀, h₀⟩, -⟩, hcall⟩ := (corrects_run float _ rfl rfl h₁).call _ _ _ hobs
    have hknown := run_known h₀
    obtain ⟨hobserved, hholds⟩ := hcall.learned hknown.ephemerides
    obtain ⟨-, hw⟩ := watched_interleaved start.conv.gen last.1 prs events
    rw [hcall.phase] at hw
    obtain ⟨⟨base, pr, ephemeris, hb, hpr, hread, -, hraw⟩, -⟩ := hw.2.1 (prn, last.2) List.mem_cons_self
    exact ⟨prs, pr, base, ephemeris, hobserved, hpr, hknown.base base hb, hholds.2 prn ephemeris hread, hraw⟩

/-- What the generator of the service holds came in frames. -/
theorem run_learned
    (h : run (Service.step (only parse obs eph) float) (.init id maxIodAgeS maxResidualM rtcm3 rtcm23) es = some s) :
    Learned parse obs eph maxIodAgeS maxResidualM s.conv.gen := by
  have hknown := run_known h
  exact ⟨hknown.age, hknown.residual, hknown.base, hknown.ephemerides, run_remembered h⟩

/-- Every epoch has the corrections of a frame of observations, by a generator
that holds what came in frames. -/
theorem epochs_learned
    (h : run (Service.step (only parse obs eph) float) (.init id maxIodAgeS maxResidualM rtcm3 rtcm23) es = some s) :
    ∀ e ∈ s.epochs, ∃ pseudoranges gen, Observed parse obs e.tow pseudoranges ∧
      Learned parse obs eph maxIodAgeS maxResidualM gen ∧ gen.base = some e.base ∧
      Alike (gen.corrections e.tow pseudoranges).1 (.ok e.corrections) := by
  intro e he
  obtain ⟨start, gen, prs, events, ⟨⟨es₀, h₀⟩, -⟩, hcall, hbase⟩ := (corrects_run float _ rfl rfl h).epochs e he
  have hlearned := run_learned h₀
  obtain ⟨hobserved, hholds⟩ := hcall.learned hlearned.ephemerides
  refine ⟨prs, frozenTo start.conv.gen prs (interleaved e.tow (.start start.conv.gen prs) events), hobserved,
    ⟨hlearned.age, hlearned.residual, hlearned.base, fun prn ephemeris hg => ?_, hlearned.prev⟩, hbase,
    (interleaved_alike hcall.phase).1⟩
  rw [frozenTo, withTable, get?_readTable] at hg
  split_ifs at hg with hmem
  exact hholds.2 prn ephemeris hg

end

end Rtcm.Proof
