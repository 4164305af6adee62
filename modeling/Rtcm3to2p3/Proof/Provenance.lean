import Rtcm3to2p3.Proof.Drives
import Rtcm3to2p3.Proof.Messages

/-!
# Where the corrections come from

The frames of a stream are those of all its chunks, and only become more
(`frames_grow`). The service cannot tell the parser from one that knows only
these (`step_only`), so what its generator has learned (`epochs_learned`) it has
learned of frames that the upstreams sent: `program_epochs`.
-/

namespace Rtcm.Proof

open Rtcm.Impl Rtcm.Spec Transition

variable {K : Type} [Field K] [LinearOrder K] [FloorRing K] [PyMath K]

/-! ## The program -/

variable {parse : Bytes → Option (Msg K)} {float : K → String} {config : Config K}

/-- The chunks of a program only become more. -/
theorem chunks_grow {id : StationId} {p p' : Program K} {e : Program.Event} (h : Wired parse float config id p)
    (hs : p.step parse float config e = some p') (u : Upstream) : p.chunks u <+: p'.chunks u := by
  have hcall : ∀ {v e} {service : Service K} {result}, ((∃ data incoming, e = callOf v data ∧
      (p.links v).stage = .handing data incoming ∧ p.calls v = none) ∨ e = turnOf v ∧ Loops p.service v) →
      p.chunks u <+: Program.chunks { p with service, calls := Function.update p.calls v (some result) } u := by
    intro v e service result he
    obtain ⟨hold, hnew⟩ := chunks_call h service result he
    by_cases hu : u = v
    · subst hu
      rcases hnew with ⟨data, -, hnew⟩ | ⟨-, hnew⟩
      · exact hnew ▸ List.prefix_append _ _
      · exact hnew ▸ List.prefix_rfl
    · exact hold u hu ▸ List.prefix_rfl
  cases advances_step parse float config hs with
  | signal | main | stops | server | caster => exact List.prefix_rfl
  | hands v e data incoming result link hu hp hc ho he hl =>
    exact (chunks_link h hl he (.inl (by rw [hc]; nofun)) u).symm ▸ List.prefix_rfl
  | link v e link hu hp he hl =>
    have hsame := chunks_link h hl he (.inr hp) u
    rw [← h.no_call hp, Function.update_eq_self] at hsame
    exact hsame ▸ List.prefix_rfl
  | calls v data incoming service hp hc => exact hcall (.inl ⟨data, incoming, rfl, hp, hc⟩)
  | turns v result service hl => exact hcall (.inr ⟨rfl, hl⟩)

omit [Field K] [LinearOrder K] [FloorRing K] [PyMath K] in
/-- So do the frames. -/
theorem frames_grow {p p' : Program K} {u : Upstream} (h : p.chunks u <+: p'.chunks u) :
    p.frames u <+: p'.frames u := by
  obtain ⟨chunks, h⟩ := h
  unfold Program.frames
  rw [← h, List.flatten_append, extract_append]
  exact List.prefix_append _ _

/-- The service has run as with a parser of the frames that the upstreams sent. -/
def Sourced (parse : Bytes → Option (Msg K)) (float : K → String) (config : Config K) (id : StationId) (p : Program K) :
    Prop :=
  ∀ obs eph, p.frames .obs ⊆ obs → p.frames .eph ⊆ eph → ∃ es, Transition.run (Service.step (only parse obs eph) float)
    (.init id config.maxIodAgeS config.maxResidualM config.rtcm3Info config.rtcm23Info) es = some p.service

theorem sourced_step {id : StationId} {p p' : Program K} {e : Program.Event} (hw : Wired parse float config id p)
    (h : Sourced parse float config id p) (hs : p.step parse float config e = some p') :
    Sourced parse float config id p' := by
  intro obs eph hobs heph
  have hgrow : ∀ u, p.frames u ⊆ p'.frames u := fun u => (frames_grow (chunks_grow hw hs u)).subset
  have hthen := h obs eph (fun _ hf => hobs (hgrow .obs hf)) fun _ hf => heph (hgrow .eph hf)
  have hservice : ∀ {e s}, p.service.step parse float e = some s →
      ∃ es, Transition.run (Service.step (only parse obs eph) float)
        (.init id config.maxIodAgeS config.maxResidualM config.rtcm3Info config.rtcm23Info) es = some s := by
    intro e s hs
    obtain ⟨es, hthen⟩ := hthen
    refine ⟨es ++ [e], run_append_of hthen (run_cons_of ?_ rfl)⟩
    rw [step_only parse float p.service e (fun frame hf => hobs (hgrow .obs ((hw.cut .obs).2 frame hf)))
      (fun frame hf => heph (hgrow .eph ((hw.cut .eph).2 frame hf)))]
    exact hs
  cases advances_step parse float config hs with
  | signal | main | hands | link => exact hthen
  | stops service hp hc => exact hservice hc
  | server i server server' outcome service hi hl hc =>
    rcases hc with ⟨incoming, -, hc⟩ | ⟨-, rfl⟩
    · exact hservice hc
    · exact hthen
  | calls u data incoming service hp hnone hc => exact hservice hc
  | turns u result service hl hc => exact hservice hc
  | caster e service hconnects hstop hc => exact hservice hc

/-- In every run of the program, however its connections break: each epoch that
is sent has the corrections of a frame of observations, at a station, by
ephemerides and the raw corrections of earlier epochs, all of them of frames of
what the upstreams have sent: the observations and the station the one, the
ephemerides the other. -/
theorem program_epochs {p₀ p : Program K} {es : List Program.Event} (hnew : Program.new config = .ok p₀)
    (h : Transition.run (Program.step parse float config) p₀ es = some p) :
    ∀ e ∈ p.service.epochs, ∃ (pseudoranges : Dict Int K) (gen : DgpsGenerator K),
      Observed parse (p.frames .obs) e.tow pseudoranges ∧ Stationed parse (p.frames .obs) e.base ∧
      Learned parse (p.frames .obs) (p.frames .eph) config.maxIodAgeS config.maxResidualM gen ∧
      gen.base = some e.base ∧ Alike (gen.corrections e.tow pseudoranges).1 (.ok e.corrections) := by
  intro e he
  obtain ⟨id, -, rfl⟩ := new_eq_ok hnew
  have hstart : Wired parse float config id (.start config id) ∧ Sourced parse float config id (.start config id) :=
    ⟨wired_start id, fun _ _ _ _ => ⟨[], rfl⟩⟩
  obtain ⟨-, hp⟩ := keeps (I := fun p => Wired parse float config id p ∧ Sourced parse float config id p)
    (fun _ _ _ hs hI => ⟨wired_step hs hI.1, sourced_step hI.1 hI.2 hs⟩) h hstart
  obtain ⟨es', h'⟩ := hp _ _ (List.Subset.refl _) (List.Subset.refl _)
  obtain ⟨prs, gen, hobserved, hlearned, hb, ha⟩ := epochs_learned h' e he
  exact ⟨prs, gen, hobserved, hlearned.base e.base hb, hlearned, hb, ha⟩

/-- The default configuration, but for the thresholds. -/
def thresholds (maxIodAgeS maxResidualM : K) : Config K := { maxIodAgeS, maxResidualM }

theorem program_epochs_one : ∃ (p : Program ℝ) (e : Epoch ℝ), e ∈ p.service.epochs ∧
    Stationed parseBoth (p.frames .obs) e.base := by
  let config : Config ℝ := thresholds 7200 100
  obtain ⟨es, s, h, hne, -, -, hcalls, hown⟩ := run_oneEpoch_calls config.rtcm3Info config.rtcm23Info fun _ => ""
  have hsizes : ∀ call ∈ bothFrames ++ [(Upstream.obs, observedFrame)], call.2 ≠ [] ∧ call.2.length ≤ 4096 := by decide
  have hes : ∀ e ∈ es, (∀ call, e.called = some call → call.2 ≠ [] ∧ call.2.length ≤ 4096) ∧ e ≠ .caster .stop := by
    refine fun e he => ⟨fun call hc => hsizes call ?_, fun hstop => ?_⟩
    · rw [← hcalls]
      exact List.mem_filterMap.mpr ⟨e, he, hc⟩
    · cases hstop ▸ hown e he
  have hlisten : config.listenAddresses ≠ [] := List.cons_ne_nil _ _
  obtain ⟨es', p, h', rfl⟩ : ∃ es p, Transition.run (Program.step parseBoth (fun _ => "") config)
      (.start config ⟨1023, stationId_default⟩) es = some p ∧ p.service = s :=
    run_serves ⟨1023, stationId_default⟩ hlisten h hes
  obtain ⟨e, he⟩ := List.exists_mem_of_ne_nil _ hne
  have hnew : Program.new config = .ok (.start config ⟨1023, stationId_default⟩) := rfl
  obtain ⟨-, -, -, hstationed, -⟩ := program_epochs hnew h' e he
  exact ⟨p, e, he, hstationed⟩

end Rtcm.Proof
