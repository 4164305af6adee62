import Rtcm3to2p3.Proof.Cadence
import Rtcm3to2p3.Proof.Learning
import Rtcm3to2p3.Proof.Precision

/-!
# The messages of the service

What the messages carry does not depend on how the threads take their steps. The
station and the limit of the residuals of the generator change only with the
frames (`gen_step`), so the epochs of the service are `Gated` and `Placed` as
those of a converter are, and its messages carry them (`service_carries`), in
the cadence of the station (`service_cadence`).
-/

namespace Rtcm.Proof

open Rtcm.Impl Rtcm.Spec Transition

variable {K : Type} [Field K] [LinearOrder K] [FloorRing K] [PyMath K]

/-! ## Epochs and their messages -/

/-- For each message what there is one of for each epoch. -/
def tags {α β : Type} (xs : List α) (mss : List (List β)) : List α :=
  (List.zipWith (fun x ms => ms.map fun _ => x) xs mss).flatten

theorem tags_sublist {α β : Type} {xs : List α} {mss : List (List β)} (h : ∀ ms ∈ mss, ms.length ≤ 2) :
    (tags xs mss).Sublist (xs.flatMap fun x => [x, x]) := by
  induction xs generalizing mss with
  | nil => exact List.Sublist.refl _
  | cons x xs ih =>
    cases mss with
    | nil => exact List.nil_sublist _
    | cons ms mss =>
      obtain ⟨hms, hmss⟩ := List.forall_mem_cons.mp h
      simp only [tags, List.zipWith_cons_cons, List.flatten_cons, List.flatMap_cons]
      refine List.Sublist.append ?_ (ih hmss)
      rw [List.map_const']
      exact (List.replicate_sublist_replicate x).mpr hms

theorem map_tags {α α' β : Type} (f : α → α') (xs : List α) (mss : List (List β)) :
    (tags xs mss).map f = tags (xs.map f) mss := by
  rw [tags, tags, List.map_flatten, List.map_zipWith, List.zipWith_map_left]
  simp only [List.map_map]
  rfl

theorem tags_comm {α β : Type} (xs : List α) (mss : List (List β)) :
    tags xs mss = (List.zipWith (fun ms x => ms.map fun _ => x) mss xs).flatten := by
  rw [tags, List.zipWith_comm]

omit [PyMath K] in
theorem run_length_le (s : Sender K) (es : List (Epoch K)) : ∀ ms ∈ (s.run es).1, ms.length ≤ 2 := by
  induction es generalizing s with
  | nil => exact fun _ hm => nomatch hm
  | cons e es ih => exact List.forall_mem_cons.mpr ⟨length_epoch_le s e, ih _⟩

omit [PyMath K] in
theorem length_sent (s : Sender K) (es : List (Epoch K)) : (s.run es).1.length = es.length := by
  induction es generalizing s with
  | nil => rfl
  | cons e es ih => exact congrArg (· + 1) (ih _)

/-- A message of an epoch: its corrections, or its station. -/
def MessageOf (id : StationId) (e : Epoch K) (m : Message) : Prop :=
  ∃ seq, m = (Call.type1 id.val (modifiedZcount e.tow) seq 0 e.corrections).message ∨
    m = (Call.type3 id.val (modifiedZcount e.tow) seq 0 e.base : Call K).message

omit [PyMath K] in
theorem EpochStep.messageOf {s s' : Sender K} {e : Epoch K} {enc : Rtcm2Encoder} {calls : List (Call K)}
    (h : EpochStep s e enc calls s') : ∀ c ∈ calls, MessageOf s.stationId e c.message := by
  have h1 : ∀ q, MessageOf s.stationId e (s.type1 e q).message := fun q => ⟨q, .inl rfl⟩
  have h3 : ∀ q, MessageOf s.stationId e (s.type3 e q).message := fun q => ⟨q, .inr rfl⟩
  cases h with
  | corrections => exact List.forall_mem_singleton.mpr (h1 _)
  | nothing | unplaced => exact fun c hc => absurd hc List.not_mem_nil
  | both => exact List.forall_mem_cons.mpr ⟨h3 _, List.forall_mem_singleton.mpr (h1 _)⟩
  | station => exact List.forall_mem_singleton.mpr (h3 _)

omit [PyMath K] in
/-- Each message is one of its epoch, by induction on the epochs. -/
theorem run_messageOf (es : List (Epoch K)) {s : Sender K} (hs : Seeded s.encoder) :
    List.Forall₂ (MessageOf s.stationId) (tags es (s.run es).1) ((s.run es).1.flatten.map fun m => m.1.message) := by
  induction es generalizing s with
  | nil => exact .nil
  | cons e es ih =>
    obtain ⟨enc, henc, -, hstep⟩ := epoch_step hs e
    have hrest := ih (epoch_seeded hs e)
    rw [hstep.counts.1] at hrest
    simp only [Sender.run, tags, List.zipWith_cons_cons, List.flatten_cons, List.map_append]
    refine List.rel_append ?_ hrest
    rw [List.forall₂_map_left_iff, List.forall₂_map_right_iff, List.forall₂_same]
    exact fun m hm => hstep.messageOf m.1 (List.mem_map_of_mem hm)

theorem exists_of_forall₂ {α β : Type} {R : α → β → Prop} {xs : List α} {ys : List β} (h : List.Forall₂ R xs ys) :
    ∀ y ∈ ys, ∃ x ∈ xs, R x y := by
  induction h with
  | nil => exact fun y hy => absurd hy List.not_mem_nil
  | cons hxy _ ih =>
    refine List.forall_mem_cons.mpr ⟨⟨_, List.mem_cons_self, hxy⟩, fun y hy => ?_⟩
    obtain ⟨x, hx, hr⟩ := ih y hy
    exact ⟨x, List.mem_cons_of_mem _ hx, hr⟩

omit [FloorRing K] in
/-- Corrections that are those of a table, but for the issues of data. -/
theorem alike_gated {gen : DgpsGenerator K} (hm : gen.maxResidualM = 100) {e : Epoch K} (hb : gen.base = some e.base)
    {prs : Dict Int K} (h : Alike (gen.corrections e.tow prs).1 (.ok e.corrections)) : Gated e := by
  generalize hc : (gen.corrections e.tow prs).1 = result at h
  cases h with
  | returned out _ hout =>
    obtain ⟨raw, hr⟩ := rawCorrections_of_corrections hb hc
    rw [corrections_ok hb hr] at hc
    obtain rfl := Except.ok.inj hc
    refine ⟨?_, fun c hc => ?_⟩
    · have hmap : e.corrections.map Correction.prn =
          (raw.sorted.filterMap (emitted gen (gen.offsets e.tow raw))).map Correction.prn := by
        refine (List.forall₂_eq_eq_eq ▸ ?_ : _ = _).symm
        rw [List.forall₂_map_left_iff, List.forall₂_map_right_iff]
        exact hout.imp fun c c' h => by rw [h]
      have hpair := pairwise_emitted gen (gen.offsets e.tow raw) raw
      rw [← List.pairwise_map (f := Correction.prn)] at hpair ⊢
      rwa [hmap]
    · obtain ⟨c', hc', hre⟩ := exists_of_forall₂ hout c hc
      obtain ⟨x, -, hx⟩ := List.mem_filterMap.mp hc'
      obtain ⟨-, -, hkept, -, hprc, -⟩ := emitted_eq_some hx
      rw [show c.prc = c'.prc by rw [hre], hprc, ← hm]
      exact hkept

/-! ## The service's epochs -/

section

variable {parse : Bytes → Option (Msg K)} {float : K → String} {id : StationId} {maxIodAgeS maxResidualM : K}
  {rtcm3 rtcm23 : MountInfo K} {es : List Service.Event} {s : Service K}

/-- What frames keep of the generator holds when an epoch's call starts. -/
theorem epochs_generator {P : DgpsGenerator K → Prop} (hprev : ∀ gen prev, P gen → P { gen with prev })
    (hstation : ∀ gen frame m, parse frame = some (.station m) → P gen → P (gen.setStation (parseStation m)))
    (heph : ∀ gen frame m, parse frame = some (.gpsEphemeris m) → P gen → P (gen.addEphemeris (parseEphemeris m)))
    (hnew : P (Converter.new id maxIodAgeS maxResidualM).gen)
    (h : Transition.run (Service.step parse float) (.init id maxIodAgeS maxResidualM rtcm3 rtcm23) es = some s) :
    ∀ e ∈ s.epochs, ∃ gen prs table, P gen ∧ gen.base = some e.base ∧
      Alike ((withTable gen table).corrections e.tow prs).1 (.ok e.corrections) := by
  intro e he
  obtain ⟨start, gen, prs, events, ⟨⟨es₀, h₀⟩, -⟩, hcall, hbase⟩ := (corrects_run float _ rfl rfl h).epochs e he
  exact ⟨start.conv.gen, prs, _, keeps (I := fun s : Service K => P s.conv.gen)
    (gen_step hprev hstation heph) h₀ hnew, hbase, (interleaved_alike hcall.phase).1⟩

theorem service_gated
    (h : Transition.run (Service.step parse float) (.init id maxIodAgeS 100 rtcm3 rtcm23) es = some s) :
    ∀ e ∈ s.epochs, Gated e := by
  intro e he
  obtain ⟨gen, prs, table, hm, hb, ha⟩ := epochs_generator (P := fun gen => gen.maxResidualM = 100)
    (fun _ _ h => h) (fun _ _ _ _ h => h) (fun _ _ _ _ h => h) rfl h e he
  exact @alike_gated _ _ _ _ (withTable gen table) hm e hb prs ha

theorem service_placed [IsStrictOrderedRing K] (hp : ∀ frame m, parse frame = some m → MsgOk m)
    (h : Transition.run (Service.step parse float) (.init id maxIodAgeS maxResidualM rtcm3 rtcm23) es = some s) :
    ∀ e ∈ s.epochs, Placed e := by
  have hstation : ∀ (gen : DgpsGenerator K) frame m, parse frame = some (.station m) →
      ∀ base, (gen.setStation (parseStation m)).base = some base →
        CoordOk base.1 ∧ CoordOk base.2.1 ∧ CoordOk base.2.2 := by
    intro gen frame m hf base hb
    obtain rfl := Option.some.inj hb
    have hcoord : ∀ x ∈ [m.DF025, m.DF026, m.DF027], CoordOk x := fun x hx => by
      obtain ⟨n, hl, hu, rfl⟩ := hp frame _ hf x hx
      exact coordOk_station hl hu
    exact ⟨hcoord _ (by simp [parseStation]), hcoord _ (by simp [parseStation]), hcoord _ (by simp [parseStation])⟩
  intro e he
  obtain ⟨gen, prs, table, hg, hb, -⟩ := epochs_generator
    (P := fun gen => ∀ base, gen.base = some base → CoordOk base.1 ∧ CoordOk base.2.1 ∧ CoordOk base.2.2)
    (fun _ _ h => h) (fun gen frame m hf _ => hstation gen frame m hf) (fun _ _ _ _ h => h) (fun base hb => by cases hb)
    h e he
  exact hg e.base hb

theorem service_isTow [IsStrictOrderedRing K] (hp : ∀ frame m, parse frame = some m → MsgOk m)
    (h : Transition.run (Service.step parse float) (.init id maxIodAgeS maxResidualM rtcm3 rtcm23) es = some s)
    (hweek : ∀ e ∈ s.epochs, e.tow < 604800) : ∀ e ∈ s.epochs, IsTow e.tow := by
  intro e he
  obtain ⟨start, gen, prs, events, -, hcall, -⟩ := (corrects_run float _ rfl rfl h).epochs e he
  obtain ⟨frame, frames, msg, -, hf, hm⟩ := hcall.frame
  exact isTow_of_parse (hp frame _ hf) hm (hweek e he)

end

/-! ## What the messages carry -/

/-- In any order of the threads' steps, with `max_residual_m = 100`: what has
been published on the RTCM 2.3 feed decodes, without a violation, to messages of
the epochs in their order, at most two of each, and each Type 1 message carries
the corrections of its epoch. -/
theorem service_carries [IsStrictOrderedRing K] (parse : Bytes → Option (Msg K)) (id : StationId) (maxIodAgeS : K)
    (rtcm3 rtcm23 : MountInfo K) {float : K → String} {es : List Service.Event} {s : Service K}
    (h : Transition.run (Service.step parse float) (.init id maxIodAgeS 100 rtcm3 rtcm23) es = some s) :
    let d := decodeStream false false (s.caster.published 1).flatten
    d.violations = 0 ∧ d.rest = [] ∧ ∃ sources : List (Epoch K), sources.Sublist (s.epochs.flatMap fun e => [e, e]) ∧
      List.Forall₂ (fun e m => m.type = 3 ∨ Type1Carries id e m) sources d.messages := by
  intro d
  obtain ⟨-, hd⟩ := published_decodes (delivers_run parse id maxIodAgeS 100 rtcm3 rtcm23 h)
  obtain ⟨hcarries, -⟩ := run_carries (service_gated h) (s := senderOf (.new id maxIodAgeS 100)) ⟨false, false, rfl⟩
  have hd : d = _ := hd
  rw [hd]
  refine ⟨rfl, rfl, (tags s.epochs ((senderOf (.new id maxIodAgeS 100)).run s.epochs).1).take
    (s.caster.published 1).length, ?_, ?_⟩
  · exact (List.take_sublist _ _).trans (tags_sublist (run_length_le _ _))
  · dsimp only
    rw [List.map_take]
    exact List.forall₂_take _ hcarries

theorem service_carries_one : ∃ (s : Service ℝ) (sources : List (Epoch ℝ)), s.epochs ≠ [] ∧
    List.Forall₂ (fun e m => m.type = 3 ∨ Type1Carries ⟨1023, by decide⟩ e m) sources
      (decodeStream false false (s.caster.published 1).flatten).messages := by
  obtain ⟨es, s, h, hne⟩ := run_oneEpoch { mount := "RTCM3", lat := 0, lon := 0 }
    { mount := "RTCM23", lat := 0, lon := 0 } fun _ => ""
  obtain ⟨-, -, sources, -, hcarries⟩ := service_carries parseBoth ⟨1023, by decide⟩ 7200 _ _ h
  exact ⟨s, sources, hne, hcarries⟩

/-! ## When they are sent -/

omit [FloorRing K] [PyMath K] in
theorem cadence_take {interval : K} {L : List (K × Nat)} (h : Cadence interval L) (n : Nat) :
    Cadence interval (L.take n) := by
  have hget : ∀ {i j : Nat} {x y : K × Nat}, (L.take n)[i]? = some x → j < i → L[j]? = some y →
      (L.take n)[j]? = some y := by
    intro i j x y hi hj hy
    have hlt := (List.getElem?_eq_some_iff.mp hi).1
    rw [List.length_take] at hlt
    rw [List.getElem?_take_of_lt (by omega), hy]
  have hmem : ∀ {i : Nat} {x : K × Nat}, (L.take n)[i]? = some x → L[i]? = some x := by
    intro i x hi
    have hlt := (List.getElem?_eq_some_iff.mp hi).1
    rw [List.length_take] at hlt
    rwa [List.getElem?_take_of_lt (by omega)] at hi
  refine ⟨fun i t hi => ?_, ?_, fun i t hi => ?_⟩
  · obtain ⟨j, hj, s, hs⟩ := h.first i t (hmem hi)
    exact ⟨j, hj, s, hget hi hj hs⟩
  · have hprefix := ((List.take_prefix n L).filter fun x => x.2 = 3).map Prod.fst
    exact h.apart.prefix hprefix
  · obtain ⟨j, hj, s, hs, hr⟩ := h.recent i t (hmem hi)
    exact ⟨j, hj, s, hget hi hj hs, hr⟩

/-- In any order of the threads' steps, if the epochs that are sent are at the
absolute `times`, which advance by less than a week less a minute: each message
published on the RTCM 2.3 feed is its epoch's, with the epoch's time, and if the
times of week are below a week, the station comes before the first corrections,
at most once in 60 s, and at most 60 s before any corrections. If no epoch is
refused the messages are numbered from 1 on, modulo 8. -/
theorem service_cadence [IsStrictOrderedRing K] {parse : Bytes → Option (Msg K)}
    (hp : ∀ frame m, parse frame = some m → MsgOk m) (id : StationId) (maxIodAgeS maxResidualM : K)
    (rtcm3 rtcm23 : MountInfo K) {float : K → String} {es : List Service.Event} {s : Service K}
    (h : Transition.run (Service.step parse float) (.init id maxIodAgeS maxResidualM rtcm3 rtcm23) es = some s)
    (times : List K)
    (htow : List.Forall₂ (fun (e : Epoch K) t => ∃ n : ℤ, t = e.tow + 604800 * n) s.epochs times)
    (hsteps : times.IsChain fun s t => 0 ≤ t - s ∧ t - s < 604740) :
    let messages := (decodeStream false false (s.caster.published 1).flatten).messages
    (∃ sources : List (Epoch K × K), sources.Sublist ((s.epochs.zip times).flatMap fun x => [x, x]) ∧
      List.Forall₂ (fun x m => MessageOf id x.1 m) sources messages ∧
      ((∀ e ∈ s.epochs, e.tow < 604800) → Cadence 60 ((sources.map Prod.snd).zip (messages.map Message.type)))) ∧
    ((∀ e ∈ s.epochs, Fits e) → messages.map Message.seq = (List.range messages.length).map fun k => (k + 1) % 8) := by
  intro messages
  obtain ⟨-, hd⟩ := published_decodes (delivers_run parse id maxIodAgeS maxResidualM rtcm3 rtcm23 h)
  have hmessages : messages = _ := congrArg Decoded.messages hd
  have hplaced := service_placed hp h
  have htow' : List.Forall₂ (fun (e : Epoch K) t => ∃ n : ℤ, t = e.tow + WEEK_S * n) s.epochs times := by
    refine htow.imp fun e t he => ?_
    norm_num [WEEK_S]
    exact he
  have hlong : (604740 : K) = WEEK_S - TYPE3_INTERVAL_S := by norm_num [WEEK_S, TYPE3_INTERVAL_S]
  rw [hlong] at hsteps
  have hcadence := fun hweek => run_cadence htow' hsteps hplaced (service_isTow hp h hweek)
    (s := senderOf (.new id maxIodAgeS maxResidualM)) ⟨false, false, rfl⟩ (fun t _ => .inl ⟨rfl, rfl⟩) cadence_nil
  have hof := run_messageOf s.epochs (s := senderOf (.new id maxIodAgeS maxResidualM)) ⟨false, false, rfl⟩
  have hnumbered : (∀ e ∈ s.epochs, Fits e) → Numbered 0 _ _ := fun hf =>
    run_numbered (fun e he => ⟨hplaced e he, hf e he⟩) (s := senderOf (.new id maxIodAgeS maxResidualM))
      ⟨false, false, rfl⟩
  have hlen := (length_sent (senderOf (.new id maxIodAgeS maxResidualM)) s.epochs).trans htow.length_eq
  rw [hmessages, List.map_take]
  refine ⟨⟨(tags (s.epochs.zip times) ((senderOf (.new id maxIodAgeS maxResidualM)).run s.epochs).1).take
    (s.caster.published 1).length, ?_, List.forall₂_take _ ?_, ?_⟩, fun hf => ?_⟩
  · exact (List.take_sublist _ _).trans (tags_sublist (run_length_le _ _))
  · refine List.forall₂_map_left_iff (f := Prod.fst) |>.mp ?_
    rw [map_tags, List.map_fst_zip htow.length_eq.le]
    exact hof
  · intro hweek
    specialize hcadence hweek
    rw [List.map_take, map_tags, List.map_snd_zip htow.length_eq.ge, List.map_take, List.map_map, List.zip,
      ← List.take_zipWith, show (60 : K) = TYPE3_INTERVAL_S by norm_num [TYPE3_INTERVAL_S]]
    refine cadence_take ?_ _
    rw [List.nil_append, ← (zip_timed hlen).2] at hcadence
    rw [tags_comm]
    exact hcadence
  · have hseqs := (hnumbered hf).seqs
    rw [List.map_map, List.length_map] at hseqs
    rw [List.map_take, List.map_map, List.length_take, List.length_map]
    refine (congrArg (List.take _) hseqs).trans ?_
    rw [← List.map_take, List.take_range]
    simp only [Nat.zero_add]
    rfl

/-- Both satellites are observed at 100 s. -/
theorem parseBoth_tow {frame : Bytes} {msg : Msg1077 ℝ} (hf : parseBoth frame = some (.gpsMsm7 msg)) {tow : ℝ}
    {prs : Dict Int ℝ} (hm : parseGpsMsm7 msg = .ok (tow, prs)) : tow = 100 := by
  have hobserved : ∃ prn, msg = observedOf prn := by
    unfold parseBoth at hf
    split_ifs at hf
    all_goals cases hf
    · exact ⟨1, rfl⟩
    · exact ⟨40, rfl⟩
  obtain ⟨prn, rfl⟩ := hobserved
  rw [parse_observedOf] at hm
  have htow := (Prod.mk.inj (Except.ok.inj hm)).1
  rw [← htow]
  norm_num

theorem service_cadence_one : ∃ (s : Service ℝ) (times : List ℝ), s.epochs ≠ [] ∧
    ∃ sources : List (Epoch ℝ × ℝ), sources.Sublist ((s.epochs.zip times).flatMap fun x => [x, x]) ∧
      Cadence 60 ((sources.map Prod.snd).zip
        ((decodeStream false false (s.caster.published 1).flatten).messages.map Message.type)) := by
  obtain ⟨es, s, h, hne⟩ := run_oneEpoch { mount := "RTCM3", lat := 0, lon := 0 }
    { mount := "RTCM23", lat := 0, lon := 0 } fun _ => ""
  have htow : ∀ e ∈ s.epochs, e.tow = 100 := fun e he => by
    obtain ⟨start, gen, prs, events, -, hcall, -⟩ := (corrects_run _ _ rfl rfl h).epochs e he
    obtain ⟨frame, frames, msg, -, hf, hm⟩ := hcall.frame
    exact parseBoth_tow hf hm
  have htimes : List.Forall₂ (fun (e : Epoch ℝ) t => ∃ n : ℤ, t = e.tow + 604800 * n) s.epochs
      (s.epochs.map fun _ => 100) := by
    rw [List.forall₂_map_right_iff, List.forall₂_same]
    exact fun e he => ⟨0, by rw [htow e he]; norm_num⟩
  have hsteps : (s.epochs.map fun _ => (100 : ℝ)).IsChain fun s t => 0 ≤ t - s ∧ t - s < 604740 := by
    rw [List.isChain_map]
    refine List.Pairwise.isChain (List.pairwise_of_forall fun _ _ => ?_)
    norm_num
  obtain ⟨⟨sources, hsources, -, hcadence⟩, -⟩ := service_cadence parseBoth_ok ⟨1023, by decide⟩ 7200 100 _ _ h _
    htimes hsteps
  exact ⟨s, _, hne, sources, hsources, hcadence fun e he => by rw [htow e he]; norm_num⟩

end Rtcm.Proof
