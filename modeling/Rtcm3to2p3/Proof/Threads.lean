import Rtcm3to2p3.Spec.Threads
import Rtcm3to2p3.Proof.Dgps
import Rtcm3to2p3.Proof.Orbit

/-!
# The issue of data of a correction

A call that is not interrupted is `corrections` (`interleaved_turns`). In any
order of the threads' steps, the invariant `Watched` says what each loop has
read: the last loop reads for a satellite the last ephemeris stored since the
first loop read it, or what the first loop read if there was no store
(`watched_interleaved`). So the issue sent is that of the ephemeris the
correction was computed from if and only if that last store, if any, has the
same issue (`iod_interleaved`).
-/

namespace Rtcm.Proof

open Rtcm.Impl Rtcm.Spec

variable {K : Type} [Field K] [LinearOrder K] [PyMath K]

/-! ## An uninterrupted call -/

/-- `n` turns of the observation thread. -/
abbrev turns (tow : K) (call : Threads K) (n : Nat) : Threads K := interleaved tow call (List.replicate n .turn)

theorem turns_one (tow : K) (call : Threads K) : turns tow call 1 = call.turn tow := rfl

theorem turns_succ (tow : K) (call : Threads K) (n : Nat) : turns tow call (n + 1) = turns tow (call.turn tow) n := rfl

theorem turns_add (tow : K) (call : Threads K) (m n : Nat) :
    turns tow call (m + n) = turns tow (turns tow call m) n := by
  rw [turns, List.replicate_add, interleaved, List.foldl_append]
  rfl

/-- The first loop's turns. -/
theorem turns_select (tow : K) (base : K × K × K) (call : Threads K) (todo : List (Int × K)) (raw : Dict Int K)
    (h : call.phase = .select base todo raw) :
    ∃ n, (turns tow call n).gen = call.gen ∧ (turns tow call n).phase =
      match todo.foldlM (fun raw x => call.gen.selectSat base tow raw x.1 x.2 (call.gen.ephemerides.get? x.1)) raw with
      | .error e => .done (.error e)
      | .ok raw => .select base [] raw := by
  induction todo generalizing call raw with
  | nil => exact ⟨0, rfl, h⟩
  | cons x todo ih =>
    obtain ⟨prn, pr⟩ := x
    have hg : (call.turn tow).gen = call.gen := by simp only [Threads.turn, h]
    rw [List.foldlM_cons]
    cases hs : call.gen.selectSat base tow raw prn pr (call.gen.ephemerides.get? prn) with
    | error e => exact ⟨1, hg, by simp only [turns_one, Threads.turn, h, hs, bind_error]⟩
    | ok raw' =>
      obtain ⟨n, hn⟩ := ih (call.turn tow) raw' (by simp only [Threads.turn, h, hs])
      rw [hg] at hn
      exact ⟨n + 1, hn⟩

/-- The second loop's turns. -/
theorem turns_rate (tow : K) (call : Threads K) (raw : Dict Int K) (todo : List (Int × K)) (rawRate : Dict Int K)
    (h : call.phase = .rate raw todo rawRate) :
    ∃ n, (turns tow call n).gen = call.gen ∧ (turns tow call n).phase = .rate raw []
      (todo.foldl (fun rawRate x => DgpsGenerator.rateSat tow rawRate x.1 x.2 (call.gen.prev.get? x.1)) rawRate) := by
  induction todo generalizing call rawRate with
  | nil => exact ⟨0, rfl, h⟩
  | cons x todo ih =>
    have hg : (call.turn tow).gen = call.gen := by simp only [Threads.turn, h]
    obtain ⟨n, hn⟩ := ih (call.turn tow) _ (by simp only [Threads.turn, h]; rfl)
    rw [hg] at hn
    exact ⟨n + 1, hn⟩

omit [PyMath K] in
/-- The last loop does not read the last epochs. -/
theorem emitLoop_prev (gen : DgpsGenerator K) (o : DgpsGenerator.Offsets K) (tow : K) (p prev : Dict Int (K × K))
    (items : List (Int × K)) :
    { gen with prev := p }.emitLoop o tow items prev = gen.emitLoop o tow items prev := by
  induction items generalizing prev with
  | nil => rfl
  | cons x items ih =>
    simp only [DgpsGenerator.emitLoop, ih]
    rfl

/-- The last loop's turns. -/
theorem turns_emit (tow : K) (call : Threads K) (o : DgpsGenerator.Offsets K) (todo : List (Int × K))
    (out : List (Correction K)) (h : call.phase = .emit o todo out) :
    ∃ n, (turns tow call n).gen = { call.gen with prev := (call.gen.emitLoop o tow todo call.gen.prev).2 } ∧
      (turns tow call n).phase = .done ((call.gen.emitLoop o tow todo call.gen.prev).1.map (out ++ ·)) := by
  induction todo generalizing call out with
  | nil =>
    refine ⟨1, ?_⟩
    simp only [turns_one, Threads.turn, h, DgpsGenerator.emitLoop, Except.map, List.append_nil, and_self]
  | cons x todo ih =>
    obtain ⟨prn, value⟩ := x
    have hg : (call.turn tow).gen = { call.gen with prev := call.gen.prev.set prn (tow, value) } := by
      simp only [Threads.turn, h]
    cases he : call.gen.emitSat o prn value (call.gen.ephemerides.get? prn) with
    | error e =>
      refine ⟨1, ?_⟩
      simp only [turns_one, Threads.turn, h, he, DgpsGenerator.emitLoop, Except.map, and_self]
    | ok c =>
      obtain ⟨n, hn⟩ := ih (call.turn tow) (out ++ c.toList) (by simp only [Threads.turn, h, he])
      rw [hg] at hn
      simp only [emitLoop_prev] at hn
      refine ⟨n + 1, ?_⟩
      rw [turns_succ, hn.1, hn.2]
      simp only [DgpsGenerator.emitLoop, he]
      cases (call.gen.emitLoop o tow todo (call.gen.prev.set prn (tow, value))).1 with
      | error e => simp only [Except.map, and_self]
      | ok rest => simp only [Except.map, List.append_assoc, and_self]

/-- The turns after the first loop. -/
theorem turns_selected (tow : K) {call : Threads K} {base : K × K × K} {raw : Dict Int K}
    (h : call.phase = .select base [] raw) (he : raw.items.isEmpty = false) :
    ∃ n, (turns tow call n).gen = { call.gen with
        prev := (call.gen.emitLoop (call.gen.offsets tow raw) tow raw.sorted call.gen.prev).2 } ∧
      (turns tow call n).phase =
        .done (call.gen.emitLoop (call.gen.offsets tow raw) tow raw.sorted call.gen.prev).1 := by
  have hg₁ : (call.turn tow).gen = call.gen := by simp only [Threads.turn, h]
  obtain ⟨n₂, hg₂, hp₂⟩ := turns_rate tow (call.turn tow) raw raw.items ∅
    (by simp only [Threads.turn, h, he, Bool.false_eq_true, if_false])
  rw [hg₁] at hg₂ hp₂
  generalize hc : turns tow (call.turn tow) n₂ = call₂ at hg₂ hp₂
  have hg₃ : (call₂.turn tow).gen = call₂.gen := by simp only [Threads.turn, hp₂]
  obtain ⟨n₄, hg₄, hp₄⟩ := turns_emit tow (call₂.turn tow) (call.gen.offsets tow raw) raw.sorted []
    (by simp only [Threads.turn, hp₂]; rfl)
  rw [hg₃, hg₂] at hg₄ hp₄
  refine ⟨1 + (n₂ + (1 + n₄)), ?_⟩
  rw [turns_add, turns_one, turns_add, hc, turns_add, turns_one, hg₄, hp₄]
  refine ⟨rfl, ?_⟩
  cases (call.gen.emitLoop (call.gen.offsets tow raw) tow raw.sorted call.gen.prev).1 <;> rfl

/-- A call that is not interrupted is `corrections`. -/
theorem interleaved_turns (gen : DgpsGenerator K) (tow : K) (pseudoranges : Dict Int K) :
    ∃ n, (turns tow (.start gen pseudoranges) n).gen = (gen.corrections tow pseudoranges).2 ∧
      (turns tow (.start gen pseudoranges) n).phase = .done (gen.corrections tow pseudoranges).1 := by
  cases hb : gen.base with
  | none =>
    rw [corrections_base_none hb]
    exact ⟨0, rfl, by simp only [turns, interleaved, List.replicate_zero, List.foldl_nil, Threads.start, hb]⟩
  | some base =>
    obtain ⟨n, hg, hp⟩ := turns_select tow base (.start gen pseudoranges) pseudoranges.items ∅
      (by simp only [Threads.start, hb])
    change _ = gen at hg
    change _ = match gen.rawCorrections base tow pseudoranges with | .error e => _ | .ok raw => _ at hp
    rw [DgpsGenerator.corrections, hb]
    dsimp only
    cases hr : gen.rawCorrections base tow pseudoranges with
    | error e =>
      rw [hr] at hp
      exact ⟨n, hg, hp⟩
    | ok raw =>
      rw [hr] at hp
      dsimp only
      cases he : raw.items.isEmpty with
      | true =>
        refine ⟨n + 1, ?_⟩
        rw [turns_add, turns_one]
        simp only [Threads.turn, hp, hg, he, if_true, and_self]
      | false =>
        obtain ⟨m, hm⟩ := turns_selected tow hp he
        rw [hg] at hm
        exact ⟨n + m, by rw [turns_add, if_neg Bool.false_ne_true, ← hb]; exact hm⟩

/-! ## One turn of a loop -/

theorem selectSat_ok {gen : DgpsGenerator K} {base : K × K × K} {tow : K} {raw raw' : Dict Int K} {prn : Int} {pr : K}
    {eph : Option (Ephemeris K)} (h : gen.selectSat base tow raw prn pr eph = .ok raw') :
    raw' = raw ∨ ∃ eph' v, eph = some eph' ∧ Fit gen.maxIodAgeS tow pr eph' ∧
      rawCorrection eph' base tow pr = .ok v ∧ raw' = raw.set prn v := by
  cases eph with
  | none => exact .inl (Except.ok.inj h).symm
  | some eph =>
    simp only [DgpsGenerator.selectSat] at h
    split_ifs at h with h1 h2 h3
    · exact .inl (Except.ok.inj h).symm
    · exact .inl (Except.ok.inj h).symm
    · exact .inl (Except.ok.inj h).symm
    · cases hv : rawCorrection eph base tow pr with
      | error e => rw [hv] at h; cases h
      | ok v =>
        rw [hv] at h
        exact .inr ⟨eph, v, rfl, ⟨not_le.mp h1, not_not.mp h2, not_lt.mp h3⟩, hv, (Except.ok.inj h).symm⟩

omit [PyMath K] in
theorem emitSat_ok {gen : DgpsGenerator K} {o : DgpsGenerator.Offsets K} {prn : Int} {value : K}
    {eph : Option (Ephemeris K)} {c : Option (Correction K)} (h : gen.emitSat o prn value eph = .ok c) :
    c = none ∨ ∃ eph' c', eph = some eph' ∧ c = some c' ∧ c'.prn = prn ∧ c'.prc = value - o.offset ∧
      c'.iod = eph'.iode := by
  unfold DgpsGenerator.emitSat at h
  dsimp only at h
  split_ifs at h with hd
  · exact .inl (Except.ok.inj h).symm
  · cases eph with
    | none => cases h
    | some eph => exact .inr ⟨eph, _, rfl, (Except.ok.inj h).symm, rfl, rfl, rfl⟩

/-! ## What each loop reads -/

section

variable (gen : DgpsGenerator K) (tow : K) (pseudoranges : Dict Int K)

/-- The first loop computed the satellite's raw correction from what it read. -/
def Computed (call : Threads K) (prn : Int) (v : K) : Prop :=
  ∃ base pr eph, gen.base = some base ∧ pseudoranges.get? prn = some pr ∧ call.read prn = some eph ∧
    Fit gen.maxIodAgeS tow pr eph ∧ rawCorrection eph base tow pr = .ok v

/-- The satellite waits for its turn of the last loop. -/
def Waiting (call : Threads K) (prn : Int) (v : K) : Prop :=
  Computed gen tow pseudoranges call prn v ∧
    call.gen.ephemerides.get? prn = (call.stored prn).or (call.read prn)

/-- The correction is of the satellite's raw correction and of what the last
loop read. -/
def Sent (call : Threads K) (offset : K) (c : Correction K) : Prop :=
  (∃ v, Computed gen tow pseudoranges call c.prn v ∧ c.prc = v - offset) ∧
    ∃ eph, (call.stored c.prn).or (call.read c.prn) = some eph ∧ c.iod = eph.iode

/-- The invariant of a call: each satellite's last loop turn is still to come,
and its first behind it. -/
def Watched (call : Threads K) : Prop :=
  call.gen.maxIodAgeS = gen.maxIodAgeS ∧
  match call.phase with
  | .select base todo raw => gen.base = some base ∧ (todo.map Prod.fst).Nodup ∧
    (∀ x ∈ todo, pseudoranges.get? x.1 = some x.2) ∧
    ∀ prn v, raw.get? prn = some v → prn ∉ todo.map Prod.fst ∧ Waiting gen tow pseudoranges call prn v
  | .rate raw _ _ => ∀ prn v, raw.get? prn = some v → Waiting gen tow pseudoranges call prn v
  | .emit o todo out => (todo.map Prod.fst).Nodup ∧ (∀ x ∈ todo, Waiting gen tow pseudoranges call x.1 x.2) ∧
    ∀ c ∈ out, c.prn ∉ todo.map Prod.fst ∧ Sent gen tow pseudoranges call o.offset c
  | .done (.ok out) => ∃ offset, ∀ c ∈ out, Sent gen tow pseudoranges call offset c
  | .done (.error _) => True

end

variable {gen : DgpsGenerator K} {tow : K} {pseudoranges : Dict Int K}

theorem watched_start : Watched gen tow pseudoranges (.start gen pseudoranges) := by
  refine ⟨rfl, ?_⟩
  cases hb : gen.base with
  | none => simp only [Threads.start, hb]; exact ⟨0, fun c hc => absurd hc List.not_mem_nil⟩
  | some base =>
    simp only [Threads.start, hb]
    exact ⟨trivial, pseudoranges.nodup, fun x hx => Dict.mem_items.mp hx, Dict.forall_get?_empty⟩

/-- A step that leaves what was read and stored of a satellite as it was. -/
theorem Waiting.congr {call call' : Threads K} {prn : Int} {v : K} (h : Waiting gen tow pseudoranges call prn v)
    (hr : call'.read prn = call.read prn) (hs : call'.stored prn = call.stored prn)
    (ht : call'.gen.ephemerides.get? prn = call.gen.ephemerides.get? prn) :
    Waiting gen tow pseudoranges call' prn v := by
  simp only [Waiting, Computed, hr, hs, ht] at h ⊢
  exact h

theorem Sent.congr {call call' : Threads K} {offset : K} {c : Correction K} (h : Sent gen tow pseudoranges call offset c)
    (hr : call'.read c.prn = call.read c.prn) (hs : call'.stored c.prn = call.stored c.prn) :
    Sent gen tow pseudoranges call' offset c := by
  simp only [Sent, Computed, hr, hs] at h ⊢
  exact h

/-- A turn of the first loop: the satellite's ephemeris is read. -/
theorem Watched.turn_select {g : DgpsGenerator K} {base : K × K × K} {prn : Int} {pr : K} {todo : List (Int × K)}
    {raw : Dict Int K} {read stored : Int → Option (Ephemeris K)}
    (h : Watched gen tow pseudoranges ⟨g, .select base ((prn, pr) :: todo) raw, read, stored⟩) :
    Watched gen tow pseudoranges (Threads.turn tow ⟨g, .select base ((prn, pr) :: todo) raw, read, stored⟩) := by
  obtain ⟨hmax, hb, hn, ht, hw⟩ := h
  rw [List.map_cons, List.nodup_cons] at hn
  refine ⟨hmax, ?_⟩
  cases hs : g.selectSat base tow raw prn pr (g.ephemerides.get? prn) with
  | error e => simp only [Threads.turn, hs]
  | ok raw' =>
    simp only [Threads.turn, hs]
    refine ⟨hb, hn.2, fun x hx => ht x (List.mem_cons_of_mem _ hx), fun p v hv => ?_⟩
    -- What was in the table of the raw corrections was read before.
    have hold : raw.get? p = some v → p ∉ todo.map Prod.fst ∧
        Waiting gen tow pseudoranges (Threads.turn tow ⟨g, .select base ((prn, pr) :: todo) raw, read, stored⟩) p v := by
      intro hp
      obtain ⟨hnot, hwait⟩ := hw p v hp
      rw [List.map_cons, List.mem_cons, not_or] at hnot
      exact ⟨hnot.2, hwait.congr (Function.update_of_ne hnot.1 _ _) (Function.update_of_ne hnot.1 _ _) rfl⟩
    rcases selectSat_ok hs with rfl | ⟨eph, w, he, hf, hw', rfl⟩
    · exact hold hv
    · by_cases hp : p = prn
      · subst hp
        rw [Dict.get?_set_self] at hv
        obtain rfl := Option.some.inj hv
        refine ⟨hn.1, ⟨base, pr, eph, hb, ht _ List.mem_cons_self, ?_, hmax ▸ hf, hw'⟩, ?_⟩
        · exact (Function.update_self ..).trans he
        · simp only [Function.update_self, Option.none_or]
      · rw [Dict.get?_set_ne _ _ hp] at hv
        exact hold hv

/-- A turn of the last loop: what the satellite waited with is sent. -/
theorem Watched.turn_emit {g : DgpsGenerator K} {o : DgpsGenerator.Offsets K} {prn : Int} {value : K}
    {todo : List (Int × K)} {out : List (Correction K)} {read stored : Int → Option (Ephemeris K)}
    (h : Watched gen tow pseudoranges ⟨g, .emit o ((prn, value) :: todo) out, read, stored⟩) :
    Watched gen tow pseudoranges (Threads.turn tow ⟨g, .emit o ((prn, value) :: todo) out, read, stored⟩) := by
  obtain ⟨hmax, hn, hw, hout⟩ := h
  rw [List.map_cons, List.nodup_cons] at hn
  refine ⟨hmax, ?_⟩
  cases he : g.emitSat o prn value (g.ephemerides.get? prn) with
  | error e => simp only [Threads.turn, he]
  | ok c =>
    simp only [Threads.turn, he]
    refine ⟨hn.2, fun x hx => hw x (List.mem_cons_of_mem _ hx), fun c' hc' => ?_⟩
    rcases List.mem_append.mp hc' with hc' | hc'
    · obtain ⟨hnot, hsent⟩ := hout c' hc'
      rw [List.map_cons, List.mem_cons, not_or] at hnot
      exact ⟨hnot.2, hsent⟩
    · rcases emitSat_ok he with rfl | ⟨eph, c, hread, rfl, hprn, hprc, hiod⟩
      · cases hc'
      · obtain rfl := Option.mem_some.mp (Option.mem_toList.mp hc')
        obtain ⟨hcomp, htable⟩ := hw _ List.mem_cons_self
        rw [hprn]
        refine ⟨hn.1, ⟨value, ?_, hprc⟩, eph, ?_, hiod⟩
        · rw [hprn]; exact hcomp
        · rw [hprn]; exact htable.symm.trans hread

/-- A turn of the observation thread keeps the invariant. -/
theorem Watched.turn {call : Threads K} (h : Watched gen tow pseudoranges call) :
    Watched gen tow pseudoranges (call.turn tow) := by
  obtain ⟨g, phase, read, stored⟩ := call
  cases phase with
  | select base todo raw =>
    cases todo with
    | cons x todo => exact h.turn_select
    | nil =>
      obtain ⟨hmax, -, -, -, hw⟩ := h
      refine ⟨hmax, ?_⟩
      cases he : raw.items.isEmpty with
      | true => simp only [Threads.turn, he, if_true]; exact ⟨0, fun c hc => absurd hc List.not_mem_nil⟩
      | false =>
        simp only [Threads.turn, he, Bool.false_eq_true, if_false]
        exact fun prn v hv => (hw prn v hv).2
  | rate raw todo rawRate =>
    obtain ⟨hmax, h⟩ := h
    cases todo with
    | nil =>
      exact ⟨hmax, Dict.nodup_sorted raw, fun x hx => h x.1 x.2 (Dict.mem_sorted.mp hx),
        fun c hc => absurd hc List.not_mem_nil⟩
    | cons x todo => exact ⟨hmax, h⟩
  | emit o todo out =>
    cases todo with
    | nil => exact ⟨h.1, o.offset, fun c hc => (h.2.2.2 c hc).2⟩
    | cons x todo => exact h.turn_emit
  | done result => exact h

theorem Waiting.store {call : Threads K} {prn : Int} {v : K} (h : Waiting gen tow pseudoranges call prn v)
    (ha : call.phase.awaits prn = true) (eph : Ephemeris K) :
    Waiting gen tow pseudoranges (call.store eph) prn v := by
  by_cases hp : prn = eph.prn
  · subst hp
    refine ⟨h.1, ?_⟩
    simp only [Threads.store, DgpsGenerator.addEphemeris, Dict.get?_set_self, ha, if_true, Function.update_self]
    rfl
  · refine h.congr rfl ?_ (Dict.get?_set_ne _ _ hp)
    simp only [Threads.store]
    split
    · exact Function.update_of_ne hp _ _
    · rfl

theorem Sent.store {call : Threads K} {offset : K} {c : Correction K} (h : Sent gen tow pseudoranges call offset c)
    (ha : call.phase.awaits c.prn = false) (eph : Ephemeris K) :
    Sent gen tow pseudoranges (call.store eph) offset c := by
  refine h.congr rfl ?_
  simp only [Threads.store]
  split
  · rename_i hs
    refine Function.update_of_ne (fun hp => ?_) _ _
    rw [← hp, ha] at hs
    cases hs
  · rfl

/-- A store of the ephemeris thread keeps the invariant. -/
theorem Watched.store {call : Threads K} (h : Watched gen tow pseudoranges call) (eph : Ephemeris K) :
    Watched gen tow pseudoranges (call.store eph) := by
  obtain ⟨g, phase, read, stored⟩ := call
  obtain ⟨hmax, h⟩ := h
  refine ⟨hmax, ?_⟩
  cases phase with
  | select base todo raw =>
    obtain ⟨hb, hn, ht, hw⟩ := h
    exact ⟨hb, hn, ht, fun prn v hv => ⟨(hw prn v hv).1, (hw prn v hv).2.store rfl eph⟩⟩
  | rate raw todo rawRate => exact fun prn v hv => (h prn v hv).store rfl eph
  | emit o todo out =>
    obtain ⟨hn, hw, hout⟩ := h
    refine ⟨hn, fun x hx => (hw x hx).store ?_ eph, fun c hc => ⟨(hout c hc).1, (hout c hc).2.store ?_ eph⟩⟩
    · exact List.any_eq_true.mpr ⟨x, hx, beq_self_eq_true _⟩
    · refine List.any_eq_false.mpr fun x hx he => (hout c hc).1 ?_
      exact List.mem_map.mpr ⟨x, hx, eq_of_beq he⟩
  | done result =>
    cases result with
    | error e => trivial
    | ok out =>
      obtain ⟨offset, hout⟩ := h
      exact ⟨offset, fun c hc => (hout c hc).store rfl eph⟩

theorem watched_interleaved (gen : DgpsGenerator K) (tow : K) (pseudoranges : Dict Int K) (events : List (Event K)) :
    Watched gen tow pseudoranges (interleaved tow (.start gen pseudoranges) events) := by
  have hrun : ∀ call, Watched gen tow pseudoranges call → Watched gen tow pseudoranges (interleaved tow call events) := by
    induction events with
    | nil => exact fun call h => h
    | cons event events ih =>
      intro call h
      cases event with
      | turn => exact ih _ h.turn
      | store eph => exact ih _ (h.store eph)
  exact hrun _ watched_start

theorem Watched.sent {call : Threads K} (h : Watched gen tow pseudoranges call) :
    ∃ offset, ∀ c ∈ call.emitted, Sent gen tow pseudoranges call offset c := by
  obtain ⟨g, phase, read, stored⟩ := call
  obtain ⟨-, h⟩ := h
  rcases phase with _ | _ | ⟨o, todo, out⟩ | (e | out)
  · exact ⟨0, fun c hc => nomatch hc⟩
  · exact ⟨0, fun c hc => nomatch hc⟩
  · exact ⟨o.offset, fun c hc => (h.2.2 c hc).2⟩
  · exact ⟨0, fun c hc => nomatch hc⟩
  · exact h

/-- In any order of the threads' steps, each correction is of the ephemeris
the first loop read, and sends its issue of data if and only if the last
ephemeris stored for the satellite between its turns of the two loops, if any,
has the same issue. -/
theorem iod_interleaved (gen : DgpsGenerator K) (tow : K) (pseudoranges : Dict Int K) (events : List (Event K)) :
    ∃ offset, ∀ c ∈ (interleaved tow (.start gen pseudoranges) events).emitted, ∃ base pr eph v,
      gen.base = some base ∧ pseudoranges.get? c.prn = some pr ∧
      (interleaved tow (.start gen pseudoranges) events).read c.prn = some eph ∧
      Fit gen.maxIodAgeS tow pr eph ∧ rawCorrection eph base tow pr = .ok v ∧ c.prc = v - offset ∧
      (c.iod = eph.iode ↔
        ∀ eph', (interleaved tow (.start gen pseudoranges) events).stored c.prn = some eph' → eph'.iode = eph.iode) := by
  obtain ⟨offset, hsent⟩ := (watched_interleaved gen tow pseudoranges events).sent
  refine ⟨offset, fun c hc => ?_⟩
  obtain ⟨⟨v, ⟨base, pr, eph, hb, hpr, hread, hf, hv⟩, hprc⟩, eph', htable, hiod⟩ := hsent c hc
  refine ⟨base, pr, eph, v, hb, hpr, hread, hf, hv, hprc, ?_⟩
  rw [hread] at htable
  cases hs : (interleaved tow (.start gen pseudoranges) events).stored c.prn with
  | none =>
    rw [hs] at htable
    obtain rfl := Option.some.inj htable
    exact ⟨(fun _ _ h => nomatch h), fun _ => hiod⟩
  | some eph₁ =>
    rw [hs] at htable
    obtain rfl := Option.some.inj htable
    rw [hiod]
    exact ⟨fun h _ he => Option.some.inj he ▸ h, fun h => h _ rfl⟩

/-! ## A store between the two loops -/

omit [PyMath K] in
theorem emitSat_some {gen : DgpsGenerator K} {o : DgpsGenerator.Offsets K} {value : K}
    (h : |value - o.offset| ≤ gen.maxResidualM) (prn : Int) (eph : Ephemeris K) :
    ∃ c : Correction K, gen.emitSat o prn value (some eph) = .ok (some c) ∧ c.prn = prn ∧ c.iod = eph.iode := by
  simp only [DgpsGenerator.emitSat, if_neg (not_lt.mpr h)]
  exact ⟨_, rfl, rfl, rfl⟩

/-- A store for the only satellite, after the first loop has read it: its
correction names the ephemeris stored. -/
theorem store_between_loops [IsStrictOrderedRing K] (gen : DgpsGenerator K) {base : K × K × K} {tow pr v : K}
    {eph : Ephemeris K} (eph' : Ephemeris K) (hb : gen.base = some base) (he : gen.ephemerides.get? eph'.prn = some eph)
    (hf : Fit gen.maxIodAgeS tow pr eph) (hv : rawCorrection eph base tow pr = .ok v) (hmax : 0 ≤ gen.maxResidualM) :
    ∃ c call, interleaved tow (.start gen (.set ∅ eph'.prn pr)) [.turn, .turn, .store eph', .turn, .turn, .turn] = call ∧
      call.read eph'.prn = some eph ∧ c ∈ call.emitted ∧ c.prn = eph'.prn ∧ c.iod = eph'.iode := by
  have hread : (Threads.start gen (.set ∅ eph'.prn pr)).turn tow =
      ⟨gen, .select base [] (.set ∅ eph'.prn v), Function.update (fun _ => none) eph'.prn (some eph),
        Function.update (fun _ => none) eph'.prn none⟩ := by
    have hsel := selectSat_fit hf base ∅ eph'.prn
    rw [hv] at hsel
    rw [← he] at hsel ⊢
    simp only [Threads.start, hb]
    change Threads.turn tow ⟨gen, .select base [(eph'.prn, pr)] ∅, _, _⟩ = _
    simp only [Threads.turn, hsel, Except.map]
  have hmed : |v - (DgpsGenerator.Offsets.of (.set ∅ eph'.prn v)
      (DgpsGenerator.rateSat tow ∅ eph'.prn v (gen.prev.get? eph'.prn))).offset| ≤ (gen.addEphemeris eph').maxResidualM := by
    change |v - Median.median [v]| ≤ gen.maxResidualM
    rwa [Median.median_singleton, sub_self, abs_zero]
  obtain ⟨c, hc, hprn, hiod⟩ := emitSat_some hmed eph'.prn eph'
  refine ⟨c, _, rfl, ?_, ?_, hprn, hiod⟩
  · simp only [interleaved, List.foldl_cons, Event.apply, hread]
    change Function.update (fun _ => none) eph'.prn (some eph) eph'.prn = some eph
    exact Function.update_self ..
  · simp only [interleaved, List.foldl_cons, Event.apply, hread]
    -- The last turn is the satellite's turn of the last loop.
    change c ∈ (Threads.turn tow ⟨gen.addEphemeris eph', .emit (.of (.set ∅ eph'.prn v)
      (DgpsGenerator.rateSat tow ∅ eph'.prn v (gen.prev.get? eph'.prn))) [(eph'.prn, v)] [], _, _⟩).emitted
    have ht : (gen.addEphemeris eph').ephemerides.get? eph'.prn = some eph' := Dict.get?_set_self ..
    simp only [Threads.turn, ht, hc]
    exact List.mem_singleton_self c

/-- The ephemeris stored can have another issue. -/
theorem not_iod_read : ¬ ∀ (gen : DgpsGenerator ℝ) (tow : ℝ) (pseudoranges : Dict Int ℝ) (events : List (Event ℝ)),
    ∀ c ∈ (interleaved tow (.start gen pseudoranges) events).emitted, ∀ eph,
      (interleaved tow (.start gen pseudoranges) events).read c.prn = some eph → c.iod = eph.iode := by
  intro h
  let gen : DgpsGenerator ℝ := ⟨some (0, 0, 0), .set ∅ 1 (circular 1 5153 1000 0 10), ∅, 7200, 100⟩
  have hf : Fit 7200 (1000 : ℝ) 26000000 (circular 1 5153 1000 0 10) :=
    fit_circular (by norm_num) (by norm_num [C]) (by norm_num) ..
  obtain ⟨c, call, hcall, hread, hc, hprn, hiod⟩ := store_between_loops gen (circular 1 5153 8200 0 11) rfl
    (Dict.get?_set_self ∅ 1 _) hf (rawCorrection_circular (circular_circular 1 (by norm_num) ..) ..) (by norm_num [gen])
  have hsame := h gen 1000 _ _ c (hcall ▸ hc) (circular 1 5153 1000 0 10) (by rw [hcall, hprn]; exact hread)
  rw [hiod] at hsame
  exact absurd hsame (by decide)

end Rtcm.Proof
