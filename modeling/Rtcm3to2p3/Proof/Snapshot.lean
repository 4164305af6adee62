import Rtcm3to2p3.Proof.Threads
import Rtcm3to2p3.Spec.Snapshot

/-!
# A call on the table it has read

Whatever the ephemeris thread stores while a call of `corrections` is under
way, the call computes what it would have computed on the ephemerides that its
first loop read, issues of data apart (`corrections_interleaved`): the
invariant `Follows` compares it, loop by loop, with the call on any table of
these.
-/

namespace Rtcm.Proof

open Rtcm.Impl Rtcm.Spec

variable {K : Type} [Field K] [LinearOrder K] [PyMath K]

/-! ## The last loop -/

omit [PyMath K] in
/-- What a satellite is sent with does not depend on its ephemeris, issue of data apart. -/
theorem emitSat_reissued (gen gen' : DgpsGenerator K) (hmax : gen.maxResidualM = gen'.maxResidualM)
    (o : DgpsGenerator.Offsets K) (prn : Int) (value : K) (eph eph' : Ephemeris K) :
    ∃ c c', gen.emitSat o prn value (some eph) = .ok c ∧ gen'.emitSat o prn value (some eph') = .ok c' ∧
      List.Forall₂ Reissued c.toList c'.toList := by
  unfold DgpsGenerator.emitSat
  rw [hmax]
  dsimp only
  split
  · exact ⟨none, none, rfl, rfl, .nil⟩
  · exact ⟨_, _, rfl, rfl, .cons rfl .nil⟩

omit [PyMath K] in
theorem emitLoop_snoc {gen : DgpsGenerator K} {o : DgpsGenerator.Offsets K} {tow : K} {items : List (Int × K)}
    {prev prev' : Dict Int (K × K)} {out : List (Correction K)}
    (h : gen.emitLoop o tow items prev = (.ok out, prev')) {prn : Int} {value : K} {c : Option (Correction K)}
    (hc : gen.emitSat o prn value (gen.ephemerides.get? prn) = .ok c) :
    gen.emitLoop o tow (items ++ [(prn, value)]) prev = (.ok (out ++ c.toList), prev'.set prn (tow, value)) := by
  induction items generalizing prev out with
  | nil =>
    obtain ⟨ho, rfl⟩ := Prod.mk.inj h
    obtain rfl := Except.ok.inj ho
    simp [DgpsGenerator.emitLoop, hc, Except.map]
  | cons x items ih =>
    obtain ⟨prn', value'⟩ := x
    rw [DgpsGenerator.emitLoop] at h
    rw [List.cons_append, DgpsGenerator.emitLoop]
    dsimp only at h ⊢
    cases he : gen.emitSat o prn' value' (gen.ephemerides.get? prn') with
    | error e =>
      rw [he] at h
      cases (Prod.mk.inj h).1
    | ok c' =>
      rw [he] at h
      dsimp only at h ⊢
      rcases hrest : gen.emitLoop o tow items (prev.set prn' (tow, value')) with ⟨_ | rest, prev''⟩
      · rw [hrest] at h
        cases (Prod.mk.inj h).1
      · rw [hrest] at h
        obtain ⟨ho, rfl⟩ := Prod.mk.inj h
        obtain rfl := Except.ok.inj ho
        rw [ih hrest]
        simp [Except.map]

/-! ## The invariant -/

section

variable (gen : DgpsGenerator K) (tow : K) (pseudoranges : Dict Int K)

/-- The table has what the first loop has read of these satellites. -/
def Agrees (call : Threads K) (items : List (Int × K)) (table : Dict Int (Ephemeris K)) : Prop :=
  ∀ x ∈ items, table.get? x.1 = call.read x.1

/-- The turns of the first loop, on this table. -/
def selected (base : K × K × K) (items : List (Int × K)) (table : Dict Int (Ephemeris K)) : Py (Dict Int K) :=
  items.foldlM (fun raw x => (withTable gen table).selectSat base tow raw x.1 x.2 (table.get? x.1)) ∅

/-- The call has come as far as it would have on any table of what it has read. -/
def Follows (call : Threads K) : Prop :=
  (call.gen.maxIodAgeS = gen.maxIodAgeS ∧ call.gen.maxResidualM = gen.maxResidualM) ∧
  match call.phase with
  | .select base todo raw => gen.base = some base ∧ call.gen.prev = gen.prev ∧
    ∃ before, pseudoranges.items = before ++ todo ∧
      ∀ table, Agrees call before table → selected gen tow base before table = .ok raw
  | .rate raw todo rawRate => call.gen.prev = gen.prev ∧ raw.items.isEmpty = false ∧
    (∃ before, raw.items = before ++ todo ∧ rawRate =
      before.foldl (fun rawRate x => DgpsGenerator.rateSat tow rawRate x.1 x.2 (gen.prev.get? x.1)) ∅) ∧
    ∃ base, gen.base = some base ∧ ∀ table, Agrees call pseudoranges.items table →
      selected gen tow base pseudoranges.items table = .ok raw
  | .emit o todo out => ∃ base raw, gen.base = some base ∧ raw.items.isEmpty = false ∧ o = gen.offsets tow raw ∧
    ∃ before, raw.sorted = before ++ todo ∧ ∀ table, Agrees call pseudoranges.items table →
      selected gen tow base pseudoranges.items table = .ok raw ∧
      ∃ out', (withTable gen table).emitLoop o tow before gen.prev = (.ok out', call.gen.prev) ∧
        List.Forall₂ Reissued out' out
  | .done result => ∀ table, Agrees call pseudoranges.items table →
    Alike ((withTable gen table).corrections tow pseudoranges).1 result ∧
      ((withTable gen table).corrections tow pseudoranges).2.prev = call.gen.prev

end

variable {gen : DgpsGenerator K} {tow : K} {pseudoranges : Dict Int K}

theorem follows_start : Follows gen tow pseudoranges (.start gen pseudoranges) := by
  refine ⟨⟨rfl, rfl⟩, ?_⟩
  cases hb : gen.base with
  | none =>
    simp only [Threads.start, hb]
    intro table _
    rw [corrections_base_none (show (withTable gen table).base = none from hb)]
    exact ⟨.returned [] [] .nil, rfl⟩
  | some base =>
    simp only [Threads.start, hb]
    exact ⟨trivial, trivial, [], rfl, fun _ _ => rfl⟩

/-- A store changes nothing that the call has read. -/
theorem Follows.store {call : Threads K} (h : Follows gen tow pseudoranges call) (eph : Ephemeris K) :
    Follows gen tow pseudoranges (call.store eph) := h

/-- A turn of the first loop reads what the tables then have. -/
theorem Follows.turn_select {g : DgpsGenerator K} {base : K × K × K} {prn : Int} {pr : K} {todo : List (Int × K)}
    {raw : Dict Int K} {read stored : Int → Option (Ephemeris K)}
    (h : Follows gen tow pseudoranges ⟨g, .select base ((prn, pr) :: todo) raw, read, stored⟩) :
    Follows gen tow pseudoranges (Threads.turn tow ⟨g, .select base ((prn, pr) :: todo) raw, read, stored⟩) := by
  obtain ⟨hmax, hb, hprev, before, hitems, hsel⟩ := h
  have hnodup := pseudoranges.nodup
  rw [hitems, List.map_append, List.map_cons, List.nodup_append] at hnodup
  -- What the table has of the satellites before, it had before this turn.
  have hold : ∀ table, Agrees ⟨g, .select base todo raw, Function.update read prn (g.ephemerides.get? prn), stored⟩
      (before ++ [(prn, pr)]) table → selected gen tow base before table = .ok raw ∧
        table.get? prn = g.ephemerides.get? prn := by
    intro table ht
    refine ⟨hsel table fun x hx => ?_, ?_⟩
    · have hne : x.1 ≠ prn := hnodup.2.2 x.1 (List.mem_map_of_mem hx) prn List.mem_cons_self
      rw [ht x (List.mem_append_left _ hx)]
      exact Function.update_of_ne hne ..
    · rw [ht (prn, pr) (List.mem_append_right _ (List.mem_singleton_self _))]
      exact Function.update_self ..
  have hmaxsel : ∀ table, (withTable gen table).selectSat base tow raw prn pr (g.ephemerides.get? prn) =
      g.selectSat base tow raw prn pr (g.ephemerides.get? prn) := by
    intro table
    unfold DgpsGenerator.selectSat
    rw [hmax.1]
    rfl
  refine ⟨hmax, ?_⟩
  cases hs : g.selectSat base tow raw prn pr (g.ephemerides.get? prn) with
  | error e =>
    simp only [Threads.turn, hs]
    intro table ht
    obtain ⟨hbefore, hread⟩ := hold table fun x hx => ht x (by
      rw [hitems]
      exact (List.append_cons before (prn, pr) todo) ▸ List.mem_append_left _ hx)
    have herr : (withTable gen table).rawCorrections base tow pseudoranges = .error e := by
      change selected gen tow base pseudoranges.items table = _
      rw [selected, hitems, List.foldlM_append]
      rw [selected] at hbefore
      rw [hbefore, bind_ok, List.foldlM_cons, hread, hmaxsel, hs, bind_error]
    rw [DgpsGenerator.corrections, show (withTable gen table).base = some base from hb]
    dsimp only
    rw [herr]
    exact ⟨.raised e, hprev.symm⟩
  | ok raw' =>
    simp only [Threads.turn, hs]
    refine ⟨hb, hprev, before ++ [(prn, pr)], by rw [hitems, List.append_assoc]; rfl, fun table ht => ?_⟩
    obtain ⟨hbefore, hread⟩ := hold table ht
    rw [selected] at hbefore ⊢
    rw [List.foldlM_append, hbefore, bind_ok, List.foldlM_cons, hread, hmaxsel, hs, bind_ok]
    rfl

/-- After the first loop. -/
theorem corrections_selected {base : K × K × K} {raw : Dict Int K} {table : Dict Int (Ephemeris K)}
    (hb : gen.base = some base) (h : selected gen tow base pseudoranges.items table = .ok raw) :
    (withTable gen table).corrections tow pseudoranges =
      if raw.items.isEmpty then (.ok [], withTable gen table)
      else
        (((withTable gen table).emitLoop (gen.offsets tow raw) tow raw.sorted gen.prev).1,
          { withTable gen table with
            prev := ((withTable gen table).emitLoop (gen.offsets tow raw) tow raw.sorted gen.prev).2 }) := by
  have hraw : (withTable gen table).rawCorrections base tow pseudoranges = .ok raw := h
  obtain ⟨b, ephemerides, prev, maxIodAgeS, maxResidualM⟩ := gen
  obtain rfl : b = some base := hb
  rw [DgpsGenerator.corrections]
  simp only [withTable] at hraw ⊢
  rw [hraw]
  rfl

/-- A turn of the last loop: the satellite has an ephemeris in the table, and had
one when it was selected. -/
theorem Follows.turn_emit {g : DgpsGenerator K} {o : DgpsGenerator.Offsets K} {prn : Int} {value : K}
    {todo : List (Int × K)} {out : List (Correction K)} {read stored : Int → Option (Ephemeris K)}
    (hw : Watched gen tow pseudoranges ⟨g, .emit o ((prn, value) :: todo) out, read, stored⟩)
    (h : Follows gen tow pseudoranges ⟨g, .emit o ((prn, value) :: todo) out, read, stored⟩) :
    Follows gen tow pseudoranges (Threads.turn tow ⟨g, .emit o ((prn, value) :: todo) out, read, stored⟩) := by
  obtain ⟨hmax, base, raw, hb, he, ho, before, hsorted, hemit⟩ := h
  obtain ⟨⟨-, pr, eph, -, hpr, hread, -⟩, htable⟩ := hw.2.2.1 (prn, value) List.mem_cons_self
  obtain ⟨eph', hnow⟩ : ∃ eph', g.ephemerides.get? prn = some eph' := by
    rw [show g.ephemerides.get? prn = (stored prn).or (read prn) from htable, show read prn = some eph from hread]
    cases stored prn with
    | none => exact ⟨eph, rfl⟩
    | some eph' => exact ⟨eph', rfl⟩
  refine ⟨hmax, ?_⟩
  obtain ⟨c, c', hc, hc', halike⟩ := emitSat_reissued gen g hmax.2.symm o prn value eph eph'
  simp only [Threads.turn, hnow, hc']
  refine ⟨base, raw, hb, he, ho, before ++ [(prn, value)], by rw [hsorted, List.append_assoc]; rfl, fun table ht => ?_⟩
  obtain ⟨hsel, out', hout, hrest⟩ := hemit table ht
  have hsame : (withTable gen table).ephemerides.get? prn = some eph :=
    (ht (prn, pr) (Dict.mem_items.mpr hpr)).trans hread
  refine ⟨hsel, out' ++ c.toList, emitLoop_snoc hout ?_, List.rel_append hrest halike⟩
  rw [hsame]
  exact hc

/-- A turn of the observation thread. -/
theorem Follows.turn {call : Threads K} (hw : Watched gen tow pseudoranges call)
    (h : Follows gen tow pseudoranges call) : Follows gen tow pseudoranges (call.turn tow) := by
  obtain ⟨g, phase, read, stored⟩ := call
  cases phase with
  | select base todo raw =>
    cases todo with
    | cons x todo => exact h.turn_select
    | nil =>
      obtain ⟨hmax, hb, hprev, before, hitems, hsel⟩ := h
      rw [List.append_nil] at hitems
      subst hitems
      refine ⟨hmax, ?_⟩
      cases he : raw.items.isEmpty with
      | true =>
        simp only [Threads.turn, he, if_true]
        intro table ht
        rw [corrections_selected hb (hsel table ht), if_pos he]
        exact ⟨.returned [] [] .nil, hprev.symm⟩
      | false =>
        simp only [Threads.turn, he, Bool.false_eq_true, if_false]
        exact ⟨hprev, trivial, ⟨[], rfl, rfl⟩, base, hb, hsel⟩
  | rate raw todo rawRate =>
    obtain ⟨hmax, hprev, he, ⟨before, hitems, hrates⟩, base, hb, hsel⟩ := h
    cases todo with
    | nil =>
      rw [List.append_nil] at hitems
      have ho : DgpsGenerator.Offsets.of raw rawRate = gen.offsets tow raw := by
        rw [DgpsGenerator.offsets, DgpsGenerator.rawRates, hitems, hrates]
      refine ⟨hmax, base, raw, hb, he, ho, [], rfl, fun table ht => ⟨hsel table ht, [], ?_, .nil⟩⟩
      exact congrArg _ hprev.symm
    | cons x todo =>
      refine ⟨hmax, hprev, he, ⟨before ++ [x], by rw [hitems, List.append_assoc]; rfl, ?_⟩, base, hb, hsel⟩
      rw [List.foldl_append, ← hrates, List.foldl_cons, List.foldl_nil, ← hprev]
  | emit o todo out =>
    cases todo with
    | cons x todo => exact h.turn_emit hw
    | nil =>
      obtain ⟨hmax, base, raw, hb, he, ho, before, hsorted, hemit⟩ := h
      rw [List.append_nil] at hsorted
      subst hsorted ho
      refine ⟨hmax, fun table ht => ?_⟩
      obtain ⟨hsel, out', hout, halike⟩ := hemit table ht
      rw [corrections_selected hb hsel, he, if_neg Bool.false_ne_true, hout]
      exact ⟨.returned out' out halike, rfl⟩
  | done result => exact h

theorem follows_interleaved (gen : DgpsGenerator K) (tow : K) (pseudoranges : Dict Int K) (events : List (Event K)) :
    Follows gen tow pseudoranges (interleaved tow (.start gen pseudoranges) events) := by
  have hrun : ∀ call, Watched gen tow pseudoranges call → Follows gen tow pseudoranges call →
      Follows gen tow pseudoranges (interleaved tow call events) := by
    induction events with
    | nil => exact fun call _ h => h
    | cons event events ih =>
      intro call hw h
      cases event with
      | turn => exact ih _ hw.turn (h.turn hw)
      | store eph => exact ih _ (hw.store eph) (h.store eph)
  exact hrun _ watched_start follows_start

/-! ## What was read -/

/-- All that is in the table, or was read there, has the property. -/
def Holds (P : Int → Ephemeris K → Prop) (call : Threads K) : Prop :=
  (∀ prn eph, call.gen.ephemerides.get? prn = some eph → P prn eph) ∧ ∀ prn eph, call.read prn = some eph → P prn eph

theorem Holds.turn {P : Int → Ephemeris K → Prop} {call : Threads K} (h : Holds P call) (tow : K) :
    Holds P (call.turn tow) := by
  obtain ⟨g, phase, read, stored⟩ := call
  rcases phase with ⟨base, _ | ⟨x, todo⟩, raw⟩ | ⟨raw, _ | ⟨x, todo⟩, rawRate⟩ | ⟨o, _ | ⟨x, todo⟩, out⟩ | result
  · exact h
  · refine ⟨h.1, fun prn eph hr => ?_⟩
    have hr : Function.update read x.1 (g.ephemerides.get? x.1) prn = some eph := hr
    by_cases hp : prn = x.1
    · subst hp
      rw [Function.update_self] at hr
      exact h.1 _ eph hr
    · rw [Function.update_of_ne hp] at hr
      exact h.2 prn eph hr
  all_goals exact h

omit [Field K] [LinearOrder K] [PyMath K] in
theorem Holds.store {P : Int → Ephemeris K → Prop} {call : Threads K} (h : Holds P call) {eph : Ephemeris K}
    (he : P eph.prn eph) : Holds P (call.store eph) :=
  ⟨Dict.forall_get?_set h.1 he, h.2⟩

theorem holds_interleaved {P : Int → Ephemeris K → Prop} (tow : K) {call : Threads K} {events : List (Event K)}
    (h : Holds P call) (he : ∀ eph, .store eph ∈ events → P eph.prn eph) : Holds P (interleaved tow call events) := by
  induction events generalizing call with
  | nil => exact h
  | cons event events ih =>
    have hrest : ∀ eph, .store eph ∈ events → P eph.prn eph := fun eph hm => he eph (List.mem_cons_of_mem _ hm)
    cases event with
    | turn => exact ih (h.turn tow) hrest
    | store eph => exact ih (h.store (he eph List.mem_cons_self)) hrest

omit [Field K] [LinearOrder K] [PyMath K] in
theorem get?_readTable (read : Int → Option (Ephemeris K)) (prns : List Int) (prn : Int) :
    (readTable read prns).get? prn = if prn ∈ prns then read prn else none := by
  rw [readTable, Dict.get?_foldl_elim]
  split
  · exact Option.or_none
  · rfl

/-- What was read was there when the call started, or has been stored since. -/
theorem readTable_stored (gen : DgpsGenerator K) (tow : K) (pseudoranges : Dict Int K) (events : List (Event K))
    (prns : List Int) (prn : Int) (eph : Ephemeris K)
    (h : (readTable (interleaved tow (.start gen pseudoranges) events).read prns).get? prn = some eph) :
    gen.ephemerides.get? prn = some eph ∨ eph.prn = prn ∧ .store eph ∈ events := by
  have hh : Holds (fun prn eph => gen.ephemerides.get? prn = some eph ∨ eph.prn = prn ∧ .store eph ∈ events)
      (interleaved tow (.start gen pseudoranges) events) :=
    holds_interleaved tow ⟨fun _ _ => .inl, fun _ _ hr => nomatch hr⟩ fun eph hm => .inr ⟨rfl, hm⟩
  rw [get?_readTable] at h
  split at h
  · exact hh.2 prn eph h
  · cases h

theorem interleaved_alike {gen : DgpsGenerator K} {tow : K} {pseudoranges : Dict Int K} {events : List (Event K)}
    {result : Py (List (Correction K))}
    (h : (interleaved tow (.start gen pseudoranges) events).phase = .done result) :
    let call := interleaved tow (.start gen pseudoranges) events
    let frozen := (frozenTo gen pseudoranges call).corrections tow pseudoranges
    Alike frozen.1 result ∧ frozen.2.prev = call.gen.prev := by
  have hf := follows_interleaved gen tow pseudoranges events
  intro call frozen
  obtain ⟨-, hf⟩ := hf
  rw [h] at hf
  refine hf _ fun x hx => ?_
  rw [get?_readTable, if_pos (List.mem_map_of_mem hx)]

/-- Whatever is stored while a call is under way: it returns what it would have
on the ephemerides that its first loop read, and keeps the same raw corrections,
but for the issues of data, which are those of the ephemerides stored last; it
raises if and only if it would have. -/
theorem corrections_interleaved (gen : DgpsGenerator K) (tow : K) (pseudoranges : Dict Int K) (events : List (Event K))
    {result : Py (List (Correction K))}
    (h : (interleaved tow (.start gen pseudoranges) events).phase = .done result) :
    let call := interleaved tow (.start gen pseudoranges) events
    let frozen := (frozenTo gen pseudoranges call).corrections tow pseudoranges
    Alike frozen.1 result ∧ frozen.2.prev = call.gen.prev ∧
      (∀ prn eph, (frozenTo gen pseudoranges call).ephemerides.get? prn = some eph →
        gen.ephemerides.get? prn = some eph ∨ eph.prn = prn ∧ .store eph ∈ events) ∧
      ∀ out, result = .ok out → ∀ c ∈ out, ∃ eph, (call.stored c.prn).or (call.read c.prn) = some eph ∧
        c.iod = eph.iode := by
  intro call frozen
  obtain ⟨halike, hprev⟩ := interleaved_alike h
  refine ⟨halike, hprev, readTable_stored gen tow pseudoranges events _, fun out ho c hc => ?_⟩
  obtain ⟨offset, hsent⟩ := (watched_interleaved gen tow pseudoranges events).sent
  refine (hsent c ?_).2
  rw [Threads.emitted, h, ho]
  exact hc

/-- A station, and one satellite. -/
def oneOrbit (orbit : Ephemeris ℝ) (maxIodAgeS maxResidualM : ℝ) : DgpsGenerator ℝ :=
  ⟨some (0, 0, 0), .set ∅ 1 orbit, ∅, maxIodAgeS, maxResidualM⟩

/-- A call between whose loops the satellite's ephemeris is replaced. -/
theorem replaced_done {orbit e : Ephemeris ℝ} {tow pr maxIodAgeS maxResidualM v : ℝ}
    (hf : Fit maxIodAgeS tow pr orbit) (hv : rawCorrection orbit (0, 0, 0) tow pr = .ok v) (hmax : 0 ≤ maxResidualM)
    (hprn : e.prn = 1) :
    ∃ c, c.iod = e.iode ∧ (interleaved tow (.start (oneOrbit orbit maxIodAgeS maxResidualM) (.set ∅ 1 pr))
      [.turn, .turn, .store e, .turn, .turn, .turn, .turn]).phase = .done (.ok [c]) := by
  have hsel : (oneOrbit orbit maxIodAgeS maxResidualM).selectSat (0, 0, 0) tow ∅ 1 pr
      ((oneOrbit orbit maxIodAgeS maxResidualM).ephemerides.get? 1) = .ok (.set ∅ 1 v) := by
    have h := selectSat_fit (show Fit (oneOrbit orbit maxIodAgeS maxResidualM).maxIodAgeS tow pr orbit from hf) (0, 0, 0) ∅ 1
    rw [hv] at h
    exact h
  have hmed : |v - (DgpsGenerator.Offsets.of (.set ∅ 1 v) ∅).offset| ≤
      (oneOrbit orbit maxIodAgeS maxResidualM).maxResidualM := by
    change |v - Median.median [v]| ≤ maxResidualM
    rwa [Median.median_singleton, sub_self, abs_zero]
  obtain ⟨c, hc, -, hiod⟩ := emitSat_some hmed 1 e
  refine ⟨c, hiod, ?_⟩
  have hread : (Threads.start (oneOrbit orbit maxIodAgeS maxResidualM) (.set ∅ 1 pr)).turn tow =
      ⟨oneOrbit orbit maxIodAgeS maxResidualM, .select (0, 0, 0) [] (.set ∅ 1 v),
        Function.update (fun _ => none) 1 ((oneOrbit orbit maxIodAgeS maxResidualM).ephemerides.get? 1),
        Function.update (fun _ => none) 1 none⟩ := by
    change Threads.turn tow ⟨_, .select (0, 0, 0) [(1, pr)] ∅, _, _⟩ = _
    simp only [Threads.turn, hsel]
  simp only [interleaved, List.foldl_cons, Event.apply, hread, List.foldl_nil]
  -- The turn before the last is the satellite's turn of the last loop.
  change (Threads.turn tow (Threads.turn tow ⟨(oneOrbit orbit maxIodAgeS maxResidualM).addEphemeris e,
    .emit (.of (.set ∅ 1 v) ∅) [(1, v)] [], _, _⟩)).phase = _
  have ht : ((oneOrbit orbit maxIodAgeS maxResidualM).addEphemeris e).ephemerides.get? 1 = some e := by
    rw [← hprn]
    exact Dict.get?_set_self ..
  have hc' : ((oneOrbit orbit maxIodAgeS maxResidualM).addEphemeris e).emitSat (.of (.set ∅ 1 v) ∅) 1 v
      (some e) = .ok (some c) := hc
  simp only [Threads.turn, ht, hc']
  rfl

theorem corrections_interleaved_replaced : ∃ c table, c.iod = 11 ∧
    Alike ((withTable (oneOrbit (circular 1 5153 1000 0 10) 7200 100) table).corrections 1000
      (.set ∅ 1 26000000)).1 (.ok [c]) := by
  have hf : Fit 7200 (1000 : ℝ) 26000000 (circular 1 5153 1000 0 10) :=
    fit_circular (by norm_num) (by norm_num [C]) (by norm_num) ..
  obtain ⟨c, hiod, h⟩ := replaced_done (e := circular 1 5153 8200 0 11) hf
    (rawCorrection_circular (circular_circular 1 (by norm_num) ..) ..) (show (0 : ℝ) ≤ 100 by norm_num) rfl
  exact ⟨c, _, hiod, (corrections_interleaved _ 1000 (.set ∅ 1 26000000) _ h).1⟩

end Rtcm.Proof
