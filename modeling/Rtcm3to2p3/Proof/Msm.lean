import Rtcm3to2p3.Proof.Dgps
import Rtcm3to2p3.Spec.Msm
import Rtcm3to2p3.Spec.Reals

/-!
# Pseudoranges from MSM7 messages

The loops over the numbered attributes are loops over the satellites and the
cells of the message (`rough_flatten`, `ranges_flatten`), so a satellite's
pseudorange is that of its C/A cell and its own rough range
(`parseGpsMsm7_flatten`). It has one exactly if it has both (`unranged_iff`),
whatever the fine pseudorange is: the code for a missing one is no exception
(`noFine_unranged_iff`). The loops raise if the number of a satellite that has
none is read (`parse_unreadable`), and on no other message (`parse_readable`).
-/

namespace Rtcm.Proof

open Rtcm.Impl Rtcm.Spec

/-! ## Loops over numbered attributes -/

theorem getattr_map {α β : Type} (name : String) (f : α → β) {l : List α} {i : Nat} (h : i < l.length) :
    getattr name (l.map f) (i + 1) = .ok (f l[i]) := by
  rw [getattr, Nat.add_sub_cancel, List.getElem?_map, List.getElem?_eq_getElem h]
  rfl

/-- A loop over the numbers of the attributes of `l` is a loop over `l`. -/
theorem foldlM_range' {α β : Type} {step : β → Nat → Py β} {turn : β → α → β} {l : List α} {s : Nat}
    (h : ∀ i (hi : i < l.length) b, step b (s + i) = .ok (turn b l[i])) (b : β) :
    (List.range' s l.length).foldlM step b = .ok (l.foldl turn b) := by
  induction l generalizing s b with
  | nil => rfl
  | cons x l ih =>
    have hx := h 0 (Nat.zero_lt_succ _) b
    rw [List.length_cons, List.range'_succ, List.foldlM_cons, show step b s = _ from hx, bind_ok, List.foldl_cons]
    refine ih (fun i hi b => ?_) _
    have := h (i + 1) (Nat.succ_lt_succ hi) b
    rwa [show s + 1 + i = s + (i + 1) by omega]

/-- Of distinct elements, at most one is `a`. -/
theorem foldl_once {α β : Type} [DecidableEq α] (a : α) (f : β → β) {l : List α} (h : l.Nodup) (b : β) :
    l.foldl (fun b x => if x = a then f b else b) b = if a ∈ l then f b else b := by
  induction l generalizing b with
  | nil => rfl
  | cons x l ih =>
    rw [List.nodup_cons] at h
    rw [List.foldl_cons, ih h.2]
    by_cases hx : x = a
    · subst hx
      rw [if_pos rfl, if_neg h.1, if_pos List.mem_cons_self]
    · rw [if_neg hx]
      simp only [List.mem_cons, Ne.symm hx, false_or]

/-- A loop whose turns return and keep an invariant returns and keeps it. -/
theorem foldlM_keeps {α β : Type} {f : β → α → Py β} {P : β → Prop} {xs : List α}
    (h : ∀ x ∈ xs, ∀ b, P b → ∃ b', f b x = .ok b' ∧ P b') {b : β} (hb : P b) :
    ∃ b', xs.foldlM f b = .ok b' ∧ P b' := by
  induction xs generalizing b with
  | nil => exact ⟨b, rfl, hb⟩
  | cons x xs ih =>
    obtain ⟨b', he, hb'⟩ := h x List.mem_cons_self b hb
    rw [List.foldlM_cons, he, bind_ok]
    exact ih (fun y hy => h y (List.mem_cons_of_mem _ hy)) hb'

/-- A loop with a turn that raises. -/
theorem foldlM_raises {α β : Type} {f : β → α → Py β} {xs : List α} {x : α} (hx : x ∈ xs)
    (h : ∀ b, ∃ e, f b x = .error e) (b : β) : ∃ e, xs.foldlM f b = .error e := by
  induction xs generalizing b with
  | nil => cases hx
  | cons y xs ih =>
    rw [List.foldlM_cons]
    rcases List.mem_cons.mp hx with rfl | hx
    · obtain ⟨e, he⟩ := h b
      exact ⟨e, by rw [he]; rfl⟩
    · cases hf : f b y with
      | error e => exact ⟨e, rfl⟩
      | ok b' => exact ih hx b'

theorem getattr_of_getElem? {α : Type} (name : String) {values : List α} {i : Nat} {v : α}
    (h : values[i - 1]? = some v) : getattr name values i = .ok v := by
  rw [getattr, h]

theorem exists_getElem? {α : Type} {values : List α} {i n : Nat} (hi : i ∈ List.range' 1 n)
    (h : values.length = n) : ∃ v, values[i - 1]? = some v := by
  rw [List.mem_range'_1] at hi
  exact ⟨_, List.getElem?_eq_getElem (by omega)⟩

/-! ## Messages that raise -/

section

variable {K : Type} [Field K] {m : Msg1077 K}

/-- The pseudoranges are of satellites of the message. -/
theorem parse_readable (ha : Attributes m) (h : Readable m) :
    ∃ pseudoranges, parseGpsMsm7 m = .ok ((m.DF004 : K) / 1000, pseudoranges) ∧
      ∀ prn pr, pseudoranges.get? prn = some pr → some prn ∈ m.PRN := by
  obtain ⟨h397, h398⟩ := ha.satellites
  obtain ⟨hprn, hsig⟩ := ha.cells
  have hrough : ∀ i ∈ List.range' 1 m.DF397.length, ∀ rough : Dict Int K,
      (∀ prn v, rough.get? prn = some v → some prn ∈ m.PRN) →
      ∃ rough', roughSat m rough i = .ok rough' ∧ ∀ prn v, rough'.get? prn = some v → some prn ∈ m.PRN := by
    intro i hi rough hr
    obtain ⟨ms, hms⟩ := exists_getElem? hi rfl
    obtain ⟨prn, hp⟩ := exists_getElem? hi h397.symm
    obtain ⟨frac, hf⟩ := exists_getElem? hi (h398.trans h397.symm)
    simp only [roughSat, getattr_of_getElem? _ hms, getattr_of_getElem? _ hp, getattr_of_getElem? _ hf, bind_ok]
    split
    · exact ⟨rough, rfl, hr⟩
    · cases prn with
      | none =>
        have hmem : (m.PRN.zip m.DF397)[i - 1]? = some (none, ms) := List.getElem?_zip_eq_some.mpr ⟨hp, hms⟩
        exact absurd (h.satellites ms (List.mem_of_getElem? hmem)) ‹_›
      | some prn => exact ⟨_, rfl, Dict.forall_get?_set hr (List.mem_of_getElem? hp)⟩
  obtain ⟨rough, he, hr⟩ := foldlM_keeps hrough (b := ∅) Dict.forall_get?_empty
  have hcell : ∀ i ∈ List.range' 1 m.DF405.length, ∀ prs : Dict Int K,
      (∀ prn v, prs.get? prn = some v → some prn ∈ m.PRN) →
      ∃ prs', cellRange m rough prs i = .ok prs' ∧ ∀ prn v, prs'.get? prn = some v → some prn ∈ m.PRN := by
    intro i hi prs hp
    obtain ⟨sig, hs⟩ := exists_getElem? hi hsig
    obtain ⟨fine, hf⟩ := exists_getElem? hi rfl
    obtain ⟨prn, hc⟩ := exists_getElem? hi hprn
    simp only [cellRange, getattr_of_getElem? _ hs, getattr_of_getElem? _ hf, getattr_of_getElem? _ hc, bind_ok]
    split
    · exact ⟨prs, rfl, hp⟩
    rename_i hs1
    obtain rfl := not_not.mp hs1
    cases fine with
    | none => exact ⟨prs, rfl, hp⟩
    | some fine =>
      cases prn with
      | none =>
        have hmem : (m.CELLPRN.zip (m.CELLSIG.zip m.DF405))[i - 1]? = some (none, L1CA, some fine) :=
          List.getElem?_zip_eq_some.mpr ⟨hc, List.getElem?_zip_eq_some.mpr ⟨hs, hf⟩⟩
        exact absurd (List.mem_of_getElem? hmem) (h.cells fine)
      | some prn =>
        simp only [int, bind_ok]
        cases hg : rough.get? prn with
        | none => exact ⟨prs, rfl, hp⟩
        | some r => exact ⟨_, rfl, Dict.forall_get?_set hp (hr prn r hg)⟩
  obtain ⟨prs, he', hp⟩ := foldlM_keeps hcell (b := ∅) Dict.forall_get?_empty
  exact ⟨prs, by simp only [parseGpsMsm7, he, he', bind_ok]; rfl, hp⟩

theorem parse_tow {tow : K} {pseudoranges : Dict Int K} (h : parseGpsMsm7 m = .ok (tow, pseudoranges)) :
    tow = (m.DF004 : K) / 1000 := by
  unfold parseGpsMsm7 at h
  dsimp only at h
  cases hrough : (List.range' 1 m.DF397.length).foldlM (roughSat m) ∅ with
  | error e =>
    rw [hrough] at h
    cases h
  | ok rough =>
    rw [hrough, bind_ok] at h
    cases hranges : (List.range' 1 m.DF405.length).foldlM (cellRange m rough) ∅ with
    | error e =>
      rw [hranges] at h
      cases h
    | ok ranges =>
      rw [hranges, bind_ok] at h
      exact (Prod.mk.inj (Except.ok.inj h)).1.symm

theorem roughSat_raises {i : Nat} {ms : Int} (hp : m.PRN[i]? = some none) (hm : m.DF397[i]? = some ms)
    (h : ms < 255) (rough : Dict Int K) : ∃ e, roughSat m rough (i + 1) = .error e := by
  have hprn : getattr "PRN" m.PRN (i + 1) = .ok none := getattr_of_getElem? _ hp
  have hms : getattr "DF397" m.DF397 (i + 1) = .ok ms := getattr_of_getElem? _ hm
  rw [roughSat, hms, hprn, bind_ok, if_neg (not_le.mpr h), bind_ok]
  exact ⟨_, rfl⟩

theorem cellRange_raises {i : Nat} {fine : K} (hp : m.CELLPRN[i]? = some none) (hs : m.CELLSIG[i]? = some L1CA)
    (hf : m.DF405[i]? = some (some fine)) (rough pseudoranges : Dict Int K) :
    ∃ e, cellRange m rough pseudoranges (i + 1) = .error e := by
  have hprn : getattr "CELLPRN" m.CELLPRN (i + 1) = .ok none := getattr_of_getElem? _ hp
  have hsig : getattr "CELLSIG" m.CELLSIG (i + 1) = .ok L1CA := getattr_of_getElem? _ hs
  have hfine : getattr "DF405" m.DF405 (i + 1) = .ok (some fine) := getattr_of_getElem? _ hf
  rw [cellRange, hsig, hfine, hprn, bind_ok, if_neg (not_not.mpr rfl), bind_ok]
  exact ⟨_, rfl⟩

theorem mem_range'_of_getElem? {α : Type} {values : List α} {i : Nat} {v : α} (h : values[i]? = some v) :
    i + 1 ∈ List.range' 1 values.length := by
  have hlt := (List.getElem?_eq_some_iff.mp h).1
  exact List.mem_range'_1.mpr ⟨by omega, by omega⟩

/-- A missing number is read, by one of the loops. -/
theorem parse_unreadable (h : ¬ Readable m) : ∃ e, parseGpsMsm7 m = .error e := by
  have hcases : (∃ ms, (none, ms) ∈ m.PRN.zip m.DF397 ∧ ms < 255) ∨
      ∃ fine, (none, L1CA, some fine) ∈ m.CELLPRN.zip (m.CELLSIG.zip m.DF405) := by
    by_contra hn
    push Not at hn
    exact h ⟨hn.1, hn.2⟩
  unfold parseGpsMsm7
  dsimp only
  cases hrough : (List.range' 1 m.DF397.length).foldlM (roughSat m) ∅ with
  | error e => exact ⟨e, rfl⟩
  | ok rough =>
    obtain ⟨ms, hmem, hms⟩ | ⟨fine, hmem⟩ := hcases
    · obtain ⟨i, hi⟩ := List.mem_iff_getElem?.mp hmem
      obtain ⟨hp, hm⟩ := List.getElem?_zip_eq_some.mp hi
      obtain ⟨e, he⟩ := foldlM_raises (mem_range'_of_getElem? hm) (roughSat_raises hp hm hms) (∅ : Dict Int K)
      cases hrough.symm.trans he
    · obtain ⟨i, hi⟩ := List.mem_iff_getElem?.mp hmem
      obtain ⟨hp, hi⟩ := List.getElem?_zip_eq_some.mp hi
      obtain ⟨hs, hf⟩ := List.getElem?_zip_eq_some.mp hi
      obtain ⟨e, he⟩ := foldlM_raises (mem_range'_of_getElem? hf) (cellRange_raises hp hs hf rough) (∅ : Dict Int K)
      exact ⟨e, by rw [bind_ok, he]; rfl⟩

end

/-! ## The two loops -/

variable {K : Type} [Field K] (m : Msm7)

/-- A satellite's rough range, if it has one. -/
def roughOf (prn : Int) : Option K :=
  if m.DF397 prn < 255 then some (((m.DF397 prn : Nat) : Int) + m.modMs K prn) else none

/-- What a turn of the first loop does. -/
def roughTurn (rough : Dict Int K) (prn : Int) : Dict Int K := (roughOf m prn).elim rough (rough.set prn)

theorem roughSat_flatten (hr : m.Readable) {i : Nat} (h : i < m.satellites.length) (rough : Dict Int K) :
    roughSat (m.flatten K) rough (1 + i) = .ok (roughTurn m rough m.satellites[i]) := by
  have h64 : m.satellites[i] = 64 → m.DF397 m.satellites[i] = 255 := fun he => by
    rw [he]
    exact Fin.ext (hr (he ▸ List.getElem_mem h)).1
  simp only [roughSat, Msm7.flatten]
  rw [Nat.add_comm 1 i, getattr_map _ _ h, getattr_map _ _ h, getattr_map _ _ h]
  simp only [bind_ok, roughTurn, roughOf]
  generalize hms : m.DF397 m.satellites[i] = ms at h64
  have hlt : ms < 255 ↔ (ms : Nat) < 255 := Iff.rfl
  by_cases hvalid : ms < 255
  · rw [if_neg (by omega), if_pos hvalid, Msm7.number, if_neg fun he => by simp [h64 he] at hvalid]
    rfl
  · rw [if_pos (by omega), if_neg hvalid]
    rfl

theorem rough_flatten (hr : m.Readable) : ∃ rough : Dict Int K,
    (List.range' 1 (m.flatten K).DF397.length).foldlM (roughSat (m.flatten K)) ∅ = .ok rough ∧
      ∀ p, rough.get? p = if p ∈ m.satellites then roughOf m p else none := by
  have hlen : (m.flatten K).DF397.length = m.satellites.length := List.length_map _
  refine ⟨_, by rw [hlen]; exact foldlM_range' (fun i hi b => roughSat_flatten m hr hi b) ∅, fun p => ?_⟩
  exact (Dict.get?_foldl_elim (roughOf m) m.satellites ∅ p).trans (by rw [Dict.get?_empty, Option.or_none])

/-- What a satellite's C/A cell stores. -/
def rangeOf (rough : Dict Int K) (prn : Int) : Option K :=
  (rough.get? prn).map fun r => (r + m.fineMs K prn L1CA) * MS_TO_M

/-- What a turn of the second loop does. -/
def cellTurn (rough pseudoranges : Dict Int K) (cell : Int × String) : Dict Int K :=
  if cell.2 = L1CA then (rangeOf m rough cell.1).elim pseudoranges (pseudoranges.set cell.1) else pseudoranges

theorem mem_cells {prn : Int} {sig : String} : (prn, sig) ∈ m.cells ↔ prn ∈ m.satellites ∧ (prn, sig) ∈ m.row prn := by
  simp only [Msm7.cells, List.mem_flatMap, Msm7.row, List.mem_map, Prod.mk.injEq, ↓existsAndEq, and_true]

theorem cellRange_flatten (hr : m.Readable) {i : Nat} (h : i < m.cells.length) (rough pseudoranges : Dict Int K) :
    cellRange (m.flatten K) rough pseudoranges (1 + i) = .ok (cellTurn m rough pseudoranges m.cells[i]) := by
  have hmem : m.cells[i] ∈ m.cells := List.getElem_mem h
  simp only [cellRange, Msm7.flatten]
  rw [Nat.add_comm 1 i, getattr_map _ _ h, getattr_map _ _ h, getattr_map _ _ h]
  simp only [bind_ok, cellTurn, rangeOf]
  generalize m.cells[i] = cell at hmem
  obtain ⟨prn, sig⟩ := cell
  by_cases hs : sig = L1CA
  · subst hs
    have h64 : prn ≠ 64 := fun he => by
      subst he
      exact (hr ((mem_cells m).mp hmem).1).2 hmem
    rw [if_neg (not_not.mpr rfl), if_pos rfl, Msm7.number, if_neg h64, int, bind_ok]
    cases rough.get? prn <;> rfl
  · rw [if_pos hs, if_neg hs]
    rfl

/-- A row stores the range of its C/A cell. -/
theorem foldl_row (rough pseudoranges : Dict Int K) (prn : Int) :
    (m.row prn).foldl (cellTurn m rough) pseudoranges =
      (if (prn, L1CA) ∈ m.row prn then rangeOf m rough prn else none).elim pseudoranges (pseudoranges.set prn) := by
  have hmem : (prn, L1CA) ∈ m.row prn ↔ L1CA ∈ m.signals.filter (m.cellMask prn) := by
    rw [Msm7.row, List.mem_map]
    exact ⟨fun ⟨sig, hs, he⟩ => (Prod.mk.inj he).2 ▸ hs, fun hs => ⟨L1CA, hs, rfl⟩⟩
  have hrow := foldl_once L1CA (fun d : Dict Int K => (rangeOf m rough prn).elim d (d.set prn))
    (m.distinct.filter (m.cellMask prn)) pseudoranges
  simp only [hmem]
  rw [Msm7.row, List.foldl_map]
  refine Eq.trans hrow ?_
  split <;> rfl

theorem ranges_flatten (hr : m.Readable) (rough : Dict Int K) : ∃ pseudoranges : Dict Int K,
    (List.range' 1 (m.flatten K).DF405.length).foldlM (cellRange (m.flatten K) rough) ∅ = .ok pseudoranges ∧
      ∀ p, pseudoranges.get? p = if (p, L1CA) ∈ m.cells then rangeOf m rough p else none := by
  have hlen : (m.flatten K).DF405.length = m.cells.length := List.length_map _
  refine ⟨_, by rw [hlen]; exact foldlM_range' (fun i hi b => cellRange_flatten m hr hi rough b) ∅, fun p => ?_⟩
  rw [Msm7.cells, List.foldl_flatMap]
  simp only [foldl_row]
  rw [Dict.get?_foldl_elim (fun prn => if (prn, L1CA) ∈ m.row prn then rangeOf m rough prn else none),
    Dict.get?_empty, Option.or_none, ← Msm7.cells]
  simp only [mem_cells, ite_and]

/-- The two loops together: a C/A cell's range is that of its own satellite. -/
theorem parse_flatten (hr : m.Readable) : ∃ pseudoranges : Dict Int K,
    parseGpsMsm7 (m.flatten K) = .ok ((m.epoch : K) / 1000, pseudoranges) ∧
      ∀ p, pseudoranges.get? p =
        if (p, L1CA) ∈ m.cells then (roughOf m p).map fun r => (r + m.fineMs K p L1CA) * MS_TO_M else none := by
  obtain ⟨rough, hrough, hget⟩ := rough_flatten (K := K) m hr
  obtain ⟨pseudoranges, hranges, hp⟩ := ranges_flatten m hr rough
  refine ⟨pseudoranges, ?_, fun p => ?_⟩
  · simp only [parseGpsMsm7, hrough, hranges, bind_ok]
    rw [show (m.flatten K).DF004 = (m.epoch : Int) from rfl, Int.cast_natCast]
    rfl
  · rw [hp, rangeOf, hget]
    by_cases hc : (p, L1CA) ∈ m.cells
    · rw [if_pos hc, if_pos hc, if_pos ((mem_cells m).mp hc).1]
    · rw [if_neg hc, if_neg hc]

/-- The missing number of id 64 is read from the flattened message. -/
theorem readable_flatten (h : Readable (m.flatten K)) : m.Readable := by
  refine fun h64 => ⟨?_, fun hcell => h.cells (m.fineMs K 64 L1CA) ?_⟩
  · have hmem : (none, ((m.DF397 64 : Nat) : Int)) ∈ (m.flatten K).PRN.zip (m.flatten K).DF397 := by
      rw [Msm7.flatten, List.zip_map']
      exact List.mem_map.mpr ⟨64, h64, rfl⟩
    have hle := h.satellites _ hmem
    have hlt := (m.DF397 64).isLt
    omega
  · simp only [Msm7.flatten, List.zip_map']
    exact List.mem_map.mpr ⟨(64, L1CA), hcell, rfl⟩

/-- The pseudoranges of a message 1077 are those of the satellites with a rough
range and a C/A cell, each from its own fields, exactly if id 64 is not read. -/
theorem parseGpsMsm7_flatten : (∃ pseudoranges : Dict Int K,
    parseGpsMsm7 (m.flatten K) = .ok ((m.epoch : K) / 1000, pseudoranges) ∧
      ∀ p, pseudoranges.get? p =
        if (p, L1CA) ∈ m.cells ∧ m.DF397 p < 255 then
          some (((m.DF397 p : Nat) + m.modMs K p + m.fineMs K p L1CA) * (C * 1e-3))
        else none) ↔ (64 ∈ m.satellites → (m.DF397 64 : Nat) = 255 ∧ (64, L1CA) ∉ m.cells) := by
  constructor
  · rintro ⟨pseudoranges, hparse, -⟩
    refine readable_flatten (K := K) m (of_not_not fun hn => ?_)
    obtain ⟨e, he⟩ := parse_unreadable hn
    cases hparse.symm.trans he
  intro hr
  obtain ⟨pseudoranges, hparse, hp⟩ := parse_flatten (K := K) m hr
  refine ⟨pseudoranges, hparse, fun p => ?_⟩
  rw [hp, roughOf]
  by_cases hc : (p, L1CA) ∈ m.cells
  · rw [if_pos hc]
    by_cases hms : m.DF397 p < 255
    · rw [if_pos hms, if_pos ⟨hc, hms⟩, Option.map_some, Int.cast_natCast, MS_TO_M]
    · rw [if_neg hms, if_neg fun h => hms h.2]
      rfl
  · rw [if_neg hc, if_neg fun h => hc h.1]

theorem mask_withId64 : ∀ id ∈ [(5 : Int), 64], 1 ≤ id ∧ id ≤ 64 := by decide

theorem ascending_withId64 : [(5 : Int), 64].Pairwise (· < ·) := by decide

/-- Satellite 5 and id 64, both 86 light milliseconds away. -/
def withId64 : Msm7 where
  epoch := 100000
  satellites := [5, 64]
  mask := mask_withId64
  ascending := ascending_withId64
  signals := [L1CA]
  distinct := List.nodup_singleton _
  cellMask _ _ := true
  DF397 _ := 86
  DF398 _ := 0
  DF405 _ _ := 0

theorem not_parseGpsMsm7_flatten : ¬ ∀ m : Msm7, ∃ pseudoranges : Dict Int ℝ,
    parseGpsMsm7 (m.flatten ℝ) = .ok ((m.epoch : ℝ) / 1000, pseudoranges) ∧
      ∀ p, pseudoranges.get? p =
        if (p, L1CA) ∈ m.cells ∧ m.DF397 p < 255 then
          some (((m.DF397 p : Nat) + m.modMs ℝ p + m.fineMs ℝ p L1CA) * (C * 1e-3))
        else none := by
  intro h
  obtain ⟨pseudoranges, hparse, -⟩ := h withId64
  obtain ⟨e, he⟩ := parse_unreadable (m := withId64.flatten ℝ) fun hr =>
    absurd (readable_flatten withId64 hr (by decide)).1 (by decide)
  cases hparse.symm.trans he

/-! ## Cells without a fine pseudorange -/

section

variable [LinearOrder K] [PyMath K] {m : Msm7}

/-- A satellite has a pseudorange exactly if it has a C/A cell and a rough range. -/
theorem unranged_iff (hr : m.Readable) {prn : Int} :
    m.Unranged K prn ↔ ((prn, L1CA) ∈ m.cells → m.DF397 prn = 255) := by
  obtain ⟨pseudoranges, hparse, hp⟩ := parse_flatten (K := K) m hr
  have hrough : roughOf (K := K) m prn = none ↔ m.DF397 prn = 255 := by
    rw [roughOf, ite_eq_right_iff]
    simp only [reduceCtorEq, imp_false, Fin.lt_def, Fin.ext_iff]
    show ¬ (m.DF397 prn : Nat) < 255 ↔ (m.DF397 prn : Nat) = 255
    omega
  have hnone : pseudoranges.get? prn = none ↔ ((prn, L1CA) ∈ m.cells → m.DF397 prn = 255) := by
    rw [hp, ← hrough]
    by_cases hc : (prn, L1CA) ∈ m.cells
    · rw [if_pos hc, Option.map_eq_none_iff]
      exact ⟨fun h _ => h, fun h => h hc⟩
    · rw [if_neg hc]
      exact iff_of_true rfl fun h => absurd h hc
  rw [← hnone]
  refine ⟨fun h => (h _ _ hparse).1, fun h tow prs hprs => ?_⟩
  obtain ⟨rfl, rfl⟩ := Prod.mk.inj (Except.ok.inj (hparse.symm.trans hprs))
  refine ⟨h, fun gen base raw hraw => ?_⟩
  rw [Option.eq_none_iff_forall_not_mem]
  intro v hv
  obtain ⟨pr, eph, hs, -⟩ := (rawCorrections_ok hraw prn v).mp hv
  rw [hs.observed] at h
  cases h

/-- A message that raises gives no pseudoranges. -/
theorem unranged_of_not_readable (hr : ¬ m.Readable) (prn : Int) : m.Unranged K prn := by
  intro tow pseudoranges hparse
  obtain ⟨e, he⟩ := parse_unreadable (mt (readable_flatten (K := K) m) hr)
  cases hparse.symm.trans he

/-- No cell without a fine pseudorange and no satellite without a rough one
gives a pseudorange, exactly if the message raises or the rough one is missing
where the fine one is. -/
theorem noFine_unranged_iff (m : Msm7) : (∀ prn, m.NoFine prn ∨ m.DF397 prn = 255 → m.Unranged K prn) ↔
    ¬ m.Readable ∨ ∀ prn, m.NoFine prn → m.DF397 prn = 255 := by
  by_cases hr : m.Readable
  · simp only [unranged_iff hr, hr, not_true_eq_false, false_or]
    refine ⟨fun h prn hprn => h prn (.inl hprn) hprn.1, fun h prn hprn _ => ?_⟩
    exact hprn.elim (h prn) id
  · exact iff_of_true (fun prn _ => unranged_of_not_readable hr prn) (.inl hr)

end

theorem mask_noFine : ∀ id ∈ [(1 : Int)], 1 ≤ id ∧ id ≤ 64 := by decide

/-- Satellite 1, 86 light milliseconds away, its fine pseudorange not available. -/
def noFine : Msm7 where
  epoch := 100000
  satellites := [1]
  mask := mask_noFine
  ascending := List.pairwise_singleton _ _
  signals := [L1CA]
  distinct := List.nodup_singleton _
  cellMask _ _ := true
  DF397 _ := 86
  DF398 _ := 0
  DF405 _ _ := FINE_NOT_AVAILABLE

theorem not_noFine_unranged :
    ¬ ∀ (m : Msm7) (prn : Int), m.NoFine prn ∨ m.DF397 prn = 255 → m.Unranged ℝ prn := by
  intro h
  have hcell : ((1 : Int), L1CA) ∈ noFine.cells := by decide
  have h64 : (64 : Int) ∉ noFine.satellites := by decide
  have h86 := (unranged_iff fun h => absurd h h64).mp (h noFine 1 (.inl ⟨hcell, rfl⟩)) hcell
  exact absurd h86 (by decide)

end Rtcm.Proof
