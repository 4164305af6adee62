import Mathlib.Data.List.Infix

/-!
# Delimited text

Text that is read up to a delimiter, or split at every separator.

* `readUntil_append`, `readUntil_eq_some`: a read ends at the first delimiter,
  and what was read is the start up to there (`UpTo`);
* `split_intercalate`: pieces joined by a separator, whose first symbol is in
  none of them, are what a split finds, and the first piece ends at the first
  separator (`split_headD_append`);
* `block`: lines, and a blank line after the last. It is at the end of the
  block that a blank line is first seen (`blank_dropLast`).
-/

namespace Delimited

variable {α : Type*} [DecidableEq α]

/-! ## Reading up to a delimiter -/

/-- Symbols taken from `s` one at a time until `acc` has `delim` in it: what
was read and what is left, or none if `s` ends before. -/
def readUntil (delim acc : List α) : List α → Option (List α × List α)
  | [] => if delim <:+: acc then some (acc, []) else none
  | a :: s => if delim <:+: acc then some (acc, a :: s) else readUntil delim (acc ++ [a]) s

theorem readUntil_of_occurs {delim acc : List α} (h : delim <:+: acc) (s : List α) :
    readUntil delim acc s = some (acc, s) := by
  cases s <;> simp only [readUntil, h, if_true]

theorem readUntil_cons {delim acc : List α} (h : ¬ delim <:+: acc) (a : α) (s : List α) :
    readUntil delim acc (a :: s) = readUntil delim (acc ++ [a]) s := by
  simp only [readUntil, h, if_false]

omit [DecidableEq α] in
theorem prefix_dropLast {s t : List α} (h : t ≠ []) : s <+: (s ++ t).dropLast := by
  rw [List.dropLast_append_of_ne_nil h]
  exact List.prefix_append _ _

theorem readUntil_append {delim acc t : List α} (h : delim <:+: acc ++ t)
    (hmin : ¬ delim <:+: (acc ++ t).dropLast) (s : List α) :
    readUntil delim acc (t ++ s) = some (acc ++ t, s) := by
  induction t generalizing acc with
  | nil =>
    rw [List.append_nil] at h ⊢
    exact readUntil_of_occurs h s
  | cons a t ih =>
    have hacc : ¬ delim <:+: acc := fun hd =>
      hmin (hd.trans (prefix_dropLast (List.cons_ne_nil a t)).isInfix)
    have hassoc : acc ++ a :: t = acc ++ [a] ++ t := List.append_cons ..
    rw [hassoc] at h hmin ⊢
    rw [List.cons_append, readUntil_cons hacc, ih h hmin]

/-- `t` is the start of `s` up to its first `delim`, which it ends in. -/
structure UpTo (delim t s : List α) : Prop where
  start : t <+: s
  ends : delim <:+ t
  first : ¬ delim <:+: t.dropLast

omit [DecidableEq α] in
theorem prefix_dropLast_of_ne {t u : List α} (h : t <+: u) (hne : t ≠ u) : t <+: u.dropLast := by
  obtain ⟨v, rfl⟩ := h
  exact prefix_dropLast fun hv => hne (by rw [hv, List.append_nil])

omit [DecidableEq α] in
theorem suffix_of_first {delim t : List α} (h : delim <:+: t) (hfirst : ¬ delim <:+: t.dropLast) : delim <:+ t := by
  obtain ⟨u, v, rfl⟩ := h
  by_cases hv : v = []
  · rw [hv, List.append_nil]
    exact List.suffix_append u delim
  · refine absurd ⟨u, [], ?_⟩ fun hi => hfirst (List.IsInfix.trans hi (prefix_dropLast hv).isInfix)
    exact List.append_nil _

omit [DecidableEq α] in
/-- It is the start of every other start with a `delim`. -/
theorem UpTo.prefix_of {delim s t u : List α} (h : UpTo delim t s) (hu : u <+: s) (hd : delim <:+: u) : t <+: u := by
  by_cases he : u = t
  · rw [he]
  · refine (List.prefix_or_prefix_of_prefix h.start hu).resolve_right fun hp => h.first ?_
    exact hd.trans (prefix_dropLast_of_ne hp he).isInfix

omit [DecidableEq α] in
theorem UpTo.unique {delim s t u : List α} (ht : UpTo delim t s) (hu : UpTo delim u s) : t = u := by
  have htu := ht.prefix_of hu.start hu.ends.isInfix
  have hut := hu.prefix_of ht.start ht.ends.isInfix
  exact htu.eq_of_length (Nat.le_antisymm htu.length_le hut.length_le)

/-- A read that has not passed a delimiter yet ends at the first one. -/
theorem readUntil_eq_some {delim acc s t rest : List α} (hacc : ¬ delim <:+: acc.dropLast) :
    readUntil delim acc s = some (t, rest) ↔ acc <+: t ∧ UpTo delim t (acc ++ s) ∧ acc ++ s = t ++ rest := by
  constructor
  · intro h
    induction s generalizing acc with
    | nil =>
      rw [readUntil, Option.ite_none_right_eq_some] at h
      obtain ⟨hd, he⟩ := h
      obtain ⟨rfl, rfl⟩ := Prod.mk.inj (Option.some.inj he)
      exact ⟨List.prefix_rfl, ⟨List.prefix_append _ _, suffix_of_first hd hacc, hacc⟩, rfl⟩
    | cons a s ih =>
      by_cases hd : delim <:+: acc
      · rw [readUntil_of_occurs hd] at h
        obtain ⟨rfl, rfl⟩ := Prod.mk.inj (Option.some.inj h)
        exact ⟨List.prefix_rfl, ⟨List.prefix_append _ _, suffix_of_first hd hacc, hacc⟩, rfl⟩
      · rw [readUntil_cons hd] at h
        obtain ⟨hp, hup, he⟩ := ih (by rwa [List.dropLast_concat]) h
        rw [← List.append_cons] at hup he
        exact ⟨(List.prefix_append _ _).trans hp, hup, he⟩
  · rintro ⟨⟨u, rfl⟩, hup, he⟩
    rw [List.append_assoc, List.append_cancel_left_eq] at he
    rw [he]
    exact readUntil_append hup.ends.isInfix hup.first rest

/-! ## Splitting at a separator -/

/-- `skip` is what is left of a separator that was found, `cur` the piece so
far. -/
def splitFrom (sep : List α) : Nat → List α → List α → List (List α)
  | _, cur, [] => [cur]
  | skip + 1, cur, _ :: s => splitFrom sep skip cur s
  | 0, cur, a :: s =>
    if sep <+: a :: s then cur :: splitFrom sep (sep.length - 1) [] s else splitFrom sep 0 (cur ++ [a]) s

/-- The pieces between the separators, which are found from left to right. -/
def split (sep s : List α) : List (List α) := splitFrom sep 0 [] s

theorem splitFrom_skip (sep cur t s : List α) : splitFrom sep t.length cur (t ++ s) = splitFrom sep 0 cur s := by
  induction t with
  | nil => rfl
  | cons a t ih =>
    rw [← ih]
    rfl

theorem splitFrom_append {a : α} {sep line : List α} (h : a ∉ line) (cur s : List α) :
    splitFrom (a :: sep) 0 cur (line ++ s) = splitFrom (a :: sep) 0 (cur ++ line) s := by
  induction line generalizing cur with
  | nil => rw [List.nil_append, List.append_nil]
  | cons b line ih =>
    obtain ⟨hb, hl⟩ := List.ne_and_not_mem_of_not_mem_cons h
    have hp : ¬ a :: sep <+: b :: (line ++ s) := fun hp => hb (List.cons_prefix_cons.mp hp).1
    rw [List.cons_append, splitFrom, if_neg hp, ih hl, List.append_assoc, List.singleton_append]

theorem splitFrom_sep (a : α) (sep cur s : List α) :
    splitFrom (a :: sep) 0 cur (a :: sep ++ s) = cur :: splitFrom (a :: sep) 0 [] s := by
  rw [List.cons_append, splitFrom, if_pos (List.cons_prefix_cons.mpr ⟨rfl, List.prefix_append sep s⟩), List.length_cons,
    Nat.add_sub_cancel, splitFrom_skip]

theorem split_intercalate {a : α} {sep : List α} {lines : List (List α)} (hne : lines ≠ [])
    (h : ∀ line ∈ lines, a ∉ line) : split (a :: sep) ((a :: sep).intercalate lines) = lines := by
  unfold split
  induction lines with
  | nil => exact absurd rfl hne
  | cons line lines ih =>
    have hl := h line List.mem_cons_self
    have hls := fun l hl => h l (List.mem_cons_of_mem line hl)
    cases lines with
    | nil =>
      rw [List.intercalate_singleton, ← List.append_nil line, splitFrom_append hl]
      simp only [splitFrom, List.nil_append, List.append_nil]
    | cons line' lines =>
      rw [List.intercalate_cons_cons, List.append_assoc, splitFrom_append hl, splitFrom_sep, List.nil_append,
        ih (List.cons_ne_nil _ _) hls]

/-- What comes after a separator does not change the first piece. -/
theorem split_headD_append {sep u : List α} (hne : sep ≠ []) (h : sep <:+: u) (v : List α) :
    (split sep (u ++ v)).headD [] = (split sep u).headD [] := by
  suffices hcur : ∀ cur, (splitFrom sep 0 cur (u ++ v)).headD [] = (splitFrom sep 0 cur u).headD [] from hcur []
  induction u with
  | nil => exact absurd (List.infix_nil.mp h) hne
  | cons a u ih =>
    intro cur
    rw [List.cons_append, splitFrom, splitFrom]
    by_cases hp : sep <+: a :: u
    · have hp' : sep <+: a :: (u ++ v) := hp.trans (List.prefix_append (a :: u) v)
      rw [if_pos hp, if_pos hp', List.headD_cons, List.headD_cons]
    · have hu := (List.infix_cons_iff.mp h).resolve_left hp
      have hp' : ¬ sep <+: a :: (u ++ v) := fun hs =>
        hp (List.prefix_of_prefix_length_le hs (List.prefix_append (a :: u) v) (hu.length_le.trans (Nat.le_succ _)))
      rw [if_neg hp, if_neg hp']
      exact ih hu _

/-! ## Lines up to a blank one -/

/-- Lines that end in `cr lf`, and a blank line. -/
def block (cr lf : α) (lines : List (List α)) : List α := lines.flatMap (· ++ [cr, lf]) ++ [cr, lf]

variable {cr lf : α}

omit [DecidableEq α] in
theorem block_cons (line : List α) (lines : List (List α)) :
    block cr lf (line :: lines) = line ++ [cr, lf] ++ block cr lf lines := by
  rw [block, block, List.flatMap_cons, List.append_assoc]

omit [DecidableEq α] in
theorem intercalate_block (lines : List (List α)) :
    [cr, lf].intercalate (lines ++ [[], []]) = block cr lf lines := by
  induction lines with
  | nil => rfl
  | cons line lines ih =>
    rw [List.cons_append, List.intercalate_cons_of_ne_nil (by simp), ih, block_cons]

omit [DecidableEq α] in
/-- No delimiter starts in a line without its first symbol. -/
theorem infix_append_of_notMem {a : α} {delim line : List α} (h : a ∉ line) (s : List α) :
    a :: delim <:+: line ++ s ↔ a :: delim <:+: s := by
  induction line with
  | nil => rw [List.nil_append]
  | cons b line ih =>
    obtain ⟨hb, hl⟩ := List.ne_and_not_mem_of_not_mem_cons h
    have hp : ¬ a :: delim <+: b :: (line ++ s) := fun hp => hb (List.cons_prefix_cons.mp hp).1
    rw [List.cons_append, List.infix_cons_iff, ih hl]
    exact or_iff_right hp

omit [DecidableEq α] in
theorem blank_block {lines : List (List α)} (h : lines ≠ []) : [cr, lf, cr, lf] <:+: block cr lf lines := by
  obtain ⟨init, last, rfl⟩ : ∃ init last, lines = init ++ [last] :=
    ⟨_, _, (List.dropLast_append_getLast h).symm⟩
  refine List.IsSuffix.isInfix ⟨init.flatMap (· ++ [cr, lf]) ++ last, ?_⟩
  simp [block]

omit [DecidableEq α] in
theorem dropLast_block (lines : List (List α)) :
    (block cr lf lines).dropLast = lines.flatMap (· ++ [cr, lf]) ++ [cr] := by
  rw [block, List.dropLast_append_of_ne_nil (by simp)]
  rfl

omit [DecidableEq α] in
theorem blank_dropLast (hne : cr ≠ lf) {lines : List (List α)} (h : ∀ line ∈ lines, line ≠ [] ∧ cr ∉ line) :
    ¬ [cr, lf, cr, lf] <:+: (block cr lf lines).dropLast := by
  rw [dropLast_block]
  induction lines with
  | nil => exact fun hi => absurd hi.length_le (by simp)
  | cons line lines ih =>
    have hl := (h line List.mem_cons_self).2
    have hls := fun l hl => h l (List.mem_cons_of_mem line hl)
    rw [List.flatMap_cons, List.append_assoc, List.append_assoc, infix_append_of_notMem hl]
    have hcr : ¬ [cr, lf] <+: lines.flatMap (· ++ [cr, lf]) ++ [cr] := by
      cases lines with
      | nil => exact fun hp => absurd hp.length_le (by simp)
      | cons next lines =>
        -- the next line is not blank, and starts with another symbol
        obtain ⟨hne', hcr⟩ := hls next List.mem_cons_self
        obtain ⟨b, next, rfl⟩ := List.exists_cons_of_ne_nil hne'
        exact fun hp => hcr (by
          rw [List.flatMap_cons, List.cons_append, List.cons_append, List.cons_append] at hp
          rw [(List.cons_prefix_cons.mp hp).1]
          exact List.mem_cons_self)
    rw [List.cons_append, List.infix_cons_iff, not_or]
    constructor
    · exact fun hp => hcr (List.cons_prefix_cons.mp (List.cons_prefix_cons.mp hp).2).2
    · rw [List.cons_append, List.infix_cons_iff, not_or]
      exact ⟨fun hp => hne (List.cons_prefix_cons.mp hp).1, ih hls⟩

end Delimited
