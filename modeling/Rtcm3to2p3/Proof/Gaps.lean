import Rtcm3to2p3.Proof.Checker
import Rtcm3to2p3.Proof.Wire
import Rtcm3to2p3.Spec.Gaps

/-!
# The wire with gaps

A received word passes the decoder's parity exactly if its last six bits are
those of its data (`decodeWord_eq`), and so under one pair of seeds at most
(`decodeWord_seeds`). Wrong seeds therefore cost the first word of a message
and nothing else (`decodeWords_seeds`): `decode_gaps` says what is read of any
of the messages sent, from any seeds.
-/

namespace Rtcm.Proof

open Rtcm.Impl Rtcm.Spec BitString

/-! ## One word -/

/-- The inversion, undone. -/
def upright (w : Nat) : Nat := if w &&& 0x40000000 ≠ 0 then w ^^^ 0x3FFFFFC0 else w

/-- The parity the decoder computes. -/
def hamming (w : Nat) : Nat := HAMMING.foldl (fun p h => p <<< 1 ||| popcount (upright w &&& h) &&& 1) 0

theorem decodeWord_def (w : Nat) : decodeWord w =
    if hamming w ≠ w &&& 0x3F then none
    else some [UInt8.ofNat (upright w >>> 22), UInt8.ofNat (upright w >>> 14), UInt8.ofNat (upright w >>> 6)] := rfl

/-- A mask without the six low bits. -/
theorem and_high {m : Nat} (hm : m % 64 = 0) (v w : Nat) (h : v / 64 = w / 64) : v &&& m = w &&& m := by
  have hsplit : ∀ x, x &&& m = 64 * (x / 64 &&& m / 64) := fun x => by
    have h1 := Nat.and_div_two_pow (a := x) (b := m) (n := 6)
    have h2 := Nat.and_mod_two_pow (a := x) (b := m) (n := 6)
    rw [show (2 : Nat) ^ 6 = 64 from rfl] at h1 h2
    rw [hm, Nat.and_zero] at h2
    omega
  rw [hsplit, hsplit w, h]

theorem upright_div {v w : Nat} (h : v / 64 = w / 64) : upright v / 64 = upright w / 64 := by
  have hx : ∀ x, (x ^^^ 0x3FFFFFC0) / 64 = x / 64 ^^^ 0xFFFFFF := fun x =>
    Nat.xor_div_two_pow (a := x) (b := 0x3FFFFFC0) (n := 6)
  unfold upright
  rw [and_high (by decide) v w h]
  split
  · rw [hx, hx, h]
  · exact h

/-- The parity, the inversion and the data bytes leave the six last bits out. -/
theorem hamming_div {v w : Nat} (h : v / 64 = w / 64) : hamming v = hamming w := by
  have hm : ∀ m ∈ HAMMING, m % 64 = 0 := by decide
  exact List.foldl_ext _ _ _ fun p m hmem => by rw [and_high (hm m hmem) _ _ (upright_div h)]

theorem shiftRight_upright {v w : Nat} (h : v / 64 = w / 64) (n : Nat) :
    upright v >>> (6 + n) = upright w >>> (6 + n) := by
  have hd := upright_div h
  have h6 : ∀ x, x >>> 6 = x / 64 := fun x => Nat.shiftRight_eq_div_pow x 6
  rw [Nat.shiftRight_add, Nat.shiftRight_add, h6, h6, hd]

theorem ofBits_div_64 (bs : List Bool) {p : List Bool} (hp : p.length = 6) : ofBits (bs ++ p) / 64 = ofBits bs := by
  have h := ofBits_append_div bs p
  rwa [hp] at h

theorem ofBits_and_3F (bs : List Bool) {p : List Bool} (hp : p.length = 6) : ofBits (bs ++ p) &&& 0x3F = ofBits p := by
  have h := ofBits_append_mod bs p
  rw [hp] at h
  rwa [show (0x3F : Nat) = 2 ^ 6 - 1 from rfl, Nat.and_two_pow_sub_one_eq_mod]

/-- Received data and parity bits: decoded exactly if the parity is that of the
data, with the inversion undone. -/
theorem decodeWord_eq {l p : List Bool} (hl : l.length = 24) (hp : p.length = 6) (s29 s30 : Bool) :
    decodeWord (s29.toNat <<< 31 ||| s30.toNat <<< 30 ||| ofBits (l.map (· ^^ s30) ++ p)) =
      if p = parBits l s29 s30 then some (bigEndian 3 (ofBits l)) else none := by
  have hsent := decodeWord_wordBits hl s29 s30
  rw [word32_eq s29 s30 (length_wordBits hl s29 s30), wordBits] at hsent
  rw [word32_eq s29 s30 (by simp [hl, hp])]
  have hd : ofBits (s29 :: s30 :: (l.map (· ^^ s30) ++ p)) / 64 =
      ofBits (s29 :: s30 :: (l.map (· ^^ s30) ++ parBits l s29 s30)) / 64 := by
    rw [← List.cons_append, ← List.cons_append, ofBits_div_64 _ hp, ← List.cons_append, ← List.cons_append,
      ofBits_div_64 _ (length_parBits ..)]
  have hlow : ∀ {q : List Bool}, q.length = 6 →
      ofBits (s29 :: s30 :: (l.map (· ^^ s30) ++ q)) &&& 0x3F = ofBits q := fun hq => by
    rw [← List.cons_append, ← List.cons_append, ofBits_and_3F _ hq]
  rw [decodeWord_def, hlow (length_parBits ..)] at hsent
  rw [decodeWord_def, hlow hp, hamming_div hd, shiftRight_upright hd 16, shiftRight_upright hd 8,
    shiftRight_upright hd 0]
  split at hsent
  · cases hsent
  · rename_i hpar
    rw [not_not] at hpar
    rw [hpar, ← hsent]
    by_cases h : p = parBits l s29 s30
    · rw [if_pos h, if_neg (by rw [h]; simp)]
    · rw [if_neg h, if_pos fun he => h (ofBits_inj (hp.trans (length_parBits l s29 s30).symm) he.symm)]

/-! ## The seeds -/

/-- Other seeds, and an inversion, change the parity by that of the change. -/
theorem parBits_xor {l : List Bool} (hl : l.length = 24) (b s29 s30 t29 t30 : Bool) :
    parBits (l.map (· ^^ b)) t29 t30 =
      List.zipWith (· ^^ ·) (parBits l s29 s30) (parBits (List.replicate 24 b) (s29 ^^ t29) (s30 ^^ t30)) := by
  simp only [parBits, List.zipWith_map, List.zipWith_self]
  refine List.map_congr_left fun p hm => ?_
  have hsum : parity (p.1.map fun idx => (l.map (· ^^ b)).getD (idx - 1) false) =
      (parity (p.1.map fun idx => l.getD (idx - 1) false) ^^
        parity (p.1.map fun idx => (List.replicate 24 b).getD (idx - 1) false)) := by
    rw [← parity_map_xor]
    refine congrArg parity (List.map_congr_left fun idx hi => ?_)
    have hr := masks_range _ hm idx hi
    rw [List.getD_eq_getElem _ _ (by rw [List.length_map]; omega), List.getElem_map,
      List.getD_eq_getElem l _ (by omega), List.getD_eq_getElem _ _ (by rw [List.length_replicate]; omega),
      List.getElem_replicate]
  simp only [parity_cons, hsum]
  cases p.2 <;> cases s29 <;> cases s30 <;> cases t29 <;> cases t30 <;> simp

/-- No change of the seeds goes unnoticed. -/
theorem parBits_replicate :
    ∀ a b : Bool, parBits (List.replicate 24 b) a b = List.replicate 6 false → a = false ∧ b = false := by decide

/-- A received word passes under one pair of seeds at most. -/
theorem decodeWord_seeds {bits : List Bool} (h : bits.length = 30) {s29 s30 t29 t30 : Bool} {x y : List UInt8}
    (hx : decodeWord (s29.toNat <<< 31 ||| s30.toNat <<< 30 ||| ofBits bits) = some x)
    (hy : decodeWord (t29.toNat <<< 31 ||| t30.toNat <<< 30 ||| ofBits bits) = some y) : s29 = t29 ∧ s30 = t30 := by
  have hbits : ∀ s, bits = ((bits.take 24).map (· ^^ s)).map (· ^^ s) ++ bits.drop 24 := fun s => by
    simp [List.map_map, Function.comp_def]
  have hl : ∀ s, ((bits.take 24).map (· ^^ s)).length = 24 := fun s => by
    rw [List.length_map, List.length_take]
    omega
  have hp : (bits.drop 24).length = 6 := by rw [List.length_drop, h]
  have hpar : ∀ {u29 u30 : Bool} {z}, decodeWord (u29.toNat <<< 31 ||| u30.toNat <<< 30 ||| ofBits bits) = some z →
      bits.drop 24 = parBits ((bits.take 24).map (· ^^ u30)) u29 u30 := fun {u29 u30 z} hz => by
    rw [hbits u30, decodeWord_eq (hl u30) hp] at hz
    split at hz
    · assumption
    · cases hz
  have hs := hpar hx
  have ht := hpar hy
  have hd : ((bits.take 24).map (· ^^ s30)).map (· ^^ (s30 ^^ t30)) = (bits.take 24).map (· ^^ t30) := by
    rw [List.map_map]
    refine List.map_congr_left fun b _ => ?_
    cases b <;> cases s30 <;> cases t30 <;> rfl
  rw [← hd, parBits_xor (hl s30) (s30 ^^ t30) s29 s30, ← hs] at ht
  have hzero : parBits (List.replicate 24 (s30 ^^ t30)) (s29 ^^ t29) (s30 ^^ t30) = List.replicate 6 false := by
    rw [← zipWith_xor_right_inj (a := bits.drop 24) (by rw [hp, length_parBits]) (by rw [hp, List.length_replicate]),
      ← ht, ← hp, zipWith_xor_replicate]
    simp
  obtain ⟨h29, h30⟩ := parBits_replicate _ _ hzero
  exact ⟨by simpa using h29, by simpa using h30⟩

/-! ## Messages -/

/-- The bytes are those of the message: a decoder with its seeds reads its
words, and goes on with the seeds after it. -/
structure SentAs (m : OnAir) (out : Bytes) : Prop where
  ne_nil : m.words ≠ []
  bits : (deframeBits out).length = 30 * m.words.length
  decode : ∀ n rest, decodeWords (m.words.length + n) m.before.1 m.before.2 (deframeBits out ++ rest) =
    m.words.map some ++ decodeWords n m.after.1 m.after.2 rest

/-- Wrong seeds cost the first word, and only that. -/
theorem decodeWords_seeds {n : Nat} {bits : List Bool} (h : 30 ≤ bits.length) {s29 s30 : Bool} {w : List UInt8}
    {ws : List (Option (List UInt8))} (hs : decodeWords (n + 1) s29 s30 bits = some w :: ws) (u29 u30 : Bool) :
    decodeWords (n + 1) u29 u30 bits = (if (u29, u30) = (s29, s30) then some w else none) :: ws := by
  rw [decodeWords, List.cons.injEq] at hs ⊢
  obtain ⟨hw, hws⟩ := hs
  refine ⟨?_, hws⟩
  split
  · rename_i he
    cases he
    exact hw
  · rename_i hne
    cases hu : decodeWord (u29.toNat <<< 31 ||| u30.toNat <<< 30 ||| ofBits (bits.take 30)) with
    | none => rfl
    | some x =>
      have hlen : (bits.take 30).length = 30 := by
        rw [List.length_take]
        omega
      obtain ⟨rfl, rfl⟩ := decodeWord_seeds hlen hu hw
      exact absurd rfl hne

theorem SentAs.heard {m : OnAir} {out : Bytes} (h : SentAs m out) (u : Bool × Bool) (n : Nat) (rest : List Bool) :
    decodeWords (m.words.length + n) u.1 u.2 (deframeBits out ++ rest) =
      (if u = m.before then m.words.map some else none :: m.words.tail.map some) ++
        decodeWords n m.after.1 m.after.2 rest := by
  have hdec := h.decode n rest
  have hbits := h.bits
  obtain ⟨w, ws, hw⟩ := List.exists_cons_of_ne_nil h.ne_nil
  rw [hw, List.length_cons] at hdec hbits ⊢
  rw [Nat.add_right_comm] at hdec ⊢
  rw [List.map_cons, List.cons_append] at hdec
  rw [decodeWords_seeds (by rw [List.length_append]; omega) hdec]
  split <;> rfl

/-- What the decoder reads of messages one after the other. -/
theorem decodeWords_heard {got : List (OnAir × Bytes)} (h : ∀ x ∈ got, SentAs x.1 x.2) (u : Bool × Bool) :
    decodeWords ((deframeBits (got.map Prod.snd).flatten).length / 30) u.1 u.2
      (deframeBits (got.map Prod.snd).flatten) = heard u (got.map Prod.fst) := by
  have hlen : (deframeBits (got.map Prod.snd).flatten).length / 30 =
      (got.map fun x => x.1.words.length).sum := by
    have : (deframeBits (got.map Prod.snd).flatten).length = 30 * (got.map fun x => x.1.words.length).sum := by
      induction got with
      | nil => rfl
      | cons x got ih =>
        rw [List.map_cons, List.flatten_cons, deframeBits_append, List.length_append, (h x List.mem_cons_self).bits,
          ih fun y hy => h y (List.mem_cons_of_mem _ hy), List.map_cons, List.sum_cons, Nat.mul_add]
    rw [this, Nat.mul_div_cancel_left _ (by decide)]
  rw [hlen]
  clear hlen
  induction got generalizing u with
  | nil => rfl
  | cons x got ih =>
    simp only [List.map_cons, List.flatten_cons, deframeBits_append, List.sum_cons, heard]
    rw [(h x List.mem_cons_self).heard, ih fun y hy => h y (List.mem_cons_of_mem _ hy)]

/-- The words of a message that an encoder sends, from its seeds. -/
theorem sentAs_encodeWords (ws : List Nat) (hne : ws ≠ []) (s29 s30 : Bool) :
    ∃ out t29 t30, Rtcm2Encoder.encodeWords ⟨s29.toNat, s30.toNat⟩ ws = (.ok out, ⟨t29.toNat, t30.toNat⟩) ∧
      SentAs ⟨ws.map fun w => bigEndian 3 (w % 2 ^ 24), (s29, s30), (t29, t30)⟩ out := by
  obtain ⟨out, t29, t30, he, -, -, hbits, hdec⟩ := encodeWords_decode ws s29 s30
  refine ⟨out, t29, t30, he, by simpa using hne, by rw [List.length_map, hbits], fun n rest => ?_⟩
  rw [List.length_map, hdec, List.map_map]
  rfl

variable {K : Type} [Field K] [LinearOrder K] [FloorRing K]

/-- The calls that return send their messages, each after the seeds that the
one before it left. -/
theorem runCalls_sentAs (calls : List (Call K)) (s29 s30 : Bool) :
    ∃ sent, List.Forall₂ (fun x m => SentAs m x.2 ∧ parseMessage m.words.flatten = x.1.message)
      (runCalls ⟨s29.toNat, s30.toNat⟩ calls).1 sent ∧ Chained (s29, s30) sent := by
  induction calls generalizing s29 s30 with
  | nil => exact ⟨[], .nil, trivial⟩
  | cons c calls ih =>
    by_cases ha : Accepts c
    · obtain ⟨n, bs, hb, hrun⟩ := run_ok ⟨s29.toNat, s30.toNat⟩ ha
      have hne : wordsOf (2 + n) bs ≠ [] := List.length_pos_iff.mp (by rw [length_wordsOf]; omega)
      obtain ⟨out, t29, t30, he, hc⟩ := sentAs_encodeWords (wordsOf (2 + n) bs) hne s29 s30
      obtain ⟨sent, hsent, hchain⟩ := ih t29 t30
      rw [runCalls, hrun, he]
      have hparse := hb.parse _ hb.bits
      rw [dataBytes, List.flatMap_def] at hparse
      exact ⟨_ :: sent, .cons ⟨hc, hparse⟩ hsent, rfl, hc.ne_nil, hchain⟩
    · obtain ⟨msg, hrun⟩ := run_error ⟨s29.toNat, s30.toNat⟩ ha
      rw [runCalls, hrun]
      exact ih s29 s30

/-! ## What is read -/

/-- No word is read as another. -/
theorem heard_words {ms : List OnAir} (h : ∀ m ∈ ms, m.words ≠ []) (u : Bool × Bool) :
    List.Forall₂ (fun w read => read = some w ∨ read = none) (ms.flatMap OnAir.words) (heard u ms) := by
  have hsome : ∀ ws : List (List UInt8),
      List.Forall₂ (fun w read => read = some w ∨ read = none) ws (ws.map some) := fun ws => by
    induction ws with
    | nil => exact .nil
    | cons w ws ih => exact .cons (.inl rfl) ih
  induction ms generalizing u with
  | nil => exact .nil
  | cons m ms ih =>
    obtain ⟨w, ws, hw⟩ := List.exists_cons_of_ne_nil (h m List.mem_cons_self)
    rw [List.flatMap_cons, heard, hw]
    refine List.rel_append ?_ (ih (fun m hm => h m (List.mem_cons_of_mem _ hm)) m.after)
    split
    · exact hsome (w :: ws)
    · exact .cons (.inr rfl) (hsome ws)

theorem countP_heard (u : Bool × Bool) (ms : List OnAir) : (heard u ms).countP Option.isNone = misseeded u ms := by
  have hsome : ∀ ws : List (List UInt8), (ws.map some).countP Option.isNone = 0 := fun ws =>
    List.countP_eq_zero.mpr fun o ho => by
      obtain ⟨w, -, rfl⟩ := List.mem_map.mp ho
      simp
  induction ms generalizing u with
  | nil => rfl
  | cons m ms ih =>
    rw [heard, misseeded, List.countP_append, ih]
    split
    · rw [hsome]
    · rw [List.countP_cons_of_pos rfl, hsome]

theorem heard_chained {u : Bool × Bool} {ms : List OnAir} (h : Chained u ms) :
    heard u ms = (ms.flatMap OnAir.words).map some := by
  induction ms generalizing u with
  | nil => rfl
  | cons m ms ih =>
    rw [heard, if_pos h.1.symm, ih h.2.2, List.flatMap_cons, List.map_append]

theorem chained_drop {u : Bool × Bool} {pre ms : List OnAir} (h : Chained u (pre ++ ms)) : ∃ v, Chained v ms := by
  induction pre generalizing u with
  | nil => exact ⟨u, h⟩
  | cons m pre ih => exact ih h.2.2

theorem chained_take {u : Bool × Bool} {ms post : List OnAir} (h : Chained u (ms ++ post)) : Chained u ms := by
  induction ms generalizing u with
  | nil => trivial
  | cons m ms ih => exact ⟨h.1, h.2.1, ih h.2.2⟩

theorem chained_ne_nil {u : Bool × Bool} {ms : List OnAir} (h : Chained u ms) : ∀ m ∈ ms, m.words ≠ [] := by
  induction ms generalizing u with
  | nil => exact fun m hm => absurd hm List.not_mem_nil
  | cons m ms ih => exact List.forall_mem_cons.mpr ⟨h.2.1, ih h.2.2⟩

/-- Of messages without a gap between them, all but the first word is read. -/
theorem heard_infix {u v : Bool × Bool} {got ms : List OnAir} (h : Chained u ms) (hi : got <:+: ms) :
    (heard v got).tail = ((got.flatMap OnAir.words).map some).tail := by
  obtain ⟨pre, post, rfl⟩ := hi
  obtain ⟨s, hs⟩ := chained_drop (chained_take h)
  cases got with
  | nil => rfl
  | cons m got =>
    obtain ⟨w, ws, hw⟩ := List.exists_cons_of_ne_nil hs.2.1
    rw [heard, heard_chained hs.2.2, List.flatMap_cons, List.map_append, hw]
    split <;> rfl

/-- What the decoder reads of some of the messages sent. -/
theorem decodeWords_got {log : List (Call K × Bytes)} {sent : List OnAir}
    (hsent : List.Forall₂ (fun x m => SentAs m x.2 ∧ parseMessage m.words.flatten = x.1.message) log sent)
    {got : List ((Call K × Bytes) × OnAir)} (hgot : got.Sublist (log.zip sent)) (u : Bool × Bool) :
    let W := (got.map fun x => x.1.2).flatten
    decodeWords ((deframeBits W).length / 30) u.1 u.2 (deframeBits W) = heard u (got.map Prod.snd) := by
  intro W
  have hsentAs : ∀ x ∈ got.map fun x => (x.2, x.1.2), SentAs x.1 x.2 := by
    intro x hx
    obtain ⟨y, hy, rfl⟩ := List.mem_map.mp hx
    exact ((List.forall₂_iff_zip.mp hsent).2 (hgot.subset hy)).1
  have hdec := decodeWords_heard hsentAs u
  have hbytes : (got.map fun x => (x.2, x.1.2)).map Prod.snd = got.map fun x => x.1.2 := by
    rw [List.map_map]
    rfl
  have hmsgs : (got.map fun x => (x.2, x.1.2)).map Prod.fst = got.map Prod.snd := by
    rw [List.map_map]
    rfl
  rwa [hbytes, hmsgs] at hdec

/-- Any calls on one encoder, any of the messages sent, and any seeds of the
decoder: it reads every word as it was sent, but the first of a message that
was sent after other seeds than the decoder has, which is a parity violation;
no word is read as another, and of messages without a gap all but the first
word is read. -/
theorem decode_gaps (d29star d30star : Bool) (calls : List (Call K)) :
    let log := (runCalls ⟨d29star.toNat, d30star.toNat⟩ calls).1
    ∃ sent, List.Forall₂ (fun x m => parseMessage m.words.flatten = x.1.message) log sent ∧
      Chained (d29star, d30star) sent ∧
      ∀ got, got.Sublist (log.zip sent) → ∀ u29 u30,
        let W := (got.map fun x => x.1.2).flatten
        let ms := got.map Prod.snd
        decodeWords ((deframeBits W).length / 30) u29 u30 (deframeBits W) = heard (u29, u30) ms ∧
        List.Forall₂ (fun w read => read = some w ∨ read = none) (ms.flatMap OnAir.words) (heard (u29, u30) ms) ∧
        (decodeStream u29 u30 W).violations = misseeded (u29, u30) ms ∧
        (got <:+: log.zip sent → (heard (u29, u30) ms).tail = ((ms.flatMap OnAir.words).map some).tail) := by
  intro log
  obtain ⟨sent, hsent, hchain⟩ := runCalls_sentAs calls d29star d30star
  refine ⟨sent, hsent.imp fun x m h => h.2, hchain, fun got hgot u29 u30 => ?_⟩
  intro W ms
  have hdec : decodeWords ((deframeBits W).length / 30) u29 u30 (deframeBits W) = heard (u29, u30) ms :=
    decodeWords_got hsent hgot (u29, u30)
  have hzip : ∀ got', got' <:+: log.zip sent → got'.map Prod.snd <:+: sent := fun got' h => by
    have hmap := h.map Prod.snd
    rwa [List.map_snd_zip (le_of_eq hsent.length_eq.symm)] at hmap
  refine ⟨hdec, heard_words (fun m hm => ?_) _, ?_, fun hi => heard_infix hchain (hzip got hi)⟩
  · obtain ⟨x, hx, rfl⟩ := List.mem_map.mp hm
    exact chained_ne_nil hchain _ (List.of_mem_zip (hgot.subset hx)).2
  · simp only [decodeStream, hdec]
    exact countP_heard _ _

end Rtcm.Proof
