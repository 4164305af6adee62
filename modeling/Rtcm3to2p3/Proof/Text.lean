import Rtcm3to2p3.Impl.Text

/-!
# Text on the wire

`decode` undoes `encode` (`decode_encode`). A carriage return is a byte of an
encoded text only where it is a character of it (`mem_of_mem_encode`), and is
none of base64 (`cr_notMem_b64encode`).

Whatever the bytes are, those from a character of ASCII on are decoded on their
own (`decode_append`).
-/

namespace Rtcm.Proof

open Rtcm.Impl

theorem encode_append (s t : String) : encode (s ++ t) = encode s ++ encode t := by
  rw [encode, String.toList_append, List.flatMap_append]
  rfl

theorem decodeFrom_skip (t s : Bytes) : decodeFrom t.length (t ++ s) = decodeFrom 0 s := by
  induction t with
  | nil => rfl
  | cons b t ih =>
    rw [← ih]
    rfl

theorem decodeFrom_char (c : Char) (s : Bytes) :
    decodeFrom 0 (String.utf8EncodeChar c ++ s) = c :: decodeFrom 0 s := by
  obtain ⟨b, t, hb⟩ := List.exists_cons_of_ne_nil (String.utf8EncodeChar_ne_nil (c := c))
  have hl : c.utf8Size - 1 = t.length := by
    rw [← String.length_utf8EncodeChar, hb, List.length_cons, Nat.add_sub_cancel]
  have hd : (b :: (t ++ s)).toByteArray.utf8DecodeChar? 0 = some c := by
    rw [← List.cons_append, ← hb, List.toByteArray_append]
    exact ByteArray.utf8DecodeChar?_utf8EncodeChar_append
  rw [hb, List.cons_append, decodeFrom, hd]
  simp only [hl, decodeFrom_skip]

theorem decode_encode (s : String) : decode (encode s) = s.toList := by
  unfold encode decode
  induction s.toList with
  | nil => rfl
  | cons c s ih => rw [List.flatMap_cons, decodeFrom_char, ih]

theorem encode_intercalate (sep : String) (lines : List String) :
    encode (sep.intercalate lines) = (encode sep).intercalate (lines.map encode) := by
  induction lines with
  | nil => rfl
  | cons line lines ih =>
    cases lines with
    | nil => rw [String.intercalate_singleton, List.map_singleton, List.intercalate_singleton]
    | cons line' lines =>
      rw [String.intercalate_cons_cons, encode_append, encode_append, ih, List.map_cons, List.map_cons,
        List.map_cons, List.intercalate_cons_cons]

/-- Lines without a carriage return are found where they were joined. -/
theorem split_decode {lines : List String} (hne : lines ≠ []) (h : ∀ line ∈ lines, '\r' ∉ line.toList) :
    Delimited.split "\r\n".toList (decode (encode ("\r\n".intercalate lines))) = lines.map String.toList := by
  rw [decode_encode, String.toList_intercalate]
  refine Delimited.split_intercalate (fun hm => hne (List.map_eq_nil_iff.mp hm)) fun line hl => ?_
  obtain ⟨text, ht, rfl⟩ := List.mem_map.mp hl
  exact h text ht

/-- The bytes of a character that is not ASCII are not ASCII. -/
theorem mem_utf8EncodeChar {c : Char} {b : UInt8} (hb : b < 128) (h : b ∈ String.utf8EncodeChar c) :
    c.toNat = b.toNat := by
  have hb' : b.toNat < 128 := hb
  simp only [String.utf8EncodeChar] at h
  split at h
  · rename_i hc
    rw [List.mem_singleton.mp h]
    rw [UInt8.toNat_ofNat']
    exact (Nat.mod_eq_of_lt (Nat.lt_of_le_of_lt hc (by decide))).symm
  · exfalso
    split at h
    · simp only [List.mem_cons, List.not_mem_nil, or_false] at h
      rcases h with rfl | rfl <;> simp only [UInt8.toNat_ofNat'] at hb' <;> omega
    · split at h
      · simp only [List.mem_cons, List.not_mem_nil, or_false] at h
        rcases h with rfl | rfl | rfl <;> simp only [UInt8.toNat_ofNat'] at hb' <;> omega
      · simp only [List.mem_cons, List.not_mem_nil, or_false] at h
        rcases h with rfl | rfl | rfl | rfl <;> simp only [UInt8.toNat_ofNat'] at hb' <;> omega

theorem mem_of_mem_encode {s : String} {c : Char} (hc : c.toNat < 128) (h : UInt8.ofNat c.toNat ∈ encode s) :
    c ∈ s.toList := by
  obtain ⟨d, hd, hm⟩ := List.mem_flatMap.mp h
  have hb : (UInt8.ofNat c.toNat).toNat = c.toNat := by
    rw [UInt8.toNat_ofNat']
    exact Nat.mod_eq_of_lt (by omega)
  have he := mem_utf8EncodeChar (UInt8.lt_iff_toNat_lt.mpr (by rw [hb]; exact hc)) hm
  rw [hb] at he
  rwa [← Char.toNat_inj.mp he]

theorem base64Char_ne (n : Nat) : base64Char n ≠ '\r' := by
  have ha : "ABCDEFGHIJKLMNOPQRSTUVWXYZabcdefghijklmnopqrstuvwxyz0123456789+/".toList.all (· != '\r') = true := by decide
  unfold base64Char
  rcases Nat.lt_or_ge n "ABCDEFGHIJKLMNOPQRSTUVWXYZabcdefghijklmnopqrstuvwxyz0123456789+/".toList.length with h | h
  · rw [List.getD_eq_getElem _ _ h]
    exact bne_iff_ne.mp (List.all_eq_true.mp ha _ (List.getElem_mem h))
  · rw [List.getD_eq_default _ _ h]
    decide

theorem cr_notMem_b64encode (s : Bytes) : '\r' ∉ b64encode s := by
  have hne := fun n => (base64Char_ne n).symm
  have heq : '\r' ≠ '=' := by decide
  induction s using b64encode.induct with
  | case1 => exact List.not_mem_nil
  | case2 a => simp [b64encode, hne, heq]
  | case3 a b => simp [b64encode, hne, heq]
  | case4 a b c rest ih => simp [b64encode, hne, ih]

/-! ## Text that goes on with a character of ASCII -/

/-- The bytes begin with a character of ASCII, if there are any. -/
def StartsAscii (s : Bytes) : Prop := ∀ b, s.head? = some b → b < 128

theorem utf8DecodeChar?_take {c : Char} {t : Bytes} (h : String.utf8EncodeChar c <+: t) :
    t.toByteArray.utf8DecodeChar? 0 = some c := by
  obtain ⟨s, rfl⟩ := h
  rw [List.toByteArray_append]
  exact ByteArray.utf8DecodeChar?_utf8EncodeChar_append

theorem prefix_of_utf8DecodeChar? {c : Char} {t : Bytes} (h : t.toByteArray.utf8DecodeChar? 0 = some c) :
    String.utf8EncodeChar c <+: t := by
  obtain ⟨l, hl⟩ := ByteArray.exists_of_utf8DecodeChar?_eq_some h
  refine ⟨l.data.toList, ?_⟩
  have hlist := congrArg (fun b => b.data.toList) hl
  simpa using hlist.symm

theorem length_utf8EncodeChar_ascii {c : Char} (h : c.toNat < 128) : (String.utf8EncodeChar c).length = 1 := by
  rw [String.length_utf8EncodeChar]
  exact Char.utf8Size_eq_one_iff.mpr (UInt32.le_iff_toNat_le.mpr (Nat.le_of_lt_succ h))

/-- A character of ASCII is in no character that began before. -/
theorem utf8DecodeChar?_append {t s : Bytes} (ht : t ≠ []) (h : StartsAscii s) :
    (t ++ s).toByteArray.utf8DecodeChar? 0 = t.toByteArray.utf8DecodeChar? 0 := by
  cases hc : t.toByteArray.utf8DecodeChar? 0 with
  | some c => exact utf8DecodeChar?_take ((prefix_of_utf8DecodeChar? hc).trans (List.prefix_append t s))
  | none =>
    refine Option.eq_none_iff_forall_ne_some.mpr fun c hs => ?_
    have hnot : ¬ String.utf8EncodeChar c <+: t := fun hp => by
      rw [utf8DecodeChar?_take hp] at hc
      cases hc
    have hchar := prefix_of_utf8DecodeChar? hs
    obtain ⟨u, hu⟩ := (List.prefix_or_prefix_of_prefix hchar (List.prefix_append t s)).resolve_left hnot
    rw [← hu, List.prefix_append_right_inj] at hchar
    cases u with
    | nil => exact hnot (by rw [← hu, List.append_nil])
    | cons b u =>
      have hb : b < 128 := h b (List.head?_eq_some_iff.mpr (by
        obtain ⟨v, rfl⟩ := hchar
        exact ⟨u ++ v, rfl⟩))
      have hmem : b ∈ String.utf8EncodeChar c := hu ▸ List.mem_append_right t List.mem_cons_self
      have hlen := length_utf8EncodeChar_ascii (c := c) (by
        rw [mem_utf8EncodeChar hb hmem]
        exact hb)
      have hpos := List.length_pos_iff.mpr ht
      rw [← hu, List.length_append, List.length_cons] at hlen
      omega

theorem illFormed_tails_le (t : Bytes) : illFormed.tails t ≤ t.length + 2 := by
  unfold illFormed.tails
  split
  · rw [List.length_cons]
    split_ifs <;> omega
  · exact Nat.le_refl 2

theorem illFormed_le (b : UInt8) (t : Bytes) : illFormed (b :: t) ≤ t.length + 1 := by
  generalize hx : b :: t = x
  have hlen : t.length + 1 = x.length := by rw [← hx]; rfl
  rw [hlen]
  fun_cases illFormed x with
  | case5 b rest | case7 b rest | case10 a b rest => exact illFormed_tails_le rest
  | case12 => omega
  | _ =>
    simp only [List.length_cons]
    omega

/-- The bytes from the third on count only through what `tails` sees of them. -/
theorem illFormed_congr (a b : UInt8) {rest rest' : Bytes} (h : illFormed.tails rest = illFormed.tails rest') :
    illFormed (a :: b :: rest) = illFormed (a :: b :: rest') := by
  by_cases h0 : a = 0xE0
  · subst h0
    rfl
  by_cases h1 : a = 0xED
  · subst h1
    rfl
  by_cases h2 : a = 0xF0
  · subst h2
    simp only [illFormed, h]
  by_cases h3 : a = 0xF4
  · subst h3
    simp only [illFormed, h]
  · simp only [illFormed, h]

theorem not_le_ascii {b x : UInt8} (h : b < 128) (hx : (128 : UInt8) ≤ x) : ¬ x ≤ b := fun hle =>
  UInt8.not_le.mpr h (UInt8.le_trans hx hle)

theorem illFormed_ascii (a : UInt8) {b : UInt8} (h : b < 128) (rest : Bytes) : illFormed (a :: b :: rest) = 1 := by
  generalize hx : a :: b :: rest = x
  fun_cases illFormed x with
  | case1 _ _ hc | case3 _ _ hc | case5 _ _ hc | case7 _ _ hc =>
    cases hx
    exact absurd hc.1 (not_le_ascii h (by decide))
  | case9 _ _ _ _ _ _ _ hc | case10 _ _ _ _ _ _ _ _ hc =>
    cases hx
    exact absurd hc.2.2.1 (not_le_ascii h (by decide))
  | _ => rfl

theorem illFormed_append (b : UInt8) (t : Bytes) {s : Bytes} (h : StartsAscii s) :
    illFormed (b :: t ++ s) = illFormed (b :: t) := by
  match s, t with
  | [], t => rw [List.append_nil]
  | c :: s, [] =>
    have hone : illFormed [b] = 1 := by simp [illFormed]
    exact (illFormed_ascii b (h c rfl) s).trans hone.symm
  | d :: s, [c] => exact illFormed_congr b c (if_neg fun hd => not_le_ascii (h d rfl) (UInt8.le_refl 128) hd.1)
  | s, c :: d :: t => exact illFormed_congr b c rfl

theorem decodeFrom_append {t s : Bytes} (h : StartsAscii s) {k : Nat} (hk : k ≤ t.length) :
    decodeFrom k (t ++ s) = decodeFrom k t ++ decodeFrom 0 s := by
  induction k, t using decodeFrom.induct with
  | case1 k =>
    obtain rfl : k = 0 := Nat.le_zero.mp hk
    rfl
  | case2 k b t ih => exact ih (Nat.le_of_succ_le_succ hk)
  | case3 b t c hc ih =>
    have hd := (utf8DecodeChar?_append (List.cons_ne_nil b t) h).trans hc
    have hlen := (prefix_of_utf8DecodeChar? hc).length_le
    rw [String.length_utf8EncodeChar, List.length_cons] at hlen
    rw [List.cons_append] at hd ⊢
    rw [decodeFrom, decodeFrom, hd, hc]
    dsimp only
    rw [ih (by omega), List.cons_append]
  | case4 b t hc ih =>
    have hd := (utf8DecodeChar?_append (List.cons_ne_nil b t) h).trans hc
    have hlen := illFormed_le b t
    have hill := illFormed_append b t h
    rw [List.cons_append] at hd hill ⊢
    rw [decodeFrom, decodeFrom, hd, hc]
    dsimp only
    rw [hill, ih (by omega), List.cons_append]

theorem decode_append (t : Bytes) {s : Bytes} (h : StartsAscii s) : decode (t ++ s) = decode t ++ decode s :=
  decodeFrom_append h (Nat.zero_le _)

end Rtcm.Proof
