import Mathlib.Data.Nat.Bitwise
import Mathlib.Data.Nat.Bits
import Mathlib.Data.List.GetD
import Mathlib.Data.List.Induction
import Mathlib.Tactic.Ring

/-!
# Bit strings, most significant bit first

A list of bits and the number it writes (`ofBits`), the `n` low bits of a
number (`toBits`), and the bits of a list of bytes (`ofBytes`). `ofBits` and
`toBits` are inverse to each other (`toBits_ofBits`, `ofBits_toBits`), and the
big-endian bytes of a number hold its bits (`ofBytes_bigEndian`).

`parity` is the exclusive or of a bit string. Masking a number and counting
the ones that remain is, modulo two, the parity of the masked bit string
(`popcount_and`), which is the parity of the bits at the mask's positions
(`parity_zipWith`).
-/

namespace BitString

/-- The number a bit string writes. -/
def ofBits (bs : List Bool) : Nat := bs.foldl (fun a b => 2 * a + b.toNat) 0

/-- The `n` low bits of `v`. -/
def toBits : Nat → Nat → List Bool
  | 0, _ => []
  | n + 1, v => v.testBit n :: toBits n v

/-- The bits of a byte string. -/
def ofBytes (l : List UInt8) : List Bool := l.flatMap fun b => toBits 8 b.toNat

/-- The `n` bytes of `v`, most significant byte first. -/
def bigEndian (n v : Nat) : List UInt8 :=
  (List.range n).map fun i => UInt8.ofNat (v >>> (8 * (n - 1 - i)))

/-! ## Numbers and bit strings -/

theorem foldl_bits (bs : List Bool) (a : Nat) :
    bs.foldl (fun a b => 2 * a + b.toNat) a = a * 2 ^ bs.length + ofBits bs := by
  induction bs generalizing a with
  | nil => simp [ofBits]
  | cons b bs ih =>
    simp only [ofBits, List.foldl_cons, Nat.mul_zero, Nat.zero_add]
    rw [ih, ih b.toNat, List.length_cons, pow_succ]
    ring

@[simp] theorem ofBits_nil : ofBits [] = 0 := rfl

@[simp] theorem ofBits_cons (b : Bool) (bs : List Bool) :
    ofBits (b :: bs) = b.toNat * 2 ^ bs.length + ofBits bs := by
  simp only [ofBits, List.foldl_cons, Nat.mul_zero, Nat.zero_add]
  rw [foldl_bits]
  rfl

theorem ofBits_append (xs ys : List Bool) :
    ofBits (xs ++ ys) = ofBits xs * 2 ^ ys.length + ofBits ys := by
  rw [ofBits, List.foldl_append, foldl_bits]
  rfl

theorem ofBits_lt (bs : List Bool) : ofBits bs < 2 ^ bs.length := by
  induction bs with
  | nil => simp
  | cons b bs ih =>
    rw [ofBits_cons, List.length_cons, pow_succ]
    have := Bool.toNat_le b
    rcases Nat.le_one_iff_eq_zero_or_eq_one.mp this with h | h <;> rw [h] <;> omega

@[simp] theorem length_toBits (n v : Nat) : (toBits n v).length = n := by
  induction n with
  | zero => rfl
  | succ n ih => rw [toBits, List.length_cons, ih]

/-- The `n` low bits depend on nothing above them. -/
theorem toBits_congr {n v w : Nat} (h : v % 2 ^ n = w % 2 ^ n) : toBits n v = toBits n w := by
  induction n with
  | zero => rfl
  | succ n ih =>
    have hd : 2 ^ n ∣ 2 ^ (n + 1) := pow_dvd_pow 2 (Nat.le_succ n)
    have ht : v.testBit n = w.testBit n := by
      have := congrArg (fun x => x.testBit n) h
      simpa only [Nat.testBit_mod_two_pow, Nat.lt_succ_self, decide_true, Bool.true_and] using this
    rw [toBits, toBits, ht, ih (by rw [← Nat.mod_mod_of_dvd v hd, h, Nat.mod_mod_of_dvd w hd])]

theorem testBit_toNat (v n : Nat) : (v.testBit n).toNat = v / 2 ^ n % 2 := by
  rw [Nat.testBit, Nat.one_and_eq_mod_two, Nat.shiftRight_eq_div_pow]
  rcases Nat.mod_two_eq_zero_or_one (v / 2 ^ n) with h | h <;> simp [h]

theorem ofBits_toBits (n v : Nat) : ofBits (toBits n v) = v % 2 ^ n := by
  induction n with
  | zero => simp [toBits, Nat.mod_one]
  | succ n ih =>
    rw [toBits, ofBits_cons, ih, length_toBits, testBit_toNat, Nat.pow_succ, Nat.mod_mul]
    ring

theorem ofBits_inj {xs ys : List Bool} (hl : xs.length = ys.length) (h : ofBits xs = ofBits ys) :
    xs = ys := by
  induction xs generalizing ys with
  | nil => exact (List.length_eq_zero_iff.mp hl.symm).symm
  | cons x xs ih =>
    cases ys with
    | nil => simp at hl
    | cons y ys =>
      have hl' : xs.length = ys.length := by simpa using hl
      rw [ofBits_cons, ofBits_cons, hl'] at h
      have hx := ofBits_lt xs
      have hy := ofBits_lt ys
      rw [hl'] at hx
      have hb : x = y := by
        cases x <;> cases y <;> simp only [Bool.toNat_false, Bool.toNat_true] at h ⊢ <;> omega
      subst hb
      rw [ih hl' (by omega)]

theorem toBits_ofBits (bs : List Bool) : toBits bs.length (ofBits bs) = bs :=
  ofBits_inj (length_toBits _ _) (by rw [ofBits_toBits, Nat.mod_eq_of_lt (ofBits_lt bs)])

theorem toBits_add (m n v : Nat) : toBits (m + n) v = toBits m (v / 2 ^ n) ++ toBits n v := by
  refine ofBits_inj (by simp) ?_
  rw [ofBits_append, ofBits_toBits, ofBits_toBits, ofBits_toBits, length_toBits, Nat.add_comm m n,
    Nat.pow_add, Nat.mod_mul]
  ring

theorem shiftLeft_or {v n : Nat} (a : Nat) (h : v < 2 ^ n) : a <<< n ||| v = a * 2 ^ n + v := by
  rw [← Nat.shiftLeft_add_eq_or_of_lt h, Nat.shiftLeft_eq]

/-- Shifting `n` bits in writes them at the end. -/
theorem ofBits_shiftLeft_or {v n : Nat} (bs : List Bool) (h : v < 2 ^ n) :
    ofBits bs <<< n ||| v = ofBits (bs ++ toBits n v) := by
  rw [shiftLeft_or _ h, ofBits_append, ofBits_toBits, length_toBits, Nat.mod_eq_of_lt h]

theorem toBits_getElem? (v : Nat) {n i : Nat} (h : i < n) :
    (toBits n v)[i]? = some (v.testBit (n - 1 - i)) := by
  induction n generalizing i with
  | zero => omega
  | succ n ih =>
    cases i with
    | zero => simp [toBits]
    | succ i =>
      rw [toBits, List.getElem?_cons_succ, ih (by omega), show n + 1 - 1 - (i + 1) = n - 1 - i by omega]

theorem ofBits_replicate_false (n : Nat) : ofBits (List.replicate n false) = 0 := by
  induction n with
  | zero => rfl
  | succ n ih => rw [List.replicate_succ, ofBits_cons, ih]; simp

theorem ofBits_replicate_true (n : Nat) : ofBits (List.replicate n true) = 2 ^ n - 1 := by
  induction n with
  | zero => rfl
  | succ n ih =>
    rw [List.replicate_succ, ofBits_cons, ih, List.length_replicate, Bool.toNat_true, pow_succ]
    have := Nat.two_pow_pos n
    omega

/-- Shifting the bits `f x` in one by one writes them. -/
theorem foldl_shiftLeft_or {α : Type*} (f : α → Bool) (l : List α) (bs : List Bool) :
    l.foldl (fun a x => a <<< 1 ||| (f x).toNat) (ofBits bs) = ofBits (bs ++ l.map f) := by
  induction l generalizing bs with
  | nil => simp
  | cons x l ih =>
    have h : ofBits bs <<< 1 ||| (f x).toNat = ofBits (bs ++ [f x]) := by
      rw [shiftLeft_or _ (by have := Bool.toNat_le (f x); omega), ofBits_append]
      simp
    rw [List.foldl_cons, h, ih, List.append_assoc, List.map_cons, List.singleton_append]

/-- The low bits of a longer string. -/
theorem ofBits_append_mod (xs ys : List Bool) : ofBits (xs ++ ys) % 2 ^ ys.length = ofBits ys := by
  rw [ofBits_append, Nat.mul_add_mod_self_right, Nat.mod_eq_of_lt (ofBits_lt ys)]

theorem ofBits_append_div (xs ys : List Bool) : ofBits (xs ++ ys) / 2 ^ ys.length = ofBits xs := by
  rw [ofBits_append, Nat.mul_comm, Nat.mul_add_div (Nat.two_pow_pos _), Nat.div_eq_of_lt (ofBits_lt ys),
    Nat.add_zero]

theorem toBits_ofBits_append (xs ys : List Bool) : toBits ys.length (ofBits (xs ++ ys)) = ys := by
  rw [toBits_congr (w := ofBits ys), toBits_ofBits]
  rw [ofBits_append_mod, Nat.mod_eq_of_lt (ofBits_lt ys)]

/-! ## Slices and signed numbers -/

/-- The `n` bits from position `p`. -/
def slice (bs : List Bool) (p n : Nat) : List Bool := (bs.drop p).take n

theorem length_slice {bs : List Bool} {p n : Nat} (h : p + n ≤ bs.length) : (slice bs p n).length = n := by
  simp only [slice, List.length_take, List.length_drop]; omega

theorem slice_succ {bs : List Bool} {p n : Nat} (h : p < bs.length) :
    slice bs p (n + 1) = bs[p] :: slice bs (p + 1) n := by
  rw [slice, List.drop_eq_getElem_cons h, List.take_succ_cons]
  rfl

/-- A slice past a first part. -/
theorem slice_right {xs : List Bool} (ys : List Bool) {p : Nat} (n : Nat) (h : xs.length ≤ p) :
    slice (xs ++ ys) p n = slice ys (p - xs.length) n := by
  simp only [slice, List.drop_append, List.drop_eq_nil_of_le h, List.nil_append]

/-- A slice that is the first part. -/
theorem slice_left {xs : List Bool} (ys : List Bool) {n : Nat} (h : xs.length = n) :
    slice (xs ++ ys) 0 n = xs := by
  simp [slice, ← h]

theorem slice_self {xs : List Bool} {n : Nat} (h : xs.length = n) : slice xs 0 n = xs := by
  simp [slice, ← h]

/-- The number a bit string writes in two's complement. -/
def signed (bs : List Bool) : Int :=
  if bs.head? = some true then (ofBits bs : Int) - 2 ^ bs.length else ofBits bs

theorem head_ofBits {bs : List Bool} : bs.head? = some true ↔ 2 ^ (bs.length - 1) ≤ ofBits bs ∧ bs ≠ [] := by
  cases bs with
  | nil => simp
  | cons b bs =>
    have := ofBits_lt bs
    have := Nat.two_pow_pos bs.length
    cases b <;>
      simp only [List.head?_cons, Option.some.injEq, ofBits_cons, Bool.toNat_false, Bool.toNat_true,
        List.length_cons, Nat.add_sub_cancel, ne_eq, reduceCtorEq, not_false_eq_true, and_true,
        Bool.false_eq_true, false_iff, true_iff] <;> omega

/-! ## Bytes -/

@[simp] theorem ofBytes_nil : ofBytes [] = [] := rfl

@[simp] theorem ofBytes_cons (b : UInt8) (l : List UInt8) :
    ofBytes (b :: l) = toBits 8 b.toNat ++ ofBytes l := rfl

theorem ofBytes_append (l k : List UInt8) : ofBytes (l ++ k) = ofBytes l ++ ofBytes k :=
  List.flatMap_append

@[simp] theorem length_ofBytes (l : List UInt8) : (ofBytes l).length = 8 * l.length := by
  induction l with
  | nil => rfl
  | cons b l ih => rw [ofBytes_cons, List.length_append, length_toBits, ih, List.length_cons]; omega

/-- Bit `p` of a byte string is bit `7 - p mod 8` of byte `⌊p / 8⌋`. -/
theorem ofBytes_getElem? {l : List UInt8} {p : Nat} (h : p < 8 * l.length) :
    (ofBytes l)[p]? = some ((l.getD (p / 8) 0).toNat.testBit (7 - p % 8)) := by
  induction l generalizing p with
  | nil => simp at h
  | cons b l ih =>
    rw [ofBytes_cons]
    by_cases hp : p < 8
    · rw [List.getElem?_append_left (by rw [length_toBits]; exact hp), toBits_getElem? _ hp,
        Nat.div_eq_of_lt hp, Nat.mod_eq_of_lt hp]
      rfl
    · rw [List.length_cons] at h
      rw [List.getElem?_append_right (by rw [length_toBits]; omega), length_toBits, ih (by omega),
        show p / 8 = (p - 8) / 8 + 1 by omega, show (p - 8) % 8 = p % 8 by omega,
        List.getD_cons_succ]

theorem bigEndian_succ (n v : Nat) :
    bigEndian (n + 1) v = UInt8.ofNat (v >>> (8 * n)) :: bigEndian n v := by
  simp only [bigEndian, List.range_succ_eq_map, List.map_cons, List.map_map, Nat.sub_zero,
    Nat.add_sub_cancel]
  refine congrArg (_ :: ·) (List.map_congr_left fun i _ => ?_)
  simp only [Function.comp_apply, show n - (i + 1) = n - 1 - i by omega]

@[simp] theorem length_bigEndian (n v : Nat) : (bigEndian n v).length = n := by simp [bigEndian]

/-- The big-endian bytes of a number hold its bits. -/
theorem ofBytes_bigEndian (n v : Nat) : ofBytes (bigEndian n v) = toBits (8 * n) v := by
  induction n with
  | zero => rfl
  | succ n ih =>
    rw [bigEndian_succ, ofBytes_cons, ih, show 8 * (n + 1) = 8 + 8 * n by omega, toBits_add]
    refine congrArg (· ++ _) (toBits_congr ?_)
    rw [UInt8.toNat_ofNat', Nat.shiftRight_eq_div_pow, Nat.mod_mod_of_dvd _ (by decide)]

theorem ofBytes_inj {l k : List UInt8} (h : ofBytes l = ofBytes k) : l = k := by
  induction l generalizing k with
  | nil =>
    have := congrArg List.length h
    rw [length_ofBytes, length_ofBytes, List.length_nil] at this
    exact (List.length_eq_zero_iff.mp (by omega)).symm
  | cons a l ih =>
    cases k with
    | nil =>
      have := congrArg List.length h
      rw [length_ofBytes, length_ofBytes] at this
      simp at this
    | cons b k =>
      rw [ofBytes_cons, ofBytes_cons] at h
      obtain ⟨h1, h2⟩ := List.append_inj h (by simp)
      have hab := congrArg ofBits h1
      rw [ofBits_toBits, ofBits_toBits, Nat.mod_eq_of_lt a.toNat_lt, Nat.mod_eq_of_lt b.toNat_lt] at hab
      rw [UInt8.toNat_inj.mp hab, ih h2]

/-! ## Parity -/

/-- The exclusive or of a bit string. -/
def parity (bs : List Bool) : Bool := bs.foldl Bool.xor false

theorem foldl_xor (bs : List Bool) (a : Bool) : bs.foldl Bool.xor a = Bool.xor a (parity bs) := by
  induction bs generalizing a with
  | nil => simp [parity]
  | cons b bs ih =>
    simp only [parity, List.foldl_cons]
    rw [ih, ih (Bool.xor false b), Bool.false_xor, Bool.xor_assoc]

@[simp] theorem parity_nil : parity [] = false := rfl

@[simp] theorem parity_cons (b : Bool) (bs : List Bool) :
    parity (b :: bs) = Bool.xor b (parity bs) := by
  rw [parity, List.foldl_cons, foldl_xor, Bool.false_xor]

theorem parity_append (as bs : List Bool) : parity (as ++ bs) = (parity as ^^ parity bs) := by
  rw [parity, List.foldl_append, foldl_xor, ← parity]

theorem parity_map_xor {α : Type*} (f g : α → Bool) (l : List α) :
    parity (l.map fun a => f a ^^ g a) = (parity (l.map f) ^^ parity (l.map g)) := by
  induction l with
  | nil => rfl
  | cons a l ih =>
    simp only [List.map_cons, parity_cons, ih, Bool.xor_assoc, Bool.xor_left_comm]

theorem parity_count (bs : List Bool) : parity bs = decide (bs.count true % 2 = 1) := by
  induction bs with
  | nil => rfl
  | cons b bs ih =>
    rw [parity_cons, ih]
    cases b
    · simp
    · simp only [List.count_cons_self, Bool.true_xor]
      rcases Nat.mod_two_eq_zero_or_one (bs.count true) with h | h <;> simp [Nat.add_mod, h]

/-- The positions a mask selects. -/
def positions (hs : List Bool) : List Nat := (List.range hs.length).filter fun i => hs.getD i false

/-- The parity of a masked bit string is that of the bits the mask selects. -/
theorem parity_zipWith {xs hs : List Bool} (h : xs.length = hs.length) :
    parity (List.zipWith (· && ·) xs hs) = parity ((positions hs).map fun i => xs.getD i false) := by
  induction hs generalizing xs with
  | nil => simp [positions]
  | cons m hs ih =>
    cases xs with
    | nil => simp at h
    | cons x xs =>
      have hp : positions (m :: hs) = (if m then [0] else []) ++ (positions hs).map (· + 1) := by
        simp only [positions, List.length_cons, List.range_succ_eq_map, List.filter_cons,
          List.getD_cons_zero, List.filter_map]
        cases m <;> simp [Function.comp_def]
      rw [List.zipWith_cons_cons, parity_cons, ih (by simpa using h), hp]
      cases m <;> simp [Function.comp_def]

/-- The ones of a number. -/
def popcount (n : Nat) : Nat := n.bits.count true

theorem popcount_bit (n : Nat) (b : Bool) : popcount (2 * n + b.toNat) = popcount n + b.toNat := by
  have hb : 2 * n + b.toNat = Nat.bit b n := (Nat.bit_val b n).symm
  by_cases h : n = 0 ∧ b = false
  · obtain ⟨rfl, rfl⟩ := h; rfl
  · rw [popcount, hb, Nat.bits_append_bit n b fun hn => by
      cases b
      · exact absurd ⟨hn, rfl⟩ h
      · rfl]
    cases b <;> simp [popcount]

theorem popcount_ofBits (bs : List Bool) : popcount (ofBits bs) = bs.count true := by
  induction bs using List.reverseRecOn with
  | nil => rfl
  | append_singleton bs b ih =>
    rw [ofBits_append, ofBits_cons, ofBits_nil, Nat.add_zero, List.length_singleton, List.length_nil,
      pow_zero, pow_one, Nat.mul_one, Nat.mul_comm, popcount_bit, ih, List.count_append]
    cases b <;> simp

/-- A bitwise operation on two numbers, one bit at a time. -/
theorem ofBits_zipWith {op : Nat → Nat → Nat} {f : Bool → Bool → Bool} (h0 : f false false = false)
    (hop : ∀ m n i, (op m n).testBit i = f (m.testBit i) (n.testBit i)) {xs hs : List Bool}
    (h : xs.length = hs.length) : op (ofBits xs) (ofBits hs) = ofBits (List.zipWith f xs hs) := by
  induction xs using List.reverseRecOn generalizing hs with
  | nil =>
    rw [List.length_eq_zero_iff.mp h.symm]
    exact Nat.eq_of_testBit_eq fun i => by rw [hop]; simp [h0]
  | append_singleton xs x ih =>
    rcases List.eq_nil_or_concat hs with rfl | ⟨hs, m, rfl⟩
    · simp at h
    · simp only [List.concat_eq_append, List.length_append, List.length_singleton,
        Nat.add_right_cancel_iff] at h ⊢
      rw [List.zipWith_append h]
      simp only [ofBits_append, List.zipWith_cons_cons, List.zipWith_nil_left, ofBits_cons, ofBits_nil,
        List.length_singleton, List.length_nil, pow_zero, pow_one, Nat.mul_one, Nat.add_zero, ← ih h]
      apply Nat.eq_of_testBit_eq
      intro i
      simp only [Nat.mul_comm _ 2, ← Nat.bit_val, hop]
      cases i with
      | zero => simp only [Nat.testBit_bit_zero]
      | succ i => simp only [Nat.testBit_bit_succ, hop]

theorem ofBits_xor {xs hs : List Bool} (h : xs.length = hs.length) :
    ofBits xs ^^^ ofBits hs = ofBits (List.zipWith (· ^^ ·) xs hs) :=
  ofBits_zipWith rfl (fun m n i => Nat.testBit_xor m n i) h

theorem ofBits_and {xs hs : List Bool} (h : xs.length = hs.length) :
    ofBits xs &&& ofBits hs = ofBits (List.zipWith (· && ·) xs hs) :=
  ofBits_zipWith rfl (fun m n i => Nat.testBit_and m n i) h

/-- Masking and counting the ones, modulo two: the parity of the bits at the
mask's positions. -/
theorem popcount_and {xs hs : List Bool} (h : xs.length = hs.length) :
    popcount (ofBits xs &&& ofBits hs) % 2 =
      (parity ((positions hs).map fun i => xs.getD i false)).toNat := by
  rw [ofBits_and h, popcount_ofBits, ← parity_zipWith h, parity_count]
  rcases Nat.mod_two_eq_zero_or_one ((List.zipWith (· && ·) xs hs).count true) with h | h <;> simp [h]

end BitString
