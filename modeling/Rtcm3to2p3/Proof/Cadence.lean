import Rtcm3to2p3.Proof.Sequence

/-!
# The cadence of the station

While the epochs that yield corrections advance by less than a week less the
interval, the last epoch is within an interval of the last Type 3 message, so
the time between that message and the next epoch is less than a week. Times of
week are milliseconds and the doubles of `elapsed` are less than one off
(`abs_elapsed_sub_lt`), so that the test modulo a week errs only on a whole
interval (`type3Recent_eq_true`, `type3Recent_eq_false`). The invariant is
`Kept`.
-/

namespace Rtcm.Proof

open Rtcm.Impl Rtcm.Spec

variable {K : Type} [Field K] [LinearOrder K]

/-! ## Streams -/

section

variable {interval : K} {L : List (K × Nat)}

theorem cadence_nil : Cadence interval ([] : List (K × Nat)) :=
  ⟨(fun _ _ h => nomatch h), .nil, (fun _ _ h => nomatch h)⟩

theorem getElem?_concat {α : Type} {l : List α} {x y : α} {i : Nat} (h : (l ++ [x])[i]? = some y) :
    i < l.length ∧ l[i]? = some y ∨ i = l.length ∧ x = y := by
  by_cases hlt : i < l.length
  · exact .inl ⟨hlt, List.getElem?_append_left hlt ▸ h⟩
  · rw [List.getElem?_append_right (by omega), List.getElem?_singleton] at h
    split at h
    · exact .inr ⟨by omega, Option.some.inj h⟩
    · cases h

theorem getElem?_concat_left {α : Type} {l : List α} {x y : α} {i : Nat} (h : l[i]? = some y) :
    (l ++ [x])[i]? = some y := by
  rw [List.getElem?_append_left (List.getElem?_eq_some_iff.mp h).1, h]

theorem cadence_append_type1 (h : Cadence interval L) {s t : K} (hm : (s, 3) ∈ L) (hl : t - interval ≤ s) (hu : s ≤ t) :
    Cadence interval (L ++ [(t, 1)]) := by
  obtain ⟨j, hj, hs⟩ := List.getElem_of_mem hm
  have hrecent : ∀ (i : Nat) (t' : K), (L ++ [(t, 1)])[i]? = some (t', 1) →
      ∃ j < i, ∃ s, (L ++ [(t, 1)])[j]? = some (s, 3) ∧ t' - interval ≤ s ∧ s ≤ t' := by
    intro i t' hi
    obtain ⟨-, hi⟩ | ⟨rfl, ht⟩ := getElem?_concat hi
    · obtain ⟨j, hji, s, hs, hr⟩ := h.recent i t' hi
      exact ⟨j, hji, s, getElem?_concat_left hs, hr⟩
    · obtain ⟨rfl, -⟩ := Prod.mk.inj ht
      exact ⟨j, hj, s, getElem?_concat_left (by rw [List.getElem?_eq_getElem hj, hs]), hl, hu⟩
  refine ⟨fun i t' hi => ?_, ?_, hrecent⟩
  · obtain ⟨j, hji, s, hs, -⟩ := hrecent i t' hi
    exact ⟨j, hji, s, hs⟩
  · rw [List.filter_append]
    simpa using h.apart

theorem cadence_append_type3 (h : Cadence interval L) {t : K}
    (hl : ∀ s ∈ ((L.filter fun x => x.2 = 3).map Prod.fst).getLast?, interval ≤ t - s) :
    Cadence interval (L ++ [(t, 3)]) := by
  have hold : ∀ (i : Nat) (t' : K), (L ++ [(t, 3)])[i]? = some (t', 1) → L[i]? = some (t', 1) := by
    intro i t' hi
    obtain ⟨-, hi⟩ | ⟨-, ht⟩ := getElem?_concat hi
    · exact hi
    · cases (Prod.mk.inj ht).2
  refine ⟨fun i t' hi => ?_, ?_, fun i t' hi => ?_⟩
  · obtain ⟨j, hji, s, hs⟩ := h.first i t' (hold i t' hi)
    exact ⟨j, hji, s, getElem?_concat_left hs⟩
  · rw [List.filter_append, List.map_append, List.isChain_append]
    refine ⟨h.apart, by simp, fun s hs t' ht' => ?_⟩
    obtain rfl : t = t' := by simpa using ht'
    exact hl s hs
  · obtain ⟨j, hji, s, hs, hr⟩ := h.recent i t' (hold i t' hi)
    exact ⟨j, hji, s, getElem?_concat_left hs, hr⟩

end

/-! ## One epoch -/

variable [FloorRing K] [IsStrictOrderedRing K]

theorem pyMod_add_mul {u y : K} (h0 : 0 ≤ u) (h : u < y) (n : ℤ) : pyMod (u + y * n) y = u := by
  have hy : 0 < y := h0.trans_lt h
  have hfloor : ⌊(u + y * n) / y⌋ = n := by
    rw [Int.floor_eq_iff, le_div_iff₀ hy, div_lt_iff₀ hy]
    exact ⟨by linarith, by linarith⟩
  rw [pyMod, hfloor, add_sub_cancel_right]

theorem pyMod_of_lt {u y : K} (h0 : 0 ≤ u) (h : u < y) : pyMod u y = u := by
  simpa using pyMod_add_mul h0 h 0

theorem pyMod_of_neg {u y : K} (h0 : -y ≤ u) (h : u < 0) : pyMod u y = u + y := by
  have := pyMod_add_mul (u := u + y) (y := y) (by linarith) (by linarith) (-1)
  rwa [Int.cast_neg, Int.cast_one, mul_neg_one, add_neg_cancel_right] at this

omit [FloorRing K] in
theorem isTow_bounds {tow : K} (h : IsTow tow) : 0 ≤ tow ∧ tow ≤ 604799.999 := by
  obtain ⟨n, hn, rfl⟩ := h
  have hn' : (n : K) + 1 ≤ 604800000 := by exact_mod_cast hn
  have h0 : (0 : K) ≤ n := Nat.cast_nonneg n
  rw [Nat.cast_ofNat]
  exact ⟨by linarith, by linarith⟩

omit [FloorRing K] in
/-- Different times of week are a millisecond apart. -/
theorem isTow_add_le {tow tow' : K} (h : IsTow tow) (h' : IsTow tow') (hlt : tow < tow') : tow + 0.001 ≤ tow' := by
  obtain ⟨n, -, rfl⟩ := h
  obtain ⟨n', -, rfl⟩ := h'
  rw [Nat.cast_ofNat] at *
  have hlt' : (n : K) < n' := by linarith
  have hle : (n : K) + 1 ≤ n' := by exact_mod_cast hlt'
  linarith

/-- The three roundings of a difference of times of week. -/
theorem abs_round_sub_round_le {last tow : K} (hlast : IsTow last) (htow : IsTow tow) :
    |Double.round (Double.round tow - Double.round last) - (tow - last)| ≤ 1 / 2 ^ 30 := by
  obtain ⟨hl0, hl1⟩ := isTow_bounds hlast
  obtain ⟨ht0, ht1⟩ := isTow_bounds htow
  have hl := abs_le.mp (Double.abs_round_sub_le_of_le (x := last) (a := 2 ^ 20) (abs_le.mpr ⟨by linarith, by linarith⟩))
  have ht := abs_le.mp (Double.abs_round_sub_le_of_le (x := tow) (a := 2 ^ 20) (abs_le.mpr ⟨by linarith, by linarith⟩))
  generalize Double.round tow = A at *
  generalize Double.round last = B at *
  have hd := abs_le.mp (Double.abs_round_sub_le_of_le (x := A - B) (a := 2 ^ 21)
    (abs_le.mpr ⟨by linarith, by linarith⟩))
  exact abs_le.mpr ⟨by linarith, by linarith⟩

/-- The rounding of the time since the last Type 3 message is far below a millisecond. -/
theorem abs_elapsed_sub_lt {last tow : K} (hlast : IsTow last) (htow : IsTow tow) :
    |elapsed last tow - pyMod (tow - last) WEEK_S| < 1 / 1000 := by
  obtain ⟨hl0, hl1⟩ := isTow_bounds hlast
  obtain ⟨ht0, ht1⟩ := isTow_bounds htow
  have hd := abs_le.mp (abs_round_sub_round_le hlast htow)
  have hweek : (WEEK_S : K) = 604800 := by norm_num [WEEK_S]
  rw [elapsed, hweek]
  rcases lt_trichotomy last tow with h | rfl | h
  · have hms := isTow_add_le hlast htow h
    rw [Double.mod_of_lt (by linarith) (by linarith), pyMod_of_lt (by linarith) (by linarith)]
    exact abs_lt.mpr ⟨by linarith, by linarith⟩
  · rw [sub_self, sub_self, Double.round_zero, Double.mod_of_lt le_rfl (by norm_num), pyMod_of_lt le_rfl (by norm_num)]
    norm_num
  · have hms := isTow_add_le htow hlast h
    rw [Double.mod_of_neg (by linarith) (by linarith), pyMod_of_neg (by linarith) (by linarith)]
    generalize Double.round (Double.round tow - Double.round last) = d at *
    have hr := abs_le.mp (Double.abs_round_sub_le_of_le (x := d + 604800) (a := 2 ^ 20)
      (abs_le.mpr ⟨by linarith, by linarith⟩))
    exact abs_lt.mpr ⟨by linarith, by linarith⟩

/-- The times of the Type 3 messages. -/
def type3Times {K : Type} (L : List (K × Nat)) : List K := (L.filter fun x => x.2 = 3).map Prod.fst

/-- The last epoch was at `t`, and the last Type 3 message at most an interval before. -/
structure Kept (L : List (K × Nat)) (lastType3Tow : Option K) (t : K) : Prop where
  cadence : Cadence TYPE3_INTERVAL_S L
  sent : ∃ s ∈ (type3Times L).getLast?, s ≤ t ∧ t - s ≤ TYPE3_INTERVAL_S ∧
    ∃ tow, lastType3Tow = some tow ∧ IsTow tow ∧ ∃ n : ℤ, s = tow + WEEK_S * n

/-- What is known when the epoch at `t` comes: there was none, or the last one was in time. -/
def Ready (L : List (K × Nat)) (lastType3Tow : Option K) (t : K) : Prop :=
  L = [] ∧ lastType3Tow = none ∨
    ∃ t₀, Kept L lastType3Tow t₀ ∧ 0 ≤ t - t₀ ∧ t - t₀ < WEEK_S - TYPE3_INTERVAL_S

variable {L : List (K × Nat)} {lastType3Tow : Option K} {t : K}

omit [Field K] [LinearOrder K] [FloorRing K] [IsStrictOrderedRing K] in
theorem mem_of_getLast_type3Times {s : K} (h : s ∈ (type3Times L).getLast?) : (s, 3) ∈ L := by
  obtain ⟨x, hx, rfl⟩ := List.mem_map.mp (List.mem_of_getLast? h)
  obtain ⟨hx, h3⟩ := List.mem_filter.mp hx
  rwa [← of_decide_eq_true h3]

section

variable {t₀ s tow tow' : K} {n n' : ℤ} (htow : IsTow tow) (htow' : IsTow tow') (hs : s = tow + WEEK_S * n)
  (ht : t = tow' + WEEK_S * n') (h0 : s ≤ t₀) (h60 : t₀ - s ≤ TYPE3_INTERVAL_S) (hl : 0 ≤ t - t₀)
  (hu : t - t₀ < WEEK_S - TYPE3_INTERVAL_S)
include htow htow' hs ht h0 h60 hl hu

/-- The test modulo a week is of a number of milliseconds. -/
theorem elapsed_near : |elapsed tow tow' - (t - s)| < 1 / 1000 ∧ ∃ k : ℤ, t - s = k / 1000 := by
  have he : tow' - tow = (t - s) + WEEK_S * (n - n' : ℤ) := by
    rw [hs, ht]
    push_cast
    ring
  have hnear := abs_elapsed_sub_lt htow htow'
  rw [he, pyMod_add_mul (by linarith) (by linarith)] at hnear
  obtain ⟨m, -, rfl⟩ := htow
  obtain ⟨m', -, rfl⟩ := htow'
  refine ⟨hnear, m' - m + 604800000 * (n' - n), ?_⟩
  rw [hs, ht, show (WEEK_S : K) = 604800 by norm_num [WEEK_S]]
  push_cast
  ring

theorem type3Recent_eq_true (hr : type3Recent (some tow) tow' = true) : t - s ≤ TYPE3_INTERVAL_S := by
  obtain ⟨hnear, k, hk⟩ := elapsed_near htow htow' hs ht h0 h60 hl hu
  rw [type3Recent, decide_eq_true_iff] at hr
  rw [hk] at hnear ⊢
  have hinterval : (TYPE3_INTERVAL_S : K) = 60 := by norm_num [TYPE3_INTERVAL_S]
  have hlt : (k : K) < 60001 := by linarith [(abs_lt.mp hnear).1]
  have hlt' : k < 60001 := by exact_mod_cast hlt
  have hle : (k : K) ≤ 60000 := by exact_mod_cast Int.lt_add_one_iff.mp hlt'
  linarith

theorem type3Recent_eq_false (hr : type3Recent (some tow) tow' = false) : TYPE3_INTERVAL_S ≤ t - s := by
  obtain ⟨hnear, k, hk⟩ := elapsed_near htow htow' hs ht h0 h60 hl hu
  rw [type3Recent, decide_eq_false_iff_not] at hr
  rw [hk] at hnear ⊢
  have hinterval : (TYPE3_INTERVAL_S : K) = 60 := by norm_num [TYPE3_INTERVAL_S]
  have hlt : (59999 : K) < k := by linarith [(abs_lt.mp hnear).2]
  have hlt' : 59999 < k := by exact_mod_cast hlt
  have hle : (60000 : K) ≤ k := by exact_mod_cast Int.add_one_le_iff.mpr hlt'
  linarith

end

/-- The station is not due. -/
theorem Ready.kept (h : Ready L lastType3Tow t) {tow : K} (htow : IsTow tow) {n : ℤ} (ht : t = tow + WEEK_S * n)
    (hr : type3Recent lastType3Tow tow = true) : Kept L lastType3Tow t := by
  obtain ⟨-, rfl⟩ | ⟨t₀, ⟨hc, s, hs, h0, h60, tow₀, rfl, htow₀, n₀, hn⟩, hl, hu⟩ := h
  · cases hr
  · have hrecent := type3Recent_eq_true htow₀ htow hn ht h0 h60 hl hu hr
    exact ⟨hc, s, hs, by linarith, hrecent, tow₀, rfl, htow₀, n₀, hn⟩

/-- The station is due, and sent. -/
theorem Ready.append_type3 (h : Ready L lastType3Tow t) {tow : K} (htow : IsTow tow) {n : ℤ}
    (ht : t = tow + WEEK_S * n) (hr : type3Recent lastType3Tow tow = false) : Kept (L ++ [(t, 3)]) (some tow) t := by
  have hlast : type3Times (L ++ [(t, 3)]) = type3Times L ++ [t] := by simp [type3Times]
  refine ⟨?_, t, by rw [hlast, List.getLast?_concat]; rfl, le_refl t, by norm_num [TYPE3_INTERVAL_S],
    tow, rfl, htow, n, ht⟩
  obtain ⟨rfl, -⟩ | ⟨t₀, ⟨hc, s, hs, h0, h60, tow₀, rfl, htow₀, n₀, hn⟩, hl, hu⟩ := h
  · exact cadence_append_type3 cadence_nil (by simp)
  · refine cadence_append_type3 hc fun s' hs' => ?_
    obtain rfl := Option.some.inj (hs.symm.trans hs')
    exact type3Recent_eq_false htow₀ htow hn ht h0 h60 hl hu hr

omit [FloorRing K] in
theorem Kept.append_type1 (h : Kept L lastType3Tow t) : Kept (L ++ [(t, 1)]) lastType3Tow t := by
  obtain ⟨hc, s, hs, h0, h60, htow⟩ := h
  have hlast : type3Times (L ++ [(t, 1)]) = type3Times L := by simp [type3Times]
  exact ⟨cadence_append_type1 hc (mem_of_getLast_type3Times hs) (by linarith) h0, s, hlast ▸ hs, h0, h60, htow⟩

/-- What an epoch sends, at its time. -/
theorem EpochStep.kept {s s' : Sender K} {e : Epoch K} {enc : Rtcm2Encoder} {calls : List (Call K)}
    (h : EpochStep s e enc calls s') (hp : Placed e) (htow : IsTow e.tow) (hready : Ready L s.lastType3Tow t) {n : ℤ}
    (ht : t = e.tow + WEEK_S * n) : Kept (L ++ calls.map fun c => (t, c.message.type)) s'.lastType3Tow t := by
  cases h with
  | corrections hr => exact (hready.kept htow ht hr).append_type1
  | nothing hr =>
    rw [List.map_nil, List.append_nil]
    exact hready.kept htow ht hr
  | unplaced _ hn => exact absurd hp hn
  | both hr =>
    have h13 := (hready.append_type3 htow ht hr).append_type1
    rw [List.append_assoc] at h13
    exact h13
  | station hr => exact hready.append_type3 htow ht hr

/-- The messages of each epoch, at its time. -/
def timed (mss : List (List (Call K × Bytes))) (times : List K) : List (K × Nat) :=
  (List.zipWith (fun ms t => ms.map fun m => (t, m.1.message.type)) mss times).flatten

/-- By induction on the epochs. -/
theorem run_cadence {es : List (Epoch K)} {times : List K}
    (htow : List.Forall₂ (fun (e : Epoch K) t => ∃ n : ℤ, t = e.tow + WEEK_S * n) es times)
    (hchain : times.IsChain fun s t => 0 ≤ t - s ∧ t - s < WEEK_S - TYPE3_INTERVAL_S)
    (hplaced : ∀ e ∈ es, Placed e) (hisTow : ∀ e ∈ es, IsTow e.tow) {s : Sender K} (hs : Seeded s.encoder)
    (hready : ∀ t ∈ times.head?, Ready L s.lastType3Tow t) (hL : Cadence TYPE3_INTERVAL_S L) :
    Cadence TYPE3_INTERVAL_S (L ++ timed (s.run es).1 times) := by
  induction htow generalizing L s with
  | nil =>
    rw [show timed (s.run []).1 [] = [] from rfl, List.append_nil]
    exact hL
  | @cons e t es times ht _ ih =>
    obtain ⟨hp, hes⟩ := List.forall_mem_cons.mp hplaced
    obtain ⟨htow, htows⟩ := List.forall_mem_cons.mp hisTow
    obtain ⟨hnext, hchain⟩ := List.isChain_cons.mp hchain
    obtain ⟨n, ht⟩ := ht
    obtain ⟨enc, henc, -, hstep⟩ := epoch_step hs e
    have hkept := hstep.kept hp htow (hready t rfl) ht
    rw [List.map_map] at hkept
    have := ih hchain hes htows (epoch_seeded hs e) (fun t' ht' => .inr ⟨t, hkept, hnext t' ht'⟩) hkept.cadence
    rw [List.append_assoc] at this
    exact this

/-! ## Runs -/

omit [IsStrictOrderedRing K] in
/-- The times of the messages, and their times with their types. -/
theorem zip_timed {mss : List (List (Call K × Bytes))} {times : List K} (h : mss.length = times.length) :
    (List.zipWith (fun ms t => ms.map fun _ => t) mss times).flatten.length = mss.flatten.length ∧
      (List.zipWith (fun ms t => ms.map fun _ => t) mss times).flatten.zip
        (mss.flatten.map fun m => m.1.message.type) = timed mss times := by
  induction mss generalizing times with
  | nil => exact ⟨by simp, by simp [timed]⟩
  | cons ms mss ih =>
    obtain ⟨t, times, rfl⟩ := List.exists_cons_of_length_pos (l := times) (by rw [← h]; exact Nat.succ_pos _)
    obtain ⟨hlen, hzip⟩ := ih (Nat.succ.inj h)
    simp only [List.zipWith_cons_cons, List.flatten_cons, List.length_append, List.length_map, List.map_append, timed]
    refine ⟨by rw [hlen], ?_⟩
    rw [List.zip_append (by rw [List.length_map, List.length_map]), hzip, List.zip_map', timed]

omit [Field K] [LinearOrder K] [FloorRing K] [IsStrictOrderedRing K] in
theorem stamps_eq {E : List (Epoch K × List Bytes)} {mss : List (List (Call K × Bytes))}
    (h : E.map Prod.snd = mss.map (List.map Prod.snd)) (times : List K) :
    stamps E times = (List.zipWith (fun ms t => ms.map fun _ => t) mss times).flatten := by
  have hz : List.zipWith (fun (x : Epoch K × List Bytes) (t : K) => x.2.map fun _ => t) E times =
      List.zipWith (fun bs t => bs.map fun _ => t) (E.map Prod.snd) times := by rw [List.zipWith_map_left]
  rw [stamps, hz, h, List.zipWith_map_left]
  simp only [List.map_map]
  rfl

omit [IsStrictOrderedRing K] in
/-- The messages of a run, at the times of their epochs. -/
theorem sent_timed [PyMath K] (parse : Bytes → Option (Msg K)) (id : StationId) (maxIodAgeS maxResidualM : K)
    (calls : List (Upstream × Bytes)) (times : List K)
    (htimes : (epochs parse (.new id maxIodAgeS maxResidualM) calls).length = times.length) :
    let c := runFeeds parse (.new id maxIodAgeS maxResidualM) calls
    let messages := (decodeStream false false c.rtcm23Feed.flatten).messages
    let sent := stamps (epochs parse (.new id maxIodAgeS maxResidualM) calls) times
    sent.length = messages.length ∧ sent.zip (messages.map Message.type) =
      timed ((senderOf (.new id maxIodAgeS maxResidualM)).run
        ((epochs parse (.new id maxIodAgeS maxResidualM) calls).map Prod.fst)).1 times := by
  intro c messages sent
  obtain ⟨-, hpub, -⟩ := run_sender parse calls (.new id maxIodAgeS maxResidualM)
  have hmessages : messages = _ := congrArg Decoded.messages (decode_feed parse id maxIodAgeS maxResidualM calls)
  have hlength := congrArg List.length hpub
  rw [List.length_map, List.length_map, htimes] at hlength
  obtain ⟨hlen, hzip⟩ := zip_timed hlength.symm
  have hsent : sent = _ := stamps_eq hpub times
  rw [hmessages, hsent, List.length_map, List.map_map]
  exact ⟨hlen, hzip⟩

theorem isTow_of_parse {m : Msg1077 K} (hm : ObservationsOk m) {tow : K}
    {pseudoranges : Dict Int K} (h : parseGpsMsm7 m = .ok (tow, pseudoranges)) (hlt : tow < 604800) : IsTow tow := by
  obtain rfl := parse_tow h
  obtain ⟨n, hn⟩ := Int.eq_ofNat_of_zero_le hm.tow.1
  rw [hn, Int.cast_natCast] at hlt ⊢
  refine ⟨n, ?_, by rw [Nat.cast_ofNat]⟩
  have : (n : K) < 604800000 := by linarith
  exact_mod_cast this

/-- Calls of `feed_obs` and `feed_eph` in any order, on a new converter, the
exceptions swallowed: if the epochs that yield corrections are at the absolute
`times`, which advance by less than a week less a minute, the station is sent
before the first corrections, at most once in 60 s, and at most 60 s before any
corrections. -/
theorem station_cadence [PyMath K] {parse : Bytes → Option (Msg K)}
    (hp : ∀ frame m, parse frame = some m → MsgOk m) (id : StationId) (maxIodAgeS maxResidualM : K)
    (calls : List (Upstream × Bytes)) (times : List K)
    (htow : List.Forall₂ (fun (x : Epoch K × List Bytes) t => x.1.tow < 604800 ∧ ∃ n : ℤ, t = x.1.tow + 604800 * n)
      (epochs parse (.new id maxIodAgeS maxResidualM) calls) times)
    (hsteps : times.IsChain fun s t => 0 ≤ t - s ∧ t - s < 604740) :
    let c := runFeeds parse (.new id maxIodAgeS maxResidualM) calls
    let messages := (decodeStream false false c.rtcm23Feed.flatten).messages
    let sent := stamps (epochs parse (.new id maxIodAgeS maxResidualM) calls) times
    sent.length = messages.length ∧ Cadence 60 (sent.zip (messages.map Message.type)) := by
  intro c messages sent
  obtain ⟨hweek, htow⟩ := (List.forall₂_and_left _ _).mp htow
  have hisTow : ∀ e ∈ (epochs parse (.new id maxIodAgeS maxResidualM) calls).map Prod.fst, IsTow e.tow := by
    intro e he
    obtain ⟨v, hv, hve⟩ := epochs_visits he
    obtain ⟨hu, msg, hm, hepoch⟩ := (visit_epoch_eq_some parse).mp hve
    obtain ⟨-, -, prs, hparse, -⟩ := epochOf_eq_some.mp hepoch
    obtain ⟨x, hx, rfl⟩ := List.mem_map.mp he
    exact isTow_of_parse (hp _ _ hm) hparse (hweek x hx)
  have htow' : List.Forall₂ (fun (e : Epoch K) t => ∃ n : ℤ, t = e.tow + WEEK_S * n)
      ((epochs parse (.new id maxIodAgeS maxResidualM) calls).map Prod.fst) times := by
    rw [List.forall₂_map_left_iff]
    refine htow.imp fun x t h => ?_
    norm_num [WEEK_S]
    exact h
  have hlong : (604740 : K) = WEEK_S - TYPE3_INTERVAL_S := by norm_num [WEEK_S, TYPE3_INTERVAL_S]
  rw [hlong] at hsteps
  have hcadence := run_cadence htow' hsteps (epochs_placed hp id maxIodAgeS maxResidualM calls) hisTow
    (s := senderOf (.new id maxIodAgeS maxResidualM)) ⟨false, false, rfl⟩ (fun t _ => .inl ⟨rfl, rfl⟩) cadence_nil
  obtain ⟨hlen, hzip⟩ := sent_timed parse id maxIodAgeS maxResidualM calls times htow.length_eq
  refine ⟨hlen, ?_⟩
  rw [hzip, show (60 : K) = TYPE3_INTERVAL_S by norm_num [TYPE3_INTERVAL_S]]
  exact hcadence

/-- Two epochs at once. -/
theorem station_cadence_two :
    let calls := bothFrames ++ [(.obs, observedFrame), (.obs, observedFrame)]
    let c : Converter ℝ := runFeeds parseBoth (.new ⟨1023, by decide⟩ 7200 100) calls
    let messages := (decodeStream false false c.rtcm23Feed.flatten).messages
    let sent : List ℝ := stamps (epochs parseBoth (.new ⟨1023, by decide⟩ 7200 100) calls) [100, 100]
    sent.length = messages.length ∧ Cadence 60 (sent.zip (messages.map Message.type)) := by
  refine station_cadence parseBoth_ok _ _ _ _ [100, 100] ?_ (by norm_num)
  obtain ⟨c₃, hc₃, he₃⟩ := epochs_bothFrames (fun _ _ => rfl) ⟨1023, by decide⟩
  obtain ⟨c₄, corr, p, hc₄, -, -, -, he₄⟩ := epochs_observedOf hc₃ isFrame_observedFrame parseBoth_observedFrame rfl
  obtain ⟨c₅, corr', p', -, -, -, -, he₅⟩ := epochs_observedOf hc₄ isFrame_observedFrame parseBoth_observedFrame rfl
  rw [he₃, he₄, he₅]
  exact .cons ⟨by norm_num, 0, by norm_num⟩ (.cons ⟨by norm_num, 0, by norm_num⟩ .nil)

/-! ## Epochs a minute apart -/

/-- `64.1 - 4.1` is less than 60. -/
theorem type3Recent_minute : type3Recent (some (4100 / 1000 : ℝ)) (64100 / 1000) = true := by
  have h4 : Double.round (4100 / 1000 : ℝ) = 4616189618054758 * 2 ^ (-50 : ℤ) := by
    refine Double.round_eq (m := 4616189618054758) ?_ ?_ ?_ <;> norm_num
  have h64 : Double.round (64100 / 1000 : ℝ) = 4510636501788262 * 2 ^ (-46 : ℤ) := by
    refine Double.round_eq (m := 4510636501788262) ?_ ?_ ?_ <;> norm_num
  have hd : Double.round (4510636501788262 * 2 ^ (-46 : ℤ) - 4616189618054758 * 2 ^ (-50 : ℤ) : ℝ) =
      8444249301319679 * 2 ^ (-47 : ℤ) := by
    refine Double.round_eq (m := 8444249301319679) ?_ ?_ ?_ <;> norm_num
  have he : elapsed (4100 / 1000 : ℝ) (64100 / 1000) = 8444249301319679 * 2 ^ (-47 : ℤ) := by
    rw [elapsed, h4, h64, hd]
    exact Double.mod_of_lt (by norm_num) (by norm_num [WEEK_S])
  rw [type3Recent, decide_eq_true_iff, he]
  norm_num [TYPE3_INTERVAL_S]

/-- Both messages for the first epoch, and the corrections alone for the second. -/
theorem timed_recent {s : Sender ℝ} (hs : Seeded s.encoder) {e e' : Epoch ℝ} (hp : Placed e) (hf : Fits e)
    (hf' : Fits e') (hr : type3Recent s.lastType3Tow e.tow = false) (hr' : type3Recent (some e.tow) e'.tow = true)
    (t t' : ℝ) : timed (s.run [e, e']).1 [t, t'] = [(t, 3), (t, 1), (t', 1)] := by
  obtain ⟨enc, henc, -, hstep⟩ := epoch_step hs e
  obtain ⟨hcalls, hlast⟩ := hstep.both_of hr hp hf
  obtain ⟨enc', -, -, hstep'⟩ := epoch_step (hstep.encoder_eq ▸ henc) e'
  have hcalls' := hstep'.corrections_only (hlast ▸ hr') hf'
  have hmap : ∀ (l : List (Call ℝ × Bytes)) (t : ℝ), l.map (fun m => (t, m.1.message.type)) =
      (l.map Prod.fst).map fun c => (t, c.message.type) := fun l t => by rw [List.map_map]; rfl
  simp only [Sender.run, timed, List.zipWith_cons_cons, List.zipWith_nil_left, List.flatten_cons, List.flatten_nil,
    List.append_nil, hmap, hcalls, hcalls']
  rfl

theorem isFrame_observedFrame4 : rtcm3.IsFrame observedFrame4 :=
  ⟨by decide, (fun _ h => Option.some.inj h ▸ rfl), rfl⟩

theorem isFrame_observedFrame64 : rtcm3.IsFrame observedFrame64 :=
  ⟨by decide, (fun _ h => Option.some.inj h ▸ rfl), rfl⟩

theorem parseMinute_ok (frame : Bytes) (m : Msg ℝ) (h : parseMinute frame = some m) : MsgOk m := by
  unfold parseMinute at h
  have ok := observedOf_ok (show (1 : Int) ≤ 1 by decide) (by decide)
  split_ifs at h
  · obtain rfl := Option.some.inj h
    exact ⟨⟨by decide, by decide⟩, ok.satellites, ok.range, ⟨rfl, rfl⟩, rfl, rfl⟩
  · obtain rfl := Option.some.inj h
    exact ⟨⟨by decide, by decide⟩, ok.satellites, ok.range, ⟨rfl, rfl⟩, rfl, rfl⟩
  · exact parseBoth_ok frame m h

/-- No Type 3 message before the Type 1 message at 64.1 s is later than at 4.1 s. -/
theorem not_station_cadence : ¬ ∀ parse : Bytes → Option (Msg ℝ), (∀ frame m, parse frame = some m → MsgOk m) →
    ∀ (id : StationId) (calls : List (Upstream × Bytes)) (times : List ℝ),
      List.Forall₂ (fun (x : Epoch ℝ × List Bytes) t => x.1.tow < 604800 ∧ ∃ n : ℤ, t = x.1.tow + 604800 * n)
        (epochs parse (.new id 7200 100) calls) times →
      times.IsChain (fun s t => 0 ≤ t - s ∧ t - s < 604740) →
        let c := runFeeds parse (.new id 7200 100) calls
        let messages := (decodeStream false false c.rtcm23Feed.flatten).messages
        let sent := (stamps (epochs parse (.new id 7200 100) calls) times).zip (messages.map Message.type)
        ∀ (i : Nat) (t : ℝ), sent[i]? = some (t, 1) → ∃ j < i, ∃ s, sent[j]? = some (s, 3) ∧ t - 60 < s ∧ s ≤ t := by
  intro h
  have hp : ∀ call ∈ bothFrames, (parseMinute call.2 : Option (Msg ℝ)) = parseBoth call.2 := by
    simp only [bothFrames, List.forall_mem_cons]
    exact ⟨by rw [parseMinute, if_neg (by decide), if_neg (by decide)],
      by rw [parseMinute, if_neg (by decide), if_neg (by decide)],
      by rw [parseMinute, if_neg (by decide), if_neg (by decide)], by simp⟩
  have hm4 : (parseMinute observedFrame4 : Option (Msg ℝ)) = some (.gpsMsm7 (observedAt 4100 1)) := if_pos rfl
  have hm64 : (parseMinute observedFrame64 : Option (Msg ℝ)) = some (.gpsMsm7 (observedAt 64100 1)) := by
    rw [parseMinute, if_neg (by decide), if_pos rfl]
  obtain ⟨c₃, hc₃, he₃⟩ := epochs_bothFrames hp ⟨1023, by decide⟩
  obtain ⟨c₄, corr, p, hc₄, hprn, hiod, hudre, he₄⟩ :=
    epochs_observedAt 4100 (4100 / 1000) hc₃ isFrame_observedFrame4 hm4 rfl (by norm_num) (by norm_num)
  obtain ⟨c₅, corr', p', -, hprn', hiod', hudre', he₅⟩ :=
    epochs_observedAt 64100 (64100 / 1000) hc₄ isFrame_observedFrame64 hm64 rfl (by norm_num) (by norm_num)
  have hes : epochs parseMinute (.new ⟨1023, by decide⟩ 7200 100)
      (bothFrames ++ [(.obs, observedFrame4), (.obs, observedFrame64)]) =
      [(⟨(1, 0, 0), 4100 / 1000, [corr]⟩, p), (⟨(1, 0, 0), 64100 / 1000, [corr']⟩, p')] := by
    rw [he₃, he₄, he₅]
    rfl
  have hfits : Fits ⟨(1, 0, 0), 4100 / 1000, [corr]⟩ := (fits_singleton hiod hudre).mpr (by rw [hprn]; decide)
  have hfits' : Fits ⟨(1, 0, 0), 64100 / 1000, [corr']⟩ := (fits_singleton hiod' hudre').mpr (by rw [hprn']; decide)
  have hcadence := h parseMinute parseMinute_ok ⟨1023, by decide⟩
    (bothFrames ++ [(.obs, observedFrame4), (.obs, observedFrame64)]) [4100 / 1000, 64100 / 1000]
    (by rw [hes]; exact .cons ⟨by norm_num, 0, by norm_num⟩ (.cons ⟨by norm_num, 0, by norm_num⟩ .nil)) (by norm_num)
  have hsent := (sent_timed parseMinute ⟨1023, by decide⟩ 7200 100 _ [4100 / 1000, 64100 / 1000]
    (congrArg List.length hes)).2
  rw [hes] at hsent
  have htimed := hsent.trans (timed_recent ⟨false, false, rfl⟩ (placed_nearCentre _ _) hfits hfits' rfl
    type3Recent_minute (4100 / 1000) (64100 / 1000))
  dsimp only at hcadence
  rw [hes, htimed] at hcadence
  obtain ⟨j, hj, s, hs, hlt, -⟩ := hcadence 2 (64100 / 1000) rfl
  obtain rfl | rfl : j = 0 ∨ j = 1 := by omega
  · obtain rfl : 4100 / 1000 = s := (Prod.mk.inj (Option.some.inj hs)).1
    norm_num at hlt
  · exact absurd (Prod.mk.inj (Option.some.inj hs)).2 (by decide)

end Rtcm.Proof
