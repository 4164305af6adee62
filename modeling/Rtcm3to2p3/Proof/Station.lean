import Rtcm3to2p3.Proof.Stream

/-!
# A station position on its way through

A coordinate of a message 1005 or 1006 is a 38-bit number of tenths of a
millimetre, so it fits a Type 3 message (`coordOk_station`). The decoder
recovers one message from an accepted call's bytes (`run_decode`), and the
fields of its coordinates are within half a centimetre of those that were
encoded (`station_survives`).
-/

namespace Rtcm.Proof

open Rtcm.Impl Rtcm.Spec BitString

variable {K : Type} [Field K] [LinearOrder K] [FloorRing K]

/-- An accepted call on its own, and the data bytes the decoder parses. -/
theorem run_decode {call : Call K} (h : Accepts call) (s29 s30 : Bool) :
    ∃ out enc buff, call.run ⟨s29.toNat, s30.toNat⟩ = (.ok out, enc) ∧ parseMessage buff = call.message ∧
      decodeStream s29 s30 out = { violations := 0, messages := [parseMessage buff], rest := [] } := by
  obtain ⟨n, bs, hb, hrun⟩ := run_ok ⟨s29.toNat, s30.toNat⟩ h
  obtain ⟨out, u29, u30, he, hcons⟩ := Sends.cons hb s29 s30
  have hdec := (hcons [] [] u29 u30 (.nil u29 u30)).decodeStream
  have hparse := hb.parse _ hb.bits
  refine ⟨out, _, _, hrun.trans he, hparse, ?_⟩
  rw [hparse]
  simpa only [List.map_cons, List.map_nil, List.flatten_cons, List.flatten_nil, List.append_nil] using hdec

/-- The fields of the coordinates. -/
theorem type3_fields {buff : Bytes} {s z q h : Int} {ecef : K × K × K}
    (hb : parseMessage buff = (Call.type3 s z q h ecef).message) :
    (parseMessage buff).body =
        .ecef (getbitsSigned buff 48 32) (getbitsSigned buff 80 32) (getbitsSigned buff 112 32) ∧
      getbitsSigned buff 48 32 = counts ecef.1 ∧ getbitsSigned buff 80 32 = counts ecef.2.1 ∧
      getbitsSigned buff 112 32 = counts ecef.2.2 := by
  have htype : getbits buff 8 6 = 3 := congrArg Message.type hb
  have hbody := congrArg Message.body hb
  have hecef : (parseMessage buff).body =
      .ecef (getbitsSigned buff 48 32) (getbitsSigned buff 80 32) (getbitsSigned buff 112 32) := if_pos htype
  rw [hecef] at hbody
  obtain ⟨hx, hy, hz⟩ := Body.ecef.inj hbody
  exact ⟨hecef, hx, hy, hz⟩

variable [IsStrictOrderedRing K]

theorem coord_error (x : K) : |(counts x : K) * 0.01 - x| ≤ 0.005 := by
  have hstep : (0 : K) < ECEF_SCALE K := by norm_num [ECEF_SCALE]
  refine (HalfEven.abs_round_div_mul_sub_le hstep x).trans (le_of_eq ?_)
  norm_num [ECEF_SCALE]

/-- Any station position a message 1005 or 1006 can carry, and the header
values of any converter: `encode_type3` returns, the decoder finds one Type 3
message, and its coordinates, in centimetres, are within half a centimetre. -/
theorem station_survives {m : Msg1005 K} (hm : StationOk m) (c : Converter K) (tow : K) (s29 s30 : Bool) :
    ∃ out enc buff, Rtcm2Encoder.encodeType3 ⟨s29.toNat, s30.toNat⟩ c.stationId.val (modifiedZcount tow)
        c.nextSeq.1 0 (parseStation m) = (.ok out, enc) ∧
      decodeStream s29 s30 out = { violations := 0, messages := [parseMessage buff], rest := [] } ∧
      (parseMessage buff).type = 3 ∧ (parseMessage buff).body =
        .ecef (getbitsSigned buff 48 32) (getbitsSigned buff 80 32) (getbitsSigned buff 112 32) ∧
      |(getbitsSigned buff 48 32 : K) * 0.01 - m.DF025| ≤ 0.005 ∧
      |(getbitsSigned buff 80 32 : K) * 0.01 - m.DF026| ≤ 0.005 ∧
      |(getbitsSigned buff 112 32 : K) * 0.01 - m.DF027| ≤ 0.005 := by
  have hcoord : ∀ x ∈ [m.DF025, m.DF026, m.DF027], CoordOk x := by
    intro x hx
    obtain ⟨n, hl, hu, rfl⟩ := hm x hx
    exact coordOk_station hl hu
  simp only [List.forall_mem_cons] at hcoord
  obtain ⟨hx, hy, hz, -⟩ := hcoord
  have ha : Accepts (.type3 c.stationId.val (modifiedZcount tow) c.nextSeq.1 0 (parseStation m)) :=
    ⟨header_ok c.stationId tow c.seq, hx, hy, hz⟩
  obtain ⟨out, enc, buff, hrun, hparse, hdec⟩ := run_decode ha s29 s30
  obtain ⟨hbody, fx, fy, fz⟩ := type3_fields hparse
  refine ⟨out, enc, buff, hrun, hdec, congrArg Message.type hparse, hbody, ?_⟩
  rw [fx, fy, fz]
  exact ⟨coord_error _, coord_error _, coord_error _⟩

/-- The least and the greatest coordinate. -/
def extremes : Msg1005 K := ⟨(-2 ^ 37 : ℤ) / (10000 : ℕ), (2 ^ 37 - 1 : ℤ) / (10000 : ℕ), 0⟩

theorem extremes_ok : StationOk (extremes : Msg1005 ℝ) := by
  simp only [StationOk, extremes, List.forall_mem_cons]
  exact ⟨⟨-2 ^ 37, by norm_num, by norm_num, by norm_num⟩, ⟨2 ^ 37 - 1, by norm_num, by norm_num, by norm_num⟩,
    ⟨0, by norm_num, by norm_num, by norm_num⟩, fun _ hx => absurd hx List.not_mem_nil⟩

theorem station_survives_extremes :
    ∃ out enc buff, Rtcm2Encoder.encodeType3 ⟨false.toNat, false.toNat⟩ 1023 (modifiedZcount (0 : ℝ)) 1 0
        (parseStation (extremes : Msg1005 ℝ)) = (.ok out, enc) ∧
      decodeStream false false out = { violations := 0, messages := [parseMessage buff], rest := [] } ∧
      (parseMessage buff).type = 3 ∧ (parseMessage buff).body =
        .ecef (getbitsSigned buff 48 32) (getbitsSigned buff 80 32) (getbitsSigned buff 112 32) ∧
      |(getbitsSigned buff 48 32 : ℝ) * 0.01 - (extremes : Msg1005 ℝ).DF025| ≤ 0.005 ∧
      |(getbitsSigned buff 80 32 : ℝ) * 0.01 - (extremes : Msg1005 ℝ).DF026| ≤ 0.005 ∧
      |(getbitsSigned buff 112 32 : ℝ) * 0.01 - (extremes : Msg1005 ℝ).DF027| ≤ 0.005 :=
  station_survives extremes_ok (.new ⟨1023, by decide⟩ 7200 100) 0 false false

end Rtcm.Proof
