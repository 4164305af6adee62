import Rtcm3to2p3.Proof.Exchange
import Rtcm3to2p3.Spec.Header

/-!
# What the client takes off a reply

`_connect` tests the stripped first line (`Starts`) and drains the header by
the line as it came (`afterStatus`). What it leaves is what comes after the
header if the two lines start alike (`afterStatus_eq_ok`), and otherwise it
leaves the header lines of an HTTP reply too (`header_leaks`). So exactly a
blank before an HTTP status line breaks it (`header_consumed_iff`).
-/

namespace Rtcm.Proof

open Rtcm.Impl Rtcm.Spec Delimited

/-- Whether the first line starts a stream. -/
def Starts (status : Bytes) : Prop := IsIcy200 (strip status) ∨ IsHttp200 (strip status)

instance : DecidablePred Starts := fun _ => inferInstanceAs (Decidable (_ ∨ _))

/-- `_connect` after the first line. -/
def afterStatus (client : NtripClient) (status incoming : Bytes) : Except OSError Bytes :=
  if Starts status then
    if encode "HTTP" <+: status then
      match readUntil (CRLF ++ CRLF) status incoming with
      | none => .error ⟨"connection closed during HTTP headers"⟩
      | some (_, incoming) => .ok incoming
    else .ok incoming
  else
    .error ⟨"upstream did not start a stream (mount '" ++ client.mountpoint ++ "'?): " ++
      .ofList (decode (strip status))⟩

theorem connect_afterStatus (client : NtripClient) {status sent : Bytes} (h : UpTo CRLF status sent) :
    ∃ incoming, sent = status ++ incoming ∧ client.connect sent = afterStatus client status incoming := by
  obtain ⟨incoming, rfl⟩ := h.start
  have hread : readUntil CRLF [] (status ++ incoming) = some (status, incoming) :=
    (readUntil_eq_some (by decide)).mpr ⟨List.nil_prefix, h, rfl⟩
  refine ⟨incoming, rfl, ?_⟩
  simp only [NtripClient.connect, hread, afterStatus]
  exact ite_not _ _ _

theorem connect_cases (client : NtripClient) (sent : Bytes) :
    (∃ status, UpTo CRLF status sent) ∨
      (∀ status, ¬ UpTo CRLF status sent) ∧ ∃ e, client.connect sent = .error e := by
  by_cases h : ∃ status, UpTo CRLF status sent
  · exact .inl h
  · refine .inr ⟨fun status hs => h ⟨status, hs⟩, ?_⟩
    have hread : readUntil CRLF [] sent = none := by
      rw [Option.eq_none_iff_forall_ne_some]
      rintro ⟨status, incoming⟩ hr
      exact h ⟨status, ((readUntil_eq_some (by decide)).mp hr).2.1⟩
    simp only [NtripClient.connect, hread]
    exact ⟨_, rfl⟩

/-! ## The first line -/

theorem icy_not_http {line : Bytes} (hi : IsIcy200 line) : ¬ encode "HTTP" <+: line := by
  intro hh
  have := List.prefix_or_prefix_of_prefix hi hh
  revert this
  decide

theorem starts_http {line : Bytes} (h : IsHttp200 line) : encode "HTTP" <+: line :=
  List.IsPrefix.trans (by decide : encode "HTTP" <+: encode "HTTP/1") h.1

/-- A line that starts with no blank is stripped at its end only. -/
theorem strip_prefix_of_http {status : Bytes} (h : encode "HTTP" <+: status) : strip status <+: status := by
  obtain ⟨t, rfl⟩ := h
  refine List.reverse_suffix.mp ?_
  rw [strip, List.reverse_reverse]
  exact List.dropWhile_suffix _

theorem http_strip {status : Bytes} (h : encode "HTTP" <+: status) (hs : Starts status) : IsHttp200 (strip status) := by
  refine hs.resolve_left fun hi => icy_not_http (hi.trans (strip_prefix_of_http h)) h

/-- No blank line ends before the first line does. -/
theorem blank_not_infix {status sent : Bytes} (h : UpTo CRLF status sent) : ¬ CRLF ++ CRLF <:+: status := by
  intro hb
  obtain ⟨u, v, rfl⟩ := hb
  refine h.first ?_
  have : u ++ CRLF <+: (u ++ (CRLF ++ CRLF) ++ v).dropLast := by
    rw [← List.append_assoc, List.append_assoc]
    exact prefix_dropLast (List.cons_ne_nil _ _)
  exact (List.suffix_append u CRLF).isInfix.trans this.isInfix

/-! ## The header -/

variable {client : NtripClient} {status incoming rest : Bytes}

theorem afterStatus_refused (client : NtripClient) (incoming : Bytes) (h : ¬ Starts status) :
    ∃ e, afterStatus client status incoming = .error e := by
  rw [afterStatus, if_neg h]
  exact ⟨_, rfl⟩

theorem afterStatus_line (h : Starts status) (hh : ¬ encode "HTTP" <+: status) :
    afterStatus client status incoming = .ok incoming := by
  rw [afterStatus, if_pos h, if_neg hh]

theorem afterStatus_block (h : Starts status) (hh : encode "HTTP" <+: status)
    (hup : UpTo CRLF status (status ++ incoming)) : afterStatus client status incoming = .ok rest ↔
      ∃ header, UpTo (CRLF ++ CRLF) header (status ++ incoming) ∧ status ++ incoming = header ++ rest := by
  have hacc : ¬ CRLF ++ CRLF <:+: status.dropLast := fun hb =>
    blank_not_infix hup (hb.trans status.dropLast_prefix.isInfix)
  rw [afterStatus, if_pos h, if_pos hh]
  constructor
  · intro he
    cases hread : readUntil (CRLF ++ CRLF) status incoming with
    | none =>
      rw [hread] at he
      cases he
    | some r =>
      rw [hread] at he
      obtain rfl := Except.ok.inj he
      obtain ⟨-, hheader, hs⟩ := (readUntil_eq_some hacc).mp hread
      exact ⟨r.1, hheader, hs⟩
  · rintro ⟨header, hheader, hs⟩
    have hp : status <+: header :=
      hup.prefix_of hheader.start (List.IsInfix.trans (List.prefix_append CRLF CRLF).isInfix hheader.ends.isInfix)
    rw [(readUntil_eq_some hacc).mpr ⟨hp, hheader, hs⟩]

/-- The header that is consumed, for a status line that starts where the line does. -/
theorem afterStatus_eq_ok (hup : UpTo CRLF status (status ++ incoming))
    (hline : IsHttp200 (strip status) → strip status <+: status) :
    afterStatus client status incoming = .ok rest ↔ AfterHeader (status ++ incoming) rest := by
  have hsame : ∀ status', UpTo CRLF status' (status ++ incoming) → status' = status := fun _ h => h.unique hup
  by_cases hs : Starts status
  · by_cases hh : encode "HTTP" <+: status
    · have h200 := http_strip hh hs
      rw [afterStatus_block hs hh hup]
      refine ⟨fun ⟨header, hheader, he⟩ => .http hup h200 hheader he, fun h => ?_⟩
      cases h with
      | icy h hi =>
        rw [hsame _ h] at hi
        exact absurd (starts_http h200) (icy_not_http hi)
      | http _ _ hheader he => exact ⟨_, hheader, he⟩
    · have hnot : ¬ IsHttp200 (strip status) := fun h200 => hh ((starts_http h200).trans (hline h200))
      rw [afterStatus_line hs hh]
      refine ⟨fun he => .icy hup (hs.resolve_right hnot) (Except.ok.inj he ▸ rfl), fun h => ?_⟩
      cases h with
      | icy h hi he =>
        rw [hsame _ h] at he
        exact congrArg Except.ok (List.append_cancel_left he)
      | http h h200 =>
        rw [hsame _ h] at h200
        exact absurd h200 hnot
  · obtain ⟨e, he⟩ := afterStatus_refused client incoming hs
    rw [he]
    refine ⟨(fun h => by cases h), fun h => absurd ?_ hs⟩
    cases h with
    | icy h hi => exact .inl (hsame _ h ▸ hi)
    | http h h200 => exact .inr (hsame _ h ▸ h200)

/-- A status line after blanks is accepted, and the lines after it are taken for the stream. -/
theorem header_leaks (client : NtripClient) {status sent : Bytes} (hup : UpTo CRLF status sent)
    (h200 : IsHttp200 (strip status)) (hline : ¬ strip status <+: status) : ¬ HeaderConsumed client sent := by
  intro h
  have hs : Starts status := .inr h200
  obtain ⟨incoming, rfl, hconnect⟩ := connect_afterStatus client hup
  rw [afterStatus_line hs fun hh => hline (strip_prefix_of_http hh)] at hconnect
  cases (h.returns incoming).mp hconnect with
  | icy h' hi =>
    rw [h'.unique hup] at hi
    exact icy_not_http hi (starts_http h200)
  | http _ _ hheader he =>
    rw [← List.append_cancel_right he] at hheader
    exact blank_not_infix hup hheader.ends.isInfix

/-- For every client and all bytes sent: the header is consumed exactly, unless
the status line is one of HTTP and begins with a blank. -/
theorem header_consumed_iff (client : NtripClient) (sent : Bytes) : HeaderConsumed client sent ↔
    ∀ status, UpTo CRLF status sent → IsHttp200 (strip status) → strip status <+: status := by
  refine ⟨fun h status hup h200 => ?_, fun hline => ?_⟩
  · by_contra hblank
    exact header_leaks client hup h200 hblank h
  have hreturns : ∀ rest, client.connect sent = .ok rest ↔ AfterHeader sent rest := by
    intro rest
    rcases connect_cases client sent with ⟨status, hup⟩ | ⟨hnone, e, he⟩
    · obtain ⟨incoming, rfl, hconnect⟩ := connect_afterStatus client hup
      rw [hconnect]
      exact afterStatus_eq_ok hup (hline status hup)
    · rw [he]
      refine ⟨(fun h => by cases h), fun h => ?_⟩
      cases h with
      | icy h | http h => exact absurd h (hnone _)
  refine ⟨hreturns, fun more chunks hstream => ?_⟩
  rw [NtripClient.stream] at hstream
  cases hc : client.connect sent with
  | error e =>
    rw [hc] at hstream
    cases hstream
  | ok rest =>
    rw [hc] at hstream
    rw [← Except.ok.inj hstream, flatten_reads]
    exact (hreturns rest).mp hc

theorem not_header_consumed : ¬ ∀ (client : NtripClient) (sent : Bytes), HeaderConsumed client sent := by
  intro h
  have hup : UpTo CRLF (encode " HTTP/1.1 200 OK\r\n") (encode " HTTP/1.1 200 OK\r\nServer: x\r\n\r\n" ++ [0xD3]) :=
    ⟨by decide, by decide, by decide⟩
  exact header_leaks ⟨"127.0.0.1", "GOOD", "", "", ""⟩ hup (by decide) (by decide) (h _ _)

end Rtcm.Proof
