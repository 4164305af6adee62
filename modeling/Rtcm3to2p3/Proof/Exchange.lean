import Rtcm3to2p3.Proof.Text
import Rtcm3to2p3.Spec.Exchange

/-!
# Client and caster agree

A request is a block of lines, so however it arrives the caster has read all
of it, and no more, when it has a blank line (`readRequest_request`). It
splits it into the client's lines and finds the mount there
(`requested_request`). The reply before a stream is a block of lines again,
whose end the client finds (`connect_accepted`); a sourcetable's first line
turns it away (`connect_tableOf`), and its records are those of the mounts
that are available (`sourcetable_built`, `listed_tableOf`).
-/

namespace Rtcm.Proof

open Rtcm.Impl Rtcm.Spec Delimited

/-! ## The request -/

/-- A line that neither ends nor splits a block. -/
abbrev Plain (line : String) : Prop := line.toList ≠ [] ∧ '\r' ∉ line.toList

theorem plain_encode {line : String} (h : Plain line) : encode line ≠ [] ∧ 0x0D ∉ encode line := by
  refine ⟨fun he => ?_, fun hm => h.2 (mem_of_mem_encode (c := '\r') (by decide) hm)⟩
  have hd := decode_encode line
  rw [he] at hd
  exact h.1 hd.symm

theorem request_eq (client : NtripClient) : client.request = block 0x0D 0x0A (client.lines.map encode) := by
  rw [NtripClient.request, List.map_append, ← intercalate_block]
  rfl

theorem plain_lines {client : NtripClient}
    (h : ∀ c ∈ (client.mountpoint ++ client.host ++ client.userAgent).toList, c ≠ '\r') :
    ∀ line ∈ client.lines, Plain line := by
  simp only [String.toList_append, List.mem_append] at h
  have hm : '\r' ∉ client.mountpoint.toList := fun hc => h _ (.inl (.inl hc)) rfl
  have hh : '\r' ∉ client.host.toList := fun hc => h _ (.inl (.inr hc)) rfl
  have hu : '\r' ∉ client.userAgent.toList := fun hc => h _ (.inr hc) rfl
  have hb := cr_notMem_b64encode (encode (client.user ++ ":" ++ client.password))
  intro line hl
  simp only [NtripClient.lines, List.mem_append, List.mem_cons, List.not_mem_nil, or_false] at hl
  rcases hl with (hl | hl) | rfl
  · rcases hl with rfl | rfl | rfl | rfl
    · simp [Plain, hm]
    · simp [Plain, hh]
    · decide
    · simp [Plain, hu]
  · split at hl
    · rw [List.mem_singleton.mp hl]
      simp [Plain, basicAuth, hb]
    · cases hl
  · decide

/-- However a block that is shorter than the limit arrives, it is all read. -/
theorem readRequest_eq (more : Nat → Nat) {whole : Bytes} (hlen : whole.length < 4096) (h : CRLF ++ CRLF <:+: whole)
    (hmin : ¬ CRLF ++ CRLF <:+: whole.dropLast) (i : Nat) (incoming req : Bytes) (he : req ++ incoming = whole) :
    NtripCaster.readRequest more i incoming req = some whole := by
  induction i, incoming, req using NtripCaster.readRequest.induct more with
  | case1 i incoming req hd =>
    rw [NtripCaster.readRequest, if_pos hd]
    subst he
    rw [List.length_append] at hlen
    have hb : CRLF ++ CRLF <:+: req := hd.resolve_right (by omega)
    -- the blank line is not in what came before the end
    have hi : incoming = [] := by
      by_contra hne
      exact hmin (hb.trans (prefix_dropLast hne).isInfix)
    rw [hi, List.append_nil]
  | case2 i req hd =>
    rw [List.append_nil] at he
    exact absurd (.inl (he ▸ h)) hd
  | case3 i incoming req hd hne ih =>
    rw [NtripCaster.readRequest, if_neg hd, dif_neg hne]
    apply ih
    rw [List.append_assoc, ← he]
    congr 1
    exact List.take_append_drop _ _

theorem readRequest_request (more : Nat → Nat) {client : NtripClient} (hlen : client.request.length < 4096)
    (h : ∀ line ∈ client.lines, Plain line) :
    NtripCaster.readRequest more 0 client.request [] = some client.request := by
  have hl : ∀ line ∈ client.lines.map encode, line ≠ [] ∧ 0x0D ∉ line := by
    intro line hm
    obtain ⟨text, ht, rfl⟩ := List.mem_map.mp hm
    exact plain_encode (h text ht)
  have hne : client.lines.map encode ≠ [] := by simp [NtripClient.lines]
  rw [request_eq] at hlen ⊢
  exact readRequest_eq more hlen (blank_block hne) (blank_dropLast (by decide) hl) 0 _ [] rfl

theorem split_request {client : NtripClient} (h : ∀ line ∈ client.lines, Plain line) :
    split "\r\n".toList (decode client.request) = (client.lines ++ ["", ""]).map String.toList := by
  have he : client.request = encode ("\r\n".intercalate (client.lines ++ ["", ""])) :=
    (encode_intercalate "\r\n" _).symm
  rw [he]
  refine split_decode (by simp) fun line hl => ?_
  rcases List.mem_append.mp hl with hl | hl
  · exact (h line hl).2
  · rw [show line = "" by simpa using hl]
    decide

/-- The words of the first line. -/
theorem split_requestLine {mount : String} (hspace : ' ' ∉ mount.toList) :
    split " ".toList ("GET /" ++ mount ++ " HTTP/1.1").toList =
      ["GET".toList, '/' :: mount.toList, "HTTP/1.1".toList] := by
  have hj : ("GET /" ++ mount ++ " HTTP/1.1").toList =
      [' '].intercalate ["GET".toList, '/' :: mount.toList, "HTTP/1.1".toList] := by
    simp [List.intercalate_cons_cons]
  have hsep : " ".toList = [' '] := rfl
  rw [hj, hsep]
  refine split_intercalate (by simp) fun word hw => ?_
  simp only [List.mem_cons, List.not_mem_nil, or_false] at hw
  rcases hw with rfl | rfl | rfl
  · decide
  · simpa using hspace
  · decide

theorem dropWhile_slash {cs : List Char} (h : cs.head? ≠ some '/') : ('/' :: cs).dropWhile (· == '/') = cs := by
  rw [List.dropWhile_cons_of_pos rfl]
  cases cs with
  | nil => rfl
  | cons c rest =>
    have hc : (c == '/') = false := by simpa using h
    rw [List.dropWhile_cons_of_neg (by simp [hc])]

theorem requested_request {client : NtripClient} (h : ∀ line ∈ client.lines, Plain line)
    (hspace : ' ' ∉ client.mountpoint.toList) (hslash : client.mountpoint.toList.head? ≠ some '/') :
    NtripCaster.requested client.request = (client.mountpoint, true) := by
  have hfirst : ((client.lines ++ ["", ""]).map String.toList).headD [] =
      ("GET /" ++ client.mountpoint ++ " HTTP/1.1").toList := rfl
  have hversion : ((client.lines ++ ["", ""]).map String.toList).any (fun line =>
      decide ("ntrip-version".toList <+: lower line ∧ "2.0".toList <:+: line)) = true :=
    List.any_eq_true.mpr ⟨"Ntrip-Version: Ntrip/2.0".toList, by simp [NtripClient.lines], by decide⟩
  simp only [NtripCaster.requested, split_request h, hfirst, hversion, split_requestLine hspace]
  rw [if_pos (by simp), List.getD_cons_succ, List.getD_cons_zero, dropWhile_slash hslash, String.ofList_toList]

/-! ## The reply -/

/-- The first line of a reply is read, whatever follows it. -/
theorem readUntil_status {status : Bytes} (h : 0x0D ∉ status) (rest : Bytes) :
    readUntil CRLF [] (status ++ CRLF ++ rest) = some (status ++ CRLF, rest) := by
  have hi : CRLF <:+: [] ++ (status ++ CRLF) := (List.suffix_append status CRLF).isInfix
  have hd : ¬ CRLF <:+: ([] ++ (status ++ CRLF)).dropLast := by
    rw [List.nil_append, List.dropLast_append_of_ne_nil (by decide), CRLF, infix_append_of_notMem h]
    decide
  exact readUntil_append hi hd rest

/-- The lines of the reply before an NTRIP 2 stream. -/
def acceptedLines (server : String) : List String :=
  ["HTTP/1.1 200 OK", "Ntrip-Version: Ntrip/2.0", "Server: " ++ server, "Content-Type: gnss/data", "Connection: close"]

theorem accepted_eq (server : String) :
    NtripCaster.accepted server true = block 0x0D 0x0A ((acceptedLines server).map encode) := by
  have h₁ : encode "HTTP/1.1 200 OK\r\nNtrip-Version: Ntrip/2.0\r\nServer: " =
      encode "HTTP/1.1 200 OK" ++ CRLF ++ (encode "Ntrip-Version: Ntrip/2.0" ++ CRLF) ++ encode "Server: " := by
    decide
  have h₂ : encode "\r\nContent-Type: gnss/data\r\nConnection: close\r\n\r\n" =
      CRLF ++ (encode "Content-Type: gnss/data" ++ CRLF) ++ (encode "Connection: close" ++ CRLF) ++ CRLF := by
    decide
  simp only [NtripCaster.accepted, if_true, encode_append, h₁, h₂, acceptedLines, List.map_cons, List.map_nil, block,
    List.flatMap_cons, List.flatMap_nil, List.append_nil, List.append_assoc]
  rfl

theorem plain_accepted {server : String} (h : '\r' ∉ server.toList) :
    ∀ line ∈ (acceptedLines server).map encode, line ≠ [] ∧ 0x0D ∉ line := by
  intro line hl
  obtain ⟨text, ht, rfl⟩ := List.mem_map.mp hl
  apply plain_encode
  simp only [acceptedLines, List.mem_cons, List.not_mem_nil, or_false] at ht
  rcases ht with rfl | rfl | rfl | rfl | rfl
  · decide
  · decide
  · simp [Plain, h]
  · decide
  · decide

/-- The client takes the reply off, and no more. -/
theorem connect_accepted (client : NtripClient) {server : String} (h : '\r' ∉ server.toList) (ntrip2 : Bool)
    (data : Bytes) : client.connect (NtripCaster.accepted server ntrip2 ++ data) = .ok data := by
  cases ntrip2 with
  | false =>
    have hr : NtripCaster.accepted server false = encode "ICY 200 OK" ++ CRLF := rfl
    have hcr : 0x0D ∉ encode "ICY 200 OK" := by decide
    have hicy : encode "ICY 200" <+: strip (encode "ICY 200 OK" ++ CRLF) := by decide
    have hhttp : ¬ encode "HTTP" <+: encode "ICY 200 OK" ++ CRLF := by decide
    simp only [hr, NtripClient.connect, readUntil_status hcr data, hicy, hhttp, true_or, not_true, if_false]
  | true =>
    have hplain := plain_accepted h
    rw [accepted_eq]
    rw [acceptedLines, List.map_cons] at hplain ⊢
    generalize List.map encode _ = lines at hplain ⊢
    have hcr : 0x0D ∉ encode "HTTP/1.1 200 OK" := by decide
    have hok : encode "HTTP/1" <+: strip (encode "HTTP/1.1 200 OK" ++ CRLF) ∧
        ((split (encode " ") (strip (encode "HTTP/1.1 200 OK" ++ CRLF))).drop 1).take 1 = [encode "200"] := by
      decide
    have hhttp : encode "HTTP" <+: encode "HTTP/1.1 200 OK" ++ CRLF := by decide
    have hblank : CRLF ++ CRLF <:+: block 0x0D 0x0A (encode "HTTP/1.1 200 OK" :: lines) :=
      blank_block (List.cons_ne_nil _ _)
    have hmin : ¬ CRLF ++ CRLF <:+: (block 0x0D 0x0A (encode "HTTP/1.1 200 OK" :: lines)).dropLast :=
      blank_dropLast (by decide) hplain
    rw [block_cons] at hblank hmin ⊢
    have hread : readUntil (CRLF ++ CRLF) (encode "HTTP/1.1 200 OK" ++ CRLF) (block 0x0D 0x0A lines ++ data) =
        some (encode "HTTP/1.1 200 OK" ++ CRLF ++ block 0x0D 0x0A lines, data) := readUntil_append hblank hmin data
    rw [List.append_assoc]
    change client.connect (encode "HTTP/1.1 200 OK" ++ CRLF ++ (block 0x0D 0x0A lines ++ data)) = _
    simp only [NtripClient.connect, readUntil_status hcr, hok, hhttp, or_true, and_self, not_true, if_false, if_true,
      hread]

theorem connect_tableOf (client : NtripClient) (server : String) (rows : List String) :
    ∃ e, client.connect (NtripCaster.tableOf server rows) = .error e := by
  have hr : ∃ rest, NtripCaster.tableOf server rows = encode "SOURCETABLE 200 OK" ++ CRLF ++ rest := by
    have hs : encode "SOURCETABLE 200 OK\r\nServer: " = encode "SOURCETABLE 200 OK" ++ CRLF ++ encode "Server: " := by
      decide
    simp only [NtripCaster.tableOf, encode_append, hs, List.append_assoc]
    exact ⟨_, rfl⟩
  obtain ⟨rest, hr⟩ := hr
  have hcr : 0x0D ∉ encode "SOURCETABLE 200 OK" := by decide
  have hicy : ¬ encode "ICY 200" <+: strip (encode "SOURCETABLE 200 OK" ++ CRLF) := by decide
  have hhttp : ¬ encode "HTTP/1" <+: strip (encode "SOURCETABLE 200 OK" ++ CRLF) := by decide
  simp only [hr, NtripClient.connect, readUntil_status hcr, hicy, hhttp, false_and, or_false, not_false_eq_true,
    if_true]
  exact ⟨_, rfl⟩

/-! ## The mounts -/

variable {K : Type}

theorem built_append (server : String) (calls : List (Nat × MountInfo K)) (x : Nat × MountInfo K) :
    built server (calls ++ [x]) = (built server calls).addFeed x.1 x.2 := by
  rw [built, List.foldl_append]
  rfl

theorem added_append (calls : List (Nat × MountInfo K)) (x : Nat × MountInfo K) (mount : String) :
    added (calls ++ [x]) mount = if mount = x.2.mount then some x else added calls mount := by
  rw [added, List.filter_append]
  split
  · rename_i h
    rw [List.filter_cons_of_pos (by simp [h]), List.filter_nil, List.getLast?_concat]
  · rename_i h
    rw [List.filter_cons_of_neg (by simpa using fun he => h he.symm), List.filter_nil, List.append_nil]
    rfl

theorem added_mount {calls : List (Nat × MountInfo K)} {mount : String} {x : Nat × MountInfo K}
    (h : added calls mount = some x) : x.2.mount = mount :=
  of_decide_eq_true (List.mem_filter.mp (List.mem_of_getLast? h)).2

theorem server_built (server : String) (calls : List (Nat × MountInfo K)) : (built server calls).server = server := by
  induction calls using List.reverseRecOn with
  | nil => rfl
  | append_singleton calls x ih =>
    rw [built_append]
    exact ih

theorem get?_built (server : String) (calls : List (Nat × MountInfo K)) (mount : String) :
    (built server calls).feeds.get? mount = (added calls mount).map Prod.fst ∧
      (built server calls).info.get? mount = (added calls mount).map Prod.snd := by
  induction calls using List.reverseRecOn with
  | nil => exact ⟨rfl, rfl⟩
  | append_singleton calls x ih =>
    rw [built_append, added_append, NtripCaster.addFeed, Dict.get?_set, Dict.get?_set]
    split
    · exact ⟨rfl, rfl⟩
    · exact ih

theorem mapM_filterMap {α β γ ε : Type} {f : α → Except ε β} {g : α → Option γ} {r : γ → β} {items : List α}
    (h : ∀ x ∈ items, ∃ c, g x = some c ∧ f x = .ok (r c)) : items.mapM f = .ok ((items.filterMap g).map r) := by
  induction items with
  | nil => rfl
  | cons x items ih =>
    obtain ⟨c, hg, hf⟩ := h x List.mem_cons_self
    rw [List.mapM_cons, hf, ih fun y hy => h y (List.mem_cons_of_mem x hy), List.filterMap_cons_some hg]
    rfl

/-- The feeds of a caster are those added, each with its latest record. -/
theorem mem_feeds_built {server : String} {calls : List (Nat × MountInfo K)} {x : String × Nat} :
    x ∈ (built server calls).feeds.items ↔ ∃ info, added calls x.1 = some (x.2, info) := by
  rw [show x = (x.1, x.2) from rfl, Dict.mem_items, (get?_built server calls x.1).1]
  cases added calls x.1 <;> simp [Prod.ext_iff]

theorem info_built {server : String} {calls : List (Nat × MountInfo K)} {x : String × Nat}
    (hx : x ∈ (built server calls).feeds.items) :
    ∃ info, (built server calls).info.get? x.1 = some info ∧ added calls x.1 = some (x.2, info) := by
  obtain ⟨info, ha⟩ := mem_feeds_built.mp hx
  exact ⟨info, by rw [(get?_built server calls x.1).2, ha, Option.map_some], ha⟩

/-- The records of the available feeds. -/
def availableInfos (state : Nat → Feed) (caster : NtripCaster K) : List (MountInfo K) :=
  (caster.feeds.items.filter fun x => (state x.2).available).filterMap fun x => caster.info.get? x.1

theorem mem_availableInfos {state : Nat → Feed} {server : String} {calls : List (Nat × MountInfo K)}
    {info : MountInfo K} : info ∈ availableInfos state (built server calls) ↔
      ∃ feed, added calls info.mount = some (feed, info) ∧ (state feed).available = true := by
  rw [availableInfos, List.mem_filterMap]
  constructor
  · rintro ⟨x, hx, hi⟩
    obtain ⟨hx, hs⟩ := List.mem_filter.mp hx
    obtain ⟨info', hi', ha⟩ := info_built hx
    obtain rfl : info = info' := Option.some.inj (hi.symm.trans hi')
    exact ⟨x.2, (added_mount ha).symm ▸ ha, hs⟩
  · rintro ⟨feed, ha, hs⟩
    have hx : (info.mount, feed) ∈ (built server calls).feeds.items := mem_feeds_built.mpr ⟨info, ha⟩
    refine ⟨(info.mount, feed), List.mem_filter.mpr ⟨hx, hs⟩, ?_⟩
    rw [(get?_built server calls info.mount).2, ha, Option.map_some]

/-- No mount has two records. -/
theorem nodup_availableInfos (state : Nat → Feed) (server : String) (calls : List (Nat × MountInfo K)) :
    ((availableInfos state (built server calls)).map (·.mount)).Nodup := by
  have hmap : ∀ x ∈ (built server calls).feeds.items.filter (fun x => (state x.2).available),
      ((built server calls).info.get? x.1).map (·.mount) = some x.1 := by
    intro x hx
    obtain ⟨info, hi, ha⟩ := info_built (List.mem_filter.mp hx).1
    rw [hi, Option.map_some]
    exact congrArg some (added_mount ha)
  have hfst : (fun x : String × Nat => some x.1) = some ∘ Prod.fst := rfl
  rw [availableInfos, List.map_filterMap, List.filterMap_congr hmap, hfst, List.filterMap_eq_map]
  exact (built server calls).feeds.nodup.sublist (List.filter_sublist.map _)

/-- The sourcetable has the records of the mounts that are available, once
each. -/
theorem sourcetable_built (float : K → String) (state : Nat → Feed) (server : String)
    (calls : List (Nat × MountInfo K)) :
    ∃ infos : List (MountInfo K),
      (built server calls).sourcetable float state = .ok (NtripCaster.tableOf server (infos.map (·.strRecord float))) ∧
      (infos.map (·.mount)).Nodup ∧
      ∀ info, info ∈ infos ↔ ∃ feed, added calls info.mount = some (feed, info) ∧ (state feed).available = true := by
  refine ⟨availableInfos state (built server calls), ?_, nodup_availableInfos state server calls,
    fun info => mem_availableInfos⟩
  rw [NtripCaster.sourcetable, mapM_filterMap, server_built]
  · rfl
  · intro x hx
    obtain ⟨info, hi, -⟩ := info_built (List.mem_filter.mp hx).1
    exact ⟨info, hi, by rw [NtripCaster.record, hi]⟩

/-- The lines of a sourcetable. -/
def tableLines (server : String) (length : Nat) (rows : List String) : List String :=
  ["SOURCETABLE 200 OK", "Server: " ++ server, "Content-Type: gnss/sourcetable", "Content-Length: " ++ toString length,
      ""] ++
    (if rows = [] then [""] else rows) ++ ["ENDSOURCETABLE", ""]

theorem tableOf_eq (server : String) (rows : List String) :
    ∃ length, NtripCaster.tableOf server rows = encode ("\r\n".intercalate (tableLines server length rows)) := by
  refine ⟨(encode ("\r\n".intercalate rows ++ "\r\nENDSOURCETABLE\r\n")).length, ?_⟩
  have hrows : "\r\n".intercalate rows = "\r\n".intercalate (if rows = [] then [""] else rows) := by
    split
    · rename_i h
      rw [h, String.intercalate_nil, String.intercalate_singleton]
    · rfl
  have hne : (if rows = [] then [""] else rows) ≠ [] := by
    split
    · exact List.cons_ne_nil _ _
    · assumption
  rw [NtripCaster.tableOf, ← encode_append, tableLines, String.intercalate_append_of_ne_nil (by simp) (by simp),
    String.intercalate_append_of_ne_nil (by simp) hne, ← hrows]
  refine congrArg encode (String.toList_injective ?_)
  simp

theorem cr_notMem_toString (n : Nat) : '\r' ∉ (toString n).toList := by
  intro h
  have hm : '\r' ∈ Nat.toDigits 10 n := by simpa [Nat.repr_eq_ofList_toDigits] using h
  exact absurd (Nat.isDigit_of_mem_toDigits (by decide) (by decide) hm) (by decide)

/-- The second field of a record is its mount. -/
theorem split_record {float : K → String} {info : MountInfo K} (h : ';' ∉ info.mount.toList) :
    "STR;".toList.isPrefixOf (info.strRecord float).toList = true ∧
      (split ";".toList (info.strRecord float).toList).getD 1 [] = info.mount.toList := by
  obtain ⟨rest, hr⟩ : ∃ rest, info.strRecord float = "STR;" ++ (info.mount ++ (";" ++ rest)) := by
    unfold MountInfo.strRecord
    simp only [String.append_assoc]
    exact ⟨_, rfl⟩
  have hl : (info.strRecord float).toList =
      "STR".toList ++ ([';'] ++ (info.mount.toList ++ ([';'] ++ rest.toList))) := by
    rw [hr, String.toList_append, String.toList_append, String.toList_append]
    rfl
  have hsep : ";".toList = [';'] := rfl
  rw [hl, hsep]
  constructor
  · exact List.isPrefixOf_iff_prefix.mpr ⟨_, rfl⟩
  · rw [split, splitFrom_append (by decide), splitFrom_sep, splitFrom_append h, splitFrom_sep]
    rfl

theorem cr_notMem_tableLines {server : String} (hserver : '\r' ∉ server.toList) (length : Nat) {rows : List String}
    (h : ∀ row ∈ rows, '\r' ∉ row.toList) : ∀ line ∈ tableLines server length rows, '\r' ∉ line.toList := by
  have hdigits := cr_notMem_toString length
  intro line hl
  simp only [tableLines, List.mem_append, List.mem_cons, List.not_mem_nil, or_false] at hl
  rcases hl with ((rfl | rfl | rfl | rfl | rfl) | hl) | rfl | rfl
  · decide
  · simp [hserver]
  · decide
  · simp only [String.toList_append, List.mem_append, not_or]
    exact ⟨by decide, hdigits⟩
  · decide
  · split at hl
    · rw [List.mem_singleton.mp hl]
      decide
    · exact h line hl
  · decide
  · decide

/-- The rows are the records of a sourcetable. -/
theorem filter_tableLines (server : String) (length : Nat) {rows : List String}
    (h : ∀ row ∈ rows, "STR;".toList.isPrefixOf row.toList = true) :
    ((tableLines server length rows).map String.toList).filter ("STR;".toList.isPrefixOf ·) =
      rows.map String.toList := by
  have hrows : ((if rows = [] then [""] else rows).map String.toList).filter ("STR;".toList.isPrefixOf ·) =
      rows.map String.toList := by
    split
    · rename_i hi
      rw [hi]
      rfl
    · refine List.filter_eq_self.mpr fun line hl => ?_
      obtain ⟨row, hr, rfl⟩ := List.mem_map.mp hl
      exact h row hr
  have hhead : ∀ text : String, "STR;".toList.isPrefixOf ("Server: " ++ text).toList = false ∧
      "STR;".toList.isPrefixOf ("Content-Length: " ++ text).toList = false := by
    intro text
    rw [String.toList_append, String.toList_append]
    exact ⟨rfl, rfl⟩
  have hfirst : (["SOURCETABLE 200 OK", "Server: " ++ server, "Content-Type: gnss/sourcetable",
      "Content-Length: " ++ toString length, ""].map String.toList).filter ("STR;".toList.isPrefixOf ·) = [] := by
    refine List.filter_eq_nil_iff.mpr fun line hl => ?_
    simp only [List.map_cons, List.map_nil, List.mem_cons, List.not_mem_nil, or_false] at hl
    rcases hl with rfl | rfl | rfl | rfl | rfl
    · decide
    · rw [(hhead server).1]
      exact Bool.false_ne_true
    · decide
    · rw [(hhead _).2]
      exact Bool.false_ne_true
    · decide
  have hlast : (["ENDSOURCETABLE", ""].map String.toList).filter ("STR;".toList.isPrefixOf ·) = [] := by decide
  rw [tableLines, List.map_append, List.map_append, List.filter_append, List.filter_append, hfirst, hlast, hrows,
    List.nil_append, List.append_nil]

/-- A reader of the sourcetable finds the mounts, when no record breaks a line
and no mount's name a field. -/
theorem listed_tableOf {float : K → String} {server : String} (hserver : '\r' ∉ server.toList)
    {infos : List (MountInfo K)}
    (h : ∀ info ∈ infos, '\r' ∉ (info.strRecord float).toList ∧ ';' ∉ info.mount.toList) :
    listed (NtripCaster.tableOf server (infos.map (·.strRecord float))) = infos.map (·.mount) := by
  obtain ⟨length, he⟩ := tableOf_eq server (infos.map (·.strRecord float))
  have hrow : ∀ row ∈ infos.map (·.strRecord float),
      '\r' ∉ row.toList ∧ "STR;".toList.isPrefixOf row.toList = true := by
    intro row hr
    obtain ⟨info, hi, rfl⟩ := List.mem_map.mp hr
    exact ⟨(h info hi).1, (split_record (h info hi).2).1⟩
  have hcr := cr_notMem_tableLines hserver length fun row hr => (hrow row hr).1
  have hrecords := filter_tableLines server length fun row hr => (hrow row hr).2
  rw [listed, he, split_decode (by simp [tableLines]) hcr, hrecords, List.map_map, List.map_map]
  refine List.map_congr_left fun info hi => ?_
  exact (congrArg String.ofList (split_record (h info hi).2).2).trans String.ofList_toList

/-! ## The agreement -/

theorem flatten_reads (more : Nat → Nat) (i : Nat) (incoming : Bytes) :
    (NtripClient.reads more i incoming).flatten = incoming := by
  induction i, incoming using NtripClient.reads.induct more with
  | case1 i =>
    rw [NtripClient.reads, dif_pos rfl]
    rfl
  | case2 i incoming hne ih =>
    rw [NtripClient.reads, dif_neg hne, List.flatten_cons, ih]
    exact List.take_append_drop _ _

/-- A client and a caster agree on the mount that is asked for. If it is
available the client takes off the reply and hands on what was put in its
queue; if not the caster closes with the records of the mounts that are
available, and the client raises. -/
theorem client_caster_agree (float : K → String) (state : Nat → Feed) {server : String} (hserver : '\r' ∉ server.toList)
    (calls : List (Nat × MountInfo K)) {client : NtripClient} (hlen : client.request.length < 4096)
    (hmount : client.mountpoint ≠ "" ∧ ' ' ∉ client.mountpoint.toList ∧ client.mountpoint.toList.head? ≠ some '/')
    (hclient : ∀ c ∈ (client.mountpoint ++ client.host ++ client.userAgent).toList, c ≠ '\r' ∧ c ≠ '\n')
    (more : Nat → Nat) :
    (∃ req, NtripCaster.readRequest more 0 client.request [] = some req ∧
      NtripCaster.requested req = (client.mountpoint, true)) ∧
    (∀ feed info, added calls client.mountpoint = some (feed, info) → (state feed).available = true →
      ∃ reply, (built server calls).handle float state more client.request = .ok (.serves reply feed) ∧
        ∀ (log : BoundedQueue.Log Bytes MAXSIZE) (more' : Nat → Nat),
          ∃ data, client.stream more' (sent reply log) = .ok data ∧
            data.flatten ++ log.queue.items.flatten = (putIn log).flatten) ∧
    ((∀ feed info, added calls client.mountpoint = some (feed, info) → (state feed).available = false) →
      ∃ infos : List (MountInfo K),
        (built server calls).handle float state more client.request =
          .ok (.closed (NtripCaster.tableOf server (infos.map (·.strRecord float)))) ∧
        (infos.map (·.mount)).Nodup ∧
        (∀ info, info ∈ infos ↔ ∃ feed, added calls info.mount = some (feed, info) ∧ (state feed).available = true) ∧
        ((∀ info ∈ infos, '\r' ∉ (info.strRecord float).toList ∧ ';' ∉ info.mount.toList) →
          listed (NtripCaster.tableOf server (infos.map (·.strRecord float))) = infos.map (·.mount)) ∧
        ∃ e, client.connect (NtripCaster.tableOf server (infos.map (·.strRecord float))) = .error e) := by
  have hplain := plain_lines fun c hc => (hclient c hc).1
  have hread := readRequest_request more hlen hplain
  have hreq := requested_request hplain hmount.2.1 hmount.2.2
  have hget := (get?_built server calls client.mountpoint).1
  refine ⟨⟨_, hread, hreq⟩, ?_, ?_⟩
  · intro feed info ha hs
    refine ⟨NtripCaster.accepted server true, ?_, fun log more' => ?_⟩
    · rw [ha, Option.map_some] at hget
      simp only [NtripCaster.handle, hread, hreq, hget, hs, if_true, server_built]
    · refine ⟨NtripClient.reads more' 0 log.taken.flatten, ?_, ?_⟩
      · rw [NtripClient.stream, sent, connect_accepted client hserver]
        rfl
      · rw [flatten_reads, ← List.flatten_append, log.fifo, putIn]
  · intro hs
    obtain ⟨infos, htable, hnodup, hmem⟩ := sourcetable_built float state server calls
    refine ⟨infos, ?_, hnodup, hmem, listed_tableOf hserver, connect_tableOf client server _⟩
    cases ha : added calls client.mountpoint with
    | none =>
      rw [ha, Option.map_none] at hget
      simp only [NtripCaster.handle, hread, hreq, hget, htable]
      rfl
    | some x =>
      rw [ha, Option.map_some] at hget
      simp only [NtripCaster.handle, hread, hreq, hget, hs x.1 x.2 ha, htable]
      rfl

/-- A feed that has been published on, and one that has not. -/
def twoMounts : List (Nat × MountInfo String) :=
  [(0, { mount := "TEST", lat := "-34.9", lon := "138.6" }), (1, { mount := "LATER", lat := "0.0", lon := "0.0" })]

abbrev twoFeeds (feed : Nat) : Feed := ⟨"F", ∅, feed == 0, 0⟩

abbrev testClient : NtripClient := { host := "127.0.0.1", mountpoint := "TEST" }

abbrev laterClient : NtripClient := { host := "127.0.0.1", mountpoint := "LATER" }

theorem no_breaks {text : String} (h : text.toList.all (fun c => c != '\r' && c != '\n') = true) :
    ∀ c ∈ text.toList, c ≠ '\r' ∧ c ≠ '\n' := by
  intro c hc
  simpa using List.all_eq_true.mp h c hc

set_option maxRecDepth 4000 in
theorem client_caster_agree_two :
    (∃ reply, (built "ntrip-rtcm3-to-rtcm2p3" twoMounts).handle id twoFeeds (· % 3) testClient.request =
        .ok (.serves reply 0) ∧
      ∃ data, testClient.stream (· % 5) (sent reply (.take (.offer .empty [0xD3, 0x0D, 0x0A]))) = .ok data ∧
        data.flatten ++ [] = [0xD3, 0x0D, 0x0A]) ∧
    ∃ infos : List (MountInfo String),
      (built "ntrip-rtcm3-to-rtcm2p3" twoMounts).handle id twoFeeds (· % 3) laterClient.request =
        .ok (.closed (NtripCaster.tableOf "ntrip-rtcm3-to-rtcm2p3" (infos.map (·.strRecord id)))) := by
  have hserver : '\r' ∉ "ntrip-rtcm3-to-rtcm2p3".toList := by decide
  constructor
  · have hlen : testClient.request.length < 4096 := by decide
    have hc := client_caster_agree id twoFeeds hserver twoMounts hlen (by decide) (no_breaks (by decide)) (· % 3)
    obtain ⟨reply, hh, hl⟩ := hc.2.1 _ _ rfl rfl
    obtain ⟨data, hs, hd⟩ := hl (.take (.offer .empty [0xD3, 0x0D, 0x0A])) (· % 5)
    exact ⟨reply, hh, data, hs, hd⟩
  · have hlen : laterClient.request.length < 4096 := by decide
    have hc := client_caster_agree id twoFeeds hserver twoMounts hlen (by decide) (no_breaks (by decide)) (· % 3)
    have hnone : ∀ feed info, added twoMounts laterClient.mountpoint = some (feed, info) →
        (twoFeeds feed).available = false := by
      intro feed info h
      obtain rfl : 1 = feed := congrArg Prod.fst (Option.some.inj h)
      rfl
    obtain ⟨infos, hh, -⟩ := hc.2.2 hnone
    exact ⟨infos, hh⟩

end Rtcm.Proof
