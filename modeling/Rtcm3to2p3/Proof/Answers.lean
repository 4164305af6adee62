import Rtcm3to2p3.Proof.Clients
import Rtcm3to2p3.Proof.Text
import Rtcm3to2p3.Spec.Answers

/-!
# What a request is answered with

The mount that a client asks for is read from its first line whatever comes
after it (`requested_append`), and a client without a queue has sent nothing but
its answer (`unanswered`). What it is answered with is then an invariant of
every step, its own (`answering_outside`, `answering_joined`) or another's
(`Answering.others`), and of any run (`caster_answers`).
-/

namespace Rtcm.Proof

open Rtcm.Impl Rtcm.Spec Delimited Transition

variable {K : Type} {float : K → String}

/-! ## The request -/

theorem decode_crlf (s : Bytes) : decode (CRLF ++ s) = "\r\n".toList ++ decode s :=
  (decodeFrom_char '\r' (0x0A :: s)).trans (congrArg _ (decodeFrom_char '\n' s))

/-- What comes after the first line does not change the mount. -/
theorem requested_append {line : Bytes} (h : CRLF <:+ line) (rest : Bytes) :
    (NtripCaster.requested (line ++ rest)).1 = (NtripCaster.requested line).1 := by
  obtain ⟨u, rfl⟩ := h
  have hascii : ∀ s, StartsAscii (CRLF ++ s) := fun s b hb => by
    cases hb
    decide
  have hline : decode (u ++ CRLF) = decode u ++ "\r\n".toList := by
    rw [← List.append_nil CRLF, decode_append u (hascii []), decode_crlf]
    rfl
  have hall : decode (u ++ CRLF ++ rest) = decode (u ++ CRLF) ++ decode rest := by
    rw [List.append_assoc, decode_append u (hascii rest), decode_crlf, hline, List.append_assoc]
  have hsep : "\r\n".toList <:+: decode (u ++ CRLF) := hline ▸ (List.suffix_append _ _).isInfix
  have hhead := split_headD_append (by decide) hsep (decode rest)
  simp only [NtripCaster.requested, hall, hhead]

theorem requested_of_asks {incoming req : Bytes} {mount : String} (h : Asks incoming mount) (hr : req <+: incoming)
    (hend : CRLF ++ CRLF <:+: req ∨ 4096 ≤ req.length) : (NtripCaster.requested req).1 = mount := by
  obtain ⟨line, hup, hlen, rfl⟩ := h
  have hline : line <+: req := by
    rcases hend with hblank | hlong
    · exact hup.prefix_of hr ((List.infix_append' [] CRLF CRLF).trans hblank)
    · exact List.prefix_of_prefix_length_le hup.start hr (hlen.trans hlong)
  obtain ⟨rest, rfl⟩ := hline
  exact requested_append hup.ends rest

/-- A client that waits has sent no more than its request. -/
theorem request_of_waiting {incoming req : Bytes} (hr : req <+: incoming)
    (hend : CRLF ++ CRLF <:+: req ∨ 4096 ≤ req.length) (hup : UpTo (CRLF ++ CRLF) incoming incoming)
    (hlen : incoming.length ≤ 4096) : req = incoming := by
  rcases hend with hblank | hlong
  · exact hr.eq_of_length_le (hup.prefix_of hr hblank).length_le
  · exact hr.eq_of_length_le (hlen.trans hlong)

/-! ## What a step keeps -/

theorem feed_available {s s' : Fanout} {e : Fanout.Event} (h : Steps s e s') (ha : s.feed.available = true) :
    s'.feed.available = true := by
  cases h with
  | announce => rfl
  | subscribe | unsubscribe | get | nothing | snapshot | put | returns => exact ha

/-- The caster stays as it was built, and a feed that is available stays so. -/
structure Grows (s s' : Caster K) : Prop where
  caster : s'.caster = s.caster
  available : ∀ f, (s.feeds f).feed.available = true → (s'.feeds f).feed.available = true

theorem grows_feed {s s' : Caster K} {feed : Nat} {feed' : Fanout} {e : Fanout.Event}
    (hf : Steps (s.feeds feed) e feed') (hc : s'.caster = s.caster)
    (hfeeds : s'.feeds = Function.update s.feeds feed feed') : Grows s s' := by
  refine ⟨hc, fun f => ?_⟩
  rw [hfeeds]
  exact forall_feeds (P := fun f F => (s.feeds f).feed.available = true → F.feed.available = true) (fun _ ha => ha)
    (feed_available hf) f

theorem grows_step {s s' : Caster K} {e : Caster.Event} (hs : s.step float e = some s') : Grows s s' := by
  cases serves_step hs with
  | connects | stop | goes => exact ⟨rfl, fun _ ha => ha⟩
  | subscribes _ _ _ _ _ hf => exact grows_feed hf rfl rfl
  | gets _ _ _ _ _ _ _ _ _ hf => exact grows_feed hf rfl rfl
  | leaves _ _ _ _ _ _ hf => exact grows_feed hf rfl rfl
  | publisher _ _ _ _ hf => exact grows_feed hf rfl rfl

/-- A thread that a step is not of. -/
theorem others_step {s s' : Caster K} {e : Caster.Event} (hs : s.step float e = some s') {t : Nat}
    (ht : t < s.connections) (he : e.thread ≠ some t) :
    s'.handlers t = s.handlers t ∧ s'.joined t = s.joined t ∧ s'.sent t = s.sent t := by
  cases serves_step hs with
  | connects => exact ⟨Function.update_of_ne ht.ne .., rfl, rfl⟩
  | stop | publisher => exact ⟨rfl, rfl, rfl⟩
  | goes _ h _ _ heq =>
    have hne : t ≠ h := fun hth => he (hth ▸ heq)
    exact ⟨Function.update_of_ne hne .., rfl, Function.update_of_ne hne ..⟩
  | subscribes h =>
    have hne : t ≠ h := fun hth => he (hth ▸ rfl)
    exact ⟨Function.update_of_ne hne .., Function.update_of_ne hne .., rfl⟩
  | gets h | leaves h =>
    have hne : t ≠ h := fun hth => he (hth ▸ rfl)
    exact ⟨Function.update_of_ne hne .., rfl, rfl⟩

/-- A thread that has joined sends more, and stays where it is. -/
theorem joined_step {s s' : Caster K} {e : Caster.Event} (hs : s.step float e = some s') (hsound : Sound s) {t : Nat}
    {x : Nat × Nat} (hj : s.joined t = some x) : s'.joined t = some x ∧ s.sent t <+: s'.sent t := by
  cases serves_step hs with
  | connects | stop | publisher | gets | leaves => exact ⟨hj, List.prefix_rfl⟩
  | goes _ h bytes =>
    refine ⟨hj, ?_⟩
    by_cases hth : t = h
    · subst hth
      simp only [Caster.goes, Function.update_self]
      exact List.prefix_append _ _
    · simp only [Caster.goes, Function.update_of_ne hth]
      exact List.prefix_rfl
  | subscribes h _ feed _ hp =>
    have hne : t ≠ h := by
      rintro rfl
      rcases hsound.members.alone t x hj with hq | hq
      · rw [hp] at hq
        cases hq
      · rw [hp] at hq
        cases hq
    exact ⟨(Function.update_of_ne hne ..).trans hj, List.prefix_rfl⟩

/-! ## The answer -/

theorem granted_grows {s s' : Caster K} {incoming : Bytes} {mount : String} {ntrip2 : Bool} {feed : Nat}
    (h : Granted s incoming mount ntrip2 feed) (hl : Grows s s') : Granted s' incoming mount ntrip2 feed :=
  ⟨h.whole, hl.caster ▸ h.mount, hl.available _ h.available, h.version⟩

theorem refused_grows {s₀ s s' : Caster K} {incoming : Bytes} {mount : String} {seen : List (String × Nat)}
    {rows : List String} (h : Refused float s₀ s incoming mount seen rows) (hl : Grows s s') :
    Refused float s₀ s' incoming mount seen rows := by
  obtain ⟨listed, hsub, hrows, hnow, hthen⟩ := h.rows
  refine ⟨h.whole, hl.caster ▸ h.mount, listed, hsub, ?_, fun x hx => hl.available _ (hnow x hx), hthen⟩
  rw [hl.caster]
  exact hrows

/-- How far a thread is with its answer. -/
structure Answering (float : K → String) (s₀ s : Caster K) (t : Nat) (incoming : Bytes) (mount : String) : Prop where
  grows : Grows s₀ s
  reading : ∀ rest req, s.handlers t = .requesting rest req → req ++ rest = incoming
  listing : ∀ todo rows, s.handlers t = .listing todo rows →
    ∃ seen, seen ++ todo = s.caster.feeds.items ∧ Refused float s₀ s incoming mount seen rows
  replying : ∀ ntrip2 feed, s.handlers t = .replying ntrip2 feed → Granted s incoming mount ntrip2 feed
  subscribing : ∀ feed, s.handlers t = .subscribing feed →
    ∃ ntrip2, s.sent t = NtripCaster.accepted s.caster.server ntrip2 ∧ Granted s incoming mount ntrip2 feed
  answered : Answered float s₀ s t incoming mount

section

variable {s₀ s s' : Caster K} {t : Nat} {incoming : Bytes} {mount : String}

/-- What stays of an answer, where the thread does not move. -/
theorem answered_grows (h : Answered float s₀ s t incoming mount) (hg : Grows s s') (hj : s'.joined t = s.joined t)
    (hb : s'.sent t = s.sent t) : Answered float s₀ s' t incoming mount := by
  refine ⟨fun feed q hx => ?_, fun hx => ?_⟩
  · obtain ⟨ntrip2, hsent, hgr⟩ := h.joined feed q (hj ▸ hx)
    exact ⟨ntrip2, by rwa [hb, hg.caster], granted_grows hgr hg⟩
  · rw [hb, hg.caster]
    rcases h.outside (hj ▸ hx) with hnil | ⟨ntrip2, feed, hsent, hgr⟩ | ⟨rows, hsent, hr⟩
    · exact .inl hnil
    · exact .inr (.inl ⟨ntrip2, feed, hsent, granted_grows hgr hg⟩)
    · exact .inr (.inr ⟨rows, hsent, refused_grows hr hg⟩)

theorem Answering.others (h : Answering float s₀ s t incoming mount) (hg : Grows s s')
    (hp : s'.handlers t = s.handlers t) (hj : s'.joined t = s.joined t) (hb : s'.sent t = s.sent t) :
    Answering float s₀ s' t incoming mount := by
  refine ⟨⟨hg.caster.trans h.grows.caster, fun f ha => hg.available f (h.grows.available f ha)⟩,
    fun rest req hx => h.reading rest req (hp ▸ hx), fun todo rows hx => ?_, fun ntrip2 feed hx => ?_, fun feed hx => ?_,
    answered_grows h.answered hg hj hb⟩
  · obtain ⟨seen, hseen, hr⟩ := h.listing todo rows (hp ▸ hx)
    exact ⟨seen, hg.caster ▸ hseen, refused_grows hr hg⟩
  · exact granted_grows (h.replying ntrip2 feed (hp ▸ hx)) hg
  · obtain ⟨ntrip2, hsent, hgr⟩ := h.subscribing feed (hp ▸ hx)
    exact ⟨ntrip2, by rw [hb, hg.caster, hsent], granted_grows hgr hg⟩

/-- A thread that goes on without a queue. -/
theorem Answering.goes (h : Answering float s₀ s t incoming mount) {bytes : Bytes} {p : Handler}
    (hj : s.joined t = none)
    (hreading : ∀ rest req, p = .requesting rest req → req ++ rest = incoming)
    (hlisting : ∀ todo rows, p = .listing todo rows →
      ∃ seen, seen ++ todo = s.caster.feeds.items ∧ Refused float s₀ s incoming mount seen rows)
    (hreplying : ∀ ntrip2 feed, p = .replying ntrip2 feed → Granted s incoming mount ntrip2 feed)
    (hsubscribing : ∀ feed, p = .subscribing feed → ∃ ntrip2, s.sent t ++ bytes =
      NtripCaster.accepted s.caster.server ntrip2 ∧ Granted s incoming mount ntrip2 feed)
    (hsent : s.sent t ++ bytes = [] ∨
      (∃ ntrip2 feed, s.sent t ++ bytes <+: NtripCaster.accepted s.caster.server ntrip2 ∧
        Granted s incoming mount ntrip2 feed) ∨
      ∃ rows, s.sent t ++ bytes <+: NtripCaster.tableOf s.caster.server rows ∧
        Refused float s₀ s incoming mount s.caster.feeds.items rows) :
    Answering float s₀ (s.goes t bytes p) t incoming mount := by
  have hp : (s.goes t bytes p).handlers t = p := Function.update_self ..
  have hb : (s.goes t bytes p).sent t = s.sent t ++ bytes := Function.update_self ..
  have hg : Grows s (s.goes t bytes p) := ⟨rfl, fun _ ha => ha⟩
  refine ⟨⟨hg.caster.trans h.grows.caster, h.grows.available⟩, fun rest req hx => hreading rest req (hp ▸ hx),
    fun todo rows hx => ?_, fun ntrip2 feed hx => granted_grows (hreplying ntrip2 feed (hp ▸ hx)) hg, fun feed hx => ?_,
    ⟨fun feed q hx => ?_, fun _ => ?_⟩⟩
  · obtain ⟨seen, hseen, hr⟩ := hlisting todo rows (hp ▸ hx)
    exact ⟨seen, hseen, refused_grows hr hg⟩
  · obtain ⟨ntrip2, heq, hgr⟩ := hsubscribing feed (hp ▸ hx)
    exact ⟨ntrip2, hb.trans heq, granted_grows hgr hg⟩
  · exact nomatch hj.symm.trans hx
  · rw [hb]
    exact hsent.imp_right (Or.imp (fun ⟨n, f, hp, hgr⟩ => ⟨n, f, hp, granted_grows hgr hg⟩) fun ⟨rows, hp, hr⟩ =>
      ⟨rows, hp, refused_grows hr hg⟩)

/-- A thread that ends without a queue. -/
theorem Answering.closes (h : Answering float s₀ s t incoming mount) {bytes : Bytes} (hj : s.joined t = none)
    (hsent : s.sent t ++ bytes = [] ∨
      (∃ ntrip2 feed, s.sent t ++ bytes <+: NtripCaster.accepted s.caster.server ntrip2 ∧
        Granted s incoming mount ntrip2 feed) ∨
      ∃ rows, s.sent t ++ bytes <+: NtripCaster.tableOf s.caster.server rows ∧
        Refused float s₀ s incoming mount s.caster.feeds.items rows) :
    Answering float s₀ (s.goes t bytes .closed) t incoming mount :=
  h.goes hj nofun nofun nofun nofun hsent

/-- A thread without a queue has sent nothing before its answer. -/
theorem unanswered {s : Caster K} (hsound : Sound s) {t : Nat} (hq : (s.handlers t).queue = none)
    (hc : s.handlers t ≠ .closed) :
    s.joined t = none ∧ ((∀ feed, s.handlers t ≠ .subscribing feed) → s.sent t = []) := by
  have hj : s.joined t = none := by
    cases hj : s.joined t with
    | none => rfl
    | some x =>
      rcases hsound.members.alone t x hj with hx | hx
      · exact nomatch hq.symm.trans hx
      · exact absurd hx hc
  have hsent := hsound.sent t
  unfold HasSent at hsent
  rw [hj] at hsent
  refine ⟨hj, fun hnot => ?_⟩
  generalize s.handlers t = p at *
  cases p with
  | requesting | listing | replying => exact hsent
  | subscribing feed => exact absurd rfl (hnot feed)
  | serving | waiting | sending | leaving => cases hq
  | closed => exact absurd rfl hc

theorem answering_requesting (hm : Asks incoming mount) (h : Answering float s₀ s t incoming mount) (hsound : Sound s)
    {rest req : Bytes} (hp : s.handlers t = .requesting rest req) {more : Nat} (hs : s.turn float t more = some s') :
    Answering float s₀ s' t incoming mount := by
  have hreq := h.reading rest req hp
  obtain ⟨hj, hnil⟩ := unanswered hsound (t := t) (by rw [hp]; rfl) (by simp [hp])
  have hsent : s.sent t ++ [] = [] := by rw [hnil (by simp [hp]), List.append_nil]
  have hprefix : req <+: incoming := ⟨rest, hreq⟩
  simp only [Caster.turn, hp] at hs
  by_cases hend : CRLF ++ CRLF <:+: req ∨ 4096 ≤ req.length
  · have hmount := requested_of_asks hm hprefix hend
    have hwhole : Whole incoming := hend.imp (·.trans hprefix.isInfix) (·.trans hprefix.length_le)
    -- The table begins with no mount looked at.
    have hrefused : (∀ feed, s.caster.feeds.get? mount = some feed → (s₀.feeds feed).feed.available = false) →
        Answering float s₀ (s.goes t [] (.listing s.caster.feeds.items [])) t incoming mount := fun hno =>
      h.goes hj nofun (fun todo rows hx => by
        cases hx
        exact ⟨[], rfl, hwhole, hno, [], List.Sublist.refl _, .nil, nofun, nofun⟩) nofun nofun (.inl hsent)
    rw [if_pos hend, hmount] at hs
    split at hs
    · rename_i hnone
      obtain rfl := Option.some.inj hs
      exact hrefused fun feed hfeed => nomatch hnone.symm.trans hfeed
    · rename_i feed hfeed
      split at hs
      · rename_i ha
        obtain rfl := Option.some.inj hs
        refine h.goes hj nofun nofun (fun ntrip2 feed' hx => ?_) nofun (.inl hsent)
        cases hx
        refine ⟨hwhole, hfeed, ha, fun hup hlen => ?_⟩
        rw [request_of_waiting hprefix hend hup hlen]
      · rename_i ha
        obtain rfl := Option.some.inj hs
        refine hrefused fun feed' hfeed' => ?_
        obtain rfl := Option.some.inj (hfeed.symm.trans hfeed')
        exact Bool.eq_false_iff.mpr fun hthen => ha (h.grows.available _ hthen)
  · rw [if_neg hend] at hs
    split at hs
    · obtain rfl := Option.some.inj hs
      exact h.closes hj (.inl hsent)
    · obtain rfl := Option.some.inj hs
      refine h.goes hj (fun rest' req' hx => ?_) nofun nofun nofun (.inl hsent)
      cases hx
      rw [List.append_assoc, ← hreq]
      exact congrArg (req ++ ·) (List.take_append_drop _ _)

/-- One more mount of the table. -/
theorem refused_seen {seen : List (String × Nat)} {rows : List String} (h : Refused float s₀ s incoming mount seen rows)
    (hg : Grows s₀ s) {x : String × Nat} {rows' : List String}
    (hx : ((s.feeds x.2).feed.available = true ∧ ∃ row, s.caster.record float x.1 = .ok row ∧ rows' = rows ++ [row]) ∨
      ((s.feeds x.2).feed.available ≠ true ∧ rows' = rows)) :
    Refused float s₀ s incoming mount (seen ++ [x]) rows' := by
  obtain ⟨listed, hsub, hrows, hnow, hthen⟩ := h.rows
  rcases hx with ⟨ha, row, hrow, rfl⟩ | ⟨ha, rfl⟩
  · refine ⟨h.whole, h.mount, listed ++ [x], hsub.append (List.Sublist.refl _),
      List.rel_append hrows (.cons hrow .nil), fun y hy => ?_, fun y hy hthen' => ?_⟩
    · rcases List.mem_append.mp hy with hy | hy
      · exact hnow y hy
      · exact List.mem_singleton.mp hy ▸ ha
    · rcases List.mem_append.mp hy with hy | hy
      · exact List.mem_append_left _ (hthen y hy hthen')
      · exact List.mem_append_right _ hy
  · refine ⟨h.whole, h.mount, listed, hsub.trans (List.sublist_append_left _ _), hrows, hnow, fun y hy hthen' => ?_⟩
    rcases List.mem_append.mp hy with hy | hy
    · exact hthen y hy hthen'
    · rw [List.mem_singleton.mp hy] at hthen'
      exact absurd (hg.available _ hthen') ha

theorem answering_listing (h : Answering float s₀ s t incoming mount) (hsound : Sound s) {todo : List (String × Nat)}
    {rows : List String} (hp : s.handlers t = .listing todo rows) {more : Nat} (hs : s.turn float t more = some s') :
    Answering float s₀ s' t incoming mount := by
  obtain ⟨seen, hseen, hr⟩ := h.listing todo rows hp
  obtain ⟨hj, hnil⟩ := unanswered hsound (t := t) (by rw [hp]; rfl) (by simp [hp])
  have hnil := hnil (by simp [hp])
  have hsent : s.sent t ++ [] = [] := by rw [hnil, List.append_nil]
  cases todo with
  | nil =>
    simp only [Caster.turn, hp] at hs
    obtain rfl := Option.some.inj hs
    rw [List.append_nil] at hseen
    refine h.closes hj (.inr (.inr ⟨rows, ?_, hseen ▸ hr⟩))
    rw [hnil, List.nil_append]
  | cons x todo =>
    have hgo : ∀ rows', Refused float s₀ s incoming mount (seen ++ [x]) rows' →
        Answering float s₀ (s.goes t [] (.listing todo rows')) t incoming mount := fun rows' hr =>
      h.goes hj nofun (fun todo' rows'' hx => by
        cases hx
        exact ⟨seen ++ [x], by rw [← hseen, List.append_assoc]; rfl, hr⟩) nofun nofun (.inl hsent)
    simp only [Caster.turn, hp] at hs
    split at hs
    · rename_i ha
      split at hs
      · rename_i row hrow
        obtain rfl := Option.some.inj hs
        exact hgo _ (refused_seen hr h.grows (.inl ⟨ha, row, hrow, rfl⟩))
      · obtain rfl := Option.some.inj hs
        exact h.closes hj (.inl hsent)
    · rename_i ha
      obtain rfl := Option.some.inj hs
      exact hgo _ (refused_seen hr h.grows (.inr ⟨ha, rfl⟩))

theorem answering_replying (h : Answering float s₀ s t incoming mount) (hsound : Sound s) {ntrip2 : Bool} {feed : Nat}
    (hp : s.handlers t = .replying ntrip2 feed) {bytes : Bytes} {p : Handler}
    (hb : bytes <+: NtripCaster.accepted s.caster.server ntrip2)
    (hgo : p = .closed ∨ p = .subscribing feed ∧ bytes = NtripCaster.accepted s.caster.server ntrip2) :
    Answering float s₀ (s.goes t bytes p) t incoming mount := by
  have hgr := h.replying ntrip2 feed hp
  obtain ⟨hj, hnil⟩ := unanswered hsound (t := t) (by rw [hp]; rfl) (by simp [hp])
  have hsent : s.sent t ++ bytes = bytes := by rw [hnil (by simp [hp]), List.nil_append]
  have hout := hsent ▸ hb
  rcases hgo with rfl | ⟨rfl, rfl⟩
  · exact h.closes hj (.inr (.inl ⟨ntrip2, feed, hout, hgr⟩))
  · refine h.goes hj nofun nofun nofun (fun feed' hx => ?_) (.inr (.inl ⟨ntrip2, feed, hout, hgr⟩))
    cases hx
    exact ⟨ntrip2, hsent, hgr⟩

/-- A thread that has its queue, from now on or from before. -/
theorem answering_joined (hg : Grows s₀ s') (hsound : Sound s') {x : Nat × Nat} (hj : s'.joined t = some x)
    (ha : ∃ ntrip2, NtripCaster.accepted s'.caster.server ntrip2 <+: s'.sent t ∧
      Granted s' incoming mount ntrip2 x.1) :
    Answering float s₀ s' t incoming mount := by
  have hstate : (s'.handlers t).queue ≠ none ∨ s'.handlers t = .closed :=
    (hsound.members.alone t x hj).imp_left fun hq hnone => nomatch hq.symm.trans hnone
  have hnot : ∀ p : Handler, p.queue = none → p ≠ .closed → s'.handlers t ≠ p := by
    rintro p hq hc hp
    rw [hp] at hstate
    exact hstate.elim (· hq) hc
  refine ⟨hg, fun rest req hp => absurd hp (hnot _ rfl nofun), fun todo rows hp => absurd hp (hnot _ rfl nofun),
    fun ntrip2 feed hp => absurd hp (hnot _ rfl nofun), fun feed hp => absurd hp (hnot _ rfl nofun),
    ⟨fun feed q hx => ?_, fun hx => nomatch hj.symm.trans hx⟩⟩
  obtain rfl := Option.some.inj (hj.symm.trans hx)
  exact ha

/-- The steps of a thread that has no queue yet. -/
theorem answering_outside (hm : Asks incoming mount) (h : Answering float s₀ s t incoming mount) (hsound : Sound s)
    (hj : s.joined t = none) {e : Caster.Event} (he : e.thread = some t) (hs : s.step float e = some s')
    (hg : Grows s₀ s') (hsound' : Sound s') : Answering float s₀ s' t incoming mount := by
  have hq : (s.handlers t).queue = none := by
    cases hx : (s.handlers t).queue with
    | none => rfl
    | some x => exact nomatch hj.symm.trans (hsound.members.queue t x hx)
  have hgrows := grows_step hs
  cases e with
  | connects | publisher | stop => cases he
  | turn t' more =>
    cases he
    change s.turn float t more = some s' at hs
    cases hp : s.handlers t with
    | requesting rest req => exact answering_requesting hm h hsound hp hs
    | listing todo rows => exact answering_listing h hsound hp hs
    | replying ntrip2 feed =>
      simp only [Caster.turn, hp] at hs
      obtain rfl := Option.some.inj hs
      exact answering_replying h hsound hp List.prefix_rfl (.inr ⟨rfl, rfl⟩)
    | subscribing feed =>
      obtain ⟨ntrip2, hsent, hgr⟩ := h.subscribing feed hp
      simp only [Caster.turn, hp] at hs
      rw [feedStep_quiet .subscribe rfl] at hs
      obtain rfl := Option.some.inj hs
      exact answering_joined hg hsound' (Function.update_self ..) ⟨ntrip2, hsent ▸ List.prefix_rfl, granted_grows hgr hgrows⟩
    | serving | waiting | sending | leaving =>
      rw [hp] at hq
      cases hq
    | closed =>
      simp only [Caster.turn, hp] at hs
      cases hs
  | fails t' k =>
    cases he
    simp only [Caster.step, Caster.fails] at hs
    cases hp : s.handlers t with
    | requesting rest req =>
      obtain ⟨-, hnil⟩ := unanswered hsound hq (by simp [hp])
      rw [hp] at hs
      obtain rfl := Option.some.inj hs
      exact h.closes hj (.inl (by rw [hnil (by simp [hp]), List.append_nil]))
    | listing todo rows =>
      obtain ⟨seen, hseen, hr⟩ := h.listing todo rows hp
      obtain ⟨-, hnil⟩ := unanswered hsound hq (by simp [hp])
      rw [hp] at hs
      cases todo with
      | nil =>
        obtain rfl := Option.some.inj hs
        rw [List.append_nil] at hseen
        refine h.closes hj (.inr (.inr ⟨rows, ?_, hseen ▸ hr⟩))
        rw [hnil (by simp [hp]), List.nil_append]
        exact List.take_prefix k _
      | cons => cases hs
    | replying ntrip2 feed =>
      rw [hp] at hs
      obtain rfl := Option.some.inj hs
      exact answering_replying h hsound hp (List.take_prefix k _) (.inl rfl)
    | subscribing | serving | waiting | leaving | closed =>
      rw [hp] at hs
      cases hs
    | sending =>
      rw [hp] at hq
      cases hq
  | empty t' =>
    cases he
    simp only [Caster.step] at hs
    cases hp : s.handlers t with
    | waiting =>
      rw [hp] at hq
      cases hq
    | _ =>
      rw [hp] at hs
      cases hs

theorem answering_step (hm : Asks incoming mount) {e : Caster.Event} (hs : s.step float e = some s')
    (hsound : Sound s) (ht : t < s.connections) (h : Answering float s₀ s t incoming mount) :
    Answering float s₀ s' t incoming mount := by
  have hgrows := grows_step hs
  have hg : Grows s₀ s' :=
    ⟨hgrows.caster.trans h.grows.caster, fun f ha => hgrows.available f (h.grows.available f ha)⟩
  by_cases he : e.thread = some t
  · cases hj : s.joined t with
    | none => exact answering_outside hm h hsound hj he hs hg (sound_step hs hsound)
    | some x =>
      obtain ⟨hj', hb⟩ := joined_step hs hsound hj
      obtain ⟨ntrip2, hsent, hgr⟩ := h.answered.joined x.1 x.2 hj
      refine answering_joined hg (sound_step hs hsound) hj' ⟨ntrip2, ?_, granted_grows hgr hgrows⟩
      rw [hgrows.caster]
      exact hsent.trans hb
  · obtain ⟨hp, hj, hb⟩ := others_step hs ht he
    exact h.others hgrows hp hj hb

end

/-- However a client's bytes arrive, and whatever the other threads and the
publishers do meanwhile: the mount of its first line alone decides what it gets.
It joins the feed of that mount and no other, once the feed is available, and is
sent a sourcetable only if the feed was not when it connected; the table lists
each mount that was available then, and none that is not at last. -/
theorem caster_answers (caster : NtripCaster K) (name : Nat → String) {es es' : List Caster.Event}
    {s₁ s₀ s : Caster K} {incoming : Bytes} {mount : String} (hm : Asks incoming mount)
    (h₁ : Transition.run (Caster.step float) (.init caster name) es = some s₁)
    (hc : s₁.step float (.connects incoming) = some s₀) (h : Transition.run (Caster.step float) s₀ es' = some s) :
    Answered float s₀ s s₁.connections incoming mount := by
  have hsound := sound_run caster name h₁
  obtain ⟨-, hj, hb⟩ := hsound.fresh s₁.connections le_rfl
  have hsound₀ := sound_step hc hsound
  obtain ⟨hp, hj₀, hb₀, hlt₀⟩ : s₀.handlers s₁.connections = .requesting incoming [] ∧
      s₀.joined s₁.connections = none ∧ s₀.sent s₁.connections = [] ∧ s₁.connections < s₀.connections := by
    obtain rfl := Option.some.inj hc
    exact ⟨Function.update_self .., hj, hb, Nat.lt_succ_self _⟩
  have hnot : ∀ q : Handler, s₀.handlers s₁.connections = q → q = .requesting incoming [] := fun q hq => hq ▸ hp
  have hstart : Answering float s₀ s₀ s₁.connections incoming mount := by
    refine ⟨⟨rfl, fun _ ha => ha⟩, fun rest req hx => ?_, fun todo rows hx => ?_, fun ntrip2 feed hx => ?_,
      fun feed hx => ?_, fun feed q hx => ?_, fun _ => .inl hb₀⟩
    · cases hnot _ hx
      rfl
    · cases hnot _ hx
    · cases hnot _ hx
    · cases hnot _ hx
    · rw [hj₀] at hx
      cases hx
  refine (keeps (I := fun s => Sound s ∧ s₁.connections < s.connections ∧
    Answering float _ s s₁.connections incoming mount) (fun s e s' he hI => ?_) h
    ⟨hsound₀, hlt₀, hstart⟩).2.2.answered
  obtain ⟨hs, hlt, ha⟩ := hI
  exact ⟨sound_step he hs, hlt.trans_le (later_of_serves (serves_step he)).connections,
    answering_step hm he hs hlt ha⟩

theorem caster_answers_joins : ∃ s₁ s₀ s,
    Transition.run (Caster.step fun _ => "") (.init oneMount fun _ => "RTCM3") (joins.take 3) = some s₁ ∧
    s₁.step (fun _ => "") (.connects (encode "GET /RTCM3 HTTP/1.0\r\n\r\n")) = some s₀ ∧
    Transition.run (Caster.step fun _ => "") s₀ (joins.drop 4) = some s ∧
    s.joined s₁.connections = some (0, 0) ∧
    Granted s (encode "GET /RTCM3 HTTP/1.0\r\n\r\n") "RTCM3" false 0 := by
  have hm : Asks (encode "GET /RTCM3 HTTP/1.0\r\n\r\n") "RTCM3" :=
    ⟨encode "GET /RTCM3 HTTP/1.0\r\n", ⟨by decide, by decide, by decide⟩, by decide, by decide +kernel⟩
  have h : ((Transition.run (Caster.step fun _ => "") (.init oneMount fun _ => "RTCM3") (joins.take 3)).bind fun s₁ =>
      (s₁.step (fun _ => "") (.connects (encode "GET /RTCM3 HTTP/1.0\r\n\r\n"))).bind fun s₀ =>
        (Transition.run (Caster.step fun _ => "") s₀ (joins.drop 4)).map fun s => s.joined s₁.connections) =
      some (some (0, 0)) := by decide +kernel
  obtain ⟨s₁, h₁, h⟩ := Option.bind_eq_some_iff.mp h
  obtain ⟨s₀, h₀, h⟩ := Option.bind_eq_some_iff.mp h
  obtain ⟨s, hs, hj⟩ := Option.map_eq_some_iff.mp h
  obtain ⟨ntrip2, hsent, hgr⟩ := (caster_answers oneMount (fun _ => "RTCM3") hm h₁ h₀ hs).joined 0 0 hj
  have hv : ntrip2 = false := (hgr.version ⟨List.prefix_rfl, by decide, by decide⟩ (by decide)).trans
    (by decide +kernel)
  exact ⟨s₁, s₀, s, h₁, h₀, hs, hj, hv ▸ hgr⟩

end Rtcm.Proof
