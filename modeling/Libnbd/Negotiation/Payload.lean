import Libnbd.Lib.Parse
import Libnbd.Negotiation.Effect

/-!
Accesses to the payload of an option reply.

`RECV_REPLY` checks the length of a reply before its payload is received, and
`Arrived` keeps what is known about it until `CHECK_REPLY` interprets it.
`payload_accesses_iff` says exactly when every access of that state stays inside
the payload: always, except for a short `NBD_REP_SERVER`.
-/

namespace Libnbd.Negotiation

open Lib

/-- An access outside the received payload or its buffer, a length that wraps
below zero, or an assertion about the length of a reply. -/
def Abort.isPayload : Abort → Bool
  | .payloadOverread | .payloadOverwrite | .lengthUnderflow | .contextLen | .infoLen
  | .infoRbuf => true
  | _ => false

/-! ## What has arrived -/

/-- The payload that has arrived and the lengths that were checked before. -/
structure Arrived (h : Handle) : Prop where
  rlen : h.rlen ≤ h.replylen.toNat
  rbuf : h.rbuf = if h.replylen.toNat ≤ payloadSize then
    some (optionReplySize + (h.replylen.toNat - h.rlen)) else none
  ack : h.reply = repAck → h.replylen.toNat = 0
  info : h.reply = repInfo → 2 ≤ h.replylen.toNat
  context : h.reply = repMetaContext → 4 < h.replylen.toNat ∧ h.replylen.toNat ≤ contextSize

/-- In the states that receive or interpret a payload. -/
structure Received (h : Handle) : Prop where
  arrived : h.state.inPayload = true → Arrived h
  complete : ∀ g, h.state = .optCheckReply g → h.rlen = 0

variable {inp : Input} {h h' : Handle}

theorem Received.of_state (hs : h.state.inPayload = false) : Received h := by
  refine ⟨fun h' => ?_, fun g hg => ?_⟩
  · rw [hs] at h'
    cases h'
  · rw [hg] at hs
    cases hs

theorem replylen_store {p : Nat} (bs : List UInt8) (hp : h.rbuf = some p) (hle : optionReplySize ≤ p) :
    (h.store bs).replylen = h.replylen ∧ (h.store bs).reply = h.reply := by
  simp only [Handle.replylen, Handle.reply, Handle.store, hp]
  have : optionReplySize = 20 := rfl
  exact ⟨Mem.be32_write _ _ (by omega), Mem.be32_write _ _ (by omega)⟩

/-- Receiving more of the payload leaves the header alone. -/
theorem Arrived.store (ha : Arrived h) {bs : List UInt8} (hbs : bs.length ≤ h.rlen) :
    Arrived (h.store bs) := by
  have hlen : (h.store bs).replylen = h.replylen ∧ (h.store bs).reply = h.reply := by
    by_cases hp : h.replylen.toNat ≤ payloadSize
    · have hr := ha.rbuf
      rw [if_pos hp] at hr
      exact replylen_store bs hr (by omega)
    · have hr := ha.rbuf
      rw [if_neg hp] at hr
      simp [Handle.replylen, Handle.reply, Handle.store, hr]
  have hrl := ha.rlen
  refine ⟨?_, ?_, ?_, ?_, ?_⟩
  · rw [hlen.1]
    show h.rlen - bs.length ≤ _
    omega
  · rw [hlen.1]
    show h.rbuf.map (· + bs.length) = _
    rw [ha.rbuf]
    split
    · simp only [Option.map_some, Option.some.injEq]
      show _ = optionReplySize + (_ - (h.rlen - bs.length))
      omega
    · rfl
  · rw [hlen.1, hlen.2]
    exact ha.ack
  · rw [hlen.1, hlen.2]
    exact ha.info
  · rw [hlen.1, hlen.2]
    exact ha.context

/-! ## Every state -/

theorem Effect.inPayload {v v' : View} (he : Effect v v') (hp : v'.state.inPayload = true) :
    v.state.isIncoming = true := by
  have hneutral : ∀ s : State, s.isNeutral = true → s.inPayload = true → v.state.isIncoming = true := by
    intro s hn hp
    simp only [State.isNeutral, Bool.and_eq_true, Bool.not_eq_true'] at hn
    rw [hn.1.2] at hp
    cases hp
  have hkeeps : ∀ s : State, v.state.Keeps s = true → s.inPayload = true → v.state.isIncoming = true := by
    intro s hk hp
    simp only [State.Keeps, Bool.and_eq_true, Bool.or_eq_true, Bool.not_eq_true'] at hk
    exact hk.1.2.resolve_left (by rw [hp]; simp)
  cases he with
  | change s v₁ hc =>
    have hp' : s.inPayload = true := hp
    cases hc with
    | move _ hs => exact hkeeps _ hs hp'
    | described _ _ _ _ hs _ => exact hkeeps _ hs hp'
    | gflags _ _ hs => exact hneutral _ hs hp'
    | structured _ _ hs => exact hneutral _ hs hp'
    | tlsAck _ hs => exact hneutral _ hs hp'
    | reset _ hs => exact hneutral _ hs hp'
    | refused _ hs _ _ => exact hneutral _ hs hp'
    | goFailed _ hs => exact hneutral _ hs hp'
    | skipped _ _ _ hq _ => rw [hq] at hp'; cases hp'
    | acked _ hs _ _ =>
      rcases hs with hs | ⟨rfl, -⟩
      · exact hneutral _ hs hp'
      · cases hp'
    | listing => cases hp'
    | exportName => cases hp'
    | fallback => cases hp'
    | named => cases hp'
    | unasked => cases hp'
    | resetSkipped => cases hp'
    | requested => cases hp'
    | passedOver => cases hp'
    | current => cases hp'
  | complete err s v₁ hc hs => exact hneutral s hs hp
  | list name description hl => cases hp
  | context name s hc hs =>
    have hp' : s.inPayload = true := hp
    rcases hs with rfl | rfl <;> cases hp'
  | kept name id hc ho => cases hp

theorem recvReply_received {g : OptGroup} (hs : h.state = .optRecvReply g) :
    (enterOptRecvReply inp g h).All (fun _ => True) Received Received := by
  refine recvThen_all (fun _ _ => .of_state rfl) (fun _ _ => .of_state ?_) fun bs _ => ?_
  · rw [show (h.store _).state = _ from hs]
    rfl
  · split
    · exact .of_state rfl
    · rename_i h' hp
      obtain ⟨rfl, hack, hinfo, hctx⟩ := prepareForReplyPayload_ok hp
      have hbuf : ∀ n : Nat, (if n ≤ payloadSize then some optionReplySize else none) =
          if n ≤ payloadSize then some (optionReplySize + (n - n)) else none := by simp
      exact ⟨fun _ => ⟨Nat.le_refl _, hbuf _, hack, hinfo, hctx⟩, nofun⟩

theorem recvReplyPayload_received {g : OptGroup} (hr : Received h)
    (hs : h.state = .optRecvReplyPayload g) :
    (enterOptRecvReplyPayload inp g h).All (fun _ => True) Received Received := by
  have ha : Arrived h := hr.arrived (by rw [hs]; rfl)
  refine recvThen_all (fun _ _ => .of_state rfl) (fun bs hbs => ?_) fun bs hbs => ?_
  · refine ⟨fun _ => ha.store hbs, fun g' hg => ?_⟩
    rw [show (h.store bs).state = _ from hs] at hg
    cases hg
  · have hst := ha.store (Nat.le_of_eq hbs)
    refine ⟨fun _ => ⟨hst.rlen, hst.rbuf, hst.ack, hst.info, hst.context⟩, fun _ _ => ?_⟩
    show h.rlen - bs.length = 0
    omega

theorem enter_received (hr : Received h) :
    (enter inp h).All (fun _ => True) Received Received := by
  by_cases hin : h.state.isIncoming = true
  · cases hs : h.state with
    | optRecvReply g =>
      simp only [enter, hs]
      exact recvReply_received hs
    | optRecvReplyPayload g =>
      simp only [enter, hs]
      exact recvReplyPayload_received hr hs
    | _ => simp [hs, State.isIncoming] at hin
  · have hstate : ∀ h', Leads h h' → Received h' := by
      intro h' he
      refine .of_state (eq_false_of_ne_true fun hp => hin ?_)
      exact Effect.inPayload he hp
    exact (enter_effect inp).mono hstate hstate

theorem Received.congr (hr : Received h) (hs : h'.state = h.state) (hb : h'.sbuf = h.sbuf)
    (hrb : h'.rbuf = h.rbuf) (hrl : h'.rlen = h.rlen) : Received h' := by
  have hlen : h'.replylen = h.replylen := by simp only [Handle.replylen, hb]
  have hrep : h'.reply = h.reply := by simp only [Handle.reply, hb]
  refine ⟨fun hp => ?_, fun g hg => ?_⟩
  · have ha := hr.arrived (by rw [← hs]; exact hp)
    exact ⟨by rw [hlen, hrl]; exact ha.rlen, by rw [hlen, hrl, hrb]; exact ha.rbuf,
      by rw [hlen, hrep]; exact ha.ack, by rw [hlen, hrep]; exact ha.info,
      by rw [hlen, hrep]; exact ha.context⟩
  · rw [hrl]
    exact hr.complete g (by rw [← hs]; exact hg)

theorem submit_received (api : Api) (hr : Received h) :
    (submit inp h api).All (fun _ => True) Received Received := by
  have hb := submit_buffers (h := h) inp api
  have he := submit_effect (h := h) inp api
  refine (hb.and he).mono ?_ ?_
  · rintro h' ⟨hb', hs⟩
    rcases hs.state with hn | hs
    · simp only [State.isNeutral, Bool.and_eq_true, Bool.not_eq_true'] at hn
      exact .of_state hn.1.2
    · exact hr.congr hs hb'.sbuf hb'.rbuf hb'.rlen
  · rintro h' ⟨hb', hc⟩
    exact hr.congr hc.state_eq hb'.sbuf hb'.rbuf hb'.rlen

theorem reachable_received {c : Config} (hc : machine.Reachable c) :
    c.Holds (fun _ => True) Received Received :=
  reachable_all (fun _ => .of_state rfl) (fun _ _ hr => enter_received hr)
    (fun inp h api hr => submit_received api
      (h := { h with lastError := inp.lastError }) (hr.congr rfl rfl rfl rfl)) hc

/-! ## Interpreting the payload -/

/-- What `CHECK_REPLY` of any option starts from. -/
theorem Received.payloadSeen {g : OptGroup} (hr : Received h) (hs : h.state = .optCheckReply g) :
    h.payloadSeen = if h.replylen.toNat ≤ payloadSize then h.replylen.toNat else 0 := by
  have ha : Arrived h := hr.arrived (by rw [hs]; rfl)
  unfold Handle.payloadSeen
  rw [ha.rbuf, hr.complete g hs]
  split
  · simp
  · simp

/-- No fault about the payload. -/
abbrev Outcome.Inside (o : Outcome) : Prop :=
  o.All (fun a => a.isPayload = false) (fun _ => True) fun _ => True

theorem goString_inside {which : String} {set : Option CString → Handle}
    (hseen : h.payloadSeen = h.replylen.toNat) : (goString inp which set h).Inside := by
  unfold goString
  refine ite_all.mpr ⟨fun _ => trivial, fun hl => minus_all.mpr ⟨fun _ => fetch_all.mpr ⟨fun _ => ?_,
    fun hp => ?_⟩, fun hp => ?_⟩⟩
  · exact ite_all.mpr ⟨fun _ => trivial, fun _ => trivial⟩
  · omega
  · omega

section Check

variable {g : OptGroup} (hr : Received h) (hs : h.state = .optCheckReply g)

include hr hs

theorem handleReplyError_inside {k : Handle → Outcome} (hk : ∀ e t, (k (h.setError e t)).Inside) :
    (handleReplyError inp h k).Inside := by
  refine handleReplyError_all (fun _ _ => trivial) (fun hle hlt => ?_) fun _ _ e t => hk e t
  have hseen := hr.payloadSeen hs
  have : nbdMaxString ≤ payloadSize := by decide
  rw [if_pos (by omega)] at hseen
  omega

theorem starttls_inside : (enterStarttlsCheckReply inp h).Inside := by
  unfold enterStarttlsCheckReply
  refine ite_all.mpr ⟨fun _ => ite_all.mpr ⟨fun _ => trivial, fun _ => ?_⟩, fun _ => ?_⟩
  · exact ite_all.mpr ⟨fun _ => trivial, fun _ => trivial⟩
  · exact handleReplyError_inside hr hs fun e t => ite_all.mpr ⟨fun _ => trivial, fun _ => trivial⟩

theorem extendedHeaders_inside : (enterExtendedHeadersCheckReply inp h).Inside := by
  unfold enterExtendedHeadersCheckReply
  exact ite_all.mpr ⟨fun _ => trivial, fun _ => handleReplyError_inside hr hs fun e t => trivial⟩

theorem structuredReply_inside : (enterStructuredReplyCheckReply inp h).Inside := by
  unfold enterStructuredReplyCheckReply
  exact ite_all.mpr ⟨fun _ => trivial, fun _ => handleReplyError_inside hr hs fun e t => trivial⟩

theorem listServer_inside (hlen : 4 ≤ h.replylen.toNat) : (listServer inp h).Inside := by
  have hseen := hr.payloadSeen hs
  unfold listServer
  refine ite_all.mpr ⟨fun _ => trivial, fun hlt => ?_⟩
  rw [if_pos (by omega)] at hseen
  have hseen' : ∀ m : Mem, ({ h with sbuf := m } : Handle).payloadSeen = h.replylen.toNat :=
    fun _ => hseen
  refine minus_all.mpr ⟨fun _ => poke_all.mpr ⟨fun _ => ?_, fun hp => ?_⟩, fun hp => ?_⟩
  · refine fetch_all.mpr ⟨fun _ => ?_, fun hp => ?_⟩
    · refine ite_all.mpr ⟨fun _ => trivial, fun he => minus_all.mpr ⟨fun _ => ?_, fun hp => ?_⟩⟩
      · refine ite_all.mpr ⟨fun _ => trivial, fun hd => ite_all.mpr ⟨fun _ => ?_, fun _ => ?_⟩⟩
        · refine fetch_all.mpr ⟨fun _ => trivial, fun hp => ?_⟩
          rw [hseen'] at hp
          omega
        · refine ite_all.mpr ⟨fun _ => trivial, fun _ => fetch_all.mpr ⟨fun _ => ?_, fun hp => ?_⟩⟩
          · refine fetch_all.mpr ⟨fun _ => trivial, fun hp => ?_⟩
            rw [hseen'] at hp
            omega
          · rw [hseen'] at hp
            omega
      · omega
    · rw [hseen'] at hp
      omega
  · omega
  · omega

theorem list_inside (hlen : h.reply = repServer → 4 ≤ h.replylen.toNat) :
    (enterListCheckReply inp h).Inside := by
  unfold enterListCheckReply
  refine ite_all.mpr ⟨fun he => listServer_inside hr hs (hlen he), fun _ => ?_⟩
  exact ite_all.mpr ⟨fun _ => trivial, fun _ => handleReplyError_inside hr hs fun e t => trivial⟩

theorem metaContext_inside : (enterMetaContextCheckReply inp h).Inside := by
  have ha : Arrived h := hr.arrived (by rw [hs]; rfl)
  unfold enterMetaContextCheckReply
  dsimp only
  refine ite_all.mpr ⟨fun _ => ite_all.mpr ⟨fun _ => trivial, fun _ => trivial⟩, fun _ =>
    ite_all.mpr ⟨fun he => ?_, fun _ => ?_⟩⟩
  · obtain ⟨hlo, hhi⟩ := ha.context he
    have hsize : contextSize ≤ payloadSize := by decide
    have hseen := hr.payloadSeen hs
    rw [if_pos (by omega)] at hseen
    unfold metaContextReply
    refine ite_all.mpr ⟨fun _ => trivial, fun _ => require_all.mpr ⟨fun _ => ?_, fun h' => ?_⟩⟩
    · refine fetch_all.mpr ⟨fun _ => minus_all.mpr ⟨fun _ => fetch_all.mpr ⟨fun _ => ?_,
        fun hp => ?_⟩, fun hp => ?_⟩, fun hp => ?_⟩
      · refine ite_all.mpr ⟨fun _ => trivial, fun _ => ite_all.mpr ⟨fun _ => trivial, fun _ => ?_⟩⟩
        exact ite_all.mpr ⟨fun _ => trivial, fun _ => trivial⟩
      · omega
      · omega
      · omega
    · simp only [decide_eq_false_iff_not] at h'
      omega
  · exact handleReplyError_inside hr hs fun e t => ite_all.mpr ⟨fun _ => trivial, fun _ => trivial⟩

theorem goInfo_inside (hi : h.reply = repInfo) : (goInfo inp h).Inside := by
  have ha : Arrived h := hr.arrived (by rw [hs]; rfl)
  have hlen := ha.info hi
  have hseen := hr.payloadSeen hs
  unfold goInfo
  refine ite_all.mpr ⟨fun hbig => require_all.mpr ⟨fun _ => trivial, fun h' => ?_⟩, fun hsmall => ?_⟩
  · have hbuf := ha.rbuf
    rw [if_neg (by omega)] at hbuf
    simp [hbuf] at h'
  · rw [if_pos (by omega)] at hseen
    refine require_all.mpr ⟨fun _ => fetch_all.mpr ⟨fun _ => ?_, fun hp => ?_⟩, fun h' => ?_⟩
    · refine ite_all.mpr ⟨fun _ => ?_, fun _ => ite_all.mpr ⟨fun _ => ?_, fun _ => ite_all.mpr ⟨fun _ => ?_,
        fun _ => ite_all.mpr ⟨fun _ => ?_, fun _ => trivial⟩⟩⟩⟩
      · refine ite_all.mpr ⟨fun _ => trivial, fun h12 => fetch_all.mpr ⟨fun _ => fetch_all.mpr
          ⟨fun _ => ?_, fun hp => ?_⟩, fun hp => ?_⟩⟩
        · exact setSizeAndFlags_all (fun _ _ => trivial) (fun _ _ => rfl) fun _ _ => trivial
        · omega
        · omega
      · refine ite_all.mpr ⟨fun _ => trivial, fun h14 => fetch_all.mpr ⟨fun _ => fetch_all.mpr
          ⟨fun _ => fetch_all.mpr ⟨fun _ => trivial, fun hp => ?_⟩, fun hp => ?_⟩, fun hp => ?_⟩⟩
        · omega
        · omega
        · omega
      · exact goString_inside hseen
      · exact goString_inside hseen
    · omega
    · simp only [decide_eq_false_iff_not] at h'
      omega

theorem go_inside : (enterGoCheckReply inp h).Inside := by
  unfold enterGoCheckReply
  refine ite_all.mpr ⟨fun he => goInfo_inside hr hs he, fun _ => ite_all.mpr ⟨fun _ => trivial, fun _ =>
    ite_all.mpr ⟨fun _ => trivial, fun _ => handleReplyError_inside hr hs fun e t => ?_⟩⟩⟩
  exact require_all.mpr ⟨fun _ => trivial, fun _ => rfl⟩

theorem checkReply_inside
    (hlist : ¬ (g = .list ∧ h.reply = repServer ∧ h.replylen.toNat < 4)) :
    (enterOptCheckReply inp g h).Inside := by
  cases g with
  | starttls => exact starttls_inside hr hs
  | extendedHeaders => exact extendedHeaders_inside hr hs
  | structuredReply => exact structuredReply_inside hr hs
  | list =>
    refine list_inside hr hs fun he => ?_
    by_contra hlt
    exact hlist ⟨rfl, he, by omega⟩
  | metaContext => exact metaContext_inside hr hs
  | go => exact go_inside hr hs

end Check

/-! ## The contexts of a reply -/

theorem strndup_append {name rest : List UInt8} (hname : 0 ∉ name)
    (hrest : ∀ b, rest.head? = some b → b = 0) : strndup (name ++ rest) = name := by
  have hall : ∀ b ∈ name, decide (b ≠ 0) = true := by
    intro b hb
    exact decide_eq_true fun h0 => hname (h0 ▸ hb)
  rw [strndup, List.takeWhile_append_of_pos hall]
  cases rest with
  | nil => rw [List.takeWhile_nil, List.append_nil]
  | cons b rest =>
    obtain rfl := hrest b rfl
    rw [List.takeWhile_cons_of_neg (by decide), List.append_nil]

/-- A context is kept as the server has sent it: the identifier in four bytes, and the name up to
the first NUL. -/
theorem metaContextReply_keeps (hr : Received h) (hs : h.state = .optCheckReply .metaContext)
    (hc : h.reply = repMetaContext) {id : UInt32} {name rest : List UInt8}
    (hpay : h.sbuf.read optionReplySize h.replylen.toNat = toBE 4 id.toNat ++ (name ++ rest))
    (hname : 0 ∉ name) (hrest : ∀ b, rest.head? = some b → b = 0)
    (halloc : inp.alloc 0 = true ∧ inp.alloc 1 = true) :
    ∃ h', metaContextReply inp .setMetaContext h = goto .metaPrepareForReply h' ∧
      h'.exp.metaContexts = h.exp.metaContexts ++ [(name, id)] ∧
      h'.trace = h.trace ++ (if h.optCb.fn.callback then [Event.context h.optCb.id name] else []) ++
        [Event.metaContext name id] := by
  have ha : Arrived h := hr.arrived (by rw [hs]; rfl)
  obtain ⟨hlo, hhi⟩ := ha.context hc
  have hsize : contextSize ≤ payloadSize := by decide
  have hseen := hr.payloadSeen hs
  rw [if_pos (by omega)] at hseen
  have hsplit : h.sbuf.read optionReplySize 4 = toBE 4 id.toNat ∧
      h.sbuf.read (optionReplySize + 4) (h.replylen.toNat - 4) = name ++ rest := by
    rw [show h.replylen.toNat = 4 + (h.replylen.toNat - 4) by omega, Mem.read_add] at hpay
    refine List.append_inj hpay ?_
    rw [Mem.length_read, length_toBE]
  have hid : UInt32.ofNat (beNat (toBE 4 id.toNat)) = id := by
    rw [beNat_toBE (by exact id.toNat_lt), UInt32.ofNat_toNat]
  let callback := if h.optCb.fn.callback then [Event.context h.optCb.id name] else []
  refine ⟨{ h.log callback with exp := { h.exp with
    metaContexts := h.exp.metaContexts ++ [(name, id)] } }.log [.metaContext name id], ?_, rfl, rfl⟩
  unfold metaContextReply
  simp only [require, fetch, minus, hseen, halloc.1, halloc.2]
  rw [if_neg (by omega), if_pos (by simpa using hlo), if_pos (by omega), if_pos (by omega), if_pos (by omega)]
  simp only [Nat.add_zero, hsplit.1, hsplit.2, hid, strndup_append hname hrest]
  rfl

theorem listServer_short (hlen : h.replylen.toNat < 4) :
    listServer inp h = .abort .lengthUnderflow := by
  have hbig : ¬ h.replylen.toNat ≥ payloadSize := by
    have : 4 ≤ payloadSize := by decide
    omega
  unfold listServer
  rw [if_neg hbig]
  simp only [minus]
  rw [if_neg (by omega)]

/-- The state that interprets an option reply stays inside the payload it has
received, unless the reply is an `NBD_REP_SERVER` that is shorter than the length
field at its start. -/
theorem payload_accesses_iff {c : Config} {g : OptGroup} {keep : Bool} (hc : machine.Reachable c)
    (hrun : c.ctl = .running keep) (hs : c.h.state = .optCheckReply g) (inp : Input) :
    (∀ a, enter inp c.h = .abort a → a.isPayload = false) ↔
      ¬ (g = .list ∧ c.h.reply = repServer ∧ c.h.replylen.toNat < 4) := by
  have hr : Received c.h := by
    have := reachable_received hc
    simpa only [Config.Holds, hrun] using this
  have henter : enter inp c.h = enterOptCheckReply inp g c.h := by
    simp only [enter, hs]
  constructor
  · rintro hall ⟨rfl, hrep, hlen⟩
    have hab : enter inp c.h = .abort .lengthUnderflow := by
      rw [henter]
      simp only [enterOptCheckReply, enterListCheckReply]
      rw [if_pos hrep]
      exact listServer_short hlen
    exact absurd (hall _ hab) nofun
  · intro hn a ha
    have hin : (enterOptCheckReply inp g c.h).Inside := checkReply_inside hr hs hn
    rw [← henter, ha] at hin
    exact hin

/-- Ask for the exports and get one reply. -/
def listReply (reply : UInt32) (payload : List UInt8) : List Label :=
  Label.call (.aioOptList ⟨true, true⟩ ⟨true, true⟩) .calm :: List.replicate 3 (.enter .calm) ++
  (exchange .list reply payload).take 2

theorem payload_accesses_one_export :
    ∃ c, machine.exec .created (connectOptMode ++ listReply repServer [0, 0, 0, 1, 97]) = some c ∧
      c.h.replylen = 5 ∧ ∀ a, enter .calm c.h = .abort a → a.isPayload = false := by
  have hrun : (machine.exec .created (connectOptMode ++ listReply repServer [0, 0, 0, 1, 97])).map
      (fun c => (c.ctl, c.h.state, c.h.replylen)) =
      some (.running false, .optCheckReply .list, 5) := by decide +kernel
  obtain ⟨c, hc, hp⟩ := Option.map_eq_some_iff.mp hrun
  simp only [Prod.mk.injEq] at hp
  obtain ⟨hctl, hs, hlen⟩ := hp
  refine ⟨c, hc, hlen, ?_⟩
  refine (payload_accesses_iff ⟨_, _, Config.initial_created, hc⟩ hctl hs .calm).mpr ?_
  rintro ⟨-, -, hlt⟩
  rw [hlen] at hlt
  exact absurd hlt (by decide)

/-- An empty `NBD_REP_SERVER`: the terminating NUL is stored before the payload. -/
theorem empty_server_reply_underflows :
    ¬ ∀ c g keep inp, machine.Reachable c → c.ctl = .running keep →
      c.h.state = .optCheckReply g → ∀ a, enter inp c.h = .abort a → a.isPayload = false := by
  intro hall
  have hrun : (machine.exec .created (connectOptMode ++ listReply repServer [])).map
      (fun c => (c.ctl, c.h.state, c.h.reply, c.h.replylen)) =
      some (.running false, .optCheckReply .list, repServer, 0) := by decide +kernel
  obtain ⟨c, hc, hp⟩ := Option.map_eq_some_iff.mp hrun
  simp only [Prod.mk.injEq] at hp
  obtain ⟨hctl, hs, hrep, hlen⟩ := hp
  have hab : enter .calm c.h = .abort .lengthUnderflow := by
    simp only [enter, hs, enterOptCheckReply, enterListCheckReply]
    rw [if_pos hrep]
    exact listServer_short (by rw [hlen]; decide)
  exact absurd (hall c .list false .calm ⟨_, _, Config.initial_created, hc⟩ hctl hs _ hab) nofun

end Libnbd.Negotiation
