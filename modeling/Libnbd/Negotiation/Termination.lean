import Libnbd.Lib.Ranking
import Libnbd.Negotiation.Resting

/-!
The run loop returns before the transmission phase.

`State.rank` is the number of rounds that are left at most when the server
leaves it at one reply to each option: it orders the states of the handshake,
with a round for each metadata context query and each address that remains.
Three things lead back: a reply that announces another one, a call of
`gnutls_handshake` that would block, and a name that resolves to many addresses.
`extraRounds` counts them, and `call_returns` bounds the run loop by both.
-/

namespace Libnbd.Negotiation

open Lib

/-- What the rounds that are left depend on, beside the state. -/
structure Weights where
  /-- `h->querylist.len` -/
  listed : Nat
  /-- `h->querynum` -/
  asked : Nat
  /-- `h->request_meta_contexts.len` -/
  requested : Nat
  addrs : Nat

namespace Weights

/-- The rounds for the queries of an exchange that has not begun. -/
def queries (w : Weights) : Nat := 3 * max w.listed w.requested

end Weights

def Handle.weights (h : Handle) : Weights where
  listed := h.querylist.length
  asked := h.querynum
  requested := h.cfg.requestMetaContexts.length
  addrs := h.addrs

/-- The rounds that are left. -/
@[simp] def State.rank (w : Weights) : State → Nat
  | start | negotiating | ready | dead | closed => 0
  | newstyleFinished => 1
  | oldstyleCheck => 1
  | oldstyleRecvRemaining => 2
  | oldstyleStart => 3
  | newstyleSendOptionShutdown => 1
  | newstyleSendOptAbort => 2
  | newstylePrepareOptAbort => 3
  | exportNameCheckReply => 4
  | exportNameRecvReply => 5
  | exportNameSendExport => 6
  | exportNameSend => 7
  | exportNameStart => 8
  | optCheckReply .list => 2
  | optRecvReplyPayload .list => 3
  | optRecvReply .list => 4
  | optSend .list => 5
  | optStart .list => 6
  | optCheckReply .go => 9
  | optRecvReplyPayload .go => 10
  | optRecvReply .go => 11
  | goSendInfo => 12
  | goSendNrinfos => 13
  | goSendExport => 14
  | goSendExportnamelen => 15
  | optSend .go => 16
  | optStart .go => 17
  | optCheckReply .metaContext => 18
  | optRecvReplyPayload .metaContext => 19
  | optRecvReply .metaContext => 20
  | metaPrepareForReply => 21
  | metaPrepareNextQuery => 22 + 3 * (w.listed - w.asked)
  | metaSendQuery => 23 + 3 * (w.listed - (w.asked + 1))
  | metaSendQuerylen => 24 + 3 * (w.listed - (w.asked + 1))
  | metaSendNrqueries => 23 + 3 * w.listed
  | metaSendExportname => 24 + 3 * w.listed
  | metaSendExportnamelen => 25 + 3 * w.listed
  | optSend .metaContext => 26 + 3 * w.listed
  | optStart .metaContext => 27 + w.queries
  | optCheckReply .structuredReply => 28 + w.queries
  | optRecvReplyPayload .structuredReply => 29 + w.queries
  | optRecvReply .structuredReply => 30 + w.queries
  | optSend .structuredReply => 31 + w.queries
  | optStart .structuredReply => 32 + w.queries
  | optCheckReply .extendedHeaders => 33 + w.queries
  | optRecvReplyPayload .extendedHeaders => 34 + w.queries
  | optRecvReply .extendedHeaders => 35 + w.queries
  | optSend .extendedHeaders => 36 + w.queries
  | optStart .extendedHeaders => 37 + w.queries
  | tlsHandshakeDone => 38 + w.queries
  | tlsHandshakeRead | tlsHandshakeWrite => 39 + w.queries
  | optCheckReply .starttls => 40 + w.queries
  | optRecvReplyPayload .starttls => 41 + w.queries
  | optRecvReply .starttls => 42 + w.queries
  | optSend .starttls => 43 + w.queries
  | optStart .starttls => 44 + w.queries
  | newstyleSendCflags => 45 + w.queries
  | newstyleCheckGflags => 46 + w.queries
  | newstyleRecvGflags => 47 + w.queries
  | newstyleStart => 48 + w.queries
  | magicCheckMagic => 49 + w.queries
  | magicRecvMagic => 50 + w.queries
  | magicStart => 51 + w.queries
  | connectConnecting => 52 + w.queries
  | connectStart => 53 + w.queries
  | connectSaStart | connectCommandStart | connectTcpStart => 54 + w.queries
  | connectTcpConnect => 56 + 4 * w.addrs + w.queries
  | connectTcpNextAddress => 57 + 4 * (w.addrs - 1) + w.queries
  | connectTcpConnecting => 58 + 4 * (w.addrs - 1) + w.queries

def Handle.rank (h : Handle) : Nat := h.state.rank h.weights

theorem State.rank_le (s : State) (w : Weights) : s.rank w ≤ 58 + 4 * w.addrs + w.queries := by
  have hq : 3 * w.listed ≤ w.queries := by
    unfold Weights.queries
    omega
  cases s with
  | optStart g => cases g <;> simp only [State.rank] <;> omega
  | optSend g => cases g <;> simp only [State.rank] <;> omega
  | optRecvReply g => cases g <;> simp only [State.rank] <;> omega
  | optRecvReplyPayload g => cases g <;> simp only [State.rank] <;> omega
  | optCheckReply g => cases g <;> simp only [State.rank] <;> omega
  | _ => simp only [State.rank]; omega

/-- Where the run loop goes on, less than `n` rounds are left. -/
def Outcome.Lowers (n : Nat) : Outcome → Prop
  | .next h => h.rank < n
  | .block _ | .fail _ | .abort _ => True

variable {inp : Input} {h : Handle} {w : Weights} {n : Nat}

/-! ## Rules -/

theorem goto_lowers {s : State} (hw : h.weights = w) (hr : s.rank w < n) :
    (goto s h).Lowers n := by
  subst hw
  exact hr

theorem die_lowers {e : UInt32} {t : String} (hn : 0 < n) : (die e t h).Lowers n :=
  goto_lowers (w := h.weights) rfl hn

theorem require_lowers {p : Bool} {a : Abort} {k : Outcome} (hk : k.Lowers n) :
    (require p a k).Lowers n := by
  unfold require
  split
  · exact hk
  · trivial

theorem ite_lowers {p : Prop} [Decidable p] {a b : Outcome} (ha : p → a.Lowers n)
    (hb : ¬ p → b.Lowers n) : (if p then a else b).Lowers n := by
  split
  · exact ha ‹_›
  · exact hb ‹_›

theorem fetch_lowers {pos m : Nat} {k : List UInt8 → Outcome} (hk : ∀ bs, (k bs).Lowers n) :
    (fetch h pos m k).Lowers n := ite_lowers (fun _ => hk _) fun _ => trivial

theorem poke_lowers {pos : Nat} {b : UInt8} {k : Handle → Outcome}
    (hk : ∀ h', h'.weights = h.weights → (k h').Lowers n) : (poke h pos b k).Lowers n :=
  ite_lowers (fun _ => hk _ rfl) fun _ => trivial

theorem minus_lowers {a b : Nat} {k : Nat → Outcome} (hk : ∀ m, (k m).Lowers n) :
    (minus a b k).Lowers n := ite_lowers (fun _ => hk _) fun _ => trivial

theorem recvThen_lowers {done : Handle → Outcome} (hn : 0 < n)
    (hdone : ∀ h', h'.weights = h.weights → (done h').Lowers n) :
    (recvThen inp done h).Lowers n := by
  unfold recvThen
  split
  · exact hdone _ rfl
  · split
    · trivial
    · exact die_lowers hn
    · exact ite_lowers (fun _ => die_lowers hn) fun _ =>
        ite_lowers (fun _ => hdone _ rfl) fun _ => trivial

theorem sendThen_lowers {done : Handle → Outcome} (hn : 0 < n)
    (hdone : ∀ h', h'.weights = h.weights → (done h').Lowers n) :
    (sendThen inp done h).Lowers n := by
  unfold sendThen
  split
  · exact hdone _ rfl
  · split
    · trivial
    · exact die_lowers hn
    · exact ite_lowers (fun _ => hdone _ rfl) fun _ => trivial

theorem handleReplyError_lowers {k : Handle → Outcome} (hn : 0 < n)
    (hk : ∀ h', h'.weights = h.weights → (k h').Lowers n) : (handleReplyError inp h k).Lowers n :=
  ite_lowers (fun _ => die_lowers hn) fun _ => ite_lowers (fun _ => die_lowers hn) fun _ =>
    ite_lowers (fun _ => die_lowers hn) fun _ => ite_lowers (fun _ => hk _ rfl) fun _ =>
      fetch_lowers fun _ => hk _ rfl

theorem setSizeAndFlags_lowers {exportsize : UInt64} {eflags : UInt16} {k : Handle → Outcome}
    (hn : 0 < n) (hk : ∀ h', h'.weights = h.weights → (k h').Lowers n) :
    (setSizeAndFlags h exportsize eflags k).Lowers n :=
  ite_lowers (fun _ => die_lowers hn) fun _ =>
    ite_lowers (fun _ => require_lowers (hk _ rfl)) fun _ => hk _ rfl

/-- Wait for another reply. -/
theorem awaitReply_lowers {g : OptGroup} (hw : h.weights = w)
    (hr : (State.optRecvReply g).rank w < n) : (awaitReply g h).Lowers n := goto_lowers hw hr

/-! ## Connecting and the handshake -/

theorem enterConnectStart_lowers :
    (enterConnectStart inp h).Lowers (State.connectStart.rank h.weights) := by
  have hn : 0 < State.connectStart.rank h.weights := by simp only [State.rank]; omega
  exact require_lowers <| ite_lowers (fun _ => die_lowers hn) fun _ =>
    ite_lowers (fun _ => die_lowers hn) fun _ => ite_lowers (fun _ => trivial) fun _ => die_lowers hn

theorem enterConnectConnecting_lowers :
    (enterConnectConnecting inp h).Lowers (State.connectConnecting.rank h.weights) := by
  have hn : 0 < State.connectConnecting.rank h.weights := by simp only [State.rank]; omega
  unfold enterConnectConnecting
  split
  · exact die_lowers hn
  · exact ite_lowers (fun _ => goto_lowers (w := h.weights) rfl (by simp only [State.rank]; omega))
      fun _ => die_lowers hn

theorem enterConnectTcpConnect_lowers :
    (enterConnectTcpConnect inp h).Lowers (State.connectTcpConnect.rank h.weights) := by
  have hnext : h.addrs ≠ 0 →
      State.connectTcpNextAddress.rank h.weights < State.connectTcpConnect.rank h.weights := by
    intro ha
    simp only [State.rank, Handle.weights]
    omega
  refine require_lowers <| ite_lowers (fun _ => trivial) fun ha =>
    ite_lowers (fun _ => goto_lowers (w := h.weights) rfl (hnext ha)) fun _ =>
      ite_lowers (fun _ => die_lowers (by simp only [State.rank]; omega)) fun _ =>
        ite_lowers (fun _ => goto_lowers (w := h.weights) rfl ?_)
          fun _ => goto_lowers (w := h.weights) rfl (hnext ha)
  simp only [State.rank, Handle.weights]
  omega

theorem enterConnectTcpConnecting_lowers :
    (enterConnectTcpConnecting inp h).Lowers (State.connectTcpConnecting.rank h.weights) := by
  unfold enterConnectTcpConnecting
  split
  · exact die_lowers (by simp only [State.rank]; omega)
  · exact ite_lowers (fun _ => goto_lowers (w := h.weights) rfl (by simp only [State.rank]; omega))
      fun _ => goto_lowers (w := h.weights) rfl (by simp only [State.rank]; omega)

theorem enterConnectTcpNextAddress_lowers :
    (enterConnectTcpNextAddress h).Lowers (State.connectTcpNextAddress.rank h.weights) := by
  refine goto_lowers (w := { h.weights with addrs := h.addrs - 1 }) rfl ?_
  simp only [State.rank, Handle.weights, Weights.queries]
  omega

theorem enterConnectCommandStart_lowers :
    (enterConnectCommandStart inp h).Lowers (State.connectCommandStart.rank h.weights) :=
  require_lowers <| ite_lowers
    (fun _ => goto_lowers (w := h.weights) rfl (by simp only [State.rank]; omega))
    fun _ => die_lowers (by simp only [State.rank]; omega)

theorem enterConnectSaStart_lowers :
    (enterConnectSaStart inp h).Lowers (State.connectSaStart.rank h.weights) :=
  require_lowers <| ite_lowers
    (fun _ => goto_lowers (w := h.weights) rfl (by simp only [State.rank]; omega))
    fun _ => die_lowers (by simp only [State.rank]; omega)

theorem enterMagicCheckMagic_lowers :
    (enterMagicCheckMagic h).Lowers (State.magicCheckMagic.rank h.weights) := by
  have hn : 0 < State.magicCheckMagic.rank h.weights := by simp only [State.rank]; omega
  exact ite_lowers (fun _ => die_lowers hn) fun _ =>
    ite_lowers (fun _ => require_lowers <|
      goto_lowers (w := h.weights) rfl (by simp only [State.rank]; omega)) fun _ =>
        ite_lowers (fun _ => goto_lowers (w := h.weights) rfl (by simp only [State.rank]; omega))
        fun _ => die_lowers hn

theorem enterOldstyleCheck_lowers :
    (enterOldstyleCheck h).Lowers (State.oldstyleCheck.rank h.weights) := by
  have hn : 0 < State.oldstyleCheck.rank h.weights := by simp only [State.rank]; omega
  exact ite_lowers (fun _ => die_lowers hn) fun _ => ite_lowers (fun _ => die_lowers hn) fun _ =>
    setSizeAndFlags_lowers hn fun h' hw => goto_lowers hw hn

theorem newstyleGflags_lowers :
    (newstyleGflags h).Lowers (State.newstyleStart.rank h.weights) :=
  require_lowers <| goto_lowers (w := h.weights) rfl (by simp only [State.rank]; omega)

theorem enterNewstyleStart_lowers :
    (enterNewstyleStart h).Lowers (State.newstyleStart.rank h.weights) := by
  have hgoto : ∀ s : State, s.rank h.weights < State.newstyleStart.rank h.weights →
      (goto s h).Lowers (State.newstyleStart.rank h.weights) := fun s hs =>
    goto_lowers (w := h.weights) rfl hs
  refine ite_lowers (fun _ => ?_) fun _ => newstyleGflags_lowers
  cases h.optCurrent with
  | none => exact newstyleGflags_lowers
  | some o =>
    cases o with
    | go | info =>
      exact ite_lowers (fun _ => hgoto _ (by simp only [State.rank]; omega))
        fun _ => hgoto _ (by simp only [State.rank]; omega)
    | abort =>
      exact ite_lowers (fun _ => hgoto _ (by simp only [State.rank]; omega))
        fun _ => die_lowers (by simp only [State.rank]; omega)
    | exportName => trivial
    | _ => exact hgoto _ (by simp only [State.rank]; omega)

theorem enterNewstyleCheckGflags_lowers :
    (enterNewstyleCheckGflags h).Lowers (State.newstyleCheckGflags.rank h.weights) :=
  ite_lowers (fun _ => die_lowers (by simp only [State.rank]; omega))
    fun _ => goto_lowers (w := h.weights) rfl (by simp only [State.rank]; omega)

theorem enterNewstyleSendCflags_lowers :
    (enterNewstyleSendCflags inp h).Lowers (State.newstyleSendCflags.rank h.weights) :=
  sendThen_lowers (by simp only [State.rank]; omega) fun _ hw =>
    ite_lowers (fun _ => goto_lowers hw (by simp only [State.rank]; omega)) fun _ =>
      ite_lowers (fun _ => goto_lowers hw (by simp only [State.rank]; omega))
        fun _ => goto_lowers hw (by simp only [State.rank]; omega)

theorem enterNewstyleSendOptionShutdown_lowers :
    (enterNewstyleSendOptionShutdown inp h).Lowers
      (State.newstyleSendOptionShutdown.rank h.weights) := by
  refine ite_lowers (fun _ => goto_lowers (w := h.weights) rfl ?_) fun _ => trivial
  split <;> exact Nat.one_pos

/-! ## Options -/

theorem enterOptSend_lowers {g : OptGroup} (hg : g ≠ .metaContext ∧ g ≠ .go) :
    (enterOptSend inp g h).Lowers ((State.optSend g).rank h.weights) := by
  have hlt : (State.optRecvReply g).rank h.weights < (State.optSend g).rank h.weights := by
    cases g <;> simp_all [State.rank]
  exact sendThen_lowers (by omega) fun _ hw => awaitReply_lowers hw hlt

theorem enterOptRecvReply_lowers {g : OptGroup} :
    (enterOptRecvReply inp g h).Lowers ((State.optRecvReply g).rank h.weights) := by
  have hlt : (State.optRecvReplyPayload g).rank h.weights < (State.optRecvReply g).rank h.weights := by
    cases g <;> simp only [State.rank] <;> omega
  refine recvThen_lowers (by omega) fun h' hw => ?_
  split
  · exact die_lowers (by omega)
  next h'' hp =>
    have hw'' : h''.weights = h'.weights := by
      unfold prepareForReplyPayload at hp
      dsimp only at hp
      split at hp
      · cases hp
      split at hp
      · cases hp
      split at hp
      · cases hp
      split at hp
      · cases hp
      split at hp
      · cases hp
      cases hp
      rfl
    exact goto_lowers (hw''.trans hw) hlt

theorem enterOptRecvReplyPayload_lowers {g : OptGroup} :
    (enterOptRecvReplyPayload inp g h).Lowers ((State.optRecvReplyPayload g).rank h.weights) := by
  have hlt : (State.optCheckReply g).rank h.weights < (State.optRecvReplyPayload g).rank h.weights := by
    cases g <;> simp only [State.rank] <;> omega
  exact recvThen_lowers (by omega) fun _ hw => goto_lowers hw hlt

theorem enterStarttlsStart_lowers :
    (enterStarttlsStart h).Lowers ((State.optStart .starttls).rank h.weights) :=
  require_lowers <| ite_lowers
    (fun _ => require_lowers <| goto_lowers (w := h.weights) rfl (by simp only [State.rank]; omega))
    fun _ =>
      ite_lowers (fun _ => goto_lowers (w := h.weights) rfl (by simp only [State.rank]; omega)) fun _ =>
        require_lowers <| goto_lowers (w := h.weights) rfl (by simp only [State.rank]; omega)

/-- The state of a completed option or the next option. -/
theorem goto_ite_lowers {p : Prop} [Decidable p] {s s' : State} (hw : h.weights = w)
    (hs : s.rank w < n) (hs' : s'.rank w < n) : (goto (if p then s else s') h).Lowers n := by
  split
  · exact goto_lowers hw hs
  · exact goto_lowers hw hs'

theorem handshakeState_rank : (handshakeState inp).rank w = 39 + w.queries := by
  unfold handshakeState
  split <;> rfl

theorem enterStarttlsCheckReply_lowers :
    (enterStarttlsCheckReply inp h).Lowers ((State.optCheckReply .starttls).rank h.weights) := by
  have hn : 0 < (State.optCheckReply .starttls).rank h.weights := by simp only [State.rank]; omega
  refine ite_lowers (fun _ => ite_lowers (fun _ => die_lowers hn) fun _ =>
    ite_lowers (fun _ => goto_lowers (w := h.weights) rfl ?_) fun _ => die_lowers hn) fun _ =>
      handleReplyError_lowers hn fun h' hw =>
        ite_lowers (fun _ => goto_lowers hw (by simp only [State.rank]; omega)) fun _ =>
          goto_ite_lowers hw (by simp only [State.rank]; omega) (by simp only [State.rank]; omega)
  rw [handshakeState_rank]
  simp only [State.rank]
  omega

theorem enterTlsHandshake_lowers :
    (enterTlsHandshake inp h).Lowers
      (39 + h.weights.queries + if inp.handshake = .again then 1 else 0) := by
  unfold enterTlsHandshake
  cases ha : inp.handshake with
  | error => exact die_lowers (by omega)
  | done =>
    exact goto_lowers (w := h.weights) (s := .tlsHandshakeDone) rfl (by simp only [State.rank]; omega)
  | again =>
    refine goto_lowers (w := h.weights) rfl ?_
    rw [handshakeState_rank, if_pos rfl]
    omega

theorem enterTlsHandshakeDone_lowers :
    (enterTlsHandshakeDone h).Lowers (State.tlsHandshakeDone.rank h.weights) :=
  goto_ite_lowers (w := h.weights) rfl (by simp only [State.rank]; omega)
    (by simp only [State.rank]; omega)

theorem enterExtendedHeadersStart_lowers :
    (enterExtendedHeadersStart h).Lowers ((State.optStart .extendedHeaders).rank h.weights) :=
  require_lowers <| ite_lowers
    (fun _ => require_lowers <| goto_lowers (w := h.weights) rfl (by simp only [State.rank]; omega))
    fun _ =>
      require_lowers <| ite_lowers
        (fun _ => goto_lowers (w := h.weights) rfl (by simp only [State.rank]; omega))
        fun _ => goto_lowers (w := h.weights) rfl (by simp only [State.rank]; omega)

theorem enterExtendedHeadersCheckReply_lowers :
    (enterExtendedHeadersCheckReply inp h).Lowers
      ((State.optCheckReply .extendedHeaders).rank h.weights) := by
  have hneg : State.negotiating.rank h.weights <
      (State.optCheckReply .extendedHeaders).rank h.weights := by simp only [State.rank]; omega
  have hnext : (State.optStart .structuredReply).rank h.weights <
      (State.optCheckReply .extendedHeaders).rank h.weights := by simp only [State.rank]; omega
  exact ite_lowers (fun _ => goto_ite_lowers (w := h.weights) rfl hneg hnext) fun _ =>
    handleReplyError_lowers (by omega) fun h' hw => goto_ite_lowers hw hneg hnext

theorem afterStructuredReply_lowers {h₀ : Handle} (hw : h.weights = w) (hn : 27 + w.queries < n) :
    (goto (afterStructuredReply h₀) h).Lowers n :=
  goto_ite_lowers hw (by simp only [State.rank]; omega) (by simp only [State.rank]; omega)

theorem enterStructuredReplyStart_lowers :
    (enterStructuredReplyStart h).Lowers ((State.optStart .structuredReply).rank h.weights) :=
  require_lowers <| ite_lowers
    (fun _ => require_lowers <| goto_lowers (w := h.weights) rfl (by simp only [State.rank]; omega))
    fun _ =>
      require_lowers <| ite_lowers
        (fun _ => afterStructuredReply_lowers rfl (by simp only [State.rank]; omega))
        fun _ => goto_lowers (w := h.weights) rfl (by simp only [State.rank]; omega)

theorem enterStructuredReplyCheckReply_lowers :
    (enterStructuredReplyCheckReply inp h).Lowers
      ((State.optCheckReply .structuredReply).rank h.weights) := by
  have hn : 27 + h.weights.queries < (State.optCheckReply .structuredReply).rank h.weights := by
    simp only [State.rank]
    omega
  exact ite_lowers (fun _ => afterStructuredReply_lowers (w := h.weights) rfl hn) fun _ =>
    handleReplyError_lowers (by omega) fun h' hw => afterStructuredReply_lowers hw hn

/-- A reply that announces another one adds four rounds. -/
theorem listServer_lowers (hn : 4 < n) : (listServer inp h).Lowers n := by
  have hwait : ∀ h' : Handle, (awaitReply .list h').Lowers n := fun h' => awaitReply_lowers rfl hn
  unfold listServer
  refine ite_lowers (fun _ => hwait _) fun _ => minus_lowers fun rest => poke_lowers fun h' _ =>
    fetch_lowers fun bs => ite_lowers (fun _ => die_lowers (by omega)) fun _ =>
      minus_lowers fun dlen => ite_lowers (fun _ => die_lowers (by omega)) fun _ =>
        ite_lowers (fun _ => fetch_lowers fun _ => hwait _) fun _ =>
          ite_lowers (fun _ => die_lowers (by omega)) fun _ =>
            fetch_lowers fun _ => fetch_lowers fun _ => hwait _

theorem enterListCheckReply_lowers :
    (enterListCheckReply inp h).Lowers
      ((State.optCheckReply .list).rank h.weights + if h.reply = repServer then 4 else 0) := by
  have hend : ∀ h' : Handle, ∀ m, (goto .negotiating h').Lowers (2 + m) := fun h' m =>
    goto_lowers (w := h'.weights) rfl (by simp only [State.rank]; omega)
  refine ite_lowers (fun hr => listServer_lowers ?_) fun _ =>
    ite_lowers (fun _ => hend _ _) fun _ =>
      handleReplyError_lowers (by simp only [State.rank]; omega) fun h' _ => hend _ _
  rw [if_pos hr]
  simp only [State.rank]
  omega

theorem length_copyStrings (alloc : Nat → Bool) (i : Nat) (ss : List CString) :
    (copyStrings alloc i ss).1.length ≤ ss.length := by
  induction ss generalizing i with
  | nil => exact Nat.le_refl _
  | cons s ss ih =>
    unfold copyStrings
    split
    · exact Nat.succ_le_succ (ih (i + 1))
    · exact Nat.zero_le _

theorem metaRequest_lowers {o : Opt} (hw : h.weights = w) (hn : 26 + 3 * w.listed < n) :
    (metaRequest h o).Lowers n := by
  have hw' : ∀ es, ({ h.request o h.metaOptlen with wflags := true } : Handle).weights = w ∧
      ((({ h.request o h.metaOptlen with wflags := true } : Handle).log es).weights = w) :=
    fun es => ⟨hw, hw⟩
  unfold metaRequest
  split
  · exact goto_lowers (hw' _).2 hn
  · exact goto_lowers (hw' []).1 hn

/-- The queries that are sent are those asked for, or those of the handle. -/
theorem metaAutomatic_lowers (hw : h.weights = w) (hn : 27 + w.queries ≤ n) :
    (metaAutomatic inp h).Lowers n := by
  unfold metaAutomatic
  refine ite_lowers (fun _ => ?_) fun _ => ?_
  · refine goto_lowers (w := h.weights) ?_ ?_
    · split <;> rfl
    · simp only [State.rank]
      omega
  · have hlen : ((setQuerylist inp h none).1.weights).listed ≤ w.requested := by
      have hc := length_copyStrings inp.alloc 0 h.cfg.requestMetaContexts
      subst hw
      unfold setQuerylist
      dsimp only
      split <;> exact hc
    have hq : 26 + 3 * (setQuerylist inp h none).1.weights.listed < n := by
      unfold Weights.queries at hn
      omega
    generalize setQuerylist inp h none = out at hq
    obtain ⟨h', ok⟩ := out
    refine ite_lowers (fun _ => metaRequest_lowers rfl hq) fun _ => ?_
    exact goto_lowers (w := h'.weights) rfl (by simp only [State.rank]; omega)

theorem enterMetaContextStart_lowers :
    (enterMetaContextStart inp h).Lowers ((State.optStart .metaContext).rank h.weights) := by
  have hn : 26 + 3 * h.weights.listed < (State.optStart .metaContext).rank h.weights := by
    simp only [State.rank, Weights.queries]
    omega
  refine require_lowers <| ite_lowers
    (fun _ => require_lowers <| require_lowers <| metaRequest_lowers rfl hn) fun _ =>
      ite_lowers (fun _ => require_lowers <| metaRequest_lowers (w := h.weights) rfl hn) fun _ =>
        require_lowers <| metaAutomatic_lowers (w := h.weights) ?_ (Nat.le_refl _)
  split <;> rfl

theorem sendNumber_lowers {s : State} {m : Nat} (hw : h.weights = w) (hr : s.rank w < n) :
    (sendNumber s m h).Lowers n := goto_lowers hw hr

theorem enterMetaContextSend_lowers :
    (enterMetaContextSend inp h).Lowers ((State.optSend .metaContext).rank h.weights) :=
  sendThen_lowers (by simp only [State.rank]; omega) fun _ hw =>
    sendNumber_lowers hw (by simp only [State.rank]; omega)

theorem enterMetaSendExportnamelen_lowers :
    (enterMetaSendExportnamelen inp h).Lowers (State.metaSendExportnamelen.rank h.weights) :=
  sendThen_lowers (by simp only [State.rank]; omega) fun _ hw =>
    goto_lowers hw (by simp only [State.rank]; omega)

theorem enterMetaSendExportname_lowers :
    (enterMetaSendExportname inp h).Lowers (State.metaSendExportname.rank h.weights) :=
  sendThen_lowers (by simp only [State.rank]; omega) fun _ hw =>
    sendNumber_lowers hw (by simp only [State.rank]; omega)

theorem enterMetaSendNrqueries_lowers :
    (enterMetaSendNrqueries inp h).Lowers (State.metaSendNrqueries.rank h.weights) := by
  refine sendThen_lowers (by simp only [State.rank]; omega) fun h' hw => ?_
  refine goto_lowers (w := { h.weights with asked := 0 }) ?_ ?_
  · rw [← hw]
    rfl
  · simp only [State.rank]
    omega

/-- Every query is sent once: three rounds for each one that is left. -/
theorem enterMetaPrepareNextQuery_lowers :
    (enterMetaPrepareNextQuery h).Lowers (State.metaPrepareNextQuery.rank h.weights) := by
  unfold enterMetaPrepareNextQuery
  split
  next => exact goto_lowers (w := h.weights) rfl (by simp only [State.rank]; omega)
  next query hq =>
    obtain ⟨hlt, -⟩ := List.getElem?_eq_some_iff.mp hq
    refine sendNumber_lowers rfl ?_
    simp only [State.rank, Handle.weights]
    omega

theorem enterMetaSendQuerylen_lowers :
    (enterMetaSendQuerylen inp h).Lowers (State.metaSendQuerylen.rank h.weights) :=
  sendThen_lowers (by simp only [State.rank]; omega) fun _ hw =>
    goto_lowers hw (by simp only [State.rank]; omega)

theorem enterMetaSendQuery_lowers :
    (enterMetaSendQuery inp h).Lowers (State.metaSendQuery.rank h.weights) := by
  refine sendThen_lowers (by simp only [State.rank]; omega) fun h' hw => ?_
  refine goto_lowers (w := { h.weights with asked := h.weights.asked + 1 }) ?_ ?_
  · rw [← hw]
    rfl
  · simp only [State.rank]
    omega

theorem metaContextReply_lowers {o : Opt} (hn : 21 < n) : (metaContextReply inp o h).Lowers n := by
  have hwait : ∀ h' : Handle, (goto .metaPrepareForReply h').Lowers n := fun h' =>
    goto_lowers (w := h'.weights) rfl hn
  unfold metaContextReply
  exact ite_lowers (fun _ => hwait _) fun _ => require_lowers <| fetch_lowers fun id =>
    minus_lowers fun rest => fetch_lowers fun str => ite_lowers (fun _ => die_lowers (by omega)) fun _ =>
      ite_lowers (fun _ => hwait _) fun _ => ite_lowers (fun _ => die_lowers (by omega)) fun _ => hwait _

theorem enterMetaContextCheckReply_lowers :
    (enterMetaContextCheckReply inp h).Lowers ((State.optCheckReply .metaContext).rank h.weights +
      if h.reply = repMetaContext then 4 else 0) := by
  have hend : ∀ (h' : Handle) (e : UInt32) (m : Nat), (metaFinish e h').Lowers (18 + m) :=
    fun h' e m => goto_lowers (w := h'.weights) rfl (by simp only [State.rank]; omega)
  have hgo : ∀ (h' : Handle) (m : Nat), (goto (.optStart .go) h').Lowers (18 + m) :=
    fun h' m => goto_lowers (w := h'.weights) rfl (by simp only [State.rank]; omega)
  unfold enterMetaContextCheckReply
  dsimp only
  refine ite_lowers (fun _ => ite_lowers (fun _ => hend _ _ _) fun _ => hgo _ _) fun _ =>
    ite_lowers (fun hr => metaContextReply_lowers ?_) fun _ =>
      handleReplyError_lowers (by simp only [State.rank]; omega) fun h' _ =>
        ite_lowers (fun _ => hend _ _ _) fun _ => hgo _ _
  rw [if_pos hr]
  simp only [State.rank]
  omega

theorem enterGoStart_lowers : (enterGoStart h).Lowers ((State.optStart .go).rank h.weights) := by
  have hsend : ∀ h' : Handle, (goto (.optSend .go) h').Lowers ((State.optStart .go).rank h.weights) :=
    fun h' => goto_lowers (w := h'.weights) rfl (by simp only [State.rank]; omega)
  exact require_lowers <| ite_lowers (fun _ => require_lowers <| hsend _) fun _ =>
    ite_lowers (fun _ => require_lowers <| require_lowers <| hsend _) fun _ => hsend _

/-- The states that send one part of the request of GO or EXPORT_NAME. -/
theorem sendThen_goto_lowers {s : State} (s' : State) {f : Handle → Handle}
    (hf : ∀ h', (f h').weights = h'.weights) (hr : s'.rank h.weights < s.rank h.weights) :
    (sendThen inp (fun h' => goto s' (f h')) h).Lowers (s.rank h.weights) :=
  sendThen_lowers (by omega) fun _ hw => goto_lowers ((hf _).trans hw) hr

theorem enterGoSend_lowers : (enterGoSend inp h).Lowers ((State.optSend .go).rank h.weights) :=
  sendThen_goto_lowers .goSendExportnamelen (fun _ => rfl) (by simp only [State.rank]; omega)

theorem enterGoSendExportnamelen_lowers :
    (enterGoSendExportnamelen inp h).Lowers (State.goSendExportnamelen.rank h.weights) :=
  sendThen_goto_lowers .goSendExport (fun _ => rfl) (by simp only [State.rank]; omega)

theorem enterGoSendExport_lowers :
    (enterGoSendExport inp h).Lowers (State.goSendExport.rank h.weights) :=
  sendThen_goto_lowers .goSendNrinfos (fun _ => rfl) (by simp only [State.rank]; omega)

theorem enterGoSendNrinfos_lowers :
    (enterGoSendNrinfos inp h).Lowers (State.goSendNrinfos.rank h.weights) :=
  sendThen_goto_lowers .goSendInfo (fun _ => rfl) (by simp only [State.rank]; omega)

theorem enterGoSendInfo_lowers :
    (enterGoSendInfo inp h).Lowers (State.goSendInfo.rank h.weights) :=
  sendThen_goto_lowers (.optRecvReply .go) (fun _ => rfl) (by simp only [State.rank]; omega)

theorem goString_lowers {which : String} {set : Option CString → Handle} (hn : 11 < n) :
    (goString inp which set h).Lowers n :=
  ite_lowers (fun _ => die_lowers (by omega)) fun _ => minus_lowers fun _ => fetch_lowers fun _ =>
    ite_lowers (fun _ => awaitReply_lowers rfl hn) fun _ => die_lowers (by omega)

theorem goInfo_lowers (hn : 11 < n) : (goInfo inp h).Lowers n := by
  have hwait : ∀ h' : Handle, (awaitReply .go h').Lowers n := fun h' => awaitReply_lowers rfl hn
  have hdie : ∀ e t, (die e t h).Lowers n := fun e t => die_lowers (by omega)
  unfold goInfo
  refine ite_lowers (fun _ => require_lowers <| hwait _) fun _ => require_lowers <|
    fetch_lowers fun info => ite_lowers (fun _ => ite_lowers (fun _ => hdie _ _) fun _ =>
      fetch_lowers fun _ => fetch_lowers fun _ =>
        setSizeAndFlags_lowers (by omega) fun _ _ => hwait _) fun _ => ?_
  exact ite_lowers (fun _ => ite_lowers (fun _ => hdie _ _) fun _ => fetch_lowers fun _ =>
    fetch_lowers fun _ => fetch_lowers fun _ => hwait _) fun _ =>
      ite_lowers (fun _ => goString_lowers hn) fun _ =>
        ite_lowers (fun _ => goString_lowers hn) fun _ => hwait _

theorem goFinish_lowers {e : UInt32} (hn : 3 < n) : (goFinish e h).Lowers n := by
  unfold goFinish
  split
  · exact goto_lowers (w := h.weights) rfl (by simp only [State.rank]; omega)
  · exact goto_ite_lowers (w := h.weights) rfl (by simp only [State.rank]; omega)
      (by simp only [State.rank]; omega)

theorem enterGoCheckReply_lowers :
    (enterGoCheckReply inp h).Lowers
      ((State.optCheckReply .go).rank h.weights + if h.reply = repInfo then 4 else 0) := by
  refine ite_lowers (fun hr => goInfo_lowers ?_) fun _ =>
    ite_lowers (fun _ => goto_lowers (w := h.weights) rfl (by simp only [State.rank]; omega)) fun _ =>
      ite_lowers (fun _ => goFinish_lowers (by simp only [State.rank]; omega)) fun _ =>
        handleReplyError_lowers (by simp only [State.rank]; omega) fun h' _ => require_lowers <|
          goFinish_lowers (by simp only [State.rank]; omega)
  rw [if_pos hr]
  simp only [State.rank]
  omega

theorem enterExportNameStart_lowers :
    (enterExportNameStart h).Lowers (State.exportNameStart.rank h.weights) := by
  unfold enterExportNameStart
  refine goto_lowers (w := h.weights) ?_ (by simp only [State.rank]; omega)
  dsimp only
  split <;> rfl

theorem enterExportNameSend_lowers :
    (enterExportNameSend inp h).Lowers (State.exportNameSend.rank h.weights) :=
  sendThen_goto_lowers .exportNameSendExport (fun _ => rfl) (by simp only [State.rank]; omega)

theorem enterExportNameSendExport_lowers :
    (enterExportNameSendExport inp h).Lowers (State.exportNameSendExport.rank h.weights) :=
  sendThen_goto_lowers .exportNameRecvReply (fun _ => rfl) (by simp only [State.rank]; omega)

theorem enterExportNameCheckReply_lowers :
    (enterExportNameCheckReply h).Lowers (State.exportNameCheckReply.rank h.weights) :=
  setSizeAndFlags_lowers (by simp only [State.rank]; omega) fun _ hw =>
    goto_lowers hw (by simp only [State.rank]; omega)

/-! ## All states -/

/-- The rounds that a step adds. -/
def extraRound (inp : Input) (h : Handle) : Nat :=
  match h.state with
  | .optCheckReply _ =>
    if h.reply = repServer ∨ h.reply = repInfo ∨ h.reply = repMetaContext then 4 else 0
  | .tlsHandshakeRead | .tlsHandshakeWrite => if inp.handshake = .again then 1 else 0
  | .connectTcpStart => (inp.addresses.map fun a => 4 * a + 4).getD 0
  | _ => 0

theorem Outcome.Lowers.mono {o : Outcome} {m : Nat} (ho : o.Lowers m) (hm : m ≤ n) :
    o.Lowers n := by
  cases o with
  | next h' => exact Nat.lt_of_lt_of_le ho hm
  | _ => trivial

theorem enterConnectTcpStart_lowers (hs : h.state = .connectTcpStart) :
    (enterConnectTcpStart inp h).Lowers (h.rank + extraRound inp h) := by
  unfold enterConnectTcpStart
  cases ha : inp.addresses with
  | none => trivial
  | some a =>
    refine goto_lowers (w := { h.weights with addrs := a }) rfl ?_
    simp only [Handle.rank, extraRound, hs, ha, State.rank, Weights.queries, Option.map_some,
      Option.getD_some]
    omega

theorem enterOptStart_lowers (g : OptGroup) :
    (enterOptStart inp g h).Lowers ((State.optStart g).rank h.weights) := by
  cases g with
  | starttls => exact enterStarttlsStart_lowers
  | extendedHeaders => exact enterExtendedHeadersStart_lowers
  | structuredReply => exact enterStructuredReplyStart_lowers
  | list =>
    exact require_lowers <| require_lowers <| require_lowers <|
      goto_lowers (w := h.weights) rfl (by simp only [State.rank]; omega)
  | metaContext => exact enterMetaContextStart_lowers
  | go => exact enterGoStart_lowers

theorem enterOptSendGroup_lowers (g : OptGroup) :
    (enterOptSendGroup inp g h).Lowers ((State.optSend g).rank h.weights) := by
  cases g with
  | metaContext => exact enterMetaContextSend_lowers
  | go => exact enterGoSend_lowers
  | _ => exact enterOptSend_lowers (by simp)

theorem enterOptCheckReply_lowers (g : OptGroup) (hs : h.state = .optCheckReply g) :
    (enterOptCheckReply inp g h).Lowers (h.rank + extraRound inp h) := by
  -- only three kinds of reply announce another one
  have hextra : ∀ r, r = repServer ∨ r = repInfo ∨ r = repMetaContext →
      (if h.reply = r then 4 else 0) ≤ extraRound inp h := by
    intro r hr
    unfold extraRound
    rw [hs]
    dsimp only
    split
    · rw [if_pos (by rcases hr with rfl | rfl | rfl <;> simp [*])]
    · exact Nat.zero_le _
  have hrank : h.rank = (State.optCheckReply g).rank h.weights := by rw [Handle.rank, hs]
  rw [hrank]
  cases g with
  | starttls => exact enterStarttlsCheckReply_lowers.mono (Nat.le_add_right ..)
  | extendedHeaders => exact enterExtendedHeadersCheckReply_lowers.mono (Nat.le_add_right ..)
  | structuredReply => exact enterStructuredReplyCheckReply_lowers.mono (Nat.le_add_right ..)
  | list => exact enterListCheckReply_lowers.mono (Nat.add_le_add_left (hextra _ (.inl rfl)) _)
  | metaContext =>
    exact enterMetaContextCheckReply_lowers.mono
      (Nat.add_le_add_left (hextra _ (.inr (.inr rfl))) _)
  | go => exact enterGoCheckReply_lowers.mono (Nat.add_le_add_left (hextra _ (.inr (.inl rfl))) _)

/-- **Every state** lowers the rounds that are left. -/
theorem enter_lowers (inp : Input) (h : Handle) :
    (enter inp h).Lowers (h.rank + extraRound inp h) := by
  have hmono : ∀ {s : State} {o : Outcome}, h.state = s → o.Lowers (s.rank h.weights) →
      o.Lowers (h.rank + extraRound inp h) := fun hs ho => by
    subst hs
    exact ho.mono (Nat.le_add_right ..)
  unfold enter
  cases hs : h.state with
  | start => trivial
  | negotiating => trivial
  | ready => exact require_lowers trivial
  | dead => exact require_lowers trivial
  | closed => trivial
  | connectStart => exact hmono hs enterConnectStart_lowers
  | connectConnecting => exact hmono hs enterConnectConnecting_lowers
  | connectTcpStart => exact enterConnectTcpStart_lowers hs
  | connectTcpConnect => exact hmono hs enterConnectTcpConnect_lowers
  | connectTcpConnecting => exact hmono hs enterConnectTcpConnecting_lowers
  | connectTcpNextAddress => exact hmono hs enterConnectTcpNextAddress_lowers
  | connectCommandStart => exact hmono hs enterConnectCommandStart_lowers
  | connectSaStart => exact hmono hs enterConnectSaStart_lowers
  | magicStart =>
    exact hmono hs (goto_lowers (w := h.weights) rfl (by simp only [State.rank]; omega))
  | magicRecvMagic =>
    exact hmono hs (recvThen_lowers (by simp only [State.rank]; omega) fun _ hw =>
      goto_lowers hw (by simp only [State.rank]; omega))
  | magicCheckMagic => exact hmono hs enterMagicCheckMagic_lowers
  | oldstyleStart =>
    exact hmono hs (goto_lowers (w := h.weights) rfl (by simp only [State.rank]; omega))
  | oldstyleRecvRemaining =>
    exact hmono hs (recvThen_lowers (by simp only [State.rank]; omega) fun _ hw =>
      goto_lowers hw (by simp only [State.rank]; omega))
  | oldstyleCheck => exact hmono hs enterOldstyleCheck_lowers
  | newstyleStart => exact hmono hs enterNewstyleStart_lowers
  | newstyleRecvGflags =>
    exact hmono hs (recvThen_lowers (by simp only [State.rank]; omega) fun _ hw =>
      goto_lowers hw (by simp only [State.rank]; omega))
  | newstyleCheckGflags => exact hmono hs enterNewstyleCheckGflags_lowers
  | newstyleSendCflags => exact hmono hs enterNewstyleSendCflags_lowers
  | newstylePrepareOptAbort =>
    exact hmono hs (require_lowers <|
      goto_lowers (w := h.weights) rfl (by simp only [State.rank]; omega))
  | newstyleSendOptAbort =>
    exact hmono hs (sendThen_lowers (by simp only [State.rank]; omega) fun _ hw =>
      goto_lowers hw (by simp only [State.rank]; omega))
  | newstyleSendOptionShutdown => exact hmono hs enterNewstyleSendOptionShutdown_lowers
  | newstyleFinished =>
    exact hmono hs (goto_lowers (w := h.weights) rfl (by simp only [State.rank]; omega))
  | optStart g => exact hmono hs (enterOptStart_lowers g)
  | optSend g => exact hmono hs (enterOptSendGroup_lowers g)
  | optRecvReply g => exact hmono hs enterOptRecvReply_lowers
  | optRecvReplyPayload g => exact hmono hs enterOptRecvReplyPayload_lowers
  | optCheckReply g => exact enterOptCheckReply_lowers g hs
  | tlsHandshakeRead =>
    have hn : h.rank + extraRound inp h =
        39 + h.weights.queries + if inp.handshake = .again then 1 else 0 := by
      simp only [Handle.rank, extraRound, hs, State.rank]
    rw [hn]
    exact enterTlsHandshake_lowers
  | tlsHandshakeWrite =>
    have hn : h.rank + extraRound inp h =
        39 + h.weights.queries + if inp.handshake = .again then 1 else 0 := by
      simp only [Handle.rank, extraRound, hs, State.rank]
    rw [hn]
    exact enterTlsHandshake_lowers
  | tlsHandshakeDone => exact hmono hs enterTlsHandshakeDone_lowers
  | metaSendExportnamelen => exact hmono hs enterMetaSendExportnamelen_lowers
  | metaSendExportname => exact hmono hs enterMetaSendExportname_lowers
  | metaSendNrqueries => exact hmono hs enterMetaSendNrqueries_lowers
  | metaPrepareNextQuery => exact hmono hs enterMetaPrepareNextQuery_lowers
  | metaSendQuerylen => exact hmono hs enterMetaSendQuerylen_lowers
  | metaSendQuery => exact hmono hs enterMetaSendQuery_lowers
  | metaPrepareForReply =>
    exact hmono hs (awaitReply_lowers rfl (by simp only [State.rank]; omega))
  | goSendExportnamelen => exact hmono hs enterGoSendExportnamelen_lowers
  | goSendExport => exact hmono hs enterGoSendExport_lowers
  | goSendNrinfos => exact hmono hs enterGoSendNrinfos_lowers
  | goSendInfo => exact hmono hs enterGoSendInfo_lowers
  | exportNameStart => exact hmono hs enterExportNameStart_lowers
  | exportNameSend => exact hmono hs enterExportNameSend_lowers
  | exportNameSendExport => exact hmono hs enterExportNameSendExport_lowers
  | exportNameRecvReply =>
    exact hmono hs (recvThen_lowers (by simp only [State.rank]; omega) fun _ hw =>
      goto_lowers hw (by simp only [State.rank]; omega))
  | exportNameCheckReply => exact hmono hs enterExportNameCheckReply_lowers

/-! ## The run loop -/

/-- The rounds that are left to a call. -/
def Config.work (c : Config) : Nat :=
  match c.ctl with
  | .running _ => c.h.rank + 1
  | _ => 0

def Label.isEnter : Label → Bool
  | .enter _ => true
  | .call _ _ => false

/-- The rounds that a step of the run loop adds. -/
def extraRounds (c : Config) : Label → Nat
  | .enter inp => extraRound inp c.h
  | .call _ _ => 0

theorem negotiation_ranks :
    machine.Ranks (fun _ => True) (fun l => l.isEnter = true) extraRounds Config.work where
  keeps _ _ _ _ _ _ := trivial
  lowers := by
    intro c l c' _ hl hstep
    cases l with
    | call api inp => cases hl
    | enter inp =>
      simp only [machine, step] at hstep
      split at hstep
      next keep hctl =>
        cases hstep
        have hlow := enter_lowers inp c.h
        simp only [Config.work, hctl, extraRounds]
        unfold stepEnter
        cases he : enter inp c.h with
        | next h' =>
          rw [he] at hlow
          have hlt : h'.rank < c.h.rank + extraRound inp c.h := hlow
          dsimp only
          omega
        | block h' => simp only [afterRun]; omega
        | fail h' => simp only [afterRun]; omega
        | abort a => dsimp only; omega
      next => cases hstep

/-- The run loop, in whatever environment. -/
def loop (ins : Nat → Input) (n : Nat) : List Label := System.firstOf (fun i => .enter (ins i)) n

/-- **Every call returns** before the transmission phase too: if the outside world adds at most
`p` rounds, the run loop that an API call has entered ends within 59 rounds, four for each
address that is left, three for each metadata context query and those `p`, and leaves the handle
in a state that waits for the socket or for the application, or that is final; or else the
process ends, with an assertion that fails or an access outside the payload. -/
theorem negotiation_returns {c c₁ : Config} {api : Api} {inp : Input} {ins : Nat → Input} {p : Nat}
    (hc : machine.Reachable c) (hcall : machine.step c (.call api inp) = some c₁)
    (hp : ∀ n, machine.total extraRounds c₁ (loop ins n) ≤ p) :
    ∃ n ≤ 59 + 4 * c₁.h.addrs +
        3 * max c₁.h.querylist.length c₁.h.cfg.requestMetaContexts.length + p,
      ∃ c', machine.exec c₁ (loop ins n) = some c' ∧
        ((∃ a, c'.ctl = .aborted a) ∨ ∃ r, c'.ctl = .idle r ∧ c'.h.state.isResting = true) := by
  have hc₁ : machine.Reachable c₁ := hc.step _ hcall
  obtain ⟨n, hn, c', hexec, hstop⟩ := negotiation_ranks.stops trivial
    (fun i => .enter (ins i)) (fun _ => rfl)
    (N := 59 + 4 * c₁.h.addrs +
      3 * max c₁.h.querylist.length c₁.h.cfg.requestMetaContexts.length + p) fun n => by
      have hpn := hp n
      unfold loop at hpn
      have hw : c₁.work ≤ 59 + 4 * c₁.h.addrs +
          3 * max c₁.h.querylist.length c₁.h.cfg.requestMetaContexts.length := by
        have hrank := c₁.h.state.rank_le c₁.h.weights
        unfold Config.work
        split
        · simp only [Handle.rank, Weights.queries, Handle.weights] at hrank ⊢
          omega
        · exact Nat.zero_le _
      exact Nat.add_le_add hw hpn
  refine ⟨n, hn, c', hexec, ?_⟩
  cases hctl : c'.ctl with
  | idle r => exact .inr ⟨r, rfl, reachable_resting (hc₁.exec _ hexec) hctl⟩
  | aborted a => exact .inl ⟨a, rfl⟩
  | running keep => simp only [machine, step, hctl, reduceCtorEq] at hstop

/-- What a call and the rounds after it get from the outside world. -/
def Label.input : Label → Input
  | .enter inp | .call _ inp => inp

/-- The rounds of `setOneContext`: the server answers with a metadata context and then with the
end of the list. -/
def oneContext (i : Nat) : Input := (setOneContext.tail.map Label.input).getD i .calm

theorem negotiation_returns_one_context :
    ∃ c c₁, machine.exec .created connectOptMode = some c ∧
      machine.step c (.call (.aioOptSetMetaContext (some [[97]]) ⟨true, false⟩ .null) .calm) =
        some c₁ ∧
      (∃ n ≤ 66, ∃ c', machine.exec c₁ (loop oneContext n) = some c' ∧
        ((∃ a, c'.ctl = .aborted a) ∨ ∃ r, c'.ctl = .idle r ∧ c'.h.state.isResting = true)) ∧
      ∃ c', machine.exec c₁ (loop oneContext 19) = some c' ∧ c'.h.state = .negotiating ∧
        c'.h.exp.metaContexts.length = 1 := by
  have hconnect : (machine.exec .created connectOptMode).isSome = true := by decide +kernel
  obtain ⟨c, hc⟩ := Option.isSome_iff_exists.mp hconnect
  have hcall : ((machine.exec .created connectOptMode).bind fun c =>
      (machine.step c (.call (.aioOptSetMetaContext (some [[97]]) ⟨true, false⟩ .null) .calm)).map
        fun c₁ => ([c₁.h.addrs, c₁.h.querylist.length, c₁.h.cfg.requestMetaContexts.length,
          machine.total extraRounds c₁ (loop oneContext 19)],
          (machine.exec c₁ (loop oneContext 19)).map fun c' =>
            ((machine.step c' (.enter (oneContext 19))).isNone, c'.h.state,
              c'.h.exp.metaContexts.length))) =
      some ([0, 1, 0, 4], some (true, .negotiating, 1)) := by decide +kernel
  rw [hc, Option.bind_some] at hcall
  obtain ⟨c₁, hc₁, hfacts⟩ := Option.map_eq_some_iff.mp hcall
  simp only [Prod.mk.injEq, List.cons.injEq] at hfacts
  obtain ⟨⟨haddrs, hquery, hcfg, htotal, -⟩, hrun⟩ := hfacts
  obtain ⟨c', hc', hend⟩ := Option.map_eq_some_iff.mp hrun
  simp only [Prod.mk.injEq] at hend
  obtain ⟨hstop, hstate, hone⟩ := hend
  have hadded : ∀ n, machine.total extraRounds c₁ (loop oneContext n) ≤ 4 := by
    intro n
    rw [← htotal]
    refine machine.total_firstOf_le hc' (Option.isNone_iff_eq_none.mp hstop) ?_ n
    simp only [extraRounds, extraRound, hstate]
  refine ⟨c, c₁, hc, hc₁, ?_, c', hc', hstate, hone⟩
  have hreturns := negotiation_returns ⟨.created, _, Config.initial_created, hc⟩ hc₁ hadded
  rwa [haddrs, hquery, hcfg] at hreturns

end Libnbd.Negotiation
