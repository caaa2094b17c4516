import Libnbd.Negotiation.Effect

/-!
What one state's code and one API call can do to the negotiated values other than
the metadata contexts: the export size and flags, the block sizes, and which of
TLS, structured replies and extended headers are in use.

`Revision` lists everything that entering a state may do to them, and where it
leads; `enter_revises` proves the list complete, and `submit_revises` does the same
for the calls.
-/

namespace Libnbd.Negotiation

open Lib

/-! ## The values -/

structure Facts where
  tlsNegotiated : Bool
  structuredReplies : Bool
  extendedHeaders : Bool
  exportsize : UInt64
  eflags : UInt16
  blockMinimum : UInt32
  blockPreferred : UInt32
  blockMaximum : UInt32
  payloadMaximum : UInt32
  deriving DecidableEq, Repr

namespace Facts

def reset (f : Facts) : Facts :=
  { f with
    exportsize := 0, eflags := 0, blockMinimum := 0, blockPreferred := 0, blockMaximum := 0,
    payloadMaximum := 0 }

/-- The flags that remain of those the server has sent. -/
def usableFlags (f : Facts) (eflags : UInt16) : UInt16 :=
  let eflags :=
    if eflags &&& flagSendDf != 0 && !f.structuredReplies then eflags &&& ~~~flagSendDf else eflags
  let eflags :=
    if eflags &&& flagBlockStatusPayload != 0 && !f.extendedHeaders then
      eflags &&& ~~~flagBlockStatusPayload
    else eflags
  if eflags &&& flagSendFastZero != 0 && eflags &&& flagSendWriteZeroes == 0 then
    eflags &&& ~~~flagSendFastZero
  else eflags

def describe (f : Facts) (exportsize : UInt64) (eflags : UInt16) : Facts :=
  { f with exportsize := exportsize, eflags := f.usableFlags eflags }

def blocks (f : Facts) (min pref max : UInt32) : Facts :=
  { f with blockMinimum := min, blockPreferred := pref, blockMaximum := max }

def payload (f : Facts) : Facts :=
  { f with payloadMaximum :=
      if f.blockMaximum ≠ 0 then
        min (UInt32.ofNat maxRequestSize) (max (1024 * 1024) f.blockMaximum)
      else 32 * 1024 * 1024 }

end Facts

def Handle.facts (h : Handle) : Facts where
  tlsNegotiated := h.exp.tlsNegotiated
  structuredReplies := h.exp.structuredReplies
  extendedHeaders := h.exp.extendedHeaders
  exportsize := h.exp.exportsize
  eflags := h.exp.eflags
  blockMinimum := h.exp.blockMinimum
  blockPreferred := h.exp.blockPreferred
  blockMaximum := h.exp.blockMaximum
  payloadMaximum := h.exp.payloadMaximum

/-- How far GO has come: asked for, or agreed. -/
def State.stage : State → Nat
  | optSend .go | goSendExportnamelen | goSendExport | goSendNrinfos | goSendInfo
  | optRecvReply .go | optRecvReplyPayload .go | optCheckReply .go => 1
  | newstyleFinished | ready => 2
  | _ => 0

/-- The export description in the bytes just received: its size and flags. -/
def Handle.described (h : Handle) : Option (UInt64 × UInt16) :=
  match h.state with
  | .oldstyleCheck => some (h.sbuf.be64 16, h.sbuf.be16 26)
  | .exportNameCheckReply => some (h.sbuf.be64 0, h.sbuf.be16 8)
  | .optCheckReply .go =>
    if h.reply = repInfo ∧ h.replylen.toNat = 12 ∧ h.sbuf.be16 optionReplySize = infoExport then
      some (h.sbuf.be64 (optionReplySize + 2), h.sbuf.be16 (optionReplySize + 10))
    else none
  | _ => none

/-- Everything that entering a state may do to the values, with the state that it
leads to. -/
inductive Revision (h : Handle) : State → Facts → Prop
  | same (s : State) (hs : s.stage = 0 ∨ s.stage = h.state.stage ∧ h.described = none) :
    Revision h s h.facts
  | start (hs : h.state = .optStart .go) : Revision h (.optSend .go) h.facts.reset
  | described (exportsize : UInt64) (eflags : UInt16) (hs : h.state = .optCheckReply .go)
      (hd : h.described = some (exportsize, eflags)) :
    Revision h (.optRecvReply .go) (h.facts.describe exportsize eflags)
  | blocks (min pref max : UInt32) (hs : h.state = .optCheckReply .go) (hd : h.described = none)
      (hb : Handle.badBlockSize min pref max = false) :
    Revision h (.optRecvReply .go) (h.facts.blocks min pref max)
  | agreed (s : State) (hs : h.state = .optCheckReply .go) (hd : h.described = none) :
    Revision h s h.facts.payload
  | failed (s : State) (hs : s.stage = 0) : Revision h s h.facts.reset
  | named (exportsize : UInt64) (eflags : UInt16) (hs : h.state = .exportNameCheckReply)
      (hd : h.described = some (exportsize, eflags)) :
    Revision h .newstyleFinished (h.facts.describe exportsize eflags).payload
  | oldstyle (exportsize : UInt64) (eflags : UInt16) (hs : h.state = .oldstyleCheck)
      (hd : h.described = some (exportsize, eflags)) (ht : h.cfg.tls ≠ .require) :
    Revision h .ready (h.facts.describe exportsize eflags).payload
  | plaintext (s : State) (hs : s.stage = 0) :
    Revision h s { h.facts.reset with structuredReplies := false, extendedHeaders := false }
  | tls (s : State) (hs : s.stage = 0) : Revision h s { h.facts with tlsNegotiated := true }
  | extended (s : State) (hs : s.stage = 0) :
    Revision h s { h.facts with structuredReplies := true, extendedHeaders := true }
  | structured (s : State) (hs : s.stage = 0) :
    Revision h s { h.facts with structuredReplies := true }

/-- The values and the state of `h'` after `h`. -/
def Revises (h h' : Handle) : Prop := Revision h h'.state h'.facts

/-- Every outcome is a revision. -/
abbrev Outcome.Revisions (o : Outcome) (h : Handle) : Prop :=
  o.All (fun _ => True) (Revises h) (Revises h)

/-! ## States -/

section

variable {inp : Input} {h h' : Handle} {s : State}

/-- Nothing is revised, and GO is not in progress afterwards. -/
theorem revises_leave (hf : h'.facts = h.facts) (hs : h'.state.stage = 0) : Revises h h' := by
  unfold Revises
  rw [hf]
  exact .same _ (.inl hs)

theorem revises_stay (hf : h'.facts = h.facts) (hs : h'.state = h.state) (hd : h.described = none) :
    Revises h h' := by
  unfold Revises
  rw [hf]
  exact .same _ (.inr ⟨by rw [hs], hd⟩)

/-- The steps inside one stage. -/
theorem revises_within (hf : h'.facts = h.facts) (hs : h'.state.stage = h.state.stage)
    (hd : h.described = none) : Revises h h' := by
  unfold Revises
  rw [hf]
  exact .same _ (.inr ⟨hs, hd⟩)

theorem described_none (hs : h.state ≠ .oldstyleCheck) (hs' : h.state ≠ .exportNameCheckReply)
    (hs'' : h.state ≠ .optCheckReply .go) : h.described = none := by
  unfold Handle.described
  split <;> simp_all

theorem recv_revises {k : Handle → Outcome} (hd : h.described = none)
    (hk : ∀ bs, (k (h.store bs)).Revisions h) : (recvThen inp k h).Revisions h :=
  recvThen_all (fun _ _ => revises_leave rfl rfl) (fun _ _ => revises_stay rfl rfl hd)
    fun bs _ => hk bs

theorem send_revises {k : Handle → Outcome} (hd : h.described = none)
    (hk : ∀ n, (k { h.advance n with wflags := false }).Revisions h) :
    (sendThen inp k h).Revisions h :=
  sendThen_all (fun _ _ => revises_leave rfl rfl) (fun _ => revises_stay rfl rfl hd)
    fun n _ => hk n

theorem handleReplyError_revises {k : Handle → Outcome}
    (hk : ∀ e t, (k (h.setError e t)).Revisions h) : (handleReplyError inp h k).Revisions h :=
  handleReplyError_all (fun _ _ => revises_leave rfl rfl) (fun _ _ => True.intro)
    fun _ _ e t => hk e t

/-- The states that only move on. -/
theorem goto_revises (hf : h'.facts = h.facts) (hs : s.stage = 0) : (goto s h').Revisions h :=
  revises_leave hf hs

theorem die_revises {e : UInt32} {t : String} (hf : h'.facts = h.facts) :
    (die e t h').Revisions h := revises_leave hf rfl

/-- A reply is awaited outside GO. -/
theorem awaitReply_revises {g : OptGroup} (hf : h'.facts = h.facts) (hg : g ≠ .go) :
    (awaitReply g h').Revisions h := by
  refine revises_leave hf ?_
  cases g <;> first | rfl | exact absurd rfl hg

theorem enterConnectStart_revises (hs : h.state = .connectStart) :
    (enterConnectStart inp h).Revisions h := by
  simp only [enterConnectStart, require_all, ite_all, implies_true, and_true]
  refine fun _ => ⟨fun _ => die_revises rfl, fun _ => ⟨fun _ => die_revises rfl, fun _ => ⟨fun _ => ?_,
    fun _ => die_revises rfl⟩⟩⟩
  exact revises_leave rfl (by rw [show State.stage _ = h.state.stage from rfl, hs]; rfl)

theorem enterConnectConnecting_revises : (enterConnectConnecting inp h).Revisions h := by
  unfold enterConnectConnecting
  split
  · exact die_revises rfl
  · exact ite_all.mpr ⟨fun _ => goto_revises rfl rfl, fun _ => die_revises rfl⟩

theorem enterConnectTcpStart_revises : (enterConnectTcpStart inp h).Revisions h := by
  unfold enterConnectTcpStart
  split
  · exact revises_leave rfl rfl
  · exact goto_revises rfl rfl

theorem enterConnectTcpConnect_revises : (enterConnectTcpConnect inp h).Revisions h := by
  simp only [enterConnectTcpConnect, require_all, ite_all, implies_true, and_true]
  exact fun _ => ⟨fun _ => revises_leave rfl rfl, fun _ => ⟨fun _ => goto_revises rfl rfl, fun _ =>
    ⟨fun _ => die_revises rfl, fun _ => ⟨fun _ => goto_revises rfl rfl, fun _ =>
      goto_revises rfl rfl⟩⟩⟩⟩

theorem enterConnectTcpConnecting_revises : (enterConnectTcpConnecting inp h).Revisions h := by
  unfold enterConnectTcpConnecting
  split
  · exact die_revises rfl
  · exact ite_all.mpr ⟨fun _ => goto_revises rfl rfl, fun _ => goto_revises rfl rfl⟩

theorem enterConnectCommandStart_revises : (enterConnectCommandStart inp h).Revisions h :=
  require_all.mpr ⟨fun _ => ite_all.mpr ⟨fun _ => goto_revises rfl rfl, fun _ => die_revises rfl⟩,
    fun _ => True.intro⟩

theorem enterConnectSaStart_revises : (enterConnectSaStart inp h).Revisions h :=
  require_all.mpr ⟨fun _ => ite_all.mpr ⟨fun _ => goto_revises rfl rfl, fun _ => die_revises rfl⟩,
    fun _ => True.intro⟩

theorem enterMagicCheckMagic_revises : (enterMagicCheckMagic h).Revisions h := by
  unfold enterMagicCheckMagic
  exact ite_all.mpr ⟨fun _ => die_revises rfl, fun _ => ite_all.mpr ⟨fun _ => require_all.mpr
    ⟨fun _ => goto_revises rfl rfl, fun _ => True.intro⟩, fun _ => ite_all.mpr
      ⟨fun _ => goto_revises rfl rfl, fun _ => die_revises rfl⟩⟩⟩

theorem enterOldstyleCheck_revises (hs : h.state = .oldstyleCheck) :
    (enterOldstyleCheck h).Revisions h := by
  have hd : h.described = some (h.sbuf.be64 16, h.sbuf.be16 26) := by rw [Handle.described, hs]
  unfold enterOldstyleCheck
  refine ite_all.mpr ⟨fun _ => die_revises rfl, fun ht => ite_all.mpr ⟨fun _ => die_revises rfl,
    fun _ => ?_⟩⟩
  exact setSizeAndFlags_all (fun _ _ => revises_leave rfl rfl) (fun _ _ => True.intro)
    fun v _ => .oldstyle _ _ hs hd ht

theorem newstyleGflags_revises : (newstyleGflags h).Revisions h :=
  require_all.mpr ⟨fun _ => goto_revises rfl rfl, fun _ => True.intro⟩

theorem enterNewstyleStart_revises : (enterNewstyleStart h).Revisions h := by
  unfold enterNewstyleStart
  refine ite_all.mpr ⟨fun _ => ?_, fun _ => newstyleGflags_revises⟩
  split
  case h_1 | h_2 => exact ite_all.mpr ⟨fun _ => goto_revises rfl rfl, fun _ => goto_revises rfl rfl⟩
  case h_4 => exact ite_all.mpr ⟨fun _ => goto_revises rfl rfl, fun _ => die_revises rfl⟩
  case h_10 => exact True.intro
  case h_11 => exact newstyleGflags_revises
  all_goals exact goto_revises rfl rfl

theorem enterNewstyleCheckGflags_revises : (enterNewstyleCheckGflags h).Revisions h := by
  unfold enterNewstyleCheckGflags
  exact ite_all.mpr ⟨fun _ => die_revises rfl, fun _ => goto_revises rfl rfl⟩

theorem enterNewstyleSendCflags_revises (hd : h.described = none) :
    (enterNewstyleSendCflags inp h).Revisions h :=
  send_revises hd fun _ => ite_all.mpr ⟨fun _ => goto_revises rfl rfl, fun _ => ite_all.mpr
    ⟨fun _ => goto_revises rfl rfl, fun _ => goto_revises rfl rfl⟩⟩

theorem enterNewstyleSendOptionShutdown_revises (hd : h.described = none) :
    (enterNewstyleSendOptionShutdown inp h).Revisions h := by
  refine ite_all.mpr ⟨fun _ => goto_revises rfl ?_, fun _ => revises_stay rfl rfl hd⟩
  split <;> rfl

/-! ## Options -/

theorem enterOptRecvReply_revises {g : OptGroup} (hs : h.state = .optRecvReply g)
    (hd : h.described = none) : (enterOptRecvReply inp g h).Revisions h := by
  refine recv_revises hd fun bs => ?_
  split
  · exact die_revises rfl
  · rename_i h' hp
    rw [(prepareForReplyPayload_ok hp).1]
    refine revises_within rfl ?_ hd
    rw [hs]
    cases g <;> rfl

theorem enterOptRecvReplyPayload_revises {g : OptGroup} (hs : h.state = .optRecvReplyPayload g)
    (hd : h.described = none) : (enterOptRecvReplyPayload inp g h).Revisions h := by
  refine recv_revises hd fun bs => revises_within rfl ?_ hd
  rw [hs]
  cases g <;> rfl

theorem enterStarttlsStart_revises : (enterStarttlsStart h).Revisions h := by
  simp only [enterStarttlsStart, require_all, ite_all, implies_true, and_true]
  exact fun _ => ⟨fun _ _ => goto_revises rfl rfl, fun _ => ⟨fun _ => goto_revises rfl rfl,
    fun _ _ => goto_revises rfl rfl⟩⟩

theorem handshakeState_stage (inp : Input) : (handshakeState inp).stage = 0 := by
  unfold handshakeState
  split <;> rfl

theorem enterStarttlsCheckReply_revises : (enterStarttlsCheckReply inp h).Revisions h := by
  unfold enterStarttlsCheckReply
  refine ite_all.mpr ⟨fun _ => ite_all.mpr ⟨fun _ => die_revises rfl, fun _ => ?_⟩, fun _ => ?_⟩
  · exact ite_all.mpr ⟨fun _ => .plaintext _ (handshakeState_stage inp), fun _ => .plaintext _ rfl⟩
  · refine handleReplyError_revises fun e t => ite_all.mpr ⟨fun _ => goto_revises rfl rfl, fun _ => ?_⟩
    refine goto_revises rfl ?_
    split <;> rfl

theorem enterTlsHandshake_revises : (enterTlsHandshake inp h).Revisions h := by
  unfold enterTlsHandshake
  split
  · exact die_revises rfl
  · exact goto_revises rfl rfl
  · exact goto_revises rfl (handshakeState_stage inp)

theorem enterTlsHandshakeDone_revises : (enterTlsHandshakeDone h).Revisions h := by
  refine .tls _ ?_
  dsimp only
  split <;> rfl

theorem enterExtendedHeadersStart_revises : (enterExtendedHeadersStart h).Revisions h := by
  simp only [enterExtendedHeadersStart, require_all, ite_all, implies_true, and_true]
  exact fun _ => ⟨fun _ _ => goto_revises rfl rfl, fun _ _ => ⟨fun _ => goto_revises rfl rfl,
    fun _ => goto_revises rfl rfl⟩⟩

theorem enterExtendedHeadersCheckReply_revises :
    (enterExtendedHeadersCheckReply inp h).Revisions h := by
  unfold enterExtendedHeadersCheckReply
  refine ite_all.mpr ⟨fun _ => .extended _ ?_, fun _ => handleReplyError_revises fun e t =>
    goto_revises rfl ?_⟩
  · dsimp only
    split <;> rfl
  · split <;> rfl

theorem afterStructuredReply_stage (h : Handle) : (afterStructuredReply h).stage = 0 := by
  unfold afterStructuredReply
  split <;> rfl

theorem enterStructuredReplyStart_revises : (enterStructuredReplyStart h).Revisions h := by
  simp only [enterStructuredReplyStart, require_all, ite_all, implies_true, and_true]
  exact fun _ => ⟨fun _ _ => goto_revises rfl rfl, fun _ _ =>
    ⟨fun _ => goto_revises rfl (afterStructuredReply_stage h), fun _ => goto_revises rfl rfl⟩⟩

theorem enterStructuredReplyCheckReply_revises :
    (enterStructuredReplyCheckReply inp h).Revisions h := by
  unfold enterStructuredReplyCheckReply
  exact ite_all.mpr ⟨fun _ => .structured _ (afterStructuredReply_stage _), fun _ =>
    handleReplyError_revises fun e t => goto_revises rfl (afterStructuredReply_stage _)⟩

theorem enterListStart_revises : (enterListStart h).Revisions h := by
  simp only [enterListStart, require_all, implies_true, and_true]
  exact fun _ _ _ => goto_revises rfl rfl

theorem enterListCheckReply_revises : (enterListCheckReply inp h).Revisions h := by
  unfold enterListCheckReply
  refine ite_all.mpr ⟨fun _ => ?_, fun _ => ite_all.mpr ⟨fun _ => goto_revises rfl rfl, fun _ =>
    handleReplyError_revises fun e t => goto_revises rfl rfl⟩⟩
  unfold listServer
  simp only [ite_all, minus_all, poke_all, fetch_all, implies_true, and_true]
  refine ⟨fun _ => awaitReply_revises rfl (by simp), fun _ _ _ _ => ⟨fun _ => die_revises rfl, fun _ _ => ?_⟩⟩
  exact ⟨fun _ => die_revises rfl, fun _ => ⟨fun _ _ => awaitReply_revises rfl (by simp),
    fun _ => ⟨fun _ => die_revises rfl, fun _ _ _ => awaitReply_revises rfl (by simp)⟩⟩⟩

theorem metaRequest_revises {o : Opt} (hf : h'.facts = h.facts) :
    (metaRequest h' o).Revisions h := by
  refine goto_revises ?_ rfl
  split <;> exact hf

theorem metaAutomatic_revises (hf : h'.facts = h.facts) : (metaAutomatic inp h').Revisions h := by
  unfold metaAutomatic
  refine ite_all.mpr ⟨fun _ => goto_revises ?_ rfl, fun _ => ?_⟩
  · split <;> exact hf
  · dsimp only [setQuerylist]
    refine ite_all.mpr ⟨fun _ => metaRequest_revises ?_, fun _ => goto_revises ?_ rfl⟩
    all_goals split <;> exact hf

theorem enterMetaContextStart_revises : (enterMetaContextStart inp h).Revisions h := by
  unfold enterMetaContextStart
  simp only [require_all, ite_all, implies_true, and_true]
  refine fun _ => ⟨fun _ _ _ => metaRequest_revises rfl, fun _ => ⟨fun _ _ => metaRequest_revises rfl,
    fun _ _ => metaAutomatic_revises ?_⟩⟩
  split <;> rfl

theorem enterMetaPrepareNextQuery_revises : (enterMetaPrepareNextQuery h).Revisions h := by
  unfold enterMetaPrepareNextQuery
  split
  · exact goto_revises rfl rfl
  · exact goto_revises rfl rfl

theorem metaContextReply_revises {o : Opt} : (metaContextReply inp o h).Revisions h := by
  unfold metaContextReply
  simp only [ite_all, minus_all, fetch_all, require_all, implies_true, and_true]
  refine ⟨fun _ => goto_revises rfl rfl, fun _ _ _ _ _ => ⟨fun _ => die_revises rfl, fun _ => ?_⟩⟩
  exact ⟨fun _ => goto_revises rfl rfl, fun _ => ⟨fun _ => die_revises rfl,
    fun _ => goto_revises rfl rfl⟩⟩

theorem enterMetaContextCheckReply_revises : (enterMetaContextCheckReply inp h).Revisions h := by
  unfold enterMetaContextCheckReply
  refine ite_all.mpr ⟨fun _ => ite_all.mpr ⟨fun _ => goto_revises ?_ rfl, fun _ => goto_revises ?_ rfl⟩,
    fun _ => ite_all.mpr ⟨fun _ => metaContextReply_revises, fun _ => ?_⟩⟩
  · split <;> rfl
  · split <;> rfl
  · refine handleReplyError_revises fun e t => ite_all.mpr
      ⟨fun _ => goto_revises ?_ rfl, fun _ => goto_revises ?_ rfl⟩
    · split <;> rfl
    · split <;> rfl

/-! ## GO and EXPORT_NAME -/

theorem enterGoStart_revises (hs : h.state = .optStart .go) : (enterGoStart h).Revisions h := by
  simp only [enterGoStart, require_all, ite_all, implies_true, and_true]
  exact fun _ => ⟨fun _ _ => .start hs, fun _ => ⟨fun _ _ _ => .start hs, fun _ => .start hs⟩⟩

/-- Another reply to GO is awaited, with nothing revised. -/
theorem awaitGo_revises (hf : h'.facts = h.facts) (hs : h.state = .optCheckReply .go)
    (hd : h.described = none) : (awaitReply .go h').Revisions h :=
  revises_within hf (by rw [hs]; rfl) hd

theorem goString_revises {which : String} {set : Option CString → Handle}
    (hset : ∀ s, (set s).facts = h.facts) (hs : h.state = .optCheckReply .go)
    (hd : h.described = none) : (goString inp which set h).Revisions h := by
  unfold goString
  simp only [ite_all, minus_all, fetch_all, implies_true, and_true]
  exact ⟨fun _ => die_revises rfl, fun _ _ _ => ⟨fun _ => awaitGo_revises (hset _) hs hd,
    fun _ => die_revises (hset _)⟩⟩

theorem goInfo_revises (hs : h.state = .optCheckReply .go) (hr : h.reply = repInfo) :
    (goInfo inp h).Revisions h := by
  have hnone : h.replylen.toNat ≠ 12 ∨ h.sbuf.be16 optionReplySize ≠ infoExport →
      h.described = none := by
    intro hne
    rw [Handle.described, hs]
    simp only [ite_eq_right_iff]
    rintro ⟨-, h₁, h₂⟩
    rcases hne with hne | hne
    · exact absurd h₁ hne
    · exact absurd h₂ hne
  unfold goInfo
  refine ite_all.mpr ⟨fun hlen => require_all.mpr ⟨fun _ => awaitGo_revises rfl hs (hnone (.inl ?_)),
    fun _ => True.intro⟩, fun _ => require_all.mpr ⟨fun _ => fetch_all.mpr ⟨fun _ => ?_,
      fun _ => True.intro⟩, fun _ => True.intro⟩⟩
  · have : payloadSize = 8197 := rfl
    omega
  refine ite_all.mpr ⟨fun hi => ?_, fun hi => ?_⟩
  · refine ite_all.mpr ⟨fun _ => die_revises rfl, fun hlen => ?_⟩
    have hd : h.described = some (h.sbuf.be64 (optionReplySize + 2),
        h.sbuf.be16 (optionReplySize + 10)) := by
      rw [Handle.described, hs]
      exact if_pos ⟨hr, by simpa using hlen, hi⟩
    simp only [fetch_all, implies_true, and_true]
    exact fun _ _ => setSizeAndFlags_all (fun _ _ => die_revises rfl) (fun _ _ => True.intro)
      fun v _ => .described _ _ hs hd
  · have hd : h.described = none := hnone (.inr hi)
    refine ite_all.mpr ⟨fun _ => ?_, fun _ => ite_all.mpr
      ⟨fun _ => goString_revises (fun _ => rfl) hs hd, fun _ => ite_all.mpr
        ⟨fun _ => goString_revises (fun _ => rfl) hs hd, fun _ => awaitGo_revises rfl hs hd⟩⟩⟩
    simp only [ite_all, fetch_all, implies_true, and_true]
    refine ⟨fun _ => die_revises rfl, fun _ _ _ _ => ?_⟩
    unfold Handle.setBlockSize
    split
    · exact awaitGo_revises rfl hs hd
    · rename_i hb
      exact .blocks _ _ _ hs hd (by simpa using hb)

theorem enterGoCheckReply_revises (hs : h.state = .optCheckReply .go) :
    (enterGoCheckReply inp h).Revisions h := by
  unfold enterGoCheckReply
  refine ite_all.mpr ⟨fun hr => goInfo_revises hs hr, fun hr => ite_all.mpr
    ⟨fun _ => goto_revises rfl rfl, fun _ => ite_all.mpr ⟨fun _ => ?_, fun _ => ?_⟩⟩⟩
  · refine .agreed _ hs ?_
    rw [Handle.described, hs]
    exact if_neg fun h₁ => hr h₁.1
  · refine handleReplyError_revises fun e t => require_all.mpr ⟨fun _ => ?_, fun _ => True.intro⟩
    refine .failed _ ?_
    have hne : orErr (h.setError e t).getErrno enotsup ≠ 0 := by
      unfold orErr
      split
      · decide
      · assumption
    dsimp only
    rw [if_neg fun h₁ => hne h₁.1]
    split <;> rfl

theorem enterExportNameStart_revises : (enterExportNameStart h).Revisions h := by
  refine goto_revises ?_ rfl
  split <;> rfl

theorem enterExportNameCheckReply_revises (hs : h.state = .exportNameCheckReply) :
    (enterExportNameCheckReply h).Revisions h := by
  have hd : h.described = some (h.sbuf.be64 0, h.sbuf.be16 8) := by rw [Handle.described, hs]
  exact setSizeAndFlags_all (fun _ _ => die_revises rfl) (fun _ _ => True.intro)
    fun v _ => .named _ _ hs hd

/-! ## All states -/

theorem enterOptStart_revises {g : OptGroup} (hs : h.state = .optStart g) :
    (enterOptStart inp g h).Revisions h := by
  cases g with
  | starttls => exact enterStarttlsStart_revises
  | extendedHeaders => exact enterExtendedHeadersStart_revises
  | structuredReply => exact enterStructuredReplyStart_revises
  | list => exact enterListStart_revises
  | metaContext => exact enterMetaContextStart_revises
  | go => exact enterGoStart_revises hs

theorem enterOptSendGroup_revises {g : OptGroup} (hs : h.state = .optSend g)
    (hd : h.described = none) : (enterOptSendGroup inp g h).Revisions h := by
  cases g with
  | metaContext =>
    change (enterMetaContextSend inp h).Revisions h
    exact send_revises hd fun _ => goto_revises rfl rfl
  | go =>
    change (enterGoSend inp h).Revisions h
    exact send_revises hd fun _ => revises_within rfl (by rw [hs]; rfl) hd
  | _ => exact send_revises hd fun _ => awaitReply_revises rfl nofun

theorem enterOptCheckReply_revises {g : OptGroup} (hs : h.state = .optCheckReply g) :
    (enterOptCheckReply inp g h).Revisions h := by
  cases g with
  | starttls => exact enterStarttlsCheckReply_revises
  | extendedHeaders => exact enterExtendedHeadersCheckReply_revises
  | structuredReply => exact enterStructuredReplyCheckReply_revises
  | list => exact enterListCheckReply_revises
  | metaContext => exact enterMetaContextCheckReply_revises
  | go => exact enterGoCheckReply_revises hs

theorem enter_revises (inp : Input) (h : Handle) : (enter inp h).Revisions h := by
  have hnone : ∀ {s}, h.state = s → s ≠ .oldstyleCheck → s ≠ .exportNameCheckReply →
      s ≠ .optCheckReply .go → h.described = none := by
    intro s hs h₁ h₂ h₃
    subst hs
    exact described_none h₁ h₂ h₃
  unfold enter
  split <;> rename_i hs
  case h_19 => exact enterOldstyleCheck_revises hs
  case h_32 => exact enterOptCheckReply_revises hs
  case h_51 => exact enterExportNameCheckReply_revises hs
  all_goals have hd := hnone hs nofun nofun nofun
  · exact revises_stay rfl rfl hd
  · exact revises_stay rfl rfl hd
  · exact require_all.mpr ⟨fun _ => revises_stay rfl rfl hd, fun _ => True.intro⟩
  · exact require_all.mpr ⟨fun _ => revises_stay rfl rfl hd, fun _ => True.intro⟩
  · exact revises_stay rfl rfl hd
  · exact enterConnectStart_revises hs
  · exact enterConnectConnecting_revises
  · exact enterConnectTcpStart_revises
  · exact enterConnectTcpConnect_revises
  · exact enterConnectTcpConnecting_revises
  · exact goto_revises rfl rfl
  · exact enterConnectCommandStart_revises
  · exact enterConnectSaStart_revises
  · exact goto_revises rfl rfl
  · exact recv_revises hd fun _ => goto_revises rfl rfl
  · exact enterMagicCheckMagic_revises
  · exact goto_revises rfl rfl
  · exact recv_revises hd fun _ => goto_revises rfl rfl
  · exact enterNewstyleStart_revises
  · exact recv_revises hd fun _ => goto_revises rfl rfl
  · exact enterNewstyleCheckGflags_revises
  · exact enterNewstyleSendCflags_revises hd
  · exact require_all.mpr ⟨fun _ => goto_revises rfl rfl, fun _ => True.intro⟩
  · exact send_revises hd fun _ => goto_revises rfl rfl
  · exact enterNewstyleSendOptionShutdown_revises hd
  · exact revises_within rfl (by rw [hs]; rfl) hd
  · exact enterOptStart_revises hs
  · exact enterOptSendGroup_revises hs hd
  · exact enterOptRecvReply_revises hs hd
  · exact enterOptRecvReplyPayload_revises hs hd
  · exact enterTlsHandshake_revises
  · exact enterTlsHandshake_revises
  · exact enterTlsHandshakeDone_revises
  · exact send_revises hd fun _ => goto_revises rfl rfl
  · exact send_revises hd fun _ => goto_revises rfl rfl
  · exact send_revises hd fun _ => goto_revises rfl rfl
  · exact enterMetaPrepareNextQuery_revises
  · exact send_revises hd fun _ => goto_revises rfl rfl
  · exact send_revises hd fun _ => goto_revises rfl rfl
  · exact awaitReply_revises rfl nofun
  · exact send_revises hd fun _ => revises_within rfl (by rw [hs]; rfl) hd
  · exact send_revises hd fun _ => revises_within rfl (by rw [hs]; rfl) hd
  · exact send_revises hd fun _ => revises_within rfl (by rw [hs]; rfl) hd
  · exact send_revises hd fun _ => revises_within rfl (by rw [hs]; rfl) hd
  · exact enterExportNameStart_revises
  · exact send_revises hd fun _ => goto_revises rfl rfl
  · exact send_revises hd fun _ => goto_revises rfl rfl
  · exact recv_revises hd fun _ => goto_revises rfl rfl

end

/-! ## Calls -/

/-- What a call may do to the values: a new export name forgets the description. -/
inductive CallRevision (s₀ : State) (f : Facts) : State → Facts → Prop
  | same (s : State) (hs : s.stage = 0 ∨ s = s₀) : CallRevision s₀ f s f
  | renamed (hs : s₀.stage = 0) : CallRevision s₀ f s₀ f.reset

def CallRevises (h h' : Handle) : Prop := CallRevision h.state h.facts h'.state h'.facts

section

variable {h h' : Handle}

theorem callRevises_same (hf : h'.facts = h.facts) (hs : h'.state.stage = 0 ∨ h'.state = h.state) :
    CallRevises h h' := by
  unfold CallRevises
  rw [hf]
  exact .same _ hs

theorem externalEvent_stage {ev : ExternalEvent} {s s' : State} (he : externalEvent ev s = some s') :
    s'.stage = 0 ∨ s' = s := by
  cases ev with
  | notifyRead => exact .inr (externalEvent_notifyRead he).2
  | notifyWrite =>
    obtain ⟨-, rfl⟩ | ⟨-, rfl⟩ | ⟨-, hs⟩ := externalEvent_notifyWrite he
    · exact .inl rfl
    · exact .inl rfl
    · exact .inr hs
  | _ =>
    cases s <;> simp_all [externalEvent]
    subst he
    exact .inl rfl

theorem run_revises {ev : ExternalEvent} {keep : Bool} (hf : h'.facts = h.facts)
    (hs : h'.state = h.state) :
    (Submit.run ev keep h').All (fun _ => True) (CallRevises h) (CallRevises h) := by
  refine run_all (fun s he => callRevises_same hf ?_) fun _ _ => callRevises_same hf (.inr hs)
  rw [hs] at he
  exact externalEvent_stage he

theorem callSetter_revises (inp : Input) (s : Setter) :
    (callSetter inp h s).All (fun _ => True) (CallRevises h) (CallRevises h) := by
  have hsame : ∀ {h' : Handle}, h'.facts = h.facts → h'.state = h.state → CallRevises h h' :=
    fun hf hs => callRevises_same hf (.inr hs)
  have herr : ∀ e t, CallRevises h (h.setError e t) := fun _ _ => hsame rfl rfl
  cases s with
  | setHandshakeFlags flags =>
    exact permitted_all herr fun _ => submit_ite_all.mpr ⟨fun _ => herr _ _, fun _ => hsame rfl rfl⟩
  | setExportName name =>
    refine permitted_all herr fun hs => ?_
    have hst : h.state.stage = 0 := by
      rcases State.isConfigurable_iff.mp hs with hs | hs <;> rw [hs] <;> rfl
    unfold setExportName
    exact submit_ite_all.mpr ⟨fun _ => herr _ _, fun _ => submit_ite_all.mpr ⟨fun _ => hsame rfl rfl,
      fun _ => submit_ite_all.mpr ⟨fun _ => herr _ _, fun _ => .renamed hst⟩⟩⟩
  | addMetaContext name =>
    refine permitted_all herr fun _ => ?_
    unfold addMetaContext
    exact submit_ite_all.mpr ⟨fun _ => herr _ _, fun _ => submit_ite_all.mpr ⟨fun _ => herr _ _,
      fun _ => submit_ite_all.mpr ⟨fun _ => herr _ _, fun _ => hsame rfl rfl⟩⟩⟩
  | _ => exact permitted_all herr fun _ => hsame rfl rfl

theorem submit_revises (inp : Input) (api : Api) :
    (submit inp h api).All (fun _ => True) (CallRevises h) (CallRevises h) := by
  have herr : ∀ e t, CallRevises h (h.setError e t) := fun _ _ => callRevises_same rfl (.inr rfl)
  have hfixed : ∀ opt completion, (fixedOption h opt completion).All (fun _ => True) (CallRevises h)
      (CallRevises h) := fun _ _ =>
    permitted_all herr fun _ => needFixed_all herr fun _ => run_revises rfl rfl
  have hmeta : ∀ opt queries context completion,
      (aioOptMetaContextQueries inp h opt queries context completion).All (fun _ => True)
        (CallRevises h) (CallRevises h) := by
    intro opt queries context completion
    have hq : (setQuerylist inp h queries).1.facts = h.facts ∧
        (setQuerylist inp h queries).1.state = h.state := by
      simp only [setQuerylist]
      split <;> exact ⟨rfl, rfl⟩
    refine permitted_all herr fun _ => needCallback_all herr fun _ => needFixed_all herr fun _ => ?_
    exact submit_ite_all.mpr ⟨fun _ => callRevises_same hq.1 (.inr hq.2), fun _ =>
      submit_ite_all.mpr ⟨fun _ => run_revises hq.1 hq.2, fun _ => trivial⟩⟩
  cases api with
  | set s => exact callSetter_revises inp s
  | aioConnect addr =>
    refine permitted_all herr fun _ => ?_
    cases addr with
    | sockAddr => exact run_revises rfl rfl
    | tcp => exact submit_ite_all.mpr ⟨fun _ => run_revises rfl rfl, fun _ => herr _ _⟩
    | command => exact submit_ite_all.mpr ⟨fun _ => run_revises rfl rfl, fun _ => herr _ _⟩
    | systemdSocketActivation =>
      exact submit_ite_all.mpr ⟨fun _ => run_revises rfl rfl, fun _ => herr _ _⟩
    | socket => exact submit_ite_all.mpr ⟨fun _ => run_revises rfl rfl, fun _ => herr _ _⟩
  | aioOptGo completion => exact permitted_all herr fun _ => run_revises rfl rfl
  | aioOptInfo completion => exact hfixed _ _
  | aioOptAbort => exact permitted_all herr fun _ => run_revises rfl rfl
  | aioOptStarttls completion => exact hfixed _ _
  | aioOptExtendedHeaders completion => exact hfixed _ _
  | aioOptStructuredReply completion => exact hfixed _ _
  | aioOptList list completion =>
    exact permitted_all herr fun _ => needCallback_all herr fun _ => needFixed_all herr fun _ =>
      submit_ite_all.mpr ⟨fun _ => run_revises rfl rfl, fun _ => trivial⟩
  | aioOptListMetaContext queries context completion => exact hmeta _ _ _ _
  | aioOptSetMetaContext queries context completion => exact hmeta _ _ _ _
  | aioNotifyRead => exact run_revises rfl rfl
  | aioNotifyWrite => exact run_revises rfl rfl

/-- One step of the system revises the values as a state's code or as a call does,
or leaves the handle as it is because the process dies. -/
theorem step_revises {c c' : Config} {l : Label} (hstep : machine.step c l = some c') :
    match l with
    | .enter _ => Revises c.h c'.h ∨ c'.h = c.h ∧ ∃ a, c'.ctl = .aborted a
    | .call _ _ => CallRevises c.h c'.h := by
  obtain ⟨h, ctl⟩ := c
  cases l with
  | enter inp =>
    cases ctl with
    | idle ret => cases hstep
    | aborted a => cases hstep
    | running keep =>
      cases hstep
      have hall := enter_revises inp h
      simp only [stepEnter]
      cases he : enter inp h with
      | next h' => rw [he] at hall; exact .inl hall
      | block h' => rw [he] at hall; exact .inl hall
      | fail h' => rw [he] at hall; exact .inl hall
      | abort a => exact .inr ⟨rfl, a, rfl⟩
  | call api inp =>
    cases ctl with
    | running keep => cases hstep
    | aborted a => cases hstep
    | idle ret =>
      cases hstep
      have hall := submit_revises inp api (h := { h with lastError := inp.lastError })
      simp only [stepCall]
      cases hsub : submit inp { h with lastError := inp.lastError } api with
      | refused h' => rw [hsub] at hall; exact hall
      | done h' => rw [hsub] at hall; exact hall
      | abort a => exact callRevises_same rfl (.inr rfl)
      | run ev keep h' =>
        rw [hsub] at hall
        simp only [afterSubmit, startRun]
        cases hev : externalEvent ev h'.state with
        | none => exact hall.2 hev einval _
        | some s => exact hall.1 s hev

end

end Libnbd.Negotiation
