import Libnbd.Negotiation.Rules

/-!
Which option can be in progress in which state, and who holds its callbacks.

`Shape` is the invariant behind the assertions of the negotiation states: the
value of `h->opt_current` fits the state, the option sub-machines run only with
fixed newstyle, and `h->opt_cb` is empty wherever no option is in progress.
`reachable_shape` proves it of every reachable handle, together with the fact
that none of the assertions of these states can fail.
-/

namespace Libnbd.Negotiation

open Lib

/-! ## Option and state -/

/-- The values of `opt_mode` and `h->opt_current` in an option sub-machine. -/
def GroupOk (mode : Bool) (cur : Option Opt) : OptGroup → Prop
  | .starttls => cur = none ∨ mode = true ∧ cur = some .starttls
  | .extendedHeaders => cur = none ∨ mode = true ∧ cur = some .extendedHeaders
  | .structuredReply => cur = none ∨ mode = true ∧ cur = some .structuredReply
  | .list => mode = true ∧ cur = some .list
  | .metaContext =>
    mode = false ∧ cur = none ∨
      mode = true ∧ (cur = some .go ∨ cur = some .info ∨ cur = some .listMetaContext ∨
        cur = some .setMetaContext)
  | .go => cur = some .go ∨ mode = true ∧ cur = some .info

/-- The values of `opt_mode` and `h->opt_current` in a state. -/
def CurrentOk (mode : Bool) (cur : Option Opt) : State → Prop
  | .newstyleStart => cur = none ∨ mode = true ∧ cur ≠ some .exportName
  | .negotiating => mode = true ∧ cur ≠ some .exportName
  | .optStart .go => mode = false ∧ cur = none ∨ mode = true ∧ (cur = some .go ∨ cur = some .info)
  | .optStart g | .optSend g | .optRecvReply g | .optRecvReplyPayload g | .optCheckReply g =>
    GroupOk mode cur g
  | .tlsHandshakeRead | .tlsHandshakeWrite | .tlsHandshakeDone => GroupOk mode cur .starttls
  | .metaSendExportnamelen | .metaSendExportname | .metaSendNrqueries | .metaPrepareNextQuery
  | .metaSendQuerylen | .metaSendQuery | .metaPrepareForReply => GroupOk mode cur .metaContext
  | .goSendExportnamelen | .goSendExport | .goSendNrinfos | .goSendInfo => GroupOk mode cur .go
  | .exportNameStart | .exportNameSend | .exportNameSendExport | .exportNameRecvReply
  | .exportNameCheckReply =>
    mode = false ∧ cur = none ∨ cur = some .go ∨ mode = true ∧ cur = some .info
  | .ready | .dead | .closed | .newstylePrepareOptAbort | .newstyleSendOptAbort
  | .newstyleSendOptionShutdown | .newstyleFinished => True
  | _ => cur = none

namespace State

/-- The states before the global flags are known. -/
def isFresh : State → Bool
  | start | connectStart | connectConnecting | connectTcpStart | connectTcpConnect
  | connectTcpConnecting | connectTcpNextAddress | connectCommandStart | connectSaStart
  | magicStart | magicRecvMagic | magicCheckMagic | oldstyleStart | oldstyleRecvRemaining
  | oldstyleCheck | newstyleRecvGflags | newstyleCheckGflags => true
  | _ => false

/-- The states that are entered only with fixed newstyle. -/
def needsFixed : State → Bool
  | optStart _ | optSend _ | optRecvReply _ | optRecvReplyPayload _ | optCheckReply _
  | tlsHandshakeRead | tlsHandshakeWrite | tlsHandshakeDone | metaSendExportnamelen
  | metaSendExportname | metaSendNrqueries | metaPrepareNextQuery | metaSendQuerylen
  | metaSendQuery | metaPrepareForReply | goSendExportnamelen | goSendExport | goSendNrinfos
  | goSendInfo | newstylePrepareOptAbort => true
  | _ => false

/-- The states in which no option is in progress. -/
def isQuiet : State → Bool
  | negotiating | ready | newstyleFinished => true
  | _ => false

/-- The states in which a list or context callback is still to be called. -/
def usesFn : State → Bool
  | newstyleStart | optStart .list | optSend .list | optRecvReply .list
  | optRecvReplyPayload .list | optCheckReply .list | optStart .metaContext | optSend .metaContext
  | optRecvReply .metaContext | optRecvReplyPayload .metaContext | optCheckReply .metaContext
  | metaSendExportnamelen | metaSendExportname | metaSendNrqueries | metaPrepareNextQuery
  | metaSendQuerylen | metaSendQuery | metaPrepareForReply => true
  | _ => false

/-- The states in which a metadata context exchange is in progress. -/
def isAsking : State → Bool
  | optSend .metaContext | optRecvReply .metaContext | optRecvReplyPayload .metaContext
  | optCheckReply .metaContext | metaSendExportnamelen | metaSendExportname | metaSendNrqueries
  | metaPrepareNextQuery | metaSendQuerylen | metaSendQuery | metaPrepareForReply => true
  | _ => false

/-- The states in which the export has been or is about to be described. -/
def isDescribing : State → Bool
  | optStart .go | optSend .go | optRecvReply .go | optRecvReplyPayload .go | optCheckReply .go
  | goSendExportnamelen | goSendExport | goSendNrinfos | goSendInfo
  | exportNameStart | exportNameSend | exportNameSendExport | exportNameRecvReply
  | exportNameCheckReply => true
  | _ => false

/-- The states of a connection that has its socket. -/
def hasSock : State → Bool
  | start | connectStart | connectTcpStart | connectTcpConnect | connectTcpNextAddress
  | connectCommandStart | connectSaStart | dead | closed => false
  | _ => true

/-- The states that open a socket, and those before them. -/
def opensSock : State → Bool
  | start | connectStart | connectTcpStart | connectTcpConnect | connectCommandStart | connectSaStart => true
  | _ => false

end State

/-! ## The invariant -/

/-- The fields that decide which option is in progress. -/
structure Core where
  cfg : Settings
  gflags : UInt16
  optCurrent : Option Opt
  optCb : OptCb
  metaContexts : List (CString × UInt32)
  structuredReplies : Bool
  sock : Bool

def Handle.core (h : Handle) : Core where
  cfg := h.cfg
  gflags := h.gflags
  optCurrent := h.optCurrent
  optCb := h.optCb
  metaContexts := h.exp.metaContexts
  structuredReplies := h.exp.structuredReplies
  sock := h.sock

namespace Core

def isFixed (c : Core) : Bool := c.gflags &&& flagFixedNewstyle != 0

def freesFn (c : Core) : Bool :=
  c.optCurrent == some .list || c.optCurrent == some .listMetaContext ||
    c.optCurrent == some .setMetaContext

def nothingRequested (c : Core) : Bool :=
  c.cfg.requestMeta && (!c.structuredReplies || c.cfg.requestMetaContexts.isEmpty)

/-- `h->opt_cb` holds nothing. -/
def released (c : Core) : Bool := c.optCb.fn.isNull && c.optCb.completion.isNull

/-- `h->opt_cb` after `nbd_internal_free_option`. -/
def release (c : Core) : Core :=
  { c with optCb := { c.optCb with
      fn := if c.freesFn then .null else c.optCb.fn
      completion := .null } }

end Core

/-- What holds in a state at any time. -/
structure Shape (c : Core) (s : State) : Prop where
  current : CurrentOk c.cfg.optMode c.optCurrent s
  fixed : s.needsFixed = true → c.isFixed = true
  quiet : s.isQuiet = true → c.released = true
  auto : c.optCurrent = none ∨ c.cfg.optMode = false → c.released = true
  frees : c.optCb.fn.isNull = false → c.freesFn = true
  uses : s.usesFn = true → c.freesFn = true → c.optCb.fn.isNull = false
  contexts : s.isFresh = true ∨ c.isFixed = false ∨
    c.optCurrent = none ∧ (c.cfg.optMode = true ∨ s = .newstyleStart) → c.metaContexts = []
  asking : s.isAsking = true → c.freesFn = false → c.nothingRequested = false
  describing : s.isDescribing = true → c.nothingRequested = true → c.metaContexts = []
  asked : s = .newstyleStart → c.optCurrent ≠ none → c.optCurrent ≠ some .go →
    c.optCurrent ≠ some .abort → c.isFixed = true
  sock : s.hasSock = true → c.sock = true

/-- While a call is running. -/
structure RunShape (h : Handle) : Prop where
  shape : Shape h.core h.state
  opens : h.state.opensSock = true → h.sock = false

/-- Between calls. -/
structure RestShape (h : Handle) : Prop where
  shape : Shape h.core h.state
  ended : h.state = .dead ∨ h.state = .closed → h.core.released = true
  start : h.state = .start → h.sock = false
  connecting : h.state = .connectStart ∨ h.state = .connectTcpConnect → h.sock = true

/-- The faults that the invariant does not rule out: those about the payload of
an option reply, and `DEAD` entered by a thread that has seen no error. -/
def Residual : Abort → Prop
  | .payloadOverread | .payloadOverwrite | .lengthUnderflow | .contextLen | .infoLen
  | .infoRbuf | .deadError => True
  | _ => False

/-! ## Moving to another state -/

namespace Shape

variable {c : Core} {s s' : State}

/-- A change of state that asks for nothing that did not hold before, except
about the callbacks. -/
def Covers (s s' : State) : Bool :=
  (!s'.needsFixed || s.needsFixed) && (!s'.isFresh || s.isFresh) && s' != .newstyleStart &&
    (!s'.isAsking || s.isAsking) && (!s'.isDescribing || s.isDescribing) &&
    (!s'.hasSock || s.hasSock)

/-- The same option goes on, with what the new state asks for beyond the old. -/
theorem move (hS : Shape c s) (hcov : Covers s s' = true)
    (hcur : CurrentOk c.cfg.optMode c.optCurrent s')
    (hquiet : s'.isQuiet = true → c.released = true)
    (huses : s'.usesFn = true → c.freesFn = true → s.usesFn = true) : Shape c s' := by
  simp only [Covers, Bool.and_eq_true, Bool.or_eq_true, Bool.not_eq_true', bne_iff_ne, ne_eq]
    at hcov
  obtain ⟨⟨⟨⟨⟨h₁, h₂⟩, h₃⟩, h₄⟩, h₅⟩, h₆⟩ := hcov
  refine ⟨hcur, fun h => hS.fixed ?_, hquiet, hS.auto, hS.frees, fun h h' => hS.uses (huses h h') h',
    fun h => hS.contexts ?_, fun h => hS.asking ?_, fun h => hS.describing ?_,
    fun h => absurd h h₃, fun h => hS.sock ?_⟩
  · simpa [h] using h₁
  · rcases h with h | h | ⟨h, h' | h'⟩
    · exact .inl (by simpa [h] using h₂)
    · exact .inr (.inl h)
    · exact .inr (.inr ⟨h, .inl h'⟩)
    · exact absurd h' h₃
  · simpa [h] using h₄
  · simpa [h] using h₅
  · simpa [h] using h₆

/-- What is known of the contexts does not depend on the state later on. -/
theorem contexts_late (hS : Shape c s) (hfresh : s'.isFresh = false) (hne : s' ≠ .newstyleStart)
    (h : s'.isFresh = true ∨ c.isFixed = false ∨
      c.optCurrent = none ∧ (c.cfg.optMode = true ∨ s' = .newstyleStart)) : c.metaContexts = [] := by
  apply hS.contexts
  rcases h with h | h | ⟨h, h' | h'⟩
  · rw [hfresh] at h
    cases h
  · exact .inr (.inl h)
  · exact .inr (.inr ⟨h, .inl h'⟩)
  · exact absurd h' hne

theorem toDead (hS : Shape c s) : Shape c .dead :=
  hS.move (by cases s <;> rfl) trivial (fun h => by cases h) (fun h => by cases h)

theorem toClosed (hS : Shape c s) : Shape c .closed :=
  hS.move (by cases s <;> rfl) trivial (fun h => by cases h) (fun h => by cases h)

theorem null_isNull : Closure.null.isNull = true := rfl

/-- Freeing the option leaves no callback behind. -/
theorem release_fn (hS : Shape c s) : c.release.optCb.fn.isNull = true := by
  unfold Core.release
  cases hf : c.freesFn with
  | true => simp [null_isNull]
  | false =>
    have hfn : c.optCb.fn.isNull = true := by
      by_contra hne
      have := hS.frees (by simpa using hne)
      rw [hf] at this
      cases this
    simpa using hfn

theorem released_release (hS : Shape c s) : c.release.released = true := by
  unfold Core.released
  rw [hS.release_fn]
  rfl

/-- The option is completed and its callbacks are freed. -/
theorem release (hS : Shape c s) (hcov : Covers s s' = true)
    (hcur : CurrentOk c.cfg.optMode c.optCurrent s')
    (huses : s'.usesFn = true → c.freesFn = false) : Shape c.release s' := by
  simp only [Covers, Bool.and_eq_true, Bool.or_eq_true, Bool.not_eq_true', bne_iff_ne, ne_eq]
    at hcov
  obtain ⟨⟨⟨⟨⟨h₁, h₂⟩, h₃⟩, h₄⟩, h₅⟩, h₆⟩ := hcov
  have hrel := hS.released_release
  have hfn := hS.release_fn
  refine ⟨hcur, fun h => hS.fixed ?_, fun _ => hrel, fun _ => hrel, fun h => ?_, fun h h' => ?_,
    fun h => hS.contexts ?_, fun h => hS.asking ?_, fun h => hS.describing ?_,
    fun h => absurd h h₃, fun h => hS.sock ?_⟩
  · simpa [h] using h₁
  · rw [hfn] at h
    cases h
  · rw [show c.release.freesFn = c.freesFn from rfl, huses h] at h'
    cases h'
  · rcases h with h | h | ⟨h, h' | h'⟩
    · exact .inl (by simpa [h] using h₂)
    · exact .inr (.inl h)
    · exact .inr (.inr ⟨h, .inl h'⟩)
    · exact absurd h' h₃
  · simpa [h] using h₄
  · simpa [h] using h₅
  · simpa [h] using h₆

end Shape

variable {inp : Input} {h : Handle}

theorem RunShape.toDead {s : State} (hS : Shape h.core s) (hs : h.state = .dead) :
    RunShape h := by
  refine ⟨?_, ?_⟩
  · rw [hs]
    exact hS.toDead
  · rw [hs]
    exact nofun

/-- The states that leave the handle in neither a final nor an initial state. -/
def State.isBetween : State → Bool
  | start | dead | closed => false
  | s => !s.opensSock

theorem RunShape.of_shape (hS : Shape h.core h.state) (hb : h.state.isBetween = true) :
    RunShape h := by
  refine ⟨hS, fun h' => ?_⟩
  cases hs : h.state <;> simp_all [State.isBetween, State.opensSock]

theorem RestShape.of_shape (hS : Shape h.core h.state) (hb : h.state.isBetween = true) :
    RestShape h := by
  refine ⟨hS, fun h' => ?_, fun h' => ?_, fun h' => ?_⟩
  · rcases h' with h' | h' <;> simp [h', State.isBetween] at hb
  · simp [h', State.isBetween] at hb
  · rcases h' with h' | h' <;> simp [h', State.isBetween, State.opensSock] at hb

theorem recv_shape {k : Handle → Outcome} (hS : RunShape h) (hb : h.state.isBetween = true)
    (hk : ∀ bs, bs.length = h.rlen → (k (h.store bs)).All Residual RunShape RestShape) :
    (recvThen inp k h).All Residual RunShape RestShape :=
  recvThen_all (fun _ _ => .toDead (h := { h with lastError := _, state := .dead }) hS.shape rfl)
    (fun _ _ => RestShape.of_shape hS.shape hb) hk

theorem send_shape {k : Handle → Outcome} (hS : RunShape h) (hb : h.state.isBetween = true)
    (hk : ∀ n, h.wbuf.length ≤ n → (k { h.advance n with wflags := false }).All Residual RunShape RestShape) :
    (sendThen inp k h).All Residual RunShape RestShape :=
  sendThen_all (fun _ _ => .toDead (h := { h with lastError := _, state := .dead }) hS.shape rfl)
    (fun _ => RestShape.of_shape hS.shape hb) hk

/-! ## Connecting and the handshake -/

/-- The handle has or gets a socket. -/
theorem Shape.withSock {c : Core} {s : State} (hS : Shape c s) : Shape { c with sock := true } s :=
  ⟨hS.current, hS.fixed, hS.quiet, hS.auto, hS.frees, hS.uses, hS.contexts, hS.asking,
    hS.describing, hS.asked, fun _ => rfl⟩

theorem Shape.withoutSock {c : Core} {s : State} (hS : Shape c s) (hs : s.hasSock = false) :
    Shape { c with sock := false } s :=
  ⟨hS.current, hS.fixed, hS.quiet, hS.auto, hS.frees, hS.uses, hS.contexts, hS.asking,
    hS.describing, hS.asked, fun h => by rw [hs] at h; cases h⟩

theorem State.fresh_spec {s : State} (hs : s.isFresh = true) (mode : Bool) (cur : Option Opt) :
    (CurrentOk mode cur s ↔ cur = none) ∧ s.isQuiet = false ∧ s.usesFn = false := by
  cases s <;> simp_all [State.isFresh, CurrentOk, State.isQuiet, State.usesFn]

/-- Between states that know of no option yet. -/
theorem Shape.fresh {c : Core} {s s' : State} (hS : Shape c s) (hs : s.isFresh = true)
    (hcov : Shape.Covers s s' = true) (hs' : s'.isFresh = true) : Shape c s' := by
  obtain ⟨hcur, -, -⟩ := State.fresh_spec hs c.cfg.optMode c.optCurrent
  obtain ⟨hcur', hquiet, huses⟩ := State.fresh_spec hs' c.cfg.optMode c.optCurrent
  refine hS.move hcov (hcur'.mpr (hcur.mp hS.current)) ?_ ?_
  · simp [hquiet]
  · simp [huses]

/-- The socket is there and the handshake starts. -/
theorem Shape.connected {c : Core} {s : State} (hS : Shape c s) (hs : s.isFresh = true) :
    Shape { c with sock := true } .magicStart := by
  obtain ⟨hcur, -, -⟩ := State.fresh_spec hs c.cfg.optMode c.optCurrent
  exact ⟨hcur.mp hS.current, nofun, nofun, hS.auto, hS.frees, nofun,
    fun _ => hS.contexts (.inl hs), nofun, nofun, nofun, fun _ => rfl⟩

/-- `NEWSTYLE.START` hands an option to its sub-machine. -/
theorem Shape.dispatch {c : Core} (hS : Shape c .newstyleStart) {s : State}
    (hcur : CurrentOk c.cfg.optMode c.optCurrent s) (hfixed : s.needsFixed = true → c.isFixed = true)
    (hquiet : s.isQuiet = false) (hfresh : s.isFresh = false) (hne : s ≠ .newstyleStart)
    (hask : s.isAsking = false) (hdesc : s.isDescribing = true → c.metaContexts = []) : Shape c s := by
  refine ⟨hcur, hfixed, fun h => ?_, hS.auto, hS.frees, fun _ => hS.uses rfl, fun h => hS.contexts ?_,
    fun h => ?_, fun h _ => hdesc h, fun h => absurd h hne, fun _ => hS.sock rfl⟩
  · rw [hquiet] at h
    cases h
  · rcases h with h | h | ⟨h, h' | h'⟩
    · rw [hfresh] at h
      cases h
    · exact .inr (.inl h)
    · exact .inr (.inr ⟨h, .inl h'⟩)
    · exact absurd h' hne
  · rw [hask] at h
    cases h

section States

variable (inp) (hS : RunShape h)

include hS

theorem enterConnectStart_shape (hs : h.state = .connectStart) :
    (enterConnectStart inp h).All Residual RunShape RestShape := by
  have hsock : h.sock = false := hS.opens (by rw [hs]; rfl)
  have h₁ := hS.shape
  simp only [enterConnectStart, require_all, ite_all, die_all, block_all]
  refine ⟨fun _ => ⟨fun _ => .toDead h₁ rfl, fun _ => ⟨fun _ => .toDead h₁ rfl, fun _ =>
    ⟨fun _ => ?_, fun _ => .toDead h₁.withSock rfl⟩⟩⟩, ?_⟩
  · exact ⟨h₁.withSock, by simp [hs], by simp [hs], fun _ => rfl⟩
  · simp [hsock]

theorem enterConnectConnecting_shape (hs : h.state = .connectConnecting) :
    (enterConnectConnecting inp h).All Residual RunShape RestShape := by
  have h₁ := hS.shape
  unfold enterConnectConnecting
  split
  · exact .toDead h₁ rfl
  · refine ite_all.mpr ⟨fun _ => .of_shape ?_ rfl, fun _ => .toDead h₁ rfl⟩
    rw [hs] at h₁
    exact h₁.fresh rfl rfl rfl

theorem enterConnectTcpStart_shape (hs : h.state = .connectTcpStart) :
    (enterConnectTcpStart inp h).All Residual RunShape RestShape := by
  have h₁ := hS.shape
  have hsock : h.sock = false := hS.opens (by rw [hs]; rfl)
  rw [hs] at h₁
  unfold enterConnectTcpStart
  split
  · exact ⟨h₁.fresh rfl rfl rfl, by simp, fun _ => hsock, by simp⟩
  · exact ⟨h₁.fresh rfl rfl rfl, fun _ => hsock⟩

theorem enterConnectTcpConnect_shape (hs : h.state = .connectTcpConnect) :
    (enterConnectTcpConnect inp h).All Residual RunShape RestShape := by
  have h₁ := hS.shape
  have hsock : h.sock = false := hS.opens (by rw [hs]; rfl)
  rw [hs] at h₁
  have h₂ : Shape h.core .connectTcpNextAddress := h₁.fresh rfl rfl rfl
  have h₃ : Shape { h.core with sock := true } .connectTcpConnecting := h₂.connected rfl |>.fresh rfl rfl rfl
  simp only [enterConnectTcpConnect, require_all, ite_all, die_all, goto_all, fail_all]
  refine ⟨fun _ => ⟨fun _ => ?_, fun _ => ⟨fun _ => ?_, fun _ => ⟨fun _ => .toDead h₁ rfl,
    fun _ => ⟨fun _ => ?_, fun _ => ?_⟩⟩⟩⟩, ?_⟩
  · exact ⟨h₁.fresh rfl rfl rfl, by simp, fun _ => hsock, by simp⟩
  · exact .of_shape h₂ rfl
  · exact .of_shape h₃ rfl
  · exact .of_shape h₂.withSock rfl
  · simp [hsock]

theorem enterConnectTcpConnecting_shape (hs : h.state = .connectTcpConnecting) :
    (enterConnectTcpConnecting inp h).All Residual RunShape RestShape := by
  have h₁ := hS.shape
  rw [hs] at h₁
  unfold enterConnectTcpConnecting
  split
  · exact .toDead h₁ rfl
  · refine ite_all.mpr ⟨fun _ => .of_shape ?_ rfl, fun _ => .of_shape ?_ rfl⟩
    · exact h₁.fresh rfl rfl rfl
    · exact h₁.fresh rfl rfl rfl

theorem enterConnectTcpNextAddress_shape (hs : h.state = .connectTcpNextAddress) :
    (enterConnectTcpNextAddress h).All Residual RunShape RestShape := by
  have h₁ := hS.shape
  rw [hs] at h₁
  exact ⟨(h₁.withoutSock rfl).fresh rfl rfl rfl, fun _ => rfl⟩

theorem enterConnectCommandStart_shape (hs : h.state = .connectCommandStart) :
    (enterConnectCommandStart inp h).All Residual RunShape RestShape := by
  have h₁ := hS.shape
  have hsock : h.sock = false := hS.opens (by rw [hs]; rfl)
  rw [hs] at h₁
  simp only [enterConnectCommandStart, require_all, ite_all, die_all, goto_all]
  refine ⟨fun _ => ⟨fun _ => .of_shape (h₁.connected rfl) rfl, fun _ => .toDead h₁ rfl⟩, ?_⟩
  simp [hsock]

theorem enterConnectSaStart_shape (hs : h.state = .connectSaStart) :
    (enterConnectSaStart inp h).All Residual RunShape RestShape := by
  have h₁ := hS.shape
  have hsock : h.sock = false := hS.opens (by rw [hs]; rfl)
  rw [hs] at h₁
  simp only [enterConnectSaStart, require_all, ite_all, die_all, goto_all]
  refine ⟨fun _ => ⟨fun _ => ⟨h₁.fresh rfl rfl rfl, fun _ => hsock⟩,
    fun _ => .toDead h₁ rfl⟩, ?_⟩
  simp [hsock]

theorem enterMagicCheckMagic_shape (hs : h.state = .magicCheckMagic) :
    (enterMagicCheckMagic h).All Residual RunShape RestShape := by
  have h₁ := hS.shape
  rw [hs] at h₁
  have hcur : h.optCurrent = none := h₁.current
  simp only [enterMagicCheckMagic, require_all, ite_all, die_all, goto_all]
  refine ⟨fun _ => .toDead h₁ rfl, fun _ => ⟨fun _ => ⟨fun _ => .of_shape ?_ rfl, ?_⟩, fun _ =>
    ⟨fun _ => .of_shape (h₁.fresh rfl rfl rfl) rfl, fun _ => .toDead h₁ rfl⟩⟩⟩
  · exact ⟨.inl hcur, of_false_eq_true, of_false_eq_true, h₁.auto, h₁.frees, fun _ hf => by simp [Core.freesFn, Handle.core, hcur] at hf,
      fun _ => h₁.contexts (.inl rfl), of_false_eq_true, of_false_eq_true, fun _ hne => absurd hcur hne,
      fun _ => h₁.sock rfl⟩
  · simp [hcur]

theorem enterOldstyleCheck_shape (hs : h.state = .oldstyleCheck) :
    (enterOldstyleCheck h).All Residual RunShape RestShape := by
  have h₁ := hS.shape
  rw [hs] at h₁
  have hctx := h₁.contexts (.inl rfl)
  have h₂ : ∀ g : UInt16, Shape { h.core with gflags := g } .oldstyleCheck := fun g =>
    ⟨h₁.current, of_false_eq_true, of_false_eq_true, h₁.auto, h₁.frees, of_false_eq_true, fun _ => hctx, of_false_eq_true, of_false_eq_true, (by simp),
      h₁.sock⟩
  have hauto := h₁.auto (.inl h₁.current)
  simp only [enterOldstyleCheck, ite_all, die_all]
  refine ⟨fun _ => .toDead h₁ rfl, fun _ => ⟨fun _ => .toDead (h₂ _) rfl, fun _ => ?_⟩⟩
  refine setSizeAndFlags_all (fun _ _ => .toDead (h₂ _) rfl) ?_ fun v hv => .of_shape ?_ rfl
  · exact fun _ hne => absurd hctx hne
  · exact ⟨trivial, of_false_eq_true, fun _ => hauto, h₁.auto, h₁.frees, of_false_eq_true, fun _ => hctx, of_false_eq_true, of_false_eq_true,
      (by simp), fun _ => h₁.sock rfl⟩

theorem newstyleGflags_shape (hs : h.state = .newstyleStart) (hcur : h.optCurrent = none) :
    (newstyleGflags h).All Residual RunShape RestShape := by
  have h₁ := hS.shape
  rw [hs] at h₁
  simp only [newstyleGflags, require_all, goto_all]
  refine ⟨fun _ => .of_shape ?_ rfl, by simp [hcur]⟩
  exact ⟨hcur, of_false_eq_true, of_false_eq_true, h₁.auto, h₁.frees, of_false_eq_true,
    fun _ => h₁.contexts (.inr (.inr ⟨hcur, .inr rfl⟩)), of_false_eq_true, of_false_eq_true, (by simp), fun _ => h₁.sock rfl⟩

theorem enterNewstyleStart_shape (hs : h.state = .newstyleStart) :
    (enterNewstyleStart h).All Residual RunShape RestShape := by
  have h₁ := hS.shape
  rw [hs] at h₁
  have hasked := h₁.asked rfl
  have hcur : h.optCurrent = none ∨ h.cfg.optMode = true ∧ h.optCurrent ≠ some .exportName :=
    h₁.current
  -- An option that needs fixed newstyle was accepted only with it.
  have hfixed : ∀ o, h.optCurrent = some o → o ≠ .go → o ≠ .abort → h.core.isFixed = true := by
    intro o ho hgo hab
    exact hasked (by simp [Handle.core, ho]) (by simpa [Handle.core, ho] using hgo)
      (by simpa [Handle.core, ho] using hab)
  unfold enterNewstyleStart
  refine ite_all.mpr ⟨fun hm => ?_, fun hm => ?_⟩
  · have hmode : h.core.cfg.optMode = true := hm
    have hunfixed : ¬ h.isFixed = true → h.core.metaContexts = [] := fun hf =>
      h₁.contexts (.inr (.inl (by simpa [Handle.core, Core.isFixed, Handle.isFixed] using hf)))
    have hgo : ∀ o, h.optCurrent = some o → o = .go ∨ o = .info →
        (if h.isFixed then goto (.optStart .metaContext) h else goto .exportNameStart h).All
          Residual RunShape RestShape := by
      intro o ho hgi
      have hc : h.core.optCurrent = some .go ∨ h.core.optCurrent = some .info := by
        rcases hgi with rfl | rfl
        · exact .inl ho
        · exact .inr ho
      refine ite_all.mpr ⟨fun hf => .of_shape ?_ rfl, fun hf => .of_shape ?_ rfl⟩
      · exact h₁.dispatch (.inr ⟨hmode, hc.elim .inl fun h => .inr (.inl h)⟩) (fun _ => hf) rfl rfl
          nofun rfl nofun
      · exact h₁.dispatch (.inr (hc.elim .inl fun h => .inr ⟨hmode, h⟩)) nofun rfl rfl nofun rfl
          fun _ => hunfixed hf
    cases ho : h.optCurrent with
    | none => exact newstyleGflags_shape hS hs ho
    | some o =>
      have ho' : h.core.optCurrent = some o := ho
      cases o with
      | go => exact hgo _ ho (.inl rfl)
      | info => exact hgo _ ho (.inr rfl)
      | list =>
        exact .of_shape (h₁.dispatch ⟨hmode, ho'⟩ (fun _ => hfixed _ ho nofun nofun) rfl rfl nofun rfl
          nofun) rfl
      | abort =>
        refine ite_all.mpr ⟨fun hf => .of_shape ?_ rfl, fun _ => .toDead h₁ rfl⟩
        exact h₁.dispatch trivial (fun _ => hf) rfl rfl nofun rfl nofun
      | listMetaContext =>
        exact .of_shape (h₁.dispatch (.inr ⟨hmode, .inr (.inr (.inl ho'))⟩)
          (fun _ => hfixed _ ho nofun nofun) rfl rfl nofun rfl nofun) rfl
      | setMetaContext =>
        exact .of_shape (h₁.dispatch (.inr ⟨hmode, .inr (.inr (.inr ho'))⟩)
          (fun _ => hfixed _ ho nofun nofun) rfl rfl nofun rfl nofun) rfl
      | structuredReply =>
        exact .of_shape (h₁.dispatch (.inr ⟨hmode, ho'⟩) (fun _ => hfixed _ ho nofun nofun) rfl rfl
          nofun rfl nofun) rfl
      | extendedHeaders =>
        exact .of_shape (h₁.dispatch (.inr ⟨hmode, ho'⟩) (fun _ => hfixed _ ho nofun nofun) rfl rfl
          nofun rfl nofun) rfl
      | starttls =>
        exact .of_shape (h₁.dispatch (.inr ⟨hmode, ho'⟩) (fun _ => hfixed _ ho nofun nofun) rfl rfl
          nofun rfl nofun) rfl
      | exportName =>
        rcases hcur with hn | ⟨-, hn⟩
        · rw [ho] at hn
          cases hn
        · exact absurd ho hn
  · rcases hcur with hn | ⟨hm', -⟩
    · exact newstyleGflags_shape hS hs hn
    · exact absurd hm' hm

theorem enterNewstyleCheckGflags_shape (hs : h.state = .newstyleCheckGflags) :
    (enterNewstyleCheckGflags h).All Residual RunShape RestShape := by
  have h₁ := hS.shape
  rw [hs] at h₁
  have hctx := h₁.contexts (.inl rfl)
  have h₂ : ∀ g : UInt16, ∀ s : State, s = .newstyleCheckGflags ∨ s = .newstyleSendCflags →
      Shape { h.core with gflags := g } s := by
    rintro g s (rfl | rfl)
    · exact ⟨h₁.current, nofun, nofun, h₁.auto, h₁.frees, nofun, fun _ => hctx, nofun, nofun, nofun,
        h₁.sock⟩
    · exact ⟨h₁.current, nofun, nofun, h₁.auto, h₁.frees, nofun, fun _ => hctx, nofun, nofun, nofun,
        fun _ => h₁.sock rfl⟩
  simp only [enterNewstyleCheckGflags, ite_all, die_all, goto_all]
  exact ⟨fun _ => .toDead (h₂ _ _ (.inl rfl)) rfl, fun _ => .of_shape (h₂ _ _ (.inr rfl)) rfl⟩

theorem enterNewstyleSendCflags_shape (hs : h.state = .newstyleSendCflags) :
    (enterNewstyleSendCflags inp h).All Residual RunShape RestShape := by
  have h₁ := hS.shape
  rw [hs] at h₁
  have hcur : h.core.optCurrent = none := h₁.current
  refine send_shape hS (by rw [hs]; rfl) fun n _ => ?_
  simp only [ite_all, goto_all]
  refine ⟨fun hf => .of_shape ?_ rfl, fun hf => ⟨fun hm => .of_shape ?_ rfl, fun hm => .of_shape ?_ rfl⟩⟩
  · exact ⟨.inl hcur, fun _ => hf, of_false_eq_true, h₁.auto, h₁.frees, of_false_eq_true,
      h₁.contexts_late rfl (by simp), of_false_eq_true, of_false_eq_true, (by simp),
      fun _ => h₁.sock rfl⟩
  · refine h₁.move rfl ⟨hm, ?_⟩ (fun _ => h₁.auto (.inl hcur)) of_false_eq_true
    simp [hcur]
  · have hctx := h₁.contexts (.inr (.inl (by simpa [Handle.core, Core.isFixed, Handle.isFixed] using hf)))
    exact ⟨.inl ⟨eq_false_of_ne_true hm, hcur⟩, of_false_eq_true, of_false_eq_true, h₁.auto, h₁.frees, of_false_eq_true, fun _ => hctx,
      of_false_eq_true, fun _ _ => hctx, (by simp), fun _ => h₁.sock rfl⟩

theorem enterNewstylePrepareOptAbort_shape (hs : h.state = .newstylePrepareOptAbort) :
    (enterNewstylePrepareOptAbort h).All Residual RunShape RestShape := by
  have h₁ := hS.shape
  rw [hs] at h₁
  have hf : h.isFixed = true := h₁.fixed rfl
  simp only [enterNewstylePrepareOptAbort, require_all, goto_all]
  refine ⟨fun _ => .of_shape (h₁.move rfl trivial of_false_eq_true of_false_eq_true) rfl, by simp [hf]⟩

end States

/-! ## The option sub-machines -/

theorem awaitReply_shape {g : OptGroup} {s : State} (h₁ : Shape h.core s)
    (hcur : GroupOk h.core.cfg.optMode h.core.optCurrent g)
    (hcov : Shape.Covers s (.optRecvReply g) = true)
    (huses : (State.optRecvReply g).usesFn = true → h.core.freesFn = true → s.usesFn = true) :
    (awaitReply g h).All Residual RunShape RestShape :=
  .of_shape (h₁.move hcov hcur nofun huses) rfl

theorem mode_of_current {o : Opt} (hcur : h.optCurrent = none ∨ h.cfg.optMode = true ∧ h.optCurrent = some o)
    (hc : h.optCurrent = some o) : h.cfg.optMode = true := by
  rcases hcur with hn | ⟨hm, -⟩
  · rw [hc] at hn
    cases hn
  · exact hm

/-- An option that was completed ends in `NEGOTIATING` or is followed by the
next automatic one. -/
theorem completed_shape (g : OptGroup) (o : Opt) {s : State} (h₁ : Shape h.core s)
    (hcov : Shape.Covers s .negotiating = true) (hcov' : Shape.Covers s (.optStart g) = true)
    (huses : (State.optStart g).usesFn = false) (hg : ∀ m, CurrentOk m none (.optStart g))
    (hcur : h.optCurrent = none ∨ h.cfg.optMode = true ∧ h.optCurrent = some o)
    (ho : o ≠ .exportName) (e : UInt32) :
    RunShape { h.completeOption e with
      state := if h.optCurrent = some o then .negotiating else .optStart g } := by
  split
  · rename_i hc
    refine .of_shape (h₁.release hcov ⟨mode_of_current hcur hc, ?_⟩ nofun) rfl
    intro h'
    rw [show h.core.optCurrent = h.optCurrent from rfl, hc] at h'
    exact ho (Option.some.inj h')
  · rename_i hc
    have hn : h.core.optCurrent = none := hcur.resolve_right fun h' => hc h'.2
    refine .of_shape (h₁.release hcov' ?_ fun h' => ?_) rfl
    · rw [hn]
      exact hg _
    · rw [huses] at h'
      cases h'

theorem Shape.completion_null {s : State} (h₁ : Shape h.core s)
    (ha : h.optCurrent = none ∨ h.cfg.optMode = false) : h.optCb.completion.isNull = true := by
  have := h₁.auto ha
  simp only [Core.released, Bool.and_eq_true] at this
  exact this.2

theorem Shape.fn_null {s : State} (h₁ : Shape h.core s) (hf : h.freesFn = false) :
    h.optCb.fn.isNull = true := by
  by_contra hne
  have := h₁.frees (eq_false_of_ne_true hne)
  rw [show h.core.freesFn = h.freesFn from rfl, hf] at this
  cases this

/-- The last automatic option is completed. -/
theorem structuredReplyDone_shape (h₁ : Shape h.core (.optCheckReply .structuredReply)) (e : UInt32) :
    RunShape { h.completeOption e with state := afterStructuredReply h } := by
  have hcur : h.optCurrent = none ∨ h.cfg.optMode = true ∧ h.optCurrent = some .structuredReply :=
    h₁.current
  unfold afterStructuredReply
  split
  · rename_i hm
    refine .of_shape (h₁.release rfl ⟨hm, ?_⟩ nofun) rfl
    rcases hcur with hn | ⟨-, hn⟩
    · exact fun h' => nomatch hn.symm.trans h'
    · exact fun h' => nomatch hn.symm.trans h'
  · rename_i hm
    have hn : h.core.optCurrent = none := hcur.resolve_right fun h' => hm h'.1
    refine .of_shape (h₁.release rfl (.inl ⟨eq_false_of_ne_true hm, hn⟩) fun _ => ?_) rfl
    simp [Core.freesFn, hn]

section Options

variable (inp) (hS : RunShape h)

include hS

theorem enterOptSend_shape {g : OptGroup} (hs : h.state = .optSend g) :
    (enterOptSend inp g h).All Residual RunShape RestShape := by
  have h₁ := hS.shape
  rw [hs] at h₁
  refine send_shape hS (by rw [hs]; rfl) fun n _ => awaitReply_shape (s := .optSend g) h₁ h₁.current ?_ ?_
  · cases g <;> rfl
  · cases g <;> exact fun h _ => h

theorem enterOptRecvReply_shape {g : OptGroup} (hs : h.state = .optRecvReply g) :
    (enterOptRecvReply inp g h).All Residual RunShape RestShape := by
  have h₁ := hS.shape
  rw [hs] at h₁
  refine recv_shape hS (by rw [hs]; rfl) fun bs _ => ?_
  split
  · exact .toDead h₁ rfl
  · rename_i h' hp
    obtain ⟨rfl, -⟩ := prepareForReplyPayload_ok hp
    refine .of_shape (Shape.move (s := .optRecvReply g) h₁ ?_ h₁.current nofun ?_) rfl
    · cases g <;> rfl
    · cases g <;> exact fun h _ => h

theorem enterOptRecvReplyPayload_shape {g : OptGroup} (hs : h.state = .optRecvReplyPayload g) :
    (enterOptRecvReplyPayload inp g h).All Residual RunShape RestShape := by
  have h₁ := hS.shape
  rw [hs] at h₁
  refine recv_shape hS (by rw [hs]; rfl) fun bs _ => ?_
  refine .of_shape (Shape.move (s := .optRecvReplyPayload g) h₁ ?_ h₁.current nofun ?_) rfl
  · cases g <;> rfl
  · cases g <;> exact fun h _ => h

theorem handleReplyError_shape {k : Handle → Outcome}
    (hk : repIsErr h.reply = true → ∀ e t, (k (h.setError e t)).All Residual RunShape RestShape) :
    (handleReplyError inp h k).All Residual RunShape RestShape :=
  handleReplyError_all (fun _ _ => .toDead hS.shape rfl) (fun _ _ => trivial)
    fun hr _ e t => hk hr e t

theorem enterStarttlsStart_shape (hs : h.state = .optStart .starttls) :
    (enterStarttlsStart h).All Residual RunShape RestShape := by
  have h₁ := hS.shape
  rw [hs] at h₁
  have hf : h.isFixed = true := h₁.fixed rfl
  have hsend : Shape h.core (.optSend .starttls) := h₁.move rfl h₁.current of_false_eq_true of_false_eq_true
  have hcur : h.optCurrent = none ∨ h.cfg.optMode = true ∧ h.optCurrent = some .starttls :=
    h₁.current
  simp only [enterStarttlsStart, require_all, ite_all, goto_all]
  refine ⟨fun _ => ⟨fun hc => ⟨fun _ => .of_shape hsend rfl, fun hm => ?_⟩, fun hc => ?_⟩, by simp [hf]⟩
  · exact absurd hm (by simp [mode_of_current hcur hc])
  · have hn : h.core.optCurrent = none := hcur.resolve_right fun h' => hc h'.2
    refine ⟨fun _ => .of_shape (h₁.move rfl (.inl hn) of_false_eq_true of_false_eq_true) rfl, fun _ =>
      ⟨fun _ => .of_shape hsend rfl, fun h' => ?_⟩⟩
    exact absurd h' (by simp [h₁.completion_null (.inl hn)])

theorem enterStarttlsCheckReply_shape (hs : h.state = .optCheckReply .starttls) :
    (enterStarttlsCheckReply inp h).All Residual RunShape RestShape := by
  have h₁ := hS.shape
  rw [hs] at h₁
  have hplain : Shape { h.core with structuredReplies := false } (.optCheckReply .starttls) :=
    ⟨h₁.current, h₁.fixed, of_false_eq_true, h₁.auto, h₁.frees, of_false_eq_true, h₁.contexts, of_false_eq_true, of_false_eq_true, (by simp),
      h₁.sock⟩
  unfold enterStarttlsCheckReply
  refine ite_all.mpr ⟨fun _ => ite_all.mpr ⟨fun _ => .toDead h₁ rfl, fun _ => ?_⟩, fun _ => ?_⟩
  · refine ite_all.mpr ⟨fun _ => ?_, fun _ => .toDead hplain rfl⟩
    simp only [goto_all, handshakeState]
    split
    · exact .of_shape (hplain.move rfl hplain.current of_false_eq_true of_false_eq_true) rfl
    · exact .of_shape (hplain.move rfl hplain.current of_false_eq_true of_false_eq_true) rfl
  · refine handleReplyError_shape inp hS fun _ e t => ite_all.mpr ⟨fun _ => ?_, fun _ => ?_⟩
    · exact .of_shape (Shape.move (s := .optCheckReply .starttls) h₁ rfl trivial of_false_eq_true of_false_eq_true) rfl
    · exact completed_shape (h := h.setError e t) .extendedHeaders .starttls h₁ rfl rfl rfl
        (fun _ => .inl rfl) h₁.current (by simp) _

theorem enterTlsHandshake_shape {s : State} (hs : h.state = s)
    (hs' : s = .tlsHandshakeRead ∨ s = .tlsHandshakeWrite) :
    (enterTlsHandshake inp h).All Residual RunShape RestShape := by
  have h₁ := hS.shape
  rw [hs] at h₁
  have hmove : ∀ s', s' = .tlsHandshakeRead ∨ s' = .tlsHandshakeWrite ∨ s' = .tlsHandshakeDone →
      Shape h.core s' := by
    rintro s' (rfl | rfl | rfl)
    · rcases hs' with rfl | rfl <;> exact h₁.move rfl h₁.current nofun nofun
    · rcases hs' with rfl | rfl <;> exact h₁.move rfl h₁.current nofun nofun
    · rcases hs' with rfl | rfl <;> exact h₁.move rfl h₁.current nofun nofun
  unfold enterTlsHandshake
  split
  · exact .toDead h₁ rfl
  · exact .of_shape (hmove _ (.inr (.inr rfl))) rfl
  · simp only [goto_all, handshakeState]
    split
    · exact .of_shape (hmove _ (.inl rfl)) rfl
    · exact .of_shape (hmove _ (.inr (.inl rfl))) rfl

theorem enterTlsHandshakeDone_shape (hs : h.state = .tlsHandshakeDone) :
    (enterTlsHandshakeDone h).All Residual RunShape RestShape := by
  have h₁ := hS.shape
  rw [hs] at h₁
  exact completed_shape (h := { h with exp := { h.exp with tlsNegotiated := true } })
    .extendedHeaders .starttls h₁ rfl rfl rfl (fun _ => .inl rfl) h₁.current nofun _

theorem enterExtendedHeadersStart_shape (hs : h.state = .optStart .extendedHeaders) :
    (enterExtendedHeadersStart h).All Residual RunShape RestShape := by
  have h₁ := hS.shape
  rw [hs] at h₁
  have hf : h.isFixed = true := h₁.fixed rfl
  have hsend : Shape h.core (.optSend .extendedHeaders) := h₁.move rfl h₁.current of_false_eq_true of_false_eq_true
  have hcur : h.optCurrent = none ∨ h.cfg.optMode = true ∧ h.optCurrent = some .extendedHeaders :=
    h₁.current
  simp only [enterExtendedHeadersStart, require_all, ite_all, goto_all]
  refine ⟨fun _ => ⟨fun hc => ⟨fun _ => .of_shape hsend rfl, fun hm => ?_⟩, fun hc => ?_⟩, by simp [hf]⟩
  · exact absurd hm (by simp [mode_of_current hcur hc])
  · have hn : h.core.optCurrent = none := hcur.resolve_right fun h' => hc h'.2
    refine ⟨fun _ => ⟨fun _ => .of_shape (h₁.move rfl (.inl hn) of_false_eq_true of_false_eq_true) rfl,
      fun _ => .of_shape hsend rfl⟩, fun h' => ?_⟩
    exact absurd h' (by simp [h₁.completion_null (.inl hn)])

theorem enterExtendedHeadersCheckReply_shape (hs : h.state = .optCheckReply .extendedHeaders) :
    (enterExtendedHeadersCheckReply inp h).All Residual RunShape RestShape := by
  have h₁ := hS.shape
  rw [hs] at h₁
  have hplain : Shape { h.core with structuredReplies := true } (.optCheckReply .extendedHeaders) :=
    ⟨h₁.current, h₁.fixed, nofun, h₁.auto, h₁.frees, nofun, h₁.contexts, nofun, nofun, nofun,
      h₁.sock⟩
  unfold enterExtendedHeadersCheckReply
  refine ite_all.mpr ⟨fun _ => ?_, fun _ => ?_⟩
  · exact completed_shape (h := { h with exp := { h.exp with
      extendedHeaders := true, structuredReplies := true } }) .structuredReply .extendedHeaders
      hplain rfl rfl rfl (fun _ => .inl rfl) h₁.current nofun _
  · exact handleReplyError_shape inp hS fun _ e t =>
      completed_shape (h := h.setError e t) .structuredReply .extendedHeaders h₁ rfl rfl rfl
        (fun _ => .inl rfl) h₁.current nofun _

theorem enterStructuredReplyStart_shape (hs : h.state = .optStart .structuredReply) :
    (enterStructuredReplyStart h).All Residual RunShape RestShape := by
  have h₁ := hS.shape
  rw [hs] at h₁
  have hf : h.isFixed = true := h₁.fixed rfl
  have hsend : Shape h.core (.optSend .structuredReply) := h₁.move rfl h₁.current of_false_eq_true of_false_eq_true
  have hcur : h.optCurrent = none ∨ h.cfg.optMode = true ∧ h.optCurrent = some .structuredReply :=
    h₁.current
  simp only [enterStructuredReplyStart, require_all, ite_all, goto_all]
  refine ⟨fun _ => ⟨fun hc => ⟨fun _ => .of_shape hsend rfl, fun hm => ?_⟩, fun hc => ?_⟩, by simp [hf]⟩
  · exact absurd hm (by simp [mode_of_current hcur hc])
  · have hn : h.core.optCurrent = none := hcur.resolve_right fun h' => hc h'.2
    refine ⟨fun _ => ⟨fun _ => ?_, fun _ => .of_shape hsend rfl⟩, fun h' => ?_⟩
    · unfold afterStructuredReply
      split
      · rename_i hm
        refine .of_shape (h₁.move rfl ⟨hm, ?_⟩ (fun _ => h₁.auto (.inl hn)) of_false_eq_true) rfl
        rw [hn]
        simp
      · rename_i hm
        refine .of_shape (h₁.move rfl (.inl ⟨eq_false_of_ne_true hm, hn⟩) of_false_eq_true fun _ hf => ?_) rfl
        rw [Core.freesFn, hn] at hf
        cases hf
    · exact absurd h' (by simp [h₁.completion_null (.inl hn)])

theorem enterStructuredReplyCheckReply_shape (hs : h.state = .optCheckReply .structuredReply) :
    (enterStructuredReplyCheckReply inp h).All Residual RunShape RestShape := by
  have h₁ := hS.shape
  rw [hs] at h₁
  have hplain : Shape { h.core with structuredReplies := true } (.optCheckReply .structuredReply) :=
    ⟨h₁.current, h₁.fixed, nofun, h₁.auto, h₁.frees, nofun, h₁.contexts, nofun, nofun, nofun,
      h₁.sock⟩
  unfold enterStructuredReplyCheckReply
  refine ite_all.mpr ⟨fun _ => ?_, fun _ => ?_⟩
  · exact structuredReplyDone_shape (h := { h with exp := { h.exp with structuredReplies := true } })
      hplain _
  · exact handleReplyError_shape inp hS fun _ e t =>
      structuredReplyDone_shape (h := h.setError e t) h₁ _

theorem enterListStart_shape (hs : h.state = .optStart .list) :
    (enterListStart h).All Residual RunShape RestShape := by
  have h₁ := hS.shape
  rw [hs] at h₁
  have hf : h.isFixed = true := h₁.fixed rfl
  obtain ⟨hm, hc⟩ : h.cfg.optMode = true ∧ h.optCurrent = some .list := h₁.current
  have hfn : h.optCb.fn.isNull = false := h₁.uses rfl (by simp [Core.freesFn, Handle.core, hc])
  simp only [enterListStart, require_all, goto_all]
  refine ⟨fun _ => ⟨fun _ => ⟨fun _ => .of_shape (h₁.move rfl h₁.current of_false_eq_true (fun _ _ => rfl)) rfl, ?_⟩,
    ?_⟩, ?_⟩
  · simp [hfn]
  · simp [hm, hc]
  · simp [hf]

theorem enterListCheckReply_shape (hs : h.state = .optCheckReply .list) :
    (enterListCheckReply inp h).All Residual RunShape RestShape := by
  have h₁ := hS.shape
  rw [hs] at h₁
  obtain ⟨hm, hc⟩ : h.cfg.optMode = true ∧ h.optCurrent = some .list := h₁.current
  have hawait : ∀ h' : Handle, h'.core = h.core →
      (awaitReply .list h').All Residual RunShape RestShape := fun h' he =>
    awaitReply_shape (s := .optCheckReply .list) (he ▸ h₁) (he ▸ h₁.current) rfl (fun _ _ => rfl)
  have hdone : ∀ h' : Handle, h'.core = h.core → ∀ e,
      (goto .negotiating (h'.completeOption e)).All Residual RunShape RestShape := by
    intro h' he e
    refine .of_shape ((he ▸ h₁ : Shape h'.core _).release rfl ?_ nofun) rfl
    rw [he]
    exact ⟨hm, fun h' => nomatch hc.symm.trans h'⟩
  have hdead : ∀ h' : Handle, h'.core = h.core → ∀ e t,
      (die e t h').All Residual RunShape RestShape := fun h' he e t =>
    .toDead (s := .optCheckReply .list) (show Shape h'.core _ from he ▸ h₁) rfl
  unfold enterListCheckReply
  refine ite_all.mpr ⟨fun _ => ?_, fun _ => ite_all.mpr ⟨fun _ => hdone _ (by rfl) _, fun _ => ?_⟩⟩
  · unfold listServer
    refine ite_all.mpr ⟨fun _ => hawait _ (by rfl), fun _ => ?_⟩
    refine minus_all.mpr ⟨fun _ => poke_all.mpr ⟨fun _ => fetch_all.mpr ⟨fun _ => ?_, fun _ => trivial⟩,
      fun _ => trivial⟩, fun _ => trivial⟩
    refine ite_all.mpr ⟨fun _ => hdead _ (by rfl) _ _, fun _ => ?_⟩
    refine minus_all.mpr ⟨fun _ => ?_, fun _ => trivial⟩
    refine ite_all.mpr ⟨fun _ => hdead _ (by rfl) _ _, fun _ => ?_⟩
    refine ite_all.mpr ⟨fun _ => ?_, fun _ => ite_all.mpr ⟨fun _ => hdead _ (by rfl) _ _, fun _ => ?_⟩⟩
    · exact fetch_all.mpr ⟨fun _ => hawait _ (by rfl), fun _ => trivial⟩
    · exact fetch_all.mpr ⟨fun _ => fetch_all.mpr ⟨fun _ => hawait _ (by rfl), fun _ => trivial⟩,
        fun _ => trivial⟩
  · exact handleReplyError_shape inp hS fun _ e t => hdone _ (by rfl) _

end Options

/-! ## Metadata contexts -/

theorem metaRequest_shape {o : Opt} (h₁ : Shape h.core (.optStart .metaContext))
    (hask : h.core.freesFn = false → h.core.nothingRequested = false) :
    (metaRequest h o).All Residual RunShape RestShape := by
  have h₂ : Shape h.core (.optSend .metaContext) :=
    ⟨h₁.current, h₁.fixed, nofun, h₁.auto, h₁.frees, fun _ => h₁.uses rfl, h₁.contexts_late rfl nofun, fun _ => hask, nofun, nofun, fun _ => h₁.sock rfl⟩
  unfold metaRequest
  simp only [goto_all]
  split
  · exact .of_shape h₂ rfl
  · exact .of_shape h₂ rfl

theorem Shape.resetContexts {s : State} (h₁ : Shape h.core s) : Shape h.resetContexts.core s :=
  ⟨h₁.current, h₁.fixed, h₁.quiet, h₁.auto, h₁.frees, h₁.uses, fun _ => rfl, h₁.asking,
    fun _ _ => rfl, h₁.asked, h₁.sock⟩

theorem metaAutomatic_shape (h₁ : Shape h.core (.optStart .metaContext))
    (hcur : h.cfg.optMode = false ∧ h.optCurrent = none ∨
      h.cfg.optMode = true ∧ (h.optCurrent = some .go ∨ h.optCurrent = some .info))
    (hreset : h.cfg.requestMeta = true → h.exp.metaContexts = []) :
    (metaAutomatic inp h).All Residual RunShape RestShape := by
  have hgo : Shape h.core (.optStart .go) := by
    refine ⟨hcur, h₁.fixed, nofun, h₁.auto, h₁.frees, nofun, h₁.contexts_late rfl nofun, nofun, fun _ hn => hreset ?_, nofun, fun _ => h₁.sock rfl⟩
    simp only [Core.nothingRequested, Bool.and_eq_true] at hn
    exact hn.1
  unfold metaAutomatic
  refine ite_all.mpr ⟨fun _ => ?_, fun hask => ?_⟩
  · simp only [goto_all]
    split
    · exact .of_shape hgo rfl
    · exact .of_shape hgo rfl
  · have hask' : h.core.nothingRequested = false := by
      simp only [Bool.or_eq_true, not_or, Bool.not_eq_true, Bool.not_eq_false'] at hask
      simp [Core.nothingRequested, Handle.core, hask]
    simp only [setQuerylist]
    refine ite_all.mpr ⟨fun hok => ?_, fun hok => ?_⟩
    · simp only [hok, if_true]
      exact metaRequest_shape h₁ fun _ => hask'
    · simp only [hok]
      exact .toDead h₁ rfl

/-- The exchange is over and GO or INFO follows. -/
theorem metaToGo_shape {c : Core} (h₁ : Shape c (.optCheckReply .metaContext))
    (hcur : c.optCurrent ≠ some .listMetaContext) (hcur' : c.optCurrent ≠ some .setMetaContext) :
    Shape c (.optStart .go) := by
  have hc : c.cfg.optMode = false ∧ c.optCurrent = none ∨
      c.cfg.optMode = true ∧ (c.optCurrent = some .go ∨ c.optCurrent = some .info) := by
    have := h₁.current
    simp only [CurrentOk, GroupOk] at this
    simp_all
  have hno : c.freesFn = false := by
    rcases hc with ⟨-, h⟩ | ⟨-, h | h⟩ <;> simp [Core.freesFn, h]
  have hask := h₁.asking rfl hno
  refine ⟨hc, h₁.fixed, nofun, h₁.auto, h₁.frees, nofun, h₁.contexts_late rfl nofun, nofun, fun _ h => ?_, nofun, fun _ => h₁.sock rfl⟩
  rw [hask] at h
  cases h

/-- LIST or SET ends in `NEGOTIATING`. -/
theorem metaFinish_shape {e : UInt32} (h₁ : Shape h.core (.optCheckReply .metaContext)) {o : Opt}
    (ho : h.optCurrent = some o) (hne : o ≠ .exportName) :
    (metaFinish e h).All Residual RunShape RestShape := by
  have hcur : h.cfg.optMode = false ∧ h.optCurrent = none ∨ h.cfg.optMode = true ∧ _ := h₁.current
  refine .of_shape (h₁.release rfl ⟨?_, ?_⟩ nofun) rfl
  · rcases hcur with ⟨-, hn⟩ | ⟨hm, -⟩
    · rw [ho] at hn
      cases hn
    · exact hm
  · intro h'
    rw [show h.core.optCurrent = h.optCurrent from rfl, ho] at h'
    exact hne (Option.some.inj h')

section Meta

variable (inp) (hS : RunShape h)

include hS

theorem enterMetaContextStart_shape (hs : h.state = .optStart .metaContext) :
    (enterMetaContextStart inp h).All Residual RunShape RestShape := by
  have h₁ := hS.shape
  rw [hs] at h₁
  have hf : h.isFixed = true := h₁.fixed rfl
  have hcur : h.cfg.optMode = false ∧ h.optCurrent = none ∨
      h.cfg.optMode = true ∧ (h.optCurrent = some .go ∨ h.optCurrent = some .info ∨
        h.optCurrent = some .listMetaContext ∨ h.optCurrent = some .setMetaContext) := h₁.current
  have hfn : h.freesFn = true → h.optCb.fn.isNull = false := h₁.uses rfl
  simp only [enterMetaContextStart, require_all, ite_all]
  refine ⟨fun _ => ⟨fun hc => ⟨fun _ => ⟨fun _ => ?_, ?_⟩, ?_⟩, fun hl => ⟨fun hc => ⟨fun _ => ?_, ?_⟩,
    fun hc => ⟨fun _ => ?_, ?_⟩⟩⟩, ?_⟩
  · exact metaRequest_shape h₁ fun h' => by simp [Core.freesFn, Handle.core, hc] at h'
  · simp [hfn (by simp [Handle.freesFn, hc])]
  · simp_all
  · exact metaRequest_shape h₁.resetContexts fun h' => by
      simp [Core.freesFn, Handle.core, hc] at h'
  · simp [hfn (by simp [Handle.freesFn, hc])]
  · have hcur' : h.cfg.optMode = false ∧ h.optCurrent = none ∨
        h.cfg.optMode = true ∧ (h.optCurrent = some .go ∨ h.optCurrent = some .info) := by
      simp_all
    split
    · exact metaAutomatic_shape h₁.resetContexts hcur' fun _ => rfl
    · exact metaAutomatic_shape h₁ hcur' fun h' => absurd h' (by assumption)
  · have hno : h.freesFn = false := by
      simp only [Handle.freesFn, Bool.or_eq_false_iff, beq_eq_false_iff_ne]
      refine ⟨⟨?_, hl⟩, hc⟩
      rcases hcur with ⟨-, h'⟩ | ⟨-, h' | h' | h' | h'⟩ <;> simp [h']
    simp [h₁.fn_null hno]
  · simp [hf]

/-- A state that sends and then moves on. -/
theorem sendTo_shape {s : State} (s' : State) (hs : h.state = s) (hb : s.isBetween = true)
    {k : Handle → Outcome} (hmove : Shape h.core s → Shape h.core s')
    (hb' : s'.isBetween = true)
    (hk : ∀ n, ∃ h' : Handle, k { h.advance n with wflags := false } = goto s' h' ∧
      h'.core = h.core) :
    (sendThen inp k h).All Residual RunShape RestShape := by
  have h₁ := hS.shape
  rw [hs] at h₁
  refine send_shape hS (by rw [hs]; exact hb) fun n _ => ?_
  obtain ⟨h', he, hc⟩ := hk n
  rw [he]
  exact .of_shape (show Shape h'.core s' from hc ▸ hmove h₁) hb'

theorem metaContextReply_shape {o : Opt} (hs : h.state = .optCheckReply .metaContext) :
    (metaContextReply inp o h).All Residual RunShape RestShape := by
  have h₁ := hS.shape
  rw [hs] at h₁
  have hcur : h.cfg.optMode = false ∧ h.optCurrent = none ∨
      h.cfg.optMode = true ∧ (h.optCurrent = some .go ∨ h.optCurrent = some .info ∨
        h.optCurrent = some .listMetaContext ∨ h.optCurrent = some .setMetaContext) := h₁.current
  have hmove : ∀ h' : Handle, h'.core = h.core →
      (goto .metaPrepareForReply h').All Residual RunShape RestShape := by
    intro h' he
    have h₂ : Shape h'.core _ := he ▸ h₁
    exact .of_shape (h₂.move rfl h₂.current nofun (fun _ _ => rfl)) rfl
  have hdead : ∀ h' : Handle, h'.core = h.core → ∀ e t,
      (die e t h').All Residual RunShape RestShape := fun h' he e t =>
    .toDead (s := .optCheckReply .metaContext) (show Shape h'.core _ from he ▸ h₁) rfl
  unfold metaContextReply
  refine ite_all.mpr ⟨fun _ => hmove _ (by rfl), fun _ => require_all.mpr ⟨fun _ => ?_, fun _ => trivial⟩⟩
  refine fetch_all.mpr ⟨fun _ => minus_all.mpr ⟨fun _ => ?_, fun _ => trivial⟩, fun _ => trivial⟩
  refine fetch_all.mpr ⟨fun _ => ?_, fun _ => trivial⟩
  refine ite_all.mpr ⟨fun _ => hdead _ (by rfl) _ _, fun _ => ?_⟩
  refine ite_all.mpr ⟨fun _ => hmove _ (by rfl), fun _ => ?_⟩
  refine ite_all.mpr ⟨fun _ => hdead _ (by rfl) _ _, fun _ => .of_shape ?_ rfl⟩
  -- The list grows, but no condition about an empty list applies here.
  refine ⟨h₁.current, fun _ => h₁.fixed rfl, nofun, h₁.auto, h₁.frees, fun _ => h₁.uses rfl,
    fun h' => ?_, fun _ => h₁.asking rfl, nofun, nofun, fun _ => h₁.sock rfl⟩
  rcases h' with h' | h' | ⟨h', h'' | h''⟩
  · cases h'
  · exact absurd (h₁.fixed rfl) (by rw [show h.core.isFixed = false from h']; exact nofun)
  · have hm : h.cfg.optMode = true := h''
    have hn : h.optCurrent = none := h'
    simp [hm, hn] at hcur
  · cases h''

theorem enterMetaContextCheckReply_shape (hs : h.state = .optCheckReply .metaContext) :
    (enterMetaContextCheckReply inp h).All Residual RunShape RestShape := by
  have h₁ := hS.shape
  rw [hs] at h₁
  have hopt : h.groupOption .metaContext ≠ .exportName := by
    simp only [Handle.groupOption]
    split <;> exact nofun
  -- The option does not go on by itself: it is neither LIST nor SET.
  have hother : ¬ h.optCurrent = some (h.groupOption .metaContext) →
      h.optCurrent ≠ some .listMetaContext ∧ h.optCurrent ≠ some .setMetaContext := by
    intro hne
    simp only [Handle.groupOption] at hne
    split at hne
    · exact absurd (by assumption) hne
    · exact ⟨by assumption, hne⟩
  have hfin : ∀ h' : Handle, h'.core = h.core → h'.optCurrent = some (h.groupOption .metaContext) →
      ∀ e, (metaFinish e h').All Residual RunShape RestShape := fun h' he ho e =>
    metaFinish_shape (show Shape h'.core _ from he ▸ h₁) ho hopt
  have hgo : ∀ h' : Handle, h'.core = h.core →
      ¬ h'.optCurrent = some (h.groupOption .metaContext) →
      (goto (.optStart .go) h').All Residual RunShape RestShape := by
    intro h' he ho
    have hc : h'.optCurrent = h.optCurrent := congrArg Core.optCurrent he
    rw [hc] at ho
    refine .of_shape ?_ rfl
    show Shape h'.core _
    rw [he]
    exact metaToGo_shape h₁ (hother ho).1 (hother ho).2
  unfold enterMetaContextCheckReply
  dsimp only
  refine ite_all.mpr ⟨fun _ => ?_, fun _ => ite_all.mpr ⟨fun _ => metaContextReply_shape inp hS hs,
    fun _ => ?_⟩⟩
  · split
    · exact ite_all.mpr ⟨fun ho => hfin _ (by rfl) ho _, fun ho => hgo _ (by rfl) ho⟩
    · exact ite_all.mpr ⟨fun ho => hfin _ (by rfl) ho _, fun ho => hgo _ (by rfl) ho⟩
  · refine handleReplyError_shape inp hS fun _ e t => ?_
    split
    · exact ite_all.mpr ⟨fun ho => hfin _ (by rfl) ho _, fun ho => hgo _ (by rfl) ho⟩
    · exact ite_all.mpr ⟨fun ho => hfin _ (by rfl) ho _, fun ho => hgo _ (by rfl) ho⟩

end Meta

/-! ## GO and INFO -/

/-- The states of GO and `EXPORT_NAME` depend on the same facts. -/
theorem goSend_shape (h₁ : Shape h.core (.optStart .go))
    (hcur : GroupOk h.core.cfg.optMode h.core.optCurrent .go) : Shape h.core (.optSend .go) :=
  h₁.move rfl hcur nofun nofun

/-- The end of GO or INFO leaves no callback behind. -/
theorem goFinish_shape {e : UInt32} (h₁ : Shape h.core (.optCheckReply .go)) :
    (goFinish e h).All Residual RunShape RestShape := by
  have hcur : h.optCurrent = some .go ∨ h.cfg.optMode = true ∧ h.optCurrent = some .info :=
    h₁.current
  unfold goFinish
  simp only [goto_all]
  split
  · exact .of_shape (h₁.release rfl trivial of_false_eq_true) rfl
  · split
    · rename_i hm
      refine .of_shape (h₁.release rfl ⟨hm, ?_⟩ of_false_eq_true) rfl
      rcases hcur with hc | ⟨-, hc⟩
      · simp [Handle.core, hc]
      · simp [Handle.core, hc]
    · exact .of_shape (h₁.release rfl trivial of_false_eq_true) rfl

section Go

variable (inp) (hS : RunShape h)

include hS

theorem enterGoStart_shape (hs : h.state = .optStart .go) :
    (enterGoStart h).All Residual RunShape RestShape := by
  have h₁ := hS.shape
  rw [hs] at h₁
  have hf : h.isFixed = true := h₁.fixed rfl
  have hcur : h.cfg.optMode = false ∧ h.optCurrent = none ∨
      h.cfg.optMode = true ∧ (h.optCurrent = some .go ∨ h.optCurrent = some .info) := h₁.current
  simp only [enterGoStart, require_all, ite_all, goto_all]
  refine ⟨fun _ => ⟨fun hc => ⟨fun hm => ?_, ?_⟩, fun hi => ⟨fun hc => ⟨fun hm => ⟨fun _ => ?_, ?_⟩, ?_⟩,
    fun hn => ?_⟩⟩, ?_⟩
  · exact .of_shape (goSend_shape h₁ (.inr ⟨hm, hc⟩)) rfl
  · simp_all
  · have hm' : h.cfg.optMode = false := by simpa using hm
    have hrel := h₁.auto (.inr hm')
    refine .of_shape ⟨.inl rfl, h₁.fixed, of_false_eq_true, fun _ => hrel, fun h' => ?_, of_false_eq_true, fun h' => ?_, of_false_eq_true,
      fun _ => h₁.describing rfl, (by simp), fun _ => h₁.sock rfl⟩ rfl
    · simp only [Core.released, Bool.and_eq_true] at hrel
      have h'' : h.core.optCb.fn.isNull = false := h'
      rw [hrel.1] at h''
      cases h''
    · rcases h' with h' | h' | ⟨h', -⟩
      · cases h'
      · exact h₁.contexts (.inr (.inl h'))
      · cases h'
  · intro h'
    have := h₁.completion_null (.inl hc)
    simp_all
  · simp_all
  · have hg : h.optCurrent = some .go := by
      rcases hcur with ⟨-, h'⟩ | ⟨-, h' | h'⟩
      · exact absurd h' hn
      · exact h'
      · exact absurd h' hi
    exact .of_shape (goSend_shape h₁ (.inl hg)) rfl
  · intro h'
    rw [show Handle.isFixed h.resetSizeAndFlags = h.isFixed from rfl, hf] at h'
    cases h'

theorem goInfo_shape (hs : h.state = .optCheckReply .go) :
    (goInfo inp h).All Residual RunShape RestShape := by
  have h₁ := hS.shape
  rw [hs] at h₁
  have hawait : ∀ h' : Handle, h'.core = h.core →
      (awaitReply .go h').All Residual RunShape RestShape := fun h' he =>
    awaitReply_shape (s := .optCheckReply .go) (he ▸ h₁) (he ▸ h₁.current) rfl nofun
  have hdead : ∀ h' : Handle, h'.core = h.core → ∀ e t,
      (die e t h').All Residual RunShape RestShape := fun h' he e t =>
    .toDead (s := .optCheckReply .go) (show Shape h'.core _ from he ▸ h₁) rfl
  have hstring : ∀ which set, (∀ s, (set s : Handle).core = h.core) →
      (goString inp which set h).All Residual RunShape RestShape := by
    intro which set hset
    unfold goString
    refine ite_all.mpr ⟨fun _ => hdead _ (by rfl) _ _, fun _ => ?_⟩
    refine minus_all.mpr ⟨fun _ => fetch_all.mpr ⟨fun _ => ?_, fun _ => trivial⟩, fun _ => trivial⟩
    exact ite_all.mpr ⟨fun _ => hawait _ (hset _), fun _ => hdead _ (hset _) _ _⟩
  unfold goInfo
  refine ite_all.mpr ⟨fun _ => require_all.mpr ⟨fun _ => hawait _ (by rfl), fun _ => trivial⟩, fun _ => ?_⟩
  refine require_all.mpr ⟨fun _ => fetch_all.mpr ⟨fun _ => ?_, fun _ => trivial⟩, fun _ => trivial⟩
  refine ite_all.mpr ⟨fun _ => ?_, fun _ => ite_all.mpr ⟨fun _ => ?_, fun _ => ite_all.mpr ⟨fun _ => ?_,
    fun _ => ite_all.mpr ⟨fun _ => ?_, fun _ => hawait _ (by rfl)⟩⟩⟩⟩
  · refine ite_all.mpr ⟨fun _ => hdead _ (by rfl) _ _, fun _ => ?_⟩
    refine fetch_all.mpr ⟨fun _ => fetch_all.mpr ⟨fun _ => ?_, fun _ => trivial⟩, fun _ => trivial⟩
    refine setSizeAndFlags_all (fun _ _ => .toDead h₁ rfl) ?_ fun v _ => hawait _ (by rfl)
    exact fun hn hne => absurd (h₁.describing rfl hn) hne
  · refine ite_all.mpr ⟨fun _ => hdead _ (by rfl) _ _, fun _ => ?_⟩
    refine fetch_all.mpr ⟨fun _ => fetch_all.mpr ⟨fun _ => fetch_all.mpr ⟨fun _ => ?_,
      fun _ => trivial⟩, fun _ => trivial⟩, fun _ => trivial⟩
    refine hawait _ ?_
    unfold Handle.setBlockSize
    split <;> rfl
  · exact hstring _ _ fun _ => rfl
  · exact hstring _ _ fun _ => rfl

theorem enterGoCheckReply_shape (hs : h.state = .optCheckReply .go) :
    (enterGoCheckReply inp h).All Residual RunShape RestShape := by
  have h₁ := hS.shape
  rw [hs] at h₁
  have hcur : h.optCurrent = some .go ∨ h.cfg.optMode = true ∧ h.optCurrent = some .info :=
    h₁.current
  unfold enterGoCheckReply
  refine ite_all.mpr ⟨fun _ => goInfo_shape inp hS hs, fun _ => ite_all.mpr ⟨fun hu => ?_, fun hu =>
    ite_all.mpr ⟨fun _ => ?_, fun _ => ?_⟩⟩⟩
  · exact .of_shape (h₁.move rfl (.inr (.inl hu.2)) nofun nofun) rfl
  · exact goFinish_shape (h := h.setPayload) h₁
  · refine handleReplyError_shape inp hS fun _ e t => require_all.mpr ⟨fun _ => ?_, fun h' => ?_⟩
    · exact goFinish_shape (h := (h.setError e t).forgetExport) h₁
    · simp only [Bool.or_eq_false_iff, bne_eq_false_iff_eq, beq_eq_false_iff_ne] at h'
      have hr : h.reply = repErrUnsup := h'.1
      rcases hcur with hc | ⟨-, hc⟩
      · exact absurd ⟨hr, hc⟩ hu
      · exact absurd hc h'.2

/-! ## `EXPORT_NAME` and the final states -/

theorem enterExportNameStart_shape (hs : h.state = .exportNameStart) :
    (enterExportNameStart h).All Residual RunShape RestShape := by
  have h₁ := hS.shape
  rw [hs] at h₁
  have h₂ : Shape h.core .exportNameSend := h₁.move rfl h₁.current nofun nofun
  simp only [enterExportNameStart, goto_all]
  split
  · exact .of_shape h₂ rfl
  · exact .of_shape h₂ rfl

theorem enterExportNameCheckReply_shape (hs : h.state = .exportNameCheckReply) :
    (enterExportNameCheckReply h).All Residual RunShape RestShape := by
  have h₁ := hS.shape
  rw [hs] at h₁
  unfold enterExportNameCheckReply
  refine setSizeAndFlags_all (fun _ _ => .toDead h₁ rfl) ?_ fun v _ => .of_shape ?_ rfl
  · exact fun hn hne => absurd (h₁.describing rfl hn) hne
  · exact h₁.release rfl trivial nofun

theorem abortOption_shape {s : State} (hs : h.state = s) (hs' : s = .dead ∨ s = .closed) :
    RestShape h.abortOption := by
  have h₁ := hS.shape
  rw [hs] at h₁
  have h₂ : Shape h.core.release s := by
    rcases hs' with rfl | rfl
    · exact h₁.release rfl trivial nofun
    · exact h₁.release rfl trivial nofun
  have h₃ : Shape { h.core.release with sock := false } s := by
    rcases hs' with rfl | rfl
    · exact h₂.withoutSock rfl
    · exact h₂.withoutSock rfl
  have hst : h.abortOption.state = s := hs
  refine ⟨?_, fun _ => h₁.released_release, fun _ => rfl, ?_⟩
  · rw [hst]
    exact h₃
  · rw [hst]
    rcases hs' with rfl | rfl <;> simp

end Go

section Simple

variable (inp) (hS : RunShape h)

include hS

/-- A state that receives and then moves on without looking at anything. -/
theorem recvTo_shape {s s' : State} (hs : h.state = s) (hb : s.isBetween = true)
    (hmove : Shape h.core s → Shape h.core s') (hb' : s'.isBetween = true) :
    (recvThen inp (goto s') h).All Residual RunShape RestShape := by
  have h₁ := hS.shape
  rw [hs] at h₁
  exact recv_shape hS (by rw [hs]; exact hb) fun bs _ =>
    .of_shape (show Shape (h.store bs).core s' from hmove h₁) hb'

/-- A state that only prepares the next one. -/
theorem goto_shape {s s' : State} {h' : Handle} (hs : h.state = s) (hc : h'.core = h.core)
    (hmove : Shape h.core s → Shape h.core s') (hb' : s'.isBetween = true) :
    (goto s' h').All Residual RunShape RestShape := by
  have h₁ := hS.shape
  rw [hs] at h₁
  exact .of_shape (show Shape h'.core s' from hc ▸ hmove h₁) hb'

theorem enterNewstyleSendOptionShutdown_shape (hs : h.state = .newstyleSendOptionShutdown) :
    (enterNewstyleSendOptionShutdown inp h).All Residual RunShape RestShape := by
  have h₁ := hS.shape
  rw [hs] at h₁
  unfold enterNewstyleSendOptionShutdown
  refine ite_all.mpr ⟨fun _ => ?_, fun _ => .of_shape hS.shape (by rw [hs]; rfl)⟩
  split
  · exact ⟨h₁.toClosed, nofun⟩
  · exact .toDead h₁ rfl

theorem enterReady_shape (hs : h.state = .ready) :
    (enterReady h).All Residual RunShape RestShape := by
  have h₁ := hS.shape
  rw [hs] at h₁
  have hsock : h.sock = true := h₁.sock rfl
  simp only [enterReady, require_all, block_all]
  exact ⟨fun _ => .of_shape hS.shape (by rw [hs]; rfl), by simp [hsock]⟩

theorem enterMetaPrepareNextQuery_shape (hs : h.state = .metaPrepareNextQuery) :
    (enterMetaPrepareNextQuery h).All Residual RunShape RestShape := by
  unfold enterMetaPrepareNextQuery
  split
  · exact goto_shape hS hs (by rfl) (fun h₁ => h₁.move rfl h₁.current nofun fun _ _ => rfl) rfl
  · exact goto_shape hS hs (by rfl) (fun h₁ => h₁.move rfl h₁.current nofun fun _ _ => rfl) rfl

end Simple

/-! ## Every state -/

theorem enterOptStart_shape (inp : Input) (hS : RunShape h) {g : OptGroup} (hs : h.state = .optStart g) :
    (enterOptStart inp g h).All Residual RunShape RestShape := by
  cases g with
  | starttls => exact enterStarttlsStart_shape hS hs
  | extendedHeaders => exact enterExtendedHeadersStart_shape hS hs
  | structuredReply => exact enterStructuredReplyStart_shape hS hs
  | list => exact enterListStart_shape hS hs
  | metaContext => exact enterMetaContextStart_shape inp hS hs
  | go => exact enterGoStart_shape hS hs

theorem enterOptSendGroup_shape (inp : Input) (hS : RunShape h) {g : OptGroup}
    (hs : h.state = .optSend g) : (enterOptSendGroup inp g h).All Residual RunShape RestShape := by
  cases g with
  | metaContext =>
    show (enterMetaContextSend inp h).All _ _ _
    exact sendTo_shape inp hS .metaSendExportnamelen hs rfl (fun h₁ => h₁.move rfl h₁.current nofun fun _ _ => rfl) rfl
      fun _ => ⟨_, rfl, rfl⟩
  | go =>
    show (enterGoSend inp h).All _ _ _
    exact sendTo_shape inp hS .goSendExportnamelen hs rfl (fun h₁ => h₁.move rfl h₁.current nofun nofun) rfl
      fun _ => ⟨_, rfl, rfl⟩
  | starttls => exact enterOptSend_shape inp hS hs
  | extendedHeaders => exact enterOptSend_shape inp hS hs
  | structuredReply => exact enterOptSend_shape inp hS hs
  | list => exact enterOptSend_shape inp hS hs

theorem enterOptCheckReply_shape (inp : Input) (hS : RunShape h) {g : OptGroup}
    (hs : h.state = .optCheckReply g) :
    (enterOptCheckReply inp g h).All Residual RunShape RestShape := by
  cases g with
  | starttls => exact enterStarttlsCheckReply_shape inp hS hs
  | extendedHeaders => exact enterExtendedHeadersCheckReply_shape inp hS hs
  | structuredReply => exact enterStructuredReplyCheckReply_shape inp hS hs
  | list => exact enterListCheckReply_shape inp hS hs
  | metaContext => exact enterMetaContextCheckReply_shape inp hS hs
  | go => exact enterGoCheckReply_shape inp hS hs

theorem enter_shape (inp : Input) (hS : RunShape h) :
    (enter inp h).All Residual RunShape RestShape := by
  have hgo : ∀ {s s' : State}, h.state = s → Shape.Covers s s' = true →
      (CurrentOk h.core.cfg.optMode h.core.optCurrent s →
        CurrentOk h.core.cfg.optMode h.core.optCurrent s') →
      s'.isQuiet = false → (s'.usesFn = true → s.usesFn = true) →
      Shape h.core s → Shape h.core s' := by
    intro s s' _ hcov hcur hq hu h₁
    exact h₁.move hcov (hcur h₁.current) (by simp [hq]) fun h _ => hu h
  unfold enter
  split <;> rename_i hs
  · exact ⟨hS.shape, by simp [hs], fun _ => hS.opens (by rw [hs]; rfl), by simp [hs]⟩
  · exact .of_shape hS.shape (by rw [hs]; rfl)
  · exact enterReady_shape hS hs
  · exact require_all.mpr ⟨fun _ => abortOption_shape hS hs (.inl rfl), fun _ => trivial⟩
  · exact abortOption_shape hS hs (.inr rfl)
  · exact enterConnectStart_shape inp hS hs
  · exact enterConnectConnecting_shape inp hS hs
  · exact enterConnectTcpStart_shape inp hS hs
  · exact enterConnectTcpConnect_shape inp hS hs
  · exact enterConnectTcpConnecting_shape inp hS hs
  · exact enterConnectTcpNextAddress_shape hS hs
  · exact enterConnectCommandStart_shape inp hS hs
  · exact enterConnectSaStart_shape inp hS hs
  · exact goto_shape hS hs (by rfl) (fun h₁ => h₁.fresh rfl rfl rfl) rfl
  · exact recvTo_shape inp hS hs rfl (fun h₁ => h₁.fresh rfl rfl rfl) rfl
  · exact enterMagicCheckMagic_shape hS hs
  · exact goto_shape hS hs (by rfl) (fun h₁ => h₁.fresh rfl rfl rfl) rfl
  · exact recvTo_shape inp hS hs rfl (fun h₁ => h₁.fresh rfl rfl rfl) rfl
  · exact enterOldstyleCheck_shape hS hs
  · exact enterNewstyleStart_shape hS hs
  · exact recvTo_shape inp hS hs rfl (fun h₁ => h₁.fresh rfl rfl rfl) rfl
  · exact enterNewstyleCheckGflags_shape hS hs
  · exact enterNewstyleSendCflags_shape inp hS hs
  · exact enterNewstylePrepareOptAbort_shape hS hs
  · exact sendTo_shape inp hS .newstyleSendOptionShutdown hs rfl (hgo hs rfl (fun _ => trivial) rfl nofun) rfl
      fun _ => ⟨_, rfl, rfl⟩
  · exact enterNewstyleSendOptionShutdown_shape inp hS hs
  · exact goto_shape hS hs (by rfl)
      (fun h₁ => h₁.move rfl trivial (fun _ => h₁.quiet rfl) nofun) rfl
  · exact enterOptStart_shape inp hS hs
  · exact enterOptSendGroup_shape inp hS hs
  · exact enterOptRecvReply_shape inp hS hs
  · exact enterOptRecvReplyPayload_shape inp hS hs
  · exact enterOptCheckReply_shape inp hS hs
  · exact enterTlsHandshake_shape inp hS hs (.inl rfl)
  · exact enterTlsHandshake_shape inp hS hs (.inr rfl)
  · exact enterTlsHandshakeDone_shape hS hs
  · exact sendTo_shape inp hS .metaSendExportname hs rfl (hgo hs rfl id rfl fun _ => rfl) rfl fun _ => ⟨_, rfl, rfl⟩
  · exact sendTo_shape inp hS .metaSendNrqueries hs rfl (hgo hs rfl id rfl fun _ => rfl) rfl fun _ => ⟨_, rfl, rfl⟩
  · exact sendTo_shape inp hS .metaPrepareNextQuery hs rfl (hgo hs rfl id rfl fun _ => rfl) rfl fun _ => ⟨_, rfl, rfl⟩
  · exact enterMetaPrepareNextQuery_shape hS hs
  · exact sendTo_shape inp hS .metaSendQuery hs rfl (hgo hs rfl id rfl fun _ => rfl) rfl fun _ => ⟨_, rfl, rfl⟩
  · exact sendTo_shape inp hS .metaPrepareNextQuery hs rfl (hgo hs rfl id rfl fun _ => rfl) rfl fun _ => ⟨_, rfl, rfl⟩
  · exact goto_shape hS hs (by rfl) (hgo hs rfl id rfl fun _ => rfl) rfl
  · exact sendTo_shape inp hS .goSendExport hs rfl (hgo hs rfl id rfl nofun) rfl fun _ => ⟨_, rfl, rfl⟩
  · exact sendTo_shape inp hS .goSendNrinfos hs rfl (hgo hs rfl id rfl nofun) rfl fun _ => ⟨_, rfl, rfl⟩
  · exact sendTo_shape inp hS .goSendInfo hs rfl (hgo hs rfl id rfl nofun) rfl fun _ => ⟨_, rfl, rfl⟩
  · exact sendTo_shape inp hS (.optRecvReply .go) hs rfl (hgo hs rfl id rfl nofun) rfl fun _ => ⟨_, rfl, rfl⟩
  · exact enterExportNameStart_shape hS hs
  · exact sendTo_shape inp hS .exportNameSendExport hs rfl (hgo hs rfl id rfl nofun) rfl fun _ => ⟨_, rfl, rfl⟩
  · exact sendTo_shape inp hS .exportNameRecvReply hs rfl (hgo hs rfl id rfl nofun) rfl fun _ => ⟨_, rfl, rfl⟩
  · exact recvTo_shape inp hS hs rfl (hgo hs rfl id rfl nofun) rfl
  · exact enterExportNameCheckReply_shape hS hs

/-! ## API calls -/

theorem setError_rest (hR : RestShape h) (e : UInt32) (t : String) : RestShape (h.setError e t) :=
  ⟨hR.shape, hR.ended, hR.start, hR.connecting⟩

theorem State.isConfigurable_iff {s : State} :
    s.isConfigurable = true ↔ s = .start ∨ s = .negotiating := by
  simp [State.isConfigurable, State.isCreated, State.isNegotiating]

/-- What a setter leaves alone. `opt_mode` and the handshake flags can be changed
only before connecting. -/
structure SameOption (h h' : Handle) : Prop where
  state : h'.state = h.state
  mode : h.state = .start ∨ h'.cfg.optMode = h.cfg.optMode
  gflags : h.state = .start ∨ h'.gflags = h.gflags
  current : h'.optCurrent = h.optCurrent
  cb : h'.optCb = h.optCb
  contexts : h'.exp.metaContexts = h.exp.metaContexts
  sock : h'.sock = h.sock

theorem setter_shape {h' : Handle} (hR : RestShape h) (hs : h.state.isConfigurable = true)
    (hsame : SameOption h h') : RestShape h' := by
  have h₁ := hR.shape
  have hcur : h'.core.optCurrent = h.core.optCurrent := hsame.current
  have hrel : h'.core.released = h.core.released := by
    simp only [Core.released, Handle.core, hsame.cb]
  have hfrees : h'.core.freesFn = h.core.freesFn := by simp only [Core.freesFn, hcur]
  have hfn : h'.core.optCb.fn.isNull = h.core.optCb.fn.isNull := by
    simp only [Handle.core, hsame.cb]
  have hctx : h'.core.metaContexts = h.core.metaContexts := hsame.contexts
  rcases State.isConfigurable_iff.mp hs with hs' | hs'
  · rw [hs'] at h₁
    have hn : h.core.optCurrent = none := h₁.current
    have hs'' : h'.state = .start := hsame.state.trans hs'
    refine ⟨?_, by simp [hs''], fun _ => by rw [hsame.sock]; exact hR.start hs', by simp [hs'']⟩
    rw [hs'']
    exact ⟨hcur.trans hn, nofun, nofun, fun _ => hrel ▸ h₁.auto (.inl hn),
      fun h => hfrees ▸ h₁.frees (hfn ▸ h), nofun, fun _ => hctx ▸ h₁.contexts (.inl rfl), nofun,
      nofun, nofun, nofun⟩
  · rw [hs'] at h₁
    have hs'' : h'.state = .negotiating := hsame.state.trans hs'
    have hmode : h'.core.cfg.optMode = h.core.cfg.optMode :=
      hsame.mode.resolve_left (by simp [hs'])
    have hg : h'.core.isFixed = h.core.isFixed := by
      simp only [Core.isFixed, Handle.core, hsame.gflags.resolve_left (by simp [hs'])]
    refine .of_shape ?_ (by rw [hs'']; rfl)
    rw [hs'']
    refine ⟨?_, nofun, fun _ => hrel ▸ h₁.quiet rfl, fun h => hrel ▸ h₁.auto ?_,
      fun h => hfrees ▸ h₁.frees (hfn ▸ h), nofun, fun h => hctx ▸ h₁.contexts ?_, nofun, nofun,
      nofun, fun _ => ?_⟩
    · rw [hmode, hcur]
      exact h₁.current
    · rwa [hmode, hcur] at h
    · rwa [hmode, hcur, hg] at h
    · show h'.sock = true
      rw [hsame.sock]
      exact h₁.sock rfl

theorem setExportName_shape (inp : Input) (hR : RestShape h) (hs : h.state.isConfigurable = true)
    (name : CString) : (setExportName inp h name).All Residual RunShape RestShape := by
  unfold setExportName
  refine submit_ite_all.mpr ⟨fun _ => setError_rest hR _ _, fun _ => submit_ite_all.mpr
    ⟨fun _ => hR, fun _ => submit_ite_all.mpr ⟨fun _ => setError_rest hR _ _, fun _ => ?_⟩⟩⟩
  exact setter_shape hR hs ⟨rfl, .inr rfl, .inr rfl, rfl, rfl, rfl, rfl⟩

theorem addMetaContext_shape (inp : Input) (hR : RestShape h) (hs : h.state.isConfigurable = true)
    (name : CString) : (addMetaContext inp h name).All Residual RunShape RestShape := by
  unfold addMetaContext
  refine submit_ite_all.mpr ⟨fun _ => setError_rest hR _ _, fun _ => submit_ite_all.mpr
    ⟨fun _ => setError_rest hR _ _, fun _ => submit_ite_all.mpr ⟨fun _ => setError_rest hR _ _, fun _ => ?_⟩⟩⟩
  exact setter_shape hR hs ⟨rfl, .inr rfl, .inr rfl, rfl, rfl, rfl, rfl⟩

theorem callSetter_shape (inp : Input) (hR : RestShape h) (s : Setter) :
    (callSetter inp h s).All Residual RunShape RestShape := by
  have hcreated : h.state.isCreated = true → h.state = .start := by simp [State.isCreated]
  have hconf : h.state.isCreated = true → h.state.isConfigurable = true := by
    simp +contextual [State.isConfigurable]
  cases s with
  | setTls tls =>
    exact permitted_all (setError_rest hR) fun hs => setter_shape hR (hconf hs) ⟨rfl, .inr rfl, .inr rfl, rfl, rfl, rfl, rfl⟩
  | setOptMode b =>
    exact permitted_all (setError_rest hR) fun hs =>
      setter_shape hR (hconf hs) ⟨rfl, .inl (hcreated hs), .inr rfl, rfl, rfl, rfl, rfl⟩
  | setHandshakeFlags flags =>
    refine permitted_all (setError_rest hR) fun hs => submit_ite_all.mpr ⟨fun _ => setError_rest hR _ _, fun _ => ?_⟩
    exact setter_shape hR (hconf hs) ⟨rfl, .inr rfl, .inl (hcreated hs), rfl, rfl, rfl, rfl⟩
  | setRequestExtendedHeaders b =>
    exact permitted_all (setError_rest hR) fun hs => setter_shape hR (hconf hs) ⟨rfl, .inr rfl, .inr rfl, rfl, rfl, rfl, rfl⟩
  | setRequestStructuredReplies b =>
    exact permitted_all (setError_rest hR) fun hs => setter_shape hR (hconf hs) ⟨rfl, .inr rfl, .inr rfl, rfl, rfl, rfl, rfl⟩
  | setRequestMetaContext b =>
    exact permitted_all (setError_rest hR) fun hs => setter_shape hR hs ⟨rfl, .inr rfl, .inr rfl, rfl, rfl, rfl, rfl⟩
  | setRequestBlockSize b =>
    exact permitted_all (setError_rest hR) fun hs => setter_shape hR hs ⟨rfl, .inr rfl, .inr rfl, rfl, rfl, rfl, rfl⟩
  | setFullInfo b =>
    exact permitted_all (setError_rest hR) fun hs => setter_shape hR hs ⟨rfl, .inr rfl, .inr rfl, rfl, rfl, rfl, rfl⟩
  | setExportName name => exact permitted_all (setError_rest hR) fun hs => setExportName_shape inp hR hs name
  | addMetaContext name => exact permitted_all (setError_rest hR) fun hs => addMetaContext_shape inp hR hs name
  | clearMetaContexts =>
    exact permitted_all (setError_rest hR) fun hs => setter_shape hR hs ⟨rfl, .inr rfl, .inr rfl, rfl, rfl, rfl, rfl⟩

/-- Connecting leaves `START`. -/
theorem run_connect_shape {ev : ExternalEvent} {keep : Bool} (hR : RestShape h) (hs : h.state = .start)
    {s : State} (hev : externalEvent ev .start = some s)
    (hs' : s.opensSock = true ∧ s.isFresh = true ∧ s.hasSock = false) :
    (Submit.run ev keep h).All Residual RunShape RestShape := by
  have h₁ := hR.shape
  rw [hs] at h₁
  refine ⟨fun s' he => ?_, fun he => ?_⟩
  · rw [hs, hev] at he
    cases he
    refine ⟨h₁.fresh rfl ?_ hs'.2.1, fun _ => hR.start hs⟩
    cases s <;> simp_all [Shape.Covers, State.isFresh, State.opensSock, State.needsFixed,
      State.isAsking, State.isDescribing, State.hasSock]
  · rw [hs, hev] at he
    cases he

theorem aioConnect_shape (inp : Input) (hR : RestShape h) (hs : h.state = .start) (addr : Address) :
    (aioConnect inp h addr).All Residual RunShape RestShape := by
  have h₁ := hR.shape
  rw [hs] at h₁
  cases addr with
  | sockAddr => exact run_connect_shape hR hs rfl ⟨rfl, rfl, rfl⟩
  | tcp =>
    exact submit_ite_all.mpr ⟨fun _ => run_connect_shape hR hs rfl ⟨rfl, rfl, rfl⟩,
      fun _ => setError_rest hR _ _⟩
  | command =>
    exact submit_ite_all.mpr ⟨fun _ => run_connect_shape hR hs rfl ⟨rfl, rfl, rfl⟩,
      fun _ => setError_rest hR _ _⟩
  | systemdSocketActivation =>
    exact submit_ite_all.mpr ⟨fun _ => run_connect_shape hR hs rfl ⟨rfl, rfl, rfl⟩,
      fun _ => setError_rest hR _ _⟩
  | socket =>
    refine submit_ite_all.mpr ⟨fun _ => ⟨fun s he => ?_, fun he => ?_⟩, fun _ => setError_rest hR _ _⟩
    · rw [show ({ h with sock := true } : Handle).state = .start from hs] at he
      cases he
      exact .of_shape (h₁.connected rfl) rfl
    · rw [show ({ h with sock := true } : Handle).state = .start from hs] at he
      cases he

/-- An option is asked for: its callbacks are new and the state machine starts. -/
theorem ask_shape (o : Opt) (cb : OptCb) {h' : Handle} (hR : RestShape h)
    (hs : h.state = .negotiating) (hs' : h'.state = .negotiating)
    (hcore : h'.core = { h.core with optCurrent := some o, optCb := cb }) (hne : o ≠ .exportName)
    (hfn : cb.fn.isNull = !(o == .list || o == .listMetaContext || o == .setMetaContext))
    (hfixed : o ≠ .go → o ≠ .abort → h.isFixed = true) :
    (Submit.run .cmdIssue false h').All Residual RunShape RestShape := by
  have h₁ := hR.shape
  rw [hs] at h₁
  have hmode : h.core.cfg.optMode = true := h₁.current.1
  refine ⟨fun s he => ?_, fun he => ?_⟩
  · rw [hs'] at he
    cases he
    refine .of_shape ?_ rfl
    show Shape h'.core .newstyleStart
    rw [hcore]
    have hfrees : Core.freesFn { h.core with optCurrent := some o, optCb := cb } =
        (o == .list || o == .listMetaContext || o == .setMetaContext) := by
      simp [Core.freesFn]
    refine ⟨.inr ⟨hmode, ?_⟩, nofun, nofun, fun h => ?_, fun h => ?_, fun _ h => ?_, fun h => ?_, nofun,
      nofun, fun _ _ h₂ h₃ => ?_, fun _ => h₁.sock rfl⟩
    · simpa using hne
    · rcases h with h | h
      · cases h
      · exact absurd (hmode.symm.trans h) nofun
    · rw [hfrees]
      rwa [show cb.fn.isNull = _ from hfn, Bool.not_eq_false'] at h
    · rw [hfrees] at h
      rw [show cb.fn.isNull = _ from hfn, h]
      rfl
    · rcases h with h | h | ⟨h, -⟩
      · cases h
      · exact h₁.contexts (.inr (.inl h))
      · cases h
    · exact hfixed (by simpa using h₂) (by simpa using h₃)
  · rw [hs'] at he
    cases he

theorem fn_null_of_rest (hR : RestShape h) (hs : h.state = .negotiating) :
    h.optCb.fn.isNull = true := by
  have h₁ := hR.shape
  rw [hs] at h₁
  have := h₁.quiet rfl
  simp only [Core.released, Bool.and_eq_true] at this
  exact this.1

theorem plainOption_shape {o : Opt} (hR : RestShape h) (completion : Closure)
    (ho : o = .go) : (plainOption h o completion).All Residual RunShape RestShape := by
  subst ho
  refine permitted_all (setError_rest hR) fun hn => ?_
  have hs : h.state = .negotiating := by simpa [State.isNegotiating] using hn
  refine ask_shape .go ⟨_, h.optCb.fn, completion⟩ hR hs hs (by rfl) nofun ?_ fun h => absurd rfl h
  exact fn_null_of_rest hR hs

theorem fixedOption_shape {o : Opt} (hR : RestShape h) (completion : Closure) (hne : o ≠ .exportName)
    (ho : (o == .list || o == .listMetaContext || o == .setMetaContext) = false) :
    (fixedOption h o completion).All Residual RunShape RestShape := by
  refine permitted_all (setError_rest hR) fun hn => needFixed_all (setError_rest hR) fun hf => ?_
  have hs : h.state = .negotiating := by simpa [State.isNegotiating] using hn
  refine ask_shape o ⟨_, h.optCb.fn, completion⟩ hR hs hs (by rfl) hne ?_ fun _ _ => hf
  rw [ho]
  exact fn_null_of_rest hR hs

theorem aioOptAbort_shape (hR : RestShape h) :
    (aioOptAbort h).All Residual RunShape RestShape := by
  refine permitted_all (setError_rest hR) fun hn => ?_
  have hs : h.state = .negotiating := by simpa [State.isNegotiating] using hn
  exact ask_shape .abort h.optCb hR hs hs (by rfl) nofun (fn_null_of_rest hR hs)
    fun _ h => absurd rfl h

theorem aioOptList_shape (hR : RestShape h) (list completion : Closure) :
    (aioOptList h list completion).All Residual RunShape RestShape := by
  refine permitted_all (setError_rest hR) fun hn => needCallback_all (setError_rest hR) fun hl => needFixed_all (setError_rest hR) fun hf => ?_
  have hs : h.state = .negotiating := by simpa [State.isNegotiating] using hn
  refine submit_ite_all.mpr ⟨fun _ => ?_, fun h' => absurd (fn_null_of_rest hR hs) h'⟩
  exact ask_shape .list ⟨_, list, completion⟩ hR hs hs (by rfl) nofun hl fun _ _ => hf

theorem aioOptMetaContextQueries_shape (inp : Input) {o : Opt} (hR : RestShape h)
    (ho : o = .listMetaContext ∨ o = .setMetaContext) (queries : Option (List CString))
    (context completion : Closure) :
    (aioOptMetaContextQueries inp h o queries context completion).All Residual RunShape
      RestShape := by
  refine permitted_all (setError_rest hR) fun hn => needCallback_all (setError_rest hR) fun hl => needFixed_all (setError_rest hR) fun hf => ?_
  have hs : h.state = .negotiating := by simpa [State.isNegotiating] using hn
  have hR' : RestShape (setQuerylist inp h queries).1 := by
    simp only [setQuerylist]
    split
    · exact ⟨hR.shape, hR.ended, hR.start, hR.connecting⟩
    · exact ⟨hR.shape, hR.ended, hR.start, hR.connecting⟩
  have hs' : (setQuerylist inp h queries).1.state = .negotiating := by
    simp only [setQuerylist]
    split <;> exact hs
  have hf' : (setQuerylist inp h queries).1.isFixed = true := by
    simp only [setQuerylist]
    split <;> exact hf
  refine submit_ite_all.mpr ⟨fun _ => hR', fun _ => submit_ite_all.mpr ⟨fun _ => ?_, fun h' =>
    absurd (fn_null_of_rest hR' hs') h'⟩⟩
  refine ask_shape o ⟨_, context, completion⟩ hR' hs' hs' (by rfl) ?_ ?_ fun _ _ => hf'
  · rcases ho with rfl | rfl <;> exact nofun
  · rcases ho with rfl | rfl <;> exact hl

theorem State.receiving_spec {s : State} (hs : s.isReceiving = true) : s.isBetween = true := by
  cases s <;> simp_all [State.isReceiving, State.isBetween, State.opensSock]

theorem State.sending_spec {s : State} (hs : s.isSending = true) : s.isBetween = true := by
  cases s <;> simp_all [State.isSending, State.isBetween, State.opensSock]

theorem notifyRead_shape (hR : RestShape h) {keep : Bool} :
    (Submit.run .notifyRead keep h).All Residual RunShape RestShape := by
  refine ⟨fun s he => ?_, fun _ => setError_rest hR⟩
  obtain ⟨hr, rfl⟩ := externalEvent_notifyRead he
  exact .of_shape hR.shape (State.receiving_spec hr)

theorem notifyWrite_shape (hR : RestShape h) {keep : Bool} :
    (Submit.run .notifyWrite keep h).All Residual RunShape RestShape := by
  have h₁ := hR.shape
  -- The socket was opened when the state was entered.
  have hopen : h.state.isFresh = true → h.sock = true → Shape h.core .magicStart := by
    intro hf hsock
    have := h₁.connected hf
    rwa [← hsock] at this
  refine ⟨fun s he => ?_, fun _ => setError_rest hR⟩
  obtain ⟨hs, rfl⟩ | ⟨hs, rfl⟩ | ⟨hs, rfl⟩ := externalEvent_notifyWrite he
  · refine .of_shape ((hopen (by rw [hs]; rfl) (hR.connecting (.inl hs))).fresh rfl rfl rfl) rfl
  · refine .of_shape ((hopen (by rw [hs]; rfl) (hR.connecting (.inr hs))).fresh rfl rfl rfl) rfl
  · exact .of_shape hR.shape (State.sending_spec hs)

theorem submit_shape (inp : Input) (hR : RestShape h) (api : Api) :
    (submit inp h api).All Residual RunShape RestShape := by
  cases api with
  | set s => exact callSetter_shape inp hR s
  | aioConnect addr =>
    exact permitted_all (setError_rest hR) fun hs => aioConnect_shape inp hR (by simpa [State.isCreated] using hs) addr
  | aioOptGo completion => exact plainOption_shape hR completion rfl
  | aioOptInfo completion => exact fixedOption_shape hR completion nofun rfl
  | aioOptAbort => exact aioOptAbort_shape hR
  | aioOptStarttls completion => exact fixedOption_shape hR completion nofun rfl
  | aioOptExtendedHeaders completion => exact fixedOption_shape hR completion nofun rfl
  | aioOptStructuredReply completion => exact fixedOption_shape hR completion nofun rfl
  | aioOptList list completion => exact aioOptList_shape hR list completion
  | aioOptListMetaContext queries context completion =>
    exact aioOptMetaContextQueries_shape inp hR (.inl rfl) queries context completion
  | aioOptSetMetaContext queries context completion =>
    exact aioOptMetaContextQueries_shape inp hR (.inr rfl) queries context completion
  | aioNotifyRead => exact notifyRead_shape hR
  | aioNotifyWrite => exact notifyWrite_shape hR

theorem create_shape (sbuf : Mem) : RestShape (.create sbuf) :=
  ⟨⟨rfl, nofun, nofun, fun _ => rfl, nofun, nofun, fun _ => rfl, nofun, nofun, nofun, nofun⟩,
    fun _ => rfl, fun _ => rfl, by simp [Handle.create]⟩

theorem step_shape (c : Config) (l : Label) (c' : Config) (hc : c.Holds Residual RunShape RestShape)
    (hstep : machine.step c l = some c') : c'.Holds Residual RunShape RestShape :=
  step_holds (fun inp _ hS => enter_shape inp hS)
    (fun inp h api hR => submit_shape inp (h := { h with lastError := inp.lastError })
      ⟨hR.shape, hR.ended, hR.start, hR.connecting⟩ api) c l c' hc hstep

/-- In every reachable configuration the option in progress fits the state, and
the process dies only for one of the residual reasons. -/
theorem reachable_shape {c : Config} (hc : machine.Reachable c) :
    c.Holds Residual RunShape RestShape := by
  refine machine.reachable_invariant ?_ step_shape hc
  rintro c ⟨sbuf, rfl⟩
  exact create_shape sbuf

end Libnbd.Negotiation
