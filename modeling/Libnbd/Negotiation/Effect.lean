import Libnbd.Negotiation.Shape

/-!
What one state's code and one API call can do to the callbacks of an option and
to the metadata contexts.

`View` is the part of the handle that these depend on, `Change` and `Effect` list
everything that entering a state may do to it, and `CallEffect` everything that
an API call may do. `enter_effect` and `submit_effect` prove the lists complete,
so that later invariants need not look at the states again.
-/

namespace Libnbd.Negotiation

open Lib

/-! ## The view -/

structure View where
  state : State
  cfg : Settings
  fixed : Bool
  structuredReplies : Bool
  metaValid : Bool
  metaContexts : List (CString × UInt32)
  optCurrent : Option Opt
  optCb : OptCb
  nextId : Nat
  trace : List Event

def Handle.view (h : Handle) : View where
  state := h.state
  cfg := h.cfg
  fixed := h.isFixed
  structuredReplies := h.exp.structuredReplies
  metaValid := h.exp.metaValid
  metaContexts := h.exp.metaContexts
  optCurrent := h.optCurrent
  optCb := h.optCb
  nextId := h.nextId
  trace := h.trace

namespace View

def freesFn (v : View) : Bool :=
  v.optCurrent == some .list || v.optCurrent == some .listMetaContext ||
    v.optCurrent == some .setMetaContext

def nothingRequested (v : View) : Bool :=
  v.cfg.requestMeta && (!v.structuredReplies || v.cfg.requestMetaContexts.isEmpty)

def log (v : View) (es : List Event) : View := { v with trace := v.trace ++ es }

/-- The option is completed with `err` and freed. -/
def complete (v : View) (err : UInt32) : View :=
  { v with
    optCb := { v.optCb with
      fn := if v.freesFn then .null else v.optCb.fn
      completion := .null }
    trace := v.trace ++ (if v.optCb.completion.callback then [Event.completion v.optCb.id err] else []) ++
      (if v.freesFn && v.optCb.fn.free then [Event.freeFn v.optCb.id] else []) ++
      (if v.optCb.completion.free then [Event.freeCompletion v.optCb.id] else []) }

/-- No context is known. -/
def reset (v : View) : View := { v with metaContexts := [], metaValid := false }

end View

namespace State

/-- The states in which the export is described, `EXPORT_NAME.START` apart. -/
def inDescription : State → Bool
  | optStart .go | optSend .go | optRecvReply .go | optRecvReplyPayload .go | optCheckReply .go
  | goSendExportnamelen | goSendExport | goSendNrinfos | goSendInfo
  | exportNameSend | exportNameSendExport | exportNameRecvReply | exportNameCheckReply
  | oldstyleRecvRemaining | oldstyleCheck => true
  | _ => false

/-- The states in which an option reply payload is received or interpreted. -/
def inPayload : State → Bool
  | optRecvReplyPayload _ | optCheckReply _ => true
  | _ => false

/-- The states that receive an option reply. -/
def isIncoming : State → Bool
  | optRecvReply _ | optRecvReplyPayload _ => true
  | _ => false

/-- The states about which the invariants say nothing. -/
def isNeutral (s : State) : Bool :=
  !s.isAsking && !s.inDescription && !s.inPayload && s != .exportNameStart

/-- A change of state within one exchange or one description, or to a neutral
state. -/
def Keeps (s s' : State) : Bool :=
  (!s'.isAsking || s.isAsking) && (!s'.inDescription || s.inDescription) &&
    (!s'.inPayload || s.isIncoming) && s' != .exportNameStart

end State

/-! ## Effects of a state -/

/-- What happens apart from callbacks, with the states it leads to. -/
inductive Change (v : View) : State → View → Prop where
  | move (s : State) (hs : v.state.Keeps s = true) : Change v s v
  | listing (hl : v.optCurrent = some .listMetaContext) : Change v (.optSend .metaContext) v
  | exportName (hf : v.fixed = false) : Change v .exportNameStart v
  | fallback (hd : v.state = .optCheckReply .go) : Change v .exportNameStart v
  | named (hd : v.state = .exportNameStart) (hf : v.fixed = true) : Change v .exportNameSend v
  | unasked (hn : v.nothingRequested = false) : Change v (.optStart .go) v
  | gflags (fixed : Bool) (s : State) (hs : s.isNeutral = true) :
    Change v s { v with fixed := fixed }
  | described (fixed valid : Bool) (s : State) (hd : v.state.inDescription = true)
      (hs : v.state.Keeps s = true)
      (hv : valid = v.metaValid ∨ valid = true ∧ v.nothingRequested = true ∧ v.metaContexts = []) :
    Change v s { v with fixed := fixed, metaValid := valid }
  | structured (b : Bool) (s : State) (hs : s.isNeutral = true) :
    Change v s { v with structuredReplies := b }
  | tlsAck (s : State) (hs : s.isNeutral = true) :
    Change v s { v with
      structuredReplies := false, metaValid := false, trace := v.trace ++ [Event.tlsAck] }
  | skipped (s : State) (hs : s.inDescription = true) (hp : s.isAsking = false)
      (hq : s.inPayload = false) (hv : v.state = .oldstyleStart ∨ v.fixed = false) :
    Change v s (v.log [.metaSkipped v.cfg.exportName])
  | reset (s : State) (hs : s.isNeutral = true) : Change v s v.reset
  | resetSkipped : Change v (.optStart .go) (v.reset.log [.metaSkipped v.cfg.exportName])
  | requested : Change v (.optSend .metaContext) (v.reset.log [.metaRequest v.cfg.exportName])
  | acked (s : State)
      (hs : s.isNeutral = true ∨ s = .optStart .go ∧ v.optCurrent ≠ some .setMetaContext)
      (hc : v.state = .optCheckReply .metaContext) (ho : v.optCurrent ≠ some .listMetaContext) :
    Change v s { v with metaValid := true, trace := v.trace ++ [Event.metaAck] }
  | refused (s : State) (hs : s.isNeutral = true) (hc : v.state = .optCheckReply .metaContext)
      (ho : v.optCurrent ≠ some .listMetaContext) :
    Change v s (v.log [.metaRefused])
  | passedOver (hc : v.state = .optCheckReply .metaContext)
      (ho : v.optCurrent ≠ some .listMetaContext) (ho' : v.optCurrent ≠ some .setMetaContext) :
    Change v (.optStart .go)
      { v with metaValid := v.metaContexts.isEmpty, trace := v.trace ++ [Event.metaRefused] }
  | goFailed (s : State) (hs : s.isNeutral = true) :
    Change v s { v with metaValid := false, trace := v.trace ++ [Event.goFailed] }
  | current (hd : v.state = .optStart .go) (hn : v.optCurrent = none) :
    Change v (.optSend .go) { v with optCurrent := some .go }

/-- Everything that entering a state may do. -/
inductive Effect (v : View) : View → Prop where
  | change (s : State) (v₁ : View) (hc : Change v s v₁) : Effect v { v₁ with state := s }
  | complete (err : UInt32) (s : State) (v₁ : View) (hc : Change v s v₁)
      (hs : s.isNeutral = true) :
    Effect v { v₁.complete err with state := s }
  | list (name description : CString) (hl : v.state = .optCheckReply .list) :
    Effect v { v.log (if v.optCb.fn.callback then [.list v.optCb.id name description] else [])
      with state := .optRecvReply .list }
  | context (name : CString) (s : State) (hc : v.state = .optCheckReply .metaContext)
      (hs : s = .metaPrepareForReply ∨ s = .dead) :
    Effect v { v.log (if v.optCb.fn.callback then [.context v.optCb.id name] else [])
      with state := s }
  | kept (name : CString) (id : UInt32) (hc : v.state = .optCheckReply .metaContext)
      (ho : v.optCurrent ≠ some .listMetaContext) :
    Effect v { v with
      metaContexts := v.metaContexts ++ [(name, id)]
      trace := v.trace ++ (if v.optCb.fn.callback then [Event.context v.optCb.id name] else []) ++
        [Event.metaContext name id]
      state := .metaPrepareForReply }

/-- The state's code or the call leads to `h'`. -/
abbrev Leads (h h' : Handle) : Prop := Effect h.view h'.view

variable {inp : Input} {h h' : Handle}

/-- Nothing but the state changes. -/
theorem effect_move {s s' : State} (hs : h.state = s) (hk : s.Keeps s' = true)
    (he : h'.view = { h.view with state := s' }) : Leads h h' := by
  unfold Leads
  rw [he]
  exact .change s' h.view (.move s' (by rw [show h.view.state = s from hs]; exact hk))

theorem State.keeps_dead (s : State) : s.Keeps .dead = true := by cases s <;> rfl

theorem effect_dead (he : h'.view = { h.view with state := .dead }) : Leads h h' :=
  effect_move rfl (State.keeps_dead _) he

theorem effect_stay {s : State} (hs : h.state = s) (hk : s.Keeps s = true) (he : h'.view = h.view) :
    Leads h h' :=
  effect_move hs hk (by rw [he, ← hs]; rfl)

/-- An option is completed. -/
theorem effect_complete (h₁ : Handle) {s : State} {err : UInt32} (hc : Change h.view s h₁.view)
    (hs : s.isNeutral = true) (he : h' = { h₁.completeOption err with state := s }) :
    Leads h h' := by
  subst he
  exact .complete err s h₁.view hc hs

/-- An outcome that is one of the effects. -/
abbrev Outcome.Effects (o : Outcome) (h : Handle) : Prop :=
  o.All (fun _ => True) (Leads h) (Leads h)

theorem recv_effects {s : State} {k : Handle → Outcome} (hs : h.state = s) (hk : s.Keeps s = true)
    (hdone : ∀ bs, (k (h.store bs)).Effects h) : (recvThen inp k h).Effects h :=
  recvThen_all (fun _ _ => effect_dead rfl) (fun _ _ => effect_stay hs hk rfl)
    fun bs _ => hdone bs

theorem send_effects {s : State} {k : Handle → Outcome} (hs : h.state = s) (hk : s.Keeps s = true)
    (hdone : ∀ n, (k { h.advance n with wflags := false }).Effects h) :
    (sendThen inp k h).Effects h :=
  sendThen_all (fun _ _ => effect_dead rfl) (fun _ => effect_stay hs hk rfl) fun n _ => hdone n

theorem handleReplyError_effects {k : Handle → Outcome}
    (hk : ∀ e t, (k (h.setError e t)).Effects h) : (handleReplyError inp h k).Effects h :=
  handleReplyError_all (fun _ _ => effect_dead rfl) (fun _ _ => trivial) fun _ _ e t => hk e t

/-! ## Connecting and the handshake -/

section States

variable (inp) {s : State}

theorem enterConnectStart_effects (hs : h.state = .connectStart) :
    (enterConnectStart inp h).Effects h := by
  simp only [enterConnectStart, require_all, ite_all, die_all, block_all]
  exact ⟨fun _ => ⟨fun _ => effect_dead rfl, fun _ => ⟨fun _ => effect_dead rfl, fun _ =>
    ⟨fun _ => effect_stay hs rfl rfl, fun _ => effect_dead rfl⟩⟩⟩, fun _ => trivial⟩

theorem enterConnectConnecting_effects (hs : h.state = .connectConnecting) :
    (enterConnectConnecting inp h).Effects h := by
  unfold enterConnectConnecting
  split
  · exact effect_dead rfl
  · exact ite_all.mpr ⟨fun _ => effect_move hs rfl rfl, fun _ => effect_dead rfl⟩

theorem enterConnectTcpStart_effects (hs : h.state = .connectTcpStart) :
    (enterConnectTcpStart inp h).Effects h := by
  unfold enterConnectTcpStart
  split
  · exact effect_move hs rfl rfl
  · exact effect_move hs rfl rfl

theorem enterConnectTcpConnect_effects (hs : h.state = .connectTcpConnect) :
    (enterConnectTcpConnect inp h).Effects h := by
  simp only [enterConnectTcpConnect, require_all, ite_all, die_all, goto_all, fail_all]
  exact ⟨fun _ => ⟨fun _ => effect_move hs rfl rfl, fun _ => ⟨fun _ => effect_move hs rfl rfl, fun _ =>
    ⟨fun _ => effect_dead rfl, fun _ => ⟨fun _ => effect_move hs rfl rfl, fun _ => effect_move hs rfl rfl⟩⟩⟩⟩,
    fun _ => trivial⟩

theorem enterConnectTcpConnecting_effects (hs : h.state = .connectTcpConnecting) :
    (enterConnectTcpConnecting inp h).Effects h := by
  unfold enterConnectTcpConnecting
  split
  · exact effect_dead rfl
  · exact ite_all.mpr ⟨fun _ => effect_move hs rfl rfl, fun _ => effect_move hs rfl rfl⟩

theorem enterConnectCommandStart_effects (hs : h.state = .connectCommandStart) :
    (enterConnectCommandStart inp h).Effects h := by
  simp only [enterConnectCommandStart, require_all, ite_all, die_all, goto_all]
  exact ⟨fun _ => ⟨fun _ => effect_move hs rfl rfl, fun _ => effect_dead rfl⟩, fun _ => trivial⟩

theorem enterConnectSaStart_effects (hs : h.state = .connectSaStart) :
    (enterConnectSaStart inp h).Effects h := by
  simp only [enterConnectSaStart, require_all, ite_all, die_all, goto_all]
  exact ⟨fun _ => ⟨fun _ => effect_move hs rfl rfl, fun _ => effect_dead rfl⟩, fun _ => trivial⟩

theorem enterMagicCheckMagic_effects (hs : h.state = .magicCheckMagic) :
    (enterMagicCheckMagic h).Effects h := by
  simp only [enterMagicCheckMagic, require_all, ite_all, die_all, goto_all]
  exact ⟨fun _ => effect_dead rfl, fun _ => ⟨fun _ => ⟨fun _ => effect_move hs rfl rfl, fun _ => trivial⟩,
    fun _ => ⟨fun _ => effect_move hs rfl rfl, fun _ => effect_dead rfl⟩⟩⟩

theorem enterOldstyleStart_effects (hs : h.state = .oldstyleStart) :
    (enterOldstyleStart h).Effects h :=
  Effect.change (v := h.view) .oldstyleRecvRemaining _ (.skipped _ rfl rfl rfl (.inl hs))

/-- The description of an export decides whether the contexts are valid. -/
theorem setSizeAndFlags_effects {h₁ : Handle} {exportsize : UInt64} {eflags : UInt16} {k : Handle → Outcome}
    (hdead : ∀ e t, Leads h { h₁ with lastError := some (e, t), state := .dead })
    (hk : ∀ h₂ : Handle,
      (∃ valid, h₂.view = { h₁.view with metaValid := valid } ∧
        (valid = h₁.exp.metaValid ∨
          valid = true ∧ h₁.nothingRequested = true ∧ h₁.exp.metaContexts = [])) →
      (k h₂).Effects h) :
    (setSizeAndFlags h₁ exportsize eflags k).Effects h := by
  refine setSizeAndFlags_all hdead (fun _ _ => trivial) fun v hv => hk _ ⟨v, rfl, ?_⟩
  rcases hv with ⟨rfl, -⟩ | hv
  · exact .inl rfl
  · exact .inr hv

theorem enterOldstyleCheck_effects (hs : h.state = .oldstyleCheck) :
    (enterOldstyleCheck h).Effects h := by
  simp only [enterOldstyleCheck, ite_all, die_all]
  refine ⟨fun _ => effect_dead rfl, fun _ => ⟨fun _ => .change .dead _ (.gflags _ _ rfl), fun _ => ?_⟩⟩
  refine setSizeAndFlags_effects (fun _ _ => .change .dead _ (.gflags _ _ rfl))
    fun h₂ hsz => ?_
  obtain ⟨valid, he, hv⟩ := hsz
  have he' : ({ h₂.setPayload with
      exp := { h₂.setPayload.exp with protocol := some .oldstyle }, state := .ready } : Handle).view =
      { h₂.view with state := .ready } := rfl
  show Effect _ _
  rw [he', he]
  exact .change .ready _ (.described _ valid .ready (by rw [show h.view.state = _ from hs]; rfl)
    (by rw [show h.view.state = _ from hs]; rfl) hv)

theorem newstyleGflags_effects (hs : h.state = .newstyleStart) : (newstyleGflags h).Effects h := by
  simp only [newstyleGflags, require_all, goto_all]
  exact ⟨fun _ => effect_move hs rfl rfl, fun _ => trivial⟩

theorem enterNewstyleStart_effects (hs : h.state = .newstyleStart) :
    (enterNewstyleStart h).Effects h := by
  have hgo : (if h.isFixed then goto (.optStart .metaContext) h else goto .exportNameStart h).Effects
      h := by
    refine ite_all.mpr ⟨fun _ => effect_move hs rfl rfl, fun hf => ?_⟩
    exact .change _ h.view (.exportName (eq_false_of_ne_true hf))
  unfold enterNewstyleStart
  refine ite_all.mpr ⟨fun _ => ?_, fun _ => newstyleGflags_effects hs⟩
  split
  · exact hgo
  · exact hgo
  · exact effect_move hs rfl rfl
  · exact ite_all.mpr ⟨fun _ => effect_move hs rfl rfl, fun _ => effect_dead rfl⟩
  · exact effect_move hs rfl rfl
  · exact effect_move hs rfl rfl
  · exact effect_move hs rfl rfl
  · exact effect_move hs rfl rfl
  · exact effect_move hs rfl rfl
  · trivial
  · exact newstyleGflags_effects hs

theorem enterNewstyleCheckGflags_effects : (enterNewstyleCheckGflags h).Effects h := by
  simp only [enterNewstyleCheckGflags, ite_all, die_all, goto_all]
  exact ⟨fun _ => .change .dead _ (.gflags _ _ rfl), fun _ => .change .newstyleSendCflags _ (.gflags _ _ rfl)⟩

theorem enterNewstyleSendCflags_effects (hs : h.state = .newstyleSendCflags) :
    (enterNewstyleSendCflags inp h).Effects h := by
  refine send_effects hs rfl fun n => ?_
  simp only [ite_all, goto_all]
  exact ⟨fun _ => effect_move hs rfl rfl, fun hf => ⟨fun _ => effect_move hs rfl rfl,
    fun _ => .change _ h.view (.exportName (eq_false_of_ne_true hf))⟩⟩

theorem enterNewstyleSendOptionShutdown_effects (hs : h.state = .newstyleSendOptionShutdown) :
    (enterNewstyleSendOptionShutdown inp h).Effects h := by
  unfold enterNewstyleSendOptionShutdown
  refine ite_all.mpr ⟨fun _ => ?_, fun _ => effect_stay hs rfl rfl⟩
  split
  · exact effect_move hs rfl rfl
  · exact effect_dead rfl

/-! ## Options -/

theorem enterOptSend_effects {g : OptGroup} (hs : h.state = .optSend g) :
    (enterOptSend inp g h).Effects h := by
  refine send_effects hs ?_ fun n => effect_move hs ?_ rfl
  · cases g <;> rfl
  · cases g <;> rfl

theorem enterOptRecvReply_effects {g : OptGroup} (hs : h.state = .optRecvReply g) :
    (enterOptRecvReply inp g h).Effects h := by
  refine recv_effects hs (by cases g <;> rfl) fun bs => ?_
  split
  · exact effect_dead rfl
  · rename_i h' hp
    obtain ⟨rfl, -⟩ := prepareForReplyPayload_ok hp
    exact effect_move hs (by cases g <;> rfl) rfl

theorem enterOptRecvReplyPayload_effects {g : OptGroup} (hs : h.state = .optRecvReplyPayload g) :
    (enterOptRecvReplyPayload inp g h).Effects h :=
  recv_effects hs (by cases g <;> rfl) fun bs => effect_move hs (by cases g <;> rfl) rfl

theorem enterStarttlsStart_effects (hs : h.state = .optStart .starttls) :
    (enterStarttlsStart h).Effects h := by
  simp only [enterStarttlsStart, require_all, ite_all, goto_all]
  exact ⟨fun _ => ⟨fun _ => ⟨fun _ => effect_move hs rfl rfl, fun _ => trivial⟩, fun _ =>
    ⟨fun _ => effect_move hs rfl rfl, fun _ => ⟨fun _ => effect_move hs rfl rfl, fun _ => trivial⟩⟩⟩,
    fun _ => trivial⟩

/-- The option is over and the state is neutral. -/
theorem completed_effects {h₁ : Handle} {g : OptGroup} {o : Opt} {err : UInt32} (hs : h.state = s)
    (hk : s.Keeps .negotiating = true) (hk' : s.Keeps (.optStart g) = true)
    (hg : (State.optStart g).isNeutral = true) (hv : h₁.view = h.view) :
    Leads h { h₁.completeOption err with
      state := if h₁.optCurrent = some o then .negotiating else .optStart g } := by
  have hmove : ∀ s', s.Keeps s' = true → Change h.view s' h₁.view := by
    intro s' hk
    rw [hv]
    exact .move s' (by rw [show h.view.state = s from hs]; exact hk)
  split
  · exact effect_complete h₁ (hmove _ hk) rfl rfl
  · exact effect_complete h₁ (hmove _ hk') hg rfl

theorem enterStarttlsCheckReply_effects (hs : h.state = .optCheckReply .starttls) :
    (enterStarttlsCheckReply inp h).Effects h := by
  unfold enterStarttlsCheckReply
  refine ite_all.mpr ⟨fun _ => ite_all.mpr ⟨fun _ => effect_dead rfl, fun _ => ?_⟩, fun _ => ?_⟩
  · refine ite_all.mpr ⟨fun _ => ?_, fun _ => .change .dead _ (.tlsAck _ rfl)⟩
    simp only [goto_all, handshakeState]
    split
    · exact .change .tlsHandshakeRead _ (.tlsAck _ rfl)
    · exact .change .tlsHandshakeWrite _ (.tlsAck _ rfl)
  · refine handleReplyError_effects fun e t => ite_all.mpr ⟨fun _ => effect_move hs rfl rfl, fun _ => ?_⟩
    exact completed_effects (s := .optCheckReply .starttls) hs rfl rfl rfl rfl

theorem enterTlsHandshake_effects (hs : h.state = s)
    (hs' : s = .tlsHandshakeRead ∨ s = .tlsHandshakeWrite) :
    (enterTlsHandshake inp h).Effects h := by
  unfold enterTlsHandshake
  split
  · exact effect_dead rfl
  · rcases hs' with rfl | rfl <;> exact effect_move hs rfl rfl
  · simp only [goto_all, handshakeState]
    split
    · rcases hs' with rfl | rfl <;> exact effect_move hs rfl rfl
    · rcases hs' with rfl | rfl <;> exact effect_move hs rfl rfl

theorem enterTlsHandshakeDone_effects (hs : h.state = .tlsHandshakeDone) :
    (enterTlsHandshakeDone h).Effects h :=
  completed_effects (s := .tlsHandshakeDone) (o := .starttls) (g := .extendedHeaders) hs rfl rfl rfl
    rfl

theorem enterExtendedHeadersStart_effects (hs : h.state = .optStart .extendedHeaders) :
    (enterExtendedHeadersStart h).Effects h := by
  simp only [enterExtendedHeadersStart, require_all, ite_all, goto_all]
  exact ⟨fun _ => ⟨fun _ => ⟨fun _ => effect_move hs rfl rfl, fun _ => trivial⟩, fun _ =>
    ⟨fun _ => ⟨fun _ => effect_move hs rfl rfl, fun _ => effect_move hs rfl rfl⟩, fun _ => trivial⟩⟩,
    fun _ => trivial⟩

theorem enterExtendedHeadersCheckReply_effects (hs : h.state = .optCheckReply .extendedHeaders) :
    (enterExtendedHeadersCheckReply inp h).Effects h := by
  unfold enterExtendedHeadersCheckReply
  refine ite_all.mpr ⟨fun _ => ?_, fun _ => handleReplyError_effects fun e t => ?_⟩
  · show Leads h _
    dsimp only
    split
    · exact .complete 0 .negotiating _ (.structured true _ rfl) rfl
    · exact .complete 0 (.optStart .structuredReply) _ (.structured true _ rfl) rfl
  · exact completed_effects (s := .optCheckReply .extendedHeaders) (o := .extendedHeaders)
      (g := .structuredReply) hs rfl rfl rfl rfl

theorem afterStructuredReply_neutral (h : Handle) : (afterStructuredReply h).isNeutral = true := by
  unfold afterStructuredReply
  split <;> rfl

theorem State.keeps_of_neutral {s s' : State} (hn : s'.isNeutral = true) : s.Keeps s' = true := by
  simp only [State.isNeutral, Bool.and_eq_true, Bool.not_eq_true'] at hn
  simp [State.Keeps, hn.1.1.1, hn.1.1.2, hn.1.2, hn.2]

theorem enterStructuredReplyStart_effects (hs : h.state = .optStart .structuredReply) :
    (enterStructuredReplyStart h).Effects h := by
  simp only [enterStructuredReplyStart, require_all, ite_all, goto_all]
  refine ⟨fun _ => ⟨fun _ => ⟨fun _ => effect_move hs rfl rfl, fun _ => trivial⟩, fun _ =>
    ⟨fun _ => ⟨fun _ => ?_, fun _ => effect_move hs rfl rfl⟩, fun _ => trivial⟩⟩,
    fun _ => trivial⟩
  exact effect_move hs (State.keeps_of_neutral (afterStructuredReply_neutral h)) rfl

theorem enterStructuredReplyCheckReply_effects :
    (enterStructuredReplyCheckReply inp h).Effects h := by
  unfold enterStructuredReplyCheckReply
  refine ite_all.mpr ⟨fun _ => ?_, fun _ => handleReplyError_effects fun e t => ?_⟩
  · exact .complete 0 (afterStructuredReply h) _
      (.structured true _ (afterStructuredReply_neutral h)) (afterStructuredReply_neutral h)
  · exact .complete _ (afterStructuredReply h) _
      (.move _ (State.keeps_of_neutral (afterStructuredReply_neutral h)))
      (afterStructuredReply_neutral h)

theorem enterListStart_effects (hs : h.state = .optStart .list) : (enterListStart h).Effects h := by
  simp only [enterListStart, require_all, goto_all]
  exact ⟨fun _ => ⟨fun _ => ⟨fun _ => effect_move hs rfl rfl, fun _ => trivial⟩, fun _ => trivial⟩,
    fun _ => trivial⟩

theorem listServer_effects (hs : h.state = .optCheckReply .list) : (listServer inp h).Effects h := by
  unfold listServer
  refine ite_all.mpr ⟨fun _ => effect_move hs rfl rfl, fun _ => ?_⟩
  refine minus_all.mpr ⟨fun _ => poke_all.mpr ⟨fun _ => ?_, fun _ => trivial⟩, fun _ => trivial⟩
  refine fetch_all.mpr ⟨fun _ => ?_, fun _ => trivial⟩
  refine ite_all.mpr ⟨fun _ => effect_dead rfl, fun _ => minus_all.mpr ⟨fun _ => ?_, fun _ => trivial⟩⟩
  refine ite_all.mpr ⟨fun _ => effect_dead rfl, fun _ => ite_all.mpr ⟨fun _ => ?_, fun _ => ?_⟩⟩
  · exact fetch_all.mpr ⟨fun _ => .list _ _ hs, fun _ => trivial⟩
  · refine ite_all.mpr ⟨fun _ => effect_dead rfl, fun _ => fetch_all.mpr ⟨fun _ => ?_, fun _ => trivial⟩⟩
    exact fetch_all.mpr ⟨fun _ => .list _ _ hs, fun _ => trivial⟩

theorem enterListCheckReply_effects (hs : h.state = .optCheckReply .list) :
    (enterListCheckReply inp h).Effects h := by
  unfold enterListCheckReply
  refine ite_all.mpr ⟨fun _ => listServer_effects inp hs, fun _ => ite_all.mpr ⟨fun _ => ?_, fun _ =>
    handleReplyError_effects fun e t => ?_⟩⟩
  · exact .complete 0 .negotiating h.view (.move _ (State.keeps_of_neutral rfl)) rfl
  · exact .complete enotsup .negotiating h.view (.move _ (State.keeps_of_neutral rfl)) rfl

/-! ## Metadata contexts -/

/-- The exchange starts: SET forgets the contexts of earlier ones. -/
theorem metaRequest_list_effects (hl : h.optCurrent = some .listMetaContext) :
    (metaRequest h .listMetaContext).Effects h :=
  .change (.optSend .metaContext) h.view (.listing hl)

theorem metaRequest_set_effects {h₁ : Handle} (hv : h₁.view = h.view.reset) :
    (metaRequest h₁ .setMetaContext).Effects h := by
  have he : ∀ h₂ : Handle, h₂.view = { h₁.view.log [.metaRequest h₁.view.cfg.exportName] with
      state := .optSend .metaContext } → Leads h h₂ := by
    intro h₂ he
    unfold Leads
    rw [he, hv]
    exact .change _ _ .requested
  exact he _ rfl

theorem metaAutomatic_effects :
    (metaAutomatic inp (if h.cfg.requestMeta then h.resetContexts else h)).Effects h := by
  cases hm : h.cfg.requestMeta with
  | false =>
    rw [if_neg nofun]
    unfold metaAutomatic
    refine ite_all.mpr ⟨fun _ => ?_, fun h' => ?_⟩
    · rw [hm, if_neg nofun]
      refine .change _ h.view (.unasked ?_)
      show (h.cfg.requestMeta && _) = false
      rw [hm]
      rfl
    · simp [hm] at h'
  | true =>
    simp only [if_true]
    have hm' : h.resetContexts.cfg.requestMeta = true := hm
    unfold metaAutomatic
    refine ite_all.mpr ⟨fun _ => ?_, fun _ => ?_⟩
    · rw [hm']
      exact .change _ _ .resetSkipped
    · simp only [setQuerylist]
      refine ite_all.mpr ⟨fun hok => ?_, fun hok => ?_⟩
      · simp only [hok, if_true]
        exact metaRequest_set_effects rfl
      · simp only [hok]
        exact .change .dead _ (.reset _ rfl)

theorem enterMetaContextStart_effects :
    (enterMetaContextStart inp h).Effects h := by
  simp only [enterMetaContextStart, require_all, ite_all]
  exact ⟨fun _ => ⟨fun hl => ⟨fun _ => ⟨fun _ => metaRequest_list_effects hl, fun _ => trivial⟩,
    fun _ => trivial⟩, fun _ => ⟨fun _ => ⟨fun _ => metaRequest_set_effects rfl, fun _ => trivial⟩,
    fun _ => ⟨fun _ => metaAutomatic_effects inp, fun _ => trivial⟩⟩⟩, fun _ => trivial⟩

/-- A state that sends and then moves on. -/
theorem sendTo_effects (s' : State) {k : Handle → Outcome} (hs : h.state = s) (hk : s.Keeps s = true)
    (hk' : s.Keeps s' = true)
    (hnext : ∀ n, ∃ h' : Handle, k { h.advance n with wflags := false } = goto s' h' ∧
      h'.view = h.view) :
    (sendThen inp k h).Effects h := by
  refine send_effects hs hk fun n => ?_
  obtain ⟨h', he, hv⟩ := hnext n
  rw [he]
  refine effect_move hs hk' ?_
  show { h'.view with state := s' } = _
  rw [hv]

theorem enterMetaPrepareNextQuery_effects (hs : h.state = .metaPrepareNextQuery) :
    (enterMetaPrepareNextQuery h).Effects h := by
  unfold enterMetaPrepareNextQuery
  split
  · exact effect_move hs rfl rfl
  · exact effect_move hs rfl rfl

theorem groupOption_meta (h : Handle) :
    h.groupOption .metaContext = .listMetaContext ∧ h.optCurrent = some .listMetaContext ∨
      h.groupOption .metaContext = .setMetaContext ∧ h.optCurrent ≠ some .listMetaContext := by
  simp only [Handle.groupOption]
  split
  · exact .inl ⟨rfl, by assumption⟩
  · exact .inr ⟨rfl, by assumption⟩

theorem metaContextReply_effects (hs : h.state = .optCheckReply .metaContext) :
    (metaContextReply inp (h.groupOption .metaContext) h).Effects h := by
  unfold metaContextReply
  refine ite_all.mpr ⟨fun _ => effect_move hs rfl rfl, fun _ => require_all.mpr ⟨fun _ => ?_, fun _ => trivial⟩⟩
  refine fetch_all.mpr ⟨fun _ => minus_all.mpr ⟨fun _ => ?_, fun _ => trivial⟩, fun _ => trivial⟩
  refine fetch_all.mpr ⟨fun _ => ite_all.mpr ⟨fun _ => effect_dead rfl, fun _ => ?_⟩, fun _ => trivial⟩
  refine ite_all.mpr ⟨fun _ => .context _ _ hs (.inl rfl), fun ho => ?_⟩
  refine ite_all.mpr ⟨fun _ => .context _ _ hs (.inr rfl), fun _ => .kept _ _ hs ?_⟩
  rcases groupOption_meta h with ⟨hg, -⟩ | ⟨-, hc⟩
  · exact absurd hg ho
  · exact hc

theorem enterMetaContextCheckReply_effects (hs : h.state = .optCheckReply .metaContext) :
    (enterMetaContextCheckReply inp h).Effects h := by
  unfold enterMetaContextCheckReply
  dsimp only
  refine ite_all.mpr ⟨fun _ => ?_, fun _ => ite_all.mpr ⟨fun _ => metaContextReply_effects inp hs,
    fun _ => handleReplyError_effects fun e t => ?_⟩⟩
  · rcases groupOption_meta h with ⟨hg, hc⟩ | ⟨hg, hc⟩
    · rw [hg, if_neg (show ¬ Opt.listMetaContext = .setMetaContext from nofun), if_pos hc]
      exact .complete 0 .negotiating h.view (.move _ (State.keeps_of_neutral rfl)) rfl
    · rw [hg, if_pos rfl]
      refine ite_all.mpr ⟨fun _ => ?_, fun _ => ?_⟩
      · exact .complete 0 .negotiating _ (.acked _ (.inl rfl) hs hc) rfl
      · exact .change _ _ (.acked _ (.inr ⟨rfl, by assumption⟩) hs hc)
  · rcases groupOption_meta h with ⟨hg, hc⟩ | ⟨hg, hc⟩
    · have hc' : (h.setError e t).optCurrent = some .listMetaContext := hc
      rw [hg, if_neg (show ¬ Opt.listMetaContext = .setMetaContext from nofun), if_pos hc']
      exact .complete enotsup .negotiating h.view (.move _ (State.keeps_of_neutral rfl)) rfl
    · rw [hg, if_pos rfl]
      refine ite_all.mpr ⟨fun _ => ?_, fun ho => ?_⟩
      · exact .complete enotsup .negotiating _ (.refused _ rfl hs hc) rfl
      · exact .change _ _ (.passedOver hs hc ho)

/-! ## GO, INFO and `EXPORT_NAME` -/

theorem enterGoStart_effects (hs : h.state = .optStart .go) : (enterGoStart h).Effects h := by
  simp only [enterGoStart, require_all, ite_all, goto_all]
  exact ⟨fun _ => ⟨fun _ => ⟨fun _ => effect_move hs rfl rfl, fun _ => trivial⟩, fun _ => ⟨fun hn =>
    ⟨fun _ => ⟨fun _ => .change _ _ (.current hs hn), fun _ => trivial⟩, fun _ => trivial⟩,
    fun _ => effect_move hs rfl rfl⟩⟩, fun _ => trivial⟩

theorem goString_effects {which : String} {set : Option CString → Handle}
    (hs : h.state = .optCheckReply .go) (hset : ∀ s, (set s).view = h.view) :
    (goString inp which set h).Effects h := by
  have hawait : ∀ h₁ : Handle, h₁.view = h.view → (awaitReply .go h₁).Effects h := by
    intro h₁ hv
    show Effect h.view { h₁.view with state := .optRecvReply .go }
    rw [hv]
    exact .change _ _ (.move _ (by rw [show h.view.state = _ from hs]; rfl))
  unfold goString
  refine ite_all.mpr ⟨fun _ => effect_dead rfl, fun _ => ?_⟩
  refine minus_all.mpr ⟨fun _ => fetch_all.mpr ⟨fun _ => ?_, fun _ => trivial⟩, fun _ => trivial⟩
  refine ite_all.mpr ⟨fun _ => hawait _ (hset _), fun _ => ?_⟩
  show Effect h.view { (set none).view with state := .dead }
  rw [hset]
  exact .change _ _ (.move _ (State.keeps_dead _))

theorem goInfo_effects (hs : h.state = .optCheckReply .go) : (goInfo inp h).Effects h := by
  unfold goInfo
  refine ite_all.mpr ⟨fun _ => require_all.mpr ⟨fun _ => effect_move hs rfl rfl, fun _ => trivial⟩, fun _ => ?_⟩
  refine require_all.mpr ⟨fun _ => fetch_all.mpr ⟨fun _ => ?_, fun _ => trivial⟩, fun _ => trivial⟩
  refine ite_all.mpr ⟨fun _ => ?_, fun _ => ite_all.mpr ⟨fun _ => ?_, fun _ => ite_all.mpr ⟨fun _ => ?_,
    fun _ => ite_all.mpr ⟨fun _ => ?_, fun _ => effect_move hs rfl rfl⟩⟩⟩⟩
  · refine ite_all.mpr ⟨fun _ => effect_dead rfl, fun _ => ?_⟩
    refine fetch_all.mpr ⟨fun _ => fetch_all.mpr ⟨fun _ => ?_, fun _ => trivial⟩, fun _ => trivial⟩
    refine setSizeAndFlags_effects (fun _ _ => effect_dead rfl) fun h₂ ⟨valid, he, hv⟩ => ?_
    show Effect h.view { h₂.view with state := .optRecvReply .go }
    rw [he]
    exact .change _ _ (.described _ valid _ (by rw [show h.view.state = _ from hs]; rfl)
      (by rw [show h.view.state = _ from hs]; rfl) hv)
  · refine ite_all.mpr ⟨fun _ => effect_dead rfl, fun _ => ?_⟩
    refine fetch_all.mpr ⟨fun _ => fetch_all.mpr ⟨fun _ => fetch_all.mpr ⟨fun _ => ?_,
      fun _ => trivial⟩, fun _ => trivial⟩, fun _ => trivial⟩
    simp only [Handle.setBlockSize]
    split
    · exact effect_move hs rfl rfl
    · exact effect_move hs rfl rfl
  · exact goString_effects inp hs fun _ => rfl
  · exact goString_effects inp hs fun _ => rfl

theorem goFinish_neutral (err : UInt32) (h : Handle) :
    (if err = 0 ∧ h.optCurrent = some .go then State.newstyleFinished
      else if h.cfg.optMode then .negotiating else .newstylePrepareOptAbort).isNeutral = true := by
  split
  · rfl
  · split <;> rfl

theorem enterGoCheckReply_effects (hs : h.state = .optCheckReply .go) :
    (enterGoCheckReply inp h).Effects h := by
  unfold enterGoCheckReply
  refine ite_all.mpr ⟨fun _ => goInfo_effects inp hs, fun _ => ite_all.mpr ⟨fun _ => ?_, fun _ =>
    ite_all.mpr ⟨fun _ => ?_, fun _ => handleReplyError_effects fun e t => ?_⟩⟩⟩
  · exact .change _ h.view (.fallback hs)
  · exact effect_complete h.setPayload
      (.move _ (State.keeps_of_neutral (goFinish_neutral _ _))) (goFinish_neutral _ _) rfl
  · refine require_all.mpr ⟨fun _ => ?_, fun _ => trivial⟩
    exact effect_complete (h.setError e t).forgetExport
      (.goFailed _ (goFinish_neutral _ _)) (goFinish_neutral _ _) rfl

theorem enterExportNameStart_effects (hs : h.state = .exportNameStart) :
    (enterExportNameStart h).Effects h := by
  simp only [enterExportNameStart, goto_all]
  split
  · rename_i hf
    exact .change .exportNameSend h.view (.named hs hf)
  · rename_i hf
    exact .change .exportNameSend _ (.skipped _ rfl rfl rfl (.inr (eq_false_of_ne_true hf)))

theorem enterExportNameCheckReply_effects (hs : h.state = .exportNameCheckReply) :
    (enterExportNameCheckReply h).Effects h := by
  refine setSizeAndFlags_effects (fun _ _ => effect_dead rfl) fun h₂ ⟨valid, he, hv⟩ => ?_
  show Effect h.view { h₂.view.complete 0 with state := .newstyleFinished }
  rw [he]
  exact .complete 0 _ _ (.described _ valid _ (by rw [show h.view.state = _ from hs]; rfl)
    (State.keeps_of_neutral rfl) hv) rfl

theorem abortOption_effects (hs : h.state = s) (hn : s.isNeutral = true) : Leads h h.abortOption := by
  have he := Effect.complete (v := h.view) (orErr h.getErrno enotconn) h.state h.view
    (.move _ (State.keeps_of_neutral (by rw [hs]; exact hn))) (by rw [hs]; exact hn)
  exact he

/-! ## Every state -/

theorem enterOptStart_effects {g : OptGroup} (hs : h.state = .optStart g) :
    (enterOptStart inp g h).Effects h := by
  cases g with
  | starttls => exact enterStarttlsStart_effects hs
  | extendedHeaders => exact enterExtendedHeadersStart_effects hs
  | structuredReply => exact enterStructuredReplyStart_effects hs
  | list => exact enterListStart_effects hs
  | metaContext => exact enterMetaContextStart_effects inp
  | go => exact enterGoStart_effects hs

theorem enterOptSendGroup_effects {g : OptGroup} (hs : h.state = .optSend g) :
    (enterOptSendGroup inp g h).Effects h := by
  cases g with
  | metaContext =>
    show (enterMetaContextSend inp h).Effects h
    exact sendTo_effects inp .metaSendExportnamelen hs rfl rfl fun _ => ⟨_, rfl, rfl⟩
  | go =>
    show (enterGoSend inp h).Effects h
    exact sendTo_effects inp .goSendExportnamelen hs rfl rfl fun _ => ⟨_, rfl, rfl⟩
  | starttls => exact enterOptSend_effects inp hs
  | extendedHeaders => exact enterOptSend_effects inp hs
  | structuredReply => exact enterOptSend_effects inp hs
  | list => exact enterOptSend_effects inp hs

theorem enterOptCheckReply_effects {g : OptGroup} (hs : h.state = .optCheckReply g) :
    (enterOptCheckReply inp g h).Effects h := by
  cases g with
  | starttls => exact enterStarttlsCheckReply_effects inp hs
  | extendedHeaders => exact enterExtendedHeadersCheckReply_effects inp hs
  | structuredReply => exact enterStructuredReplyCheckReply_effects inp
  | list => exact enterListCheckReply_effects inp hs
  | metaContext => exact enterMetaContextCheckReply_effects inp hs
  | go => exact enterGoCheckReply_effects inp hs

/-- Entering a state has one of the listed effects. -/
theorem enter_effect : (enter inp h).Effects h := by
  unfold enter
  split <;> rename_i hs
  · exact effect_stay hs rfl rfl
  · exact effect_stay hs rfl rfl
  · exact require_all.mpr ⟨fun _ => effect_stay hs rfl rfl, fun _ => trivial⟩
  · exact require_all.mpr ⟨fun _ => abortOption_effects hs rfl, fun _ => trivial⟩
  · exact abortOption_effects hs rfl
  · exact enterConnectStart_effects inp hs
  · exact enterConnectConnecting_effects inp hs
  · exact enterConnectTcpStart_effects inp hs
  · exact enterConnectTcpConnect_effects inp hs
  · exact enterConnectTcpConnecting_effects inp hs
  · exact effect_move hs rfl rfl
  · exact enterConnectCommandStart_effects inp hs
  · exact enterConnectSaStart_effects inp hs
  · exact effect_move hs rfl rfl
  · exact recv_effects hs rfl fun _ => effect_move hs rfl rfl
  · exact enterMagicCheckMagic_effects hs
  · exact enterOldstyleStart_effects hs
  · exact recv_effects hs rfl fun _ => effect_move hs rfl rfl
  · exact enterOldstyleCheck_effects hs
  · exact enterNewstyleStart_effects hs
  · exact recv_effects hs rfl fun _ => effect_move hs rfl rfl
  · exact enterNewstyleCheckGflags_effects
  · exact enterNewstyleSendCflags_effects inp hs
  · exact require_all.mpr ⟨fun _ => effect_move hs rfl rfl, fun _ => trivial⟩
  · exact sendTo_effects inp .newstyleSendOptionShutdown hs rfl rfl fun _ => ⟨_, rfl, rfl⟩
  · exact enterNewstyleSendOptionShutdown_effects inp hs
  · exact effect_move hs rfl rfl
  · exact enterOptStart_effects inp hs
  · exact enterOptSendGroup_effects inp hs
  · exact enterOptRecvReply_effects inp hs
  · exact enterOptRecvReplyPayload_effects inp hs
  · exact enterOptCheckReply_effects inp hs
  · exact enterTlsHandshake_effects inp hs (.inl rfl)
  · exact enterTlsHandshake_effects inp hs (.inr rfl)
  · exact enterTlsHandshakeDone_effects hs
  · exact sendTo_effects inp .metaSendExportname hs rfl rfl fun _ => ⟨_, rfl, rfl⟩
  · exact sendTo_effects inp .metaSendNrqueries hs rfl rfl fun _ => ⟨_, rfl, rfl⟩
  · exact sendTo_effects inp .metaPrepareNextQuery hs rfl rfl fun _ => ⟨_, rfl, rfl⟩
  · exact enterMetaPrepareNextQuery_effects hs
  · exact sendTo_effects inp .metaSendQuery hs rfl rfl fun _ => ⟨_, rfl, rfl⟩
  · exact sendTo_effects inp .metaPrepareNextQuery hs rfl rfl fun _ => ⟨_, rfl, rfl⟩
  · exact effect_move hs rfl rfl
  · exact sendTo_effects inp .goSendExport hs rfl rfl fun _ => ⟨_, rfl, rfl⟩
  · exact sendTo_effects inp .goSendNrinfos hs rfl rfl fun _ => ⟨_, rfl, rfl⟩
  · exact sendTo_effects inp .goSendInfo hs rfl rfl fun _ => ⟨_, rfl, rfl⟩
  · exact sendTo_effects inp (.optRecvReply .go) hs rfl rfl fun _ => ⟨_, rfl, rfl⟩
  · exact enterExportNameStart_effects hs
  · exact sendTo_effects inp .exportNameSendExport hs rfl rfl fun _ => ⟨_, rfl, rfl⟩
  · exact sendTo_effects inp .exportNameRecvReply hs rfl rfl fun _ => ⟨_, rfl, rfl⟩
  · exact recv_effects hs rfl fun _ => effect_move hs rfl rfl
  · exact enterExportNameCheckReply_effects hs

end States

/-! ## Effects of a call -/

/-- Everything that an API call may do before the state machine runs. -/
inductive CallEffect (v : View) : View → Prop where
  | same : CallEffect v v
  | configure (cfg : Settings) (fixed : Bool) (hs : v.state.isConfigurable = true)
      (hn : cfg.exportName = v.cfg.exportName) :
    CallEffect v { v with cfg := cfg, fixed := fixed }
  | rename (name : CString) (hs : v.state.isConfigurable = true) :
    CallEffect v { v with
      cfg := { v.cfg with exportName := name }
      metaValid := false
      trace := v.trace ++ [Event.rename name] }
  | accept (opt : Opt) (fn : Option Closure) (completion : Closure) (hs : v.state = .negotiating) :
    CallEffect v { v with
      optCurrent := some opt
      optCb := { id := v.nextId, fn := fn.getD v.optCb.fn, completion := completion }
      nextId := v.nextId + 1
      trace := v.trace ++ [Event.accept v.nextId opt (fn.getD .null) completion] }
  | abort (hs : v.state = .negotiating) : CallEffect v { v with optCurrent := some .abort }

theorem CallEffect.state_eq {v v' : View} (hc : CallEffect v v') : v'.state = v.state := by
  cases hc <;> rfl

/-- A call had its effect and the state machine starts in `h'.state`. -/
structure Starts (h h' : Handle) : Prop where
  effect : ∃ v, CallEffect h.view v ∧ h'.view = { v with state := h'.state }
  state : h'.state.isNeutral = true ∨ h'.state = h.state

/-- A call that has one of the effects. -/
abbrev Submit.Effects (o : Submit) (h : Handle) : Prop :=
  o.All (fun _ => True) (Starts h) fun h' => CallEffect h.view h'.view

/-- The state machine runs on an event. -/
theorem run_effects {ev : ExternalEvent} {keep : Bool} {h₁ : Handle}
    (hc : CallEffect h.view h₁.view)
    (hev : ∀ s, externalEvent ev h₁.state = some s → s.isNeutral = true ∨ s = h.state) :
    (Submit.run ev keep h₁).Effects h :=
  ⟨fun s he => ⟨⟨h₁.view, hc, rfl⟩, hev s he⟩, fun _ _ _ => hc⟩

theorem setExportName_effects (inp : Input) (name : CString) (hs : h.state.isConfigurable = true) :
    (setExportName inp h name).Effects h := by
  unfold setExportName
  exact submit_ite_all.mpr ⟨fun _ => .same, fun _ => submit_ite_all.mpr ⟨fun _ => .same, fun _ =>
    submit_ite_all.mpr ⟨fun _ => .same, fun _ => .rename name hs⟩⟩⟩

theorem addMetaContext_effects (inp : Input) (name : CString) (hs : h.state.isConfigurable = true) :
    (addMetaContext inp h name).Effects h := by
  unfold addMetaContext
  exact submit_ite_all.mpr ⟨fun _ => .same, fun _ => submit_ite_all.mpr ⟨fun _ => .same, fun _ =>
    submit_ite_all.mpr ⟨fun _ => .same, fun _ => .configure _ _ hs rfl⟩⟩⟩

theorem callSetter_effects (inp : Input) (s : Setter) : (callSetter inp h s).Effects h := by
  have hconf : h.state.isCreated = true → h.state.isConfigurable = true := by
    simp +contextual [State.isConfigurable]
  cases s with
  | setTls tls => exact permitted_all (fun _ _ => .same) fun hs => .configure _ _ (hconf hs) rfl
  | setOptMode b => exact permitted_all (fun _ _ => .same) fun hs => .configure _ _ (hconf hs) rfl
  | setHandshakeFlags flags =>
    exact permitted_all (fun _ _ => .same) fun hs => submit_ite_all.mpr ⟨fun _ => .same, fun _ =>
      .configure _ _ (hconf hs) rfl⟩
  | setRequestExtendedHeaders b => exact permitted_all (fun _ _ => .same) fun hs => .configure _ _ (hconf hs) rfl
  | setRequestStructuredReplies b => exact permitted_all (fun _ _ => .same) fun hs => .configure _ _ (hconf hs) rfl
  | setRequestMetaContext b => exact permitted_all (fun _ _ => .same) fun hs => .configure _ _ hs rfl
  | setRequestBlockSize b => exact permitted_all (fun _ _ => .same) fun hs => .configure _ _ hs rfl
  | setFullInfo b => exact permitted_all (fun _ _ => .same) fun hs => .configure _ _ hs rfl
  | setExportName name => exact permitted_all (fun _ _ => .same) fun hs => setExportName_effects inp name hs
  | addMetaContext name => exact permitted_all (fun _ _ => .same) fun hs => addMetaContext_effects inp name hs
  | clearMetaContexts => exact permitted_all (fun _ _ => .same) fun hs => .configure _ _ hs rfl

theorem aioConnect_effects (inp : Input) (addr : Address) (hs : h.state = .start) :
    (aioConnect inp h addr).Effects h := by
  have hev : ∀ ev s, externalEvent ev h.state = some s → s.isNeutral = true ∨ s = h.state := by
    intro ev s he
    rw [hs] at he
    cases ev <;> simp_all [externalEvent, State.isReceiving, State.isSending] <;> subst he <;>
      exact .inl rfl
  cases addr with
  | sockAddr => exact run_effects .same (hev _)
  | tcp => exact submit_ite_all.mpr ⟨fun _ => run_effects .same (hev _), fun _ => .same⟩
  | command => exact submit_ite_all.mpr ⟨fun _ => run_effects .same (hev _), fun _ => .same⟩
  | systemdSocketActivation =>
    exact submit_ite_all.mpr ⟨fun _ => run_effects .same (hev _), fun _ => .same⟩
  | socket =>
    exact submit_ite_all.mpr ⟨fun _ => run_effects (show CallEffect h.view ({ h with sock := true } : Handle).view from .same) (hev _),
      fun _ => .same⟩

/-- An option that is asked for starts in `NEWSTYLE.START`. -/
theorem ask_effects {h₁ : Handle} {keep : Bool} (hc : CallEffect h.view h₁.view)
    (hs : h₁.state = .negotiating) : (Submit.run .cmdIssue keep h₁).Effects h := by
  refine run_effects hc fun s he => ?_
  rw [hs] at he
  cases he
  exact .inl rfl

theorem setQuerylist_view (inp : Input) (h : Handle) (queries : Option (List CString)) :
    (setQuerylist inp h queries).1.view = h.view ∧ (setQuerylist inp h queries).1.nextId = h.nextId := by
  simp only [setQuerylist]
  split <;> exact ⟨rfl, rfl⟩

theorem submitOption_effects {h₁ : Handle} (opt : Opt) (fn : Option Closure) (completion : Closure)
    (hv : h₁.view = h.view) (hs : h.state = .negotiating) :
    (submitOption h₁ opt fn completion).Effects h := by
  have hs' : h₁.state = .negotiating := (congrArg View.state hv).trans hs
  have hc := CallEffect.accept (v := h₁.view) opt fn completion hs'
  refine ask_effects ?_ hs'
  rw [← hv]
  exact hc

theorem submit_effect (inp : Input) (api : Api) : (submit inp h api).Effects h := by
  have hneg : h.state.isNegotiating = true → h.state = .negotiating := by simp [State.isNegotiating]
  have hplain : ∀ opt completion, (plainOption h opt completion).Effects h := fun _ _ =>
    permitted_all (fun _ _ => .same) fun hs => submitOption_effects _ _ _ rfl (hneg hs)
  have hfixed : ∀ opt completion, (fixedOption h opt completion).Effects h := fun _ _ =>
    permitted_all (fun _ _ => .same) fun hs => needFixed_all (fun _ _ => .same) fun _ =>
      submitOption_effects _ _ _ rfl (hneg hs)
  have hmeta : ∀ opt queries context completion,
      (aioOptMetaContextQueries inp h opt queries context completion).Effects h := by
    intro opt queries context completion
    have hq := (setQuerylist_view inp h queries).1
    refine permitted_all (fun _ _ => .same) fun hs => needCallback_all (fun _ _ => .same) fun _ =>
      needFixed_all (fun _ _ => .same) fun _ => ?_
    refine submit_ite_all.mpr ⟨fun _ => ?_, fun _ => submit_ite_all.mpr ⟨fun _ => ?_, fun _ => trivial⟩⟩
    · show CallEffect h.view (setQuerylist inp h queries).1.view
      rw [hq]
      exact .same
    · exact submitOption_effects _ _ _ hq (hneg hs)
  cases api with
  | set s => exact callSetter_effects inp s
  | aioConnect addr =>
    exact permitted_all (fun _ _ => .same) fun hs => aioConnect_effects inp addr (by simpa [State.isCreated] using hs)
  | aioOptGo completion => exact hplain _ _
  | aioOptInfo completion => exact hfixed _ _
  | aioOptAbort => exact permitted_all (fun _ _ => .same) fun hs => ask_effects (.abort (hneg hs)) (hneg hs)
  | aioOptStarttls completion => exact hfixed _ _
  | aioOptExtendedHeaders completion => exact hfixed _ _
  | aioOptStructuredReply completion => exact hfixed _ _
  | aioOptList list completion =>
    exact permitted_all (fun _ _ => .same) fun hs => needCallback_all (fun _ _ => .same) fun _ =>
      needFixed_all (fun _ _ => .same) fun _ => submit_ite_all.mpr
        ⟨fun _ => submitOption_effects _ _ _ rfl (hneg hs), fun _ => trivial⟩
  | aioOptListMetaContext queries context completion => exact hmeta _ _ _ _
  | aioOptSetMetaContext queries context completion => exact hmeta _ _ _ _
  | aioNotifyRead =>
    exact run_effects .same fun s he => .inr (externalEvent_notifyRead he).2
  | aioNotifyWrite =>
    refine run_effects .same fun s he => ?_
    obtain ⟨-, rfl⟩ | ⟨-, rfl⟩ | ⟨-, rfl⟩ := externalEvent_notifyWrite he
    · exact .inl rfl
    · exact .inl rfl
    · exact .inr rfl

/-! ## Calls and buffers -/

/-- A call leaves the buffers and what was sent alone. -/
structure SameBuffers (h h' : Handle) : Prop where
  sbuf : h'.sbuf = h.sbuf
  rbuf : h'.rbuf = h.rbuf
  rlen : h'.rlen = h.rlen
  wbuf : h'.wbuf = h.wbuf
  sent : h'.sent = h.sent

theorem SameBuffers.refl (h : Handle) : SameBuffers h h := ⟨rfl, rfl, rfl, rfl, rfl⟩

theorem submitOption_buffers {h₁ : Handle} (opt : Opt) (fn : Option Closure) (completion : Closure)
    (hb : SameBuffers h h₁) :
    (submitOption h₁ opt fn completion).All (fun _ => True) (SameBuffers h) (SameBuffers h) :=
  run_all (fun _ _ => ⟨hb.sbuf, hb.rbuf, hb.rlen, hb.wbuf, hb.sent⟩)
    fun _ _ => ⟨hb.sbuf, hb.rbuf, hb.rlen, hb.wbuf, hb.sent⟩

theorem callSetter_buffers (inp : Input) (s : Setter) :
    (callSetter inp h s).All (fun _ => True) (SameBuffers h) (SameBuffers h) := by
  have herr : ∀ e t, SameBuffers h (h.setError e t) := fun _ _ => ⟨rfl, rfl, rfl, rfl, rfl⟩
  cases s with
  | setHandshakeFlags flags =>
    exact permitted_all herr fun _ => submit_ite_all.mpr ⟨fun _ => herr _ _, fun _ =>
      ⟨rfl, rfl, rfl, rfl, rfl⟩⟩
  | setExportName name =>
    refine permitted_all herr fun _ => ?_
    unfold setExportName
    exact submit_ite_all.mpr ⟨fun _ => herr _ _, fun _ => submit_ite_all.mpr ⟨fun _ => .refl h, fun _ =>
      submit_ite_all.mpr ⟨fun _ => herr _ _, fun _ => ⟨rfl, rfl, rfl, rfl, rfl⟩⟩⟩⟩
  | addMetaContext name =>
    refine permitted_all herr fun _ => ?_
    unfold addMetaContext
    exact submit_ite_all.mpr ⟨fun _ => herr _ _, fun _ => submit_ite_all.mpr ⟨fun _ => herr _ _, fun _ =>
      submit_ite_all.mpr ⟨fun _ => herr _ _, fun _ => ⟨rfl, rfl, rfl, rfl, rfl⟩⟩⟩⟩
  | _ => exact permitted_all herr fun _ => ⟨rfl, rfl, rfl, rfl, rfl⟩

theorem submit_buffers (inp : Input) (api : Api) :
    (submit inp h api).All (fun _ => True) (SameBuffers h) (SameBuffers h) := by
  have herr : ∀ e t, SameBuffers h (h.setError e t) := fun _ _ => ⟨rfl, rfl, rfl, rfl, rfl⟩
  have hrun : ∀ ev keep, (Submit.run ev keep h).All (fun _ => True) (SameBuffers h) (SameBuffers h) :=
    fun _ _ => run_all (fun _ _ => ⟨rfl, rfl, rfl, rfl, rfl⟩) herr
  have hfixed : ∀ opt completion, (fixedOption h opt completion).All (fun _ => True) (SameBuffers h)
      (SameBuffers h) := fun _ _ =>
    permitted_all herr fun _ => needFixed_all herr fun _ => submitOption_buffers _ _ _ (.refl h)
  have hmeta : ∀ opt queries context completion,
      (aioOptMetaContextQueries inp h opt queries context completion).All (fun _ => True)
        (SameBuffers h) (SameBuffers h) := by
    intro opt queries context completion
    have hq : SameBuffers h (setQuerylist inp h queries).1 := by
      simp only [setQuerylist]
      split <;> exact ⟨rfl, rfl, rfl, rfl, rfl⟩
    refine permitted_all herr fun _ => needCallback_all herr fun _ => needFixed_all herr fun _ => ?_
    exact submit_ite_all.mpr ⟨fun _ => hq, fun _ => submit_ite_all.mpr ⟨fun _ =>
      submitOption_buffers _ _ _ hq, fun _ => trivial⟩⟩
  cases api with
  | set s => exact callSetter_buffers inp s
  | aioConnect addr =>
    refine permitted_all herr fun _ => ?_
    cases addr with
    | sockAddr => exact hrun _ _
    | tcp => exact submit_ite_all.mpr ⟨fun _ => hrun _ _, fun _ => herr _ _⟩
    | command => exact submit_ite_all.mpr ⟨fun _ => hrun _ _, fun _ => herr _ _⟩
    | systemdSocketActivation => exact submit_ite_all.mpr ⟨fun _ => hrun _ _, fun _ => herr _ _⟩
    | socket =>
      exact submit_ite_all.mpr ⟨fun _ => run_all (fun _ _ => ⟨rfl, rfl, rfl, rfl, rfl⟩)
        fun _ _ => ⟨rfl, rfl, rfl, rfl, rfl⟩, fun _ => herr _ _⟩
  | aioOptGo completion => exact permitted_all herr fun _ => submitOption_buffers _ _ _ (.refl h)
  | aioOptInfo completion => exact hfixed _ _
  | aioOptAbort =>
    exact permitted_all herr fun _ => run_all (fun _ _ => ⟨rfl, rfl, rfl, rfl, rfl⟩)
      fun _ _ => ⟨rfl, rfl, rfl, rfl, rfl⟩
  | aioOptStarttls completion => exact hfixed _ _
  | aioOptExtendedHeaders completion => exact hfixed _ _
  | aioOptStructuredReply completion => exact hfixed _ _
  | aioOptList list completion =>
    exact permitted_all herr fun _ => needCallback_all herr fun _ => needFixed_all herr fun _ =>
      submit_ite_all.mpr ⟨fun _ => submitOption_buffers _ _ _ (.refl h), fun _ => trivial⟩
  | aioOptListMetaContext queries context completion => exact hmeta _ _ _ _
  | aioOptSetMetaContext queries context completion => exact hmeta _ _ _ _
  | aioNotifyRead => exact hrun _ _
  | aioNotifyWrite => exact hrun _ _

/-! ## Invariants of the view -/

section Invariant

variable {I : View → Prop}
  (henter : ∀ h v, RunShape h → I h.view → Effect h.view v → I v)
  (hcall : ∀ h v, RestShape h → I h.view → CallEffect h.view v → I v)
  (hstate : ∀ v s, I v → s.isNeutral = true ∨ s = v.state → I { v with state := s })

include henter hcall hstate

theorem step_view {c c' : Config} {l : Label} (hS : c.Holds Residual RunShape RestShape)
    (hI : I c.h.view) (hstep : machine.step c l = some c') : I c'.h.view := by
  obtain ⟨h, ctl⟩ := c
  cases l with
  | enter inp =>
    cases ctl with
    | running keep =>
      cases hstep
      have he : (enter inp h).Effects h := enter_effect inp
      show I (stepEnter inp keep h).h.view
      unfold stepEnter
      cases ho : enter inp h with
      | abort a => exact hI
      | next h' => rw [ho] at he; exact henter h _ hS hI he
      | block h' => rw [ho] at he; exact henter h _ hS hI he
      | fail h' => rw [ho] at he; exact henter h _ hS hI he
    | idle ret => cases hstep
    | aborted a => cases hstep
  | call api inp =>
    cases ctl with
    | idle ret =>
      cases hstep
      have he : (submit inp { h with lastError := inp.lastError } api).Effects
          { h with lastError := inp.lastError } := submit_effect inp api
      have hR : RestShape h := hS
      have hcall' : ∀ v, CallEffect h.view v → I v := fun v hv => hcall h v hR hI hv
      show I (afterSubmit _ (submit inp { h with lastError := inp.lastError } api)).h.view
      cases ho : submit inp { h with lastError := inp.lastError } api with
      | refused h' => rw [ho] at he; exact hcall' _ he
      | done h' => rw [ho] at he; exact hcall' _ he
      | abort a => exact hI
      | run ev keep h' =>
        rw [ho] at he
        simp only [afterSubmit, startRun]
        cases hev : externalEvent ev h'.state with
        | none => exact hcall' _ (he.2 hev 0 "")
        | some s =>
          obtain ⟨⟨v, hc, hv⟩, hs⟩ := he.1 s hev
          have hst : v.state = h.state := hc.state_eq
          show I ({ h' with state := s } : Handle).view
          rw [hv]
          refine hstate v s (hcall' v hc) ?_
          rw [hst]
          exact hs
    | running keep => cases hstep
    | aborted a => cases hstep

/-- An invariant of the effects holds in every reachable configuration. -/
theorem reachable_view (hcreate : ∀ sbuf, I (Handle.create sbuf).view) {c : Config}
    (hc : machine.Reachable c) : I c.h.view := by
  have hboth : c.Holds Residual RunShape RestShape ∧ I c.h.view := by
    refine machine.reachable_invariant (P := fun c => c.Holds Residual RunShape RestShape ∧ I c.h.view)
      ?_ ?_ hc
    · rintro c ⟨sbuf, rfl⟩
      exact ⟨create_shape sbuf, hcreate sbuf⟩
    · intro c l c' ⟨hS, hI⟩ hstep
      exact ⟨step_shape c l c' hS hstep, step_view henter hcall hstate hS hI hstep⟩
  exact hboth.2

end Invariant

end Libnbd.Negotiation
