import Libnbd.Conservation

/-!
The receiving side between two steps.

A reply may stop in the middle of any field: its state is saved in
`reply_state`, other parts of the machine run, and `REPLY.START` resumes it.
`logical` is the reply state the handle is in, saved or not. `Layout` says where
`rbuf` points and how much is still expected in each of them, and `owed` how
many bytes of the chunk the machine is going to read. Every receiving state
keeps the layout and pays what it owes (`enter_post`).
-/

namespace Libnbd

open Lib

namespace State

/-- The states that call `save_reply_state`. -/
def isPayload : State → Bool
  | replyRecvStructuredRemaining | simpleRecvReadPayload | chunkRecvError | chunkRecvErrorMessage
  | chunkRecvErrorTail | chunkRecvOffsetData | chunkRecvOffsetDataData | chunkRecvOffsetHole
  | chunkRecvBsHeader | chunkRecvBsEntries | chunkResync => true
  | _ => false

/-- The states of a chunk whose header is complete. -/
def isChunk : State → Bool
  | chunkStart | chunkRecvError | chunkRecvErrorMessage | chunkRecvErrorTail
  | chunkRecvOffsetData | chunkRecvOffsetDataData | chunkRecvOffsetHole
  | chunkRecvBsHeader | chunkRecvBsEntries | chunkResync | chunkFinish => true
  | _ => false

/-- The states whose code needs `reply_cmd`. -/
def needsCmd : State → Bool
  | simpleRecvReadPayload | chunkRecvError | chunkRecvErrorMessage | chunkRecvErrorTail
  | chunkRecvOffsetData | chunkRecvOffsetDataData | chunkRecvOffsetHole
  | chunkRecvBsHeader | chunkRecvBsEntries => true
  | _ => false

end State

namespace Handle

/-- The reply state that the handle is in, or `start` between two replies. -/
def logical (h : Handle) : State := if h.state.isMid then h.state else h.rx.replyState

/-- A part of the reply header has arrived. -/
def hdrAt (h : Handle) : Prop := ∃ p, h.rx.rbuf = .hdr p ∧ p + h.rx.rlen = h.replyHeaderSize

/-- The same, after `RECV_REPLY` had a look at the magic number. -/
def hdrSeen (h : Handle) : Prop := h.hdrAt ∧ shortMagicBad h = false

/-- The next bytes go to `sbuf.reply.payload`, up to position `n`. -/
def payloadAt (h : Handle) (n : Nat) : Prop := ∃ p, h.rx.rbuf = .payload p ∧ p + h.rx.rlen = n

/-- The data chunk being received passed the bounds check. -/
def dataAt (h : Handle) (k : Nat) : Prop :=
  ∃ cmd ∈ h.q.cmdsInFlight, cmd.cookie = k ∧ cmd.type = .read ∧ ∃ a, h.rx.rbuf = .user a ∧
    cmd.buf + (h.chunkOffset - cmd.offset).toNat ≤ a ∧
    a + h.rx.rlen = cmd.buf + (h.chunkOffset - cmd.offset).toNat + h.rx.payloadLeft ∧
    structuredReplyInBounds h.chunkOffset (UInt32.ofNat h.rx.payloadLeft) cmd = true

end Handle

/-- Pointer, remaining length and `payload_left` in each state. -/
def Layout (h : Handle) : State → Prop
  | .start => h.rx.payloadLeft = 0 ∧
    (match h.state with
      | .replyRecvReply => h.hdrAt
      | .replyCheckReplyMagic => h.rx.rbuf = .hdr h.replyHeaderSize ∧ h.rx.rlen = 0
      | _ => h.rx.rlen = 0 ∨ h.hdrSeen)
  | .replyRecvStructuredRemaining => h.rx.payloadLeft = 0 ∧ h.exp.extendedHeaders = false ∧
    ∃ p, h.rx.rbuf = .hdr p ∧ 16 ≤ p ∧ p + h.rx.rlen = 20
  | .simpleStart | .chunkStart | .chunkFinish | .replyFinishCommand =>
    h.rx.payloadLeft = 0 ∧ h.rx.rlen = 0
  | .simpleRecvReadPayload => h.rx.payloadLeft = 0 ∧
    ∃ cmd ∈ h.q.cmdsInFlight, h.rx.replyCmd = some cmd.cookie ∧ cmd.type = .read ∧
      ∃ a, h.rx.rbuf = .user a ∧ cmd.buf ≤ a ∧ a + h.rx.rlen = cmd.buf + cmd.count.toNat
  | .chunkRecvError => h.payloadAt (min h.rx.payloadLeft 6) ∧ 4 ≤ h.rx.payloadLeft
  | .chunkRecvErrorMessage => ∃ p, h.rx.rbuf = .payload p
  | .chunkRecvErrorTail => h.rx.payloadLeft = 0 ∧ (h.rx.rbuf = .null ∨ ∃ p, h.rx.rbuf = .payload p)
  | .chunkRecvOffsetData => h.payloadAt 8 ∧ h.rx.payloadLeft ≤ maxRequestSize
  | .chunkRecvOffsetDataData => h.rx.payloadLeft ≤ maxRequestSize ∧
    ∃ k, h.rx.replyCmd = some k ∧ h.dataAt k
  | .chunkRecvOffsetHole => h.payloadAt 12 ∧ h.rx.payloadLeft = 0
  | .chunkRecvBsHeader =>
    h.payloadAt (bsPrefixLen h.replyType) ∧ bsPrefixLen h.replyType ≤ h.rx.payloadLeft
  | .chunkRecvBsEntries => h.rx.payloadLeft = 0 ∧ ∃ p, h.rx.rbuf = .raw p
  | .chunkResync => h.rx.payloadLeft = 0 ∧ h.rx.rbuf = .null
  | _ => True

/-- Bytes of the current chunk that the machine is still going to read. -/
def owed (h : Handle) : State → Nat
  | .chunkStart =>
    match h.replyRef with
    | .live cmd => if chunkExpected h cmd then h.replyLength else h.rx.payloadLeft
    | _ => h.rx.payloadLeft
  | .chunkRecvError => h.rx.payloadLeft - min h.rx.payloadLeft 6 + h.rx.rlen
  | .chunkRecvErrorMessage | .chunkRecvOffsetData | .chunkRecvOffsetHole =>
    h.rx.rlen + h.rx.payloadLeft
  | .chunkRecvBsHeader => h.rx.payloadLeft - bsPrefixLen h.replyType + h.rx.rlen
  | .chunkRecvErrorTail | .chunkRecvOffsetDataData | .chunkRecvBsEntries | .chunkResync => h.rx.rlen
  | _ => 0

/-- `reply_cmd` is null between replies, else a command in flight that has the
cookie of the reply header. -/
structure CmdOk (h : Handle) (s : State) : Prop where
  free : s = .start → h.rx.replyCmd = none
  inFlight : ∀ k, h.rx.replyCmd = some k →
    k = h.replyCookie ∧ k ∈ h.q.cmdsInFlight.map Command.cookie
  needed : s.needsCmd = true → h.rx.replyCmd ≠ none

structure RxInv (h : Handle) : Prop where
  saved : h.rx.replyState ≠ .start →
    h.rx.replyState.isPayload = true ∧ h.rx.rlen ≠ 0 ∧ h.state.isBusy = false
  layout : h.alive → Layout h h.logical
  cmd : h.alive → CmdOk h h.logical

/-- A receiving step keeps the layout, does not change what a reply is for, and
inside a chunk it reads what it owed. -/
structure Post (h h' : Handle) : Prop where
  inv : RxInv h'
  kept : h.logical.isMid = true → h'.alive → h'.logical.isMid = true →
    h'.rx.replyCmd = h.rx.replyCmd ∧ h'.replyCookie = h.replyCookie
  paid : h.logical.isChunk = true → h'.alive →
    h'.bytesReceived + owed h' h'.logical = h.bytesReceived + owed h h.logical
  stays : h.logical.isChunk = true → h'.alive →
    h'.logical.isChunk = true ∨ h'.logical = .replyFinishCommand ∨ h'.logical = .start
  notClosed : h.logical.isMid = true → h'.state ≠ .closed
  side : h'.state.isReplying = true

theorem State.isReplying_of_isMid {s : State} (h : s.isMid = true) : s.isReplying = true := by
  cases s <;> simp_all [State.isReplying, State.isReceiving, State.isMid]

theorem State.isMid_of_isPayload {s : State} (h : s.isPayload = true) : s.isMid = true := by
  cases s <;> simp_all [State.isPayload, State.isMid]

theorem State.isBusy_of_isMid {s : State} (h : s.isMid = true) : s.isBusy = true := by
  cases s <;> simp_all [State.isBusy, State.isMid]

theorem Handle.logical_of_isMid {h : Handle} (hm : h.state.isMid = true) : h.logical = h.state :=
  if_pos hm

theorem Handle.logical_of_not_isMid {h : Handle} (hm : h.state.isMid = false) :
    h.logical = h.rx.replyState := by
  simp [Handle.logical, hm]

/-- The handle is in the reply state `s` and nothing is saved. -/
structure At (s : State) (h : Handle) : Prop where
  state : h.state = s
  replyState : h.rx.replyState = .start
  layout : Layout h s
  cmd : CmdOk h s

theorem RxInv.replyState {h : Handle} (hr : RxInv h) (hb : h.state.isBusy = true) :
    h.rx.replyState = .start := by
  by_contra hne
  rw [(hr.saved hne).2.2] at hb
  cases hb

theorem alive_of_isMid {h : Handle} (hm : h.state.isMid = true) : h.alive := by
  constructor <;> (intro hs; rw [hs] at hm; cases hm)

theorem RxInv.at {h : Handle} (hr : RxInv h) (hm : h.state.isMid = true) : At h.state h where
  state := rfl
  replyState := hr.replyState (State.isBusy_of_isMid hm)
  layout := by
    have := hr.layout (alive_of_isMid hm)
    rwa [Handle.logical_of_isMid hm] at this
  cmd := by
    have := hr.cmd (alive_of_isMid hm)
    rwa [Handle.logical_of_isMid hm] at this

theorem At.logical {s : State} {h : Handle} (ha : At s h) (hm : s.isMid = true) : h.logical = s := by
  rw [Handle.logical_of_isMid (by rw [ha.state]; exact hm), ha.state]

/-! ## Where a state may go -/

theorem layout_state {h : Handle} {s : State} (hm : s.isMid = true) (t : State) :
    Layout { h with state := t } s ↔ Layout h s := by
  cases s <;> first | exact (Bool.false_ne_true hm).elim | exact Iff.rfl

theorem rxInv_goto {s : State} {h : Handle} (hm : s.isMid = true)
    (hrs : h.rx.replyState = .start) (hl : Layout h s) (hc : CmdOk h s) :
    RxInv { h with state := s } := by
  have hlog : ({ h with state := s } : Handle).logical = s := Handle.logical_of_isMid hm
  refine ⟨fun hne => absurd hrs hne, fun _ => ?_, fun _ => ?_⟩
  · rw [hlog]
    exact (layout_state hm s).mpr hl
  · rw [hlog]
    exact ⟨hc.free, hc.inFlight, hc.needed⟩

theorem rxInv_final {h : Handle} (hrs : h.rx.replyState = .start) (hf : ¬ h.alive) : RxInv h :=
  ⟨fun hne => absurd hrs hne, fun ha => absurd ha hf, fun ha => absurd ha hf⟩

/-- Between two replies. -/
theorem rxInv_between {h : Handle} (hm : h.state.isMid = false) (hrs : h.rx.replyState = .start)
    (hcmd : h.rx.replyCmd = none) (hl : Layout h .start) : RxInv h := by
  have hlog : h.logical = .start := by rw [Handle.logical_of_not_isMid hm, hrs]
  refine ⟨fun hne => absurd hrs hne, fun _ => by rwa [hlog], fun _ => ?_⟩
  rw [hlog]
  refine ⟨fun _ => hcmd, ?_, ?_⟩
  · intro k hk
    rw [hcmd] at hk
    cases hk
  · intro hn
    cases hn

/-- `CmdOk` looks at `reply_cmd`, the header and the cookies in flight only. -/
theorem CmdOk.congr {h h' : Handle} {s t : State} (hc : CmdOk h s) (ht : t ≠ .start)
    (hcmd : h'.rx.replyCmd = h.rx.replyCmd) (hhdr : h'.rx.hdr = h.rx.hdr)
    (hq : h'.q.cmdsInFlight.map Command.cookie = h.q.cmdsInFlight.map Command.cookie)
    (hn : t.needsCmd = true → h.rx.replyCmd ≠ none) : CmdOk h' t := by
  refine ⟨fun he => absurd he ht, fun k hk => ?_, fun he => by rw [hcmd]; exact hn he⟩
  have hck : h'.replyCookie = h.replyCookie := by rw [Handle.replyCookie, hhdr]; rfl
  rw [hck, hq]
  exact hc.inFlight k (hcmd ▸ hk)

theorem Post.of_goto {s t : State} {h h' : Handle} (ha : At s h) (hs : s.isMid = true)
    (ht : t.isMid = true) (hst : s.isChunk = true → t.isChunk = true ∨ t = .replyFinishCommand)
    (hrs : h'.rx.replyState = .start) (hl : Layout h' t)
    (hcmd : h'.rx.replyCmd = h.rx.replyCmd) (hhdr : h'.rx.hdr = h.rx.hdr)
    (hq : h'.q.cmdsInFlight.map Command.cookie = h.q.cmdsInFlight.map Command.cookie)
    (hn : t.needsCmd = true → h.rx.replyCmd ≠ none)
    (hp : s.isChunk = true →
      h'.bytesReceived + owed { h' with state := t } t = h.bytesReceived + owed h s) :
    Post h { h' with state := t } := by
  have hne : t ≠ .start := by
    rintro rfl
    cases ht
  have hlog : ({ h' with state := t } : Handle).logical = t := Handle.logical_of_isMid ht
  refine ⟨rxInv_goto ht hrs hl (ha.cmd.congr hne hcmd hhdr hq hn), fun _ _ _ => ⟨hcmd, ?_⟩,
    fun hch _ => ?_, fun hch _ => ?_, fun _ hcl => ?_, State.isReplying_of_isMid ht⟩
  · rw [Handle.replyCookie, hhdr]
    rfl
  · rw [ha.logical hs] at hch ⊢
    rw [hlog]
    exact hp hch
  · rw [ha.logical hs] at hch
    rw [hlog]
    exact (hst hch).imp id .inl
  · rw [show t = .closed from hcl] at ht
    cases ht

/-- Between two replies there is nothing to keep. -/
theorem Post.of_start {h h' : Handle} (hlog : h.logical = .start) (hs : h'.state.isReplying = true)
    (hr : RxInv h') : Post h h' := by
  have hmid : h.logical.isMid ≠ true := by
    rw [hlog]
    exact nofun
  have hchunk : h.logical.isChunk ≠ true := by
    rw [hlog]
    exact nofun
  exact ⟨hr, fun hm => absurd hm hmid, fun hc => absurd hc hchunk, fun hc => absurd hc hchunk,
    fun hm => absurd hm hmid, hs⟩

theorem Post.of_dead {h h' : Handle} (hrs : h'.rx.replyState = .start) (hd : h'.state = .dead) :
    Post h h' := by
  have hf : ¬ h'.alive := fun ha => ha.1 hd
  refine ⟨rxInv_final hrs hf, fun _ ha => absurd ha hf, fun _ ha => absurd ha hf,
    fun _ ha => absurd ha hf, fun _ hcl => ?_, by rw [hd]; rfl⟩
  rw [hd] at hcl
  cases hcl

/-! ## Receiving -/

theorem received_same {h h' : Handle} (hr : Received h h') :
    h'.state = h.state ∧ h'.rx.replyState = h.rx.replyState ∧ h'.rx.replyCmd = h.rx.replyCmd ∧
      h'.rx.payloadLeft = h.rx.payloadLeft ∧ h'.q = h.q ∧ h'.exp = h.exp := by
  cases hr with
  | nothing => exact ⟨rfl, rfl, rfl, rfl, rfl, rfl⟩
  | data => exact ⟨rfl, rfl, rfl, rfl, rfl, rfl⟩

theorem hdr_received {h h' : Handle} (hr : Received h h') (hb : ∀ p, h.rx.rbuf ≠ .hdr p) :
    h'.rx.hdr = h.rx.hdr := by
  cases hr with
  | nothing => rfl
  | data bs _ _ =>
    simp only [Handle.store]
    cases hrb : h.rx.rbuf with
    | hdr p => exact absurd hrb (hb p)
    | _ => rfl

/-- In the payload states of a chunk, and of a simple read, the header is done. -/
theorem layout_not_hdr {h : Handle} {s : State} (hs : s.isPayload = true)
    (hne : s ≠ .replyRecvStructuredRemaining) (hl : Layout h s) (p : Nat) :
    h.rx.rbuf ≠ .hdr p := by
  intro hp
  cases s <;> simp_all [State.isPayload, Layout, Handle.payloadAt, Handle.dataAt]

theorem replyCookie_received {h h' : Handle} {s : State} (hs : s.isPayload = true)
    (hl : Layout h s) (hr : Received h h') : h'.replyCookie = h.replyCookie := by
  by_cases hne : s = .replyRecvStructuredRemaining
  · subst hne
    obtain ⟨-, -, p, hp, h16, -⟩ := hl
    cases hr with
    | nothing => rfl
    | data bs _ _ =>
      simp only [Handle.replyCookie, Handle.store, hp, Rbuf.storeHdr]
      rw [Mem.be64_write _ _ (by omega)]
  · rw [Handle.replyCookie, Handle.replyCookie, hdr_received hr (layout_not_hdr hs hne hl)]

theorem replyType_received {h h' : Handle} (hr : Received h h') (hb : ∀ p, h.rx.rbuf ≠ .hdr p) :
    h'.replyType = h.replyType := by
  rw [Handle.replyType, Handle.replyType, hdr_received hr hb]

theorem payloadAt_received {h h' : Handle} {n : Nat} (hr : Received h h') (hp : h.payloadAt n) :
    h'.payloadAt n := by
  cases hr with
  | nothing => exact hp
  | data bs _ hle =>
    obtain ⟨p, hp, hn⟩ := hp
    refine ⟨p + bs.length, by simp [Handle.store, hp, Rbuf.advance], ?_⟩
    simp only [Handle.store]
    omega

theorem layout_received {h h' : Handle} {s : State} (hs : s.isPayload = true) (hl : Layout h s)
    (hr : Received h h') : Layout h' s := by
  have hb := fun hne => layout_not_hdr hs hne hl
  cases hr with
  | nothing => exact hl
  | data bs hne hle =>
    have hr : Received h (h.store bs) := .data bs hne hle
    cases s <;> first | exact (Bool.false_ne_true hs).elim | skip
    case replyRecvStructuredRemaining =>
      obtain ⟨h₁, h₂, p, hp, h16, h20⟩ := hl
      refine ⟨h₁, h₂, p + bs.length, by simp [Handle.store, hp, Rbuf.advance], by omega, ?_⟩
      simp only [Handle.store]
      omega
    case simpleRecvReadPayload =>
      obtain ⟨h₁, cmd, hc, hk, ht, a, ha, h₂, h₃⟩ := hl
      refine ⟨h₁, cmd, hc, hk, ht, a + bs.length, by simp [Handle.store, ha, Rbuf.advance],
        by omega, ?_⟩
      simp only [Handle.store]
      omega
    case chunkRecvError => exact ⟨payloadAt_received hr hl.1, hl.2⟩
    case chunkRecvErrorMessage =>
      obtain ⟨p, hp⟩ := hl
      exact ⟨p + bs.length, by simp [Handle.store, hp, Rbuf.advance]⟩
    case chunkRecvErrorTail =>
      obtain ⟨hpay, hn | ⟨p, hp⟩⟩ := hl
      · exact ⟨hpay, .inl (by simp [Handle.store, hn, Rbuf.advance])⟩
      · exact ⟨hpay, .inr ⟨p + bs.length, by simp [Handle.store, hp, Rbuf.advance]⟩⟩
    case chunkRecvOffsetData => exact ⟨payloadAt_received hr hl.1, hl.2⟩
    case chunkRecvOffsetDataData =>
      obtain ⟨h₁, k, hk, cmd, hc, hck, ht, a, ha, h₂, h₃, h₄⟩ := hl
      have hoff : (h.store bs).chunkOffset = h.chunkOffset := by
        simp [Handle.chunkOffset, Handle.store, ha, Rbuf.storePayload]
      refine ⟨h₁, k, hk, cmd, hc, hck, ht, a + bs.length,
        by simp [Handle.store, ha, Rbuf.advance], ?_, ?_, ?_⟩
      · rw [hoff]
        omega
      · rw [hoff]
        simp only [Handle.store]
        omega
      · rw [hoff]
        exact h₄
    case chunkRecvOffsetHole => exact ⟨payloadAt_received hr hl.1, hl.2⟩
    case chunkRecvBsHeader =>
      have ht := replyType_received hr (hb (by decide))
      simp only [Layout, ht]
      exact ⟨payloadAt_received hr hl.1, hl.2⟩
    case chunkRecvBsEntries =>
      obtain ⟨h₁, p, hp⟩ := hl
      exact ⟨h₁, p + bs.length, by simp [Handle.store, hp, Rbuf.advance]⟩
    case chunkResync =>
      refine ⟨hl.1, ?_⟩
      simp [Handle.store, hl.2, Rbuf.advance]

theorem owed_received {h h' : Handle} {s : State} (hs : s.isPayload = true)
    (hc : s.isChunk = true) (hl : Layout h s) (hr : Received h h') :
    h'.bytesReceived + owed h' s = h.bytesReceived + owed h s := by
  have hb := fun hne => layout_not_hdr hs hne hl
  cases hr with
  | nothing => rfl
  | data bs hne hle =>
    have ht : s ≠ .replyRecvStructuredRemaining → (h.store bs).replyType = h.replyType :=
      fun hns => replyType_received (.data bs hne hle) (hb hns)
    cases s <;> first | exact (Bool.false_ne_true hs).elim | exact (Bool.false_ne_true hc).elim | skip
    case chunkRecvBsHeader =>
      simp only [owed, ht (by decide)]
      simp only [Handle.store]
      omega
    all_goals
      simp only [owed, Handle.store]
      omega

theorem At.received {s : State} {h h' : Handle} (ha : At s h) (hs : s.isPayload = true)
    (hr : Received h h') : At s h' where
  state := by
    cases hr with
    | nothing => exact ha.state
    | data => exact ha.state
  replyState := by
    cases hr with
    | nothing => exact ha.replyState
    | data => exact ha.replyState
  layout := layout_received hs ha.layout hr
  cmd := by
    have hk := replyCookie_received hs ha.layout hr
    have hc : h'.rx.replyCmd = h.rx.replyCmd ∧ h'.q = h.q := by
      cases hr with
      | nothing => exact ⟨rfl, rfl⟩
      | data => exact ⟨rfl, rfl⟩
    obtain ⟨h₁, h₂, h₃⟩ := ha.cmd
    refine ⟨fun he => by rw [hc.1]; exact h₁ he, fun k hk' => ?_, fun hn => by rw [hc.1]; exact h₃ hn⟩
    rw [hk, hc.2]
    exact h₂ k (hc.1 ▸ hk')

/-- Saving and resuming a reply changes nothing that the layout looks at. -/
theorem layout_resumed {h : Handle} {s t u : State} (hs : s.isPayload = true) (hl : Layout h s) :
    Layout { h with state := t, rx := { h.rx with replyState := u } } s := by
  cases s <;> first | exact (Bool.false_ne_true hs).elim | exact hl

theorem owed_resumed {h : Handle} {s t u : State} (hs : s.isPayload = true) :
    owed { h with state := t, rx := { h.rx with replyState := u } } s = owed h s := by
  cases s <;> first | exact (Bool.false_ne_true hs).elim | rfl

/-- Rule for the payload states: it is enough to look at what follows a complete
field. -/
theorem recvThen_post {inp : Input} {done : Handle → Outcome} {h : Handle} {s : State}
    (ha : At s h) (hs : s.isPayload = true)
    (hdone : ∀ h', At s h' → h'.rx.rlen = 0 → (done h').All (Post h')) :
    (recvThen inp done h).All (Post h) := by
  have hm := State.isMid_of_isPayload hs
  apply recvThen_all
  · intro e
    exact .of_dead ha.replyState rfl
  · intro h' hr hlen _
    have ha' := ha.received hs hr
    have hlog : ({ h' with state := .ready, rx := { h'.rx with replyState := h'.state } } :
        Handle).logical = s := by
      rw [Handle.logical_of_not_isMid rfl]
      exact ha'.state
    refine ⟨⟨fun _ => ⟨?_, hlen, rfl⟩, fun _ => ?_, fun _ => ?_⟩, fun _ _ _ => ?_, fun hch _ => ?_,
      fun hch _ => ?_, fun _ => nofun, rfl⟩
    · simp only [ha'.state]
      exact hs
    · rw [hlog]
      exact layout_resumed hs ha'.layout
    · rw [hlog]
      exact ⟨ha'.cmd.free, ha'.cmd.inFlight, ha'.cmd.needed⟩
    · have hck := replyCookie_received hs ha.layout hr
      exact ⟨(received_same hr).2.2.1, hck⟩
    · rw [hlog, ha.logical hm]
      rw [ha.logical hm] at hch
      rw [← owed_received hs hch ha.layout hr, owed_resumed hs]
    · rw [ha.logical hm] at hch
      rw [hlog]
      exact .inl hch
  · intro h' hr hlen
    have ha' := ha.received hs hr
    have hlog' : h'.logical = h.logical := by rw [ha'.logical hm, ha.logical hm]
    refine (hdone h' ha' hlen).mono fun h'' hp => ⟨hp.inv, fun _ halive hmid => ?_,
      fun hch halive => ?_, fun hch => hp.stays (hlog' ▸ hch), fun hmid => hp.notClosed (hlog' ▸ hmid),
      hp.side⟩
    · obtain ⟨k₁, k₂⟩ := hp.kept (by rw [ha'.logical hm]; exact hm) halive hmid
      exact ⟨k₁.trans (received_same hr).2.2.1, k₂.trans (replyCookie_received hs ha.layout hr)⟩
    · rw [ha.logical hm] at hch ⊢
      have hpaid := hp.paid (by rw [ha'.logical hm]; exact hch) halive
      rw [hpaid, ha'.logical hm]
      exact owed_received hs hch ha.layout hr

/-! ## Headers -/

theorem layout_start_between {h : Handle} (hs : h.state.isBusy = false)
    (hl : Layout h .start) (ha : h.alive) : h.rx.rlen = 0 ∨ h.hdrSeen := by
  have := hl.2
  cases hst : h.state <;> simp_all [State.isBusy, State.isMid, Handle.alive]

theorem enterReplyStart_post {inp : Input} {h : Handle} (hr : RxInv h)
    (hst : h.state = .replyStart) : (enterReplyStart inp h).All (Post h) := by
  have halive : h.alive := by simp [Handle.alive, hst]
  have hlog : h.logical = h.rx.replyState := Handle.logical_of_not_isMid (by rw [hst]; rfl)
  have hl := hr.layout halive
  have hc := hr.cmd halive
  rw [hlog] at hl hc
  unfold enterReplyStart
  split
  · rename_i hlen
    split
    · -- resume a saved reply
      rename_i hne
      apply require_all
      intro _
      obtain ⟨hp, -, -⟩ := hr.saved hne
      have hm := State.isMid_of_isPayload hp
      have hlog' : ({ h with state := h.rx.replyState
                             rx := { h.rx with replyState := .start } } : Handle).logical =
          h.rx.replyState := Handle.logical_of_isMid hm
      have hl' := layout_resumed (h := h) (t := h.state) (u := .start) hp hl
      refine ⟨rxInv_goto hm rfl hl' ⟨hc.free, hc.inFlight, hc.needed⟩, fun _ _ _ => ⟨rfl, rfl⟩,
        fun _ _ => ?_, fun hch _ => ?_, fun _ hcl => ?_, State.isReplying_of_isMid hm⟩
      · rw [hlog', hlog]
        exact congrArg (h.bytesReceived + ·) (owed_resumed hp)
      · rw [hlog', ← hlog]
        exact .inl hch
      · rw [show h.rx.replyState = .closed from hcl] at hm
        cases hm
    · -- go on with the header
      rename_i heq
      have hrs : h.rx.replyState = .start := by simpa using heq
      rw [hrs] at hl hc
      have hh : h.hdrAt := by
        rcases layout_start_between (by rw [hst]; rfl) hl halive with hz | hh
        · omega
        · exact hh.1
      exact .of_start (hlog.trans hrs) rfl (rxInv_between rfl hrs (hc.free rfl) ⟨hl.1, hh⟩)
  · -- start a new header
    rename_i hlen
    have hrs : h.rx.replyState = .start := by
      by_contra hne
      exact absurd (Nat.pos_of_ne_zero (hr.saved hne).2.1) hlen
    rw [hrs] at hl hc
    have hcmd := hc.free rfl
    have hprep : h.prepareReply.hdrAt := ⟨0, rfl, Nat.zero_add _⟩
    apply require_all
    intro _
    split
    · refine .of_start (hlog.trans hrs) (by simp only [Handle.prepareReply, hst]; rfl)
        (rxInv_between (by simp [Handle.prepareReply, hst, State.isMid]) hrs hcmd ⟨hl.1, ?_⟩)
      simp only [Handle.prepareReply, hst]
      exact .inr ⟨hprep, by simp [shortMagicBad]⟩
    · exact .of_dead hrs rfl
    · rename_i bs _
      simp only
      split
      · exact .of_start (hlog.trans hrs) rfl (rxInv_final hrs fun ha => ha.2 rfl)
      · refine .of_start (hlog.trans hrs) rfl (rxInv_between rfl hrs hcmd ⟨hl.1, ?_⟩)
        refine ⟨(bs.take h.replyHeaderSize).length, by simp [Handle.store, Handle.prepareReply,
          Rbuf.advance], ?_⟩
        simp only [Handle.store, Handle.prepareReply, Handle.replyHeaderSize, List.length_take]
        omega

theorem RxInv.between {h : Handle} (hr : RxInv h) (hb : h.state.isBusy = true)
    (hm : h.state.isMid = false) :
    h.rx.replyState = .start ∧ h.logical = .start ∧ h.rx.replyCmd = none ∧ Layout h .start := by
  have hrs := hr.replyState hb
  have hlog : h.logical = .start := by rw [Handle.logical_of_not_isMid hm, hrs]
  have halive : h.alive := by
    constructor <;> (intro hs; rw [hs] at hb; cases hb)
  have hl := hr.layout halive
  have hc := hr.cmd halive
  rw [hlog] at hl hc
  exact ⟨hrs, hlog, hc.free rfl, hl⟩

theorem hdrAt_received {h h' : Handle} (hr : Received h h') (hh : h.hdrAt) : h'.hdrAt := by
  cases hr with
  | nothing => exact hh
  | data bs _ hle =>
    obtain ⟨p, hp, hn⟩ := hh
    have hsize : (h.store bs).replyHeaderSize = h.replyHeaderSize := rfl
    have hrlen : (h.store bs).rx.rlen = h.rx.rlen - bs.length := rfl
    refine ⟨p + bs.length, by simp [Handle.store, hp, Rbuf.advance], ?_⟩
    rw [hsize, hrlen]
    omega

theorem enterReplyRecvReply_post {inp : Input} {h : Handle} (hr : RxInv h)
    (hst : h.state = .replyRecvReply) : (enterReplyRecvReply inp h).All (Post h) := by
  obtain ⟨hrs, hlog, hcmd, hl⟩ := hr.between (by rw [hst]; rfl) (by rw [hst]; rfl)
  have hh : h.hdrAt := by
    have := hl.2
    rwa [hst] at this
  unfold enterReplyRecvReply
  obtain ⟨e, he⟩ | ⟨h', hrec, -, he⟩ | ⟨h', hrec, hz, he⟩ := recvIntoRbuf_cases inp h
  · rw [he]
    exact .of_dead hrs rfl
  · rw [he]
    obtain ⟨-, hrs', hcmd', hpl', -, -⟩ := received_same hrec
    simp only
    split
    · exact .of_dead (hrs'.trans hrs) rfl
    · rename_i hseen
      have hh' := hdrAt_received hrec hh
      exact .of_start hlog rfl (rxInv_between rfl (hrs'.trans hrs) (hcmd'.trans hcmd)
        ⟨hpl'.trans hl.1, .inr ⟨hh', Bool.eq_false_iff.mpr hseen⟩⟩)
  · rw [he]
    obtain ⟨-, hrs', hcmd', hpl', -, -⟩ := received_same hrec
    obtain ⟨p, hp, hn⟩ := hdrAt_received hrec hh
    rw [hz, Nat.add_zero] at hn
    exact .of_start hlog rfl (rxInv_between rfl (hrs'.trans hrs) (hcmd'.trans hcmd)
      ⟨hpl'.trans hl.1, hp.trans (congrArg Rbuf.hdr hn), hz⟩)

theorem lookupReply_some {h : Handle} {k : Nat} (hk : h.lookupReply = some k) :
    k = h.replyCookie ∧ k ∈ h.q.cmdsInFlight.map Command.cookie := by
  obtain ⟨c, hc, rfl⟩ := Option.map_eq_some_iff.mp hk
  obtain ⟨hm, hck⟩ := findCmd_mem hc
  exact ⟨hck, List.mem_map_of_mem hm⟩

theorem enterReplyCheckReplyMagic_post {h : Handle} (hr : RxInv h)
    (hst : h.state = .replyCheckReplyMagic) : (enterReplyCheckReplyMagic h).All (Post h) := by
  obtain ⟨hrs, hlog, hcmd, hl⟩ := hr.between (by rw [hst]; rfl) (by rw [hst]; rfl)
  have hz : h.rx.rbuf = .hdr h.replyHeaderSize ∧ h.rx.rlen = 0 := by
    have := hl.2
    rwa [hst] at this
  have hinvalid : (goto .dead (h.setError 0 "invalid or unexpected reply magic")).All (Post h) :=
    .of_dead hrs rfl
  have hfound : ∀ s : State, s.needsCmd = false → s ≠ .start →
      CmdOk { h with chunksReceived := h.chunksReceived + 1
                     rx := { h.rx with replyCmd := h.lookupReply } } s := by
    intro s hn hne
    refine ⟨fun he => absurd he hne, fun k hk => lookupReply_some hk, fun hn' => ?_⟩
    rw [hn] at hn'
    cases hn'
  unfold enterReplyCheckReplyMagic
  simp only
  split
  · split
    · exact hinvalid
    · exact .of_start hlog rfl (rxInv_goto rfl hrs ⟨hl.1, hz.2⟩ (hfound _ rfl (by decide)))
  · split
    · split
      · exact hinvalid
      · rename_i hext
        apply require_all
        intro hrb
        refine .of_start hlog rfl (rxInv_goto rfl hrs ⟨hl.1, by simpa using hext, 16,
          by simpa using hrb, Nat.le_refl _, rfl⟩ ?_)
        have hf := hfound .replyRecvStructuredRemaining rfl (by decide)
        exact ⟨hf.free, hf.inFlight, hf.needed⟩
    · split
      · split
        · exact .of_start hlog rfl (rxInv_goto rfl hrs ⟨hl.1, hz.2⟩ (hfound _ rfl (by decide)))
        · exact hinvalid
      · exact hinvalid

/-! ## Simple replies -/

theorem setFirst_cookies (cmd : Command) (l : List Command) :
    (Handle.setFirst cmd l).map Command.cookie = l.map Command.cookie := by
  induction l with
  | nil => rfl
  | cons c cs ih =>
    unfold Handle.setFirst
    split
    · rename_i hk
      simp [hk]
    · simp [ih]

theorem Post.of_between {s : State} {h h' : Handle} (ha : At s h) (hs : s.isMid = true)
    (hm : h'.state.isMid = false) (hrs : h'.rx.replyState = .start)
    (hcmd : h'.rx.replyCmd = none) (hl : Layout h' .start) (hcl : h'.state ≠ .closed)
    (hi : h'.state.isReplying = true)
    (hp : s.isChunk = true → h'.bytesReceived = h.bytesReceived + owed h s) : Post h h' := by
  have hlog : h'.logical = .start := by rw [Handle.logical_of_not_isMid hm, hrs]
  refine ⟨rxInv_between hm hrs hcmd hl, fun _ _ hm' => ?_, fun hch _ => ?_,
    fun _ _ => .inr (.inr hlog), fun _ => hcl, hi⟩
  · rw [hlog] at hm'
    cases hm'
  · rw [ha.logical hs] at hch ⊢
    rw [hlog]
    exact hp hch

theorem enterSimpleStart_post {h : Handle} (ha : At .simpleStart h) :
    (enterSimpleStart h).All (Post h) := by
  unfold enterSimpleStart
  split
  · trivial
  · split
    · exact .of_goto ha rfl rfl (by decide) ha.replyState ha.layout
        rfl rfl rfl nofun nofun
    · exact .of_dead ha.replyState rfl
  · rename_i cmd hl
    obtain ⟨hk, hf⟩ := replyRef_live hl
    simp only
    split
    · rename_i hread
      refine .of_goto ha rfl rfl (by decide) ha.replyState ?_
        rfl rfl (setFirst_cookies _ _)
          (fun _ => by rw [hk]; exact nofun) nofun
      exact ⟨ha.layout.1, _, mem_setFirst hf, hk, hread.2, _, rfl, Nat.le_refl _, rfl⟩
    · exact .of_goto ha rfl rfl (by decide) ha.replyState ha.layout
        rfl rfl (setFirst_cookies _ _) nofun nofun

theorem simpleReadPayloadDone_post {inp : Input} {h : Handle} (ha : At .simpleRecvReadPayload h)
    (hz : h.rx.rlen = 0) : (simpleReadPayloadDone inp h).All (Post h) := by
  unfold simpleReadPayloadDone
  split
  · trivial
  · trivial
  · exact .of_goto ha rfl rfl (by decide) ha.replyState ⟨ha.layout.1, hz⟩
      rfl rfl (setFirst_cookies _ _) nofun nofun

/-! ## Chunks -/

/-- Going to `RESYNC` with the rest of the payload still to come. -/
theorem resync_post {s : State} {h h' : Handle} (ha : At s h) (hs : s.isMid = true)
    (hrs : h'.rx.replyState = .start) (hcmd : h'.rx.replyCmd = h.rx.replyCmd)
    (hhdr : h'.rx.hdr = h.rx.hdr)
    (hq : h'.q.cmdsInFlight.map Command.cookie = h.q.cmdsInFlight.map Command.cookie)
    (hp : s.isChunk = true → h'.bytesReceived + h'.rx.payloadLeft = h.bytesReceived + owed h s) :
    (resync h').All (Post h) :=
  .of_goto ha hs rfl (fun _ => .inl rfl) hrs ⟨rfl, rfl⟩ hcmd hhdr hq nofun hp

theorem chunkStartBlockStatus_post {h₀ h : Handle} {cmd : Command} (ha : At .chunkStart h₀)
    (hh : h = { h₀ with rx := { h₀.rx with payloadLeft := h₀.replyLength } })
    (hk : h.rx.replyCmd = some cmd.cookie) (ho : owed h₀ .chunkStart = h₀.replyLength) :
    (chunkStartBlockStatus h cmd).All (Post h₀) := by
  subst hh
  unfold chunkStartBlockStatus
  split
  · exact resync_post ha rfl ha.replyState rfl rfl rfl fun _ => by simp [ho]
  · rename_i hcond
    have hlen : bsReplyLengthOk h₀.replyType h₀.replyLength = true := by
      by_contra hf
      exact hcond (.inr (.inr (.inr (eq_false_of_ne_true hf))))
    have hle : bsPrefixLen h₀.replyType ≤ h₀.replyLength := by
      simp only [bsReplyLengthOk, Bool.and_eq_true, decide_eq_true_eq] at hlen
      omega
    apply require_all
    intro _
    refine .of_goto ha rfl rfl (by decide) ha.replyState ⟨⟨0, rfl, Nat.zero_add _⟩, hle⟩
      rfl rfl (setFirst_cookies _ _)
        (fun _ => by rw [show h₀.rx.replyCmd = some cmd.cookie from hk]; exact nofun) ?_
    intro _
    rw [ho]
    have : owed { Handle.setCmd { h₀ with rx := { h₀.rx with payloadLeft := h₀.replyLength } }
        (if h₀.exp.extendedHeaders ≠ (h₀.replyType == replyTypeBlockStatusExt)
          then { cmd with error := orErr cmd.error eproto } else cmd) with
        rx := { h₀.rx with
          rbuf := .payload 0, rlen := bsPrefixLen h₀.replyType, payloadLeft := h₀.replyLength }
        state := .chunkRecvBsHeader } .chunkRecvBsHeader = h₀.replyLength := by
      change h₀.replyLength - bsPrefixLen h₀.replyType + bsPrefixLen h₀.replyType = h₀.replyLength
      omega
    exact congrArg (h₀.bytesReceived + ·) this

theorem chunkStartType_post {h₀ h : Handle} {cmd : Command} (ha : At .chunkStart h₀)
    (hh : h = { h₀ with rx := { h₀.rx with payloadLeft := h₀.replyLength } })
    (hk : h.rx.replyCmd = some cmd.cookie) (ho : owed h₀ .chunkStart = h₀.replyLength)
    (hmax : h₀.replyLength ≤ maxRequestSize + 8) : (chunkStartType h cmd).All (Post h₀) := by
  have hresync : (resync h).All (Post h₀) := by
    subst hh
    exact resync_post ha rfl ha.replyState rfl rfl rfl fun _ => by simp [ho]
  have hsome : h₀.rx.replyCmd ≠ none := by
    subst hh
    rw [show h₀.rx.replyCmd = some cmd.cookie from hk]
    exact nofun
  have hlen : h.replyLength = h₀.replyLength := by subst hh; rfl
  unfold chunkStartType
  simp only
  split
  · split
    · exact hresync
    · rename_i hcond
      subst hh
      have hz : h₀.replyLength = 0 := by
        by_contra hne
        exact hcond (.inl hne)
      refine .of_goto ha rfl rfl (by decide) ha.replyState ⟨hz, ha.layout.2⟩
        rfl rfl rfl nofun ?_
      intro _
      rw [ho, hz]
      rfl
  · split
    · split
      · exact hresync
      · rename_i hcond
        have h8 : 8 ≤ h₀.replyLength := by
          rw [hlen] at hcond
          omega
        subst hh
        refine .of_goto ha rfl rfl (by decide) ha.replyState ⟨⟨0, rfl, rfl⟩, ?_⟩
          rfl rfl rfl (fun _ => hsome) ?_
        · change h₀.replyLength - 8 ≤ maxRequestSize
          omega
        · intro _
          rw [ho]
          change h₀.bytesReceived + (8 + (h₀.replyLength - 8)) = _
          omega
    · split
      · split
        · exact hresync
        · rename_i hcond
          have h12 : h₀.replyLength = 12 := by
            rw [hlen] at hcond
            omega
          subst hh
          refine .of_goto ha rfl rfl (by decide) ha.replyState ⟨⟨0, rfl, rfl⟩, ?_⟩
            rfl rfl rfl (fun _ => hsome) ?_
          · change h₀.replyLength - 12 = 0
            omega
          · intro _
            rw [ho]
            change h₀.bytesReceived + (12 + (h₀.replyLength - 12)) = _
            omega
      · split
        · exact chunkStartBlockStatus_post ha hh hk ho
        · split
          · split
            · exact hresync
            · rename_i hcond
              rw [hlen] at hcond
              subst hh
              refine .of_goto ha rfl rfl (by decide) ha.replyState ⟨⟨0, rfl, Nat.zero_add _⟩, ?_⟩
                rfl rfl rfl (fun _ => hsome) ?_
              · change 4 ≤ h₀.replyLength
                omega
              · intro _
                rw [ho]
                change h₀.bytesReceived + (h₀.replyLength - min h₀.replyLength 6 +
                  min h₀.replyLength 6) = _
                omega
          · exact hresync

theorem enterChunkStart_post {h : Handle} (ha : At .chunkStart h) :
    (enterChunkStart h).All (Post h) := by
  have hz : h.rx.payloadLeft = 0 := ha.layout.1
  unfold enterChunkStart
  split
  · exact .of_dead ha.replyState rfl
  · rename_i hmax
    split
    · trivial
    · rename_i hnull
      refine resync_post ha rfl ha.replyState rfl rfl rfl fun _ => ?_
      simp only [owed, hnull]
    · rename_i cmd hl
      obtain ⟨hk, -⟩ := replyRef_live hl
      split
      · rename_i hexp
        refine chunkStartType_post ha rfl hk ?_ (by omega)
        simp only [owed, hl, hexp, if_true]
      · rename_i hexp
        refine resync_post ha rfl ha.replyState rfl rfl rfl fun _ => ?_
        simp only [owed, hl, hexp]
        rfl

theorem recvErrorDone_post {h : Handle} (ha : At .chunkRecvError h) (hz : h.rx.rlen = 0) :
    (recvErrorDone h).All (Post h) := by
  have ho : owed h .chunkRecvError = h.rx.payloadLeft - min h.rx.payloadLeft 6 := by
    simp only [owed, hz, Nat.add_zero]
  unfold recvErrorDone
  simp only
  apply require_all
  intro _
  split
  · trivial
  · trivial
  · rename_i cmd hl
    obtain ⟨hk, -⟩ := replyRef_live hl
    have hsome : h.rx.replyCmd ≠ none := by
      rw [show h.rx.replyCmd = some cmd.cookie from hk]
      exact nofun
    split
    · refine resync_post ha rfl ha.replyState rfl rfl (setFirst_cookies _ _) fun _ => ?_
      rw [ho]
      rfl
    · rename_i hcond
      refine .of_goto ha rfl rfl (by decide) ha.replyState ⟨6, rfl⟩
        rfl rfl rfl (fun _ => hsome) ?_
      intro _
      rw [ho]
      simp only [not_or, Handle.chunkErrorLen] at hcond
      simp only [owed, Handle.chunkErrorLen]
      omega

theorem recvErrorMessageDone_post {h : Handle} (ha : At .chunkRecvErrorMessage h)
    (hz : h.rx.rlen = 0) : (recvErrorMessageDone h).All (Post h) := by
  refine .of_goto ha rfl rfl (by decide) ha.replyState ⟨rfl, ?_⟩
    rfl rfl rfl (fun _ => ha.cmd.needed rfl) ?_
  · simp only
    split
    · exact .inr ⟨_, rfl⟩
    · exact .inl rfl
  · intro _
    simp only [owed, hz, Nat.zero_add]

theorem recvErrorTailDone_post {inp : Input} {h : Handle} (ha : At .chunkRecvErrorTail h)
    (hz : h.rx.rlen = 0) : (recvErrorTailDone inp h).All (Post h) := by
  unfold recvErrorTailDone
  split
  · trivial
  · trivial
  · refine .of_goto ha rfl rfl (by decide) ha.replyState ⟨ha.layout.1, hz⟩
      rfl rfl (setFirst_cookies _ _) nofun ?_
    intro _
    simp only [owed, hz]
    rfl

theorem see_fields (cmd : Command) (n : UInt32) :
    (cmd.see n).cookie = cmd.cookie ∧ (cmd.see n).type = cmd.type ∧ (cmd.see n).buf = cmd.buf ∧
      (cmd.see n).offset = cmd.offset ∧ (cmd.see n).count = cmd.count ∧
      (cmd.see n).initialized = cmd.initialized ∧ (cmd.see n).fn = cmd.fn := by
  unfold Command.see
  split <;> exact ⟨rfl, rfl, rfl, rfl, rfl, rfl, rfl⟩

theorem recvOffsetDataDone_post {h : Handle} (ha : At .chunkRecvOffsetData h)
    (hz : h.rx.rlen = 0) : (recvOffsetDataDone h).All (Post h) := by
  unfold recvOffsetDataDone
  split
  · trivial
  · trivial
  · rename_i cmd hl
    obtain ⟨hk, hf⟩ := replyRef_live hl
    apply require_all
    intro hread
    simp only
    split
    · rename_i hin
      obtain ⟨s₁, s₂, s₃, s₄, s₅, -⟩ := see_fields cmd (UInt32.ofNat h.rx.payloadLeft)
      have hmem : cmd.see (UInt32.ofNat h.rx.payloadLeft) ∈
          Handle.setFirst (cmd.see (UInt32.ofNat h.rx.payloadLeft)) h.q.cmdsInFlight :=
        mem_setFirst (by rw [s₁]; exact hf)
      have htype : cmd.type = .read := by
        simp only [Bool.and_eq_true, beq_iff_eq] at hread
        exact hread.2
      refine .of_goto ha rfl rfl (by decide) ha.replyState ⟨ha.layout.2, cmd.cookie, hk, _, hmem, s₁,
        s₂.trans htype, _, rfl, ?_, ?_, ?_⟩
        rfl rfl (setFirst_cookies _ _)
          (fun _ => by rw [hk]; exact nofun) ?_
      · rw [s₃, s₄]
        exact Nat.le_refl _
      · rw [s₃, s₄]
        rfl
      · have hin' : structuredReplyInBounds h.chunkOffset (UInt32.ofNat h.rx.payloadLeft)
            (cmd.see (UInt32.ofNat h.rx.payloadLeft)) = true := by
          unfold structuredReplyInBounds at hin ⊢
          rw [s₄, s₅]
          exact hin
        exact hin'
      · intro _
        simp only [owed, hz, Nat.zero_add]
        rfl
    · exact .of_dead ha.replyState rfl

theorem callChunk_same (inp : Input) (h : Handle) (cmd : Command) (e : Event) :
    (callChunk inp h cmd e).rx = h.rx ∧ (callChunk inp h cmd e).bytesReceived = h.bytesReceived ∧
      (callChunk inp h cmd e).q.cmdsInFlight.map Command.cookie =
        h.q.cmdsInFlight.map Command.cookie := by
  unfold callChunk
  simp only
  split <;> exact ⟨rfl, rfl, setFirst_cookies _ _⟩

theorem recvOffsetDataDataDone_post {inp : Input} {h : Handle}
    (ha : At .chunkRecvOffsetDataData h) (hz : h.rx.rlen = 0) :
    (recvOffsetDataDataDone inp h).All (Post h) := by
  unfold recvOffsetDataDataDone
  split
  · trivial
  · trivial
  · rename_i cmd hl
    obtain ⟨hrx, hb, hq⟩ := callChunk_same inp h cmd (.chunk cmd.cookie
      (h.mem.read (cmd.buf + (h.chunkOffset - cmd.offset).toNat) h.rx.payloadLeft) h.chunkOffset
      .data cmd.error)
    simp only
    refine .of_goto ha rfl rfl (by decide) (by simp only [hrx]; exact ha.replyState)
      ⟨rfl, by simp only [hrx]; exact hz⟩
      (by simp only [hrx]) (by simp only [hrx]) hq nofun ?_
    intro _
    simp only [owed, hz]
    exact hb

/-- The last step of a hole chunk. -/
theorem callChunk_finish_post {inp : Input} {s : State} {h h₁ : Handle} {cmd : Command} {e : Event}
    (ha : At s h) (hs : s.isMid = true) (hrx : h₁.rx = h.rx)
    (hb : h₁.bytesReceived = h.bytesReceived) (hq : h₁.q = h.q) (hz : h.rx.rlen = 0)
    (hpl : h.rx.payloadLeft = 0) (ho : owed h s = 0) :
    (goto .chunkFinish (callChunk inp h₁ cmd e)).All (Post h) := by
  obtain ⟨hrx', hb', hq'⟩ := callChunk_same inp h₁ cmd e
  rw [hrx] at hrx'
  refine .of_goto ha hs rfl (fun _ => .inl rfl) (by rw [hrx']; exact ha.replyState)
    ⟨by rw [hrx']; exact hpl, by rw [hrx']; exact hz⟩
    (by rw [hrx']) (by rw [hrx']) (by rw [hq', hq]) nofun ?_
  intro _
  rw [ho]
  exact hb'.trans hb

theorem recvOffsetHoleDone_post {inp : Input} {h : Handle} (ha : At .chunkRecvOffsetHole h)
    (hz : h.rx.rlen = 0) : (recvOffsetHoleDone inp h).All (Post h) := by
  unfold recvOffsetHoleDone
  split
  · trivial
  · trivial
  · rename_i cmd hl
    apply require_all
    intro _
    simp only
    split
    · exact callChunk_finish_post ha rfl rfl rfl rfl hz ha.layout.2
        (by simp only [owed, hz, Nat.zero_add]; exact ha.layout.2)
    · exact .of_dead ha.replyState rfl

theorem recvBsHeaderDone_post {inp : Input} {h : Handle} (ha : At .chunkRecvBsHeader h)
    (hz : h.rx.rlen = 0) : (recvBsHeaderDone inp h).All (Post h) := by
  have ho : owed h .chunkRecvBsHeader = h.rx.payloadLeft - bsPrefixLen h.replyType := by
    simp only [owed, hz, Nat.add_zero]
  unfold recvBsHeaderDone
  split
  · trivial
  · trivial
  · apply require_all
    intro _
    apply require_all
    intro _
    apply require_all
    intro _
    apply require_all
    intro _
    split
    · exact resync_post ha rfl ha.replyState rfl rfl rfl fun _ => by rw [ho]
    · apply ite_all
      · intro _
        refine .of_goto ha rfl rfl (by decide) ha.replyState ⟨rfl, 0, rfl⟩
          rfl rfl rfl (fun _ => ha.cmd.needed rfl) ?_
        intro _
        rw [ho]
        rfl
      · intro _
        exact .of_dead ha.replyState rfl

theorem recvBsEntriesDone_post {inp : Input} {h : Handle} (ha : At .chunkRecvBsEntries h)
    (hz : h.rx.rlen = 0) : (recvBsEntriesDone inp h).All (Post h) := by
  unfold recvBsEntriesDone
  split
  · trivial
  · trivial
  · apply require_all
    intro _
    apply require_all
    intro _
    split
    · trivial
    · apply require_all
      intro _
      apply require_all
      intro _
      split
      · refine .of_goto ha rfl rfl (by decide) ha.replyState ⟨ha.layout.1, hz⟩
          rfl rfl rfl nofun ?_
        intro _
        simp only [owed, hz]
      · split
        · trivial
        · refine .of_goto ha rfl rfl (by decide) ha.replyState ⟨ha.layout.1, hz⟩
            rfl rfl (setFirst_cookies _ _) nofun ?_
          intro _
          simp only [owed, hz]
          rfl

theorem resyncDone_post {h : Handle} (ha : At .chunkResync h) (hz : h.rx.rlen = 0) :
    (resyncDone h).All (Post h) := by
  unfold resyncDone
  split
  · trivial
  · refine .of_goto ha rfl rfl (by decide) ha.replyState ⟨ha.layout.1, hz⟩
      rfl rfl rfl nofun ?_
    intro _
    simp only [owed, hz]
  · refine .of_goto ha rfl rfl (by decide) ha.replyState ⟨ha.layout.1, hz⟩
      rfl rfl (setFirst_cookies _ _) nofun ?_
    intro _
    simp only [owed, hz]
    rfl

theorem enterChunkFinish_post {h : Handle} (ha : At .chunkFinish h) :
    (enterChunkFinish h).All (Post h) := by
  apply require_all
  intro _
  split
  · exact .of_goto ha rfl rfl (by decide) ha.replyState ha.layout
      rfl rfl rfl nofun fun _ => rfl
  · exact .of_between ha rfl rfl ha.replyState rfl ⟨ha.layout.1, .inl ha.layout.2⟩ nofun rfl
      fun _ => rfl

/-- **The receiving states.** -/
theorem enter_post (inp : Input) {h : Handle} (hr : RxInv h) (hs : h.state.isReceiving = true) :
    (enter inp h).All (Post h) := by
  have hat : h.state.isMid = true → At h.state h := hr.at
  unfold enter
  cases hst : h.state <;> simp only [hst, State.isReceiving, Bool.false_eq_true] at hs hat ⊢
  case replyStart => exact enterReplyStart_post hr hst
  case replyRecvReply => exact enterReplyRecvReply_post hr hst
  case replyCheckReplyMagic => exact enterReplyCheckReplyMagic_post hr hst
  case replyRecvStructuredRemaining =>
    refine recvThen_post (hat rfl) rfl fun h' ha hz => ?_
    exact .of_goto ha rfl rfl (by decide) ha.replyState ⟨ha.layout.1, hz⟩
      rfl rfl rfl (by rintro ⟨⟩) (by rintro ⟨⟩)
  case simpleStart => exact enterSimpleStart_post (hat rfl)
  case simpleRecvReadPayload =>
    exact recvThen_post (hat rfl) rfl fun _ => simpleReadPayloadDone_post
  case chunkStart => exact enterChunkStart_post (hat rfl)
  case chunkRecvError => exact recvThen_post (hat rfl) rfl fun _ => recvErrorDone_post
  case chunkRecvErrorMessage => exact recvThen_post (hat rfl) rfl fun _ => recvErrorMessageDone_post
  case chunkRecvErrorTail => exact recvThen_post (hat rfl) rfl fun _ => recvErrorTailDone_post
  case chunkRecvOffsetData => exact recvThen_post (hat rfl) rfl fun _ => recvOffsetDataDone_post
  case chunkRecvOffsetDataData =>
    exact recvThen_post (hat rfl) rfl fun _ => recvOffsetDataDataDone_post
  case chunkRecvOffsetHole => exact recvThen_post (hat rfl) rfl fun _ => recvOffsetHoleDone_post
  case chunkRecvBsHeader => exact recvThen_post (hat rfl) rfl fun _ => recvBsHeaderDone_post
  case chunkRecvBsEntries => exact recvThen_post (hat rfl) rfl fun _ => recvBsEntriesDone_post
  case chunkResync =>
    exact require_all fun _ => recvThen_post (hat rfl) rfl fun _ => resyncDone_post
  case chunkFinish => exact enterChunkFinish_post (hat rfl)

end Libnbd
