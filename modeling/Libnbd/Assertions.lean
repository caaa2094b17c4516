import Libnbd.Bounds
import Libnbd.Origins
import Libnbd.Sync

/-!
The assertions of the reply engine.

`RxInv` says where `rbuf` points and that `reply_cmd` is a command in flight.
What the assertions need besides is the type of this command in each payload
state, and the lengths that `CHUNK_REPLY.START` has checked (`Typed`). `Checked`
is the property of an outcome that every state of the machine has: the invariant
holds afterwards, and no assertion of the reply engine but one has failed.
-/

namespace Libnbd

open Lib

/-- The assertions of `states-reply.c`, `states-reply-simple.c` and
`states-reply-chunk.c`, and the use of a command that is gone; not the search for
the command in `FINISH_COMMAND`. -/
def Abort.isReply : Abort → Bool
  | saveRlen | saveReplyState | saveStart | resumeProcessing | startReplyCmd | structuredRbuf
  | finishDisc | doneTail | inFlightNegative | readCmd | errorLength | errorCmd | tailCmd | dataCmd
  | holeCmd | bsExtent | bsCmd | bsLength | bsDivides | bsType | bsStorage | bsMetaValid | bsCook
  | resyncRbuf | chunkPayloadLeft | danglingReplyCmd => true
  | _ => false

/-! ## Commands -/

/-- A read has a buffer and a block status command has a callback. -/
def Command.Shaped (cmd : Command) : Prop :=
  (cmd.type = .read → cmd.buf ≠ 0) ∧ (cmd.type = .blockStatus → cmd.fn.isNull = false)

theorem argError_of_callError {inp : Input} {h : Handle} {call : Call}
    (hok : callError inp h call = none) : call.argError = none := by
  unfold callError at hok
  split at hok
  · cases hok
  · exact (Option.or_eq_none_iff.mp hok).1

theorem Submitted.shaped {exp : Export} {cmd : Command} (hs : Submitted exp cmd) : cmd.Shaped := by
  rcases hs with ⟨inp, h, call, -, hok, -, rfl⟩ | ⟨h, flags, -, rfl⟩
  · have harg := argError_of_callError hok
    cases call with
    | aioPread buf | aioPreadStructured buf =>
      refine ⟨fun _ hb => ?_, nofun⟩
      have hb : buf = 0 := hb
      simp [Call.argError, hb] at harg
    | aioBlockStatus count offset extent | aioBlockStatus64 count offset extent
    | aioBlockStatusFilter count offset filter extent =>
      refine ⟨nofun, fun _ => ?_⟩
      show extent.isNull = false
      simpa [Call.argError] using harg
    | _ => exact ⟨nofun, nofun⟩
  · exact ⟨nofun, nofun⟩

theorem Command.SameAs.shaped {a cmd : Command} (h : a.SameAs cmd) (hs : a.Shaped) : cmd.Shaped := by
  rw [h]
  exact hs

/-- All commands in flight are in order. -/
def Handle.Shaped (h : Handle) : Prop := ∀ cmd ∈ h.q.cmdsInFlight, cmd.Shaped

theorem Origin.shaped {c : Config} (ho : Origin c) : c.h.Shaped := by
  intro cmd hmem
  have hmem' : cmd ∈ c.h.book.commands := by simp [Book.commands, Handle.book, hmem]
  obtain ⟨a, ha, hs⟩ := ho.made hmem'
  exact hs.shaped ha.shaped

/-! ## The invariant -/

/-- The command being replied to has the type `t`. -/
def Handle.RepliesTo (h : Handle) (t : CmdType) : Prop :=
  ∃ cmd ∈ h.q.cmdsInFlight, h.rx.replyCmd = some cmd.cookie ∧ cmd.type = t

/-- What the code of a payload state asserts about the command and the chunk. -/
def Typed (h : Handle) : State → Prop
  | .chunkRecvOffsetData | .chunkRecvOffsetHole => h.RepliesTo .read
  | .chunkRecvBsHeader => h.RepliesTo .blockStatus ∧ h.exp.metaValid = true ∧
    bsReplyLengthOk h.replyType h.rx.payloadLeft = true ∧
    (h.replyType = replyTypeBlockStatus ∨ h.replyType = replyTypeBlockStatusExt)
  | .chunkRecvBsEntries => h.RepliesTo .blockStatus ∧ h.exp.metaValid = true ∧
    h.rx.bsRaw.isSome = true ∧ h.rx.bsCount ≠ 0
  | _ => True

def TypedInv (h : Handle) : Prop := h.alive → Typed h h.logical

/-- The invariant holds afterwards, or an assertion outside the reply engine has
failed. -/
def Outcome.Checked : Outcome → Prop
  | .next h | .block h | .fail h => TypedInv h
  | .abort a => a.isReply = false

theorem require_checked {p : Bool} {a : Abort} {k : Outcome} (hp : p = true ∨ a.isReply = false)
    (hk : p = true → k.Checked) : (require p a k).Checked := by
  unfold require
  split
  · exact hk (by assumption)
  · rename_i hne
    exact hp.resolve_left hne

theorem ite_checked {p : Prop} [Decidable p] {a b : Outcome} (ha : p → a.Checked)
    (hb : ¬ p → b.Checked) : (if p then a else b).Checked := by
  split
  · exact ha (by assumption)
  · exact hb (by assumption)

theorem typedInv_mid {s : State} {h : Handle} (hm : s.isMid = true) (ht : Typed h s) :
    TypedInv { h with state := s } := by
  intro _
  have hlog : ({ h with state := s } : Handle).logical = s := Handle.logical_of_isMid hm
  rw [hlog]
  cases s <;> exact ht

theorem typedInv_start {h : Handle} (hm : h.state.isMid = false) (hrs : h.rx.replyState = .start) :
    TypedInv h := by
  intro _
  rw [Handle.logical_of_not_isMid hm, hrs]
  trivial

/-- Nothing that matters to a saved reply changes. -/
theorem TypedInv.keep {h h' : Handle} (ht : TypedInv h) (hb : h.state.isBusy = false)
    (hb' : h'.state.isBusy = false) (ha : h'.alive → h.alive) (hrx : h'.rx = h.rx)
    (hexp : h'.exp = h.exp) (hq : h'.alive → ∀ c ∈ h.q.cmdsInFlight, c ∈ h'.q.cmdsInFlight) :
    TypedInv h' := by
  have hlog : h'.logical = h.logical := by
    rw [Handle.logical_of_not_isMid (not_isMid_of_not_isBusy hb),
      Handle.logical_of_not_isMid (not_isMid_of_not_isBusy hb'), hrx]
  intro ha'
  have hty := ht (ha ha')
  have hrep : ∀ t, h.RepliesTo t → h'.RepliesTo t := by
    rintro t ⟨cmd, hmem, hk, hct⟩
    exact ⟨cmd, hq ha' cmd hmem, by rw [hrx]; exact hk, hct⟩
  have htype : h'.replyType = h.replyType := by
    simp only [Handle.replyType, hrx]
  rw [hlog]
  generalize h.logical = s at hty
  cases s <;> first | exact True.intro | skip
  case chunkRecvOffsetData => exact hrep _ hty
  case chunkRecvOffsetHole => exact hrep _ hty
  case chunkRecvBsHeader =>
    obtain ⟨h₁, h₂, h₃, h₄⟩ := hty
    exact ⟨hrep _ h₁, by rw [hexp]; exact h₂, by rw [htype, hrx]; exact h₃, by rw [htype]; exact h₄⟩
  case chunkRecvBsEntries =>
    obtain ⟨h₁, h₂, h₃, h₄⟩ := hty
    exact ⟨hrep _ h₁, by rw [hexp]; exact h₂, by rw [hrx]; exact h₃, by rw [hrx]; exact h₄⟩

/-- Receiving a part of the payload. -/
theorem typed_received {s : State} {h h' : Handle} (hs : s.isPayload = true) (hl : Layout h s)
    (hr : Received h h') (ht : Typed h s) : Typed h' s := by
  cases hr with
  | nothing => exact ht
  | data bs hne hle =>
    have hrep : ∀ t, h.RepliesTo t → (h.store bs).RepliesTo t := fun t hr => hr
    cases s <;> first | exact True.intro | skip
    case chunkRecvOffsetData => exact hrep _ ht
    case chunkRecvOffsetHole => exact hrep _ ht
    case chunkRecvBsHeader =>
      obtain ⟨⟨p, hp, -⟩, -⟩ := hl
      have htype : (h.store bs).replyType = h.replyType := by
        simp [Handle.replyType, Handle.store, hp, Rbuf.storeHdr]
      obtain ⟨h₁, h₂, h₃, h₄⟩ := ht
      refine ⟨hrep _ h₁, h₂, ?_, ?_⟩
      · rw [htype]
        exact h₃
      · rw [htype]
        exact h₄
    case chunkRecvBsEntries =>
      obtain ⟨h₁, h₂, h₃, h₄⟩ := ht
      refine ⟨hrep _ h₁, h₂, ?_, h₄⟩
      simp only [Handle.store, Option.isSome_map]
      exact h₃

/-- Rule for the payload states. -/
theorem recvThen_checked {inp : Input} {done : Handle → Outcome} {h : Handle} {s : State}
    (ha : At s h) (hs : s.isPayload = true) (ht : Typed h s)
    (hdone : ∀ h', At s h' → h'.q = h.q → Typed h' s → (done h').Checked) :
    (recvThen inp done h).Checked := by
  unfold recvThen
  obtain ⟨e, he⟩ | ⟨h', hrec, hlen, he⟩ | ⟨h', hrec, hlen, he⟩ := recvIntoRbuf_cases inp h
  · rw [he]
    exact fun halive => absurd rfl halive.1
  · rw [he]
    have ha' := ha.received hs hrec
    have ht' := typed_received hs ha.layout hrec ht
    refine require_checked (.inl (by simpa using hlen)) fun _ => ?_
    refine require_checked (.inl (by simp [ha'.replyState])) fun _ => ?_
    refine require_checked (.inl ?_) fun _ => ?_
    · rw [ha'.state]
      cases s <;> first | rfl | cases hs
    · -- the state is saved and stays the logical one
      intro _
      have hlog : ({ h' with state := .ready, rx := { h'.rx with replyState := h'.state } } :
          Handle).logical = s := by
        rw [Handle.logical_of_not_isMid rfl]
        exact ha'.state
      show Typed _ _
      rw [hlog]
      cases s <;> exact ht'
  · rw [he]
    exact hdone h' (ha.received hs hrec) (received_same hrec).2.2.2.2.1
      (typed_received hs ha.layout hrec ht)

/-! ## The states of a reply -/

/-- In the states that need it, `reply_cmd` points to a command in flight. -/
theorem At.live {s : State} {h : Handle} (ha : At s h) (hs : s.needsCmd = true) :
    ∃ cmd, h.replyRef = .live cmd ∧ cmd ∈ h.q.cmdsInFlight := by
  unfold Handle.replyRef
  cases hk : h.rx.replyCmd with
  | none => exact absurd hk (ha.cmd.needed hs)
  | some k =>
    simp only
    cases hf : Handle.findCmd k h.q.cmdsInFlight with
    | none => exact absurd (ha.cmd.inFlight k hk).2 (findCmd_eq_none.mp hf)
    | some cmd => exact ⟨cmd, rfl, (findCmd_mem hf).1⟩

theorem At.not_dangling {s : State} {h : Handle} (ha : At s h) : h.replyRef ≠ .dangling := by
  intro hd
  unfold Handle.replyRef at hd
  split at hd
  · cases hd
  · rename_i k hk
    split at hd
    · rename_i hf
      exact absurd (ha.cmd.inFlight k hk).2 (findCmd_eq_none.mp hf)
    · cases hd

/-- The command that `reply_cmd` points to is the one of the type recorded. -/
theorem replyRef_type {h : Handle} {cmd : Command} {t : CmdType}
    (hnd : (h.q.cmdsInFlight.map Command.cookie).Nodup) (hl : h.replyRef = .live cmd)
    (hr : h.RepliesTo t) : cmd.type = t := by
  obtain ⟨hk, hf⟩ := replyRef_live hl
  obtain ⟨d, hd, hkd, ht⟩ := hr
  rw [hk] at hkd
  have hcookie : cmd.cookie = d.cookie := Option.some.inj hkd
  rw [List.inj_on_of_nodup_map hnd (findCmd_mem hf).1 hd hcookie]
  exact ht

theorem repliesTo_of_live {h : Handle} {cmd : Command} (hl : h.replyRef = .live cmd) :
    h.RepliesTo cmd.type := by
  obtain ⟨hk, hf⟩ := replyRef_live hl
  exact ⟨cmd, (findCmd_mem hf).1, hk, rfl⟩

/-- The same after the command was changed in place. -/
theorem repliesTo_setCmd {h : Handle} {cmd : Command} (cmd' : Command) (hl : h.replyRef = .live cmd)
    (hk : cmd'.cookie = cmd.cookie) : (h.setCmd cmd').RepliesTo cmd'.type := by
  obtain ⟨hr, hf⟩ := replyRef_live hl
  refine ⟨cmd', mem_setFirst (by rw [hk]; exact hf), ?_, rfl⟩
  rw [hk]
  exact hr

section States

variable {inp : Input} {h : Handle}

theorem enterReplyStart_checked (hr : RxInv h) (ht : TypedInv h) (hst : h.state = .replyStart) :
    (enterReplyStart inp h).Checked := by
  have halive : h.alive := by
    constructor <;> (intro hs; rw [hst] at hs; cases hs)
  have hlog : h.logical = h.rx.replyState := Handle.logical_of_not_isMid (by rw [hst]; rfl)
  unfold enterReplyStart
  split
  · split
    · rename_i hne
      obtain ⟨hp, -, -⟩ := hr.saved hne
      refine require_checked (.inl ?_) fun _ => ?_
      · generalize h.rx.replyState = s at hp
        cases s <;> first | rfl | cases hp
      · have hty := ht halive
        rw [hlog] at hty
        refine typedInv_mid (State.isMid_of_isPayload hp) ?_
        generalize h.rx.replyState = s at hty
        cases s <;> exact hty
    · rename_i heq
      exact typedInv_start rfl (by simpa using heq)
  · rename_i hlen
    have hrs : h.rx.replyState = .start := by
      by_contra hne
      exact absurd (Nat.pos_of_ne_zero (hr.saved hne).2.1) hlen
    refine require_checked (.inl ?_) fun _ => ?_
    · rw [replyCmd_of_replyStart hr hst (by omega)]
      rfl
    · split
      · exact typedInv_start (by simp only [Handle.prepareReply, hst]; rfl) hrs
      · exact typedInv_start rfl hrs
      · simp only
        split
        · exact typedInv_start rfl hrs
        · exact typedInv_start rfl hrs

theorem enterReplyRecvReply_checked (hr : RxInv h) (hst : h.state = .replyRecvReply) :
    (enterReplyRecvReply inp h).Checked := by
  have hrs := hr.replyState (by rw [hst]; rfl)
  unfold enterReplyRecvReply
  obtain ⟨e, he⟩ | ⟨h', hrec, -, he⟩ | ⟨h', hrec, -, he⟩ := recvIntoRbuf_cases inp h
  · rw [he]
    exact typedInv_start rfl hrs
  · rw [he]
    have hrs' := (received_same hrec).2.1.trans hrs
    simp only
    split
    · exact typedInv_start rfl hrs'
    · exact typedInv_start rfl hrs'
  · rw [he]
    exact typedInv_start rfl ((received_same hrec).2.1.trans hrs)

theorem enterReplyCheckReplyMagic_checked (hr : RxInv h) (hst : h.state = .replyCheckReplyMagic) :
    (enterReplyCheckReplyMagic h).Checked := by
  obtain ⟨hrs, -, -, hl⟩ := hr.between (by rw [hst]; rfl) (by rw [hst]; rfl)
  have hbuf : h.rx.rbuf = .hdr h.replyHeaderSize := by
    have := hl.2
    rw [hst] at this
    exact this.1
  unfold enterReplyCheckReplyMagic
  simp only
  split
  · split
    · exact typedInv_start rfl hrs
    · exact typedInv_mid rfl True.intro
  · split
    · split
      · exact typedInv_start rfl hrs
      · rename_i hext
        refine require_checked (.inl ?_) fun _ => typedInv_mid rfl True.intro
        simp [hbuf, Handle.replyHeaderSize, hext]
    · split
      · split
        · exact typedInv_mid rfl True.intro
        · exact typedInv_start rfl hrs
      · exact typedInv_start rfl hrs

theorem enterSimpleStart_checked (ha : At .simpleStart h) : (enterSimpleStart h).Checked := by
  unfold enterSimpleStart
  split
  · rename_i hd
    exact absurd hd ha.not_dangling
  · split
    · exact typedInv_mid rfl True.intro
    · exact typedInv_start rfl ha.replyState
  · simp only
    split
    · exact typedInv_mid rfl True.intro
    · exact typedInv_mid rfl True.intro

theorem simpleReadPayloadDone_checked (ha : At .simpleRecvReadPayload h) :
    (simpleReadPayloadDone inp h).Checked := by
  obtain ⟨cmd, hl, -⟩ := ha.live rfl
  unfold simpleReadPayloadDone
  rw [hl]
  exact typedInv_mid rfl True.intro

theorem resync_checked (h : Handle) : (resync h).Checked := typedInv_mid rfl True.intro

theorem chunkStartType_checked {cmd : Command} (hs : h.Shaped) (hl : h.replyRef = .live cmd)
    (hlen : h.rx.payloadLeft = h.replyLength) : (chunkStartType h cmd).Checked := by
  have hmem := (findCmd_mem (replyRef_live hl).2).1
  unfold chunkStartType
  simp only
  split
  · split
    · exact resync_checked h
    · exact typedInv_mid rfl True.intro
  · split
    · split
      · exact resync_checked h
      · rename_i hok
        simp only [ne_eq, not_or, not_not] at hok
        have hread : h.RepliesTo .read := hok.1 ▸ repliesTo_of_live hl
        exact typedInv_mid rfl hread
    · split
      · split
        · exact resync_checked h
        · rename_i hok
          simp only [ne_eq, not_or, not_not] at hok
          have hread : h.RepliesTo .read := hok.1 ▸ repliesTo_of_live hl
          exact typedInv_mid rfl hread
      · split
        · rename_i htype
          unfold chunkStartBlockStatus
          split
          · exact resync_checked h
          · rename_i hok
            simp only [ne_eq, not_or, not_not, Bool.not_eq_false] at hok
            obtain ⟨hct, hvalid, -, hblen⟩ := hok
            refine require_checked (.inl ?_) fun _ => typedInv_mid rfl ⟨?_, hvalid, ?_, htype⟩
            · rw [(hs cmd hmem).2 hct]
              rfl
            · split
              · exact hct ▸ repliesTo_setCmd { cmd with error := orErr cmd.error eproto } hl rfl
              · exact hct ▸ repliesTo_setCmd cmd hl rfl
            · show bsReplyLengthOk h.replyType h.rx.payloadLeft = true
              rw [hlen]
              exact hblen
        · split
          · split
            · exact resync_checked h
            · exact typedInv_mid rfl True.intro
          · exact resync_checked h

theorem enterChunkStart_checked (hs : h.Shaped) (ha : At .chunkStart h) :
    (enterChunkStart h).Checked := by
  unfold enterChunkStart
  split
  · exact typedInv_start rfl ha.replyState
  · split
    · rename_i hd
      exact absurd hd ha.not_dangling
    · exact resync_checked h
    · rename_i cmd hl
      split
      · exact chunkStartType_checked hs hl rfl
      · exact resync_checked h

theorem recvErrorDone_checked (ha : At .chunkRecvError h) : (recvErrorDone h).Checked := by
  obtain ⟨cmd, hl, -⟩ := ha.live rfl
  unfold recvErrorDone
  refine require_checked (.inl (by simpa using ha.layout.2)) fun _ => ?_
  split
  · rename_i hd
    exact absurd (hl.symm.trans hd) nofun
  · rename_i hd
    exact absurd (hl.symm.trans hd) nofun
  · split
    · exact resync_checked _
    · exact typedInv_mid rfl True.intro

theorem recvErrorTailDone_checked (ha : At .chunkRecvErrorTail h) :
    (recvErrorTailDone inp h).Checked := by
  obtain ⟨cmd, hl, -⟩ := ha.live rfl
  unfold recvErrorTailDone
  rw [hl]
  exact typedInv_mid rfl True.intro

theorem recvOffsetDataDone_checked (hnd : (h.q.cmdsInFlight.map Command.cookie).Nodup)
    (hs : h.Shaped) (ha : At .chunkRecvOffsetData h) (ht : Typed h .chunkRecvOffsetData) :
    (recvOffsetDataDone h).Checked := by
  obtain ⟨cmd, hl, hmem⟩ := ha.live rfl
  have htype := replyRef_type hnd hl ht
  unfold recvOffsetDataDone
  rw [hl]
  refine require_checked (.inl ?_) fun _ => ?_
  · simp [htype, (hs cmd hmem).1 htype]
  · simp only
    split
    · exact typedInv_mid rfl True.intro
    · exact typedInv_start rfl ha.replyState

theorem recvOffsetDataDataDone_checked (ha : At .chunkRecvOffsetDataData h) :
    (recvOffsetDataDataDone inp h).Checked := by
  obtain ⟨cmd, hl, -⟩ := ha.live rfl
  unfold recvOffsetDataDataDone
  rw [hl]
  exact typedInv_mid rfl True.intro

theorem recvOffsetHoleDone_checked (hnd : (h.q.cmdsInFlight.map Command.cookie).Nodup)
    (hs : h.Shaped) (ha : At .chunkRecvOffsetHole h) (ht : Typed h .chunkRecvOffsetHole) :
    (recvOffsetHoleDone inp h).Checked := by
  obtain ⟨cmd, hl, hmem⟩ := ha.live rfl
  have htype := replyRef_type hnd hl ht
  unfold recvOffsetHoleDone
  rw [hl]
  refine require_checked (.inl ?_) fun _ => ?_
  · simp [htype, (hs cmd hmem).1 htype]
  · simp only
    split
    · exact typedInv_mid rfl True.intro
    · exact typedInv_start rfl ha.replyState

theorem bsReplyLengthOk_spec {type : UInt16} {length : Nat}
    (hok : bsReplyLengthOk type length = true) :
    (length - bsPrefixLen type) % bsExtentLen type = 0 ∧
      (length - bsPrefixLen type) / bsExtentLen type ≠ 0 := by
  simp only [bsReplyLengthOk, Bool.and_eq_true, decide_eq_true_eq, beq_iff_eq] at hok
  have hpos : 0 < bsExtentLen type := by
    unfold bsExtentLen
    split <;> omega
  refine ⟨hok.2, ?_⟩
  have hle : bsExtentLen type ≤ length - bsPrefixLen type := by omega
  have := Nat.div_pos hle hpos
  omega

theorem recvBsHeaderDone_checked (hnd : (h.q.cmdsInFlight.map Command.cookie).Nodup)
    (ha : At .chunkRecvBsHeader h) (ht : Typed h .chunkRecvBsHeader) :
    (recvBsHeaderDone inp h).Checked := by
  obtain ⟨cmd, hl, -⟩ := ha.live rfl
  obtain ⟨hrep, hvalid, hlen, htype⟩ := ht
  obtain ⟨hmod, hcount⟩ := bsReplyLengthOk_spec hlen
  unfold recvBsHeaderDone
  rw [hl]
  refine require_checked (.inl (by simp [replyRef_type hnd hl hrep])) fun _ => ?_
  refine require_checked (.inl hlen) fun _ => ?_
  refine require_checked (.inl (by simpa using htype)) fun _ => ?_
  refine require_checked (.inl (by simpa [Handle.replyType] using hmod)) fun _ => ?_
  refine ite_checked (fun _ => resync_checked _) fun _ => ?_
  refine ite_checked (fun _ => ?_) fun _ => typedInv_start rfl ha.replyState
  exact typedInv_mid (s := .chunkRecvBsEntries) rfl ⟨hrep, hvalid, rfl, hcount⟩

theorem recvBsEntriesDone_checked (hnd : (h.q.cmdsInFlight.map Command.cookie).Nodup)
    (hs : h.Shaped) (ha : At .chunkRecvBsEntries h) (ht : Typed h .chunkRecvBsEntries) :
    (recvBsEntriesDone inp h).Checked := by
  obtain ⟨cmd, hl, hmem⟩ := ha.live rfl
  obtain ⟨hrep, hvalid, hraw, hcount⟩ := ht
  have htype := replyRef_type hnd hl hrep
  obtain ⟨raw, hraw⟩ := Option.isSome_iff_exists.mp hraw
  unfold recvBsEntriesDone
  rw [hl]
  refine require_checked (.inl (by simp [htype])) fun _ => ?_
  refine require_checked (.inl (by simp [(hs cmd hmem).2 htype])) fun _ => ?_
  rw [hraw]
  refine require_checked (.inl (by simpa using hcount)) fun _ => ?_
  refine require_checked (.inl hvalid) fun _ => ?_
  split
  · exact typedInv_mid rfl True.intro
  · obtain ⟨entries, error, hcook, -⟩ := cooked_ok h cmd raw hcount
    rw [hcook]
    exact typedInv_mid rfl True.intro

theorem resyncDone_checked (ha : At .chunkResync h) : (resyncDone h).Checked := by
  unfold resyncDone
  split
  · rename_i hd
    exact absurd hd ha.not_dangling
  · exact typedInv_mid rfl True.intro
  · exact typedInv_mid rfl True.intro

theorem enterChunkFinish_checked (ha : At .chunkFinish h) : (enterChunkFinish h).Checked := by
  unfold enterChunkFinish
  refine require_checked (.inl (by simpa using ha.layout.1)) fun _ => ?_
  split
  · exact typedInv_mid rfl True.intro
  · exact typedInv_start rfl ha.replyState

/-- **The receiving states.** -/
theorem receiving_checked (hr : RxInv h) (hnd : (h.q.cmdsInFlight.map Command.cookie).Nodup)
    (hsh : h.Shaped) (ht : TypedInv h) (hs : h.state.isReceiving = true) :
    (enter inp h).Checked := by
  have hat : h.state.isMid = true → At h.state h := hr.at
  have hty : h.state.isMid = true → Typed h h.state := by
    intro hm
    have := ht (alive_of_isMid hm)
    rwa [Handle.logical_of_isMid hm] at this
  unfold enter
  cases hst : h.state <;> simp only [hst, State.isReceiving, Bool.false_eq_true] at hs hat hty ⊢
  case replyStart => exact enterReplyStart_checked hr ht hst
  case replyRecvReply => exact enterReplyRecvReply_checked hr hst
  case replyCheckReplyMagic => exact enterReplyCheckReplyMagic_checked hr hst
  case replyRecvStructuredRemaining =>
    exact recvThen_checked (hat rfl) rfl (hty rfl) fun _ _ _ _ => typedInv_mid rfl True.intro
  case simpleStart => exact enterSimpleStart_checked (hat rfl)
  case simpleRecvReadPayload =>
    exact recvThen_checked (hat rfl) rfl (hty rfl) fun _ ha _ _ => simpleReadPayloadDone_checked ha
  case chunkStart => exact enterChunkStart_checked hsh (hat rfl)
  case chunkRecvError =>
    exact recvThen_checked (hat rfl) rfl (hty rfl) fun _ ha _ _ => recvErrorDone_checked ha
  case chunkRecvErrorMessage =>
    exact recvThen_checked (hat rfl) rfl (hty rfl) fun _ _ _ _ => typedInv_mid rfl True.intro
  case chunkRecvErrorTail =>
    exact recvThen_checked (hat rfl) rfl (hty rfl) fun _ ha _ _ => recvErrorTailDone_checked ha
  case chunkRecvOffsetData =>
    exact recvThen_checked (hat rfl) rfl (hty rfl) fun h' ha hq ht' =>
      recvOffsetDataDone_checked (hq ▸ hnd) (fun c hc => hsh c (hq ▸ hc)) ha ht'
  case chunkRecvOffsetDataData =>
    exact recvThen_checked (hat rfl) rfl (hty rfl) fun _ ha _ _ => recvOffsetDataDataDone_checked ha
  case chunkRecvOffsetHole =>
    exact recvThen_checked (hat rfl) rfl (hty rfl) fun h' ha hq ht' =>
      recvOffsetHoleDone_checked (hq ▸ hnd) (fun c hc => hsh c (hq ▸ hc)) ha ht'
  case chunkRecvBsHeader =>
    exact recvThen_checked (hat rfl) rfl (hty rfl) fun h' ha hq ht' =>
      recvBsHeaderDone_checked (hq ▸ hnd) ha ht'
  case chunkRecvBsEntries =>
    exact recvThen_checked (hat rfl) rfl (hty rfl) fun h' ha hq ht' =>
      recvBsEntriesDone_checked (hq ▸ hnd) (fun c hc => hsh c (hq ▸ hc)) ha ht'
  case chunkResync =>
    refine require_checked (.inl (by simpa using (hat rfl).layout.2)) fun _ => ?_
    exact recvThen_checked (hat rfl) rfl (hty rfl) fun _ ha _ _ => resyncDone_checked ha
  case chunkFinish => exact enterChunkFinish_checked (hat rfl)

end States

/-! ## The other states -/

/-- Sending fails no assertion of the reply engine. -/
theorem sending_abort {inp : Input} {h : Handle} {a : Abort} (hs : h.state.isSending = true)
    (he : enter inp h = .abort a) : a.isReply = false := by
  have hreq : ∀ {p : Bool} {b : Abort} {k : Outcome}, require p b k = .abort a → b.isReply = false →
      (k = .abort a → a.isReply = false) → a.isReply = false := by
    intro p b k hr hb hk
    unfold require at hr
    split at hr
    · exact hk hr
    · cases hr
      exact hb
  have hissue : ∀ cmd rest, issueRequest h cmd rest = .abort a → a.isReply = false :=
    fun cmd rest hr => hreq hr rfl (by rintro ⟨⟩)
  have hsend : ∀ s, enterSend inp s h = .abort a → a.isReply = false := by
    intro s hr
    unfold enterSend at hr
    split at hr <;> cases hr
    rfl
  unfold enter at he
  cases hst : h.state <;> simp only [hst, State.isSending, Bool.false_eq_true] at hs he
  case start => cases he
  case ready =>
    unfold enterReady at he
    split at he
    · cases he
    · refine hreq he rfl fun hk => ?_
      split at hk <;> cases hk
  case issueStart =>
    unfold enterIssueStart at he
    split at he
    · cases he
      rfl
    · split at he
      · exact hissue _ _ he
      · split at he
        · split at he <;> cases he
        · exact hissue _ _ he
  case issueSendRequest => exact hsend _ he
  case issuePauseSendRequest => exact hreq he rfl fun hk => hreq hk rfl (by rintro ⟨⟩)
  case issuePrepareWritePayload =>
    unfold enterIssuePrepareWritePayload at he
    split at he
    · cases he
      rfl
    · refine hreq he rfl fun hk => ?_
      split at hk
      · cases hk
      · split at hk <;> cases hk
  case issueSendWritePayload => exact hsend _ he
  case issuePauseWritePayload => exact hreq he rfl fun hk => hreq hk rfl (by rintro ⟨⟩)
  case issueSendWriteShutdown =>
    unfold enterIssueSendWriteShutdown at he
    split at he <;> cases he
  case issuePauseWriteShutdown => exact hreq he rfl (by rintro ⟨⟩)

theorem checked_of_all {o : Outcome} (h : o.All TypedInv) (ha : ∀ a, o = .abort a → a.isReply = false) :
    o.Checked := by
  cases o with
  | abort a => exact ha a rfl
  | _ => exact h

/-- `in_flight` counts the commands that are not done, and possibly more. -/
theorem finishCommand_checked {inp : Input} {h : Handle} (hinv : h.book.Inv) (ht : Tails h)
    (hslack : 0 ≤ h.slack) (hr : RxInv h) (hs : h.state = .replyFinishCommand) :
    (enterReplyFinishCommand inp h).Checked := by
  have hrs := hr.replyState (by rw [hs]; rfl)
  have halive : h.alive := by
    constructor <;> (intro hd; rw [hs] at hd; cases hd)
  cases hf : Handle.findCmd h.replyCookie h.q.cmdsInFlight with
  | none =>
    unfold enterReplyFinishCommand
    simp only [hf]
    exact require_checked (.inr rfl) fun _ => typedInv_start rfl hrs
  | some cmd =>
    obtain ⟨h', hfin, heq⟩ := finishCommand_ok inp hinv ht halive hf
    rw [heq]
    refine require_checked (.inr rfl) fun _ => require_checked (.inl ?_) fun _ => ?_
    · have hsl := hfin.slack
      simp only [Handle.slack] at hsl hslack
      rw [decide_eq_true_eq]
      omega
    · refine typedInv_start rfl ?_
      show h'.rx.replyState = .start
      rw [hfin.frame]
      exact hrs

/-- **One iteration of the run loop.** -/
theorem enter_checked (inp : Input) {c : Config} (ho : Origin c) (ht : TypedInv c.h) :
    (enter inp c.h).Checked := by
  have hinv := ho.good.sound.inv
  have htails := ho.good.sound.tails
  rcases c.h.state.kinds with hs | hs | hs | hs | hs | hs
  · exact receiving_checked ho.good.rx hinv.nodup_lists.2.1 ho.shaped ht hs
  · refine checked_of_all ((enter_sends inp hs).mono fun h' hq => ?_) fun a => sending_abort hs
    have hb : c.h.state.isBusy = false := by
      cases hst : c.h.state <;> simp_all [State.isSending, State.isBusy, State.isMid]
    have ha : c.h.alive := by
      constructor <;> (intro hd; rw [hd] at hs; cases hs)
    refine ht.keep hb hq.busy (fun _ => ha) ?_ ?_ fun _ d hd => ?_
    · rw [hq.eq]
    · rw [hq.eq]
    · rw [hq.eq]
      exact hd
  · simp only [enter, hs, enterIssueFinish]
    refine require_checked (.inr rfl) fun _ => ?_
    split
    · rfl
    · refine require_checked (.inr rfl) fun _ => ?_
      refine ht.keep (by rw [hs]; rfl) rfl (fun _ => by simp [Handle.alive, hs]) rfl rfl ?_
      intro _ d hd
      exact List.mem_cons_of_mem _ hd
  · simp only [enter, hs]
    exact finishCommand_checked hinv htails ho.good.slack ho.good.rx hs
  · obtain ⟨-, -, h', -, -, hok, hdo, -⟩ := abortAll_ok inp hinv htails
    simp only [enter, hs, enterDead, hok]
    refine require_checked (.inr rfl) fun _ ha => absurd ?_ ha.1
    rw [hdo]
    exact hs
  · obtain ⟨-, -, h', -, -, hok, hdo, -⟩ := abortAll_ok inp hinv htails
    simp only [enter, hs, enterClosed, hok]
    refine fun ha => absurd ?_ ha.2
    rw [hdo]
    exact hs

/-! ## Calls -/

theorem commandCommon_abort {inp : Input} {h : Handle} {r : Request} {a : Abort}
    (he : commandCommon inp h r = .abort a) : a.isReply = false := by
  unfold commandCommon enqueue at he
  split at he
  · cases he
  · simp only at he
    split at he
    · split at he <;> cases he
      rfl
    · split at he
      · split at he
        · cases he
          rfl
        · split at he <;> cases he
          rfl
      · cases he
        rfl

/-- Only the assertion that there is something to abandon can fail. -/
theorem abandonPending_abort {inp : Input} {h : Handle} {a : Abort} (hinv : h.book.Inv)
    (ht : Tails h) (he : abandonPending inp h = .error a) : a.isReply = false := by
  by_cases hne : h.state = .ready ∨ h.q.cmdsToIssue ≠ []
  · obtain ⟨h', hok⟩ := abandonPending_ok inp hinv ht hne
    rw [hok] at he
    cases he
  · simp only [ne_eq, not_or, not_not] at hne
    rw [abandonPending, if_neg hne.1, hne.2] at he
    cases he
    rfl

theorem shutdown_abort {inp : Input} {h : Handle} {flags : UInt32} {a : Abort} (hinv : h.book.Inv)
    (ht : Tails h) (he : shutdown inp h flags = .abort a) : a.isReply = false := by
  unfold shutdown at he
  split at he
  · cases he
  · split at he
    · cases he
    · split at he
      · rename_i b hab
        cases he
        split at hab
        · exact abandonPending_abort hinv ht hab
        · cases hab
      · split at he
        · cases he
        · exact commandCommon_abort he

theorem aioCommandCompleted_abort {h : Handle} {cookie : UInt64} {a : Abort}
    (he : aioCommandCompleted h cookie = .error a) : a.isReply = false := by
  unfold aioCommandCompleted at he
  split at he
  · cases he
  · split at he
    · cases he
    · split at he
      · cases he
        rfl
      · split at he <;> cases he
        rfl

theorem afterSubmit_aborted {h : Handle} {k : After} {s : Submit} {a : Abort}
    (he : (afterSubmit h k s).ctl = .aborted a) : s = .abort a := by
  have hrun : ∀ r h', (afterRun k r h').ctl ≠ .aborted a := by
    intro r h'
    obtain ⟨d, r', heq⟩ := afterRun_h k r h'
    rw [heq]
    nofun
  cases s with
  | refused h' => cases he
  | rejected h' => cases he
  | accepted h' run =>
    cases run with
    | true =>
      simp only [afterSubmit, startRun] at he
      split at he
      · cases he
      · exact absurd he (hrun _ _)
    | false => exact absurd he (hrun _ _)
  | abort b =>
    cases he
    rfl

/-- A call fails no assertion of the reply engine. -/
theorem apiCall_not_reply {inp : Input} {h : Handle} {api : Api} {a : Abort} (hinv : h.book.Inv)
    (ht : Tails h) (he : (apiCall inp h api).ctl = .aborted a) : a.isReply = false := by
  cases api with
  | command call =>
    have hs := afterSubmit_aborted he
    unfold submit at hs
    simp only at hs
    split at hs
    · cases hs
    · exact commandCommon_abort hs
  | aioDisconnect flags =>
    have hs := afterSubmit_aborted he
    unfold aioDisconnect at hs
    split at hs
    · cases hs
    · split at hs
      · cases hs
      · exact commandCommon_abort hs
  | shutdown flags => exact shutdown_abort hinv ht (afterSubmit_aborted he)
  | aioCommandCompleted cookie =>
    simp only [apiCall] at he
    cases hok : aioCommandCompleted h cookie with
    | error b =>
      rw [hok] at he
      cases he
      exact aioCommandCompleted_abort hok
    | ok p =>
      rw [hok] at he
      cases he
  | aioNotifyRead | aioNotifyWrite =>
    simp only [apiCall, startRun] at he
    split at he <;> cases he
  | setStrictMode flags =>
    simp only [apiCall] at he
    split at he <;> cases he
  | setPreadInitialize b => cases he
  | close => cases he

/-! ## Runs -/

/-- The invariant of a run. -/
structure Asserts (c : Config) : Prop where
  origin : Origin c
  typed : TypedInv c.h
  held : ∀ a, c.ctl = .aborted a → a.isReply = false

theorem step_asserts {c c' : Config} {l : Label} (hi : Asserts c) (h : step c l = some c') :
    c'.ctl = .closed ∨ Asserts c' := by
  by_cases hcl : c'.ctl = .closed
  · exact .inl hcl
  right
  have ho := (step_origin hi.origin h).resolve_left hcl
  have hs := hi.origin.good.sound
  obtain ⟨inp, k, rfl, hctl, rfl⟩ | ⟨api, inp, r, rfl, hctl, rfl⟩ := step_cases h
  · have hen := enter_checked inp hi.origin hi.typed
    refine ⟨ho, ?_, fun a ha => ?_⟩
    · refine stepEnter_all (P := TypedInv) k ?_ hi.typed fun h' d ht => ?_
      · generalize enter inp c.h = o at hen
        cases o with
        | abort a => trivial
        | _ => exact hen
      · intro halive
        have := ht halive
        generalize hl : h'.logical = s at this
        have hl' : ({ h' with disconnectRequest := d } : Handle).logical = s := hl
        rw [hl']
        cases s <;> exact this
    · obtain ⟨h', hout, he⟩ | ⟨h', d, r, hout, he⟩ | ⟨b, hout, he⟩ := stepEnter_cases inp k c.h
      · rw [he] at ha
        cases ha
      · rw [he] at ha
        cases ha
      · rw [he] at ha
        cases ha
        rw [hout] at hen
        exact hen
  · have ht : Tails { c.h with lastError := inp.lastError } := ⟨hs.tails.toIssue, hs.tails.done⟩
    refine ⟨ho, ?_, fun a ha => apiCall_not_reply (h := { c.h with lastError := inp.lastError })
      hs.inv ht ha⟩
    have hclose : api ≠ .close := by
      rintro rfl
      exact hcl rfl
    have hb := hi.origin.good.between r hctl
    have hf := apiCall_frame inp { c.h with lastError := inp.lastError } api hclose
    refine hi.typed.keep hb (hf.busy hb) hf.alive hf.rx hf.exp fun _ d hd => ?_
    rw [hf.inFlight]
    exact hd

theorem initial_asserts {c : Config} (h : Initial c) : Asserts c := by
  have hctl : c.ctl ≠ .closed := by
    obtain ⟨exp, strict, pi, hdr, payload, mem, rfl⟩ := h
    nofun
  have ho := (reachable_origin ⟨c, [], h, rfl⟩).resolve_left hctl
  refine ⟨ho, ?_, ?_⟩ <;> obtain ⟨exp, strict, pi, hdr, payload, mem, rfl⟩ := h
  · exact typedInv_start rfl rfl
  · nofun

theorem reachable_asserts {c : Config} (hc : machine.Reachable c) : c.ctl = .closed ∨ Asserts c := by
  refine machine.reachable_invariant (P := fun c => c.ctl = .closed ∨ Asserts c)
    (fun c hi => .inr (initial_asserts hi)) ?_ hc
  rintro c l c' (hcl | hi) hstep
  · cases l <;> simp [machine, step, hcl] at hstep
  · exact step_asserts hi hstep

/-- **The assertions of the reply engine hold**, whatever the server sends and
however it arrives. -/
theorem reply_assertions_hold {c : Config} (hc : machine.Reachable c) {a : Abort}
    (ha : a.isReply = true) : c.ctl ≠ .aborted a := by
  intro hctl
  rcases reachable_asserts hc with hcl | hi
  · rw [hctl] at hcl
    cases hcl
  · rw [hi.held a hctl] at ha
    cases ha

/-! The server describes 256 bytes of the last 512 bytes of the export and then
4096 bytes more. -/

def Export.allocated : Export :=
  { Export.structured with metaValid := true, metaContexts := [([0x78, 0x3a, 0x79], 5)] }

/-- A block status command, sent and answered up to the descriptors. -/
def askStatus : List Label :=
  Label.call (.command (.aioBlockStatus 512 1048064 ⟨true, false⟩ .null 0)) .calm ::
    List.replicate 5 (.enter .calm) ++
  [Label.call .aioNotifyRead .calm,
   .enter { Input.calm with
     recv := .data [0x66, 0x8e, 0x33, 0xef, 0, 1, 0, 5, 0, 0, 0, 0, 0, 0, 0, 1] },
   .enter .calm, .enter .calm, .enter { Input.calm with recv := .data [0, 0, 0, 20] },
   .enter .calm, .enter { Input.calm with recv := .data [0, 0, 0, 5] }]

def descriptors : Label :=
  .enter { Input.calm with recv := .data [0, 0, 1, 0, 0, 0, 0, 1, 0, 0, 16, 0, 0, 0, 0, 0] }

theorem reply_assertions_hold_block_status :
    ∃ c, machine.exec (.ofExport .allocated) (askStatus ++ [descriptors]) = some c ∧
      c.h.state = .chunkFinish ∧ c.ctl ≠ .aborted .bsStorage := by
  have hrun : (machine.exec (.ofExport .allocated) (askStatus ++ [descriptors])).map
      (fun c => c.h.state) = some .chunkFinish := by decide +kernel
  obtain ⟨c, hc, hst⟩ := Option.map_eq_some_iff.mp hrun
  exact ⟨c, hc, hst, reply_assertions_hold ⟨_, _, Config.initial_ofExport _, hc⟩ rfl⟩

/-! ## Extent callbacks -/

/-- **Block status.** Whatever descriptors the server sends, the assertions of the
cooking loop hold, and an extent callback is given a non-empty prefix of the
descriptors: at most the last one is shortened, all of them fit the callback and
together the export, and a zero length stands alone and comes with an error. -/
theorem extents_cooked {c c' : Config} {l : Label} (hc : machine.Reachable c)
    (h : machine.step c l = some c') :
    c'.ctl ≠ .aborted .bsCook ∧ ∃ es, c'.h.trace = c.h.trace ++ es ∧
      ∀ cookie name offset wide entries error,
        Event.extent cookie name offset wide entries error ∈ es →
        ∃ cmd ∈ c'.h.q.cmdsInFlight, ∃ raw, cmd.cookie = cookie ∧ cmd.offset = offset ∧
          cmd.wide = wide ∧ c'.h.rx.bsRaw = some raw ∧
          Shortened error (bsDescriptors c'.h.replyType raw c'.h.rx.bsCount) entries ∧
          entries ≠ [] ∧
          (∀ e ∈ entries, e.1 ≤ int64Max ∧ (wide = false → e.1 ≤ uint32Max ∧ e.2 ≤ uint32Max)) ∧
          lengthSum entries ≤ c'.h.exp.exportsize.toNat - offset.toNat ∧
          (∀ e ∈ entries, e.1 = 0 → entries = [e] ∧ error ≠ 0) := by
  have hgood : Good c := by
    rcases reachable_good hc with hcl | hg
    · cases l <;> simp [machine, step, hcl] at h
    · exact hg
  have hn := step_names hgood.sound h
  obtain ⟨es, htr, -⟩ := hn.named
  refine ⟨reply_assertions_hold (System.Reachable.step machine hc h) rfl, es, htr, ?_⟩
  intro cookie name offset wide entries error hmem
  obtain ⟨cmd, hcmd, raw, rfl, rfl, rfl, hraw, hok⟩ := hn.cooked es htr _ hmem
  have hsum := hok.sum
  rw [show (cookParams c'.h cmd).cap = bsCap c'.h cmd from rfl, bsCap_toNat] at hsum
  exact ⟨cmd, hcmd, raw, rfl, rfl, rfl, hraw, hok.shortened, hok.nonempty, hok.fits, hsum, hok.zero⟩

theorem extents_cooked_at_end :
    ∃ c c', machine.exec (.ofExport .allocated) askStatus = some c ∧
      machine.step c descriptors = some c' ∧
      c'.h.trace.drop c.h.trace.length =
        [.extent 1 [0x78, 0x3a, 0x79] 1048064 false [(256, 1), (256, 0)] eproto] ∧
      c'.ctl ≠ .aborted .bsCook ∧ lengthSum [(256, 1), (256, 0)] ≤ 512 := by
  have hrun : (machine.exec (.ofExport .allocated) askStatus).bind (fun c =>
      (machine.step c descriptors).map fun c' => (c'.h.trace.drop c.h.trace.length,
        c'.h.exp.exportsize)) =
      some ([.extent 1 [0x78, 0x3a, 0x79] 1048064 false [(256, 1), (256, 0)] eproto], 1048576) := by
    decide +kernel
  obtain ⟨c, hc, hm⟩ := Option.bind_eq_some_iff.mp hrun
  obtain ⟨c', hstep, hp⟩ := Option.map_eq_some_iff.mp hm
  simp only [Prod.mk.injEq] at hp
  obtain ⟨hctl, es, htr, hes⟩ := extents_cooked ⟨_, _, Config.initial_ofExport _, hc⟩ hstep
  have hev : es = [.extent 1 [0x78, 0x3a, 0x79] 1048064 false [(256, 1), (256, 0)] eproto] := by
    rw [← hp.1, htr, List.drop_left]
  obtain ⟨-, -, -, -, -, -, -, -, -, -, hsum, -⟩ := hes _ _ _ _ _ _ (by rw [hev]; exact .head _)
  rw [hp.2] at hsum
  exact ⟨c, c', hc, hstep, hp.1, hctl, hsum⟩

end Libnbd
