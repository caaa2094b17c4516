import Libnbd.Cooking
import Libnbd.Reachable

/-!
The names given to extent callbacks.

`RECV_BS_ENTRIES` is the only state that calls an extent callback, and it looks
the context up by the id in the header of the chunk. `step_names` says so of
every step of a connected handle, and that no step changes what was negotiated.
-/

namespace Libnbd

open Lib

/-- The context name that an extent callback is given. -/
def Event.extentName : Event → Option CString
  | extent _ name .. => some name
  | _ => none

/-- The entries of an extent callback are made from the chunk in `h`. -/
def Event.Cooked (h : Handle) : Event → Prop
  | extent cookie _ offset wide entries error => ∃ cmd ∈ h.q.cmdsInFlight, ∃ raw,
      cmd.cookie = cookie ∧ cmd.offset = offset ∧ cmd.wide = wide ∧ h.rx.bsRaw = some raw ∧
      CookedOk (cookParams h cmd) (bsDescriptors h.replyType raw h.rx.bsCount) entries error
  | _ => True

theorem Event.cooked_of_extentName {h : Handle} {e : Event} (he : e.extentName = none) :
    e.Cooked h := by
  cases e <;> trivial

/-- The negotiated export stays, and every new extent callback is given the name
of the context whose id is in the chunk's header, and entries made from the
chunk. -/
structure Names (h h' : Handle) : Prop where
  exp : h'.exp = h.exp
  named : ∃ es, h'.trace = h.trace ++ es ∧ ∀ e ∈ es, ∀ name, e.extentName = some name →
    h.exp.metaValid = true ∧ (name, h'.rx.payload.be32 0) ∈ h.exp.metaContexts
  cooked : ∀ es, h'.trace = h.trace ++ es → ∀ e ∈ es, e.Cooked h'

/-- Nothing but chunk callbacks. -/
theorem Names.chunks {h h' : Handle} (es : List Event) (hexp : h'.exp = h.exp)
    (htr : h'.trace = h.trace ++ es) (hes : ∀ e ∈ es, e.extentName = none) : Names h h' := by
  refine ⟨hexp, ⟨es, htr, fun e he name hn => ?_⟩, fun es' htr' e he => ?_⟩
  · rw [hes e he] at hn
    cases hn
  · obtain rfl : es = es' := List.append_cancel_left (htr.symm.trans htr')
    exact Event.cooked_of_extentName (hes e he)

theorem Names.silent {h h' : Handle} (hexp : h'.exp = h.exp) (htr : h'.trace = h.trace) :
    Names h h' :=
  .chunks [] hexp (by rw [htr, List.append_nil]) fun _ he => absurd he List.not_mem_nil

theorem Names.passive {h h' : Handle} (hexp : h'.exp = h.exp) (hp : Passive h.trace h'.trace) :
    Names h h' := by
  obtain ⟨es, htr, hes⟩ := hp
  refine .chunks es hexp htr fun e he => ?_
  have := hes e he
  cases e <;> simp_all [Event.extentName, Event.isPassive]

theorem Names.received {h h₁ h' : Handle} (hr : Received h h₁) (hn : Names h₁ h') : Names h h' := by
  cases hr with
  | nothing => exact hn
  | data bs hne hle => exact ⟨hn.exp, hn.named, hn.cooked⟩

theorem recvThen_names {inp : Input} {h : Handle} {k : Handle → Outcome}
    (hk : ∀ h', (k h').All (Names h')) : (recvThen inp k h).All (Names h) := by
  refine recvThen_all (fun e => .silent rfl rfl) (fun h' hr _ _ => .received hr (.silent rfl rfl))
    fun h' hr _ => (hk h').mono fun h'' hn => .received hr hn

theorem callChunk_names (inp : Input) (h : Handle) (cmd : Command) {e : Event}
    (he : e.extentName = none) : Names h (callChunk inp h cmd e) := by
  refine .chunks (callCallback inp cmd.fn e cmd.error).1 rfl rfl fun e' he' => ?_
  rw [callCallback_mem he']
  exact he

/-! ## The states that receive -/

theorem enterReplyStart_names (inp : Input) (h : Handle) :
    (enterReplyStart inp h).All (Names h) := by
  unfold enterReplyStart
  split
  · split
    · exact require_all fun _ => .silent rfl rfl
    · exact .silent rfl rfl
  · refine require_all fun _ => ?_
    split
    · exact .silent rfl rfl
    · exact .silent rfl rfl
    · simp only
      split <;> exact .silent rfl rfl

theorem enterReplyRecvReply_names (inp : Input) (h : Handle) :
    (enterReplyRecvReply inp h).All (Names h) := by
  unfold enterReplyRecvReply
  obtain ⟨e, he⟩ | ⟨h', hrec, -, he⟩ | ⟨h', hrec, -, he⟩ := recvIntoRbuf_cases inp h
  · rw [he]
    exact .silent rfl rfl
  · rw [he]
    simp only
    split <;> exact .received hrec (.silent rfl rfl)
  · rw [he]
    exact .received hrec (.silent rfl rfl)

theorem enterReplyCheckReplyMagic_names (h : Handle) :
    (enterReplyCheckReplyMagic h).All (Names h) := by
  unfold enterReplyCheckReplyMagic
  simp only
  split
  · split <;> exact .silent rfl rfl
  · split
    · split
      · exact .silent rfl rfl
      · exact require_all fun _ => .silent rfl rfl
    · split
      · split <;> exact .silent rfl rfl
      · exact .silent rfl rfl

theorem enterSimpleStart_names (h : Handle) : (enterSimpleStart h).All (Names h) := by
  unfold enterSimpleStart
  split
  · trivial
  · split <;> exact .silent rfl rfl
  · simp only
    split <;> exact .silent rfl rfl

theorem simpleReadPayloadDone_names (inp : Input) (h : Handle) :
    (simpleReadPayloadDone inp h).All (Names h) := by
  unfold simpleReadPayloadDone
  split
  · trivial
  · trivial
  · refine .chunks _ rfl rfl fun e he => ?_
    rw [callCallback_mem he]
    rfl

theorem chunkStartType_names (h : Handle) (cmd : Command) :
    (chunkStartType h cmd).All (Names h) := by
  unfold chunkStartType chunkStartBlockStatus
  simp only
  split
  · split <;> exact .silent rfl rfl
  · split
    · split <;> exact .silent rfl rfl
    · split
      · split <;> exact .silent rfl rfl
      · split
        · split
          · exact .silent rfl rfl
          · exact require_all fun _ => .silent rfl rfl
        · split
          · split <;> exact .silent rfl rfl
          · exact .silent rfl rfl

theorem enterChunkStart_names (h : Handle) : (enterChunkStart h).All (Names h) := by
  unfold enterChunkStart
  split
  · exact .silent rfl rfl
  · split
    · trivial
    · exact .silent rfl rfl
    · rename_i cmd _
      split
      · exact (chunkStartType_names _ cmd).mono fun _ hn => ⟨hn.exp, hn.named, hn.cooked⟩
      · exact .silent rfl rfl

theorem recvErrorDone_names (h : Handle) : (recvErrorDone h).All (Names h) := by
  unfold recvErrorDone
  simp only
  refine require_all fun _ => ?_
  split
  · trivial
  · trivial
  · split <;> exact .silent rfl rfl

theorem recvErrorTailDone_names (inp : Input) (h : Handle) :
    (recvErrorTailDone inp h).All (Names h) := by
  unfold recvErrorTailDone
  split
  · trivial
  · trivial
  · -- the callback of the command, or none
    rename_i cmd _
    simp only
    split
    · refine .chunks _ rfl rfl fun e he => ?_
      rw [callCallback_mem he]
      rfl
    · exact .chunks [] rfl rfl fun _ he => absurd he List.not_mem_nil

theorem recvOffsetDataDone_names (h : Handle) : (recvOffsetDataDone h).All (Names h) := by
  unfold recvOffsetDataDone
  split
  · trivial
  · trivial
  · refine require_all fun _ => ?_
    simp only
    split <;> exact .silent rfl rfl

theorem recvOffsetDataDataDone_names (inp : Input) (h : Handle) :
    (recvOffsetDataDataDone inp h).All (Names h) := by
  unfold recvOffsetDataDataDone
  split
  · trivial
  · trivial
  · rename_i cmd _
    have hn := callChunk_names inp h cmd (e := .chunk cmd.cookie
      (h.mem.read (cmd.buf + (h.chunkOffset - cmd.offset).toNat) h.rx.payloadLeft) h.chunkOffset
      .data cmd.error) rfl
    exact ⟨hn.exp, hn.named, hn.cooked⟩

theorem recvOffsetHoleDone_names (inp : Input) (h : Handle) :
    (recvOffsetHoleDone inp h).All (Names h) := by
  unfold recvOffsetHoleDone
  split
  · trivial
  · trivial
  · refine require_all fun _ => ?_
    simp only
    split
    · refine .chunks _ rfl rfl fun e he => ?_
      rw [callCallback_mem he]
      rfl
    · exact .silent rfl rfl

theorem recvBsHeaderDone_names (inp : Input) (h : Handle) :
    (recvBsHeaderDone inp h).All (Names h) := by
  unfold recvBsHeaderDone
  split
  · trivial
  · trivial
  · refine require_all fun _ => require_all fun _ => require_all fun _ => require_all fun _ => ?_
    split
    · exact .silent rfl rfl
    · exact ite_all (fun _ => .silent rfl rfl) fun _ => .silent rfl rfl

/-- The one state that calls an extent callback: the name comes with the id in
the chunk. -/
theorem recvBsEntriesDone_names (inp : Input) (h : Handle) :
    (recvBsEntriesDone inp h).All (Names h) := by
  unfold recvBsEntriesDone
  split
  · trivial
  · trivial
  · rename_i cmd hl
    refine require_all fun _ => require_all fun _ => ?_
    split
    · trivial
    · rename_i raw hraw
      refine require_all fun hcount => require_all fun hvalid => ?_
      split
      · exact .silent rfl rfl
      · rename_i name id hfind
        obtain ⟨entries, error, hcook, hok⟩ := cooked_ok h cmd raw (by simpa using hcount)
        rw [hcook]
        refine ⟨rfl, ⟨_, rfl, fun e he n hn => ?_⟩, fun es htr e he => ?_⟩
        · rw [callCallback_mem he] at hn
          cases hn
          have hid : id = h.rx.payload.be32 0 := by
            have := List.find?_some hfind
            simpa using this
          exact ⟨hvalid, hid ▸ List.mem_of_find?_eq_some hfind⟩
        · have hes := List.append_cancel_left htr
          rw [← hes] at he
          rw [callCallback_mem he]
          obtain ⟨-, hf⟩ := replyRef_live hl
          exact ⟨_, mem_setFirst hf, raw, rfl, rfl, rfl, hraw, hok⟩

theorem resyncDone_names (h : Handle) : (resyncDone h).All (Names h) := by
  unfold resyncDone
  split
  · trivial
  · exact .silent rfl rfl
  · exact .silent rfl rfl

theorem receiving_names {inp : Input} {h : Handle} (hs : h.state.isReceiving = true) :
    (enter inp h).All (Names h) := by
  unfold enter
  cases hst : h.state <;> simp only [hst, State.isReceiving, Bool.false_eq_true] at hs ⊢
  case replyStart => exact enterReplyStart_names inp h
  case replyRecvReply => exact enterReplyRecvReply_names inp h
  case replyCheckReplyMagic => exact enterReplyCheckReplyMagic_names h
  case replyRecvStructuredRemaining => exact recvThen_names fun h' => .silent rfl rfl
  case simpleStart => exact enterSimpleStart_names h
  case simpleRecvReadPayload => exact recvThen_names (simpleReadPayloadDone_names inp)
  case chunkStart => exact enterChunkStart_names h
  case chunkRecvError => exact recvThen_names recvErrorDone_names
  case chunkRecvErrorMessage => exact recvThen_names fun h' => .silent rfl rfl
  case chunkRecvErrorTail => exact recvThen_names (recvErrorTailDone_names inp)
  case chunkRecvOffsetData => exact recvThen_names recvOffsetDataDone_names
  case chunkRecvOffsetDataData => exact recvThen_names (recvOffsetDataDataDone_names inp)
  case chunkRecvOffsetHole => exact recvThen_names (recvOffsetHoleDone_names inp)
  case chunkRecvBsHeader => exact recvThen_names (recvBsHeaderDone_names inp)
  case chunkRecvBsEntries => exact recvThen_names (recvBsEntriesDone_names inp)
  case chunkResync => exact require_all fun _ => recvThen_names resyncDone_names
  case chunkFinish =>
    refine require_all fun _ => ?_
    split <;> exact .silent rfl rfl

/-! ## Steps -/

theorem passive_settled (cmd : Command) (err : UInt32) (retire : Bool) :
    ∀ e ∈ completionEvents cmd err ++ [Event.finish cmd.cookie] ++
      (if retire then retireAndFreeCommand cmd else []), e.isPassive = true := by
  unfold completionEvents retireAndFreeCommand
  split_ifs <;> simp [Event.isPassive]

theorem abortAll_names {inp : Input} {h h' : Handle} (hok : abortAll inp h = .ok h') :
    Names h h' := by
  unfold abortAll at hok
  split at hok
  · cases hok
  · rename_i h₁ hok₁
    split at hok
    · cases hok
    · rename_i h₂ hok₂
      cases hok
      have hd₁ := abortCommands_doneOnly hok₁
      have hd₂ := abortCommands_doneOnly hok₂
      have hp₁ := abortCommands_passive hok₁
      have hp₂ := abortCommands_passive hok₂
      refine .passive ?_ (Passive.trans hp₁ hp₂)
      show h₂.exp = h.exp
      rw [hd₂, hd₁]

theorem enter_names (inp : Input) {h : Handle} (hinv : h.book.Inv) (ht : Tails h) :
    (enter inp h).All (Names h) := by
  rcases h.state.kinds with hs | hs | hs | hs | hs | hs
  · exact receiving_names hs
  · refine (enter_sends inp hs).mono fun h' hq => .silent ?_ ?_ <;> rw [hq.eq]
  · simp only [enter, hs, enterIssueFinish]
    refine require_all fun _ => ?_
    split
    · trivial
    · refine require_all fun _ => .chunks _ rfl rfl fun e he => ?_
      rw [List.mem_singleton.mp he]
      rfl
  · simp only [enter, hs]
    cases hf : Handle.findCmd h.replyCookie h.q.cmdsInFlight with
    | none =>
      unfold enterReplyFinishCommand
      simp only [hf]
      exact require_all fun _ => .silent rfl rfl
    | some cmd =>
      have halive : h.alive := by
        constructor <;> (intro hd; rw [hs] at hd; cases hd)
      obtain ⟨h', hfin, heq⟩ := finishCommand_ok inp hinv ht halive hf
      rw [heq]
      refine require_all fun _ => require_all fun _ => ?_
      obtain ⟨pre, post, cmd', retire, -, -, hb⟩ := hfin.book
      refine .passive ?_ ⟨_, congrArg Book.trace hb, passive_settled cmd cmd.error retire⟩
      show h'.exp = h.exp
      rw [hfin.frame]
      rfl
  · obtain ⟨-, -, h', -, -, hok, -⟩ := abortAll_ok inp hinv ht
    simp only [enter, hs, enterDead, hok]
    exact require_all fun _ => abortAll_names hok
  · obtain ⟨-, -, h', -, -, hok, -⟩ := abortAll_ok inp hinv ht
    simp only [enter, hs, enterClosed, hok]
    exact abortAll_names hok

/-- **Step.** Every extent callback is given a name of the negotiated list, with
the id of the chunk. -/
theorem step_names {c c' : Config} {l : Label} (hs : Sound c) (h : step c l = some c') :
    Names c.h c'.h := by
  obtain ⟨inp, k, rfl, hctl, rfl⟩ | ⟨api, inp, r, rfl, hctl, rfl⟩ := step_cases h
  · refine stepEnter_all k (enter_names inp hs.inv hs.tails) (.silent rfl rfl) fun h' d hn => ?_
    exact ⟨hn.exp, hn.named, hn.cooked⟩
  · by_cases hclose : api = .close
    · subst hclose
      exact .passive rfl (close_passive inp _)
    · have hf := apiCall_frame inp { c.h with lastError := inp.lastError } api hclose
      exact .passive hf.exp hf.passive

end Libnbd
