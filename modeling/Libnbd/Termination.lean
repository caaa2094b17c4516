import Libnbd.Resting
import Libnbd.Lib.Ranking

/-!
The run loop returns (`generator/state_machine_generator.ml`).

`nbd_internal_run` goes round until a state does not use `SET_NEXT_STATE`. The states are
ranked in the order in which they lead to each other; `ISSUE_COMMAND.FINISH` goes back to
`READY` but takes a command off `cmds_to_issue`, and a reply that is only partly there goes
back to `READY` as well. The one step that starts anew is the one in which `READY` finds
something to read.
-/

namespace Libnbd

open Lib

/-! ## The measure -/

/-- The place of a state in the order of the states. -/
def State.rank : State → Nat
  | .start | .dead | .closed => 1
  | .issueFinish => 5
  | .issueSendWritePayload | .issueSendWriteShutdown => 6
  | .issuePrepareWritePayload => 7
  | .issueSendRequest => 8
  | .issueStart => 9
  | .ready => 10
  | .replyFinishCommand => 11
  | .chunkFinish => 12
  | .chunkResync | .chunkRecvErrorTail => 13
  | .chunkRecvErrorMessage | .chunkRecvOffsetDataData | .chunkRecvBsEntries => 14
  | .simpleRecvReadPayload | .chunkRecvError | .chunkRecvOffsetData | .chunkRecvOffsetHole
  | .chunkRecvBsHeader => 15
  | .simpleStart | .chunkStart => 16
  | .replyRecvStructuredRemaining => 17
  | .replyCheckReplyMagic => 18
  | .replyRecvReply => 19
  | .replyStart => 20
  | .issuePauseSendRequest | .issuePauseWritePayload | .issuePauseWriteShutdown => 21

theorem State.rank_pos (s : State) : 0 < s.rank := by cases s <;> decide

theorem State.rank_le (s : State) : s.rank ≤ 21 := by cases s <;> decide

/-- How often the run loop can still go round, if nothing more is there to read. -/
def Handle.work (h : Handle) : Nat := 6 * h.q.cmdsToIssue.length + h.state.rank

def Config.work (c : Config) : Nat :=
  match c.ctl with
  | .running _ => c.h.work
  | _ => 0

/-- 1 if `READY` finds something to read and starts to receive a reply. -/
def readsMore (c : Config) : Label → Nat
  | .enter inp => if c.h.state = .ready ∧ c.h.q.cmdsToIssue = [] ∧ inp.pending = true then 1 else 0
  | .call _ _ => 0

/-! ## One state -/

/-- Where the run loop goes on, less than `n` is left to do. -/
def Outcome.Lowers (n : Nat) : Outcome → Prop
  | .next h => h.work < n
  | .block _ | .fail _ | .abort _ => True

variable {inp : Input} {h : Handle} {n : Nat}

theorem require_lowers {p : Bool} {a : Abort} {k : Outcome} (hk : p = true → k.Lowers n) :
    (require p a k).Lowers n := by
  unfold require
  split
  · exact hk (by assumption)
  · trivial

theorem ite_lowers {p : Prop} [Decidable p] {a b : Outcome} (ha : p → a.Lowers n)
    (hb : ¬ p → b.Lowers n) : (if p then a else b).Lowers n := by
  split
  · exact ha (by assumption)
  · exact hb (by assumption)

/-- A state of lower rank, with the same commands to issue. -/
theorem goto_lowers {s t : State} {h h' : Handle} (hq : h'.q.cmdsToIssue = h.q.cmdsToIssue)
    (hs : s.rank < t.rank) : (goto s h').Lowers (6 * h.q.cmdsToIssue.length + t.rank) := by
  show 6 * h'.q.cmdsToIssue.length + s.rank < _
  rw [hq]
  omega

theorem saveReplyState_lowers {t : State} {h' : Handle} (hq : h'.q = h.q)
    (ht : State.ready.rank < t.rank) :
    (saveReplyState h').Lowers (6 * h.q.cmdsToIssue.length + t.rank) :=
  require_lowers fun _ => require_lowers fun _ => require_lowers fun _ =>
    goto_lowers (congrArg Queues.cmdsToIssue hq) ht

/-- A receiving state fails, waits for more in `READY`, or goes on. -/
theorem recvThen_lowers {t : State} {done : Handle → Outcome} (ht : State.ready.rank < t.rank)
    (hdone : ∀ h', h'.q = h.q → (done h').Lowers (6 * h.q.cmdsToIssue.length + t.rank)) :
    (recvThen inp done h).Lowers (6 * h.q.cmdsToIssue.length + t.rank) := by
  unfold recvThen
  obtain ⟨e, he⟩ | ⟨h', hr, -, he⟩ | ⟨h', hr, -, he⟩ := recvIntoRbuf_cases inp h
  · rw [he]
    exact goto_lowers rfl (Nat.lt_trans (show State.dead.rank < State.ready.rank by decide) ht)
  · rw [he]
    exact saveReplyState_lowers (received_same hr).2.2.2.2.1 ht
  · rw [he]
    exact hdone h' (received_same hr).2.2.2.2.1

theorem enterSend_lowers {s t : State} (hs : s.rank < t.rank) (ht : 1 < t.rank) :
    (enterSend inp s h).Lowers (6 * h.q.cmdsToIssue.length + t.rank) := by
  unfold enterSend
  obtain he | ⟨e, he⟩ | ⟨tx, n, he⟩ | ⟨tx, n, he⟩ := sendFromWbuf_cases inp h
  · rw [he]
    trivial
  · rw [he]
    exact goto_lowers rfl ht
  · rw [he]
    trivial
  · rw [he]
    exact goto_lowers rfl hs

/-! ## Issuing commands -/

theorem enterReady_lowers (hs : h.state = .ready) :
    (enterReady inp h).Lowers (h.work + 11 * readsMore ⟨h, .running .notify⟩ (.enter inp)) := by
  have hw : h.work = 6 * h.q.cmdsToIssue.length + State.ready.rank := by rw [Handle.work, hs]
  rw [hw]
  unfold enterReady
  refine ite_lowers (fun _ => ?_) fun hq => require_lowers fun _ => ite_lowers (fun hp => ?_)
    fun _ => trivial
  · show 6 * h.q.cmdsToIssue.length + State.issueStart.rank < _
    simp only [State.rank]
    omega
  · have hmore : readsMore ⟨h, .running .notify⟩ (.enter inp) = 1 :=
      if_pos ⟨hs, not_not.mp hq, hp⟩
    show 6 * h.q.cmdsToIssue.length + State.replyStart.rank < _
    rw [hmore]
    simp only [State.rank]
    omega

theorem enterIssueStart_lowers :
    (enterIssueStart h).Lowers (6 * h.q.cmdsToIssue.length + State.issueStart.rank) := by
  have hreq : ∀ cmd rest, (issueRequest h cmd rest).Lowers
      (6 * h.q.cmdsToIssue.length + State.issueStart.rank) := fun cmd rest =>
    require_lowers fun _ => goto_lowers rfl (by decide)
  unfold enterIssueStart
  split
  · trivial
  · refine ite_lowers (fun _ => hreq _ _) fun _ => ite_lowers (fun _ => ?_) fun _ => hreq _ _
    exact ite_lowers (fun _ => trivial) fun _ => trivial

theorem enterPause_lowers {b : Bool} :
    (enterPause b h).Lowers (6 * h.q.cmdsToIssue.length + State.issuePauseSendRequest.rank) :=
  require_lowers fun _ => require_lowers fun _ => goto_lowers rfl (by decide)

theorem enterIssuePrepareWritePayload_lowers : (enterIssuePrepareWritePayload h).Lowers
    (6 * h.q.cmdsToIssue.length + State.issuePrepareWritePayload.rank) := by
  unfold enterIssuePrepareWritePayload
  split
  · trivial
  · exact require_lowers fun _ => ite_lowers (fun _ => goto_lowers rfl (by decide)) fun _ =>
      ite_lowers (fun _ => goto_lowers rfl (by decide)) fun _ => goto_lowers rfl (by decide)

/-- The way back to `READY` takes a command with it. -/
theorem enterIssueFinish_lowers :
    (enterIssueFinish h).Lowers (6 * h.q.cmdsToIssue.length + State.issueFinish.rank) := by
  refine require_lowers fun _ => ?_
  split
  · trivial
  · rename_i cmd rest hq
    refine require_lowers fun _ => ?_
    show 6 * rest.length + State.ready.rank < _
    rw [hq]
    simp only [List.length_cons, State.rank]
    omega

/-! ## Receiving replies -/

/-- A reply is resumed in a state that receives its payload. -/
theorem enterReplyStart_lowers (hr : RxInv h) :
    (enterReplyStart inp h).Lowers (6 * h.q.cmdsToIssue.length + State.replyStart.rank) := by
  have hpay : ∀ s : State, s.isPayload = true → s.rank < State.replyStart.rank := by
    intro s hs
    cases s <;> first | decide | cases hs
  unfold enterReplyStart
  refine ite_lowers (fun _ => ite_lowers (fun hne => ?_) fun _ => goto_lowers rfl (by decide))
    fun _ => require_lowers fun _ => ?_
  · exact require_lowers fun _ => goto_lowers rfl (hpay _ (hr.saved hne).1)
  · split
    · trivial
    · exact goto_lowers rfl (by decide)
    · exact ite_lowers (fun _ => goto_lowers rfl (by decide)) fun _ => goto_lowers rfl (by decide)

theorem enterReplyRecvReply_lowers :
    (enterReplyRecvReply inp h).Lowers (6 * h.q.cmdsToIssue.length + State.replyRecvReply.rank) := by
  unfold enterReplyRecvReply
  obtain ⟨e, he⟩ | ⟨h', hr, -, he⟩ | ⟨h', hr, -, he⟩ := recvIntoRbuf_cases inp h
  · rw [he]
    exact goto_lowers rfl (by decide)
  · have hq := congrArg Queues.cmdsToIssue (received_same hr).2.2.2.2.1
    rw [he]
    exact ite_lowers (fun _ => goto_lowers hq (by decide)) fun _ => goto_lowers hq (by decide)
  · have hq := congrArg Queues.cmdsToIssue (received_same hr).2.2.2.2.1
    rw [he]
    exact goto_lowers hq (by decide)

theorem enterReplyCheckReplyMagic_lowers : (enterReplyCheckReplyMagic h).Lowers
    (6 * h.q.cmdsToIssue.length + State.replyCheckReplyMagic.rank) :=
  ite_lowers (fun _ => ite_lowers (fun _ => goto_lowers rfl (by decide)) fun _ =>
    goto_lowers rfl (by decide)) fun _ =>
  ite_lowers (fun _ => ite_lowers (fun _ => goto_lowers rfl (by decide)) fun _ =>
    require_lowers fun _ => goto_lowers rfl (by decide)) fun _ =>
  ite_lowers (fun _ => ite_lowers (fun _ => goto_lowers rfl (by decide)) fun _ =>
    goto_lowers rfl (by decide)) fun _ => goto_lowers rfl (by decide)

theorem settle_cmdsToIssue {cmd : Command} {retire : Bool} {h' : Handle}
    (hok : h.settle cmd retire = .ok h') : h'.q.cmdsToIssue = h.q.cmdsToIssue := by
  unfold Handle.settle at hok
  split at hok
  · cases hok
    rfl
  · unfold Handle.pushDone at hok
    split at hok
    · split at hok
      · cases hok
        rfl
      · cases hok
    · split at hok
      · cases hok
      · cases hok
        rfl

theorem enterReplyFinishCommand_lowers : (enterReplyFinishCommand inp h).Lowers
    (6 * h.q.cmdsToIssue.length + State.replyFinishCommand.rank) := by
  refine require_lowers fun _ => ?_
  split
  · exact goto_lowers rfl (by decide)
  · refine ite_lowers (fun _ => trivial) fun _ => ?_
    simp only
    split
    · trivial
    · rename_i hok
      have hq := settle_cmdsToIssue hok
      exact require_lowers fun _ => goto_lowers hq (by decide)

theorem enterSimpleStart_lowers :
    (enterSimpleStart h).Lowers (6 * h.q.cmdsToIssue.length + State.simpleStart.rank) := by
  unfold enterSimpleStart
  split
  · trivial
  · exact ite_lowers (fun _ => goto_lowers rfl (by decide)) fun _ => goto_lowers rfl (by decide)
  · exact ite_lowers (fun _ => goto_lowers rfl (by decide)) fun _ => goto_lowers rfl (by decide)

theorem simpleReadPayloadDone_lowers {h' : Handle} (hq : h'.q = h.q) :
    (simpleReadPayloadDone inp h').Lowers
      (6 * h.q.cmdsToIssue.length + State.simpleRecvReadPayload.rank) := by
  have hq' := congrArg Queues.cmdsToIssue hq
  unfold simpleReadPayloadDone
  split
  · trivial
  · trivial
  · exact goto_lowers hq' (by decide)

theorem resync_lowers {t : State} {h' : Handle} (hq : h'.q.cmdsToIssue = h.q.cmdsToIssue)
    (ht : State.chunkResync.rank < t.rank) :
    (resync h').Lowers (6 * h.q.cmdsToIssue.length + t.rank) := goto_lowers hq ht

theorem chunkStartType_lowers {h' : Handle} (cmd : Command) (hq : h'.q = h.q) :
    (chunkStartType h' cmd).Lowers (6 * h.q.cmdsToIssue.length + State.chunkStart.rank) := by
  have hq' := congrArg Queues.cmdsToIssue hq
  have hres : (resync h').Lowers (6 * h.q.cmdsToIssue.length + State.chunkStart.rank) :=
    resync_lowers hq' (by decide)
  have hgoto : ∀ {s : State} {h'' : Handle}, h''.q.cmdsToIssue = h'.q.cmdsToIssue →
      s.rank < State.chunkStart.rank →
      (goto s h'').Lowers (6 * h.q.cmdsToIssue.length + State.chunkStart.rank) :=
    fun h₁ h₂ => goto_lowers (h₁.trans hq') h₂
  unfold chunkStartType chunkStartBlockStatus
  refine ite_lowers (fun _ => ite_lowers (fun _ => hres) fun _ => hgoto rfl (by decide)) fun _ => ?_
  refine ite_lowers (fun _ => ite_lowers (fun _ => hres) fun _ => hgoto rfl (by decide)) fun _ => ?_
  refine ite_lowers (fun _ => ite_lowers (fun _ => hres) fun _ => hgoto rfl (by decide)) fun _ => ?_
  refine ite_lowers (fun _ => ite_lowers (fun _ => hres) fun _ => ?_) fun _ => ?_
  · exact require_lowers fun _ => hgoto rfl (by decide)
  · exact ite_lowers (fun _ => ite_lowers (fun _ => hres) fun _ => hgoto rfl (by decide))
      fun _ => hres

theorem enterChunkStart_lowers :
    (enterChunkStart h).Lowers (6 * h.q.cmdsToIssue.length + State.chunkStart.rank) := by
  have hres : (resync h).Lowers (6 * h.q.cmdsToIssue.length + State.chunkStart.rank) :=
    resync_lowers rfl (by decide)
  unfold enterChunkStart
  refine ite_lowers (fun _ => goto_lowers rfl (by decide)) fun _ => ?_
  split
  · trivial
  · exact hres
  · exact ite_lowers (fun _ => chunkStartType_lowers _ rfl) fun _ => hres

section Done

variable {h' : Handle} (hq : h'.q = h.q)

include hq

theorem recvErrorDone_lowers : (recvErrorDone h').Lowers
    (6 * h.q.cmdsToIssue.length + State.chunkRecvError.rank) := by
  have hq' := congrArg Queues.cmdsToIssue hq
  refine require_lowers fun _ => ?_
  split
  · trivial
  · trivial
  · exact ite_lowers (fun _ => resync_lowers hq' (by decide)) fun _ => goto_lowers hq' (by decide)

theorem recvErrorTailDone_lowers : (recvErrorTailDone inp h').Lowers
    (6 * h.q.cmdsToIssue.length + State.chunkRecvErrorTail.rank) := by
  have hq' := congrArg Queues.cmdsToIssue hq
  unfold recvErrorTailDone
  split
  · trivial
  · trivial
  · exact goto_lowers hq' (by decide)

theorem recvOffsetDataDone_lowers : (recvOffsetDataDone h').Lowers
    (6 * h.q.cmdsToIssue.length + State.chunkRecvOffsetData.rank) := by
  have hq' := congrArg Queues.cmdsToIssue hq
  unfold recvOffsetDataDone
  split
  · trivial
  · trivial
  · exact require_lowers fun _ => ite_lowers (fun _ => goto_lowers hq' (by decide)) fun _ =>
      goto_lowers hq' (by decide)

theorem recvOffsetDataDataDone_lowers : (recvOffsetDataDataDone inp h').Lowers
    (6 * h.q.cmdsToIssue.length + State.chunkRecvOffsetDataData.rank) := by
  have hq' := congrArg Queues.cmdsToIssue hq
  unfold recvOffsetDataDataDone
  split
  · trivial
  · trivial
  · exact goto_lowers hq' (by decide)

theorem recvOffsetHoleDone_lowers : (recvOffsetHoleDone inp h').Lowers
    (6 * h.q.cmdsToIssue.length + State.chunkRecvOffsetHole.rank) := by
  have hq' := congrArg Queues.cmdsToIssue hq
  unfold recvOffsetHoleDone
  split
  · trivial
  · trivial
  · exact require_lowers fun _ => ite_lowers (fun _ => goto_lowers hq' (by decide)) fun _ =>
      goto_lowers hq' (by decide)

theorem recvBsHeaderDone_lowers : (recvBsHeaderDone inp h').Lowers
    (6 * h.q.cmdsToIssue.length + State.chunkRecvBsHeader.rank) := by
  have hq' := congrArg Queues.cmdsToIssue hq
  unfold recvBsHeaderDone
  split
  · trivial
  · trivial
  · refine require_lowers fun _ => require_lowers fun _ => require_lowers fun _ =>
      require_lowers fun _ => ite_lowers (fun _ => resync_lowers hq' (by decide)) fun _ => ?_
    exact ite_lowers (fun _ => goto_lowers hq' (by decide)) fun _ => goto_lowers hq' (by decide)

theorem recvBsEntriesDone_lowers : (recvBsEntriesDone inp h').Lowers
    (6 * h.q.cmdsToIssue.length + State.chunkRecvBsEntries.rank) := by
  have hq' := congrArg Queues.cmdsToIssue hq
  unfold recvBsEntriesDone
  split
  · trivial
  · trivial
  · refine require_lowers fun _ => require_lowers fun _ => ?_
    split
    · trivial
    · refine require_lowers fun _ => require_lowers fun _ => ?_
      split
      · exact goto_lowers hq' (by decide)
      · split
        · trivial
        · exact goto_lowers hq' (by decide)

theorem resyncDone_lowers : (resyncDone h').Lowers
    (6 * h.q.cmdsToIssue.length + State.chunkResync.rank) := by
  have hq' := congrArg Queues.cmdsToIssue hq
  unfold resyncDone
  split
  · trivial
  · exact goto_lowers hq' (by decide)
  · exact goto_lowers hq' (by decide)

end Done

/-- **Step**: one state lowers what is left to do, unless `READY` finds more to read. -/
theorem enter_lowers (inp : Input) (hr : RxInv h) : (enter inp h).Lowers
    (h.work + 11 * readsMore ⟨h, .running .notify⟩ (.enter inp)) := by
  by_cases hready : h.state = .ready
  · rw [enter, hready]
    exact enterReady_lowers hready
  have hmore : readsMore ⟨h, .running .notify⟩ (.enter inp) = 0 := if_neg fun he => hready he.1
  rw [hmore, Nat.mul_zero, Nat.add_zero, Handle.work]
  unfold enter
  cases hs : h.state with
  | start => trivial
  | ready => exact absurd hs hready
  | dead =>
    refine require_lowers fun _ => ?_
    split <;> trivial
  | closed =>
    simp only [enterClosed]
    split <;> trivial
  | issueStart => exact enterIssueStart_lowers
  | issueSendRequest => exact enterSend_lowers (by decide) (by decide)
  | issuePauseSendRequest => exact enterPause_lowers
  | issuePrepareWritePayload => exact enterIssuePrepareWritePayload_lowers
  | issueSendWritePayload => exact enterSend_lowers (by decide) (by decide)
  | issuePauseWritePayload => exact enterPause_lowers
  | issueSendWriteShutdown => exact ite_lowers (fun _ => goto_lowers rfl (by decide)) fun _ => trivial
  | issuePauseWriteShutdown => exact require_lowers fun _ => goto_lowers rfl (by decide)
  | issueFinish => exact enterIssueFinish_lowers
  | replyStart => exact enterReplyStart_lowers hr
  | replyRecvReply => exact enterReplyRecvReply_lowers
  | replyCheckReplyMagic => exact enterReplyCheckReplyMagic_lowers
  | replyRecvStructuredRemaining =>
    exact recvThen_lowers (by decide) fun _ hq =>
      goto_lowers (congrArg Queues.cmdsToIssue hq) (by decide)
  | replyFinishCommand => exact enterReplyFinishCommand_lowers
  | simpleStart => exact enterSimpleStart_lowers
  | simpleRecvReadPayload =>
    exact recvThen_lowers (by decide) fun _ hq => simpleReadPayloadDone_lowers hq
  | chunkStart => exact enterChunkStart_lowers
  | chunkRecvError => exact recvThen_lowers (by decide) fun _ hq => recvErrorDone_lowers hq
  | chunkRecvErrorMessage =>
    exact recvThen_lowers (by decide) fun _ hq =>
      goto_lowers (congrArg Queues.cmdsToIssue hq) (by decide)
  | chunkRecvErrorTail =>
    exact recvThen_lowers (by decide) fun _ hq => recvErrorTailDone_lowers hq
  | chunkRecvOffsetData =>
    exact recvThen_lowers (by decide) fun _ hq => recvOffsetDataDone_lowers hq
  | chunkRecvOffsetDataData =>
    exact recvThen_lowers (by decide) fun _ hq => recvOffsetDataDataDone_lowers hq
  | chunkRecvOffsetHole =>
    exact recvThen_lowers (by decide) fun _ hq => recvOffsetHoleDone_lowers hq
  | chunkRecvBsHeader => exact recvThen_lowers (by decide) fun _ hq => recvBsHeaderDone_lowers hq
  | chunkRecvBsEntries => exact recvThen_lowers (by decide) fun _ hq => recvBsEntriesDone_lowers hq
  | chunkResync =>
    exact require_lowers fun _ => recvThen_lowers (by decide) fun _ hq => resyncDone_lowers hq
  | chunkFinish =>
    exact require_lowers fun _ => ite_lowers (fun _ => goto_lowers rfl (by decide)) fun _ =>
      goto_lowers rfl (by decide)

/-! ## The run loop -/

/-- The labels of the run loop. -/
def Label.isEnter : Label → Bool
  | .enter _ => true
  | .call _ _ => false

theorem Config.work_le_of_lowers {o : Outcome} {k : After} {inp : Input} {h : Handle} {n : Nat}
    (he : enter inp h = o) (hl : o.Lowers n) (hn : 0 < n) : (stepEnter inp k h).work < n := by
  rw [stepEnter, he]
  cases o with
  | next h' => exact hl
  | block h' => cases k <;> exact hn
  | fail h' => cases k <;> exact hn
  | abort a => exact hn

/-- **Step** of the run loop. -/
theorem step_work {c c' : Config} {l : Label} (hg : Good c) (hl : l.isEnter = true)
    (h : step c l = some c') : c'.work < c.work + 11 * readsMore c l := by
  rcases step_cases h with ⟨inp, k, rfl, hctl, rfl⟩ | ⟨api, inp, r, rfl, hctl, rfl⟩
  · have hpos := c.h.state.rank_pos
    have hw : c.work = c.h.work := by rw [Config.work, hctl]
    rw [hw]
    exact Config.work_le_of_lowers rfl (enter_lowers inp hg.rx) (by unfold Handle.work; omega)
  · cases hl

/-- A handle that can still be used, or whose run loop has ended. -/
def Config.Sane (c : Config) : Prop := c.ctl = .closed ∨ Good c

theorem machine_ranks : machine.Ranks Config.Sane (fun l => l.isEnter = true)
    (fun c l => 11 * readsMore c l) Config.work where
  keeps := by
    rintro c l c' (hc | hg) - hstep
    · cases l <;> simp [machine, step, hc] at hstep
    · exact step_good hg hstep
  lowers := by
    rintro c l c' (hc | hg) hl hstep
    · cases l <;> simp [machine, step, hc] at hstep
    · exact step_work hg hl hstep

theorem Config.work_le (c : Config) : c.work ≤ 6 * c.h.q.cmdsToIssue.length + 21 := by
  have hrank := c.h.state.rank_le
  unfold Config.work
  split
  · unfold Handle.work
    omega
  · exact Nat.zero_le _

theorem not_enabled {c : Config} {inp : Input} (h : machine.step c (.enter inp) = none) :
    c.ctl = .closed ∨ (∃ a, c.ctl = .aborted a) ∨ ∃ r, c.ctl = .idle r := by
  cases hctl : c.ctl with
  | closed => exact .inl rfl
  | aborted a => exact .inr (.inl ⟨a, rfl⟩)
  | idle r => exact .inr (.inr ⟨r, rfl⟩)
  | running k => simp only [machine, step, hctl, reduceCtorEq] at h

/-- The run loop, in whatever environment. -/
def loop (ins : Nat → Input) (n : Nat) : List Label := System.firstOf (fun i => .enter (ins i)) n

/-- **Every call returns**: if `READY` finds something to read at most `p` times, the run loop
that an API call has entered ends within `6 * q + 21 + 11 * p` rounds, where `q` commands are
waiting to be issued, and leaves the handle in a state that waits for the socket or that has
nothing left to do. -/
theorem call_returns {c c₁ : Config} {api : Api} {inp : Input} {ins : Nat → Input} {p : Nat}
    (hc : machine.Reachable c) (hcall : machine.step c (.call api inp) = some c₁)
    (hp : ∀ n, machine.total readsMore c₁ (loop ins n) ≤ p) :
    ∃ n ≤ 6 * c₁.h.q.cmdsToIssue.length + 21 + 11 * p, ∃ c',
      machine.exec c₁ (loop ins n) = some c' ∧
      (c'.ctl = .closed ∨ (∃ a, c'.ctl = .aborted a) ∨ ∃ r, c'.ctl = .idle r ∧ Rested c'.h) := by
  have hc₁ : machine.Reachable c₁ := hc.step _ hcall
  obtain ⟨n, hn, c', hexec, hstop⟩ := machine_ranks.stops (reachable_good hc₁)
    (fun i => .enter (ins i)) (fun _ => rfl)
    (N := 6 * c₁.h.q.cmdsToIssue.length + 21 + 11 * p) fun n => by
      have hw := c₁.work_le
      have hpn := hp n
      unfold loop at hpn
      rw [machine.total_mul]
      omega
  refine ⟨n, hn, c', hexec, ?_⟩
  obtain hcl | hab | ⟨r, hr⟩ := not_enabled hstop
  · exact .inl hcl
  · exact .inr (.inl hab)
  · exact .inr (.inr ⟨r, hr, reachable_rested (hc₁.exec _ hexec) hr⟩)

/-- The loop that a disconnect on a new connection enters, when no reply ever comes. -/
theorem call_returns_disconnect :
    let c₁ := stepCall .calm (.aioDisconnect 0) Config.calm.h
    ∃ n ≤ 27, ∃ c', machine.exec c₁ (loop (fun _ => .calm) n) = some c' ∧
      (c'.ctl = .closed ∨ (∃ a, c'.ctl = .aborted a) ∨ ∃ r, c'.ctl = .idle r ∧ Rested c'.h) := by
  have hnever : ∀ n, machine.total readsMore (stepCall .calm (.aioDisconnect 0) Config.calm.h)
      (loop (fun _ => .calm) n) ≤ 0 := by
    intro n
    refine Nat.le_of_eq (machine.total_eq_zero (fun l hl c => ?_) _)
    obtain ⟨i, rfl⟩ := System.mem_firstOf hl
    exact if_neg fun h => Bool.false_ne_true h.2.2
  have hcall : machine.step .calm (.call (.aioDisconnect 0) .calm) =
      some (stepCall .calm (.aioDisconnect 0) Config.calm.h) := rfl
  exact call_returns ⟨_, [], Config.initial_calm, rfl⟩ hcall hnever

end Libnbd
