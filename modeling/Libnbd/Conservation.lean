import Libnbd.Refine
import Mathlib.Data.List.Nodup

/-!
Conservation of commands: the API calls refine the book as well, so every
reachable handle has a sound book, and its counter is right as long as
`nbd_shutdown` abandons nothing.
-/

namespace Libnbd

open Lib Relation

/-! ## Submitting commands -/

theorem rejectEvents_mem {fn completion : Closure} :
    ∀ e ∈ rejectEvents fn completion, e = .rejectFn ∨ e = .rejectCompletion := by
  intro e he
  unfold rejectEvents at he
  rcases List.mem_append.mp he with he | he
  · split at he <;> simp_all
  · split at he <;> simp_all

/-- What a call does to the queues: it moves the book, keeps tail pointers and
state, and makes the counter exceed the lists by `n` more. -/
structure Did (n : Nat) (h h' : Handle) : Prop where
  steps : BookSteps h.book h'.book
  tails : Tails h'
  state : h'.state = h.state
  slack : h'.slack = h.slack + n

theorem Did.trans {m n : Nat} {h h₁ h₂ : Handle} (h₁₂ : Did m h h₁) (h₂₃ : Did n h₁ h₂) :
    Did (m + n) h h₂ where
  steps := h₁₂.steps.trans h₂₃.steps
  tails := h₂₃.tails
  state := h₂₃.state.trans h₁₂.state
  slack := by
    rw [h₂₃.slack, h₁₂.slack]
    omega

/-- Nothing is queued on a handle that the caller finds `READY`. -/
def Idle (h : Handle) : Prop := h.state = .ready → h.q.cmdsToIssue = []

/-- A call that submits a command. If it does not go on to run the machine, the
handle it leaves is idle. -/
def Submit.Ok (n : Nat) (h : Handle) : Submit → Prop
  | .refused h' | .rejected h' => Did n h h' ∧ Idle h'
  | .accepted h' run => Did n h h' ∧ (run = false → Idle h')
  | .abort _ => True

/-- Calls that only reject closures, or touch nothing of the queues. -/
theorem rejected_did {h h' : Handle} (es : List Event) (ht : Tails h) (hq : h'.q = h.q)
    (hs : h'.state = h.state) (htr : h'.trace = h.trace ++ es)
    (hes : ∀ e ∈ es, e = .rejectFn ∨ e = .rejectCompletion) : Did 0 h h' where
  steps := by
    refine .single ?_
    have : h'.book = { h.book with trace := h.book.trace ++ es } := by
      simp only [Handle.book, hq, htr]
    rw [this]
    exact .reject hes
  tails := by
    constructor
    · intro ha
      rw [hq]
      exact ht.toIssue (by rwa [Handle.alive, hs] at ha)
    · rw [hq]
      exact ht.done
  state := hs
  slack := by
    simp only [Handle.slack, hq]
    omega

theorem same_did {h h' : Handle} (ht : Tails h) (hq : h'.q = h.q) (hs : h'.state = h.state)
    (htr : h'.trace = h.trace) : Did 0 h h' :=
  rejected_did [] ht hq hs (by simp [htr]) (by simp)

theorem enqueue_ok {h : Handle} {cmd : Command} (hinv : h.book.Inv) (ht : Tails h) (ha : h.alive)
    (hk : cmd.cookie = h.q.unique) (hc : cmd.ClosuresOk) : (enqueue h cmd).Ok 0 h := by
  have htail := ht.toIssue ha
  -- both branches of the code end in the same queue
  have hdid : ∀ h' : Handle, h'.q = { h.q with
      cmdsToIssue := h.q.cmdsToIssue ++ [cmd], cmdsToIssueTail := some cmd.cookie,
      unique := h.q.unique + 1, inFlight := h.q.inFlight + 1 } → h'.state = h.state →
      h'.trace = h.trace ++ [Event.accept cmd] → Did 0 h h' := by
    intro h' hq hst htr
    refine ⟨?_, ⟨fun _ => ?_, ?_⟩, hst, ?_⟩
    · have hstep := BookStep.accept (b := h.book) hk hc
      simp only [Handle.book, hq, htr]
      exact .single hstep
    · rw [hq]
      exact tailOk_append _ _ cmd
    · rw [hq]
      exact ht.done
    · simp only [Handle.slack, hq, List.length_append, List.length_singleton]
      omega
  unfold enqueue
  simp only [Handle.log]
  split
  · rename_i hnil
    by_cases htn : h.q.cmdsToIssueTail = none
    · simp only [htn, if_true]
      refine ⟨hdid _ (by simp [hnil]) rfl rfl, ?_⟩
      intro hrun hr
      simp only at hr
      simp [hr] at hrun
    · simp only [htn, if_false]
      trivial
  · rename_i c cs hcons
    by_cases hproc : h.state.isProcessing = true
    · simp only [hproc, if_true]
      cases htl : h.q.cmdsToIssueTail with
      | none => trivial
      | some t =>
        rw [htl] at htail
        have hlink : linkAfter Command.cookie t cmd h.q.cmdsToIssue =
            some (h.q.cmdsToIssue ++ [cmd]) :=
          linkAfter_of_tailOk Command.cookie cmd hinv.nodup_lists.1 htail
        simp only [hlink]
        refine ⟨hdid _ rfl rfl rfl, ?_⟩
        intro _ hr
        simp only at hr
        rw [hr] at hproc
        exact absurd hproc (by decide)
    · simp only [hproc]
      trivial

/-- The closures of a request are where its type has them. -/
def Request.ClosuresOk (r : Request) : Prop :=
  (r.type ≠ .read → r.type ≠ .blockStatus → r.fn = .null) ∧ (r.type = .disc → r.completion = .null)

theorem commandCommon_ok (inp : Input) {h : Handle} {r : Request} (hinv : h.book.Inv)
    (ht : Tails h) (ha : h.alive) (hr : r.ClosuresOk) (hi : Idle h) :
    (commandCommon inp h r).Ok 0 h := by
  unfold commandCommon
  split
  · exact ⟨rejected_did _ ht rfl rfl rfl rejectEvents_mem, hi⟩
  · exact enqueue_ok hinv ht ha rfl hr

theorem callRequest_closures (h : Handle) (call : Call) : (callRequest h call).ClosuresOk := by
  cases call <;> exact ⟨by simp [callRequest], by simp [callRequest]⟩

theorem discRequest_closures (flags : UInt32) : (discRequest flags).ClosuresOk :=
  ⟨fun _ _ => rfl, fun _ => rfl⟩

theorem isConnected_alive {h : Handle} (hc : h.state.isConnected = true) : h.alive := by
  constructor <;> (intro hs; rw [hs] at hc; exact absurd hc (by decide))

theorem Submit.Ok.after {m n : Nat} {h₀ h : Handle} {s : Submit} (hd : Did m h₀ h)
    (hs : s.Ok n h) : s.Ok (m + n) h₀ := by
  cases s with
  | refused h' => exact ⟨hd.trans hs.1, hs.2⟩
  | rejected h' => exact ⟨hd.trans hs.1, hs.2⟩
  | accepted h' run => exact ⟨hd.trans hs.1, hs.2⟩
  | abort a => trivial

theorem sanitize_eq (h : Handle) (call : Call) :
    ∃ m, sanitize h call = { h with mem := m } := by
  unfold sanitize
  split
  · split <;> exact ⟨_, rfl⟩
  · split <;> exact ⟨_, rfl⟩
  · exact ⟨_, rfl⟩

theorem submit_ok (inp : Input) {h : Handle} (call : Call) (hinv : h.book.Inv) (ht : Tails h)
    (hi : Idle h) : (submit inp h call).Ok 0 h := by
  obtain ⟨m, hm⟩ := sanitize_eq h call
  unfold submit
  simp only [hm]
  split
  · exact ⟨rejected_did _ ht rfl rfl rfl rejectEvents_mem, hi⟩
  · rename_i hnone
    have hconn : h.state.isConnected = true := by
      cases hc : h.state.isConnected with
      | true => rfl
      | false => simp [callError, hc] at hnone
    have hd : Did 0 h { h with mem := m } := same_did ht rfl rfl rfl
    exact .after (m := 0) hd (commandCommon_ok inp hinv hd.tails (isConnected_alive hconn)
      (callRequest_closures _ call) hi)

theorem aioDisconnect_ok (inp : Input) {h : Handle} (flags : UInt32) (hinv : h.book.Inv)
    (ht : Tails h) (hi : Idle h) : (aioDisconnect inp h flags).Ok 0 h := by
  unfold aioDisconnect
  split
  · exact ⟨same_did ht rfl rfl rfl, hi⟩
  · rename_i hconn
    split
    · exact ⟨same_did ht rfl rfl rfl, hi⟩
    · exact commandCommon_ok inp hinv ht (isConnected_alive (by simpa using hconn))
        (discRequest_closures flags) hi

/-! ## Shutting down -/

theorem abandonPending_did (inp : Input) {h h' : Handle} (hinv : h.book.Inv) (ht : Tails h)
    (hi : Idle h) (hok : abandonPending inp h = .ok h') :
    Did (abandoned h).length h h' ∧ Idle h' := by
  unfold abandonPending at hok
  split at hok
  · rename_i hr
    have hnil := hi hr
    rw [hnil] at hok
    cases hok
    have habs : abandoned h = [] := by simp [abandoned, hr, hnil]
    rw [habs]
    exact ⟨same_did ht (by rw [← hnil]) rfl rfl, fun _ => rfl⟩
  · rename_i hr
    split at hok
    · cases hok
    · rename_i cmd rest hq
      obtain ⟨h₁, hok₁, hdo, hsteps, htail⟩ := abortQueued_ok inp rest
        (h := { h with q := { h.q with cmdsToIssue := [cmd], cmdsToIssueTail := some cmd.cookie } })
        (by simpa [Handle.book, hq] using hinv) ht.done
      rw [hok₁] at hok
      cases hok
      have habs : abandoned h = rest := by simp [abandoned, hr, hq]
      have hst : h'.state = h.state := by rw [hdo]
      rw [habs]
      refine ⟨⟨?_, ⟨fun _ => ?_, htail⟩, hst, ?_⟩, fun hr' => absurd (hst ▸ hr') hr⟩
      · have hb : ({ h.book with toIssue := [cmd] ++ rest } : Book) = h.book := by
          simp only [Handle.book, hq]
          rfl
        rw [← hb]
        exact hsteps
      · rw [hdo]
        exact tailOk_append _ [] cmd
      · rw [hdo]
        simp only [Handle.slack, hq, List.length_cons, List.length_nil]
        omega

theorem shutdown_ok (inp : Input) {h : Handle} (flags : UInt32) (hinv : h.book.Inv)
    (ht : Tails h) (hi : Idle h) :
    ∃ n, (shutdown inp h flags).Ok n h ∧
      (n = 0 ∨ hasFlag flags shutdownAbandonPending = true ∧ n = (abandoned h).length) := by
  unfold shutdown
  by_cases hconn : h.state.isConnected = true
  · have ha : h.alive := isConnected_alive hconn
    rw [if_neg (by simp [hconn])]
    by_cases hbad : (flags &&& (0xffffffff ^^^ shutdownAbandonPending) != 0) = true
    · rw [if_pos hbad]
      exact ⟨0, ⟨same_did ht rfl rfl rfl, hi⟩, .inl rfl⟩
    · rw [if_neg hbad]
      -- the request that follows, from any handle that the first part leaves
      have hrest : ∀ n h', Did n h h' → Idle h' →
          Submit.Ok n h (if h'.disconnectRequest then .accepted h' false
            else commandCommon inp h' (discRequest 0)) := by
        intro n h' hd hi'
        split
        · exact ⟨hd, fun _ => hi'⟩
        · exact .after (n := 0) hd (commandCommon_ok inp (Book.inv_steps hinv hd.steps) hd.tails
            (by rwa [Handle.alive, hd.state]) (discRequest_closures 0) hi')
      by_cases hf : hasFlag flags shutdownAbandonPending = true
      · rw [if_pos hf]
        refine ⟨(abandoned h).length, ?_, .inr ⟨hf, rfl⟩⟩
        cases hok : abandonPending inp h with
        | error a => trivial
        | ok h' =>
          obtain ⟨hd, hi'⟩ := abandonPending_did inp hinv ht hi hok
          exact hrest _ h' hd hi'
      · rw [if_neg hf]
        exact ⟨0, hrest 0 h (same_did ht rfl rfl rfl) hi, .inl rfl⟩
  · rw [if_pos (by simpa using hconn)]
    exact ⟨0, ⟨same_did ht rfl rfl rfl, hi⟩, .inl rfl⟩

/-! ## Retiring -/

theorem prevCookie_last {pre : List Command} {c : Command}
    (h : c.cookie ∉ pre.map Command.cookie) :
    prevCookie c.cookie (pre ++ [c]) = pre.getLast?.map Command.cookie := by
  induction pre with
  | nil => rfl
  | cons d ds ih =>
    simp only [List.map_cons, List.mem_cons, not_or] at h
    cases ds with
    | nil => simp [prevCookie]
    | cons e es =>
      have hne : e.cookie ≠ c.cookie := by
        intro he
        exact h.2 (by simp [he])
      simp only [List.cons_append, prevCookie, if_neg hne] at ih ⊢
      rw [ih h.2, List.getLast?_cons_cons]

theorem ite_setError (a b : Int) (e : UInt32) (text : String) (h : Handle) :
    ∃ le, (if a = b then h.setError e text else h) = { h with lastError := le } := by
  split <;> exact ⟨_, rfl⟩

theorem aioCommandCompleted_did {h h' : Handle} {cookie : UInt64} {r : Int} (hinv : h.book.Inv)
    (ht : Tails h) (hok : aioCommandCompleted h cookie = .ok (h', r)) :
    Did 0 h h' ∧ h'.q.cmdsToIssue = h.q.cmdsToIssue := by
  unfold aioCommandCompleted at hok
  split at hok
  · cases hok
    exact ⟨same_did ht rfl rfl rfl, rfl⟩
  · split at hok
    · cases hok
      exact ⟨same_did ht rfl rfl rfl, rfl⟩
    · rename_i cmd hf
      obtain ⟨pre, post, hl, he, hck, hpre⟩ := eraseP_of_findCmd hf
      split at hok
      · cases hok
      · split at hok
        · cases hok
        · obtain ⟨e, hset⟩ := ite_setError
            (if completedError cmd = 0 then (1 : Int) else -1) (-1) (completedError cmd)
            "command failed" (Handle.log { h with q := { h.q with
              cmdsDone := h.q.cmdsDone.eraseP fun c => c.cookie == cookie.toNat
              cmdsDoneTail :=
                if h.q.cmdsDoneTail = some cmd.cookie then prevCookie cmd.cookie h.q.cmdsDone
                else h.q.cmdsDoneTail } }
              (retireAndFreeCommand cmd ++ [Event.completed cmd.cookie (completedRet cmd)]))
          have hh' := congrArg Prod.fst (Except.ok.inj hok)
          simp only at hh'
          rw [← hh']
          have hstep := BookStep.retire (b := h.book) hl
          have hnd : ((pre ++ cmd :: post).map Command.cookie).Nodup := by
            rw [← hl]
            exact hinv.nodup_lists.2.2
          have htail := ht.done
          rw [completedRet] at hset
          rw [hset]
          refine ⟨⟨?_, ⟨ht.toIssue, ?_⟩, rfl, ?_⟩, rfl⟩
          · refine .single ?_
            simp only [Handle.book, Handle.log, he]
            exact hstep
          · simp only [Handle.log, he]
            rw [hl] at htail ⊢
            rcases List.eq_nil_or_concat post with rfl | ⟨ds, d, rfl⟩
            · have ht' : h.q.cmdsDoneTail = some cmd.cookie := by simpa [TailOk] using htail
              rw [if_pos ht', List.append_nil, prevCookie_last (hck ▸ hpre)]
              rfl
            · have hcat : pre ++ cmd :: ds.concat d = (pre ++ cmd :: ds) ++ [d] := by simp
              have ht' : h.q.cmdsDoneTail = some d.cookie := by
                rw [hcat] at htail
                exact htail.trans (tailOk_append Command.cookie _ d).symm
              have hne : d.cookie ≠ cmd.cookie := by
                intro hdc
                simp only [List.map_append, List.map_cons, List.nodup_append,
                  List.nodup_cons] at hnd
                exact hnd.2.1.1 (by simp [hdc])
              rw [ht', if_neg (by simpa using hne), List.concat_eq_append, ← List.append_assoc]
              exact tailOk_append _ _ d
          · simp only [Handle.slack, Handle.log]
            omega

/-! ## The run loop returns with nothing queued on a `READY` handle -/

/-- The run loop ends with a handle that satisfies `P`, if it ends here. -/
def Outcome.Stops (P : Handle → Prop) : Outcome → Prop
  | .block h | .fail h => P h
  | .next _ | .abort _ => True

theorem require_stops {p : Bool} {a : Abort} {k : Outcome} {P : Handle → Prop} (hk : k.Stops P) :
    (require p a k).Stops P := by
  unfold require
  split
  · exact hk
  · trivial

theorem ite_stops {p : Prop} [Decidable p] {a b : Outcome} {P : Handle → Prop} (ha : a.Stops P)
    (hb : b.Stops P) : (if p then a else b).Stops P := by
  split
  · exact ha
  · exact hb

theorem recvThen_stops {inp : Input} {done : Handle → Outcome} {h : Handle} {P : Handle → Prop}
    (hdone : ∀ h', (done h').Stops P) : (recvThen inp done h).Stops P := by
  unfold recvThen
  split
  · trivial
  · exact require_stops (require_stops (require_stops trivial))
  · exact hdone _

theorem chunkStartType_stops (h : Handle) (cmd : Command) (P : Handle → Prop) :
    (chunkStartType h cmd).Stops P := by
  unfold chunkStartType
  simp only
  split
  · split <;> trivial
  · split
    · split <;> trivial
    · split
      · split <;> trivial
      · split
        · unfold chunkStartBlockStatus
          split
          · trivial
          · exact require_stops trivial
        · split
          · split <;> trivial
          · trivial

/-- Once a header has arrived, a reply state goes on to another state. -/
theorem receiving_stops {inp : Input} {h : Handle} (hs : h.state.isReceiving = true)
    (hne : h.state ≠ .replyStart) (P : Handle → Prop) : (enter inp h).Stops P := by
  unfold enter
  cases hst : h.state <;> simp only [hst, State.isReceiving, Bool.false_eq_true] at hs ⊢
  case replyStart => exact absurd hst hne
  case replyRecvReply =>
    unfold enterReplyRecvReply
    split
    · trivial
    · split <;> trivial
    · trivial
  case replyCheckReplyMagic =>
    unfold enterReplyCheckReplyMagic
    simp only
    split
    · split <;> trivial
    · split
      · split
        · trivial
        · exact require_stops trivial
      · split
        · split <;> trivial
        · trivial
  case replyRecvStructuredRemaining => exact recvThen_stops fun _ => trivial
  case simpleStart =>
    unfold enterSimpleStart
    split
    · trivial
    · split <;> trivial
    · simp only
      split <;> trivial
  case simpleRecvReadPayload =>
    refine recvThen_stops fun h' => ?_
    unfold simpleReadPayloadDone
    split <;> trivial
  case chunkStart =>
    unfold enterChunkStart
    split
    · trivial
    · split
      · trivial
      · trivial
      · split
        · exact chunkStartType_stops _ _ P
        · trivial
  case chunkRecvError =>
    refine recvThen_stops fun h' => require_stops ?_
    split
    · trivial
    · trivial
    · split <;> trivial
  case chunkRecvErrorMessage => exact recvThen_stops fun _ => trivial
  case chunkRecvErrorTail =>
    refine recvThen_stops fun h' => ?_
    unfold recvErrorTailDone
    split <;> trivial
  case chunkRecvOffsetData =>
    refine recvThen_stops fun h' => ?_
    unfold recvOffsetDataDone
    split
    · trivial
    · trivial
    · refine require_stops ?_
      simp only
      split <;> trivial
  case chunkRecvOffsetDataData =>
    refine recvThen_stops fun h' => ?_
    unfold recvOffsetDataDataDone
    split <;> trivial
  case chunkRecvOffsetHole =>
    refine recvThen_stops fun h' => ?_
    unfold recvOffsetHoleDone
    split
    · trivial
    · trivial
    · refine require_stops ?_
      simp only
      split <;> trivial
  case chunkRecvBsHeader =>
    refine recvThen_stops fun h' => ?_
    unfold recvBsHeaderDone
    split
    · trivial
    · trivial
    · refine require_stops (require_stops (require_stops (require_stops ?_)))
      split
      · trivial
      · exact ite_stops trivial trivial
  case chunkRecvBsEntries =>
    refine recvThen_stops fun h' => ?_
    unfold recvBsEntriesDone
    split
    · trivial
    · trivial
    · refine require_stops (require_stops ?_)
      split
      · trivial
      · refine require_stops (require_stops ?_)
        split
        · trivial
        · split <;> trivial
  case chunkResync =>
    refine require_stops (recvThen_stops fun h' => ?_)
    unfold resyncDone
    split <;> trivial
  case chunkFinish =>
    refine require_stops ?_
    split <;> trivial

theorem enterSend_stops {inp : Input} {s : State} {h : Handle} (hne : h.state ≠ .ready) :
    (enterSend inp s h).Stops Idle := by
  unfold enterSend
  obtain he | ⟨e, he⟩ | ⟨tx, n, he⟩ | ⟨tx, n, he⟩ := sendFromWbuf_cases inp h
  · rw [he]
    trivial
  · rw [he]
    trivial
  · rw [he]
    intro hr
    exact absurd hr hne
  · rw [he]
    trivial

theorem enter_stops (inp : Input) {h : Handle} (hinv : h.book.Inv) (ht : Tails h) :
    (enter inp h).Stops Idle := by
  by_cases hr : h.state.isReceiving = true ∧ h.state ≠ .replyStart
  · exact receiving_stops hr.1 hr.2 Idle
  · unfold enter
    cases hst : h.state <;> simp only [hst, State.isReceiving, ne_eq, reduceCtorEq,
      not_false_eq_true, and_self, not_true_eq_false] at hr ⊢
    case start =>
      intro hr
      rw [hst] at hr
      cases hr
    case ready =>
      unfold enterReady
      split
      · trivial
      · rename_i hq
        refine require_stops ?_
        split
        · trivial
        · intro _
          simpa using hq
    case dead =>
      refine require_stops ?_
      obtain ⟨-, -, h', -, -, hok, hdo, -, -, -⟩ := abortAll_ok inp hinv ht
      simp only [hok]
      intro _
      rw [hdo]
    case closed =>
      obtain ⟨-, -, h', -, -, hok, hdo, -, -, -⟩ := abortAll_ok inp hinv ht
      simp only [enterClosed, hok]
      intro _
      rw [hdo]
    case issueStart =>
      unfold enterIssueStart
      split
      · trivial
      · split
        · exact require_stops trivial
        · split
          · split
            · intro hr
              cases hr
            · intro hr
              cases hr
          · exact require_stops trivial
    case issueSendRequest => exact enterSend_stops (by simp [hst])
    case issuePauseSendRequest => exact require_stops (require_stops trivial)
    case issuePrepareWritePayload =>
      unfold enterIssuePrepareWritePayload
      split
      · trivial
      · refine require_stops ?_
        split
        · trivial
        · split <;> trivial
    case issueSendWritePayload => exact enterSend_stops (by simp [hst])
    case issuePauseWritePayload => exact require_stops (require_stops trivial)
    case issueSendWriteShutdown =>
      unfold enterIssueSendWriteShutdown
      split
      · trivial
      · intro hr
        rw [hst] at hr
        cases hr
    case issuePauseWriteShutdown => exact require_stops trivial
    case issueFinish =>
      refine require_stops ?_
      split
      · trivial
      · exact require_stops trivial
    case replyStart =>
      unfold enterReplyStart
      split
      · split
        · exact require_stops trivial
        · trivial
      · refine require_stops ?_
        split
        · intro hr
          simp only [Handle.prepareReply] at hr
          rw [hst] at hr
          cases hr
        · trivial
        · simp only
          split <;> trivial
    case replyFinishCommand =>
      refine require_stops ?_
      split
      · trivial
      · split
        · trivial
        · simp only
          split
          · trivial
          · exact require_stops trivial

/-! ## Configurations -/

structure Sound (c : Config) : Prop where
  inv : c.h.book.Inv
  tails : Tails c.h
  idle : ∀ r, c.ctl = .idle r → Idle c.h

/-- The commands that a step abandons. -/
def abandons (c : Config) : Label → List Command
  | .call (.shutdown flags) _ => if hasFlag flags shutdownAbandonPending then abandoned c.h else []
  | _ => []

/-- What one step of the machine does to the queues. -/
structure StepRefines (n : Nat) (h : Handle) (c' : Config) : Prop where
  steps : BookSteps h.book c'.h.book
  sound : Sound c'
  slack : (h.slack ≤ c'.h.slack ∧ c'.h.slack ≤ h.slack + n) ∨ c'.h.slack = 0

theorem StepRefines.aborted {h : Handle} (hinv : h.book.Inv) (ht : Tails h) (n : Nat)
    (a : Abort) : StepRefines n h ⟨h, .aborted a⟩ where
  steps := .refl
  sound := ⟨hinv, ht, fun _ hr => by cases hr⟩
  slack := .inl ⟨Int.le_refl _, by simp only; omega⟩

theorem Refines.slack_le {h h' : Handle} (hr : Refines h h') :
    (h.slack ≤ h'.slack ∧ h'.slack ≤ h.slack + (0 : Nat)) ∨ h'.slack = 0 := by
  rcases hr.slack with hs | hs
  · left
    omega
  · exact .inr hs

theorem Did.slack_le {n : Nat} {h h' : Handle} (hd : Did n h h') :
    (h.slack ≤ h'.slack ∧ h'.slack ≤ h.slack + n) ∨ h'.slack = 0 := by
  have := hd.slack
  left
  omega

theorem afterRun_h (k : After) (r : Int) (h : Handle) :
    ∃ d r', afterRun k r h = ⟨{ h with disconnectRequest := d }, .idle r'⟩ := by
  cases k <;> exact ⟨_, _, rfl⟩

/-- How an iteration of the run loop ends: it goes on, the call returns, or the
process dies. -/
theorem stepEnter_cases (inp : Input) (k : After) (h : Handle) :
    (∃ h', enter inp h = .next h' ∧ stepEnter inp k h = ⟨h', .running k⟩) ∨
    (∃ h' d r, (enter inp h = .block h' ∨ enter inp h = .fail h') ∧
      stepEnter inp k h = ⟨{ h' with disconnectRequest := d }, .idle r⟩) ∨
    (∃ a, enter inp h = .abort a ∧ stepEnter inp k h = ⟨h, .aborted a⟩) := by
  unfold stepEnter
  cases ho : enter inp h with
  | next h' => exact .inl ⟨h', rfl, rfl⟩
  | block h' =>
    obtain ⟨d, r, he⟩ := afterRun_h k 0 h'
    exact .inr (.inl ⟨h', d, r, .inl rfl, he⟩)
  | fail h' =>
    obtain ⟨d, r, he⟩ := afterRun_h k (-1) h'
    exact .inr (.inl ⟨h', d, r, .inr rfl, he⟩)
  | abort a => exact .inr (.inr ⟨a, rfl, rfl⟩)

theorem Refines.afterRun {h h' : Handle} (hinv : h.book.Inv) (hr : Refines h h') (hi : Idle h')
    (k : After) (r : Int) : StepRefines 0 h (Libnbd.afterRun k r h') := by
  obtain ⟨d, r', he⟩ := afterRun_h k r h'
  rw [he]
  exact ⟨hr.steps, ⟨Book.inv_steps hinv hr.steps, ⟨hr.tails.toIssue, hr.tails.done⟩,
    fun _ _ => hi⟩, hr.slack_le⟩

theorem stepEnter_refines (inp : Input) (k : After) {h : Handle} (hinv : h.book.Inv)
    (ht : Tails h) : StepRefines 0 h (stepEnter inp k h) := by
  have hr := enter_refines inp hinv ht
  have hi := enter_stops inp hinv ht
  unfold stepEnter
  cases ho : enter inp h with
  | next h' =>
    rw [ho] at hr
    exact ⟨hr.steps, ⟨Book.inv_steps hinv hr.steps, hr.tails, fun _ hx => by cases hx⟩,
      hr.slack_le⟩
  | block h' =>
    rw [ho] at hr hi
    exact Refines.afterRun hinv hr hi k 0
  | fail h' =>
    rw [ho] at hr hi
    exact Refines.afterRun hinv hr hi k (-1)
  | abort a => exact .aborted hinv ht 0 a

theorem externalEvent_alive {ev : ExternalEvent} {s s' : State} (h : externalEvent ev s = some s') :
    (s ≠ .dead ∧ s ≠ .closed) ∧ s' ≠ .dead ∧ s' ≠ .closed := by
  cases ev <;> cases s <;> simp_all [externalEvent] <;> subst h <;> simp

theorem Did.afterRun {n : Nat} {h h' : Handle} (hinv : h.book.Inv) (hd : Did n h h')
    (hi : Idle h') (k : After) (r : Int) : StepRefines n h (Libnbd.afterRun k r h') := by
  obtain ⟨d, r', he⟩ := afterRun_h k r h'
  rw [he]
  exact ⟨hd.steps, ⟨Book.inv_steps hinv hd.steps, ⟨hd.tails.toIssue, hd.tails.done⟩,
    fun _ _ => hi⟩, hd.slack_le⟩

theorem Did.startRun {n : Nat} {h h' : Handle} (hinv : h.book.Inv) (hd : Did n h h')
    (ev : ExternalEvent) (k : After) (hi : ev ≠ .cmdIssue → Idle h')
    (hready : ev = .cmdIssue → h'.state ≠ .ready → Idle h') :
    StepRefines n h (Libnbd.startRun ev k h') := by
  unfold Libnbd.startRun
  split
  · rename_i s hs
    obtain ⟨ha, -⟩ := externalEvent_alive hs
    exact ⟨hd.steps, ⟨Book.inv_steps hinv hd.steps, ⟨fun _ => hd.tails.toIssue ha, hd.tails.done⟩,
      fun _ hx => by cases hx⟩, hd.slack_le⟩
  · rename_i hs
    have hd' : Did n h (h'.setError einval "external event is invalid in this state") :=
      ⟨hd.steps, ⟨hd.tails.toIssue, hd.tails.done⟩, hd.state, hd.slack⟩
    refine Did.afterRun hinv hd' ?_ k (-1)
    by_cases hev : ev = .cmdIssue
    · refine hready hev ?_
      intro hr
      rw [hev, hr] at hs
      cases hs
    · exact hi hev

theorem Submit.Ok.afterSubmit {n : Nat} {h : Handle} {s : Submit} (hinv : h.book.Inv)
    (ht : Tails h) (hs : s.Ok n h) (k : After) : StepRefines n h (Libnbd.afterSubmit h k s) := by
  have hidle : ∀ h', Did n h h' → Idle h' → StepRefines n h ⟨h', .idle (-1)⟩ := by
    intro h' hd hi
    exact ⟨hd.steps, ⟨Book.inv_steps hinv hd.steps, hd.tails, fun _ _ => hi⟩, hd.slack_le⟩
  cases s with
  | refused h' => exact hidle h' hs.1 hs.2
  | rejected h' => exact hidle h' hs.1 hs.2
  | accepted h' run =>
    cases run with
    | true =>
      exact Did.startRun hinv hs.1 .cmdIssue k (fun hne => absurd rfl hne)
        (fun _ hne hr => absurd hr hne)
    | false => exact Did.afterRun hinv hs.1 (hs.2 rfl) k 0
  | abort a => exact .aborted hinv ht n a

theorem apiCall_refines (inp : Input) (api : Api) {h : Handle} (hinv : h.book.Inv) (ht : Tails h)
    (hi : Idle h) (hclose : api ≠ .close) :
    StepRefines (abandons ⟨h, .idle 0⟩ (.call api inp)).length h (apiCall inp h api) := by
  have hidle : ∀ {h' : Handle} (r : Int), Did 0 h h' → Idle h' → StepRefines 0 h ⟨h', .idle r⟩ := by
    intro h' r hd hi'
    exact ⟨hd.steps, ⟨Book.inv_steps hinv hd.steps, hd.tails, fun _ _ => hi'⟩, hd.slack_le⟩
  cases api with
  | command call => exact (submit_ok inp call hinv ht hi).afterSubmit hinv ht _
  | aioDisconnect flags => exact (aioDisconnect_ok inp flags hinv ht hi).afterSubmit hinv ht _
  | shutdown flags =>
    obtain ⟨n, hok, hn⟩ := shutdown_ok inp flags hinv ht hi
    have hr := hok.afterSubmit hinv ht .disconnect
    refine ⟨hr.steps, hr.sound, ?_⟩
    have hlen : n ≤ (abandons ⟨h, .idle 0⟩ (.call (.shutdown flags) inp)).length := by
      rcases hn with rfl | ⟨hf, rfl⟩
      · exact Nat.zero_le _
      · simp only [abandons, hf, if_true]
        exact Nat.le_refl _
    rcases hr.slack with ⟨h₁, h₂⟩ | h₀
    · left
      exact ⟨h₁, Int.le_trans h₂ (by omega)⟩
    · exact .inr h₀
  | aioCommandCompleted cookie =>
    simp only [apiCall]
    cases hok : aioCommandCompleted h cookie with
    | error a => exact .aborted hinv ht _ a
    | ok p =>
      obtain ⟨h', r⟩ := p
      obtain ⟨hd, hq⟩ := aioCommandCompleted_did hinv ht hok
      refine hidle r hd ?_
      intro hr
      rw [hq]
      exact hi (hd.state ▸ hr)
  | aioNotifyRead =>
    exact (same_did ht rfl rfl rfl).startRun hinv .notifyRead .notify (fun _ => hi)
      (fun hx => by cases hx)
  | aioNotifyWrite =>
    exact (same_did ht rfl rfl rfl).startRun hinv .notifyWrite .notify (fun _ => hi)
      (fun hx => by cases hx)
  | setStrictMode flags =>
    simp only [apiCall]
    split
    · exact hidle _ (same_did ht rfl rfl rfl) hi
    · exact hidle _ (same_did ht rfl rfl rfl) hi
  | setPreadInitialize b => exact hidle _ (same_did ht rfl rfl rfl) hi
  | close => exact absurd rfl hclose

/-- **Every step of the machine moves the book**, or closes the handle. -/
theorem step_closes_or_refines {c c' : Config} {l : Label} (hs : Sound c)
    (h : step c l = some c') :
    (∃ inp, l = .call .close inp ∧ c' = ⟨close inp { c.h with lastError := inp.lastError }, .closed⟩) ∨
      StepRefines (abandons c l).length c.h c' := by
  cases l with
  | enter inp =>
    right
    simp only [step] at h
    split at h
    · cases h
      exact stepEnter_refines inp _ hs.inv hs.tails
    · cases h
  | call api inp =>
    simp only [step] at h
    split at h
    · rename_i r hc
      cases h
      by_cases hclose : api = .close
      · left
        subst hclose
        exact ⟨inp, rfl, rfl⟩
      · right
        have hr := apiCall_refines inp api (h := { c.h with lastError := inp.lastError }) hs.inv
          ⟨hs.tails.toIssue, hs.tails.done⟩ (hs.idle r hc) hclose
        have habs : abandons ⟨{ c.h with lastError := inp.lastError }, .idle 0⟩ (.call api inp) =
            abandons c (.call api inp) := by cases api <;> rfl
        rw [habs] at hr
        exact ⟨hr.steps, hr.sound, hr.slack⟩
    · cases h

theorem step_refines {c c' : Config} {l : Label} (hs : Sound c) (h : step c l = some c') :
    c'.ctl = .closed ∨ StepRefines (abandons c l).length c.h c' :=
  (step_closes_or_refines hs h).imp_left fun ⟨_, _, he⟩ => by rw [he]

/-- The trace only grows. -/
theorem step_trace_append {c c' : Config} {l : Label} (hs : Sound c) (h : step c l = some c') :
    ∃ es, c'.h.trace = c.h.trace ++ es := by
  rcases step_closes_or_refines hs h with ⟨inp, -, rfl⟩ | hr
  · exact ⟨_, rfl⟩
  · exact hr.steps.trace_append

theorem initial_sound {c : Config} (h : Initial c) : Sound c := by
  obtain ⟨exp, strict, pi, hdr, payload, mem, rfl⟩ := h
  exact ⟨Book.inv_empty, ⟨fun _ => tailOk_nil _, tailOk_nil _⟩, fun _ _ _ => rfl⟩

/-- A handle is sound until it is closed. -/
theorem reachable_sound {c : Config} (h : machine.Reachable c) : c.ctl = .closed ∨ Sound c := by
  refine machine.reachable_invariant (P := fun c => c.ctl = .closed ∨ Sound c)
    (fun c hc => .inr (initial_sound hc)) ?_ h
  intro c l c' hc hstep
  rcases hc with hc | hc
  · cases l <;> simp [machine, step, hc] at hstep
  · exact (step_refines hc hstep).imp id fun hr => hr.sound

/-! ## Conservation -/

/-- What the three queues and the counter promise. -/
structure Conserved (h : Handle) : Prop where
  /-- accepted and not retired: on exactly one list, once -/
  once : ∀ k, k ∈ acceptedCookies h.trace → k ∉ retiredCookies h.trace →
    (h.book.cookies).count k = 1
  /-- and nothing else is on them -/
  only : ∀ k ∈ h.book.cookies, k ∈ acceptedCookies h.trace ∧ k ∉ retiredCookies h.trace
  distinct : (acceptedCookies h.trace).Nodup
  positive : ∀ k ∈ acceptedCookies h.trace, 1 ≤ k
  noDisc : ∀ c ∈ h.q.cmdsDone, c.type ≠ .disc
  submissionOrder : (h.q.cmdsToIssue.map Command.cookie).Sublist (acceptedCookies h.trace)
  completionOrder : (h.q.cmdsDone.map Command.cookie).Sublist (finishedCookies h.trace)
  counter : h.q.inFlight = h.q.cmdsToIssue.length + h.q.cmdsInFlight.length

theorem Book.Inv.conserved {h : Handle} (hinv : h.book.Inv) (hslack : h.slack = 0) :
    Conserved h where
  once := by
    intro k ha hr
    exact List.nodup_iff_count_eq_one.mp hinv.nodup k ((hinv.mem_commands_iff k).mpr ⟨ha, hr⟩)
  only := fun k hk => (hinv.mem_commands_iff k).mp hk
  distinct := hinv.sorted.imp Nat.ne_of_lt
  positive := fun k hk => (hinv.range k hk).1
  noDisc := hinv.noDisc
  submissionOrder := hinv.order
  completionOrder := hinv.doneOrder
  counter := by
    simp only [Handle.slack] at hslack
    omega

/-- **Command conservation**, in every run in which `nbd_shutdown` abandons no
command. -/
theorem conserved_unless_abandoning {c : Config}
    (h : machine.ReachableBy (fun c l => abandons c l = []) c) {r : Int} (hr : c.ctl = .idle r) :
    Conserved c.h := by
  have key : c.ctl = .closed ∨ Sound c ∧ c.h.slack = 0 := by
    refine machine.reachableBy_invariant (P := fun c => c.ctl = .closed ∨ Sound c ∧ c.h.slack = 0)
      ?_ ?_ h
    · intro c hc
      refine .inr ⟨initial_sound hc, ?_⟩
      obtain ⟨exp, strict, pi, hdr, payload, mem, rfl⟩ := hc
      rfl
    · intro c l c' hc hcond hstep
      rcases hc with hc | ⟨hs, hsl⟩
      · cases l <;> simp [machine, step, hc] at hstep
      · refine (step_refines hs hstep).imp id fun hr => ⟨hr.sound, ?_⟩
        have hslack := hr.slack
        rw [hcond] at hslack
        simp only [List.length_nil] at hslack
        omega
  rcases key with hc | ⟨hs, hsl⟩
  · rw [hc] at hr
    cases hr
  · exact hs.inv.conserved hsl

/-! Two reads are queued behind a socket that takes nothing, and the second one
is abandoned by `nbd_shutdown`. -/

/-- Runs in which the first of two reads cannot be sent. -/
def queueTwoReads : List Label :=
  [.call (.command (.aioPread 4096 512 0 .null 0)) .calm, .enter { Input.calm with send := .again },
   .enter { Input.calm with send := .again },
   .call (.command (.aioPread 8192 512 512 .null 0)) .calm]

theorem conserved_unless_abandoning_two_reads :
    ∃ c, machine.exec .calm queueTwoReads = some c ∧ Conserved c.h := by
  have hctl : (machine.exec .calm queueTwoReads).map (fun c => c.ctl) = some (.idle 2) := by
    decide +kernel
  obtain ⟨c, hc, hi⟩ := Option.map_eq_some_iff.mp hctl
  refine ⟨c, hc, conserved_unless_abandoning ⟨_, _, Config.initial_calm, ?_, hc⟩ hi⟩
  have hno : ∀ l ∈ queueTwoReads, ∀ c, abandons c l = [] := by
    intro l hl c
    simp only [queueTwoReads, List.mem_cons, List.not_mem_nil, or_false] at hl
    rcases hl with rfl | rfl | rfl | rfl <;> rfl
  exact machine.meets_of_forall _ _ hno

/-- After abandoning one of two queued reads the counter is one too high. -/
theorem abandoning_miscounts :
    ¬ ∀ c, machine.Reachable c → (∃ r, c.ctl = .idle r) → Conserved c.h := by
  intro hall
  have hrun : (machine.exec .calm (queueTwoReads ++
      [Label.call (.shutdown shutdownAbandonPending) .calm])).map (fun c =>
        (c.ctl, c.h.q.inFlight, c.h.q.cmdsToIssue.length + c.h.q.cmdsInFlight.length)) =
      some (.idle 0, 3, 2) := by decide +kernel
  obtain ⟨c, hc, hp⟩ := Option.map_eq_some_iff.mp hrun
  simp only [Prod.mk.injEq] at hp
  have hcount := (hall c ⟨_, _, Config.initial_calm, hc⟩ ⟨0, hp.1⟩).counter
  omega

end Libnbd
