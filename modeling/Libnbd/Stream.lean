import Libnbd.Reachable
import Mathlib.Data.List.Flatten

/-!
The stream of requests.

A send may stop anywhere in a header or a payload, replies may be handled in
between, and `ISSUE_COMMAND.START` has to find out where it was. `TxAt` says for
each state what has been sent of the command at the head of the queue, and
`StreamOk` that the bytes sent are the commands in submission order, each once.
The exception is a `NBD_CMD_DISC` whose shutdown was interrupted:
`ISSUE_COMMAND.START` then falls through and sends its header again.
-/

namespace Libnbd

open Lib

/-- What a command puts on the wire. -/
def Command.wire (extended : Bool) (cmd : Command) : List UInt8 :=
  requestHeader extended cmd ++
    if cmd.hasPayload extended then cmd.data.take cmd.count.toNat else []

/-- The bytes of the commands that have been issued. -/
def Handle.issuedBytes (h : Handle) : List UInt8 :=
  (issued h.trace).flatMap (Command.wire h.exp.extendedHeaders)

/-- The bytes sent are a prefix of the concatenation of accepted commands in
submission order, each once; and at most one command is partially sent. -/
structure StreamOk (h : Handle) : Prop where
  stream : ∃ cmds, issued h.trace <+: cmds ∧ cmds.length ≤ (issued h.trace).length + 1 ∧
    cmds.Sublist (accepted h.trace) ∧ (cmds.map Command.cookie).Nodup ∧
    h.issuedBytes <+: h.tx.sent ∧ h.tx.sent <+: cmds.flatMap (Command.wire h.exp.extendedHeaders)

/-! ## Sending in pieces -/

/-- `n` bytes of `x` have been sent behind `a`, and `len - n` are to be sent. -/
def Sending (a x : List UInt8) (len : Nat) (t : Tx) : Prop :=
  ∃ n ≤ len, t.sent = a ++ x.take n ∧ t.wbuf = x.drop n ∧ t.wlen = len - n

theorem sendFromWbuf_sending (inp : Input) {h : Handle} {a x : List UInt8} {len : Nat}
    (hs : Sending a x len h.tx) :
    sendFromWbuf inp h = .overrun ∨
    (∃ e, sendFromWbuf inp h = .fail { h with lastError := e }) ∨
    (∃ tx n, sendFromWbuf inp h = .more { h with tx := tx, bytesSent := n } ∧
      Sending a x len tx) ∨
    (∃ tx n, sendFromWbuf inp h = .done { h with tx := tx, bytesSent := n } ∧
      tx.sent = a ++ x.take len ∧ tx.wlen = 0) := by
  obtain ⟨n, hn, hsent, hwbuf, hwlen⟩ := hs
  unfold sendFromWbuf
  by_cases hz : h.tx.wlen = 0
  · rw [if_pos hz]
    refine .inr (.inr (.inr ⟨_, _, rfl, ?_, hz⟩))
    have : n = len := by omega
    rw [← this]
    exact hsent
  rw [if_neg hz]
  by_cases hover : h.tx.wbuf.length < h.tx.wlen
  · exact .inl (by rw [if_pos hover])
  rw [if_neg hover]
  cases inp.send with
  | again => exact .inr (.inr (.inl ⟨_, _, rfl, n, hn, hsent, hwbuf, hwlen⟩))
  | error => exact .inr (.inl ⟨_, rfl⟩)
  | sent k =>
    -- the bytes taken from `wbuf` continue those already sent
    have hsent' : (h.advance (min k h.tx.wlen)).tx.sent = a ++ x.take (n + min k h.tx.wlen) := by
      simp only [Handle.advance, hsent, hwbuf, List.append_assoc, List.take_add]
    have hwbuf' : (h.advance (min k h.tx.wlen)).tx.wbuf = x.drop (n + min k h.tx.wlen) := by
      simp only [Handle.advance, hwbuf, List.drop_drop]
    have hwlen' : (h.advance (min k h.tx.wlen)).tx.wlen = len - (n + min k h.tx.wlen) := by
      simp only [Handle.advance, hwlen]
      omega
    simp only
    split
    · rename_i hdone
      refine .inr (.inr (.inr ⟨_, _, rfl, ?_, hdone⟩))
      have : n + min k h.tx.wlen = len := by omega
      rw [← this]
      exact hsent'
    · exact .inr (.inr (.inl ⟨_, _, rfl, n + min k h.tx.wlen, by omega, hsent', hwbuf', hwlen'⟩))

/-! ## Where the sending side is -/

section Phases

variable (h : Handle)

/-- `cmd` is at the head of the queue. -/
def Handle.AtHead (cmd : Command) : Prop := ∃ rest, h.q.cmdsToIssue = cmd :: rest

/-- Nothing is being sent. -/
def Resting : Prop := h.tx.sent = h.issuedBytes ∧ h.tx.wlen = 0

def SendingHeader (cmd : Command) : Prop :=
  Sending h.issuedBytes (requestHeader h.exp.extendedHeaders cmd)
    (requestHeader h.exp.extendedHeaders cmd).length h.tx

def HeaderSent (cmd : Command) : Prop :=
  h.tx.sent = h.issuedBytes ++ requestHeader h.exp.extendedHeaders cmd ∧ h.tx.wlen = 0

def SendingPayload (cmd : Command) : Prop :=
  cmd.hasPayload h.exp.extendedHeaders = true ∧
    Sending (h.issuedBytes ++ requestHeader h.exp.extendedHeaders cmd) cmd.data cmd.count.toNat h.tx

def ShuttingDown (cmd : Command) : Prop :=
  cmd.hasPayload h.exp.extendedHeaders = false ∧ HeaderSent h cmd ∧ h.tx.inWriteShutdown = true

def WholeSent (cmd : Command) : Prop :=
  h.tx.sent = h.issuedBytes ++ cmd.wire h.exp.extendedHeaders ∧ h.tx.wlen = 0

/-- Outside of `ISSUE_COMMAND` the two flags and `wlen` remember the state. -/
def Remembered : Prop :=
  Resting h ∨ ∃ cmd, h.AtHead cmd ∧
    (SendingHeader h cmd ∧ h.tx.wlen ≠ 0 ∧ h.tx.inWritePayload = false ∨
      SendingPayload h cmd ∧ h.tx.wlen ≠ 0 ∧ h.tx.inWritePayload = true ∨ ShuttingDown h cmd)

def TxAt : State → Prop
  | .issueSendRequest | .issuePauseSendRequest => ∃ cmd, h.AtHead cmd ∧ SendingHeader h cmd
  | .issuePrepareWritePayload => ∃ cmd, h.AtHead cmd ∧ HeaderSent h cmd
  | .issueSendWritePayload | .issuePauseWritePayload => ∃ cmd, h.AtHead cmd ∧ SendingPayload h cmd
  | .issueSendWriteShutdown | .issuePauseWriteShutdown => ∃ cmd, h.AtHead cmd ∧ ShuttingDown h cmd
  | .issueFinish => ∃ cmd, h.AtHead cmd ∧ WholeSent h cmd
  | .dead | .closed => True
  | _ => Remembered h

end Phases

/-- Part of the command at the head of the queue has been sent, or nothing of it. -/
def PartSent (h : Handle) : Prop :=
  h.tx.sent = h.issuedBytes ∨
    ∃ cmd p, h.AtHead cmd ∧ p <+: cmd.wire h.exp.extendedHeaders ∧ h.tx.sent = h.issuedBytes ++ p

theorem header_prefix_wire (extended : Bool) (cmd : Command) :
    requestHeader extended cmd <+: cmd.wire extended := List.prefix_append _ _

theorem SendingHeader.partSent {h : Handle} {cmd : Command} (hh : h.AtHead cmd)
    (hs : SendingHeader h cmd) : PartSent h := by
  obtain ⟨n, -, hsent, -, -⟩ := hs
  exact .inr ⟨cmd, _, hh, (List.take_prefix _ _).trans (header_prefix_wire _ _), hsent⟩

theorem HeaderSent.partSent {h : Handle} {cmd : Command} (hh : h.AtHead cmd)
    (hs : HeaderSent h cmd) : PartSent h :=
  .inr ⟨cmd, _, hh, header_prefix_wire _ _, hs.1⟩

theorem SendingPayload.partSent {h : Handle} {cmd : Command} (hh : h.AtHead cmd)
    (hs : SendingPayload h cmd) : PartSent h := by
  obtain ⟨hpay, n, hn, hsent, -, -⟩ := hs
  rw [List.append_assoc] at hsent
  refine .inr ⟨cmd, _, hh, ?_, hsent⟩
  rw [Command.wire, if_pos hpay, List.prefix_append_right_inj]
  exact List.take_prefix_take_left hn

theorem TxAt.partSent {h : Handle} {s : State} (hd : s ≠ .dead) (hc : s ≠ .closed)
    (ht : TxAt h s) : PartSent h := by
  have hrem : Remembered h → PartSent h := by
    rintro (hr | ⟨cmd, hh, ⟨hs, -⟩ | ⟨hs, -⟩ | hs⟩)
    · exact .inl hr.1
    · exact hs.partSent hh
    · exact hs.partSent hh
    · exact hs.2.1.partSent hh
  cases s
  case dead => exact absurd rfl hd
  case closed => exact absurd rfl hc
  case issueSendRequest | issuePauseSendRequest =>
    obtain ⟨cmd, hh, hs⟩ := ht
    exact hs.partSent hh
  case issuePrepareWritePayload =>
    obtain ⟨cmd, hh, hs⟩ := ht
    exact hs.partSent hh
  case issueSendWritePayload | issuePauseWritePayload =>
    obtain ⟨cmd, hh, hs⟩ := ht
    exact hs.partSent hh
  case issueSendWriteShutdown | issuePauseWriteShutdown =>
    obtain ⟨cmd, hh, hs⟩ := ht
    exact hs.2.1.partSent hh
  case issueFinish =>
    obtain ⟨cmd, hh, hs⟩ := ht
    exact .inr ⟨cmd, _, hh, List.prefix_refl _, hs.1⟩
  all_goals exact hrem ht

/-! ## Submission order -/

/-- Commands are issued in the order in which they were accepted. -/
def Book.InOrder (b : Book) : Prop := (issued b.trace ++ b.toIssue).Sublist (accepted b.trace)

theorem issued_accepted_eq_nil (es : List Event) (h : ∀ e ∈ es, e.midOf ≠ none ∨ e = .rejectFn ∨
    e = .rejectCompletion) : issued es = [] ∧ accepted es = [] := by
  induction es with
  | nil => exact ⟨rfl, rfl⟩
  | cons e es ih =>
    have hrest := ih fun e' he' => h e' (List.mem_cons_of_mem _ he')
    have hhead := h e List.mem_cons_self
    cases e <;> first | exact hrest | (exfalso; simp [Event.midOf] at hhead)

theorem issued_settled (cmd : Command) (err : UInt32) (retire : Bool) :
    issued (completionEvents cmd err ++ [Event.finish cmd.cookie] ++
      if retire then retireAndFreeCommand cmd else []) = [] ∧
    accepted (completionEvents cmd err ++ [Event.finish cmd.cookie] ++
      if retire then retireAndFreeCommand cmd else []) = [] := by
  unfold completionEvents retireAndFreeCommand
  split_ifs <;> exact ⟨rfl, rfl⟩

theorem issued_retired (cmd : Command) (r : Int) :
    issued (retireAndFreeCommand cmd ++ [Event.completed cmd.cookie r]) = [] ∧
    accepted (retireAndFreeCommand cmd ++ [Event.completed cmd.cookie r]) = [] := by
  unfold retireAndFreeCommand
  split_ifs <;> exact ⟨rfl, rfl⟩

theorem Book.InOrder.step {b b' : Book} (ho : b.InOrder) (h : BookStep b b') : b'.InOrder := by
  unfold Book.InOrder at ho ⊢
  cases h with
  | @touch cmds es ht hes =>
    obtain ⟨h₁, h₂⟩ := issued_accepted_eq_nil es fun e he => by
      obtain ⟨c, -, hm⟩ := hes e he
      rw [hm]
      exact .inl nofun
    simpa [h₁, h₂] using ho
  | @reject es hes =>
    obtain ⟨h₁, h₂⟩ := issued_accepted_eq_nil es fun e he => .inr (hes e he)
    simpa [h₁, h₂] using ho
  | @accept cmd hk hc =>
    have h₁ : issued [Event.accept cmd] = [] := rfl
    have h₂ : accepted [Event.accept cmd] = [cmd] := rfl
    simp only [issued_append, accepted_append, h₁, h₂, List.append_nil]
    rw [← List.append_assoc]
    exact ho.append (.refl _)
  | @issue cmd rest hq =>
    have h₁ : issued [Event.issue cmd] = [cmd] := rfl
    have h₂ : accepted [Event.issue cmd] = [] := rfl
    simp only [issued_append, accepted_append, h₁, h₂, List.append_nil]
    rw [hq] at ho
    simpa using ho
  | @finish pre post cmd cmd' err retire hq hs =>
    obtain ⟨h₁, h₂⟩ := issued_settled cmd err retire
    simpa only [Book.settle, issued_append, accepted_append, h₁, h₂, List.append_nil] using ho
  | @abort pre post cmd cmd' err retire hq hs =>
    obtain ⟨h₁, h₂⟩ := issued_settled cmd err retire
    have hsub : (issued b.trace ++ (pre ++ post)).Sublist (issued b.trace ++ b.toIssue) := by
      rw [hq]
      exact (List.Sublist.refl _).append ((List.Sublist.refl _).append (List.sublist_cons_self _ _))
    simpa only [Book.settle, issued_append, accepted_append, h₁, h₂, List.append_nil] using
      hsub.trans ho
  | @retire pre post cmd hq =>
    obtain ⟨h₁, h₂⟩ := issued_retired cmd (completedRet cmd)
    simpa only [issued_append, accepted_append, h₁, h₂, List.append_nil] using ho

theorem Book.InOrder.steps {b b' : Book} (ho : b.InOrder) (h : BookSteps b b') : b'.InOrder :=
  h.invariant (P := Book.InOrder) (fun _ _ hp hs => hp.step hs) ho

theorem PartSent.streamOk {h : Handle} (hp : PartSent h) (hinv : h.book.Inv)
    (ho : h.book.InOrder) : StreamOk h := by
  have hnd : ((accepted h.trace).map Command.cookie).Nodup := by
    rw [← acceptedCookies_eq]
    exact hinv.sorted.imp Nat.ne_of_lt
  have ho : (issued h.trace ++ h.q.cmdsToIssue).Sublist (accepted h.trace) := ho
  rcases hp with hs | ⟨cmd, p, ⟨rest, hq⟩, hpre, hs⟩
  · have hsub : (issued h.trace).Sublist (accepted h.trace) := (List.sublist_append_left _ _).trans ho
    have hle : h.issuedBytes <+: h.tx.sent := by simp only [hs, List.prefix_refl]
    have hge : h.tx.sent <+: h.issuedBytes := by simp only [hs, List.prefix_refl]
    exact ⟨issued h.trace, List.prefix_refl _, Nat.le_succ _, hsub,
      (hsub.map Command.cookie).nodup hnd, hle, hge⟩
  · have hsub : (issued h.trace ++ [cmd]).Sublist (accepted h.trace) := by
      rw [hq] at ho
      refine .trans ?_ ho
      exact (List.Sublist.refl _).append (List.singleton_sublist.mpr List.mem_cons_self)
    refine ⟨issued h.trace ++ [cmd], List.prefix_append _ _, by simp, hsub,
      (hsub.map Command.cookie).nodup hnd, ?_, ?_⟩
    · rw [hs]
      exact List.prefix_append _ _
    · rw [hs, List.flatMap_append, List.flatMap_singleton]
      exact (List.prefix_append_right_inj _).mpr hpre

/-! ## One step -/

/-- Steps that neither send nor issue, and keep the head of the queue. -/
structure Still (h h' : Handle) : Prop where
  tx : h'.tx = h.tx
  exp : h'.exp = h.exp
  issued : issued h'.trace = issued h.trace

theorem Still.issuedBytes {h h' : Handle} (hs : Still h h') : h'.issuedBytes = h.issuedBytes := by
  rw [Handle.issuedBytes, hs.issued, hs.exp]
  rfl

/-- The phases look at the sending side, the issued commands and the head. -/
theorem TxAt.still {h h' : Handle} {s : State} (ht : TxAt h s) (hs : Still h h')
    (hq : ∀ cmd, h.AtHead cmd → h'.AtHead cmd) : TxAt h' s := by
  have hb := hs.issuedBytes
  cases s <;> simp only [TxAt, Remembered, Resting, SendingHeader, HeaderSent, SendingPayload,
    ShuttingDown, WholeSent, hb, hs.tx, hs.exp] at ht ⊢
  case issueSendRequest | issuePauseSendRequest | issuePrepareWritePayload | issueSendWritePayload |
      issuePauseWritePayload | issueSendWriteShutdown | issuePauseWriteShutdown | issueFinish =>
    obtain ⟨cmd, hh, hrest⟩ := ht
    exact ⟨cmd, hq cmd hh, hrest⟩
  all_goals
    rcases ht with hr | ⟨cmd, hh, hrest⟩
    · exact .inl hr
    · exact .inr ⟨cmd, hq cmd hh, hrest⟩

/-- What a step leaves behind: the phase of the new state, or a stream that has
ended where it was. -/
structure TxPost (h h' : Handle) : Prop where
  at_ : h'.alive → TxAt h' h'.state
  ended : ¬ h'.alive → h'.tx.sent = h.tx.sent ∧ h'.exp = h.exp ∧ issued h'.trace = issued h.trace

theorem TxPost.of_at {h h' : Handle} (ha : h'.alive) (ht : TxAt h' h'.state) : TxPost h h' :=
  ⟨fun _ => ht, fun hn => absurd ha hn⟩

theorem TxPost.of_still {h h' : Handle} (ht : h'.alive → TxAt h h'.state) (hs : Still h h')
    (hq : h'.alive → ∀ cmd, h.AtHead cmd → h'.AtHead cmd) : TxPost h h' :=
  ⟨fun ha => (ht ha).still hs (hq ha), fun _ => ⟨by rw [hs.tx], hs.exp, hs.issued⟩⟩

theorem Handle.AtHead.eq {h : Handle} {cmd cmd' : Command} {rest : List Command}
    (hh : h.AtHead cmd) (hq : h.q.cmdsToIssue = cmd' :: rest) : cmd = cmd' := by
  obtain ⟨rest', hq'⟩ := hh
  rw [hq] at hq'
  exact (List.cons.inj hq').1.symm

theorem length_requestHeader (extended : Bool) (cmd : Command) :
    (requestHeader extended cmd).length = if extended then 32 else 28 := by
  cases extended <;> simp [requestHeader]

theorem issueRequest_tx {h : Handle} {cmd : Command} {rest : List Command}
    (hq : h.q.cmdsToIssue = cmd :: rest) (hr : Resting h) :
    (issueRequest h cmd rest).All (TxPost h) := by
  refine require_all fun _ => .of_at ⟨nofun, nofun⟩ ⟨cmd, ⟨rest, hq⟩, 0, Nat.zero_le _, ?_, rfl, ?_⟩
  · rw [List.take_zero, List.append_nil]
    exact hr.1
  · exact (length_requestHeader _ cmd).symm

/-- `START` comes back to the state that was interrupted. -/
theorem enterIssueStart_tx {h : Handle} (hr : Remembered h) (hcond : h.tx.inWriteShutdown = false) :
    (enterIssueStart h).All (TxPost h) := by
  unfold enterIssueStart
  split
  · trivial
  · rename_i cmd rest hq
    rw [if_neg (by rw [hcond]; exact nofun)]
    split
    · rename_i hwlen
      rcases hr with hr | ⟨cmd', hh, ⟨hs, -, hf⟩ | ⟨hs, -, hf⟩ | hs⟩
      · exact absurd hr.2 hwlen
      · rw [if_neg (by rw [hf]; exact nofun)]
        exact .of_at ⟨nofun, nofun⟩ ⟨cmd', hh, hs⟩
      · rw [if_pos hf]
        exact .of_at ⟨nofun, nofun⟩ ⟨cmd', hh, hs⟩
      · exact absurd hs.2.1.2 hwlen
    · rename_i hwlen
      rcases hr with hr | ⟨cmd', hh, ⟨-, hne, -⟩ | ⟨-, hne, -⟩ | hs⟩
      · exact issueRequest_tx hq hr
      · exact absurd hne hwlen
      · exact absurd hne hwlen
      · rw [hs.2.2] at hcond
        cases hcond

/-- `SEND_REQUEST` and `SEND_WRITE_PAYLOAD`. -/
theorem enterSend_tx {inp : Input} {next : State} {h : Handle} {a x : List UInt8} {len : Nat}
    (hs : Sending a x len h.tx) (hna : h.alive) (hn : next ≠ .dead ∧ next ≠ .closed)
    (hmore : ∀ tx n, Sending a x len tx →
      TxAt { h with tx := tx, bytesSent := n } h.state)
    (hdone : ∀ tx n, tx.sent = a ++ x.take len → tx.wlen = 0 →
      TxAt { h with state := next, tx := tx, bytesSent := n } next) :
    (enterSend inp next h).All (TxPost h) := by
  unfold enterSend
  obtain he | ⟨e, he⟩ | ⟨tx, n, he, hs'⟩ | ⟨tx, n, he, hsent, hz⟩ := sendFromWbuf_sending inp hs
  · rw [he]
    trivial
  · rw [he]
    exact ⟨fun ha => absurd rfl ha.1, fun _ => ⟨rfl, rfl, rfl⟩⟩
  · rw [he]
    exact .of_at hna (hmore tx n hs')
  · rw [he]
    exact .of_at hn (hdone tx n hsent hz)

theorem enterIssueSendRequest_tx {inp : Input} {h : Handle} (hst : h.state = .issueSendRequest)
    {cmd : Command} (hh : h.AtHead cmd) (hs : SendingHeader h cmd) :
    (enterIssueSendRequest inp h).All (TxPost h) := by
  refine enterSend_tx hs (by simp [Handle.alive, hst]) ⟨nofun, nofun⟩ (fun tx n hs' => ?_)
    fun tx n hsent hz => ⟨cmd, hh, ?_, hz⟩
  · rw [hst]
    exact ⟨cmd, hh, hs'⟩
  · rw [List.take_length] at hsent
    exact hsent

theorem enterIssueSendWritePayload_tx {inp : Input} {h : Handle}
    (hst : h.state = .issueSendWritePayload) {cmd : Command} (hh : h.AtHead cmd)
    (hs : SendingPayload h cmd) : (enterIssueSendWritePayload inp h).All (TxPost h) := by
  obtain ⟨hpay, hs⟩ := hs
  refine enterSend_tx hs (by simp [Handle.alive, hst]) ⟨nofun, nofun⟩ (fun tx n hs' => ?_)
    fun tx n hsent hz => ⟨cmd, hh, ?_, hz⟩
  · rw [hst]
    exact ⟨cmd, hh, hpay, hs'⟩
  · rw [List.append_assoc] at hsent
    rw [Command.wire]
    simp only [hpay, if_true]
    exact hsent

theorem enterIssuePrepareWritePayload_tx {h : Handle} {cmd : Command} (hh : h.AtHead cmd)
    (hs : HeaderSent h cmd) : (enterIssuePrepareWritePayload h).All (TxPost h) := by
  unfold enterIssuePrepareWritePayload
  split
  · trivial
  · rename_i cmd' rest hq
    obtain rfl := hh.eq hq
    refine require_all fun _ => ?_
    split
    · rename_i hpay
      refine .of_at ⟨nofun, nofun⟩ ⟨cmd, hh, hpay, 0, Nat.zero_le _, ?_, rfl, rfl⟩
      rw [List.take_zero, List.append_nil]
      exact hs.1
    · rename_i hpay
      have hpay : cmd.hasPayload h.exp.extendedHeaders = false := by simpa using hpay
      split
      · exact .of_at ⟨nofun, nofun⟩ ⟨cmd, hh, hpay, hs, rfl⟩
      · refine .of_at ⟨nofun, nofun⟩ ⟨cmd, hh, ?_, hs.2⟩
        rw [Command.wire]
        simp only [hpay, Bool.false_eq_true, if_false, List.append_nil]
        exact hs.1

theorem enterIssueFinish_tx {h : Handle} {cmd : Command} (hh : h.AtHead cmd)
    (hs : WholeSent h cmd) : (enterIssueFinish h).All (TxPost h) := by
  unfold enterIssueFinish
  refine require_all fun _ => ?_
  split
  · trivial
  · rename_i cmd' rest hq
    obtain rfl := hh.eq hq
    refine require_all fun _ => .of_at ⟨nofun, nofun⟩ (.inl ⟨?_, hs.2⟩)
    have hone : issued [Event.issue cmd] = [cmd] := rfl
    simp only [Handle.issuedBytes, Handle.log, issued_append, hone, List.flatMap_append,
      List.flatMap_singleton]
    exact hs.1

theorem sending_tx {inp : Input} {h : Handle} (ht : TxAt h h.state)
    (hcond : ¬ (h.state = .issueStart ∧ h.tx.inWriteShutdown = true))
    (hs : h.state.isSending = true) : (enter inp h).All (TxPost h) := by
  cases hst : h.state <;> simp only [hst, State.isSending, Bool.false_eq_true] at hs <;>
    simp only [enter, hst] <;> rw [hst] at ht
  case start => exact .of_at (by simp [Handle.alive, hst]) (by rw [hst]; exact ht)
  case ready =>
    unfold enterReady
    split
    · exact .of_at ⟨(by simp), (by simp)⟩ ht
    · refine require_all fun _ => ite_all (fun _ => .of_at ⟨(by simp), (by simp)⟩ ht) fun _ => ?_
      exact .of_at (by simp [Handle.alive, hst]) (by rw [hst]; exact ht)
  case issueStart =>
    refine enterIssueStart_tx ht ?_
    by_contra hne
    exact hcond ⟨hst, by simpa using hne⟩
  case issueSendRequest =>
    obtain ⟨cmd, hh, hs⟩ := ht
    exact enterIssueSendRequest_tx hst hh hs
  case issuePauseSendRequest =>
    obtain ⟨cmd, hh, hs⟩ := ht
    refine require_all fun hwlen => require_all fun _ => .of_at ⟨(by simp), (by simp)⟩ ?_
    exact .inr ⟨cmd, hh, .inl ⟨hs, by simpa using hwlen, rfl⟩⟩
  case issuePrepareWritePayload =>
    obtain ⟨cmd, hh, hs⟩ := ht
    exact enterIssuePrepareWritePayload_tx hh hs
  case issueSendWritePayload =>
    obtain ⟨cmd, hh, hs⟩ := ht
    exact enterIssueSendWritePayload_tx hst hh hs
  case issuePauseWritePayload =>
    obtain ⟨cmd, hh, hs⟩ := ht
    refine require_all fun hwlen => require_all fun _ => .of_at ⟨(by simp), (by simp)⟩ ?_
    exact .inr ⟨cmd, hh, .inr (.inl ⟨hs, by simpa using hwlen, rfl⟩)⟩
  case issueSendWriteShutdown =>
    obtain ⟨cmd, hh, hs⟩ := ht
    unfold enterIssueSendWriteShutdown
    refine ite_all (fun _ => ?_) fun _ => ?_
    · refine .of_at ⟨(by simp), (by simp)⟩ ⟨cmd, hh, ?_, hs.2.1.2⟩
      rw [Command.wire]
      simp only [hs.1, Bool.false_eq_true, if_false, List.append_nil]
      exact hs.2.1.1
    · exact .of_at (by simp [Handle.alive, hst]) (by rw [hst]; exact ⟨cmd, hh, hs⟩)
  case issuePauseWriteShutdown =>
    obtain ⟨cmd, hh, hs⟩ := ht
    exact require_all fun _ => .of_at ⟨(by simp), (by simp)⟩ (.inr ⟨cmd, hh, .inr (.inr hs)⟩)

/-- Outside of `ISSUE_COMMAND` the phase is the same in every state. -/
theorem txAt_of_isReplying {h : Handle} {s s' : State} (ht : TxAt h s) (hs : s.isReceiving = true)
    (hs' : s'.isReplying = true) : TxAt h s' := by
  have hr : Remembered h := by
    cases s <;> first | exact ht | cases hs
  cases s' <;> first | exact hr | trivial

theorem receiving_tx {inp : Input} {h : Handle} (ht : TxAt h h.state) (hr : RxInv h)
    (hs : h.state.isReceiving = true) : (enter inp h).All (TxPost h) := by
  have hq := enter_quiet inp hs
  have hp := enter_post inp hr hs
  cases ho : enter inp h with
  | abort a => trivial
  | next h' | block h' | fail h' =>
    rw [ho] at hq hp
    obtain ⟨es, htr, hmid, -⟩ := Quiet.trace hq
    have hes : issued es = [] := (issued_accepted_eq_nil es fun e he => by
      obtain ⟨c, -, hm⟩ := hmid e he
      rw [hm]
      exact .inl nofun).1
    have hstill : Still h h' := ⟨hq.tx, hq.exp, by rw [htr, issued_append, hes, List.append_nil]⟩
    refine .of_still (fun _ => txAt_of_isReplying ht hs hp.side) hstill fun _ cmd hh => ?_
    rw [Handle.AtHead, hq.q]
    exact hh

theorem finishCommand_tx {inp : Input} {h : Handle} (ht : TxAt h h.state) (hinv : h.book.Inv)
    (hta : Tails h) (hs : h.state = .replyFinishCommand) :
    (enterReplyFinishCommand inp h).All (TxPost h) := by
  have hrem : Remembered h := by rwa [hs] at ht
  cases hf : Handle.findCmd h.replyCookie h.q.cmdsInFlight with
  | none =>
    unfold enterReplyFinishCommand
    simp only [hf]
    exact require_all fun _ => .of_at ⟨nofun, nofun⟩ hrem
  | some cmd =>
    obtain ⟨h', hfin, heq⟩ := finishCommand_ok inp hinv hta (alive_of_isMid (by rw [hs]; rfl)) hf
    obtain ⟨pre, post, cmd', retire, -, -, hb⟩ := hfin.book
    have htr : h'.trace = h.trace ++ _ := congrArg Book.trace hb
    have hiss : issued h'.trace = issued h.trace := by
      rw [htr, issued_append, (issued_settled cmd cmd.error retire).1, List.append_nil]
    have hframe := hfin.frame
    unfold DoneOnly at hframe
    rw [heq]
    refine require_all fun _ => require_all fun _ => ?_
    have hstill : Still h { h' with state := .ready } := by
      refine ⟨?_, ?_, hiss⟩
      · change h'.tx = h.tx
        rw [hframe]
        rfl
      · change h'.exp = h.exp
        rw [hframe]
        rfl
    refine .of_still (fun _ => hrem) hstill fun _ c hh => ?_
    change ∃ rest, h'.q.cmdsToIssue = c :: rest
    rw [hframe]
    exact hh

theorem abortAll_tx (inp : Input) {h : Handle} (hinv : h.book.Inv) (hta : Tails h)
    (hd : ¬ h.alive) : ∃ h', abortAll inp h = .ok h' ∧ TxPost h h' := by
  obtain ⟨h₁, h₂, h', hok₁, hok₂, hok, hdo, -, htr, -, -⟩ := abortAll_ok inp hinv hta
  have hiss : issued h'.trace = issued h.trace := by
    have e₁ := issued_of_passive (abortCommands_passive hok₁)
    have e₂ := issued_of_passive (abortCommands_passive hok₂)
    rw [htr]
    exact e₂.trans e₁
  unfold DoneOnly at hdo
  refine ⟨h', hok, fun ha => ?_, fun _ => ⟨?_, ?_, hiss⟩⟩
  · rw [hdo] at ha
    exact absurd ha hd
  · rw [hdo]
  · rw [hdo]

theorem enter_tx (inp : Input) {h : Handle} (ht : h.alive → TxAt h h.state)
    (hcond : ¬ (h.state = .issueStart ∧ h.tx.inWriteShutdown = true)) (hr : RxInv h)
    (hinv : h.book.Inv) (hta : Tails h) : (enter inp h).All (TxPost h) := by
  rcases h.state.kinds with hs | hs | hs | hs | hs
  · refine receiving_tx (ht ?_) hr hs
    constructor <;> (intro hd; rw [hd] at hs; cases hs)
  · refine sending_tx (ht ?_) hcond hs
    constructor <;> (intro hd; rw [hd] at hs; cases hs)
  · have ht := ht (by simp [Handle.alive, hs])
    rw [hs] at ht
    obtain ⟨cmd, hh, hw⟩ := ht
    simp only [enter, hs]
    exact enterIssueFinish_tx hh hw
  · simp only [enter, hs]
    exact finishCommand_tx (ht (by simp [Handle.alive, hs])) hinv hta hs
  · have hd : ¬ h.alive := by
      rintro ⟨h₁, h₂⟩
      tauto
    obtain ⟨h', hok, hp⟩ := abortAll_tx inp hinv hta hd
    rcases hs with hs | hs
    · simp only [enter, hs, enterDead, hok]
      exact require_all fun _ => hp
    · simp only [enter, hs, enterClosed, hok]
      exact hp

/-! ## Whole runs -/

theorem externalEvent_txAt {h : Handle} {ev : ExternalEvent} {s s' : State}
    (he : externalEvent ev s = some s') (ht : TxAt h s) : TxAt h s' := by
  cases ev <;> cases s <;> simp [externalEvent] at he <;> subst he <;> exact ht

theorem call_tx {c c' : Config} {inp : Input} {api : Api} {r : Int} (hg : Good c)
    (hctl : c.ctl = .idle r) (ht : c.h.alive → TxAt c.h c.h.state) (hclose : api ≠ .close)
    (hc : c' = apiCall inp { c.h with lastError := inp.lastError } api) : TxPost c.h c'.h := by
  have hf := apiCall_frame inp { c.h with lastError := inp.lastError } api hclose
  rw [← hc] at hf
  have hstill : Still c.h c'.h := ⟨hf.tx, hf.exp, hf.issued⟩
  constructor
  · intro ha'
    have ha : c.h.alive := hf.alive ha'
    -- nothing is queued in `READY`, so that no command is partially sent there
    by_cases hready : c.h.state = .ready
    · have hrest : Resting c.h := by
        have htr := ht ha
        rw [hready] at htr
        rcases htr with hr | ⟨cmd, ⟨rest, hq⟩, -⟩
        · exact hr
        · rw [hg.sound.idle r hctl hready] at hq
          cases hq
      have hrest' : Resting c'.h := by
        rw [Resting, hstill.tx, hstill.issuedBytes]
        exact hrest
      have htx : TxAt c'.h .ready := .inl hrest'
      rcases hf.state with hs | ⟨ev, hs⟩
      · have hs : c'.h.state = .ready := hs.trans hready
        rw [hs]
        exact htx
      · have hs : externalEvent ev c.h.state = some c'.h.state := hs
        rw [hready] at hs
        exact externalEvent_txAt hs htx
    · have htx : TxAt c'.h c.h.state := (ht ha).still hstill fun cmd ⟨rest, hq⟩ =>
        hf.head hready cmd rest hq
      rcases hf.state with hs | ⟨ev, hs⟩
      · have hs : c'.h.state = c.h.state := hs
        rw [hs]
        exact htx
      · exact externalEvent_txAt hs htx
  · intro _
    exact ⟨by rw [hstill.tx], hstill.exp, hstill.issued⟩

/-- The invariant of the sending side. -/
structure TxInv (c : Config) : Prop where
  good : Good c
  at_ : c.h.alive → TxAt c.h c.h.state
  order : c.h.book.InOrder
  ok : StreamOk c.h

theorem StreamOk.extend {h h' : Handle} (hok : StreamOk h) (hs : h'.tx.sent = h.tx.sent)
    (he : h'.exp = h.exp) (hi : issued h'.trace = issued h.trace)
    (ha : ∃ es, h'.trace = h.trace ++ es) : StreamOk h' := by
  obtain ⟨cmds, h₁, h₂, h₃, h₄, h₅, h₆⟩ := hok.stream
  obtain ⟨es, htr⟩ := ha
  have hb : h'.issuedBytes = h.issuedBytes := by
    rw [Handle.issuedBytes, hi, he]
    rfl
  refine ⟨cmds, by rw [hi]; exact h₁, by rw [hi]; exact h₂, ?_, h₄, by rw [hb, hs]; exact h₅,
    by rw [hs, he]; exact h₆⟩
  rw [htr, accepted_append]
  exact h₃.trans (List.sublist_append_left _ _)

/-- The next step takes up a shutdown of the sending side that was interrupted. -/
def ResumesShutdown (h : Handle) : Prop := h.state = .issueStart ∧ h.tx.inWriteShutdown = true

instance (h : Handle) : Decidable (ResumesShutdown h) := inferInstanceAs (Decidable (_ ∧ _))

theorem step_tx {c c' : Config} {l : Label} (ht : TxInv c) (hcond : ¬ ResumesShutdown c.h)
    (h : step c l = some c') : StreamOk c'.h ∧ (c'.ctl = .closed ∨ TxInv c') := by
  have htrace := step_trace_append ht.good.sound h
  -- every step but `nbd_close`
  have hfin : TxPost c.h c'.h → BookSteps c.h.book c'.h.book →
      StreamOk c'.h ∧ (c'.ctl = .closed ∨ TxInv c') := by
    intro hpost hsteps
    have horder := ht.order.steps hsteps
    have hinv := Book.inv_steps ht.good.sound.inv hsteps
    have hok : StreamOk c'.h := by
      by_cases ha : c'.h.alive
      · exact ((hpost.at_ ha).partSent ha.1 ha.2).streamOk hinv horder
      · obtain ⟨h₁, h₂, h₃⟩ := hpost.ended ha
        exact ht.ok.extend h₁ h₂ h₃ htrace
    exact ⟨hok, (step_good ht.good h).imp_right fun hg => ⟨hg, hpost.at_, horder, hok⟩⟩
  rcases step_closes_or_refines ht.good.sound h with ⟨inp, -, rfl⟩ | hr
  · exact ⟨ht.ok.extend rfl rfl (issued_of_passive (close_passive inp _)) htrace, .inl rfl⟩
  obtain ⟨inp, k, -, -, rfl⟩ | ⟨api, inp, r, rfl, hctl, he⟩ := step_cases h
  · refine hfin (stepEnter_all k (enter_tx inp ht.at_ hcond ht.good.rx ht.good.sound.inv
      ht.good.sound.tails) ⟨ht.at_, fun _ => ⟨rfl, rfl, rfl⟩⟩ ?_) hr.steps
    intro h' d hp
    exact ⟨fun ha => (hp.at_ ha).still ⟨rfl, rfl, rfl⟩ fun _ hh => hh, hp.ended⟩
  · by_cases hclose : api = .close
    · subst hclose
      subst he
      exact ⟨ht.ok.extend rfl rfl (issued_of_passive (close_passive inp _)) htrace, .inl rfl⟩
    · exact hfin (call_tx ht.good hctl ht.at_ hclose he) hr.steps

theorem initial_tx {c : Config} (h : Initial c) : TxInv c := by
  refine ⟨initial_good h, ?_, ?_, ?_⟩ <;> obtain ⟨exp, strict, pi, hdr, payload, mem, rfl⟩ := h
  · exact fun _ => .inl ⟨rfl, rfl⟩
  · exact .refl _
  · exact ⟨[], List.prefix_refl _, Nat.zero_le _, .refl _, .nil, List.prefix_refl _,
      List.prefix_refl _⟩

/-- **Request stream refinement**, in every run in which no interrupted shutdown
is taken up again. -/
theorem stream_unless_shutdown_resumed {c : Config}
    (h : machine.ReachableBy (fun c _ => ¬ ResumesShutdown c.h) c) :
    ∃ cmds, issued c.h.trace <+: cmds ∧ cmds.length ≤ (issued c.h.trace).length + 1 ∧
      cmds.Sublist (accepted c.h.trace) ∧ (cmds.map Command.cookie).Nodup ∧
      c.h.issuedBytes <+: c.h.tx.sent ∧
      c.h.tx.sent <+: cmds.flatMap (Command.wire c.h.exp.extendedHeaders) := by
  have key : StreamOk c.h ∧ (c.ctl = .closed ∨ TxInv c) := by
    refine machine.reachableBy_invariant
      (P := fun c => StreamOk c.h ∧ (c.ctl = .closed ∨ TxInv c)) ?_ ?_ h
    · intro c hc
      exact ⟨(initial_tx hc).ok, .inr (initial_tx hc)⟩
    · intro c l c' hc hcond hstep
      rcases hc with ⟨-, hc | ht⟩
      · cases l <;> simp [machine, step, hc] at hstep
      · exact step_tx ht hcond hstep
  exact key.1.stream

/-- A write whose payload is interrupted after two bytes by a notification, and
finished afterwards. -/
def interruptedWrite : List Label :=
  [Label.call (.command (.aioPwrite (some [1, 2, 3, 4]) 4 0 .null 0)) .calm, .enter .calm, .enter .calm,
   .enter .calm, .enter { Input.calm with send := .sent 2 }, .call .aioNotifyRead .calm,
   .enter .calm, .enter .calm, .call .aioNotifyRead .calm] ++ List.replicate 4 (Label.enter .calm) ++
  [Label.call .aioNotifyWrite .calm, .enter .calm]

theorem interrupted_write_stream :
    ∃ c, machine.exec .calm interruptedWrite = some c ∧ c.h.state = .issueFinish ∧
      c.h.tx.sent.length = 32 ∧
      ∃ cmds : List Command, cmds.Sublist (accepted c.h.trace) ∧
        c.h.tx.sent <+: cmds.flatMap (Command.wire false) := by
  have hrun : (machine.exec .calm interruptedWrite).map (fun c =>
      (c.h.state, c.h.tx.sent.length, c.h.exp.extendedHeaders)) =
      some (.issueFinish, 32, false) := by decide +kernel
  obtain ⟨c, hc, hp⟩ := Option.map_eq_some_iff.mp hrun
  simp only [Prod.mk.injEq] at hp
  have hmeets : machine.Meets (fun c _ => ¬ ResumesShutdown c.h) .calm interruptedWrite :=
    machine.meets_of_check (by decide +kernel)
  obtain ⟨cmds, -, -, hsub, -, -, hsent⟩ :=
    stream_unless_shutdown_resumed ⟨_, _, Config.initial_calm, hmeets, hc⟩
  rw [hp.2.2] at hsent
  exact ⟨c, hc, hp.1, hp.2.1, cmds, hsub, hsent⟩

/-- `NBD_CMD_DISC` is sent, the shutdown would block, and a notification
interrupts it. -/
def interruptedShutdown : List Label :=
  [Label.call (.aioDisconnect 0) .calm, .enter .calm, .enter .calm, .enter .calm,
   .enter { Input.calm with shutWrites := false }, .call .aioNotifyRead .calm, .enter .calm,
   .enter .calm, .call .aioNotifyRead .calm] ++ List.replicate 5 (Label.enter .calm)

/-- The header of the one command is sent twice. -/
theorem disc_sent_twice :
    ¬ ∀ c, machine.Reachable c → ∃ cmds : List Command, cmds.Sublist (accepted c.h.trace) ∧
      c.h.tx.sent <+: cmds.flatMap (Command.wire c.h.exp.extendedHeaders) := by
  intro hall
  have hrun : (machine.exec .calm interruptedShutdown).map (fun c =>
      (c.h.tx.sent.length,
        ((accepted c.h.trace).flatMap (Command.wire c.h.exp.extendedHeaders)).length)) =
      some (56, 28) := by decide +kernel
  obtain ⟨c, hc, hp⟩ := Option.map_eq_some_iff.mp hrun
  simp only [Prod.mk.injEq] at hp
  obtain ⟨cmds, hsub, hsent⟩ := hall c ⟨_, _, Config.initial_calm, hc⟩
  have h₁ := hsent.length_le
  have h₂ := (hsub.flatMap (Command.wire c.h.exp.extendedHeaders)).length_le
  omega

end Libnbd
