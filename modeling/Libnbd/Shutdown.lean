import Libnbd.Ownership
import Libnbd.Polling
import Libnbd.Stream

/-!
What `nbd_shutdown` has arranged when it starts to wait.

It waits until the connection is closed or dead, so `NBD_CMD_DISC` must be on
its way. The code infers from `disconnect_request` that the command is queued
already, and from the state that the head of the queue is partially sent.
-/

namespace Libnbd

open Lib

/-- The connection has ended, or `NBD_CMD_DISC` is queued or has been sent. -/
def Requested (h : Handle) : Prop :=
  h.state = .closed ∨ h.state = .dead ∨ (∃ cmd ∈ h.q.cmdsToIssue, cmd.type = .disc) ∨
    ∃ cmd ∈ issued h.trace, cmd.type = .disc

/-- Some byte of `cmd` has been sent, but not all of it: it is at the head of the
queue, and more has been sent than the commands issued so far consist of. -/
def Started (h : Handle) (cmd : Command) : Prop :=
  h.AtHead cmd ∧ h.issuedBytes.length < h.tx.sent.length

/-- In runs that keep the request stream intact these bytes are the first ones of
the command. -/
theorem Started.partSent {c : Config} (ht : TxInv c) (ha : c.h.alive) {cmd : Command}
    (hs : Started c.h cmd) : ∃ p, p ≠ [] ∧ p <+: cmd.wire c.h.exp.extendedHeaders ∧
      c.h.tx.sent = c.h.issuedBytes ++ p := by
  obtain ⟨⟨rest, hq⟩, hlt⟩ := hs
  rcases TxAt.partSent ha.1 ha.2 (ht.at_ ha) with heq | ⟨cmd', p, ⟨rest', hq'⟩, hp, heq⟩
  · rw [heq] at hlt
    exact absurd hlt (Nat.lt_irrefl _)
  · rw [hq] at hq'
    cases hq'
    refine ⟨p, ?_, hp, heq⟩
    rintro rfl
    rw [heq, List.append_nil] at hlt
    exact absurd hlt (Nat.lt_irrefl _)

/-- Nothing gets lost from the queue but by being issued. -/
structure Carries (h h' : Handle) : Prop where
  queue : ∀ cmd ∈ h.q.cmdsToIssue, cmd ∈ h'.q.cmdsToIssue ∨ cmd ∈ issued h'.trace
  trace : ∃ es, h'.trace = h.trace ++ es

theorem Carries.requested {h h' : Handle} (hc : Carries h h') (ha : h.alive)
    (hr : Requested h) : Requested h' := by
  obtain ⟨es, htr⟩ := hc.trace
  rcases hr with hs | hs | ⟨cmd, hmem, hd⟩ | ⟨cmd, hmem, hd⟩
  · exact absurd hs ha.2
  · exact absurd hs ha.1
  · rcases hc.queue cmd hmem with h | h
    · exact .inr (.inr (.inl ⟨cmd, h, hd⟩))
    · exact .inr (.inr (.inr ⟨cmd, h, hd⟩))
  · refine .inr (.inr (.inr ⟨cmd, ?_, hd⟩))
    rw [htr, issued_append]
    exact List.mem_append_left _ hmem

theorem Carries.same {h h' : Handle} (hq : h'.q.cmdsToIssue = h.q.cmdsToIssue)
    (htr : ∃ es, h'.trace = h.trace ++ es) : Carries h h' where
  queue := fun _ hmem => .inl (hq ▸ hmem)
  trace := htr

/-! ## The run loop -/

theorem accepted_of_ending {t t' : List Event} (h : Ending t t') : accepted t' = accepted t := by
  obtain ⟨es, rfl, hes⟩ := h
  have hnil : accepted es = [] := by
    refine List.filterMap_eq_nil_iff.mpr fun e he => ?_
    have := hes e he
    cases e <;> first | rfl | cases this
  rw [accepted_append, hnil, List.append_nil]

theorem abortCommands_accepted {inp : Input} {cmds : List Command} {h h' : Handle}
    (hok : abortCommands inp h cmds = .ok h') : accepted h'.trace = accepted h.trace :=
  accepted_of_ending (abortCommands_ending hok)

/-- What an iteration of the run loop means for a disconnection. -/
structure Proceeds (h h' : Handle) : Prop where
  requested : Requested h → Requested h'
  disc : h'.disconnectRequest = h.disconnectRequest
  accepted : accepted h'.trace = accepted h.trace

theorem abortAll_proceeds {inp : Input} {h h' : Handle} (hinv : h.book.Inv) (ht : Tails h)
    (hs : h.state = .dead ∨ h.state = .closed) (hok : abortAll inp h = .ok h') :
    Proceeds h h' := by
  obtain ⟨h₁, h₂, h₃, hok₁, hok₂, hok₃, hdo, -, htr, -⟩ := abortAll_ok inp hinv ht
  obtain rfl : h₃ = h' := Except.ok.inj (hok₃.symm.trans hok)
  have hst : h₃.state = h.state := by rw [hdo]
  refine ⟨fun _ => ?_, by rw [hdo], ?_⟩
  · rcases hs with hs | hs
    · exact .inr (.inl (hst.trans hs))
    · exact .inl (hst.trans hs)
  · have hacc := abortCommands_accepted hok₁
    rw [htr, abortCommands_accepted hok₂]
    exact hacc

theorem enter_proceeds (inp : Input) {h : Handle} (hinv : h.book.Inv) (ht : Tails h) :
    (enter inp h).All (Proceeds h) := by
  have halive : ∀ {s : State}, h.state = s → s ≠ .dead → s ≠ .closed → h.alive :=
    fun hs hd hc => ⟨fun h => hd (hs.symm.trans h), fun h => hc (hs.symm.trans h)⟩
  rcases h.state.kinds with hs | hs | hs | hs | hs | hs
  · refine (enter_quiet inp hs).mono fun h' hq => ?_
    obtain ⟨es, htr, hes, -⟩ := hq.trace
    have ha : h.alive := by
      refine halive rfl ?_ ?_ <;> (intro he; rw [he] at hs; cases hs)
    refine ⟨(Carries.same (by rw [hq.q]) ⟨es, htr⟩).requested ha, hq.disconnectRequest, ?_⟩
    obtain ⟨-, hnil⟩ := issued_accepted_eq_nil es fun e he => by
      obtain ⟨c, -, hm⟩ := hes e he
      rw [hm]
      exact .inl (by simp)
    rw [htr, accepted_append, hnil, List.append_nil]
  · refine (enter_sends inp hs).mono fun h' hq => ?_
    have ha : h.alive := by
      refine halive rfl ?_ ?_ <;> (intro he; rw [he] at hs; cases hs)
    refine ⟨(Carries.same ?_ ⟨[], ?_⟩).requested ha, ?_, ?_⟩ <;> rw [hq.eq]
    rw [List.append_nil]
  · simp only [enter, hs, enterIssueFinish]
    refine require_all fun _ => ?_
    split
    · trivial
    · rename_i cmd rest hq
      refine require_all fun _ => ⟨fun hr => ?_, rfl, ?_⟩
      · refine Carries.requested (h := h) ⟨fun c hc => ?_, ⟨_, rfl⟩⟩ (halive hs (by simp) (by simp)) hr
        rw [hq] at hc
        rcases List.mem_cons.mp hc with rfl | hc
        · right
          simp [Handle.log, issued]
        · exact .inl hc
      · simp only [Handle.log, accepted_append]
        exact List.append_nil _
  · simp only [enter, hs]
    cases hf : Handle.findCmd h.replyCookie h.q.cmdsInFlight with
    | none =>
      unfold enterReplyFinishCommand
      simp only [hf]
      refine require_all fun _ => ⟨fun hr => ?_, rfl, rfl⟩
      exact Carries.requested (h := h) (.same rfl ⟨[], (List.append_nil _).symm⟩)
        (halive hs (by simp) (by simp)) hr
    | some cmd =>
      obtain ⟨h', hfin, heq⟩ := finishCommand_ok inp hinv ht (halive hs (by simp) (by simp)) hf
      rw [heq]
      refine require_all fun _ => require_all fun _ => ?_
      obtain ⟨pre, post, cmd', retire, -, -, hb⟩ := hfin.book
      have htr : h'.trace = _ := congrArg Book.trace hb
      refine ⟨Carries.requested (h := h) (.same ?_ ⟨_, htr⟩) (halive hs (by simp) (by simp)), ?_, ?_⟩
      · show h'.q.cmdsToIssue = h.q.cmdsToIssue
        rw [hfin.frame]
        rfl
      · show h'.disconnectRequest = h.disconnectRequest
        rw [hfin.frame]
        rfl
      · show accepted h'.trace = accepted h.trace
        rw [htr]
        simp only [Book.settle, accepted_append, (issued_settled cmd cmd.error retire).2]
        exact List.append_nil _
  · obtain ⟨-, -, h', -, -, hok, -⟩ := abortAll_ok inp hinv ht
    simp only [enter, hs, enterDead, hok]
    exact require_all fun _ => abortAll_proceeds hinv ht (.inl hs) hok
  · obtain ⟨-, -, h', -, -, hok, -⟩ := abortAll_ok inp hinv ht
    simp only [enter, hs, enterClosed, hok]
    exact abortAll_proceeds hinv ht (.inr hs) hok

/-! ## API calls -/

/-- A submission keeps the queue, the state and `disconnect_request`. -/
structure SubmitKeeps (h h' : Handle) : Prop where
  state : h'.state = h.state
  disc : h'.disconnectRequest = h.disconnectRequest
  carries : Carries h h'

theorem SubmitKeeps.of_eq {h h' : Handle} (hs : h'.state = h.state)
    (hd : h'.disconnectRequest = h.disconnectRequest) (hq : h'.q = h.q)
    (htr : ∃ es, h'.trace = h.trace ++ es) : SubmitKeeps h h' :=
  ⟨hs, hd, .same (by rw [hq]) htr⟩

theorem SubmitKeeps.trans {h h₁ h₂ : Handle} (h₁₂ : SubmitKeeps h h₁) (h₂₃ : SubmitKeeps h₁ h₂) :
    SubmitKeeps h h₂ := by
  obtain ⟨es, htr⟩ := h₁₂.carries.trace
  obtain ⟨fs, htr'⟩ := h₂₃.carries.trace
  refine ⟨h₂₃.state.trans h₁₂.state, h₂₃.disc.trans h₁₂.disc, fun cmd hmem => ?_,
    es ++ fs, by rw [htr', htr, List.append_assoc]⟩
  rcases h₁₂.carries.queue cmd hmem with h | h
  · exact h₂₃.carries.queue cmd h
  · right
    rw [htr', issued_append]
    exact List.mem_append_left _ h

theorem SubmitKeeps.requested {h h' : Handle} (hk : SubmitKeeps h h') (hr : Requested h) :
    Requested h' := by
  by_cases ha : h.alive
  · exact hk.carries.requested ha hr
  · simp only [Handle.alive, not_and_or, not_not] at ha
    rcases ha with hs | hs
    · exact .inr (.inl (hk.state.trans hs))
    · exact .inl (hk.state.trans hs)

/-- How a submission ends for the queue: `r` says which command was queued. -/
def Submit.Keeps (h : Handle) (queued : Command → Prop) : Submit → Prop
  | .refused h' | .rejected h' => SubmitKeeps h h'
  | .accepted h' _ => SubmitKeeps h h' ∧ ∃ cmd ∈ h'.q.cmdsToIssue, queued cmd
  | .abort _ => True

theorem commandCommon_keeps (inp : Input) {h : Handle} {r : Request} (hinv : h.book.Inv)
    (ht : Tails h) (hconn : h.state.isConnected = true) (hi : Idle h) :
    (commandCommon inp h r).Keeps h (· = r.command h) := by
  unfold commandCommon
  split
  · exact .of_eq rfl rfl rfl ⟨_, rfl⟩
  · rw [enqueue_eq _ hinv ht hconn hi]
    refine ⟨⟨rfl, rfl, fun cmd hmem => .inl (List.mem_append_left _ hmem), _, rfl⟩, _, ?_, rfl⟩
    exact List.mem_append_right _ List.mem_cons_self

theorem connected_of_callError {inp : Input} {h : Handle} {call : Call}
    (hok : callError inp h call = none) : h.state.isConnected = true := by
  by_contra hne
  unfold callError at hok
  rw [if_pos (by simpa using hne)] at hok
  cases hok

theorem submit_keeps (inp : Input) {h : Handle} (call : Call) (hinv : h.book.Inv) (ht : Tails h)
    (hi : Idle h) : (submit inp h call).Keeps h fun _ => True := by
  obtain ⟨m, hm⟩ := sanitize_eq h call
  unfold submit
  simp only [hm]
  split
  · exact .of_eq rfl rfl rfl ⟨_, rfl⟩
  · rename_i hok
    have hconn := connected_of_callError hok
    have hk := commandCommon_keeps inp (h := { h with mem := m })
      (r := callRequest { h with mem := m } call) hinv ⟨ht.toIssue, ht.done⟩ hconn hi
    generalize commandCommon inp { h with mem := m } (callRequest { h with mem := m } call) = t
      at hk ⊢
    have hmem : SubmitKeeps h { h with mem := m } := .of_eq rfl rfl rfl ⟨[], (List.append_nil _).symm⟩
    cases t with
    | refused h' | rejected h' => exact hmem.trans hk
    | accepted h' run =>
      obtain ⟨hk, cmd, hcmd, -⟩ := hk
      exact ⟨hmem.trans hk, cmd, hcmd, trivial⟩
    | abort a => trivial

theorem aioDisconnect_keeps (inp : Input) {h : Handle} (flags : UInt32) (hinv : h.book.Inv)
    (ht : Tails h) (hi : Idle h) : (aioDisconnect inp h flags).Keeps h (·.type = .disc) := by
  unfold aioDisconnect
  split
  · exact .of_eq rfl rfl rfl ⟨[], (List.append_nil _).symm⟩
  · rename_i hconn
    split
    · exact .of_eq rfl rfl rfl ⟨[], (List.append_nil _).symm⟩
    · have hk := commandCommon_keeps inp (r := discRequest flags) hinv ht
        (by simpa using hconn) hi
      generalize commandCommon inp h (discRequest flags) = t at hk ⊢
      cases t with
      | refused h' | rejected h' => exact hk
      | accepted h' run =>
        obtain ⟨hk, cmd, hcmd, rfl⟩ := hk
        exact ⟨hk, _, hcmd, rfl⟩
      | abort a => trivial

/-- The head of the queue is partially sent, and `NBD_CMD_DISC` is not queued
behind it. -/
def AbandonOk (h : Handle) : Prop :=
  match h.q.cmdsToIssue with
  | [] => False
  | _ :: rest => h.issuedBytes.length < h.tx.sent.length ∧ ∀ cmd ∈ rest, cmd.type ≠ .disc

instance (h : Handle) : Decidable (AbandonOk h) := by
  unfold AbandonOk
  split <;> infer_instance

/-- A shutdown that abandons commands finds the handle `READY` or `AbandonOk`. -/
def ShutsDown (c : Config) : Label → Prop
  | .call (.shutdown flags) _ => c.h.state.isConnected = true →
      flags &&& (0xffffffff ^^^ shutdownAbandonPending) = 0 →
      hasFlag flags shutdownAbandonPending = true → c.h.state ≠ .ready → AbandonOk c.h
  | _ => True

instance (c : Config) (l : Label) : Decidable (ShutsDown c l) := by
  unfold ShutsDown
  split <;> infer_instance

/-- What is abandoned while `AbandonOk` contains no `NBD_CMD_DISC`. -/
theorem abandonPending_keeps {inp : Input} {h h' : Handle} (hi : Idle h)
    (hab : h.state ≠ .ready → AbandonOk h) (hok : abandonPending inp h = .ok h') :
    h'.state = h.state ∧ h'.disconnectRequest = h.disconnectRequest ∧
      (Requested h → Requested h') := by
  unfold abandonPending at hok
  split at hok
  · rename_i hr
    rw [hi hr] at hok
    cases hok
    exact ⟨rfl, rfl, SubmitKeeps.requested (h := h) (.of_eq rfl rfl (by rw [← hi hr])
      ⟨[], (List.append_nil _).symm⟩)⟩
  · rename_i hr
    have hab' := hab hr
    unfold AbandonOk at hab'
    split at hok
    · cases hok
    · rename_i cmd rest hq
      rw [hq] at hab'
      have hdo := abortCommands_doneOnly hok
      obtain ⟨es, htr, -⟩ := abortCommands_passive hok
      refine ⟨by rw [hdo], by rw [hdo], ?_⟩
      rintro (hs | hs | ⟨d, hmem, hd⟩ | ⟨d, hmem, hd⟩)
      · exact .inl (by rw [hdo]; exact hs)
      · exact .inr (.inl (by rw [hdo]; exact hs))
      · rw [hq] at hmem
        rcases List.mem_cons.mp hmem with rfl | hmem
        · refine .inr (.inr (.inl ⟨d, ?_, hd⟩))
          rw [hdo]
          exact List.mem_cons_self
        · exact absurd hd (hab'.2 d hmem)
      · refine .inr (.inr (.inr ⟨d, ?_, hd⟩))
        rw [htr, issued_append]
        exact List.mem_append_left _ hmem

/-- `nbd_shutdown` after its first part: `NBD_CMD_DISC` is arranged for. -/
theorem shutdown_requested {inp : Input} {h h' : Handle} {flags : UInt32} {run : Bool}
    (hinv : h.book.Inv) (ht : Tails h) (hi : Idle h)
    (hab : h.state.isConnected = true → flags &&& (0xffffffff ^^^ shutdownAbandonPending) = 0 →
      hasFlag flags shutdownAbandonPending = true → h.state ≠ .ready → AbandonOk h)
    (hreq : h.disconnectRequest = true → Requested h)
    (hacc : shutdown inp h flags = .accepted h' run) : Requested h' := by
  unfold shutdown at hacc
  split at hacc
  · cases hacc
  · rename_i hconn
    have hconn' : h.state.isConnected = true := by simpa using hconn
    split at hacc
    · cases hacc
    · rename_i hvalid
      split at hacc
      · cases hacc
      · rename_i h₁ hok
        have hfirst : h₁.state = h.state ∧ h₁.disconnectRequest = h.disconnectRequest ∧
            (Requested h → Requested h₁) ∧ h₁.book.Inv ∧ Tails h₁ ∧ Idle h₁ := by
          split at hok
          · rename_i hf
            obtain ⟨h₂, h₃, h₄⟩ := abandonPending_keeps hi (hab hconn' (by simpa using hvalid) hf) hok
            obtain ⟨hd, hi'⟩ := abandonPending_did inp hinv ht hi hok
            exact ⟨h₂, h₃, h₄, Book.inv_steps hinv hd.steps, hd.tails, hi'⟩
          · cases hok
            exact ⟨rfl, rfl, id, hinv, ht, hi⟩
        obtain ⟨hs, hd, hr, hinv₁, ht₁, hi₁⟩ := hfirst
        split at hacc
        · rename_i hdisc
          cases hacc
          exact hr (hreq (hd ▸ hdisc))
        · have hk := commandCommon_keeps inp (r := discRequest 0) hinv₁ ht₁
            (by rw [hs]; exact hconn') hi₁
          rw [hacc] at hk
          obtain ⟨-, cmd, hcmd, rfl⟩ := hk
          exact .inr (.inr (.inl ⟨_, hcmd, rfl⟩))

/-- What a submission accepts: nothing after `NBD_CMD_DISC`, and at most one
command, which satisfies `P`. -/
def Submit.AcceptsOnce (h : Handle) (P : Command → Prop) : Submit → Prop
  | .refused h' | .rejected h' => Libnbd.accepted h'.trace = Libnbd.accepted h.trace ∧
    h'.disconnectRequest = h.disconnectRequest
  | .accepted h' _ => h'.disconnectRequest = h.disconnectRequest ∧
    (h.disconnectRequest = true ∧ Libnbd.accepted h'.trace = Libnbd.accepted h.trace ∨
      h.disconnectRequest = false ∧
        ∃ cmd, P cmd ∧ Libnbd.accepted h'.trace = Libnbd.accepted h.trace ++ [cmd])
  | .abort _ => True

theorem accepted_reject (h : Handle) (fn completion : Closure) :
    accepted (h.trace ++ rejectEvents fn completion) = accepted h.trace := by
  obtain ⟨-, hnil⟩ := issued_accepted_eq_nil (rejectEvents fn completion)
    fun e he => .inr (rejectEvents_mem e he)
  rw [accepted_append, hnil, List.append_nil]

theorem commandCommon_acceptsOnce (inp : Input) {h : Handle} {r : Request} (hinv : h.book.Inv)
    (ht : Tails h) (hconn : h.state.isConnected = true) (hi : Idle h) :
    (commandCommon inp h r).AcceptsOnce h
      fun cmd => r.error h inp.alloc = none ∧ cmd = r.command h := by
  unfold commandCommon
  split
  · exact ⟨accepted_reject h _ _, rfl⟩
  · rename_i hok
    have hd : h.disconnectRequest = false := by
      by_contra hne
      unfold Request.error at hok
      rw [if_pos (Bool.of_not_eq_false hne)] at hok
      cases hok
    rw [enqueue_eq _ hinv ht hconn hi]
    refine ⟨rfl, .inr ⟨hd, r.command h, ⟨hok, rfl⟩, ?_⟩⟩
    simp only [Handle.log, accepted_append]
    rfl

theorem callRequest_type (h : Handle) (call : Call) : (callRequest h call).type ≠ .disc := by
  cases call <;> nofun

/-- The command that `call` makes when nothing is wrong with it. -/
def Call.Makes (inp : Input) (h : Handle) (call : Call) (cmd : Command) : Prop :=
  callError inp h call = none ∧ (callRequest h call).error h inp.alloc = none ∧
    cmd = (callRequest h call).command h

theorem submit_acceptsOnce {inp : Input} {h : Handle} (call : Call) (hinv : h.book.Inv)
    (ht : Tails h) (hi : Idle h) :
    (submit inp h call).AcceptsOnce h (call.Makes inp (sanitize h call)) := by
  obtain ⟨m, hm⟩ := sanitize_eq h call
  unfold submit
  simp only [hm]
  split
  · exact ⟨accepted_reject h _ _, rfl⟩
  · rename_i hok
    have hconn := connected_of_callError hok
    have ha := commandCommon_acceptsOnce inp (h := { h with mem := m })
      (r := callRequest { h with mem := m } call) hinv ⟨ht.toIssue, ht.done⟩ hconn hi
    generalize commandCommon inp { h with mem := m } (callRequest { h with mem := m } call) = t
      at ha ⊢
    cases t with
    | refused h' | rejected h' => exact ha
    | accepted h' run =>
      refine ⟨ha.1, ha.2.imp id ?_⟩
      rintro ⟨hd, cmd, ⟨herr, rfl⟩, hacc⟩
      exact ⟨hd, _, ⟨hok, herr, rfl⟩, hacc⟩
    | abort a => trivial

theorem aioDisconnect_acceptsOnce {inp : Input} {h : Handle} (flags : UInt32) (hinv : h.book.Inv)
    (ht : Tails h) (hi : Idle h) : (aioDisconnect inp h flags).AcceptsOnce h fun _ => True := by
  unfold aioDisconnect
  split
  · exact ⟨rfl, rfl⟩
  · rename_i hconn
    split
    · exact ⟨rfl, rfl⟩
    · have ha := commandCommon_acceptsOnce inp (r := discRequest flags) hinv ht
        (by simpa using hconn) hi
      generalize commandCommon inp h (discRequest flags) = t at ha ⊢
      cases t with
      | refused h' | rejected h' => exact ha
      | accepted h' run =>
        exact ⟨ha.1, ha.2.imp id fun ⟨hd, cmd, _, hacc⟩ => ⟨hd, cmd, trivial, hacc⟩⟩
      | abort a => trivial

/-- The first part of `nbd_shutdown` accepts nothing. -/
theorem abandon_first {inp : Input} {h h₁ : Handle} {flags : UInt32} (hinv : h.book.Inv)
    (ht : Tails h) (hi : Idle h)
    (hok : (if hasFlag flags shutdownAbandonPending then abandonPending inp h else .ok h) = .ok h₁) :
    h₁.state = h.state ∧ h₁.disconnectRequest = h.disconnectRequest ∧
      accepted h₁.trace = accepted h.trace ∧ h₁.book.Inv ∧ Tails h₁ ∧ Idle h₁ := by
  split at hok
  · obtain ⟨hd, hi'⟩ := abandonPending_did inp hinv ht hi hok
    refine ⟨hd.state, ?_, ?_, Book.inv_steps hinv hd.steps, hd.tails, hi'⟩
    · unfold abandonPending at hok
      split at hok
      · rw [abortCommands_doneOnly hok]
      · split at hok
        · cases hok
        · rw [abortCommands_doneOnly hok]
    · unfold abandonPending at hok
      split at hok
      · have hacc := abortCommands_accepted hok
        exact hacc
      · split at hok
        · cases hok
        · have hacc := abortCommands_accepted hok
          exact hacc
  · cases hok
    exact ⟨rfl, rfl, rfl, hinv, ht, hi⟩

theorem shutdown_acceptsOnce {inp : Input} {h : Handle} (flags : UInt32) (hinv : h.book.Inv)
    (ht : Tails h) (hi : Idle h) : (shutdown inp h flags).AcceptsOnce h fun _ => True := by
  unfold shutdown
  split
  · exact ⟨rfl, rfl⟩
  · rename_i hconn
    split
    · exact ⟨rfl, rfl⟩
    · split
      · trivial
      · rename_i h₁ hok
        obtain ⟨hs, hd, hacc, hinv₁, ht₁, hi₁⟩ := abandon_first hinv ht hi hok
        split
        · rename_i hdisc
          exact ⟨hd, .inl ⟨hd ▸ hdisc, hacc⟩⟩
        · have ha := commandCommon_acceptsOnce inp (r := discRequest 0) hinv₁ ht₁
            (by rw [hs]; simpa using hconn) hi₁
          generalize commandCommon inp h₁ (discRequest 0) = t at ha ⊢
          cases t with
          | refused h' | rejected h' => exact ⟨ha.1.trans hacc, ha.2.trans hd⟩
          | accepted h' run =>
            refine ⟨ha.1.trans hd, ?_⟩
            rw [← hd, ← hacc]
            exact ha.2.imp id fun ⟨hd, cmd, _, hacc⟩ => ⟨hd, cmd, trivial, hacc⟩
          | abort a => trivial

/-! ## Runs -/

/-- Once `disconnect_request` is set, or about to be set, `NBD_CMD_DISC` is
arranged for. -/
def Arranged (c : Config) : Prop :=
  c.h.disconnectRequest = true ∨ c.ctl = .running .disconnect → Requested c.h

/-- At most one `NBD_CMD_DISC` is ever accepted, and `disconnect_request` tells. -/
structure DiscOnce (c : Config) : Prop where
  once : ((accepted c.h.trace).filter fun d => decide (d.type = .disc)).length ≤ 1
  said : (∃ d ∈ accepted c.h.trace, d.type = .disc) →
    c.h.disconnectRequest = true ∨ c.ctl = .running .disconnect ∨ ∃ a, c.ctl = .aborted a

theorem Requested.congr {h h' : Handle} (hr : Requested h)
    (hs : h'.state = h.state ∨ h.alive) (hq : h'.q = h.q) (htr : h'.trace = h.trace) :
    Requested h' := by
  unfold Requested at hr ⊢
  rw [hq, htr]
  rcases hs with hs | ha
  · rwa [hs]
  · rcases hr with h | h | h
    · exact absurd h ha.2
    · exact absurd h ha.1
    · exact .inr (.inr h)

theorem stepEnter_proceeds (inp : Input) (k : After) {h : Handle} (hinv : h.book.Inv)
    (ht : Tails h) :
    (∃ h', Proceeds h h' ∧ stepEnter inp k h = ⟨h', .running k⟩) ∨
    (∃ h' r, Proceeds h h' ∧ stepEnter inp k h = afterRun k r h') ∨
    ∃ a, stepEnter inp k h = ⟨h, .aborted a⟩ := by
  have hp := enter_proceeds inp hinv ht
  unfold stepEnter
  cases ho : enter inp h with
  | next h' =>
    rw [ho] at hp
    exact .inl ⟨h', hp, rfl⟩
  | block h' =>
    rw [ho] at hp
    exact .inr (.inl ⟨h', 0, hp, rfl⟩)
  | fail h' =>
    rw [ho] at hp
    exact .inr (.inl ⟨h', -1, hp, rfl⟩)
  | abort a => exact .inr (.inr ⟨a, rfl⟩)

theorem stepEnter_arranged {inp : Input} {c : Config} {k : After} (hs : Sound c)
    (hctl : c.ctl = .running k) (ha : Arranged c) : Arranged (stepEnter inp k c.h) := by
  obtain ⟨h', hp, he⟩ | ⟨h', r, hp, he⟩ | ⟨a, he⟩ := stepEnter_proceeds inp k hs.inv hs.tails
  · rw [he]
    rintro (hd | hk)
    · exact hp.requested (ha (.inl (hp.disc ▸ hd)))
    · exact hp.requested (ha (.inr (hctl.trans hk)))
  · rw [he]
    cases k with
    | command | notify =>
      rintro (hd | hk)
      · exact hp.requested (ha (.inl (hp.disc ▸ hd)))
      · cases hk
    | disconnect =>
      intro _
      exact (hp.requested (ha (.inr hctl))).congr (.inl rfl) rfl rfl
  · rw [he]
    rintro (hd | hk)
    · exact ha (.inl hd)
    · cases hk

theorem stepEnter_discOnce {inp : Input} {c : Config} {k : After} (hs : Sound c)
    (hctl : c.ctl = .running k) (ho : DiscOnce c) : DiscOnce (stepEnter inp k c.h) := by
  have hsaid : (∃ d ∈ accepted c.h.trace, d.type = .disc) →
      c.h.disconnectRequest = true ∨ k = .disconnect := by
    intro hd
    rcases ho.said hd with h | h | ⟨a, h⟩
    · exact .inl h
    · exact .inr (Control.running.inj (hctl.symm.trans h))
    · rw [hctl] at h
      cases h
  obtain ⟨h', hp, he⟩ | ⟨h', r, hp, he⟩ | ⟨a, he⟩ := stepEnter_proceeds inp k hs.inv hs.tails
  · rw [he]
    refine ⟨by rw [hp.accepted]; exact ho.once, fun hd => ?_⟩
    rw [hp.accepted] at hd
    rcases hsaid hd with h | rfl
    · exact .inl (hp.disc.trans h)
    · exact .inr (.inl rfl)
  · have hacc : (afterRun k r h').h.trace = h'.trace := by cases k <;> rfl
    rw [he]
    refine ⟨by rw [hacc, hp.accepted]; exact ho.once, fun hd => ?_⟩
    rw [hacc, hp.accepted] at hd
    rcases hsaid hd with h | rfl
    · left
      cases k
      · exact hp.disc.trans h
      · rfl
      · exact hp.disc.trans h
    · exact .inl rfl
  · rw [he]
    exact ⟨ho.once, fun _ => .inr (.inr ⟨a, rfl⟩)⟩

theorem afterSubmit_arranged {h : Handle} {k : After} {s : Submit}
    (hbefore : h.disconnectRequest = true → Requested h)
    (hno : ∀ h', s = .refused h' ∨ s = .rejected h' → h'.disconnectRequest = true → Requested h')
    (hyes : ∀ h' run, s = .accepted h' run → k = .disconnect ∨ h'.disconnectRequest = true →
      Requested h') : Arranged (afterSubmit h k s) := by
  have hkeep : ∀ h', (h'.disconnectRequest = true → Requested h') →
      Arranged ⟨h', .idle (-1)⟩ := by
    rintro h' hk (hd | hd)
    · exact hk hd
    · cases hd
  have hafter : ∀ h' r, (k = .disconnect ∨ h'.disconnectRequest = true → Requested h') →
      Arranged (afterRun k r h') := by
    intro h' r hr
    cases k with
    | command | notify =>
      rintro (hd | hd)
      · exact hr (.inr hd)
      · cases hd
    | disconnect => exact fun _ => (hr (.inl rfl)).congr (.inl rfl) rfl rfl
  cases s with
  | refused h' => exact hkeep h' (hno h' (.inl rfl))
  | rejected h' => exact hkeep h' (hno h' (.inr rfl))
  | accepted h' run =>
    have hr := hyes h' run rfl
    cases run with
    | false => exact hafter h' 0 hr
    | true =>
      simp only [afterSubmit, startRun]
      split
      · rename_i s hs
        rintro (hd | hd)
        · exact (hr (.inr hd)).congr (.inr (externalEvent_alive hs).1) rfl rfl
        · exact (hr (.inl (Control.running.inj hd))).congr (.inr (externalEvent_alive hs).1) rfl rfl
      · exact hafter _ (-1) fun hd => (hr hd).congr (.inl rfl) rfl rfl
  | abort a =>
    rintro (hd | hd)
    · exact hbefore hd
    · cases hd

/-- A call that is no submission moves nothing that a disconnection needs. -/
theorem arranged_of_no_submission {inp : Input} {h : Handle} {api : Api} (hclose : api ≠ .close)
    (hnone : submission inp h api = none) (hbefore : h.disconnectRequest = true → Requested h) :
    Arranged (apiCall inp h api) := by
  have hstart : ∀ ev, Arranged (startRun ev .notify h) := by
    intro ev
    unfold startRun
    split
    · rename_i s hs
      rintro (hd | hd)
      · exact (hbefore hd).congr (.inr (externalEvent_alive hs).1) rfl rfl
      · cases hd
    · rintro (hd | hd)
      · exact (hbefore hd).congr (.inl rfl) rfl rfl
      · cases hd
  cases api with
  | close => exact absurd rfl hclose
  | command | aioDisconnect | shutdown => cases hnone
  | aioNotifyRead => exact hstart .notifyRead
  | aioNotifyWrite => exact hstart .notifyWrite
  | setStrictMode flags =>
    simp only [apiCall]
    split
    · rintro (hd | hd)
      · exact (hbefore hd).congr (.inl rfl) rfl rfl
      · cases hd
    · rintro (hd | hd)
      · exact (hbefore hd).congr (.inl rfl) rfl rfl
      · cases hd
  | setPreadInitialize b =>
    rintro (hd | hd)
    · exact (hbefore hd).congr (.inl rfl) rfl rfl
    · cases hd
  | aioCommandCompleted cookie =>
    simp only [apiCall]
    split
    · rintro (hd | hd)
      · exact hbefore hd
      · cases hd
    · rename_i h' r hok
      obtain ⟨hs, hd'⟩ := aioCommandCompleted_state hok
      have hc : Carries h h' := by
        obtain ⟨hq, htr⟩ | ⟨cmd, -, -, htr, hq, -⟩ := aioCommandCompleted_cases hok
        · exact .same (by rw [hq]) ⟨[], by rw [htr, List.append_nil]⟩
        · exact .same hq ⟨_, htr⟩
      rintro (hd | hd)
      · exact SubmitKeeps.requested ⟨hs, hd', hc⟩ (hbefore (hd' ▸ hd))
      · cases hd

/-- What the caller is left with when `nbd_shutdown` fails. -/
theorem shutdown_refused {inp : Input} {h h' : Handle} {flags : UInt32} (hinv : h.book.Inv)
    (ht : Tails h) (hi : Idle h) (hbefore : h.disconnectRequest = true → Requested h)
    (hno : shutdown inp h flags = .refused h' ∨ shutdown inp h flags = .rejected h')
    (hd : h'.disconnectRequest = true) : Requested h' := by
  unfold shutdown at hno
  split at hno
  · obtain h | h := hno <;> cases h
    exact (hbefore hd).congr (.inl rfl) rfl rfl
  · rename_i hconn
    split at hno
    · obtain h | h := hno <;> cases h
      exact (hbefore hd).congr (.inl rfl) rfl rfl
    · split at hno
      · obtain h | h := hno <;> cases h
      · rename_i h₁ hok
        obtain ⟨hs, -, -, hinv₁, ht₁, hi₁⟩ := abandon_first hinv ht hi hok
        split at hno
        · obtain h | h := hno <;> cases h
        · rename_i hdisc
          have hk := commandCommon_keeps inp (r := discRequest 0) hinv₁ ht₁
            (by rw [hs]; simpa using hconn) hi₁
          have hd₁ : h'.disconnectRequest = h₁.disconnectRequest := by
            obtain h | h := hno <;> rw [h] at hk <;> exact hk.disc
          exact absurd (hd₁ ▸ hd) hdisc

theorem apiCall_arranged {inp : Input} {h : Handle} {api : Api} (hinv : h.book.Inv) (ht : Tails h)
    (hi : Idle h) (hclose : api ≠ .close)
    (hok : ∀ flags, api = .shutdown flags → h.state.isConnected = true →
      flags &&& (0xffffffff ^^^ shutdownAbandonPending) = 0 →
      hasFlag flags shutdownAbandonPending = true → h.state ≠ .ready → AbandonOk h)
    (hbefore : h.disconnectRequest = true → Requested h) : Arranged (apiCall inp h api) := by
  cases api with
  | command call =>
    have hk := submit_keeps inp call hinv ht hi
    refine afterSubmit_arranged hbefore ?_ ?_
    · rintro h' (hs | hs) hd <;> rw [hs] at hk
      · exact hk.requested (hbefore (hk.disc ▸ hd))
      · exact hk.requested (hbefore (hk.disc ▸ hd))
    · rintro h' run hs (hd | hd)
      · cases hd
      · rw [hs] at hk
        exact hk.1.requested (hbefore (hk.1.disc ▸ hd))
  | aioDisconnect flags =>
    have hk := aioDisconnect_keeps inp flags hinv ht hi
    refine afterSubmit_arranged hbefore ?_ ?_
    · rintro h' (hs | hs) hd <;> rw [hs] at hk
      · exact hk.requested (hbefore (hk.disc ▸ hd))
      · exact hk.requested (hbefore (hk.disc ▸ hd))
    · intro h' run hs _
      rw [hs] at hk
      obtain ⟨-, cmd, hcmd, hty⟩ := hk
      exact .inr (.inr (.inl ⟨cmd, hcmd, hty⟩))
  | shutdown flags =>
    refine afterSubmit_arranged hbefore ?_ ?_
    · intro h' hs hd
      exact shutdown_refused hinv ht hi hbefore hs hd
    · intro h' run hs _
      exact shutdown_requested hinv ht hi (fun hconn hvalid => hok flags rfl hconn hvalid) hbefore hs
  | close => exact absurd rfl hclose
  | aioNotifyRead | aioNotifyWrite | setStrictMode | setPreadInitialize | aioCommandCompleted =>
    exact arranged_of_no_submission nofun rfl hbefore

theorem disc_filter_append {l : List Command} (hl : ∀ d ∈ l, d.type ≠ .disc) (cmd : Command) :
    ((l ++ [cmd]).filter fun d => decide (d.type = .disc)).length ≤ 1 := by
  have hnil : (l.filter fun d => decide (d.type = .disc)) = [] := by
    rw [List.filter_eq_nil_iff]
    intro d hd
    simpa using hl d hd
  rw [List.filter_append, hnil, List.nil_append]
  exact List.length_filter_le _ _

theorem afterSubmit_discOnce {h : Handle} {k : After} {s : Submit} {P : Command → Prop}
    (ha : s.AcceptsOnce h P) (hP : k ≠ .disconnect → ∀ cmd, P cmd → cmd.type ≠ .disc)
    (honce : ((accepted h.trace).filter fun d => decide (d.type = .disc)).length ≤ 1)
    (hsaid : (∃ d ∈ accepted h.trace, d.type = .disc) → h.disconnectRequest = true) :
    DiscOnce (afterSubmit h k s) := by
  cases s with
  | refused h' | rejected h' =>
    refine ⟨by rw [afterSubmit, ha.1]; exact honce, fun hd => ?_⟩
    rw [afterSubmit, ha.1] at hd
    exact .inl (ha.2.trans (hsaid hd))
  | abort a => exact ⟨honce, fun _ => .inr (.inr ⟨a, rfl⟩)⟩
  | accepted h' run =>
    obtain ⟨hdisc, hcase⟩ := ha
    -- what is known of the handle that the submission leaves
    have key : ((accepted h'.trace).filter fun d => decide (d.type = .disc)).length ≤ 1 ∧
        ((∃ d ∈ accepted h'.trace, d.type = .disc) →
          h'.disconnectRequest = true ∨ k = .disconnect) := by
      rcases hcase with ⟨hd, hacc⟩ | ⟨hd, cmd, hcmd, hacc⟩
      · rw [hacc]
        exact ⟨honce, fun _ => .inl (hdisc.trans hd)⟩
      · have hno : ∀ d ∈ accepted h.trace, d.type ≠ .disc := by
          intro d hmem hty
          rw [hsaid ⟨d, hmem, hty⟩] at hd
          cases hd
        rw [hacc]
        refine ⟨disc_filter_append hno cmd, ?_⟩
        rintro ⟨d, hmem, hty⟩
        rcases List.mem_append.mp hmem with hm | hm
        · exact absurd hty (hno d hm)
        · rw [List.mem_singleton.mp hm] at hty
          by_contra hk
          exact hP (fun h => hk (.inr h)) cmd hcmd hty
    have hafter : ∀ g r, g.trace = h'.trace → g.disconnectRequest = h'.disconnectRequest →
        DiscOnce (afterRun k r g) := by
      intro g r htr hd
      have htr' : (afterRun k r g).h.trace = h'.trace := by
        rw [← htr]
        cases k <;> rfl
      refine ⟨by rw [htr']; exact key.1, fun hex => .inl ?_⟩
      rw [htr'] at hex
      cases k with
      | disconnect => rfl
      | command | notify => exact hd.trans ((key.2 hex).resolve_right (by simp))
    cases run with
    | false => exact hafter h' 0 rfl rfl
    | true =>
      simp only [afterSubmit, startRun]
      split
      · refine ⟨key.1, fun hex => ?_⟩
        rcases key.2 hex with h | rfl
        · exact .inl h
        · exact .inr (.inl rfl)
      · exact hafter _ (-1) rfl rfl

/-- Calls that are no submission do not touch `disconnect_request`. -/
theorem no_submission_disc {inp : Input} {h : Handle} {api : Api} (hclose : api ≠ .close)
    (hnone : submission inp h api = none) :
    (apiCall inp h api).h.disconnectRequest = h.disconnectRequest ∧
      accepted (apiCall inp h api).h.trace = accepted h.trace := by
  obtain ⟨es, htr, hes⟩ := (apiCall_no_submission hclose hnone).trace
  have hnil : accepted es = [] := by
    rw [accepted, List.filterMap_eq_nil_iff]
    intro e he
    have := hes e he
    cases e <;> first | rfl | cases this
  refine ⟨?_, by rw [htr, accepted_append, hnil, List.append_nil]⟩
  cases api with
  | close => exact absurd rfl hclose
  | command | aioDisconnect | shutdown => cases hnone
  | aioNotifyRead | aioNotifyWrite =>
    simp only [apiCall, startRun]
    split <;> rfl
  | setStrictMode flags =>
    simp only [apiCall]
    split <;> rfl
  | setPreadInitialize b => rfl
  | aioCommandCompleted cookie =>
    simp only [apiCall]
    split
    · rfl
    · rename_i h' r hok
      exact (aioCommandCompleted_state hok).2

theorem apiCall_discOnce {inp : Input} {h : Handle} {api : Api} (hinv : h.book.Inv) (ht : Tails h)
    (hi : Idle h) (hclose : api ≠ .close)
    (honce : ((accepted h.trace).filter fun d => decide (d.type = .disc)).length ≤ 1)
    (hsaid : (∃ d ∈ accepted h.trace, d.type = .disc) → h.disconnectRequest = true) :
    DiscOnce (apiCall inp h api) := by
  have hrest : submission inp h api = none → DiscOnce (apiCall inp h api) := by
    intro hnone
    obtain ⟨hd, hacc⟩ := no_submission_disc hclose hnone
    refine ⟨by rw [hacc]; exact honce, fun hex => ?_⟩
    rw [hacc] at hex
    exact .inl (hd.trans (hsaid hex))
  cases api with
  | command call =>
    refine afterSubmit_discOnce (submit_acceptsOnce call hinv ht hi) (fun _ cmd hm => ?_) honce hsaid
    rw [hm.2.2]
    exact callRequest_type _ call
  | aioDisconnect flags =>
    exact afterSubmit_discOnce (aioDisconnect_acceptsOnce flags hinv ht hi)
      (fun hk => absurd rfl hk) honce hsaid
  | shutdown flags =>
    exact afterSubmit_discOnce (shutdown_acceptsOnce flags hinv ht hi)
      (fun hk => absurd rfl hk) honce hsaid
  | close => exact absurd rfl hclose
  | aioNotifyRead | aioNotifyWrite | setStrictMode | setPreadInitialize | aioCommandCompleted =>
    exact hrest rfl

/-- What holds in every reachable state. -/
structure ShutInv (c : Config) : Prop where
  sound : Sound c
  once : DiscOnce c
  order : c.h.book.InOrder

theorem step_shutInv {c c' : Config} {l : Label} (hs : ShutInv c) (h : step c l = some c') :
    c'.ctl = .closed ∨ ShutInv c' := by
  by_cases hcl : c'.ctl = .closed
  · exact .inl hcl
  right
  have hr := (step_refines hs.sound h).resolve_left hcl
  refine ⟨hr.sound, ?_, hs.order.steps hr.steps⟩
  obtain ⟨inp, k, rfl, hctl, rfl⟩ | ⟨api, inp, r, rfl, hctl, rfl⟩ := step_cases h
  · exact stepEnter_discOnce hs.sound hctl hs.once
  · have hclose : api ≠ .close := by
      rintro rfl
      exact hcl rfl
    have ht : Tails { c.h with lastError := inp.lastError } :=
      ⟨hs.sound.tails.toIssue, hs.sound.tails.done⟩
    refine apiCall_discOnce (h := { c.h with lastError := inp.lastError }) hs.sound.inv ht
      (hs.sound.idle r hctl) hclose hs.once.once fun hex => ?_
    rcases hs.once.said hex with h | h | ⟨a, h⟩
    · exact h
    · rw [hctl] at h
      cases h
    · rw [hctl] at h
      cases h

theorem step_arranged {c c' : Config} {l : Label} (hs : Sound c) (ha : Arranged c)
    (hl : ShutsDown c l) (h : step c l = some c') (hcl : c'.ctl ≠ .closed) : Arranged c' := by
  obtain ⟨inp, k, rfl, hctl, rfl⟩ | ⟨api, inp, r, rfl, hctl, rfl⟩ := step_cases h
  · exact stepEnter_arranged hs hctl ha
  · have hclose : api ≠ .close := by
      rintro rfl
      exact hcl rfl
    have ht : Tails { c.h with lastError := inp.lastError } := ⟨hs.tails.toIssue, hs.tails.done⟩
    refine apiCall_arranged (h := { c.h with lastError := inp.lastError }) hs.inv ht
      (hs.idle r hctl) hclose ?_ fun hd => (ha (.inl hd)).congr (.inl rfl) rfl rfl
    rintro flags rfl
    exact hl

/-- What is kept by the steps that meet `ShutsDown`. -/
def ArrangedInv (c : Config) : Prop := c.ctl = .closed ∨ ShutInv c ∧ Arranged c

theorem step_arrangedInv {c c' : Config} {l : Label} (hc : ArrangedInv c) (hl : ShutsDown c l)
    (hstep : machine.step c l = some c') : ArrangedInv c' := by
  rcases hc with hcl | ⟨hs, ha⟩
  · cases l <;> simp [machine, step, hcl] at hstep
  · by_cases hcl : c'.ctl = .closed
    · exact .inl hcl
    · exact .inr ⟨(step_shutInv hs hstep).resolve_left hcl, step_arranged hs.sound ha hl hstep hcl⟩

theorem reachableBy_arrangedInv {c : Config} (hc : machine.ReachableBy ShutsDown c) :
    ArrangedInv c := by
  refine machine.reachableBy_invariant (fun c₀ hi => ?_) (fun c l c' => step_arrangedInv) hc
  refine .inr ⟨⟨initial_sound hi, ?_, ?_⟩, ?_⟩ <;>
    obtain ⟨exp, strict, pi, hdr, payload, mem, rfl⟩ := hi
  · exact ⟨Nat.zero_le _, fun ⟨d, hd, _⟩ => absurd hd List.not_mem_nil⟩
  · exact List.Sublist.refl _
  · rintro (hd | hd) <;> cases hd

/-- When the run loop of a disconnection returns, `disconnect_request` is set. -/
theorem exec_disconnect {c c' : Config} {ls : List Label} {r : Int}
    (hls : ∀ l ∈ ls, ∃ inp, l = .enter inp) (hctl : c.ctl = .running .disconnect ∨
      c.h.disconnectRequest = true ∧ ∃ r, c.ctl = .idle r)
    (he : machine.exec c ls = some c') (hr : c'.ctl = .idle r) : c'.h.disconnectRequest = true := by
  induction ls generalizing c with
  | nil =>
    cases he
    rcases hctl with h | h
    · rw [h] at hr
      cases hr
    · exact h.1
  | cons l ls ih =>
    obtain ⟨t, ht, hrest⟩ := Option.bind_eq_some_iff.mp he
    obtain ⟨inp, rfl⟩ := hls l List.mem_cons_self
    have hrec := ih (c := t) (fun l hl => hls l (List.mem_cons_of_mem _ hl))
    rcases hctl with h | ⟨-, r', h⟩
    · have ht' : t = stepEnter inp .disconnect c.h := by
        simpa [machine, step, h] using ht.symm
      subst ht'
      unfold stepEnter at hrest hrec
      cases ho : enter inp c.h with
      | next h' =>
        rw [ho] at hrest hrec
        exact hrec (.inl rfl) hrest
      | block h' =>
        rw [ho] at hrest hrec
        exact hrec (.inr ⟨rfl, 0, rfl⟩) hrest
      | fail h' =>
        rw [ho] at hrest hrec
        exact hrec (.inr ⟨rfl, 0, rfl⟩) hrest
      | abort a =>
        rw [ho] at hrest
        rw [exec_of_aborted rfl hrest] at hr
        cases hr
    · simp [machine, step, h] at ht

/-- What `nbd_shutdown` has to achieve before it waits: its assertion holds, it
aborts exactly the commands of which nothing has been sent, and unless it fails
the disconnection is requested when its run of the machine returns. -/
structure ShutdownOk (c c₁ : Config) (flags : UInt32) : Prop where
  asserted : ∀ a, c₁.ctl ≠ .aborted a
  unsent : flags &&& (0xffffffff ^^^ shutdownAbandonPending) = 0 →
    hasFlag flags shutdownAbandonPending = true → ∀ es, c₁.h.trace = c.h.trace ++ es →
    ∀ k, Event.finish k ∈ es ↔ ∃ cmd ∈ c.h.q.cmdsToIssue, cmd.cookie = k ∧ ¬ Started c.h cmd
  requested : ∀ ls c', (∀ l ∈ ls, ∃ i, l = .enter i) → machine.exec c₁ ls = some c' →
    c'.ctl = .idle 0 → Requested c'.h

/-- The commands that are aborted, when the head of the queue is kept. -/
theorem mem_finished_iff {es : List Event} {k : Nat} :
    Event.finish k ∈ es ↔ k ∈ finishedCookies es := by
  simp only [finishedCookies, List.mem_filterMap]
  constructor
  · exact fun h => ⟨_, h, rfl⟩
  · rintro ⟨e, he, hk⟩
    cases e <;> cases hk
    exact he

theorem finished_shutdown {inp : Input} {c c₁ : Config} {flags : UInt32} (hs : Sound c)
    (he : c₁ = stepCall inp (.shutdown flags) c.h) (hna : ∀ a, c₁.ctl ≠ .aborted a)
    (hconn : c.h.state.isConnected = true)
    (hvalid : flags &&& (0xffffffff ^^^ shutdownAbandonPending) = 0)
    (hf : hasFlag flags shutdownAbandonPending = true) {es : List Event}
    (htr : c₁.h.trace = c.h.trace ++ es) :
    finishedCookies es = (abandoned c.h).map Command.cookie := by
  subst he
  have ht : Tails { c.h with lastError := inp.lastError } := ⟨hs.tails.toIssue, hs.tails.done⟩
  have hsub : submission inp { c.h with lastError := inp.lastError } (.shutdown flags) =
      some (shutdown inp { c.h with lastError := inp.lastError } flags) := rfl
  have hc := submission_completes (h := { c.h with lastError := inp.lastError }) hs.inv ht hsub
  have hna' : ∀ a, shutdown inp { c.h with lastError := inp.lastError } flags ≠ .abort a := by
    intro a hab
    refine hna a ?_
    simp only [stepCall, apiCall, hab, afterSubmit]
  obtain ⟨fs, htr', -, -, hfin⟩ := (afterSubmit_completes _ .disconnect hna' hc).events
  obtain rfl : es = fs := List.append_cancel_left (htr.symm.trans htr')
  rw [hfin]
  simp [callCompletes, hconn, hvalid, hf, withAbortError, abandoned, Function.comp_def]

/-- The head of the queue is kept, the others are aborted. -/
theorem finished_tail {c : Config} (hs : Sound c) {cmd : Command} {rest : List Command}
    (hq : c.h.q.cmdsToIssue = cmd :: rest) {es : List Event}
    (hfin : finishedCookies es = rest.map Command.cookie) :
    (∀ k, Event.finish k ∈ es ↔
      ∃ d ∈ c.h.q.cmdsToIssue, d.cookie = k ∧ ¬ Started c.h d) ↔ Started c.h cmd := by
  have hnd : ((cmd :: rest).map Command.cookie).Nodup := hq ▸ hs.inv.nodup_lists.1
  rw [List.map_cons, List.nodup_cons] at hnd
  have hmem : ∀ k, Event.finish k ∈ es ↔ k ∈ rest.map Command.cookie := by
    intro k
    rw [mem_finished_iff, hfin]
  constructor
  · intro hall
    by_contra hns
    have hk := (hall cmd.cookie).mpr ⟨cmd, hq ▸ List.mem_cons_self, rfl, hns⟩
    exact hnd.1 ((hmem _).mp hk)
  · intro hst k
    rw [hmem, hq]
    constructor
    · intro hk
      obtain ⟨d, hd, rfl⟩ := List.mem_map.mp hk
      refine ⟨d, List.mem_cons_of_mem _ hd, rfl, ?_⟩
      rintro ⟨⟨rest', hq'⟩, -⟩
      rw [hq] at hq'
      cases hq'
      exact hnd.1 hk
    · rintro ⟨d, hd, rfl, hns⟩
      rcases List.mem_cons.mp hd with rfl | hd
      · exact absurd hst hns
      · exact List.mem_map_of_mem hd

/-- An `NBD_CMD_DISC` in the tail of the queue is the only one. -/
theorem only_disc {c : Config} (hs : ShutInv c) {cmd d : Command} {rest : List Command}
    (hq : c.h.q.cmdsToIssue = cmd :: rest) (hd : d ∈ rest) (hty : d.type = .disc) :
    cmd.type ≠ .disc ∧ ∀ e ∈ issued c.h.trace, e.type ≠ .disc := by
  have hsub : ((issued c.h.trace ++ cmd :: rest).filter fun d => decide (d.type = .disc)).length ≤ 1 :=
    Nat.le_trans (List.Sublist.filter _ (hq ▸ hs.order)).length_le hs.once.once
  have hpos : 0 < (rest.filter fun d => decide (d.type = .disc)).length :=
    List.length_pos_of_mem (List.mem_filter.mpr ⟨hd, by simpa using hty⟩)
  rw [List.filter_append, List.length_append] at hsub
  constructor
  · intro hc
    rw [List.filter_cons_of_pos (by simpa using hc), List.length_cons] at hsub
    omega
  · intro e he hc
    have hpos' : 0 < ((issued c.h.trace).filter fun d => decide (d.type = .disc)).length :=
      List.length_pos_of_mem (List.mem_filter.mpr ⟨he, by simpa using hc⟩)
    have hle : (rest.filter fun d => decide (d.type = .disc)).length ≤
        ((cmd :: rest).filter fun d => decide (d.type = .disc)).length :=
      (List.Sublist.filter _ (List.sublist_cons_self _ _)).length_le
    omega

/-- How `nbd_shutdown` goes on: an assertion fails, it fails, or it runs the
machine for `NBD_CMD_DISC` or finds it queued. -/
theorem stepCall_shutdown_cases (inp : Input) (flags : UInt32) (h : Handle) :
    (∃ a, shutdown inp { h with lastError := inp.lastError } flags = .abort a) ∨
    (stepCall inp (.shutdown flags) h).ctl = .idle (-1) ∨
    (stepCall inp (.shutdown flags) h).ctl = .running .disconnect ∨
    (stepCall inp (.shutdown flags) h).h.disconnectRequest = true ∧
      ∃ r, (stepCall inp (.shutdown flags) h).ctl = .idle r := by
  simp only [stepCall, apiCall]
  cases shutdown inp { h with lastError := inp.lastError } flags with
  | refused h' | rejected h' => exact .inr (.inl rfl)
  | abort a => exact .inl ⟨a, rfl⟩
  | accepted h' run =>
    right; right
    cases run with
    | false => exact .inr ⟨rfl, 0, rfl⟩
    | true =>
      simp only [afterSubmit, startRun]
      split
      · exact .inl rfl
      · exact .inr ⟨rfl, 0, rfl⟩

theorem not_aborted_of_shutdown {inp : Input} {flags : UInt32} {h : Handle}
    (hna : ∀ a, shutdown inp { h with lastError := inp.lastError } flags ≠ .abort a) (a : Abort) :
    (stepCall inp (.shutdown flags) h).ctl ≠ .aborted a := by
  obtain ⟨b, hb⟩ | hc | hc | ⟨-, r, hc⟩ := stepCall_shutdown_cases inp flags h
  · exact absurd hb (hna b)
  · rw [hc]
    nofun
  · rw [hc]
    nofun
  · rw [hc]
    nofun

/-- A shutdown that meets the condition does what it has to. -/
theorem shutdownOk_of_shutsDown {c : Config} {flags : UInt32} {inp : Input} {r : Int}
    (hs : ShutInv c) (ha : Arranged c) (hctl : c.ctl = .idle r)
    (hconn : c.h.state.isConnected = true)
    (hl : ShutsDown c (.call (.shutdown flags) inp)) :
    ShutdownOk c (stepCall inp (.shutdown flags) c.h) flags := by
  have ht : Tails { c.h with lastError := inp.lastError } :=
    ⟨hs.sound.tails.toIssue, hs.sound.tails.done⟩
  have hstep : machine.step c (.call (.shutdown flags) inp) =
      some (stepCall inp (.shutdown flags) c.h) := by simp [machine, step, hctl]
  have hna : ∀ a, shutdown inp { c.h with lastError := inp.lastError } flags ≠ .abort a := by
    intro a
    by_cases hvalid : flags &&& (0xffffffff ^^^ shutdownAbandonPending) = 0
    · refine shutdown_not_abort inp (h := { c.h with lastError := inp.lastError }) flags
        hs.sound.inv ht (hs.sound.idle r hctl) (fun hf => ?_) a
      by_cases hready : c.h.state = .ready
      · exact .inl hready
      · right
        intro hnil
        have hnil : c.h.q.cmdsToIssue = [] := hnil
        have hab := hl hconn hvalid hf hready
        rw [AbandonOk, hnil] at hab
        exact hab
    · unfold shutdown
      rw [if_neg (by simpa using hconn), if_pos (by simpa using hvalid)]
      simp
  have hna' := not_aborted_of_shutdown hna
  refine ⟨hna', fun hvalid hf es htr => ?_, fun ls c' hls he hr => ?_⟩
  · have hfin := finished_shutdown hs.sound rfl hna' hconn hvalid hf htr
    by_cases hready : c.h.state = .ready
    · -- nothing is queued in `READY`
      have hnil : c.h.q.cmdsToIssue = [] := hs.sound.idle r hctl hready
      intro k
      rw [mem_finished_iff, hfin, hnil]
      simp [abandoned, hready, hnil]
    · have hab := hl hconn hvalid hf hready
      unfold AbandonOk at hab
      split at hab
      · exact hab.elim
      · rename_i cmd rest hq
        rw [abandoned, if_neg hready, hq, List.tail_cons] at hfin
        exact (finished_tail hs.sound hq hfin).mpr ⟨⟨rest, hq⟩, hab.1⟩
  · have hinv : ArrangedInv c' := by
      refine machine.exec_invariant (fun _ _ _ => step_arrangedInv)
        (step_arrangedInv (.inr ⟨hs, ha⟩) hl hstep) ?_ he
      refine machine.meets_of_forall _ ls fun l hmem s => ?_
      obtain ⟨i, rfl⟩ := hls l hmem
      trivial
    rcases hinv with hcl | ⟨-, ha'⟩
    · rw [hr] at hcl
      cases hcl
    · refine ha' (.inl ?_)
      obtain ⟨a, hab⟩ | hc | hc | hc := stepCall_shutdown_cases inp flags c.h
      · exact absurd hab (hna a)
      · cases ls with
        | nil =>
          cases he
          rw [hc] at hr
          cases hr
        | cons l ls =>
          obtain ⟨i, rfl⟩ := hls l List.mem_cons_self
          simp [System.exec, machine, step, hc] at he
      · exact exec_disconnect hls (.inl hc) he hr
      · exact exec_disconnect hls (.inr hc) he hr

/-- An `NBD_CMD_DISC` behind the head of the queue is aborted and not replaced. -/
theorem not_requested_of_disc_queued {c : Config} {flags : UInt32} {r : Int} (inp : Input)
    (hs : ShutInv c) (hctl : c.ctl = .idle r) (hconn : c.h.state.isConnected = true)
    (hvalid : flags &&& (0xffffffff ^^^ shutdownAbandonPending) = 0)
    (hf : hasFlag flags shutdownAbandonPending = true) (hready : c.h.state ≠ .ready)
    {cmd d : Command} {rest : List Command} (hq : c.h.q.cmdsToIssue = cmd :: rest)
    (hd : d ∈ rest) (hty : d.type = .disc) :
    (stepCall inp (.shutdown flags) c.h).ctl = .idle 0 ∧
      ¬ Requested (stepCall inp (.shutdown flags) c.h).h := by
  have ht : Tails { c.h with lastError := inp.lastError } :=
    ⟨hs.sound.tails.toIssue, hs.sound.tails.done⟩
  have hdisc : c.h.disconnectRequest = true := by
    have hacc : d ∈ accepted c.h.trace := hs.order.subset (List.mem_append_right _ (by
      show d ∈ c.h.q.cmdsToIssue
      rw [hq]
      exact List.mem_cons_of_mem _ hd))
    rcases hs.once.said ⟨d, hacc, hty⟩ with h | h | ⟨a, h⟩
    · exact h
    · rw [hctl] at h
      cases h
    · rw [hctl] at h
      cases h
  obtain ⟨h₁, hok⟩ := abandonPending_ok inp (h := { c.h with lastError := inp.lastError })
    hs.sound.inv ht (.inr (by rw [hq]; nofun))
  have hok' := hok
  rw [abandonPending, if_neg hready] at hok'
  simp only [hq] at hok'
  have hdo := abortCommands_doneOnly hok'
  have hiss := issued_of_passive (abortCommands_passive hok')
  have hd₁ : h₁.disconnectRequest = true := by rw [hdo]; exact hdisc
  have hshut : shutdown inp { c.h with lastError := inp.lastError } flags = .accepted h₁ false := by
    unfold shutdown
    rw [if_neg (by simpa using hconn), if_neg (by simpa using hvalid), if_pos hf, hok]
    exact if_pos hd₁
  have heq : stepCall inp (.shutdown flags) c.h =
      ⟨{ h₁ with disconnectRequest := true }, .idle 0⟩ := by
    simp only [stepCall, apiCall, hshut, afterSubmit, afterRun]
  rw [heq]
  refine ⟨rfl, ?_⟩
  have halive := isConnected_alive hconn
  obtain ⟨honly, hissued⟩ := only_disc hs hq hd hty
  rintro (h | h | ⟨e, he, hte⟩ | ⟨e, he, hte⟩)
  · have : h₁.state = c.h.state := by rw [hdo]
    exact halive.2 (this.symm.trans h)
  · have : h₁.state = c.h.state := by rw [hdo]
    exact halive.1 (this.symm.trans h)
  · have hq₁ : h₁.q.cmdsToIssue = [cmd] := by rw [hdo]
    have he : e ∈ h₁.q.cmdsToIssue := he
    rw [hq₁, List.mem_singleton] at he
    exact honly (he ▸ hte)
  · have he : e ∈ issued h₁.trace := he
    rw [hiss] at he
    exact hissued e he hte

/-- **Shutdown requests disconnection** exactly when it finds the handle `READY`
or `AbandonOk`, or abandons nothing. -/
theorem shutdown_requests_disconnection_iff {c c₁ : Config} {flags : UInt32} {inp : Input}
    (hc : machine.ReachableBy ShutsDown c)
    (hstep : machine.step c (.call (.shutdown flags) inp) = some c₁)
    (hconn : c.h.state.isConnected = true) :
    ShutdownOk c c₁ flags ↔ ShutsDown c (.call (.shutdown flags) inp) := by
  have hstep' : step c (.call (.shutdown flags) inp) = some c₁ := hstep
  obtain ⟨i, k, hl, -⟩ | ⟨api, i, r, hl, hctl, he⟩ := step_cases hstep'
  · cases hl
  cases hl
  obtain rfl : stepCall inp (.shutdown flags) c.h = c₁ := he.symm
  rcases reachableBy_arrangedInv hc with hcl | ⟨hs, ha⟩
  · rw [hctl] at hcl
    cases hcl
  refine ⟨fun hok _ hvalid hf hready => ?_, shutdownOk_of_shutsDown hs ha hctl hconn⟩
  unfold AbandonOk
  split
  · -- the assertion fails on an empty queue
    rename_i hnil
    refine hok.asserted .abandonEmpty ?_
    have hshut : shutdown inp { c.h with lastError := inp.lastError } flags =
        .abort .abandonEmpty := by
      simp [shutdown, hconn, hvalid, hf, abandonPending, hready, hnil]
    simp only [stepCall, apiCall, hshut, afterSubmit]
  · rename_i cmd rest hq
    constructor
    · obtain ⟨es, htr⟩ := step_trace_append hs.sound hstep'
      have hfin := finished_shutdown hs.sound rfl hok.asserted hconn hvalid hf htr
      rw [abandoned, if_neg hready, hq, List.tail_cons] at hfin
      exact ((finished_tail hs.sound hq hfin).mp (hok.unsent hvalid hf es htr)).2
    · intro d hd hty
      obtain ⟨hidle, hno⟩ :=
        not_requested_of_disc_queued inp hs hctl hconn hvalid hf hready hq hd hty
      exact hno (hok.requested [] _ (fun _ h => absurd h List.not_mem_nil) rfl hidle)

/-- Abandoning a read of which ten bytes are sent. -/
theorem shutdown_requests_disconnection_partial_read :
    ∃ c c₁, machine.exec .calm stalledRead = some c ∧
      machine.step c (.call (.shutdown shutdownAbandonPending) .calm) = some c₁ ∧
      ShutdownOk c c₁ shutdownAbandonPending := by
  have hrun : (machine.exec .calm stalledRead).map (fun c => (c.h.state.isConnected,
      decide (ShutsDown c (.call (.shutdown shutdownAbandonPending) .calm)),
      (machine.step c (.call (.shutdown shutdownAbandonPending) .calm)).isSome)) =
      some (true, true, true) := by decide +kernel
  obtain ⟨c, hc, hp⟩ := Option.map_eq_some_iff.mp hrun
  simp only [Prod.mk.injEq, decide_eq_true_eq] at hp
  obtain ⟨hconn, hcond, hsome⟩ := hp
  obtain ⟨c₁, hstep⟩ := Option.isSome_iff_exists.mp hsome
  have hm : machine.Meets ShutsDown .calm stalledRead := machine.meets_of_check (by decide +kernel)
  exact ⟨c, c₁, hc, hstep, (shutdown_requests_disconnection_iff
    ⟨_, _, Config.initial_calm, hm, hc⟩ hstep hconn).mpr hcond⟩

/-- `NBD_CMD_DISC` is queued behind the read. -/
def queuedDisconnect : List Label := stalledRead ++ [Label.call (.aioDisconnect 0) .calm]

/-- The shutdown aborts `NBD_CMD_DISC` and then waits for ever. -/
theorem queued_disconnect_abandoned :
    ¬ ∀ c c₁ flags inp, machine.Reachable c →
      machine.step c (.call (.shutdown flags) inp) = some c₁ → c.h.state.isConnected = true →
      ShutdownOk c c₁ flags := by
  intro hall
  have hrun : ((machine.exec .calm queuedDisconnect).bind fun c =>
      (machine.step c (.call (.shutdown shutdownAbandonPending) .calm)).map fun c₁ =>
        (c.h.state.isConnected, c₁.ctl, c₁.h.state, c₁.h.q.cmdsToIssue.map Command.type,
          (issued c₁.h.trace).length)) =
      some (true, .idle 0, .issueSendRequest, [.read], 0) := by decide +kernel
  obtain ⟨c, hc, hp⟩ := Option.bind_eq_some_iff.mp hrun
  obtain ⟨c₁, hstep, hp⟩ := Option.map_eq_some_iff.mp hp
  simp only [Prod.mk.injEq] at hp
  obtain ⟨hconn, hctl, hstate, hq, hissued⟩ := hp
  have hok := hall c c₁ _ _ ⟨_, _, Config.initial_calm, hc⟩ hstep hconn
  rcases hok.requested [] c₁ (fun _ h => absurd h List.not_mem_nil) rfl hctl with
    h | h | ⟨e, he, hte⟩ | ⟨e, he, hte⟩
  · rw [hstate] at h
    cases h
  · rw [hstate] at h
    cases h
  · have hmem := List.mem_map_of_mem (f := Command.type) he
    rw [hq, hte] at hmem
    simp at hmem
  · rw [List.length_eq_zero_iff.mp hissued] at he
    exact absurd he List.not_mem_nil

end Libnbd
