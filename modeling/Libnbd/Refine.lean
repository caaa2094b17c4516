import Libnbd.Book

/-!
The handle refines the book.

With correct tail pointers and distinct cookies every pointer operation on the
queues is the list operation it stands for, so each step of the machine is a
sequence of moves of the book (`step_refines`) and keeps the tail pointers
correct. `slack` compares the counter `h->in_flight` with the lists.
-/

namespace Libnbd

open Lib Relation

namespace Handle

def book (h : Handle) : Book :=
  ⟨h.q.cmdsToIssue, h.q.cmdsInFlight, h.q.cmdsDone, h.q.unique, h.trace⟩

/-- What `h->in_flight` counts beyond the two lists. -/
def slack (h : Handle) : Int :=
  h.q.inFlight - (h.q.cmdsToIssue.length + h.q.cmdsInFlight.length)

/-- The handle is not in one of the two final states. -/
def alive (h : Handle) : Prop := h.state ≠ .dead ∧ h.state ≠ .closed

end Handle

/-- The tail pointers. The one of `cmds_to_issue` is not looked after when the
connection ends. -/
structure Tails (h : Handle) : Prop where
  toIssue : h.alive → TailOk Command.cookie h.q.cmdsToIssue h.q.cmdsToIssueTail
  done : TailOk Command.cookie h.q.cmdsDone h.q.cmdsDoneTail

/-- What one step does to the queues. -/
structure Refines (h h' : Handle) : Prop where
  steps : BookSteps h.book h'.book
  tails : Tails h'
  slack : h'.slack = h.slack ∨ h'.slack = 0

theorem Refines.of_q_eq {h h' : Handle} (ht : Tails h) (ha : h.alive) (hq : h'.q = h.q)
    (htr : h'.trace = h.trace) : Refines h h' where
  steps := by
    have : h'.book = h.book := by simp only [Handle.book, hq, htr]
    rw [this]
  tails := ⟨fun _ => by rw [hq]; exact ht.toIssue ha, by rw [hq]; exact ht.done⟩
  slack := by
    left
    simp only [Handle.slack, hq]

theorem Refines.of_quiet {inp : Input} {h h' : Handle} (ht : Tails h) (ha : h.alive)
    (hq : Quiet inp h h') :
    Refines h h' where
  steps := by
    obtain ⟨es, htr, hes, -⟩ := hq.trace
    have : h'.book = { h.book with inFlight := h'.q.cmdsInFlight, trace := h.book.trace ++ es } := by
      simp only [Handle.book, htr]
      rw [hq.q]
    rw [this]
    exact .single (.touch hq.cmds hes)
  tails := by
    constructor
    · intro _
      rw [hq.q]
      exact ht.toIssue ha
    · rw [hq.q]
      exact ht.done
  slack := by
    have hlen : h'.q.cmdsInFlight.length = h.q.cmdsInFlight.length := hq.cmds.length_eq.symm
    left
    rw [Handle.slack, Handle.slack, hlen, hq.q]

/-! ## Completing commands -/

/-- Only `cmds_done` and the trace differ. -/
def DoneOnly (h h' : Handle) : Prop :=
  h' = { h with
    q := { h.q with cmdsDone := h'.q.cmdsDone, cmdsDoneTail := h'.q.cmdsDoneTail }
    trace := h'.trace }

theorem DoneOnly.refl (h : Handle) : DoneOnly h h := rfl

theorem DoneOnly.trans {h h₁ h₂ : Handle} (h₁₂ : DoneOnly h h₁) (h₂₃ : DoneOnly h₁ h₂) :
    DoneOnly h h₂ := by
  unfold DoneOnly at *
  rw [h₂₃, h₁₂]

/-- Following the tail pointer appends. -/
theorem pushDone_ok {h : Handle} {cmd : Command} (hnd : (h.q.cmdsDone.map Command.cookie).Nodup)
    (ht : TailOk Command.cookie h.q.cmdsDone h.q.cmdsDoneTail) :
    h.pushDone cmd = .ok { h with q := { h.q with
      cmdsDone := h.q.cmdsDone ++ [cmd], cmdsDoneTail := some cmd.cookie } } := by
  unfold Handle.pushDone
  cases hd : h.q.cmdsDoneTail with
  | none =>
    have hnil := (TailOk.eq_none _ ht).mp hd
    simp [hnil]
  | some t =>
    rw [hd] at ht
    simp only [linkAfter_of_tailOk Command.cookie cmd hnd ht]

/-- Completing a command: the result and what it is for the book. -/
theorem settle_ok {h : Handle} {cmd cmd' : Command} {err : UInt32} {retire : Bool}
    (hnd : (h.q.cmdsDone.map Command.cookie).Nodup)
    (ht : TailOk Command.cookie h.q.cmdsDone h.q.cmdsDoneTail) (hs : Settled cmd cmd' err retire) :
    ∃ h', (h.log (completionEvents cmd err ++ [Event.finish cmd.cookie])).settle cmd' retire = .ok h' ∧
      DoneOnly h h' ∧ h'.book = h.book.settle cmd cmd' err retire ∧
      TailOk Command.cookie h'.q.cmdsDone h'.q.cmdsDoneTail := by
  have hfree : retireAndFreeCommand cmd' = retireAndFreeCommand cmd := by
    rw [hs.same]
    rfl
  unfold Handle.settle
  cases retire with
  | true =>
    refine ⟨_, rfl, rfl, ?_, ht⟩
    simp [Handle.book, Handle.log, Book.settle, hfree]
  | false =>
    refine ⟨_, pushDone_ok hnd ht, rfl, ?_, tailOk_append _ _ _⟩
    simp [Handle.book, Handle.log, Book.settle]

theorem notifyCompletion_ok (inp : Input) (cmd : Command) (err : UInt32)
    (herr : cmd.error ≠ 0 → err ≠ 0) :
    ∃ cmd' retire, notifyCompletion inp cmd err = (completionEvents cmd err, cmd', retire) ∧
      Settled cmd cmd' err retire := by
  have hes : (callCallback inp cmd.completion (.completion cmd.cookie err) err).1 =
      completionEvents cmd err := by
    unfold callCallback completionEvents
    split <;> rfl
  unfold notifyCompletion
  generalize hcb : callCallback inp cmd.completion (.completion cmd.cookie err) err = r at hes ⊢
  obtain ⟨es, ret, e⟩ := r
  simp only at hes ⊢
  subst hes
  split
  · split
    · exact ⟨_, _, rfl, rfl, fun hne => ⟨herr hne, by assumption⟩, fun hd => by simp [hd]⟩
    · exact ⟨_, _, rfl, rfl, fun hne => ⟨herr hne, hne⟩, fun hd => by simp [hd]⟩
  · exact ⟨_, _, rfl, rfl, fun hne => ⟨herr hne, hne⟩, fun hd => by simp [hd]⟩

theorem orErr_enotconn_ne (e : UInt32) : orErr e enotconn ≠ 0 := by
  rw [Ne, orErr_eq_zero]
  exact fun h => absurd h.2 (by decide)

theorem abortCommand_ok (inp : Input) {h : Handle} {cmd : Command} (hc : cmd.ClosuresOk)
    (hnd : (h.q.cmdsDone.map Command.cookie).Nodup)
    (ht : TailOk Command.cookie h.q.cmdsDone h.q.cmdsDoneTail) :
    ∃ h' cmd' retire, abortCommand inp h cmd = .ok h' ∧ DoneOnly h h' ∧
      Settled cmd cmd' (orErr cmd.error enotconn) retire ∧ cmd'.error ≠ 0 ∧
      h'.book = h.book.settle cmd cmd' (orErr cmd.error enotconn) retire ∧
      TailOk Command.cookie h'.q.cmdsDone h'.q.cmdsDoneTail := by
  have hdisc : ¬ (cmd.completion.isNull = false ∧ cmd.type = .disc) := by
    rintro ⟨hn, hd⟩
    rw [hc.2 hd] at hn
    exact absurd hn (by decide)
  obtain ⟨cmd', retire, hn, hs⟩ :=
    notifyCompletion_ok inp cmd _ (fun _ => orErr_enotconn_ne cmd.error)
  have hs' : Settled cmd { cmd' with error := orErr cmd'.error enotconn }
      (orErr cmd.error enotconn) retire :=
    ⟨by rw [hs.same], fun _ => ⟨orErr_enotconn_ne _, orErr_enotconn_ne _⟩, hs.disc⟩
  have hk : cmd'.cookie = cmd.cookie := by rw [hs.same]
  obtain ⟨h', hset, hdo, hbook, htail⟩ := settle_ok hnd ht hs'
  refine ⟨h', _, retire, ?_, hdo, hs', orErr_enotconn_ne _, hbook, htail⟩
  unfold abortCommand
  rw [if_neg hdisc, hn]
  rw [← hk] at hset
  exact hset

section Loop

/-! `put b l` is the book `b` with the commands `l` on the list that the loop
takes them from. -/

variable (put : Book → List Command → Book) (hnil : ∀ b, put b [] = b)
  (hput : ∀ {b cmd post cmd' err retire}, Settled cmd cmd' err retire →
    BookStep (put b (cmd :: post)) (put (b.settle cmd cmd' err retire) post))

include hnil hput

theorem abortCommands_ok (inp : Input) {cmds : List Command} {h : Handle}
    (hinv : (put h.book cmds).Inv) (hdone : ∀ b l, (put b l).done = b.done)
    (hmem : ∀ b l c, c ∈ l → c ∈ (put b l).commands)
    (ht : TailOk Command.cookie h.q.cmdsDone h.q.cmdsDoneTail) :
    ∃ h', abortCommands inp h cmds = .ok h' ∧ DoneOnly h h' ∧
      BookSteps (put h.book cmds) h'.book ∧
      TailOk Command.cookie h'.q.cmdsDone h'.q.cmdsDoneTail := by
  induction cmds generalizing h with
  | nil => exact ⟨h, rfl, .refl h, by rw [hnil], ht⟩
  | cons cmd cmds ih =>
    have hnd : (h.q.cmdsDone.map Command.cookie).Nodup := by
      have := hinv.nodup_lists.2.2
      rwa [hdone] at this
    have hc : cmd.ClosuresOk := hinv.closures (hmem _ _ _ List.mem_cons_self)
    obtain ⟨h₁, cmd', retire, hok, hdo, hs, -, hbook, htail⟩ := abortCommand_ok inp hc hnd ht
    have hstep : BookStep (put h.book (cmd :: cmds)) (put h₁.book cmds) := by
      rw [hbook]
      exact hput hs
    obtain ⟨h₂, hok₂, hdo₂, hsteps, htail₂⟩ := ih (Book.inv_step hinv hstep) htail
    refine ⟨h₂, ?_, hdo.trans hdo₂, .head hstep hsteps, htail₂⟩
    unfold abortCommands
    rw [hok]
    exact hok₂

end Loop

/-- `nbd_internal_abort_commands` on commands behind `h.q.cmdsToIssue`. -/
theorem abortQueued_ok (inp : Input) (cmds : List Command) {h : Handle}
    (hinv : { h.book with toIssue := h.q.cmdsToIssue ++ cmds }.Inv)
    (ht : TailOk Command.cookie h.q.cmdsDone h.q.cmdsDoneTail) :
    ∃ h', abortCommands inp h cmds = .ok h' ∧ DoneOnly h h' ∧
      BookSteps { h.book with toIssue := h.q.cmdsToIssue ++ cmds } h'.book ∧
      TailOk Command.cookie h'.q.cmdsDone h'.q.cmdsDoneTail := by
  refine abortCommands_ok (fun b l => { b with toIssue := b.toIssue ++ l })
    (fun b => by simp) (fun hs => ?_) inp hinv (fun _ _ => rfl) (fun b l c hc => ?_) ht
  · exact .abort rfl hs
  · simp [Book.commands, hc]

/-- The same for `cmds_in_flight`. -/
theorem abortInFlight_ok (inp : Input) (cmds : List Command) {h : Handle}
    (hinv : { h.book with inFlight := h.q.cmdsInFlight ++ cmds }.Inv)
    (ht : TailOk Command.cookie h.q.cmdsDone h.q.cmdsDoneTail) :
    ∃ h', abortCommands inp h cmds = .ok h' ∧ DoneOnly h h' ∧
      BookSteps { h.book with inFlight := h.q.cmdsInFlight ++ cmds } h'.book ∧
      TailOk Command.cookie h'.q.cmdsDone h'.q.cmdsDoneTail := by
  refine abortCommands_ok (fun b l => { b with inFlight := b.inFlight ++ l })
    (fun b => by simp) (fun hs => ?_) inp hinv (fun _ _ => rfl) (fun b l c hc => ?_) ht
  · exact .finish rfl hs
  · simp [Book.commands, hc]

/-- What `abortAll` leaves behind. -/
theorem abortAll_ok (inp : Input) {h : Handle} (hinv : h.book.Inv) (ht : Tails h) :
    ∃ h₁ h₂ h',
      abortCommands inp { h with q := { h.q with cmdsToIssue := [] } } h.q.cmdsToIssue = .ok h₁ ∧
      abortCommands inp { h₁ with q := { h₁.q with cmdsInFlight := [] } } h₁.q.cmdsInFlight
        = .ok h₂ ∧
      abortAll inp h = .ok h' ∧
      DoneOnly { h with sock := false
                        q := { h.q with cmdsToIssue := [], cmdsInFlight := [], inFlight := 0 } } h' ∧
      h'.q.cmdsDone = h₂.q.cmdsDone ∧ h'.trace = h₂.trace ∧
      BookSteps h.book h'.book ∧ TailOk Command.cookie h'.q.cmdsDone h'.q.cmdsDoneTail := by
  obtain ⟨h₁, hok₁, hdo₁, hs₁, ht₁⟩ :=
    abortQueued_ok inp h.q.cmdsToIssue (h := { h with q := { h.q with cmdsToIssue := [] } }) (by simpa [Handle.book] using hinv) ht.done
  have hs₁' : BookSteps h.book h₁.book := by simpa [Handle.book] using hs₁
  have hinv₁ := Book.inv_steps hinv hs₁'
  obtain ⟨h₂, hok₂, hdo₂, hs₂, ht₂⟩ :=
    abortInFlight_ok inp h₁.q.cmdsInFlight (h := { h₁ with q := { h₁.q with cmdsInFlight := [] } })
      (by simpa [Handle.book] using hinv₁) ht₁
  have hs₂' : BookSteps h₁.book h₂.book := by simpa [Handle.book] using hs₂
  refine ⟨h₁, h₂, { h₂ with sock := false, q := { h₂.q with inFlight := 0 } }, hok₁, hok₂, ?_, ?_,
    rfl, rfl, hs₁'.trans hs₂', ht₂⟩
  · unfold abortAll
    rw [hok₁]
    simp only [hok₂]
  · unfold DoneOnly at *
    rw [hdo₂, hdo₁]

theorem abortAll_refines (inp : Input) {h : Handle} (hinv : h.book.Inv) (ht : Tails h)
    (hdead : ¬ h.alive) : ∃ h', abortAll inp h = .ok h' ∧ Refines h h' := by
  obtain ⟨-, -, h', -, -, hok, hdo, -, -, hsteps, htail⟩ := abortAll_ok inp hinv ht
  have hstate : h'.state = h.state := by rw [hdo]
  refine ⟨h', hok, hsteps, ⟨?_, htail⟩, ?_⟩
  · intro ha
    exact absurd (by simpa only [Handle.alive, hstate] using ha) hdead
  · right
    rw [hdo]
    rfl

/-! ## Issuing -/

theorem enterIssueFinish_refines {h : Handle} (hinv : h.book.Inv) (ht : Tails h) (ha : h.alive) :
    (enterIssueFinish h).All (Refines h) := by
  unfold enterIssueFinish
  apply require_all
  intro _
  split
  · trivial
  · rename_i cmd rest hq
    apply require_all
    intro _
    have htail := ht.toIssue ha
    refine ⟨.single (.issue hq), ⟨fun _ => ?_, ht.done⟩, ?_⟩
    · -- the tail is the head only if the head is the last command
      have hnd := hinv.nodup_lists.1
      simp only [Handle.book, hq, List.map_cons, List.nodup_cons] at hnd
      rw [hq] at htail
      simp only [Handle.log]
      cases rest with
      | nil =>
        simp only [TailOk, List.getLast?_singleton, Option.map_some] at htail
        simp [htail, TailOk]
      | cons d ds =>
        have hlast : TailOk Command.cookie (d :: ds) h.q.cmdsToIssueTail := by
          simpa only [TailOk, List.getLast?_cons_cons] using htail
        have hne : h.q.cmdsToIssueTail ≠ some cmd.cookie := by
          intro heq
          rw [heq] at hlast
          obtain ⟨c, hc, hk⟩ := Option.map_eq_some_iff.mp hlast.symm
          exact hnd.1 (hk ▸ List.mem_map_of_mem (List.mem_of_getLast? hc))
        rw [if_neg hne]
        exact hlast
    · left
      simp only [Handle.slack, Handle.log, hq, List.length_cons]
      omega

/-! ## Finishing -/

theorem eraseP_of_findCmd {k : Nat} {l : List Command} {cmd : Command}
    (hf : Handle.findCmd k l = some cmd) :
    ∃ pre post, l = pre ++ cmd :: post ∧ l.eraseP (fun c => c.cookie == k) = pre ++ post ∧
      cmd.cookie = k ∧ k ∉ pre.map Command.cookie := by
  induction l with
  | nil => cases hf
  | cons c cs ih =>
    rw [findCmd_cons] at hf
    split at hf
    · rename_i hk
      cases hf
      exact ⟨[], cs, rfl, by simp [hk], hk, by simp⟩
    · rename_i hk
      obtain ⟨pre, post, rfl, he, hck, hnot⟩ := ih hf
      refine ⟨c :: pre, post, rfl, ?_, hck, ?_⟩
      · have hkb : (c.cookie == k) = false := by simpa using hk
        simp only [List.cons_append, List.eraseP_cons, hkb, he, cond_false]
      · simp only [List.map_cons, List.mem_cons, not_or]
        exact ⟨fun h => hk h.symm, hnot⟩

/-- `h'` is `h` after `cmd` was finished. -/
structure Finished (h : Handle) (cmd : Command) (h' : Handle) : Prop where
  frame : DoneOnly (Handle.unlink { h with rx := { h.rx with replyCmd := none } } cmd.cookie) h'
  book : ∃ pre post cmd' retire, h.q.cmdsInFlight = pre ++ cmd :: post ∧
    Settled cmd cmd' cmd.error retire ∧
    h'.book = { h.book with inFlight := pre ++ post }.settle cmd cmd' cmd.error retire
  tails : Tails h'
  slack : h'.slack = h.slack

theorem Finished.refines {h h' : Handle} {cmd : Command} (hf : Finished h cmd h') :
    Refines h h' := by
  obtain ⟨pre, post, cmd', retire, hl, hs, hb⟩ := hf.book
  refine ⟨?_, hf.tails, .inl hf.slack⟩
  rw [hb]
  exact .single (.finish hl hs)

/-- `FINISH_COMMAND` when the search finds a command. -/
theorem finishCommand_ok (inp : Input) {h : Handle} {cmd : Command} (hinv : h.book.Inv)
    (ht : Tails h) (ha : h.alive) (hf : Handle.findCmd h.replyCookie h.q.cmdsInFlight = some cmd) :
    ∃ h', Finished h cmd h' ∧ enterReplyFinishCommand inp h =
      require (h.rx.replyCmd == h.lookupReply) .finishLookup
        (require (decide (0 ≤ h'.q.inFlight)) .inFlightNegative (goto .ready h')) := by
  obtain ⟨cmd', retire, hn, hs⟩ := notifyCompletion_ok inp cmd cmd.error id
  obtain ⟨pre, post, hl, he, hck, -⟩ := eraseP_of_findCmd hf
  have hc : cmd.ClosuresOk := by
    apply hinv.closures
    simp [Book.commands, Handle.book, hl]
  have hdisc : ¬ (cmd.completion.isNull = false ∧ cmd.type = .disc) := by
    rintro ⟨hnull, hd⟩
    rw [hc.2 hd] at hnull
    exact absurd hnull (by decide)
  obtain ⟨h', hset, hdo, hbook, htail⟩ := settle_ok
    (h := Handle.unlink { h with rx := { h.rx with replyCmd := none } } cmd.cookie)
    hinv.nodup_lists.2.2 ht.done hs
  refine ⟨h', ⟨hdo, ⟨pre, post, cmd', retire, hl, hs, ?_⟩, ⟨?_, htail⟩, ?_⟩, ?_⟩
  · rw [hbook]
    simp only [Handle.book, Handle.unlink]
    rw [hck, he]
  · intro _
    rw [hdo]
    exact ht.toIssue ha
  · rw [hdo]
    simp only [Handle.slack, Handle.unlink]
    rw [hck, he, hl]
    simp only [List.length_append, List.length_cons]
    omega
  · unfold enterReplyFinishCommand
    simp only [hf]
    rw [if_neg hdisc, hn]
    simp only [hset]

theorem enterReplyFinishCommand_refines (inp : Input) {h : Handle} (hinv : h.book.Inv)
    (ht : Tails h) (ha : h.alive) : (enterReplyFinishCommand inp h).All (Refines h) := by
  cases hf : Handle.findCmd h.replyCookie h.q.cmdsInFlight with
  | none =>
    unfold enterReplyFinishCommand
    simp only [hf]
    exact require_all fun _ => .of_q_eq ht ha rfl rfl
  | some cmd =>
    obtain ⟨h', hfin, heq⟩ := finishCommand_ok inp hinv ht ha hf
    rw [heq]
    apply require_all
    intro _
    apply require_all
    intro _
    have hr := hfin.refines
    refine ⟨hr.steps, ⟨fun _ => hr.tails.toIssue ?_, hr.tails.done⟩, hr.slack⟩
    rw [hfin.frame]
    exact ha

/-- **One iteration of the run loop.** -/
theorem enter_refines (inp : Input) {h : Handle} (hinv : h.book.Inv) (ht : Tails h) :
    (enter inp h).All (Refines h) := by
  by_cases ha : h.alive
  · rcases h.state.kinds with hs | hs | hs | hs | hs | hs
    · exact (enter_quiet inp hs).mono fun _ hq => .of_quiet ht ha hq
    · refine (enter_sends inp hs).mono fun _ hq => .of_q_eq ht ha ?_ ?_
      · rw [hq.eq]
      · rw [hq.eq]
    · simp only [enter, hs]
      exact enterIssueFinish_refines hinv ht ha
    · simp only [enter, hs]
      exact enterReplyFinishCommand_refines inp hinv ht ha
    · exact absurd hs ha.1
    · exact absurd hs ha.2
  · obtain ⟨h', hok, href⟩ := abortAll_refines inp hinv ht ha
    have hst : h.state = .dead ∨ h.state = .closed := by
      simp only [Handle.alive] at ha
      tauto
    unfold enter
    rcases hst with hst | hst
    · simp only [hst, enterDead, hok]
      exact require_all fun _ => href
    · simp only [hst, enterClosed, hok]
      exact href

end Libnbd
