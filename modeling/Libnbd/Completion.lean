import Libnbd.Reachable

/-!
Which commands a step completes, with which error, and what becomes of them.

`FINISH_COMMAND` completes the command of the reply header with the error that
the replies left in it; `DEAD`, `CLOSED` and `LIBNBD_SHUTDOWN_ABANDON_PENDING`
complete commands with `ENOTCONN` unless there is an error already. `Completes`
says what this does to the trace and to `cmds_done`.
-/

namespace Libnbd

open Lib

/-- The completion callback does not change `*error`. -/
def Input.LeavesError (inp : Input) : Prop :=
  ∀ k err, (inp.callback (.completion k err)).error = err

/-- A command completed with `err` is retired at once: it is `NBD_CMD_DISC`, or
its callback returns 1. -/
def retires (inp : Input) (cmd : Command) (err : UInt32) : Bool :=
  decide (cmd.type = .disc) || (cmd.completion.callback &&
    decide ((inp.callback (.completion cmd.cookie err)).ret = 1))

/-- The record kept of a command whose callback saw `err`. -/
def told (inp : Input) (cmd : Command) (err : UInt32) : Command :=
  let r := inp.callback (.completion cmd.cookie err)
  if cmd.completion.callback = true ∧ r.ret = -1 ∧ r.error ≠ 0 then { cmd with error := r.error }
  else cmd

theorem notifyCompletion_eq (inp : Input) (cmd : Command) (err : UInt32) :
    notifyCompletion inp cmd err =
      (completionEvents cmd err, told inp cmd err, retires inp cmd err) := by
  unfold notifyCompletion callCallback completionEvents told retires
  cases hcb : cmd.completion.callback with
  | false => simp
  | true =>
    by_cases hret : (inp.callback (.completion cmd.cookie err)).ret = -1
    · by_cases herr : (inp.callback (.completion cmd.cookie err)).error = 0 <;>
        simp [hret, herr]
    · simp [hret]

theorem told_cookie (inp : Input) (cmd : Command) (err : UInt32) :
    (told inp cmd err).cookie = cmd.cookie := by
  unfold told
  simp only
  split <;> rfl

theorem told_finish {inp : Input} (hl : inp.LeavesError) (cmd : Command) :
    told inp cmd cmd.error = cmd := by
  unfold told
  simp only [hl cmd.cookie cmd.error]
  split <;> rfl

theorem told_abort {inp : Input} (hl : inp.LeavesError) (cmd : Command) :
    { told inp cmd (orErr cmd.error enotconn) with
      error := orErr (told inp cmd (orErr cmd.error enotconn)).error enotconn } =
      { cmd with error := orErr cmd.error enotconn } := by
  unfold told
  simp only [hl cmd.cookie (orErr cmd.error enotconn)]
  split
  · have hne := orErr_enotconn_ne cmd.error
    have hid : orErr (orErr cmd.error enotconn) enotconn = orErr cmd.error enotconn := if_neg hne
    simp only [hid]
  · rfl

/-- What completing a command logs. -/
def settleEvents (inp : Input) (cmd : Command) (err : UInt32) : List Event :=
  completionEvents cmd err ++ [Event.finish cmd.cookie] ++
    if retires inp cmd err then retireAndFreeCommand cmd else []

theorem completion_mem_settleEvents {inp : Input} {cmd : Command} {err err' : UInt32} {k : Nat} :
    Event.completion k err' ∈ settleEvents inp cmd err ↔
      cmd.completion.callback = true ∧ cmd.cookie = k ∧ err = err' := by
  have hfree : Event.completion k err' ∉ retireAndFreeCommand cmd := by
    unfold retireAndFreeCommand
    split_ifs <;> simp
  have htail : Event.completion k err' ∉
      [Event.finish cmd.cookie] ++ if retires inp cmd err then retireAndFreeCommand cmd else [] := by
    split <;> simp [hfree]
  unfold settleEvents completionEvents
  rw [List.append_assoc, List.mem_append, or_iff_left htail]
  split
  · rename_i hcb
    simp only [hcb, List.mem_singleton, Event.completion.injEq, true_and]
    constructor <;> rintro ⟨rfl, rfl⟩ <;> exact ⟨rfl, rfl⟩
  · rename_i hcb
    simp [hcb]

theorem retired_settleEvents (inp : Input) (cmd : Command) (err : UInt32) :
    retiredCookies (settleEvents inp cmd err) =
      if retires inp cmd err then [cmd.cookie] else [] := by
  have hcall := (cookies_of_isCall (completionEvents_isCall cmd err)).2.2
  have hfin : retiredCookies [Event.finish cmd.cookie] = [] := rfl
  unfold settleEvents
  rw [retiredCookies_append, retiredCookies_append, hcall, hfin]
  split
  · exact (cookies_retireAndFree cmd).2.2
  · rfl

theorem finished_settleEvents (inp : Input) (cmd : Command) (err : UInt32) :
    finishedCookies (settleEvents inp cmd err) = [cmd.cookie] := by
  have hcall := (cookies_of_isCall (completionEvents_isCall cmd err)).2.1
  have hfin : finishedCookies [Event.finish cmd.cookie] = [cmd.cookie] := rfl
  unfold settleEvents
  rw [finishedCookies_append, finishedCookies_append, hcall, hfin]
  split
  · rw [(cookies_retireAndFree cmd).2.1]
    rfl
  · rfl

/-- The commands `ps`, each with the error given to its callback, are completed
between `h` and `h'`. -/
structure Completes (inp : Input) (ps : List (Command × UInt32)) (h h' : Handle) : Prop where
  events : ∃ es, h'.trace = h.trace ++ es ∧
    (∀ k err, Event.completion k err ∈ es ↔
      ∃ p ∈ ps, p.1.completion.callback = true ∧ p.1.cookie = k ∧ p.2 = err) ∧
    retiredCookies es = ((ps.filter fun p => retires inp p.1 p.2).map fun p => p.1.cookie) ∧
    finishedCookies es = ps.map fun p => p.1.cookie
  done : inp.LeavesError → h'.q.cmdsDone = h.q.cmdsDone ++
    (ps.filter fun p => !retires inp p.1 p.2).map fun p => { p.1 with error := p.2 }

theorem Completes.silent {inp : Input} {h h' : Handle} {es : List Event}
    (htr : h'.trace = h.trace ++ es) (hes : ∀ k err, Event.completion k err ∉ es)
    (hret : retiredCookies es = []) (hfin : finishedCookies es = [])
    (hdone : h'.q.cmdsDone = h.q.cmdsDone) : Completes inp [] h h' where
  events := ⟨es, htr, by simp [hes], hret, hfin⟩
  done := fun _ => by simp [hdone]

theorem Completes.same {inp : Input} {h h' : Handle} (htr : h'.trace = h.trace)
    (hdone : h'.q.cmdsDone = h.q.cmdsDone) : Completes inp [] h h' :=
  .silent (by rw [htr, List.append_nil]) (by simp) rfl rfl hdone

theorem Completes.trans {inp : Input} {ps qs : List (Command × UInt32)} {h h₁ h₂ : Handle}
    (h₁₂ : Completes inp ps h h₁) (h₂₃ : Completes inp qs h₁ h₂) :
    Completes inp (ps ++ qs) h h₂ := by
  obtain ⟨es, htr, hes, hret, hfin⟩ := h₁₂.events
  obtain ⟨fs, htr', hfs, hret', hfin'⟩ := h₂₃.events
  refine ⟨⟨es ++ fs, by rw [htr', htr, List.append_assoc], ?_, ?_, ?_⟩, ?_⟩
  · intro k err
    rw [List.mem_append, hes, hfs]
    simp only [List.mem_append]
    grind
  · rw [retiredCookies_append, hret, hret', List.filter_append, List.map_append]
  · rw [finishedCookies_append, hfin, hfin', List.map_append]
  · intro hl
    rw [h₂₃.done hl, h₁₂.done hl, List.filter_append, List.map_append, List.append_assoc]

/-! ## Completing one command, and aborting a list -/

/-- A command off its lists is completed with `err` and kept as `cmd'`. -/
theorem settle_completes {inp : Input} {h : Handle} {cmd cmd' : Command} {err : UInt32}
    (hnd : (h.q.cmdsDone.map Command.cookie).Nodup)
    (ht : TailOk Command.cookie h.q.cmdsDone h.q.cmdsDoneTail)
    (hs : Settled cmd cmd' err (retires inp cmd err))
    (hl : inp.LeavesError → cmd' = { cmd with error := err }) {h' : Handle}
    (hok : (h.log (completionEvents cmd err ++ [Event.finish cmd.cookie])).settle cmd'
      (retires inp cmd err) = .ok h') : Completes inp [(cmd, err)] h h' := by
  obtain ⟨h₁, hok₁, -, hbook, -⟩ := settle_ok hnd ht hs
  obtain rfl : h₁ = h' := Except.ok.inj (hok₁.symm.trans hok)
  have htr : h₁.trace = h.trace ++ settleEvents inp cmd err := congrArg Book.trace hbook
  have hdone : h₁.q.cmdsDone =
      if retires inp cmd err then h.q.cmdsDone else h.q.cmdsDone ++ [cmd'] :=
    congrArg Book.done hbook
  refine ⟨⟨_, htr, fun k err' => ?_, ?_, finished_settleEvents inp cmd err⟩, fun hle => ?_⟩
  · rw [completion_mem_settleEvents]
    simp
  · rw [retired_settleEvents]
    cases hr : retires inp cmd err <;> simp [hr]
  · rw [hdone, hl hle]
    cases hr : retires inp cmd err <;> simp [hr]

theorem abortCommand_completes {inp : Input} {h h' : Handle} {cmd : Command} (hc : cmd.ClosuresOk)
    (hnd : (h.q.cmdsDone.map Command.cookie).Nodup)
    (ht : TailOk Command.cookie h.q.cmdsDone h.q.cmdsDoneTail)
    (hok : abortCommand inp h cmd = .ok h') :
    Completes inp [(cmd, orErr cmd.error enotconn)] h h' := by
  have hdisc : ¬ (cmd.completion.isNull = false ∧ cmd.type = .disc) := by
    rintro ⟨hn, hd⟩
    rw [hc.2 hd] at hn
    exact absurd hn (by decide)
  unfold abortCommand at hok
  rw [if_neg hdisc, notifyCompletion_eq] at hok
  have hev : [Event.finish (told inp cmd (orErr cmd.error enotconn)).cookie] =
      [Event.finish cmd.cookie] := by rw [told_cookie]
  simp only at hok
  rw [hev] at hok
  refine settle_completes hnd ht ?_ (fun hl => told_abort hl cmd) hok
  refine ⟨?_, fun _ => ⟨orErr_enotconn_ne _, orErr_enotconn_ne _⟩, fun hd => by simp [retires, hd]⟩
  unfold told
  simp only
  split <;> rfl

/-- The commands of a list, with the errors that aborting gives them. -/
def withAbortError (cmds : List Command) : List (Command × UInt32) :=
  cmds.map fun cmd => (cmd, orErr cmd.error enotconn)

section Loop

variable (put : Book → List Command → Book) (hnil : ∀ b, put b [] = b)
  (hput : ∀ {b cmd post cmd' err retire}, Settled cmd cmd' err retire →
    BookStep (put b (cmd :: post)) (put (b.settle cmd cmd' err retire) post))

include hput

theorem abortCommands_completes (inp : Input) {cmds : List Command} {h h' : Handle}
    (hinv : (put h.book cmds).Inv) (hdone : ∀ b l, (put b l).done = b.done)
    (hmem : ∀ b l c, c ∈ l → c ∈ (put b l).commands)
    (ht : TailOk Command.cookie h.q.cmdsDone h.q.cmdsDoneTail)
    (hok : abortCommands inp h cmds = .ok h') : Completes inp (withAbortError cmds) h h' := by
  induction cmds generalizing h with
  | nil =>
    cases hok
    exact .same rfl rfl
  | cons cmd cmds ih =>
    have hnd : (h.q.cmdsDone.map Command.cookie).Nodup := by
      have := hinv.nodup_lists.2.2
      rwa [hdone] at this
    have hc : cmd.ClosuresOk := hinv.closures (hmem _ _ _ List.mem_cons_self)
    obtain ⟨h₁, cmd', retire, hok₁, -, hs, -, hbook, htail⟩ := abortCommand_ok inp hc hnd ht
    have hstep : BookStep (put h.book (cmd :: cmds)) (put h₁.book cmds) := by
      rw [hbook]
      exact hput hs
    have hrest : abortCommands inp h₁ cmds = .ok h' := by
      rw [abortCommands, hok₁] at hok
      exact hok
    exact (abortCommand_completes hc hnd ht hok₁).trans
      (ih (Book.inv_step hinv hstep) htail hrest)

end Loop

/-- `nbd_internal_abort_commands` on commands behind `h.q.cmdsToIssue`. -/
theorem abortQueued_completes {inp : Input} {cmds : List Command} {h h' : Handle}
    (hinv : { h.book with toIssue := h.q.cmdsToIssue ++ cmds }.Inv)
    (ht : TailOk Command.cookie h.q.cmdsDone h.q.cmdsDoneTail)
    (hok : abortCommands inp h cmds = .ok h') : Completes inp (withAbortError cmds) h h' := by
  refine abortCommands_completes (fun b l => { b with toIssue := b.toIssue ++ l })
    (fun hs => .abort rfl hs) inp hinv (fun _ _ => rfl) (fun b l c hc => ?_) ht hok
  simp [Book.commands, hc]

theorem abortInFlight_completes {inp : Input} {cmds : List Command} {h h' : Handle}
    (hinv : { h.book with inFlight := h.q.cmdsInFlight ++ cmds }.Inv)
    (ht : TailOk Command.cookie h.q.cmdsDone h.q.cmdsDoneTail)
    (hok : abortCommands inp h cmds = .ok h') : Completes inp (withAbortError cmds) h h' := by
  refine abortCommands_completes (fun b l => { b with inFlight := b.inFlight ++ l })
    (fun hs => .finish rfl hs) inp hinv (fun _ _ => rfl) (fun b l c hc => ?_) ht hok
  simp [Book.commands, hc]

theorem abortAll_completes {inp : Input} {h h' : Handle} (hinv : h.book.Inv) (ht : Tails h)
    (hok : abortAll inp h = .ok h') :
    Completes inp (withAbortError (h.q.cmdsToIssue ++ h.q.cmdsInFlight)) h h' := by
  obtain ⟨h₁, h₂, h₃, hok₁, hok₂, hok₃, -, hdone, htr, -⟩ := abortAll_ok inp hinv ht
  obtain rfl : h₃ = h' := Except.ok.inj (hok₃.symm.trans hok)
  have hc₁ := abortQueued_completes (h := { h with q := { h.q with cmdsToIssue := [] } })
    (by simpa [Handle.book] using hinv) ht.done hok₁
  obtain ⟨g, hg, hdo, hsteps, htail⟩ := abortQueued_ok inp h.q.cmdsToIssue
    (h := { h with q := { h.q with cmdsToIssue := [] } }) (by simpa [Handle.book] using hinv) ht.done
  obtain rfl : g = h₁ := Except.ok.inj (hg.symm.trans hok₁)
  have hinv₁ : g.book.Inv := Book.inv_steps hinv (by simpa [Handle.book] using hsteps)
  have hc₂ := abortInFlight_completes (h := { g with q := { g.q with cmdsInFlight := [] } })
    (by simpa [Handle.book] using hinv₁) htail hok₂
  have hfl : g.q.cmdsInFlight = h.q.cmdsInFlight := by rw [hdo]
  rw [hfl] at hc₂
  have hall : Completes inp (withAbortError (h.q.cmdsToIssue ++ h.q.cmdsInFlight)) h h₂ := by
    have hqueued : Completes inp (withAbortError h.q.cmdsToIssue) h g := ⟨hc₁.events, hc₁.done⟩
    have hflight : Completes inp (withAbortError h.q.cmdsInFlight) g h₂ := ⟨hc₂.events, hc₂.done⟩
    rw [withAbortError, List.map_append]
    exact hqueued.trans hflight
  refine ⟨?_, fun hl => ?_⟩
  · rw [htr]
    exact hall.events
  · rw [hdone]
    exact hall.done hl

/-! ## The run loop -/

/-- The commands that one iteration of the run loop completes. -/
def enterCompletes (h : Handle) : List (Command × UInt32) :=
  match h.state with
  | .replyFinishCommand =>
    ((Handle.findCmd h.replyCookie h.q.cmdsInFlight).map fun cmd => (cmd, cmd.error)).toList
  | .dead | .closed => withAbortError (h.q.cmdsToIssue ++ h.q.cmdsInFlight)
  | _ => []

theorem Quiet.completes {inp : Input} {h h' : Handle} (hq : Quiet inp h h') :
    Completes inp [] h h' := by
  obtain ⟨es, htr, hes, -⟩ := hq.trace
  have hmid : ∀ e ∈ es, e.isCall = true := by
    intro e he
    obtain ⟨c, -, hc⟩ := hes e he
    exact midOf_isCall hc
  refine .silent htr (fun k err he => ?_) (cookies_of_isCall hmid).2.2
    (cookies_of_isCall hmid).2.1 (by rw [hq.q])
  obtain ⟨c, -, hc⟩ := hes _ he
  cases hc

theorem finishCommand_completes {inp : Input} {h : Handle} (hinv : h.book.Inv) (ht : Tails h)
    (hs : h.state = .replyFinishCommand) :
    (enterReplyFinishCommand inp h).All (Completes inp (enterCompletes h) h) := by
  have he : enterCompletes h = ((Handle.findCmd h.replyCookie h.q.cmdsInFlight).map
      fun cmd => (cmd, cmd.error)).toList := by simp only [enterCompletes, hs]
  rw [he]
  unfold enterReplyFinishCommand
  refine require_all fun _ => ?_
  split
  · rename_i hf
    rw [hf]
    exact .same rfl rfl
  · rename_i cmd hf
    rw [hf]
    refine ite_all (fun _ => trivial) fun _ => ?_
    rw [notifyCompletion_eq]
    simp only
    split
    · trivial
    · rename_i h' hok
      refine require_all fun _ => ?_
      have hset : Settled cmd (told inp cmd cmd.error) cmd.error (retires inp cmd cmd.error) := by
        obtain ⟨cmd', retire, hn, hs'⟩ := notifyCompletion_ok inp cmd cmd.error id
        rw [notifyCompletion_eq] at hn
        simp only [Prod.mk.injEq, true_and] at hn
        rw [hn.1, hn.2]
        exact hs'
      have hc := settle_completes
        (h := Handle.unlink { h with rx := { h.rx with replyCmd := none } } cmd.cookie)
        hinv.nodup_lists.2.2 ht.done hset (fun hl => told_finish hl cmd) hok
      exact ⟨hc.events, hc.done⟩

/-- **One iteration of the run loop** completes `enterCompletes`, nothing else. -/
theorem enter_completes (inp : Input) {h : Handle} (hinv : h.book.Inv) (ht : Tails h) :
    (enter inp h).All (Completes inp (enterCompletes h) h) := by
  have hnone : ∀ {s : State}, h.state = s → s ≠ .replyFinishCommand → s ≠ .dead → s ≠ .closed →
      enterCompletes h = [] := by
    intro s hs h₁ h₂ h₃
    unfold enterCompletes
    rw [hs]
    split <;> simp_all
  rcases h.state.kinds with hs | hs | hs | hs | hs | hs
  · rw [hnone rfl (by rintro he; rw [he] at hs; cases hs) (by rintro he; rw [he] at hs; cases hs)
      (by rintro he; rw [he] at hs; cases hs)]
    exact (enter_quiet inp hs).mono fun _ hq => hq.completes
  · rw [hnone rfl (by rintro he; rw [he] at hs; cases hs) (by rintro he; rw [he] at hs; cases hs)
      (by rintro he; rw [he] at hs; cases hs)]
    refine (enter_sends inp hs).mono fun _ hq => .same ?_ ?_
    · rw [hq.eq]
    · rw [hq.eq]
  · rw [hnone hs nofun nofun nofun]
    simp only [enter, hs, enterIssueFinish]
    refine require_all fun _ => ?_
    split
    · trivial
    · refine require_all fun _ => ?_
      exact .silent rfl (by simp) rfl rfl rfl
  · simp only [enter, hs]
    exact finishCommand_completes hinv ht hs
  · have he : enterCompletes h = withAbortError (h.q.cmdsToIssue ++ h.q.cmdsInFlight) := by
      simp [enterCompletes, hs]
    simp only [enter, hs, enterDead, he]
    refine require_all fun _ => ?_
    split
    · trivial
    · rename_i h' hok
      exact abortAll_completes hinv ht hok
  · have he : enterCompletes h = withAbortError (h.q.cmdsToIssue ++ h.q.cmdsInFlight) := by
      simp [enterCompletes, hs]
    simp only [enter, hs, enterClosed, he]
    split
    · trivial
    · rename_i h' hok
      exact abortAll_completes hinv ht hok

/-! ## API calls -/

/-- The commands that an API call completes before it returns or runs. -/
def callCompletes (h : Handle) : Api → List (Command × UInt32)
  | .shutdown flags =>
    if h.state.isConnected && flags &&& (0xffffffff ^^^ shutdownAbandonPending) == 0 &&
        hasFlag flags shutdownAbandonPending then withAbortError (abandoned h) else []
  | _ => []

def Submit.Completes (inp : Input) (ps : List (Command × UInt32)) (h : Handle) : Submit → Prop
  | .refused h' | .rejected h' | .accepted h' _ => Libnbd.Completes inp ps h h'
  | .abort _ => True

theorem completes_reject {inp : Input} {h h' : Handle} {fn completion : Closure}
    (htr : h'.trace = h.trace ++ rejectEvents fn completion)
    (hdone : h'.q.cmdsDone = h.q.cmdsDone) : Completes inp [] h h' := by
  have hes : ∀ e ∈ rejectEvents fn completion, e.isCall = true := by
    intro e he
    rcases rejectEvents_mem e he with rfl | rfl <;> rfl
  refine .silent htr (fun k err he => ?_) (cookies_of_isCall hes).2.2 (cookies_of_isCall hes).2.1
    hdone
  rcases rejectEvents_mem _ he with h | h <;> cases h

theorem enqueue_completes (inp : Input) (h : Handle) (cmd : Command) :
    (enqueue h cmd).Completes inp [] h := by
  unfold enqueue
  simp only
  split
  · split
    · exact .silent rfl (by simp) rfl rfl rfl
    · trivial
  · split
    · split
      · trivial
      · split
        · trivial
        · exact .silent rfl (by simp) rfl rfl rfl
    · trivial

theorem commandCommon_completes (inp : Input) (h : Handle) (r : Request) :
    (commandCommon inp h r).Completes inp [] h := by
  unfold commandCommon
  split
  · exact completes_reject rfl rfl
  · exact enqueue_completes inp h _

theorem abandonPending_completes {inp : Input} {h h' : Handle} (hinv : h.book.Inv) (ht : Tails h)
    (hok : abandonPending inp h = .ok h') :
    Completes inp (withAbortError (abandoned h)) h h' := by
  unfold abandonPending at hok
  unfold abandoned
  split at hok
  · rename_i hr
    have hc := abortQueued_completes (h := { h with q := { h.q with cmdsToIssue := [] } })
      (by simpa [Handle.book] using hinv) ht.done hok
    rw [if_pos hr]
    exact ⟨hc.events, hc.done⟩
  · rename_i hr
    rw [if_neg hr]
    split at hok
    · cases hok
    · rename_i cmd rest hq
      have hc := abortQueued_completes
        (h := { h with q := { h.q with cmdsToIssue := [cmd], cmdsToIssueTail := some cmd.cookie } })
        (by simpa [Handle.book, hq] using hinv) ht.done hok
      rw [hq]
      exact ⟨hc.events, hc.done⟩

theorem submission_completes {inp : Input} {h : Handle} {api : Api} {s : Submit}
    (hinv : h.book.Inv) (ht : Tails h) (hs : submission inp h api = some s) :
    s.Completes inp (callCompletes h api) h := by
  cases api with
  | command call =>
    cases hs
    obtain ⟨m, hm⟩ := sanitize_eq h call
    unfold submit
    simp only [hm]
    split
    · exact completes_reject rfl rfl
    · have hc := commandCommon_completes inp { h with mem := m } (callRequest { h with mem := m } call)
      generalize commandCommon inp { h with mem := m } (callRequest { h with mem := m } call) = t
        at hc ⊢
      cases t <;> first | exact ⟨hc.events, hc.done⟩ | trivial
  | aioDisconnect flags =>
    cases hs
    unfold aioDisconnect
    split
    · exact .same rfl rfl
    · split
      · exact .same rfl rfl
      · exact commandCommon_completes inp h _
  | shutdown flags =>
    cases hs
    generalize hps : callCompletes h (.shutdown flags) = ps
    simp only [callCompletes] at hps
    unfold shutdown
    split
    · rename_i hconn
      rw [if_neg (by simp_all)] at hps
      subst hps
      exact Completes.same rfl rfl
    · rename_i hconn
      split
      · rename_i hbad
        rw [if_neg (by simp_all)] at hps
        subst hps
        exact Completes.same rfl rfl
      · rename_i hbad
        split
        · trivial
        · rename_i h₁ hok
          have hc : Completes inp ps h h₁ := by
            split at hok
            · rename_i hf
              rw [if_pos (by simp_all)] at hps
              subst hps
              exact abandonPending_completes hinv ht hok
            · rename_i hf
              rw [if_neg (by simp_all)] at hps
              subst hps
              cases hok
              exact Completes.same rfl rfl
          split
          · exact hc
          · have hd := commandCommon_completes inp h₁ (discRequest 0)
            generalize commandCommon inp h₁ (discRequest 0) = t at hd ⊢
            cases t with
            | refused h' | rejected h' | accepted h' run =>
              have := hc.trans hd
              rwa [List.append_nil] at this
            | abort a => trivial
  | _ => cases hs

/-- `nbd_aio_command_completed` finds nothing to report, or retires a command
that is done. -/
theorem aioCommandCompleted_cases {h h' : Handle} {cookie : UInt64} {r : Int}
    (hok : aioCommandCompleted h cookie = .ok (h', r)) :
    (h'.q = h.q ∧ h'.trace = h.trace) ∨
    ∃ cmd, Handle.findCmd cookie.toNat h.q.cmdsDone = some cmd ∧ r = completedRet cmd ∧
      h'.trace = h.trace ++ (retireAndFreeCommand cmd ++ [Event.completed cmd.cookie r]) ∧
      h'.q.cmdsToIssue = h.q.cmdsToIssue ∧ h'.q.cmdsInFlight = h.q.cmdsInFlight ∧
      h'.q.cmdsDone = h.q.cmdsDone.eraseP fun c => c.cookie == cookie.toNat := by
  unfold aioCommandCompleted at hok
  split at hok
  · cases hok
    exact .inl ⟨rfl, rfl⟩
  · split at hok
    · cases hok
      exact .inl ⟨rfl, rfl⟩
    · rename_i cmd hf
      split at hok
      · cases hok
      · split at hok
        · cases hok
        · right
          have hp := Except.ok.inj hok
          have hh' := congrArg Prod.fst hp
          have hr : completedRet cmd = r := congrArg Prod.snd hp
          simp only at hh'
          obtain ⟨e, he⟩ := ite_setError _ _ _ _ _
          rw [he] at hh'
          refine ⟨cmd, hf, hr.symm, ?_⟩
          rw [← hh', ← hr]
          exact ⟨rfl, rfl, rfl, rfl⟩

theorem aioCommandCompleted_state {h h' : Handle} {cookie : UInt64} {r : Int}
    (hok : aioCommandCompleted h cookie = .ok (h', r)) :
    h'.state = h.state ∧ h'.disconnectRequest = h.disconnectRequest := by
  unfold aioCommandCompleted at hok
  split at hok
  · cases hok
    exact ⟨rfl, rfl⟩
  · split at hok
    · cases hok
      exact ⟨rfl, rfl⟩
    · split at hok
      · cases hok
      · split at hok
        · cases hok
        · have hh' := congrArg Prod.fst (Except.ok.inj hok)
          simp only at hh'
          obtain ⟨e, he⟩ := ite_setError _ _ _ _ _
          rw [he] at hh'
          rw [← hh']
          exact ⟨rfl, rfl⟩

/-- On a connected handle between two calls queueing a command always works. -/
theorem enqueue_eq {h : Handle} (cmd : Command) (hinv : h.book.Inv) (ht : Tails h)
    (hconn : h.state.isConnected = true) (hi : Idle h) :
    enqueue h cmd = .accepted ({ h with q := { h.q with
      cmdsToIssue := h.q.cmdsToIssue ++ [cmd], cmdsToIssueTail := some cmd.cookie
      unique := h.q.unique + 1, inFlight := h.q.inFlight + 1 } }.log [.accept cmd])
      (h.state == .ready) := by
  have htail := ht.toIssue (isConnected_alive hconn)
  unfold enqueue
  simp only [Handle.log]
  split
  · rename_i hnil
    rw [hnil] at htail
    have htn := (TailOk.eq_none _ htail).mpr rfl
    simp only [htn, if_true, hnil, List.nil_append]
  · rename_i c cs hcons
    have hready : h.state ≠ .ready := by
      intro hr
      rw [hi hr] at hcons
      cases hcons
    have hproc : h.state.isProcessing = true := by
      simpa [State.isConnected, hready] using hconn
    simp only [hproc, if_true, beq_eq_false_iff_ne.mpr hready]
    cases htl : h.q.cmdsToIssueTail with
    | none =>
      have := (TailOk.eq_none _ htail).mp htl
      rw [this] at hcons
      cases hcons
    | some t =>
      rw [htl] at htail
      have hlink : linkAfter Command.cookie t cmd h.q.cmdsToIssue =
          some (h.q.cmdsToIssue ++ [cmd]) :=
        linkAfter_of_tailOk Command.cookie cmd hinv.nodup_lists.1 htail
      simp only [hlink]

theorem commandCommon_not_abort {inp : Input} {h : Handle} {r : Request} (hinv : h.book.Inv)
    (ht : Tails h) (hconn : h.state.isConnected = true) (hi : Idle h) (a : Abort) :
    commandCommon inp h r ≠ .abort a := by
  unfold commandCommon
  split
  · nofun
  · rw [enqueue_eq _ hinv ht hconn hi]
    nofun

/-- The assertion of `nbd_unlocked_shutdown` holds when there is something to
abandon. -/
theorem abandonPending_ok (inp : Input) {h : Handle} (hinv : h.book.Inv) (ht : Tails h)
    (hne : h.state = .ready ∨ h.q.cmdsToIssue ≠ []) : ∃ h', abandonPending inp h = .ok h' := by
  unfold abandonPending
  split
  · obtain ⟨h', hok, -⟩ := abortQueued_ok inp h.q.cmdsToIssue
      (h := { h with q := { h.q with cmdsToIssue := [] } }) (by simpa [Handle.book] using hinv)
      ht.done
    exact ⟨h', hok⟩
  · rename_i hr
    split
    · rename_i hnil
      exact absurd hnil (hne.resolve_left hr)
    · rename_i cmd rest hq
      obtain ⟨h', hok, -⟩ := abortQueued_ok inp rest
        (h := { h with q := { h.q with cmdsToIssue := [cmd], cmdsToIssueTail := some cmd.cookie } })
        (by simpa [Handle.book, hq] using hinv) ht.done
      exact ⟨h', hok⟩

/-- `nbd_shutdown` fails an assertion only on an empty queue. -/
theorem shutdown_not_abort (inp : Input) {h : Handle} (flags : UInt32) (hinv : h.book.Inv)
    (ht : Tails h) (hi : Idle h) (hne : hasFlag flags shutdownAbandonPending = true →
      h.state = .ready ∨ h.q.cmdsToIssue ≠ []) (a : Abort) : shutdown inp h flags ≠ .abort a := by
  unfold shutdown
  split
  · nofun
  · rename_i hconn
    split
    · nofun
    · have hconn' : h.state.isConnected = true := by simpa using hconn
      split
      · rename_i b hok
        split at hok
        · rename_i hf
          obtain ⟨h', hok'⟩ := abandonPending_ok inp hinv ht (hne hf)
          rw [hok'] at hok
          cases hok
        · cases hok
      · rename_i h₁ hok
        split
        · nofun
        · split at hok
          · obtain ⟨hd, hi'⟩ := abandonPending_did inp hinv ht hi hok
            exact commandCommon_not_abort (Book.inv_steps hinv hd.steps) hd.tails
              (by rw [hd.state]; exact hconn') hi' a
          · cases hok
            exact commandCommon_not_abort hinv ht hconn' hi a

end Libnbd
