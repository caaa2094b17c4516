import Libnbd.Ownership

/-!
The two ways in which a caller learns how a command ended: the `*error` given
to the completion callback, and the return value of
`nbd_aio_command_completed`.

Both are computed from the same record, but only the second one looks at
`data_seen`. They agree as long as a READ that finishes without an error has
received as many bytes as it asked for, and as long as `nbd_close` finds no
successful command, whose callback it would call again with `ENOTCONN`.
-/

namespace Libnbd

open Lib

/-- What `nbd_aio_command_completed` returns for a command that is done. -/
def completedFor (h : Handle) (k : Nat) : Option Int :=
  (Handle.findCmd k h.q.cmdsDone).map completedRet

/-- `nbd_aio_command_completed` returns that value, and 0 for other cookies. -/
theorem aioCommandCompleted_returns {h : Handle} (hinv : h.book.Inv) (ht : Tails h)
    {cookie : UInt64} (hpos : 1 ≤ cookie) :
    ∃ h', aioCommandCompleted h cookie = .ok (h', (completedFor h cookie.toNat).getD 0) := by
  unfold aioCommandCompleted completedFor
  rw [if_neg (UInt64.not_lt.mpr hpos)]
  cases hf : Handle.findCmd cookie.toNat h.q.cmdsDone with
  | none => exact ⟨h, rfl⟩
  | some cmd =>
    have hmem := (findCmd_mem hf).1
    have hdisc : cmd.type ≠ .disc := hinv.noDisc cmd hmem
    have htail : ¬ (h.q.cmdsDoneTail = some cmd.cookie ∧
        h.q.cmdsDone.getLast?.map Command.cookie ≠ some cmd.cookie) := by
      rintro ⟨h₁, h₂⟩
      have hd := ht.done
      rw [TailOk] at hd
      exact h₂ (hd.symm.trans h₁)
    simp only [if_neg hdisc, if_neg htail]
    exact ⟨_, rfl⟩

/-- Completion callbacks that leave `*error` alone and keep the command. -/
def Input.keeping (inp : Input) : Input :=
  { inp with
    callback := fun e =>
      match e with
      | .completion _ err => ⟨0, err⟩
      | e => inp.callback e }

def Label.inp : Label → Input
  | .enter inp | .call _ inp => inp

def Label.keeping : Label → Label
  | .enter inp => .enter inp.keeping
  | .call api inp => .call api inp.keeping

theorem keeping_leavesError (inp : Input) : inp.keeping.LeavesError := fun _ _ => rfl

/-- The callback is told `err` about command `k` in this step. Had it kept the
command, `nbd_aio_command_completed` would call the same a failure. Before
`nbd_close` frees the handle, only commands that are done have such a value. -/
def Reported (c : Config) (l : Label) (k : Nat) (err : UInt32) : Prop :=
  match l with
  | .call .close _ => ∀ r, completedFor c.h k = some r → (err ≠ 0 ↔ r = -1)
  | l => ∃ c₀ r, machine.step c l.keeping = some c₀ ∧ completedFor c₀.h k = some r ∧
      (err ≠ 0 ↔ r = -1)

/-- The two channels agree on every command that the step completes. -/
def StepAgrees (c : Config) (l : Label) (c' : Config) : Prop :=
  ∀ es, c'.h.trace = c.h.trace ++ es → ∀ k err, Event.completion k err ∈ es → Reported c l k err

/-- The two channels agree on every command that is done. -/
def ChannelsAgree (c : Config) : Prop :=
  ∀ k err r, Event.completion k err ∈ c.h.trace → completedFor c.h k = some r →
    (err ≠ 0 ↔ r = -1)

/-- A READ that finishes without an error has all its data, and `nbd_close` finds
no successful command that has a completion callback. -/
def Covered (c : Config) : Label → Prop
  | .enter _ => c.h.state = .replyFinishCommand → ∀ cmd, c.h.replyRef = .live cmd →
      cmd.completion.callback = true → cmd.error = 0 → cmd.type = .read →
      cmd.dataSeen.toUInt64 = cmd.count
  | .call .close _ => ∀ cmd ∈ c.h.q.cmdsDone, cmd.completion.callback = true →
      cmd.error ≠ 0 ∨ cmd.type = .read ∧ cmd.dataSeen.toUInt64 ≠ cmd.count
  | .call _ _ => True

instance (c : Config) (l : Label) : Decidable (Covered c l) :=
  match l with
  | .enter _ =>
    match hr : c.h.replyRef with
    | .live cmd =>
      decidable_of_iff (c.h.state = .replyFinishCommand → cmd.completion.callback = true →
          cmd.error = 0 → cmd.type = .read → cmd.dataSeen.toUInt64 = cmd.count)
        ⟨fun h hs _ he => Handle.Ref.live.inj (hr.symm.trans he) ▸ h hs, fun h hs => h hs cmd hr⟩
    | .null => isTrue fun _ _ he => nomatch hr.symm.trans he
    | .dangling => isTrue fun _ _ he => nomatch hr.symm.trans he
  | .call .close _ => inferInstanceAs (Decidable (∀ cmd ∈ c.h.q.cmdsDone,
      cmd.completion.callback = true →
        cmd.error ≠ 0 ∨ cmd.type = .read ∧ cmd.dataSeen.toUInt64 ≠ cmd.count))
  | .call (.command _) _ | .call (.aioDisconnect _) _ | .call (.shutdown _) _
  | .call (.aioCommandCompleted _) _ | .call .aioNotifyRead _ | .call .aioNotifyWrite _
  | .call (.setStrictMode _) _ | .call (.setPreadInitialize _) _ => isTrue trivial

theorem completedRet_eq_neg_one {cmd : Command} :
    completedRet cmd = -1 ↔
      cmd.error ≠ 0 ∨ cmd.type = .read ∧ cmd.dataSeen.toUInt64 ≠ cmd.count := by
  have hzero : completedError cmd = 0 ↔
      cmd.error = 0 ∧ (cmd.type = .read → cmd.dataSeen.toUInt64 = cmd.count) := by
    unfold completedError
    split
    · rename_i h
      simp only [h.2.2, true_and]
      exact ⟨fun h' => absurd h' (by decide), fun h' => absurd (h' h.1) h.2.1⟩
    · rename_i h
      refine ⟨fun he => ⟨he, fun hr => ?_⟩, fun he => he.1⟩
      by_contra hne
      exact h ⟨hr, hne, he⟩
  unfold completedRet
  split
  · rename_i h
    have hz := hzero.mp h
    simpa [hz.1] using hz.2
  · rename_i h
    rw [hzero, not_and_or, Classical.not_imp] at h
    simpa using h

/-- The record kept of a command that was completed with `err`. -/
theorem agree_iff {cmd : Command} {err : UInt32} :
    (err ≠ 0 ↔ completedRet { cmd with error := err } = -1) ↔
      (err = 0 → cmd.type = .read → cmd.dataSeen.toUInt64 = cmd.count) := by
  rw [completedRet_eq_neg_one]
  by_cases he : err = 0
  · simp [he]
  · simp [he]

theorem completedFor_of_mem {h : Handle} (hinv : h.book.Inv) {cmd : Command}
    (hmem : cmd ∈ h.q.cmdsDone) : completedFor h cmd.cookie = some (completedRet cmd) := by
  have hnd := hinv.nodup_lists.2.2
  have hf : Handle.findCmd cmd.cookie h.q.cmdsDone = some cmd := by
    cases hf : Handle.findCmd cmd.cookie h.q.cmdsDone with
    | none => exact absurd (List.mem_map_of_mem hmem) (findCmd_eq_none.mp hf)
    | some c =>
      obtain ⟨hc, hk⟩ := findCmd_mem hf
      exact congrArg some (List.inj_on_of_nodup_map hnd hc hmem hk)
  rw [completedFor, hf]
  rfl

theorem completedFor_cases {h : Handle} {k : Nat} {r : Int} (hr : completedFor h k = some r) :
    ∃ cmd ∈ h.q.cmdsDone, cmd.cookie = k ∧ completedRet cmd = r := by
  obtain ⟨cmd, hf, hret⟩ := Option.map_eq_some_iff.mp hr
  exact ⟨cmd, (findCmd_mem hf).1, (findCmd_mem hf).2, hret⟩

/-! ## One step -/

/-- Everything an iteration completes was queued or in flight. -/
theorem enterCompletes_mem {h : Handle} {p : Command × UInt32} (hp : p ∈ enterCompletes h) :
    p.1 ∈ h.q.cmdsToIssue ++ h.q.cmdsInFlight := by
  unfold enterCompletes at hp
  split at hp
  · simp only [Option.mem_toList, Option.map_eq_some_iff] at hp
    obtain ⟨cmd, hf, rfl⟩ := hp
    exact List.mem_append_right _ (findCmd_mem hf).1
  · obtain ⟨cmd, hcmd, rfl⟩ := List.mem_map.mp hp
    exact hcmd
  · obtain ⟨cmd, hcmd, rfl⟩ := List.mem_map.mp hp
    exact hcmd
  · cases hp

/-- Only `FINISH_COMMAND` completes a command without an error. -/
theorem withAbortError_ne {cmds : List Command} {p : Command × UInt32}
    (hp : p ∈ withAbortError cmds) : p.2 ≠ 0 := by
  obtain ⟨cmd, -, rfl⟩ := List.mem_map.mp hp
  exact orErr_enotconn_ne _

theorem callCompletes_ne {h : Handle} {api : Api} {p : Command × UInt32}
    (hp : p ∈ callCompletes h api) : p.2 ≠ 0 := by
  cases api with
  | shutdown flags =>
    simp only [callCompletes] at hp
    split at hp
    · exact withAbortError_ne hp
    · cases hp
  | _ => cases hp

/-- A command with a completion callback that keeps it is not retired. -/
theorem retires_keeping {inp : Input} {h : Handle} (hinv : h.book.Inv) {p : Command × UInt32}
    (hp : p.1 ∈ h.q.cmdsToIssue ++ h.q.cmdsInFlight) (hcb : p.1.completion.callback = true) :
    retires inp.keeping p.1 p.2 = false := by
  have hc : p.1.ClosuresOk := hinv.closures (List.mem_append_left _ hp)
  have hd : p.1.type ≠ .disc := by
    intro hd
    rw [hc.2 hd] at hcb
    cases hcb
  simp [retires, hd, Input.keeping]

/-- What a completed command is after callbacks that keep it. -/
theorem Completes.keeping {inp : Input} {ps : List (Command × UInt32)} {h h' : Handle}
    (hc : Completes inp.keeping ps h h') (hinv : h.book.Inv) (hinv' : h'.book.Inv)
    {p : Command × UInt32} (hp : p ∈ ps) (hmem : p.1 ∈ h.q.cmdsToIssue ++ h.q.cmdsInFlight)
    (hcb : p.1.completion.callback = true) :
    completedFor h' p.1.cookie = some (completedRet { p.1 with error := p.2 }) := by
  have hdone : { p.1 with error := p.2 } ∈ h'.q.cmdsDone := by
    rw [hc.done (keeping_leavesError inp)]
    refine List.mem_append_right _ (List.mem_map.mpr ⟨p, List.mem_filter.mpr ⟨hp, ?_⟩, rfl⟩)
    simp [retires_keeping hinv hmem hcb]
  exact completedFor_of_mem hinv' hdone

/-- At `FINISH_COMMAND` the search finds `h->reply_cmd`, if there is one. -/
theorem finish_lookup {h : Handle} (hr : RxInv h) (hs : h.state = .replyFinishCommand)
    {cmd : Command} (hl : h.replyRef = .live cmd) :
    Handle.findCmd h.replyCookie h.q.cmdsInFlight = some cmd ∧ h.rx.replyCmd = h.lookupReply := by
  obtain ⟨hk, hf⟩ := replyRef_live hl
  have hmid : h.state.isMid = true := by rw [hs]; rfl
  have hc := (hr.at hmid).cmd.inFlight _ hk
  rw [hc.1] at hf
  refine ⟨hf, ?_⟩
  rw [Handle.lookupReply, hf, hk]
  rfl

theorem stepEnter_aborted {inp : Input} {after : After} {h : Handle} {a : Abort}
    (ho : enter inp h = .abort a) : (stepEnter inp after h).ctl = .aborted a := by
  rw [stepEnter, ho]

/-- Whether an iteration that completes commands fails does not depend on what
the callbacks do. -/
theorem completing_not_aborted {inp : Input} (inp' : Input) {after : After} {h : Handle}
    (hinv : h.book.Inv) (ht : Tails h) (hsl : 0 ≤ h.slack) (hne : enterCompletes h ≠ [])
    (hna : ∀ a, (stepEnter inp after h).ctl ≠ .aborted a) :
    (h.state = .replyFinishCommand → h.rx.replyCmd = h.lookupReply) ∧
      ∀ a, (stepEnter inp' after h).ctl ≠ .aborted a := by
  have hfail : ∀ {h' : Handle}, (∀ a, (afterRun after (-1) h').ctl ≠ .aborted a) ∧
      ∀ a, (afterRun after 0 h').ctl ≠ .aborted a := by
    intro h'
    constructor <;> intro a <;> cases after <;> rintro ⟨⟩
  unfold enterCompletes at hne
  split at hne
  · rename_i hs
    have hlook : h.rx.replyCmd = h.lookupReply := by
      by_contra hne'
      refine hna .finishLookup (stepEnter_aborted ?_)
      simp only [enter, hs, enterReplyFinishCommand]
      rw [require, if_neg (by simpa using hne')]
    refine ⟨fun _ => hlook, ?_⟩
    have halive : h.alive := alive_of_isMid (by rw [hs]; rfl)
    obtain ⟨h', hx, -⟩ := finishCommand_next inp' hinv ht halive hsl hlook
    intro a
    simp only [stepEnter, enter, hs, hx]
    simp
  · rename_i hs
    obtain ⟨-, -, h', -, -, hok, -⟩ := abortAll_ok inp' hinv ht
    have herr : h.lastError.isSome = true := by
      by_contra hne'
      refine hna .deadError (stepEnter_aborted ?_)
      simp only [enter, hs, enterDead]
      rw [require, if_neg hne']
    refine ⟨fun h => absurd (hs.symm.trans h) (by simp), fun a => ?_⟩
    simp only [stepEnter, enter, hs, enterDead, require, herr, if_true, hok]
    exact hfail.1 a
  · rename_i hs
    obtain ⟨-, -, h', -, -, hok, -⟩ := abortAll_ok inp' hinv ht
    refine ⟨fun h => absurd (hs.symm.trans h) (by simp), fun a => ?_⟩
    simp only [stepEnter, enter, hs, enterClosed, hok]
    exact hfail.2 a
  · exact absurd rfl hne

/-- The error of a completed command is covered by the condition. -/
theorem Covered.agree {c : Config} {inp : Input} (hcov : Covered c (.enter inp))
    (hlook : c.h.state = .replyFinishCommand → c.h.rx.replyCmd = c.h.lookupReply)
    {p : Command × UInt32} (hp : p ∈ enterCompletes c.h)
    (hcb : p.1.completion.callback = true) :
    p.2 ≠ 0 ↔ completedRet { p.1 with error := p.2 } = -1 := by
  rw [agree_iff]
  intro hzero
  unfold enterCompletes at hp
  split at hp
  · rename_i hs
    simp only [Option.mem_toList, Option.map_eq_some_iff] at hp
    obtain ⟨cmd, hf, rfl⟩ := hp
    have hk := (findCmd_mem hf).2
    have hlive : c.h.replyRef = .live cmd := by
      have hr := hlook hs
      rw [Handle.lookupReply, hf] at hr
      simp only [Handle.replyRef, hr, Option.map_some, hk, hf]
    exact hcov hs cmd hlive hcb hzero
  · exact absurd hzero (withAbortError_ne hp)
  · exact absurd hzero (withAbortError_ne hp)
  · cases hp

theorem stepEnter_agrees_iff {c : Config} {inp : Input} {after : After} (hg : Good c)
    (hctl : c.ctl = .running after) :
    StepAgrees c (.enter inp) (stepEnter inp after c.h) ↔ Covered c (.enter inp) := by
  have hstep : ∀ i, step c (.enter i) = some (stepEnter i after c.h) := by
    intro i
    simp only [step, hctl]
  have hinv' : ∀ i, (stepEnter i after c.h).h.book.Inv := fun i =>
    ((step_refines hg.sound (hstep i)).resolve_left enter_not_closed).sound.inv
  constructor
  · intro hagree hs cmd hlive hcb herr hread
    obtain ⟨hf, hlook⟩ := finish_lookup hg.rx hs hlive
    have hp : (cmd, cmd.error) ∈ enterCompletes c.h := by
      simp [enterCompletes, hs, hf]
    have hna : ∀ i a, (stepEnter i after c.h).ctl ≠ .aborted a := by
      intro i a
      have halive : c.h.alive := alive_of_isMid (by rw [hs]; rfl)
      obtain ⟨h', hx, -⟩ := finishCommand_next i hg.sound.inv hg.sound.tails halive hg.slack hlook
      simp only [stepEnter, enter, hs, hx]
      simp
    obtain ⟨es, htr, hes, -⟩ :=
      (stepEnter_completes hg.sound.inv hg.sound.tails (hna inp)).events
    have hev := (hes cmd.cookie cmd.error).mpr ⟨_, hp, hcb, rfl, rfl⟩
    obtain ⟨c₀, r, h₀, hr, hiff⟩ := hagree es htr _ _ hev
    obtain rfl := Option.some.inj ((hstep inp.keeping).symm.trans h₀)
    have hkeep := (stepEnter_completes hg.sound.inv hg.sound.tails (hna inp.keeping)).keeping
      hg.sound.inv (hinv' inp.keeping) hp (enterCompletes_mem hp) hcb
    obtain rfl := Option.some.inj (hkeep.symm.trans hr)
    exact agree_iff.mp hiff herr hread
  · intro hcov es htr k err hev
    have hna : ∀ a, (stepEnter inp after c.h).ctl ≠ .aborted a := by
      intro a ha
      obtain ⟨h', -, he⟩ | ⟨h', d, r, -, he⟩ | ⟨b, -, he⟩ := stepEnter_cases inp after c.h
      · rw [he] at ha
        cases ha
      · rw [he] at ha
        cases ha
      · rw [he] at htr
        have hnil : es = [] := List.append_cancel_left (htr.symm.trans (List.append_nil _).symm)
        rw [hnil] at hev
        cases hev
    obtain ⟨es', htr', hes, -⟩ := (stepEnter_completes hg.sound.inv hg.sound.tails hna).events
    obtain rfl : es' = es := List.append_cancel_left (htr'.symm.trans htr)
    obtain ⟨p, hp, hcb, rfl, rfl⟩ := (hes k err).mp hev
    obtain ⟨hlook, hna₀⟩ := completing_not_aborted inp.keeping hg.sound.inv hg.sound.tails
      hg.slack (List.ne_nil_of_mem hp) hna
    have hkeep := (stepEnter_completes hg.sound.inv hg.sound.tails hna₀).keeping hg.sound.inv
      (hinv' inp.keeping) hp (enterCompletes_mem hp) hcb
    exact ⟨_, _, hstep inp.keeping, hkeep, hcov.agree hlook hp hcb⟩

/-- `nbd_shutdown` is the only other call that completes commands, and it gives
them an error. -/
theorem call_agrees {c : Config} {api : Api} {inp : Input} {r : Int} (hs : Sound c)
    (hctl : c.ctl = .idle r) (hclose : api ≠ .close) :
    StepAgrees c (.call api inp) (apiCall inp { c.h with lastError := inp.lastError } api) := by
  intro es htr k err hev
  have ht : Tails { c.h with lastError := inp.lastError } := ⟨hs.tails.toIssue, hs.tails.done⟩
  have hi : Idle { c.h with lastError := inp.lastError } := hs.idle r hctl
  cases hsub : submission inp { c.h with lastError := inp.lastError } api with
  | none =>
    obtain ⟨es', htr', hes⟩ := (apiCall_no_submission hclose hsub).trace
    obtain rfl : es' = es := List.append_cancel_left (htr'.symm.trans htr)
    exact absurd (hes _ hev) (by simp [Event.isRetirement])
  | some s =>
    obtain ⟨k', he⟩ := apiCall_submission hsub
    rw [he] at htr
    have hna : ∀ a, s ≠ .abort a := by
      rintro a rfl
      have hnil : es = [] := List.append_cancel_left (htr.symm.trans (List.append_nil _).symm)
      rw [hnil] at hev
      cases hev
    have hc := afterSubmit_completes _ k' hna
      (submission_completes (h := { c.h with lastError := inp.lastError }) hs.inv ht hsub)
    obtain ⟨es', htr', hes, -⟩ := hc.events
    obtain rfl : es' = es := List.append_cancel_left (htr'.symm.trans htr)
    obtain ⟨p, hp, hcb, rfl, rfl⟩ := (hes k err).mp hev
    have hq : c.h.q.cmdsToIssue ≠ [] := List.ne_nil_of_mem (callCompletes_mem hp)
    obtain ⟨flags, rfl⟩ : ∃ flags, api = .shutdown flags := by
      cases api with
      | shutdown flags => exact ⟨flags, rfl⟩
      | _ => cases hp
    have hstep : step c (.call (.shutdown flags) inp.keeping) = some (apiCall inp.keeping
        { c.h with lastError := inp.lastError } (.shutdown flags)) := by
      simp only [step, hctl]
      rfl
    have hsub₀ : submission inp.keeping { c.h with lastError := inp.lastError } (.shutdown flags) =
        some (shutdown inp.keeping { c.h with lastError := inp.lastError } flags) := rfl
    have hna₀ := shutdown_not_abort inp.keeping (h := { c.h with lastError := inp.lastError }) flags
      hs.inv ht hi fun _ => .inr hq
    have hc₀ := afterSubmit_completes _ .disconnect hna₀
      (submission_completes (h := { c.h with lastError := inp.lastError }) hs.inv ht hsub₀)
    have hinv₀ : (apiCall inp.keeping { c.h with lastError := inp.lastError }
        (.shutdown flags)).h.book.Inv := by
      obtain ⟨i, hcl, -⟩ | hr := step_closes_or_refines hs hstep
      · cases hcl
      · exact hr.sound.inv
    have hkeep := hc₀.keeping hs.inv hinv₀ hp (List.mem_append_left _ (callCompletes_mem hp)) hcb
    exact ⟨_, _, hstep, hkeep, agree_iff.mpr fun hz => absurd hz (callCompletes_ne hp)⟩

/-- `nbd_close` calls the callbacks of everything that is left, done or not. -/
theorem completion_mem_freeCmdList {inp : Input} {cmds : List Command} {k : Nat} {err : UInt32} :
    Event.completion k err ∈ freeCmdList inp cmds ↔
      ∃ cmd ∈ cmds, cmd.completion.callback = true ∧ cmd.cookie = k ∧
        orErr cmd.error enotconn = err := by
  induction cmds with
  | nil => simp [freeCmdList]
  | cons c cs ih =>
    have hfree : Event.completion k err ∉ retireAndFreeCommand c := by
      unfold retireAndFreeCommand
      split_ifs <;> simp
    rw [freeCmdList_cons, List.mem_append, List.mem_append, or_iff_left hfree, ih]
    unfold completionEvents
    cases hcb : c.completion.callback with
    | false => simp [hcb]
    | true =>
      simp only [if_true, Event.completion.injEq, List.mem_cons, List.not_mem_nil, or_false,
        exists_eq_or_imp, hcb, true_and]
      refine or_congr_left ?_
      constructor <;> rintro ⟨rfl, rfl⟩ <;> exact ⟨rfl, rfl⟩

theorem close_agrees_iff {c : Config} {inp : Input} (hs : Sound c) :
    StepAgrees c (.call .close inp) ⟨close inp { c.h with lastError := inp.lastError }, .closed⟩ ↔
      Covered c (.call .close inp) := by
  have htr := close_trace inp { c.h with lastError := inp.lastError }
  constructor
  · intro hagree cmd hcmd hcb
    have hev : Event.completion cmd.cookie (orErr cmd.error enotconn) ∈
        freeCmdList inp c.h.book.commands :=
      completion_mem_freeCmdList.mpr ⟨cmd, List.mem_append_right _ hcmd, hcb, rfl, rfl⟩
    have hr := hagree _ htr _ _ hev _ (completedFor_of_mem hs.inv hcmd)
    exact completedRet_eq_neg_one.mp (hr.mp (orErr_enotconn_ne _))
  · intro hcov es htr' k err hev r hr
    obtain rfl : es = freeCmdList inp c.h.book.commands :=
      List.append_cancel_left (htr'.symm.trans htr)
    obtain ⟨cmd, hcmd, hcb, rfl, rfl⟩ := completion_mem_freeCmdList.mp hev
    obtain ⟨cmd', hmem, hk, rfl⟩ := completedFor_cases hr
    obtain rfl : cmd' = cmd :=
      List.inj_on_of_nodup_map hs.inv.nodup (List.mem_append_right _ hmem) hcmd hk
    exact iff_of_true (orErr_enotconn_ne _) (completedRet_eq_neg_one.mpr (hcov cmd' hmem hcb))

theorem step_agrees_iff {c c' : Config} {l : Label} (hc : machine.Reachable c)
    (h : machine.step c l = some c') : StepAgrees c l c' ↔ Covered c l := by
  have hstep : step c l = some c' := h
  have hg : Good c := by
    rcases reachable_good hc with hcl | hg
    · cases l <;> simp [machine, step, hcl] at h
    · exact hg
  obtain ⟨inp, after, rfl, hctl, rfl⟩ | ⟨api, inp, r, rfl, hctl, rfl⟩ := step_cases hstep
  · exact stepEnter_agrees_iff hg hctl
  · by_cases hclose : api = .close
    · subst hclose
      exact close_agrees_iff hg.sound
    · have hcov : Covered c (.call api inp) := by
        cases api <;> trivial
      exact iff_of_true (call_agrees hg.sound hctl hclose) hcov

/-! ## Runs -/

/-- What a step reports and keeps: `ps` are the commands it completes. -/
structure Tells (ps : List (Command × UInt32)) (h h' : Handle) : Prop where
  events : ∃ es, h'.trace = h.trace ++ es ∧ ∀ k err, Event.completion k err ∈ es →
    ∃ p ∈ ps, p.1.completion.callback = true ∧ p.1.cookie = k ∧ p.2 = err
  done : ∀ cmd ∈ h'.q.cmdsDone, cmd ∈ h.q.cmdsDone ∨ ∃ p ∈ ps, cmd = { p.1 with error := p.2 }
  pending : ∀ p ∈ ps, p.1 ∈ h.q.cmdsToIssue ++ h.q.cmdsInFlight
  agree : ∀ p ∈ ps, p.1.completion.callback = true →
    (p.2 ≠ 0 ↔ completedRet { p.1 with error := p.2 } = -1)
  once : ∀ p ∈ ps, ∀ q ∈ ps, p.1 = q.1 → p.2 = q.2

theorem Tells.silent {h h' : Handle} {es : List Event} (htr : h'.trace = h.trace ++ es)
    (hes : ∀ k err, Event.completion k err ∉ es)
    (hdone : ∀ cmd ∈ h'.q.cmdsDone, cmd ∈ h.q.cmdsDone) : Tells [] h h' where
  events := ⟨es, htr, fun k err h => absurd h (hes k err)⟩
  done := fun cmd h => .inl (hdone cmd h)
  pending := fun _ hp => absurd hp List.not_mem_nil
  agree := fun _ hp => absurd hp List.not_mem_nil
  once := fun _ hp => absurd hp List.not_mem_nil

theorem Completes.tells {inp : Input} {ps : List (Command × UInt32)} {h h' : Handle}
    (hc : Completes inp ps h h') (hl : inp.LeavesError)
    (hp : ∀ p ∈ ps, p.1 ∈ h.q.cmdsToIssue ++ h.q.cmdsInFlight)
    (ha : ∀ p ∈ ps, p.1.completion.callback = true →
      (p.2 ≠ 0 ↔ completedRet { p.1 with error := p.2 } = -1))
    (ho : ∀ p ∈ ps, ∀ q ∈ ps, p.1 = q.1 → p.2 = q.2) : Tells ps h h' where
  events := by
    obtain ⟨es, htr, hes, -⟩ := hc.events
    exact ⟨es, htr, fun k err => (hes k err).mp⟩
  done := by
    intro cmd hmem
    rw [hc.done hl] at hmem
    rcases List.mem_append.mp hmem with h | h
    · exact .inl h
    · obtain ⟨p, hp', rfl⟩ := List.mem_map.mp h
      exact .inr ⟨p, (List.mem_filter.mp hp').1, rfl⟩
  pending := hp
  agree := ha
  once := ho

theorem withAbortError_once {cmds : List Command} :
    ∀ p ∈ withAbortError cmds, ∀ q ∈ withAbortError cmds, p.1 = q.1 → p.2 = q.2 := by
  intro p hp q hq hpq
  obtain ⟨c, -, rfl⟩ := List.mem_map.mp hp
  obtain ⟨d, -, rfl⟩ := List.mem_map.mp hq
  rw [show c = d from hpq]

theorem enterCompletes_once {h : Handle} :
    ∀ p ∈ enterCompletes h, ∀ q ∈ enterCompletes h, p.1 = q.1 → p.2 = q.2 := by
  unfold enterCompletes
  split
  · intro p hp q hq hpq
    simp only [Option.mem_toList, Option.map_eq_some_iff] at hp hq
    obtain ⟨c, -, rfl⟩ := hp
    obtain ⟨d, -, rfl⟩ := hq
    rw [show c = d from hpq]
  · exact withAbortError_once
  · exact withAbortError_once
  · exact fun _ hp => absurd hp List.not_mem_nil

theorem callCompletes_once {h : Handle} {api : Api} :
    ∀ p ∈ callCompletes h api, ∀ q ∈ callCompletes h api, p.1 = q.1 → p.2 = q.2 := by
  cases api with
  | shutdown flags =>
    simp only [callCompletes]
    split
    · exact withAbortError_once
    · exact fun _ hp => absurd hp List.not_mem_nil
  | _ => exact fun _ hp => absurd hp List.not_mem_nil

theorem step_tells {c c' : Config} {l : Label} (hg : Good c) (hl : l.inp.LeavesError)
    (hcov : Covered c l) (h : step c l = some c') (hcl : c'.ctl ≠ .closed) :
    ∃ ps, Tells ps c.h c'.h := by
  have hsame : ∀ {h' : Handle}, h'.trace = c.h.trace → h'.q = c.h.q → Tells [] c.h h' :=
    fun htr hq => .silent (htr.trans (List.append_nil _).symm) (fun _ _ => List.not_mem_nil)
      fun cmd hmem => hq ▸ hmem
  obtain ⟨inp, after, rfl, hctl, rfl⟩ | ⟨api, inp, r, rfl, hctl, rfl⟩ := step_cases h
  · by_cases hna : ∀ a, (stepEnter inp after c.h).ctl ≠ .aborted a
    · have hc := stepEnter_completes hg.sound.inv hg.sound.tails hna
      refine ⟨_, hc.tells hl (fun p => enterCompletes_mem) (fun p hp => ?_) enterCompletes_once⟩
      have hlook := (completing_not_aborted inp hg.sound.inv hg.sound.tails hg.slack
        (List.ne_nil_of_mem hp) hna).1
      exact hcov.agree hlook hp
    · obtain ⟨h', -, he⟩ | ⟨h', d, r, -, he⟩ | ⟨b, -, he⟩ := stepEnter_cases inp after c.h
      · exact absurd (fun a => by rw [he]; nofun) hna
      · exact absurd (fun a => by rw [he]; nofun) hna
      · rw [he]
        exact ⟨[], hsame rfl rfl⟩
  · have hclose : api ≠ .close := by
      rintro rfl
      exact hcl rfl
    have ht : Tails { c.h with lastError := inp.lastError } :=
      ⟨hg.sound.tails.toIssue, hg.sound.tails.done⟩
    cases hsub : submission inp { c.h with lastError := inp.lastError } api with
    | none =>
      have ho := apiCall_no_submission hclose hsub
      obtain ⟨es, htr, hes⟩ := ho.trace
      refine ⟨[], .silent htr (fun k err hev => ?_) ho.done⟩
      exact absurd (hes _ hev) (by simp [Event.isRetirement])
    | some s =>
      obtain ⟨k, he⟩ := apiCall_submission hsub
      rw [he]
      by_cases hna : ∀ a, s ≠ .abort a
      · have hc := afterSubmit_completes _ k hna
          (submission_completes (h := { c.h with lastError := inp.lastError }) hg.sound.inv ht hsub)
        refine ⟨_, (Completes.tells (h := c.h) ⟨hc.events, hc.done⟩ hl
          (fun p hp => List.mem_append_left _ (callCompletes_mem hp)) (fun p hp _ => ?_)
          callCompletes_once)⟩
        exact agree_iff.mpr fun hz => absurd hz (callCompletes_ne hp)
      · obtain ⟨a, rfl⟩ : ∃ a, s = .abort a := by
          simpa using hna
        exact ⟨[], hsame rfl rfl⟩

/-- The channels agree on the commands that are done. -/
def DoneAgree (h : Handle) : Prop :=
  ∀ cmd ∈ h.q.cmdsDone, ∀ err, Event.completion cmd.cookie err ∈ h.trace →
    (err ≠ 0 ↔ completedRet cmd = -1)

theorem Book.Inv.pending_ne_done {b : Book} (hb : b.Inv) {c d : Command}
    (hc : c ∈ b.toIssue ++ b.inFlight) (hd : d ∈ b.done) : c.cookie ≠ d.cookie := by
  have hnd := hb.nodup
  rw [Book.cookies, Book.commands, List.map_append] at hnd
  exact (List.nodup_append.mp hnd).2.2 _ (List.mem_map_of_mem hc) _ (List.mem_map_of_mem hd)

theorem not_completed_of_pending {h : Handle} (hl : Life h.book) {cmd : Command}
    (hmem : cmd ∈ h.q.cmdsToIssue ++ h.q.cmdsInFlight) (err : UInt32) :
    Event.completion cmd.cookie err ∉ h.trace := by
  intro hev
  have hcall : Event.completion cmd.cookie err ∈ calls cmd.cookie h.trace := by
    simp [calls, hev, Event.callOf]
  have := hl.pending cmd hmem _ hcall
  cases this

theorem Tells.doneAgree {ps : List (Command × UInt32)} {h h' : Handle} (ht : Tells ps h h')
    (hinv : h.book.Inv) (hl : Life h.book) (ha : DoneAgree h) : DoneAgree h' := by
  obtain ⟨es, htr, hes⟩ := ht.events
  intro cmd hmem err hev
  rw [htr] at hev
  rcases ht.done cmd hmem with hold | ⟨p, hp, rfl⟩
  · rcases List.mem_append.mp hev with h | h
    · exact ha cmd hold err h
    · -- a command that is done is not completed again
      obtain ⟨p, hp, -, hk, -⟩ := hes _ _ h
      exact absurd hk (hinv.pending_ne_done (ht.pending p hp) hold)
  · rcases List.mem_append.mp hev with h | h
    · exact absurd h (not_completed_of_pending hl (ht.pending p hp) err)
    · obtain ⟨q, hq, hcb, hk, rfl⟩ := hes _ _ h
      have hsame : q.1 = p.1 := List.inj_on_of_nodup_map hinv.nodup
        (List.mem_append_left _ (ht.pending q hq)) (List.mem_append_left _ (ht.pending p hp)) hk
      rw [ht.once q hq p hp hsame]
      exact ht.agree p hp (hsame ▸ hcb)

theorem afterSubmit_not_closed (h : Handle) (k : After) (s : Submit) :
    (afterSubmit h k s).ctl ≠ .closed := by
  have hafter : ∀ r h', (afterRun k r h').ctl ≠ .closed := by
    intro r h'
    cases k <;> rintro ⟨⟩
  cases s with
  | accepted h' run =>
    cases run with
    | false => exact hafter 0 h'
    | true =>
      obtain ⟨s, -, he⟩ | ⟨d, e, r, -, he⟩ := startRun_cases .cmdIssue k h' <;>
        simp [afterSubmit, he]
  | _ => rintro ⟨⟩

/-- Only `nbd_close` ends the run. -/
theorem close_of_closed {c c' : Config} {l : Label} (h : step c l = some c')
    (hcl : c'.ctl = .closed) :
    ∃ inp, c' = ⟨close inp { c.h with lastError := inp.lastError }, .closed⟩ := by
  obtain ⟨inp, after, rfl, -, rfl⟩ | ⟨api, inp, r, rfl, -, rfl⟩ := step_cases h
  · exact absurd hcl enter_not_closed
  · cases api with
    | close => exact ⟨inp, rfl⟩
    | command | aioDisconnect | shutdown => exact absurd hcl (afterSubmit_not_closed _ _ _)
    | aioNotifyRead | aioNotifyWrite =>
      simp only [apiCall, startRun] at hcl
      split at hcl <;> cases hcl
    | setStrictMode flags =>
      simp only [apiCall] at hcl
      split at hcl <;> cases hcl
    | setPreadInitialize b => cases hcl
    | aioCommandCompleted cookie =>
      simp only [apiCall] at hcl
      split at hcl <;> cases hcl

/-- **The two completion channels agree** on every command that is done, in every
run that meets `Covered`; and a step tells a callback the same as
`nbd_aio_command_completed` would return exactly when it meets `Covered`. -/
theorem completion_channels_agree (c : Config) :
    (machine.ReachableBy (fun c l => l.inp.LeavesError ∧ Covered c l) c → ChannelsAgree c) ∧
    ∀ l c', machine.Reachable c → machine.step c l = some c' →
      (StepAgrees c l c' ↔ Covered c l) := by
  refine ⟨fun hc => ?_, fun l c' => step_agrees_iff⟩
  have key : c.ctl = .closed ∧ c.h.q.cmdsDone = [] ∨
      Good c ∧ Life c.h.book ∧ DoneAgree c.h := by
    refine machine.reachableBy_invariant (P := fun c => c.ctl = .closed ∧ c.h.q.cmdsDone = [] ∨
      Good c ∧ Life c.h.book ∧ DoneAgree c.h) ?_ ?_ hc
    · intro c₀ hi
      refine .inr ⟨initial_good hi, ?_⟩
      obtain ⟨exp, strict, pi, hdr, payload, mem, rfl⟩ := hi
      exact ⟨life_empty, fun _ h => absurd h List.not_mem_nil⟩
    · rintro c l c' (⟨hcl, -⟩ | ⟨hg, hl, ha⟩) ⟨hle, hcov⟩ hstep
      · cases l <;> simp [machine, step, hcl] at hstep
      · by_cases hcl : c'.ctl = .closed
        · obtain ⟨inp, rfl⟩ := close_of_closed hstep hcl
          exact .inl ⟨rfl, rfl⟩
        · have hr := (step_refines hg.sound hstep).resolve_left hcl
          obtain ⟨ps, ht⟩ := step_tells hg hle hcov hstep hcl
          exact .inr ⟨(step_good hg hstep).resolve_left hcl,
            life_steps hg.sound.inv hl hr.steps, ht.doneAgree hg.sound.inv hl ha⟩
  intro k err r hev hr
  obtain ⟨cmd, hmem, rfl, rfl⟩ := completedFor_cases hr
  rcases key with ⟨-, hnil⟩ | ⟨-, -, ha⟩
  · rw [hnil] at hmem
    cases hmem
  · exact ha cmd hmem err hev

theorem keeping_meets (c : Config) (ls : List Label) :
    machine.Meets (fun _ l => l.inp.LeavesError) c (ls.map Label.keeping) := by
  refine machine.meets_of_forall _ _ fun l hl _ => ?_
  obtain ⟨l, -, rfl⟩ := List.mem_map.mp hl
  cases l <;> exact keeping_leavesError _

theorem completion_channels_agree_failed_read :
    ∃ c, machine.exec .calm ((failedRead ⟨true, true⟩).map Label.keeping) = some c ∧
      c.h.q.cmdsDone.length = 1 ∧ ChannelsAgree c := by
  have hrun : (machine.exec .calm ((failedRead ⟨true, true⟩).map Label.keeping)).map
      (fun c => c.h.q.cmdsDone.length) = some 1 := by decide +kernel
  obtain ⟨c, hc, hp⟩ := Option.map_eq_some_iff.mp hrun
  have hcov : machine.Meets Covered .calm ((failedRead ⟨true, true⟩).map Label.keeping) :=
    machine.meets_of_check (by decide +kernel)
  exact ⟨c, hc, hp, (completion_channels_agree c).1
    ⟨_, _, Config.initial_calm, machine.meets_and (keeping_meets _ _) hcov, hc⟩⟩

/-- A READ of 512 bytes, answered by one structured chunk without any data. -/
def emptyRead : List Label :=
  Label.call (.command (.aioPread 4096 512 0 ⟨true, true⟩ 0)) .calm :: List.replicate 5 (.enter .calm) ++
  Label.call .aioNotifyRead .calm :: .enter { Input.calm with
    recv := .data [0x66, 0x8e, 0x33, 0xef, 0, 1, 0, 0, 0, 0, 0, 0, 0, 0, 0, 1] } ::
  .enter .calm :: .enter .calm :: .enter { Input.calm with recv := .data [0, 0, 0, 0] } ::
  List.replicate 4 (.enter .calm)

/-- Its callback is told 0, but `nbd_aio_command_completed` returns -1. -/
theorem empty_read_channels_differ :
    ¬ ∀ c, machine.ReachableBy (fun _ l => l.inp.LeavesError) c → ChannelsAgree c := by
  intro hall
  have hrun : (machine.exec (.ofExport .structured) (emptyRead.map Label.keeping)).map
      (fun c => (decide (Event.completion 1 0 ∈ c.h.trace), completedFor c.h 1)) =
      some (true, some (-1)) := by decide +kernel
  obtain ⟨c, hc, hp⟩ := Option.map_eq_some_iff.mp hrun
  simp only [Prod.mk.injEq, decide_eq_true_eq] at hp
  have hagree := hall c ⟨_, _, Config.initial_ofExport _, keeping_meets _ _, hc⟩ 1 0 (-1) hp.1 hp.2
  exact absurd (hagree.mpr rfl) (by decide)

end Libnbd
