import Libnbd.Reachable

/-!
Agreement of the two searches for the command of a reply, at
`CHECK_REPLY_MAGIC` and at `FINISH_COMMAND`.

`reply_cmd` is always a command in flight with the cookie of the header, so the
two can disagree in one way only: a paused reply named no command in flight,
and the command it names is issued before the reply is resumed.
-/

namespace Libnbd

open Lib

/-- A reply that named no command in flight still names none. -/
def Agree (h : Handle) : Prop :=
  h.alive → h.logical.isMid = true → h.rx.replyCmd = none →
    h.replyCookie ∉ h.q.cmdsInFlight.map Command.cookie

/-- A command that `reply_cmd` points to is the one the search finds. -/
theorem RxInv.lookup_some {h : Handle} (hr : RxInv h) (ha : h.alive) {k : Nat}
    (hk : h.rx.replyCmd = some k) : h.lookupReply = some k := by
  obtain ⟨rfl, hmem⟩ := (hr.cmd ha).inFlight k hk
  cases hf : Handle.findCmd h.replyCookie h.q.cmdsInFlight with
  | none => exact absurd hmem (findCmd_eq_none.mp hf)
  | some c => simp [Handle.lookupReply, hf, (findCmd_mem hf).2]

theorem Agree.lookup {h : Handle} (hg : Agree h) (hr : RxInv h) (ha : h.alive)
    (hm : h.logical.isMid = true) : h.rx.replyCmd = h.lookupReply := by
  cases hk : h.rx.replyCmd with
  | none =>
    have := findCmd_eq_none.mpr (hg ha hm hk)
    simp [Handle.lookupReply, this]
  | some k => exact (hr.lookup_some ha hk).symm

/-- The search at `CHECK_REPLY_MAGIC`. -/
theorem checkReplyMagic_found (h : Handle) :
    (enterReplyCheckReplyMagic h).All fun h' =>
      h'.alive → h'.logical.isMid = true → h'.rx.replyCmd = h'.lookupReply := by
  have hinvalid : (goto .dead (h.setError 0 "invalid or unexpected reply magic")).All fun h' =>
      h'.alive → h'.logical.isMid = true → h'.rx.replyCmd = h'.lookupReply :=
    fun ha => absurd rfl ha.1
  unfold enterReplyCheckReplyMagic
  simp only
  split
  · split
    · exact hinvalid
    · exact fun _ _ => rfl
  · split
    · split
      · exact hinvalid
      · exact require_all fun _ _ _ => rfl
    · split
      · split
        · exact fun _ _ => rfl
        · exact hinvalid
      · exact hinvalid

/-- Before the header is complete no reply is being handled. -/
theorem header_not_mid {inp : Input} {h : Handle} (hlog : h.logical = .start)
    (hst : h.state = .replyStart ∨ h.state = .replyRecvReply) :
    (enter inp h).All fun h' => h'.logical.isMid = false := by
  have hrs : h.rx.replyState = .start := by
    rw [← Handle.logical_of_not_isMid (h := h) (by rcases hst with hst | hst <;> rw [hst] <;> rfl)]
    exact hlog
  have hany : ∀ h' : Handle, h'.rx.replyState = .start → h'.state.isMid = false →
      h'.logical.isMid = false := by
    intro h' h₁ h₂
    rw [Handle.logical_of_not_isMid h₂, h₁]
    rfl
  rcases hst with hst | hst
  · simp only [enter, hst, enterReplyStart]
    split
    · split
      · rename_i hne
        exact absurd hrs hne
      · exact hany _ hrs rfl
    · apply require_all
      intro _
      split
      · exact hany _ hrs (by simp [Handle.prepareReply, hst, State.isMid])
      · exact hany _ hrs rfl
      · split
        · exact hany _ hrs rfl
        · exact hany _ hrs rfl
  · simp only [enter, hst, enterReplyRecvReply]
    obtain ⟨e, he⟩ | ⟨h', hrec, -, he⟩ | ⟨h', hrec, -, he⟩ := recvIntoRbuf_cases inp h
    · rw [he]
      exact hany _ hrs rfl
    · rw [he]
      have hrs' := (received_same hrec).2.1.trans hrs
      simp only
      split
      · exact hany _ hrs' rfl
      · exact hany _ hrs' rfl
    · rw [he]
      exact hany _ ((received_same hrec).2.1.trans hrs) rfl

theorem receiving_agree {inp : Input} {h : Handle} (hg : Agree h) (hr : RxInv h)
    (hs : h.state.isReceiving = true) : (enter inp h).All Agree := by
  have halive : h.alive := by
    constructor <;> (intro hd; rw [hd] at hs; cases hs)
  by_cases hm : h.logical.isMid = true
  · have hq := enter_quiet inp hs
    have hp := enter_post inp hr hs
    cases ho : enter inp h with
    | abort a => trivial
    | next h' | block h' | fail h' =>
      rw [ho] at hq hp
      intro ha' hm' hnone
      obtain ⟨h₁, h₂⟩ := hp.kept hm ha' hm'
      rw [h₂, Quiet.cookies hq]
      exact hg halive hm (h₁ ▸ hnone)
  · have hlog : h.logical = .start := by
      by_contra hne
      have hnm : h.state.isMid = false := by
        by_contra hmid
        rw [Handle.logical_of_isMid (by simpa using hmid)] at hm
        exact hm (by simpa using hmid)
      rw [Handle.logical_of_not_isMid hnm] at hm hne
      exact hm (State.isMid_of_isPayload (hr.saved hne).1)
    have hnone : ∀ h' : Handle, h'.logical.isMid = false → Agree h' := by
      intro h' hf _ hm'
      rw [hf] at hm'
      cases hm'
    by_cases hst : h.state = .replyStart ∨ h.state = .replyRecvReply
    · exact (header_not_mid hlog hst).mono hnone
    · have hst' : h.state = .replyCheckReplyMagic := by
        have hnm : h.state.isMid = false := by
          by_contra hmid
          exact hm (by rw [Handle.logical_of_isMid (by simpa using hmid)]; simpa using hmid)
        cases hx : h.state <;> simp_all [State.isReceiving, State.isMid]
      simp only [enter, hst']
      refine (checkReplyMagic_found h).mono fun h' hf ha' hm' hnone => ?_
      have := hf ha' hm'
      rw [hnone] at this
      rw [← findCmd_eq_none]
      exact Option.map_eq_none_iff.mp this.symm

/-- The next step puts in flight the command that the paused reply names. -/
def IssuesAwaited (h : Handle) : Prop :=
  h.state = .issueFinish ∧ h.logical.isMid = true ∧ h.rx.replyCmd = none ∧
    h.q.cmdsToIssue.head?.map Command.cookie = some h.replyCookie

instance (h : Handle) : Decidable (IssuesAwaited h) :=
  inferInstanceAs (Decidable (_ ∧ _ ∧ _ ∧ _))

theorem Agree.keep {h h' : Handle} (hg : Agree h) (ha : h'.alive → h.alive)
    (hb : h.state.isMid = false) (hb' : h'.state.isMid = false) (hrx : h'.rx = h.rx)
    (hq : h'.alive → h'.q.cmdsInFlight.map Command.cookie = h.q.cmdsInFlight.map Command.cookie) :
    Agree h' := by
  intro ha' hm hnone
  rw [Handle.logical_of_not_isMid hb', hrx] at hm
  have := hg (ha ha') (by rw [Handle.logical_of_not_isMid hb]; exact hm) (hrx ▸ hnone)
  rw [hq ha', Handle.replyCookie, hrx]
  exact this

theorem enter_agree (inp : Input) {h : Handle} (hg : Agree h) (hr : RxInv h) (hinv : h.book.Inv)
    (ht : Tails h) (hcond : ¬ IssuesAwaited h) : (enter inp h).All Agree := by
  rcases h.state.kinds with hs | hs | hs | hs | hs
  · exact receiving_agree hg hr hs
  · have hb : h.state.isMid = false := by
      cases hst : h.state <;> simp_all [State.isSending, State.isMid]
    have ha : h.alive := by
      constructor <;> (intro hd; rw [hd] at hs; cases hs)
    refine (enter_sends inp hs).mono fun h' hq => ?_
    refine hg.keep (fun _ => ha) hb (not_isMid_of_not_isBusy hq.busy) ?_ fun _ => ?_
    · rw [hq.eq]
    · rw [hq.eq]
  · have ha : h.alive := by simp [Handle.alive, hs]
    have hb : h.state.isMid = false := by rw [hs]; rfl
    simp only [enter, hs, enterIssueFinish]
    apply require_all
    intro _
    split
    · trivial
    · rename_i cmd rest hq
      apply require_all
      intro _ _ hm hnone
      have hm' : h.logical.isMid = true := by
        rw [Handle.logical_of_not_isMid hb]
        rwa [Handle.logical_of_not_isMid rfl] at hm
      intro hmem
      rcases List.mem_cons.mp hmem with hk | hold
      · exact hcond ⟨hs, hm', hnone, by rw [hq]; exact congrArg some hk.symm⟩
      · exact hg ha hm' hnone hold
  · have hat := hr.at (by rw [hs]; rfl)
    rw [hs] at hat
    simp only [enter, hs]
    refine (finishCommand_rx inp hinv ht hat).mono fun h' hp _ hm => ?_
    rw [hp.2.1] at hm
    cases hm
  · have hdead : ¬ h.alive := by
      rintro ⟨h₁, h₂⟩
      tauto
    obtain ⟨-, -, h', -, -, hok, hdo, -, -, -, -⟩ := abortAll_ok inp hinv ht
    have hfin : Agree h' := by
      intro ha'
      rw [hdo] at ha'
      exact absurd ha' hdead
    rcases hs with hs | hs
    · simp only [enter, hs, enterDead, hok]
      exact require_all fun _ => hfin
    · simp only [enter, hs, enterClosed, hok]
      exact hfin

theorem step_agree {c c' : Config} {l : Label} (hgood : Good c) (hg : Agree c.h)
    (hcond : ¬ IssuesAwaited c.h) (h : step c l = some c') : c'.ctl = .closed ∨ Agree c'.h := by
  obtain ⟨inp, k, -, -, rfl⟩ | ⟨api, inp, r, rfl, hctl, rfl⟩ := step_cases h
  · right
    exact stepEnter_all k (enter_agree inp hg hgood.rx hgood.sound.inv hgood.sound.tails hcond) hg
      fun _ _ hp => hp
  · by_cases hclose : api = .close
    · left
      subst hclose
      rfl
    · right
      have hf := apiCall_frame inp { c.h with lastError := inp.lastError } api hclose
      have hb := hgood.between r hctl
      exact Agree.keep (h := { c.h with lastError := inp.lastError }) hg hf.alive
        (not_isMid_of_not_isBusy hb) (not_isMid_of_not_isBusy (hf.busy hb)) hf.rx
        fun _ => by rw [hf.inFlight]

/-- **Reply/command agreement**, in every run in which no command is issued
while a paused reply that found no command names it. -/
theorem reply_agrees_unless_issued {c : Config}
    (h : machine.ReachableBy (fun c _ => ¬ IssuesAwaited c.h) c) {k : After}
    (hrun : c.ctl = .running k) (hs : c.h.state = .replyFinishCommand) :
    c.h.rx.replyCmd = c.h.lookupReply ∧
      ∀ inp, ∃ h', enter inp c.h = .next h' ∧
        finishedCookies h'.trace = finishedCookies c.h.trace ++ c.h.rx.replyCmd.toList := by
  have key : c.ctl = .closed ∨ Good c ∧ Agree c.h := by
    refine machine.reachableBy_invariant (P := fun c => c.ctl = .closed ∨ Good c ∧ Agree c.h)
      ?_ ?_ h
    · intro c hc
      refine .inr ⟨initial_good hc, ?_⟩
      obtain ⟨exp, strict, pi, hdr, payload, mem, rfl⟩ := hc
      intro _ hm
      cases hm
    · intro c l c' hc hcond hstep
      rcases hc with hc | ⟨hgood, hg⟩
      · cases l <;> simp [machine, step, hc] at hstep
      · rcases step_good hgood hstep with hcl | hgood'
        · exact .inl hcl
        · exact (step_agree hgood hg hcond hstep).imp id fun hg' => ⟨hgood', hg'⟩
  rcases key with hc | ⟨hgood, hg⟩
  · rw [hc] at hrun
    cases hrun
  have hm : c.h.logical.isMid = true := by
    rw [Handle.logical_of_isMid (by rw [hs]; rfl), hs]
    rfl
  have ha := alive_of_isMid (h := c.h) (by rw [hs]; rfl)
  have hlook := hg.lookup hgood.rx ha hm
  refine ⟨hlook, fun inp => ?_⟩
  simp only [enter, hs]
  exact finishCommand_next inp hgood.sound.inv hgood.sound.tails ha hgood.slack hlook

/-- A read that is sent and answered. -/
def answeredRead : List Label :=
  Label.call (.command (.aioPread 4096 512 0 .null 0)) .calm :: List.replicate 5 (.enter .calm) ++
  Label.call .aioNotifyRead .calm :: .enter { Input.calm with
    recv := .data [0x67, 0x44, 0x66, 0x98, 0, 0, 0, 5, 0, 0, 0, 0, 0, 0, 0, 1] } ::
  List.replicate 3 (.enter .calm)

theorem reply_agrees_answered_read :
    ∃ c, machine.exec .calm answeredRead = some c ∧ c.h.state = .replyFinishCommand ∧
      c.h.rx.replyCmd = some 1 ∧ c.h.rx.replyCmd = c.h.lookupReply := by
  have hrun : (machine.exec .calm answeredRead).map (fun c => (c.ctl, c.h.state, c.h.rx.replyCmd)) =
      some (.running .notify, .replyFinishCommand, some 1) := by decide +kernel
  obtain ⟨c, hc, hp⟩ := Option.map_eq_some_iff.mp hrun
  simp only [Prod.mk.injEq] at hp
  have hmeets : machine.Meets (fun c _ => ¬ IssuesAwaited c.h) .calm answeredRead :=
    machine.meets_of_check (by decide +kernel)
  exact ⟨c, hc, hp.2.1, hp.2.2, (reply_agrees_unless_issued
    ⟨_, _, Config.initial_calm, hmeets, hc⟩ hp.1 hp.2.1).1⟩

/-- The server answers a read before it has been sent: the chunk header arrives
in two parts, and the request is sent in between. -/
def answeredTooEarly : List Label :=
  [Label.call (.command (.aioPread 4096 512 0 .null 0)) .calm, .enter .calm,
   .enter { Input.calm with send := .again },
   .call .aioNotifyRead .calm, .enter .calm,
   .enter { Input.calm with
     recv := .data [0x66, 0x8e, 0x33, 0xef, 0, 1, 0, 0, 0, 0, 0, 0, 0, 0, 0, 1] }] ++
  List.replicate 5 (Label.enter .calm) ++
  Label.call .aioNotifyWrite .calm :: List.replicate 4 (.enter .calm) ++
  [Label.call .aioNotifyRead .calm, .enter .calm, .enter { Input.calm with recv := .data [0, 0, 0, 0] },
   .enter .calm, .enter .calm]

/-- The search at `FINISH_COMMAND` finds a command where `reply_cmd` is null. -/
theorem early_answer_disagrees :
    ¬ ∀ c k, machine.Reachable c → c.ctl = .running k → c.h.state = .replyFinishCommand →
      c.h.rx.replyCmd = c.h.lookupReply := by
  intro hall
  have hrun : (machine.exec (.ofExport .structured) answeredTooEarly).map (fun c =>
      (c.ctl, c.h.state, c.h.rx.replyCmd, c.h.lookupReply)) =
      some (.running .notify, .replyFinishCommand, none, some 1) := by decide +kernel
  obtain ⟨c, hc, hp⟩ := Option.map_eq_some_iff.mp hrun
  simp only [Prod.mk.injEq] at hp
  have := hall c .notify ⟨_, _, Config.initial_ofExport _, hc⟩ hp.1 hp.2.1
  rw [hp.2.2.1, hp.2.2.2] at this
  cases this

end Libnbd
