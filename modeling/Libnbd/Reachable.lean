import Libnbd.Receive

/-!
The receiving side over whole runs.

Sending, issuing, API calls and the end of the connection leave a reply that is
only partially received as it is, so `RxInv` holds in every reachable state.
`reply_cmd` and the search by cookie can then disagree in one way only: the
command a paused reply names is put in flight while the reply is paused.
-/

namespace Libnbd

open Lib

/-! ## Steps that receive nothing -/

theorem layout_keep {h h' : Handle} {s : State} (hs : s ≠ .start) (hrx : h'.rx = h.rx)
    (hexp : h'.exp = h.exp) (hq : ∀ c ∈ h.q.cmdsInFlight, c ∈ h'.q.cmdsInFlight)
    (hl : Layout h s) : Layout h' s := by
  have hty : h'.replyType = h.replyType := by rw [Handle.replyType, hrx]; rfl
  have hoff : h'.chunkOffset = h.chunkOffset := by rw [Handle.chunkOffset, hrx]; rfl
  cases s <;> try simp only [Layout, Handle.payloadAt, Handle.dataAt, hrx, hexp, hty, hoff] at hl ⊢
  case start => exact absurd rfl hs
  case simpleRecvReadPayload =>
    obtain ⟨h₁, cmd, hc, hrest⟩ := hl
    exact ⟨h₁, cmd, hq cmd hc, hrest⟩
  case chunkRecvOffsetDataData =>
    obtain ⟨h₁, k, hk, cmd, hc, hrest⟩ := hl
    exact ⟨h₁, k, hk, cmd, hq cmd hc, hrest⟩
  all_goals exact hl

/-- A step between states that are not in the middle of a reply, which leaves
the receiving side alone and takes no command from those in flight. -/
theorem RxInv.keep {h h' : Handle} (hr : RxInv h) (hb : h.state.isBusy = false)
    (hb' : h'.state.isBusy = false) (ha : h'.alive → h.alive) (hrx : h'.rx = h.rx)
    (hexp : h'.exp = h.exp) (hq : h'.alive → ∀ c ∈ h.q.cmdsInFlight, c ∈ h'.q.cmdsInFlight) :
    RxInv h' := by
  have hlog : h'.logical = h.logical := by
    rw [Handle.logical_of_not_isMid (not_isMid_of_not_isBusy hb),
      Handle.logical_of_not_isMid (not_isMid_of_not_isBusy hb'), hrx]
  refine ⟨fun hne => ?_, fun ha' => ?_, fun ha' => ?_⟩
  · rw [hrx] at hne ⊢
    exact ⟨(hr.saved hne).1, (hr.saved hne).2.1, hb'⟩
  · have hl := hr.layout (ha ha')
    rw [hlog]
    by_cases hs : h.logical = .start
    · rw [hs] at hl ⊢
      have hbetween := layout_start_between hb hl (ha ha')
      have hsize : h'.hdrSeen ↔ h.hdrSeen := by
        simp only [Handle.hdrSeen, Handle.hdrAt, Handle.replyHeaderSize, shortMagicBad,
          Handle.replyMagic, hrx, hexp]
      rw [← hsize] at hbetween
      refine ⟨by rw [hrx]; exact hl.1, ?_⟩
      rw [← hrx] at hbetween
      split
      · next hst =>
        rw [hst] at hb'
        cases hb'
      · next hst =>
        rw [hst] at hb'
        cases hb'
      · exact hbetween
    · exact layout_keep hs hrx hexp (hq ha') hl
  · have hc := hr.cmd (ha ha')
    rw [hlog]
    refine ⟨fun he => by rw [hrx]; exact hc.free he, fun k hk => ?_, fun hn => by rw [hrx]; exact hc.needed hn⟩
    rw [hrx] at hk
    obtain ⟨hck, hm⟩ := hc.inFlight k hk
    refine ⟨by rw [Handle.replyCookie, hrx]; exact hck, ?_⟩
    obtain ⟨c, hc, rfl⟩ := List.mem_map.mp hm
    exact List.mem_map_of_mem (hq ha' c hc)

theorem finishCommand_rx (inp : Input) {h : Handle} (hinv : h.book.Inv) (ht : Tails h)
    (ha : At .replyFinishCommand h) :
    (enterReplyFinishCommand inp h).All fun h' =>
      RxInv h' ∧ h'.logical = .start ∧ h'.alive ∧ h'.bytesReceived = h.bytesReceived := by
  have halive : h.alive := alive_of_isMid (by rw [ha.state]; rfl)
  have hready : ∀ h' : Handle, h'.rx = { h.rx with replyCmd := none } →
      h'.bytesReceived = h.bytesReceived →
      RxInv { h' with state := .ready } ∧ ({ h' with state := .ready } : Handle).logical = .start ∧
        ({ h' with state := .ready } : Handle).alive ∧
        ({ h' with state := .ready } : Handle).bytesReceived = h.bytesReceived := by
    intro h' hrx hb
    have hrs : h'.rx.replyState = .start := by rw [hrx]; exact ha.replyState
    refine ⟨rxInv_between rfl hrs (by rw [hrx]) ⟨by rw [hrx]; exact ha.layout.1, .inl ?_⟩,
      (Handle.logical_of_not_isMid rfl).trans hrs, ⟨nofun, nofun⟩, hb⟩
    rw [hrx]
    exact ha.layout.2
  cases hf : Handle.findCmd h.replyCookie h.q.cmdsInFlight with
  | none =>
    unfold enterReplyFinishCommand
    simp only [hf]
    apply require_all
    intro heq
    have hcmd : h.rx.replyCmd = none := by
      rw [beq_iff_eq.mp heq, Handle.lookupReply, hf]
      rfl
    exact hready h (by rw [← hcmd]) rfl
  | some cmd =>
    obtain ⟨h', hfin, heq⟩ := finishCommand_ok inp hinv ht halive hf
    rw [heq]
    apply require_all
    intro _
    apply require_all
    intro _
    refine hready h' ?_ ?_
    · rw [hfin.frame]
      rfl
    · rw [hfin.frame]
      rfl

/-- When both searches agree, `FINISH_COMMAND` completes that command. -/
theorem finishCommand_next (inp : Input) {h : Handle} (hinv : h.book.Inv) (ht : Tails h)
    (ha : h.alive) (hsl : 0 ≤ h.slack) (hlook : h.rx.replyCmd = h.lookupReply) :
    ∃ h', enterReplyFinishCommand inp h = .next h' ∧
      finishedCookies h'.trace = finishedCookies h.trace ++ h.rx.replyCmd.toList := by
  have hreq : (h.rx.replyCmd == h.lookupReply) = true := beq_iff_eq.mpr hlook
  cases hf : Handle.findCmd h.replyCookie h.q.cmdsInFlight with
  | none =>
    have hnone : h.rx.replyCmd = none := by
      rw [hlook, Handle.lookupReply, hf]
      rfl
    refine ⟨{ h with state := .ready }, ?_, by simp [hnone]⟩
    unfold enterReplyFinishCommand
    simp only [hf, hreq, require, if_true]
    rfl
  | some cmd =>
    obtain ⟨h', hfin, heq⟩ := finishCommand_ok inp hinv ht ha hf
    have hsome : h.rx.replyCmd = some cmd.cookie := by
      rw [hlook, Handle.lookupReply, hf]
      rfl
    have hpos : 0 ≤ h'.q.inFlight := by
      have := hfin.slack
      simp only [Handle.slack] at this hsl
      omega
    refine ⟨{ h' with state := .ready }, ?_, ?_⟩
    · rw [heq, hreq]
      simp only [require, if_true, decide_eq_true hpos]
      rfl
    · obtain ⟨pre, post, cmd', retire, -, -, hb⟩ := hfin.book
      have htr : h'.trace = _ := congrArg Book.trace hb
      obtain ⟨-, hc, -⟩ := cookies_of_isCall (completionEvents_isCall cmd cmd.error)
      obtain ⟨-, hr, -⟩ := cookies_retireAndFree cmd
      have hone : finishedCookies [Event.finish cmd.cookie] = [cmd.cookie] := rfl
      rw [show ({ h' with state := .ready } : Handle).trace = h'.trace from rfl, htr, hsome]
      simp only [Book.settle, finishedCookies_append, hc, hone, Handle.book]
      cases retire
      · simp [finishedCookies]
      · simp [hr]

theorem enter_rx (inp : Input) {h : Handle} (hr : RxInv h) (hinv : h.book.Inv) (ht : Tails h) :
    (enter inp h).All RxInv := by
  rcases h.state.kinds with hs | hs | hs | hs | hs
  · exact (enter_post inp hr hs).mono fun _ hp => hp.inv
  · have hb : h.state.isBusy = false := by
      cases hst : h.state <;> simp_all [State.isSending, State.isBusy, State.isMid]
    have ha : h.alive := by
      constructor <;> (intro hd; rw [hd] at hs; cases hs)
    refine (enter_sends inp hs).mono fun h' hq => ?_
    refine hr.keep hb hq.busy (fun _ => ha) ?_ ?_ fun _ c hc => ?_
    · rw [hq.eq]
    · rw [hq.eq]
    · rw [hq.eq]
      exact hc
  · simp only [enter, hs, enterIssueFinish]
    apply require_all
    intro _
    split
    · trivial
    · apply require_all
      intro _
      refine hr.keep (by rw [hs]; rfl) rfl (fun _ => by simp [Handle.alive, hs]) rfl rfl ?_
      intro _ c hc
      exact List.mem_cons_of_mem _ hc
  · have hat := hr.at (by rw [hs]; rfl)
    rw [hs] at hat
    simp only [enter, hs]
    exact (finishCommand_rx inp hinv ht hat).mono fun _ hp => hp.1
  · have hb : h.state.isBusy = false := by rcases hs with hs | hs <;> rw [hs] <;> rfl
    have hdead : ¬ h.alive := by
      rintro ⟨h₁, h₂⟩
      tauto
    obtain ⟨-, -, h', -, -, hok, hdo, -, -, -, -⟩ := abortAll_ok inp hinv ht
    have hfin : RxInv h' := by
      refine hr.keep hb ?_ (fun ha' => ?_) ?_ ?_ (fun ha' => ?_)
      · rw [hdo]
        exact hb
      · rw [hdo] at ha'
        exact ha'
      · rw [hdo]
      · rw [hdo]
      · rw [hdo] at ha'
        exact absurd ha' hdead
    rcases hs with hs | hs
    · simp only [enter, hs, enterDead, hok]
      exact require_all fun _ => hfin
    · simp only [enter, hs, enterClosed, hok]
      exact hfin

/-! ## API calls -/

/-- The events that do not come from a request being sent or a reply being
received. -/
def Event.isPassive : Event → Bool
  | issue _ | chunk .. | extent .. => false
  | _ => true

/-- The trace grows by passive events only. -/
def Passive (trace trace' : List Event) : Prop :=
  ∃ es, trace' = trace ++ es ∧ ∀ e ∈ es, Event.isPassive e = true

theorem Passive.refl (trace : List Event) : Passive trace trace :=
  ⟨[], (List.append_nil _).symm, fun _ he => absurd he List.not_mem_nil⟩

theorem Passive.trans {t₁ t₂ t₃ : List Event} (h₁₂ : Passive t₁ t₂) (h₂₃ : Passive t₂ t₃) :
    Passive t₁ t₃ := by
  obtain ⟨es, rfl, hes⟩ := h₁₂
  obtain ⟨fs, rfl, hfs⟩ := h₂₃
  refine ⟨es ++ fs, List.append_assoc _ _ _, fun e he => ?_⟩
  rcases List.mem_append.mp he with he | he
  · exact hes e he
  · exact hfs e he

theorem Passive.append {t es : List Event} (hes : ∀ e ∈ es, Event.isPassive e = true) :
    Passive t (t ++ es) := ⟨es, rfl, hes⟩

theorem issued_of_passive {t t' : List Event} (h : Passive t t') : issued t' = issued t := by
  obtain ⟨es, rfl, hes⟩ := h
  have hnil : issued es = [] := by
    refine List.filterMap_eq_nil_iff.mpr fun e he => ?_
    have := hes e he
    cases e <;> first | rfl | cases this
  rw [issued_append, hnil, List.append_nil]

/-- What an API call other than `nbd_close` leaves alone. -/
structure CallFrame (h h' : Handle) : Prop where
  rx : h'.rx = h.rx
  exp : h'.exp = h.exp
  tx : h'.tx = h.tx
  inFlight : h'.q.cmdsInFlight = h.q.cmdsInFlight
  bytesReceived : h'.bytesReceived = h.bytesReceived
  stores : h'.stores = h.stores
  state : h'.state = h.state ∨ ∃ ev, externalEvent ev h.state = some h'.state
  head : h.state ≠ .ready → ∀ cmd rest, h.q.cmdsToIssue = cmd :: rest →
    ∃ rest', h'.q.cmdsToIssue = cmd :: rest'
  passive : Passive h.trace h'.trace

theorem CallFrame.issued {h h' : Handle} (hf : CallFrame h h') :
    Libnbd.issued h'.trace = Libnbd.issued h.trace := issued_of_passive hf.passive

theorem CallFrame.of_eq {h h' : Handle} (h₁ : h'.rx = h.rx) (h₂ : h'.exp = h.exp)
    (h₃ : h'.tx = h.tx) (h₄ : h'.q.cmdsInFlight = h.q.cmdsInFlight)
    (h₅ : h'.bytesReceived = h.bytesReceived) (h₆ : h'.stores = h.stores)
    (h₇ : h'.state = h.state) (h₈ : h'.q.cmdsToIssue = h.q.cmdsToIssue)
    (h₉ : Passive h.trace h'.trace) : CallFrame h h' :=
  ⟨h₁, h₂, h₃, h₄, h₅, h₆, .inl h₇, fun _ _ rest hq => ⟨rest, h₈.trans hq⟩, h₉⟩

/-! The events of rejected, aborted and retired commands. -/

theorem passive_rejectEvents (fn completion : Closure) :
    ∀ e ∈ rejectEvents fn completion, e.isPassive = true := by
  unfold rejectEvents
  split_ifs <;> simp [Event.isPassive]

/-- The events of completing and retiring commands. -/
def Event.isEnding : Event → Bool
  | completion .. | finish _ | freeFn _ | freeCompletion _ | retire _ => true
  | _ => false

/-- The trace grows by the completion of commands only. -/
def Ending (trace trace' : List Event) : Prop :=
  ∃ es, trace' = trace ++ es ∧ ∀ e ∈ es, Event.isEnding e = true

theorem Ending.refl (trace : List Event) : Ending trace trace :=
  ⟨[], (List.append_nil _).symm, fun _ he => absurd he List.not_mem_nil⟩

theorem Ending.trans {t₁ t₂ t₃ : List Event} (h₁₂ : Ending t₁ t₂) (h₂₃ : Ending t₂ t₃) :
    Ending t₁ t₃ := by
  obtain ⟨es, rfl, hes⟩ := h₁₂
  obtain ⟨fs, rfl, hfs⟩ := h₂₃
  refine ⟨es ++ fs, List.append_assoc _ _ _, fun e he => ?_⟩
  rcases List.mem_append.mp he with he | he
  · exact hes e he
  · exact hfs e he

theorem Event.passive_of_ending {e : Event} (he : e.isEnding = true) : e.isPassive = true := by
  cases e <;> first | rfl | cases he

theorem Ending.passive {t t' : List Event} (h : Ending t t') : Passive t t' := by
  obtain ⟨es, rfl, hes⟩ := h
  exact .append fun e he => Event.passive_of_ending (hes e he)

theorem ending_retireAndFree (cmd : Command) :
    ∀ e ∈ retireAndFreeCommand cmd, e.isEnding = true := by
  unfold retireAndFreeCommand
  split_ifs <;> simp [Event.isEnding]

theorem ending_notifyCompletion (inp : Input) (cmd : Command) (err : UInt32) :
    ∀ e ∈ (notifyCompletion inp cmd err).1, e.isEnding = true := by
  unfold notifyCompletion callCallback
  simp only
  split_ifs <;> simp [Event.isEnding]

theorem passive_retireAndFree (cmd : Command) :
    ∀ e ∈ retireAndFreeCommand cmd, e.isPassive = true :=
  fun e he => Event.passive_of_ending (ending_retireAndFree cmd e he)

theorem passive_freeCmdList (inp : Input) (cmds : List Command) :
    ∀ e ∈ freeCmdList inp cmds, e.isPassive = true := by
  intro e he
  obtain ⟨cmd, -, he⟩ := List.mem_flatMap.mp he
  rcases List.mem_append.mp he with he | he
  · unfold callCallback at he
    split_ifs at he
    · cases List.mem_singleton.mp he
      rfl
    · cases he
  · exact passive_retireAndFree cmd e he

theorem close_passive (inp : Input) (h : Handle) : Passive h.trace (close inp h).trace := by
  refine .append fun e he => ?_
  rcases List.mem_append.mp he with he | he
  · rcases List.mem_append.mp he with he | he
    · exact passive_freeCmdList inp _ e he
    · exact passive_freeCmdList inp _ e he
  · exact passive_freeCmdList inp _ e he

theorem settle_doneOnly {h h' : Handle} {cmd : Command} {retire : Bool}
    (hok : h.settle cmd retire = .ok h') : DoneOnly h h' := by
  unfold Handle.settle at hok
  split at hok
  · cases hok
    rfl
  · unfold Handle.pushDone at hok
    split at hok
    · split at hok
      · cases hok
        rfl
      · cases hok
    · split at hok
      · cases hok
      · cases hok
        rfl

theorem abortCommands_doneOnly {inp : Input} {cmds : List Command} {h h' : Handle}
    (hok : abortCommands inp h cmds = .ok h') : DoneOnly h h' := by
  induction cmds generalizing h with
  | nil =>
    cases hok
    exact .refl _
  | cons cmd cmds ih =>
    unfold abortCommands at hok
    split at hok
    · cases hok
    · rename_i h₁ hone
      unfold abortCommand at hone
      split at hone
      · cases hone
      · have hlog : ∀ es, DoneOnly h (h.log es) := fun _ => rfl
        exact (hlog _).trans ((settle_doneOnly hone).trans (ih hok))

theorem settle_ending {h h' : Handle} {cmd : Command} {retire : Bool}
    (hok : h.settle cmd retire = .ok h') : Ending h.trace h'.trace := by
  unfold Handle.settle at hok
  split at hok
  · cases hok
    exact ⟨_, rfl, ending_retireAndFree cmd⟩
  · unfold Handle.pushDone at hok
    split at hok
    · split at hok <;> cases hok
      exact .refl _
    · split at hok <;> cases hok
      exact .refl _

theorem abortCommands_ending {inp : Input} {cmds : List Command} {h h' : Handle}
    (hok : abortCommands inp h cmds = .ok h') : Ending h.trace h'.trace := by
  induction cmds generalizing h with
  | nil =>
    cases hok
    exact .refl _
  | cons cmd cmds ih =>
    unfold abortCommands at hok
    split at hok
    · cases hok
    · rename_i h₁ hone
      unfold abortCommand at hone
      split at hone
      · cases hone
      · have hlog : Ending h.trace (h.log ((notifyCompletion inp cmd (orErr cmd.error enotconn)).1 ++
            [Event.finish (notifyCompletion inp cmd (orErr cmd.error enotconn)).2.1.cookie])).trace := by
          refine ⟨_, rfl, fun e he => ?_⟩
          rcases List.mem_append.mp he with he | he
          · exact ending_notifyCompletion _ _ _ e he
          · cases List.mem_singleton.mp he
            rfl
        exact hlog.trans ((settle_ending hone).trans (ih hok))

theorem abortCommands_passive {inp : Input} {cmds : List Command} {h h' : Handle}
    (hok : abortCommands inp h cmds = .ok h') : Passive h.trace h'.trace :=
  (abortCommands_ending hok).passive

theorem afterRun_frame {h h' : Handle} (hf : CallFrame h h') (k : After) (r : Int) :
    CallFrame h (afterRun k r h').h := by
  obtain ⟨d, r', he⟩ := afterRun_h k r h'
  rw [he]
  exact ⟨hf.rx, hf.exp, hf.tx, hf.inFlight, hf.bytesReceived, hf.stores, hf.state, hf.head, hf.passive⟩

theorem startRun_frame {h h' : Handle} (hf : CallFrame h h') (hst : h'.state = h.state)
    (ev : ExternalEvent) (k : After) : CallFrame h (startRun ev k h').h := by
  unfold startRun
  split
  · rename_i s hs
    rw [hst] at hs
    exact ⟨hf.rx, hf.exp, hf.tx, hf.inFlight, hf.bytesReceived, hf.stores, .inr ⟨ev, hs⟩, hf.head,
      hf.passive⟩
  · have hf' : CallFrame h (h'.setError einval "external event is invalid in this state") :=
      ⟨hf.rx, hf.exp, hf.tx, hf.inFlight, hf.bytesReceived, hf.stores, hf.state, hf.head, hf.passive⟩
    exact afterRun_frame hf' k (-1)

/-- A submission changes nothing but the queue. -/
def Submit.Frame (h : Handle) : Submit → Prop
  | .refused h' | .rejected h' | .accepted h' _ => CallFrame h h' ∧ h'.state = h.state
  | .abort _ => True

theorem Submit.Frame.afterSubmit {h : Handle} {s : Submit} (hs : s.Frame h) (k : After) :
    CallFrame h (Libnbd.afterSubmit h k s).h := by
  cases s with
  | refused h' => exact hs.1
  | rejected h' => exact hs.1
  | accepted h' run =>
    cases run with
    | true => exact startRun_frame hs.1 hs.2 .cmdIssue k
    | false => exact afterRun_frame hs.1 k 0
  | abort a => exact .of_eq rfl rfl rfl rfl rfl rfl rfl rfl (.refl _)

theorem enqueue_frame (h : Handle) (cmd : Command) : (enqueue h cmd).Frame h := by
  unfold enqueue
  simp only [Handle.log]
  cases hq : h.q.cmdsToIssue with
  | nil =>
    simp only
    by_cases ht : h.q.cmdsToIssueTail = none
    · simp only [ht, if_true]
      refine ⟨⟨rfl, rfl, rfl, rfl, rfl, rfl, .inl rfl, fun _ _ _ hne => ?_, .append ?_⟩, rfl⟩
      · rw [hq] at hne
        cases hne
      · simp [Event.isPassive]
    · simp only [ht, if_false]
      trivial
  | cons c cs =>
    simp only
    by_cases hp : h.state.isProcessing = true
    · simp only [hp, if_true]
      cases ht : h.q.cmdsToIssueTail with
      | none => trivial
      | some t =>
        simp only
        cases hl : linkAfter Command.cookie t cmd (c :: cs) with
        | none => trivial
        | some l =>
          refine ⟨⟨rfl, rfl, rfl, rfl, rfl, rfl, .inl rfl, fun _ d ds hd => ?_, .append ?_⟩, rfl⟩
          · rw [hq] at hd
            cases hd
            exact linkAfter_head Command.cookie hl
          · simp [Event.isPassive]
    · simp only [hp]
      trivial

theorem commandCommon_frame (inp : Input) (h : Handle) (r : Request) :
    (commandCommon inp h r).Frame h := by
  unfold commandCommon
  split
  · exact ⟨.of_eq rfl rfl rfl rfl rfl rfl rfl rfl
      (.append (passive_rejectEvents _ _)), rfl⟩
  · exact enqueue_frame h _

theorem Submit.Frame.trans {h h₁ : Handle} {s : Submit} (hf : CallFrame h h₁)
    (hst : h₁.state = h.state) (hs : s.Frame h₁) : s.Frame h := by
  have hstep : ∀ h', CallFrame h₁ h' ∧ h'.state = h₁.state → CallFrame h h' ∧ h'.state = h.state := by
    rintro h' ⟨hc, hs'⟩
    refine ⟨⟨hc.rx.trans hf.rx, hc.exp.trans hf.exp, hc.tx.trans hf.tx,
      hc.inFlight.trans hf.inFlight, hc.bytesReceived.trans hf.bytesReceived,
      hc.stores.trans hf.stores, .inl (hs'.trans hst), fun hr cmd rest hq => ?_,
      hf.passive.trans hc.passive⟩, hs'.trans hst⟩
    obtain ⟨rest', hq'⟩ := hf.head hr cmd rest hq
    exact hc.head (by rw [hst]; exact hr) cmd rest' hq'
  cases s with
  | refused h' => exact hstep h' hs
  | rejected h' => exact hstep h' hs
  | accepted h' run => exact hstep h' hs
  | abort a => trivial

theorem submit_frame (inp : Input) (h : Handle) (call : Call) : (submit inp h call).Frame h := by
  obtain ⟨m, hm⟩ := sanitize_eq h call
  unfold submit
  simp only [hm]
  split
  · exact ⟨.of_eq rfl rfl rfl rfl rfl rfl rfl rfl
      (.append (passive_rejectEvents _ _)), rfl⟩
  · have hf : CallFrame h { h with mem := m } := .of_eq rfl rfl rfl rfl rfl rfl rfl rfl (.refl _)
    exact .trans hf rfl (commandCommon_frame inp _ _)

theorem aioDisconnect_frame (inp : Input) (h : Handle) (flags : UInt32) :
    (aioDisconnect inp h flags).Frame h := by
  unfold aioDisconnect
  split
  · exact ⟨.of_eq rfl rfl rfl rfl rfl rfl rfl rfl (.refl _), rfl⟩
  · split
    · exact ⟨.of_eq rfl rfl rfl rfl rfl rfl rfl rfl (.refl _), rfl⟩
    · exact commandCommon_frame inp h _

theorem abandonPending_frame {inp : Input} {h h' : Handle} (hok : abandonPending inp h = .ok h') :
    CallFrame h h' ∧ h'.state = h.state := by
  -- a command that may be partially sent stays at the head of the queue
  have hdo : ∃ h₁, DoneOnly h₁ h' ∧ Passive h₁.trace h'.trace ∧ CallFrame h h₁ ∧
      h₁.state = h.state := by
    unfold abandonPending at hok
    split at hok
    · rename_i hready
      refine ⟨_, abortCommands_doneOnly hok, abortCommands_passive hok,
        ⟨rfl, rfl, rfl, rfl, rfl, rfl, .inl rfl, fun hne => absurd hready hne, .refl _⟩, rfl⟩
    · split at hok
      · cases hok
      · rename_i cmd rest hq
        refine ⟨_, abortCommands_doneOnly hok, abortCommands_passive hok,
          ⟨rfl, rfl, rfl, rfl, rfl, rfl, .inl rfl, fun _ d ds hd => ?_, .refl _⟩, rfl⟩
        rw [hq] at hd
        cases hd
        exact ⟨[], rfl⟩
  obtain ⟨h₁, hd, hiss, hf, hst⟩ := hdo
  unfold DoneOnly at hd
  rw [hd] at hiss ⊢
  exact ⟨⟨hf.rx, hf.exp, hf.tx, hf.inFlight, hf.bytesReceived, hf.stores, hf.state, hf.head,
    hf.passive.trans hiss⟩, hst⟩

theorem shutdown_frame (inp : Input) (h : Handle) (flags : UInt32) :
    (shutdown inp h flags).Frame h := by
  have hrest : ∀ h', CallFrame h h' ∧ h'.state = h.state →
      Submit.Frame h (if h'.disconnectRequest then .accepted h' false
        else commandCommon inp h' (discRequest 0)) := by
    intro h' hf
    split
    · exact hf
    · exact .trans hf.1 hf.2 (commandCommon_frame inp h' _)
  unfold shutdown
  by_cases hconn : (!h.state.isConnected) = true
  · rw [if_pos hconn]
    exact ⟨.of_eq rfl rfl rfl rfl rfl rfl rfl rfl (.refl _), rfl⟩
  · rw [if_neg hconn]
    by_cases hbad : (flags &&& (0xffffffff ^^^ shutdownAbandonPending) != 0) = true
    · rw [if_pos hbad]
      exact ⟨.of_eq rfl rfl rfl rfl rfl rfl rfl rfl (.refl _), rfl⟩
    · rw [if_neg hbad]
      by_cases hf : hasFlag flags shutdownAbandonPending = true
      · rw [if_pos hf]
        cases hok : abandonPending inp h with
        | error a => trivial
        | ok h' => exact hrest h' (abandonPending_frame hok)
      · rw [if_neg hf]
        exact hrest h ⟨.of_eq rfl rfl rfl rfl rfl rfl rfl rfl (.refl _), rfl⟩

theorem aioCommandCompleted_frame {h h' : Handle} {cookie : UInt64} {r : Int}
    (hok : aioCommandCompleted h cookie = .ok (h', r)) : CallFrame h h' := by
  unfold aioCommandCompleted at hok
  split at hok
  · cases hok
    exact .of_eq rfl rfl rfl rfl rfl rfl rfl rfl (.refl _)
  · split at hok
    · cases hok
      exact .of_eq rfl rfl rfl rfl rfl rfl rfl rfl (.refl _)
    · split at hok
      · cases hok
      · split at hok
        · cases hok
        · have hh' := congrArg Prod.fst (Except.ok.inj hok)
          simp only at hh'
          rw [← hh']
          obtain ⟨e, he⟩ := ite_setError _ _ _ _ _
          rw [he]
          refine .of_eq rfl rfl rfl rfl rfl rfl rfl rfl (.append ?_)
          intro e he
          rcases List.mem_append.mp he with he | he
          · exact passive_retireAndFree _ e he
          · cases List.mem_singleton.mp he
            rfl

theorem apiCall_frame (inp : Input) (h : Handle) (api : Api) (hclose : api ≠ .close) :
    CallFrame h (apiCall inp h api).h := by
  cases api with
  | command call => exact (submit_frame inp h call).afterSubmit _
  | aioDisconnect flags => exact (aioDisconnect_frame inp h flags).afterSubmit _
  | shutdown flags => exact (shutdown_frame inp h flags).afterSubmit _
  | aioCommandCompleted cookie =>
    simp only [apiCall]
    cases hok : aioCommandCompleted h cookie with
    | error a => exact .of_eq rfl rfl rfl rfl rfl rfl rfl rfl (.refl _)
    | ok p => exact aioCommandCompleted_frame hok
  | aioNotifyRead => exact startRun_frame (.of_eq rfl rfl rfl rfl rfl rfl rfl rfl (.refl _)) rfl .notifyRead .notify
  | aioNotifyWrite =>
    exact startRun_frame (.of_eq rfl rfl rfl rfl rfl rfl rfl rfl (.refl _)) rfl .notifyWrite .notify
  | setStrictMode flags =>
    simp only [apiCall]
    split <;> exact .of_eq rfl rfl rfl rfl rfl rfl rfl rfl (.refl _)
  | setPreadInitialize b => exact .of_eq rfl rfl rfl rfl rfl rfl rfl rfl (.refl _)
  | close => exact absurd rfl hclose

/-! ## Reachable states -/

theorem All.stops {P : Handle → Prop} {o : Outcome} (h : o.All P) : o.Stops P := by
  cases o <;> first | exact h | trivial

/-- The run loop does not end in the middle of a reply. -/
theorem enter_stops_between (inp : Input) {h : Handle} (hinv : h.book.Inv) (ht : Tails h) :
    (enter inp h).Stops fun h' => h'.state.isBusy = false := by
  rcases h.state.kinds with hs | hs | hs | hs | hs
  · by_cases hst : h.state = .replyStart
    · simp only [enter, hst, enterReplyStart]
      split
      · split
        · exact require_stops trivial
        · trivial
      · apply require_stops
        split
        · simp only [Outcome.Stops, Handle.prepareReply, hst]
          rfl
        · trivial
        · split <;> trivial
    · exact receiving_stops hs hst _
  · exact All.stops ((enter_sends inp hs).mono fun _ hq => hq.busy)
  · simp only [enter, hs, enterIssueFinish]
    apply require_stops
    split
    · trivial
    · exact require_stops trivial
  · simp only [enter, hs, enterReplyFinishCommand]
    apply require_stops
    split
    · trivial
    · split
      · trivial
      · split
        · trivial
        · exact require_stops trivial
  · obtain ⟨-, -, h', -, -, hok, hdo, -, -, -, -⟩ := abortAll_ok inp hinv ht
    have hst : h'.state.isBusy = false := by
      rw [hdo]
      rcases hs with hs | hs <;> rw [hs] <;> rfl
    rcases hs with hs | hs
    · simp only [enter, hs, enterDead, hok]
      exact require_stops hst
    · simp only [enter, hs, enterClosed, hok]
      exact hst

/-- The invariant of a configuration that is not closed. -/
structure Good (c : Config) : Prop where
  sound : Sound c
  slack : 0 ≤ c.h.slack
  rx : RxInv c.h
  between : ∀ r, c.ctl = .idle r → c.h.state.isBusy = false

theorem externalEvent_busy {ev : ExternalEvent} {s s' : State} (h : externalEvent ev s = some s') :
    s.isBusy = false ∧ s'.isBusy = false ∧ s ≠ .dead ∧ s ≠ .closed := by
  cases ev <;> cases s <;> simp_all [externalEvent] <;> subst h <;>
    simp [State.isBusy, State.isMid]

theorem CallFrame.busy {h h' : Handle} (hf : CallFrame h h') (hb : h.state.isBusy = false) :
    h'.state.isBusy = false := by
  rcases hf.state with hs | ⟨ev, hs⟩
  · rw [hs]
    exact hb
  · exact (externalEvent_busy hs).2.1

theorem CallFrame.alive {h h' : Handle} (hf : CallFrame h h') (ha : h'.alive) : h.alive := by
  rcases hf.state with hs | ⟨ev, hs⟩
  · rwa [Handle.alive, hs] at ha
  · exact ⟨(externalEvent_busy hs).2.2.1, (externalEvent_busy hs).2.2.2⟩

theorem CallFrame.rxInv {h h' : Handle} (hf : CallFrame h h') (hr : RxInv h)
    (hb : h.state.isBusy = false) : RxInv h' :=
  hr.keep hb (hf.busy hb) hf.alive hf.rx hf.exp fun _ c hc => by rw [hf.inFlight]; exact hc

/-- The two kinds of steps: an iteration of the run loop, and an API call. -/
theorem step_cases {c c' : Config} {l : Label} (h : step c l = some c') :
    (∃ inp k, l = .enter inp ∧ c.ctl = .running k ∧ c' = stepEnter inp k c.h) ∨
    (∃ api inp r, l = .call api inp ∧ c.ctl = .idle r ∧
      c' = apiCall inp { c.h with lastError := inp.lastError } api) := by
  cases l with
  | enter inp =>
    simp only [step] at h
    split at h
    · rename_i k hk
      cases h
      exact .inl ⟨inp, k, rfl, hk, rfl⟩
    · cases h
  | call api inp =>
    simp only [step] at h
    split at h
    · rename_i r hr
      cases h
      exact .inr ⟨api, inp, r, rfl, hr, rfl⟩
    · cases h

/-- What an iteration leaves behind, whatever its outcome. -/
theorem stepEnter_all {P : Handle → Prop} {inp : Input} {h : Handle} (k : After)
    (hP : (enter inp h).All P) (h₀ : P h)
    (hd : ∀ h' d, P h' → P { h' with disconnectRequest := d }) : P (stepEnter inp k h).h := by
  obtain ⟨h', ho, he⟩ | ⟨h', d, r, ho | ho, he⟩ | ⟨a, -, he⟩ := stepEnter_cases inp k h
  · rw [ho] at hP
    rw [he]
    exact hP
  · rw [ho] at hP
    rw [he]
    exact hd h' d hP
  · rw [ho] at hP
    rw [he]
    exact hd h' d hP
  · rw [he]
    exact h₀

theorem stepEnter_stops {P : Handle → Prop} {inp : Input} {h : Handle} {k : After} {r : Int}
    (hP : (enter inp h).Stops P) (hd : ∀ h' d, P h' → P { h' with disconnectRequest := d })
    (hr : (stepEnter inp k h).ctl = .idle r) : P (stepEnter inp k h).h := by
  obtain ⟨h', -, he⟩ | ⟨h', d, r, ho | ho, he⟩ | ⟨a, -, he⟩ := stepEnter_cases inp k h
  · rw [he] at hr
    cases hr
  · rw [ho] at hP
    rw [he]
    exact hd h' d hP
  · rw [ho] at hP
    rw [he]
    exact hd h' d hP
  · rw [he] at hr
    cases hr

theorem step_good {c c' : Config} {l : Label} (hg : Good c) (h : step c l = some c') :
    c'.ctl = .closed ∨ Good c' := by
  by_cases hcl : c'.ctl = .closed
  · exact .inl hcl
  right
  have hr := (step_refines hg.sound h).resolve_left hcl
  have hslack : 0 ≤ c'.h.slack := by
    have := hg.slack
    rcases hr.slack with ⟨h₁, -⟩ | h₀ <;> omega
  obtain ⟨inp, k, -, -, rfl⟩ | ⟨api, inp, r, rfl, hctl, rfl⟩ := step_cases h
  · refine ⟨hr.sound, hslack, ?_, fun r hctl => ?_⟩
    · refine stepEnter_all k (enter_rx inp hg.rx hg.sound.inv hg.sound.tails) hg.rx ?_
      intro h' d hp
      exact ⟨hp.saved, hp.layout, fun ha => ⟨(hp.cmd ha).free, (hp.cmd ha).inFlight, (hp.cmd ha).needed⟩⟩
    · exact stepEnter_stops (P := fun h => h.state.isBusy = false)
        (enter_stops_between inp hg.sound.inv hg.sound.tails) (fun _ _ hp => hp) hctl
  · have hb := hg.between r hctl
    by_cases hclose : api = .close
    · subst hclose
      exact absurd rfl hcl
    · have hf := apiCall_frame inp { c.h with lastError := inp.lastError } api hclose
      have hrx : RxInv { c.h with lastError := inp.lastError } :=
        ⟨hg.rx.saved, hg.rx.layout, fun ha =>
          ⟨(hg.rx.cmd ha).free, (hg.rx.cmd ha).inFlight, (hg.rx.cmd ha).needed⟩⟩
      exact ⟨hr.sound, hslack, hf.rxInv hrx hb, fun _ _ => hf.busy hb⟩

theorem initial_good {c : Config} (h : Initial c) : Good c := by
  refine ⟨initial_sound h, ?_, ?_, ?_⟩ <;> obtain ⟨exp, strict, pi, hdr, payload, mem, rfl⟩ := h
  · exact Int.le_refl 0
  · exact rxInv_between rfl rfl rfl ⟨rfl, .inl rfl⟩
  · exact fun _ _ => rfl

theorem reachable_good {c : Config} (h : machine.Reachable c) : c.ctl = .closed ∨ Good c := by
  refine machine.reachable_invariant (P := fun c => c.ctl = .closed ∨ Good c)
    (fun c hc => .inr (initial_good hc)) ?_ h
  intro c l c' hc hstep
  rcases hc with hc | hc
  · cases l <;> simp [machine, step, hc] at hstep
  · exact step_good hc hstep

/-! ## Submissions -/

/-- The submission that an API call makes, if it makes one. -/
def submission (inp : Input) (h : Handle) : Api → Option Submit
  | .command call => some (submit inp h call)
  | .aioDisconnect flags => some (aioDisconnect inp h flags)
  | .shutdown flags => some (shutdown inp h flags)
  | _ => none

/-- A submission that is turned away queues nothing, and only a command queued
in `READY` starts the machine. -/
def Submit.Orderly (h : Handle) : Submit → Prop
  | .refused h' | .rejected h' => h.q.cmdsToIssue = [] → h'.q.cmdsToIssue = []
  | .accepted h' run => run = true → h'.state = .ready
  | .abort _ => True

theorem enqueue_orderly (h : Handle) (cmd : Command) : (enqueue h cmd).Orderly h := by
  unfold enqueue
  simp only
  split
  · split
    · intro hrun
      simpa using hrun
    · trivial
  · split
    · split
      · trivial
      · split
        · trivial
        · exact fun hrun => absurd hrun (by decide)
    · trivial

theorem commandCommon_orderly (inp : Input) (h : Handle) (r : Request) :
    (commandCommon inp h r).Orderly h := by
  unfold commandCommon
  split
  · exact id
  · exact enqueue_orderly h _

theorem abandonPending_empty {inp : Input} {h h' : Handle} (hok : abandonPending inp h = .ok h')
    (hq : h.q.cmdsToIssue = []) : h'.q.cmdsToIssue = [] := by
  unfold abandonPending at hok
  split at hok
  · have hdo := abortCommands_doneOnly hok
    rw [hdo]
  · rw [hq] at hok
    cases hok

theorem submission_orderly {inp : Input} {h : Handle} {api : Api} {s : Submit}
    (hs : submission inp h api = some s) : s.Orderly h := by
  cases api with
  | command call =>
    cases hs
    obtain ⟨m, hm⟩ := sanitize_eq h call
    unfold submit
    simp only [hm]
    split
    · exact id
    · exact commandCommon_orderly inp _ _
  | aioDisconnect flags =>
    cases hs
    unfold aioDisconnect
    split
    · exact id
    · split
      · exact id
      · exact commandCommon_orderly inp h _
  | shutdown flags =>
    cases hs
    unfold shutdown
    split
    · exact id
    · split
      · exact id
      · split
        · trivial
        · rename_i h₁ hok
          have hempty : h.q.cmdsToIssue = [] → h₁.q.cmdsToIssue = [] := by
            split at hok
            · exact abandonPending_empty hok
            · cases hok
              exact id
          split
          · exact fun hrun => absurd hrun (by decide)
          · have ho := commandCommon_orderly inp h₁ (discRequest 0)
            generalize commandCommon inp h₁ (discRequest 0) = t at ho ⊢
            cases t with
            | refused h' | rejected h' => exact fun hq => ho (hempty hq)
            | accepted h' run => exact ho
            | abort a => trivial
  | _ => cases hs

theorem submission_frame {inp : Input} {h : Handle} {api : Api} {s : Submit}
    (hs : submission inp h api = some s) : s.Frame h := by
  cases api with
  | command call => cases hs; exact submit_frame inp h call
  | aioDisconnect flags => cases hs; exact aioDisconnect_frame inp h flags
  | shutdown flags => cases hs; exact shutdown_frame inp h flags
  | _ => cases hs

theorem apiCall_submission {inp : Input} {h : Handle} {api : Api} {s : Submit}
    (hs : submission inp h api = some s) : ∃ k, apiCall inp h api = afterSubmit h k s := by
  cases api with
  | command call => cases hs; exact ⟨_, rfl⟩
  | aioDisconnect flags => cases hs; exact ⟨_, rfl⟩
  | shutdown flags => cases hs; exact ⟨_, rfl⟩
  | _ => cases hs

theorem startRun_cases (ev : ExternalEvent) (k : After) (h : Handle) :
    (∃ s, externalEvent ev h.state = some s ∧
      startRun ev k h = ⟨{ h with state := s }, .running k⟩) ∨
    (∃ d e r, externalEvent ev h.state = none ∧
      startRun ev k h = ⟨{ h with disconnectRequest := d, lastError := e }, .idle r⟩) := by
  unfold startRun
  cases hs : externalEvent ev h.state with
  | some s => exact .inl ⟨s, rfl, rfl⟩
  | none =>
    right
    obtain ⟨d, r, he⟩ := afterRun_h k (-1) (h.setError einval "external event is invalid in this state")
    exact ⟨d, _, r, rfl, he⟩

end Libnbd
