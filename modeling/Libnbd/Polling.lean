import Libnbd.Reachable

/-!
What a handle polls for while it waits.

The run loop returns in `READY`, in one of the three sending states or in one
of the two final states. The exception is `REPLY.START`, which blocks when the
socket has nothing to read and then has no write event.
-/

namespace Libnbd

open Lib

def directionRead : UInt32 := 1
def directionWrite : UInt32 := 2

/-- `nbd_internal_aio_get_direction`. -/
def aioGetDirection (s : State) : UInt32 :=
  (if (externalEvent .notifyRead s).isSome then directionRead else 0) |||
    (if (externalEvent .notifyWrite s).isSome then directionWrite else 0)

/-- The states in which the run loop can return. -/
def State.isWaiting : State → Bool
  | ready | replyStart | issueSendRequest | issueSendWritePayload | issueSendWriteShutdown
  | start | dead | closed => true
  | _ => false

/-- The states in which the connection is gone. -/
def State.isEnded (s : State) : Bool := s == .dead || s == .closed

/-- Requests that wait are polled for. -/
def Polled (h : Handle) : Prop :=
  h.state.isConnected = true → h.q.cmdsToIssue ≠ [] →
    aioGetDirection h.state &&& directionWrite ≠ 0

theorem polled_of_empty {h : Handle} (hq : h.q.cmdsToIssue = []) : Polled h :=
  fun _ hne => absurd hq hne

theorem not_polled_of_replyStart {h : Handle} (hs : h.state = .replyStart)
    (hq : h.q.cmdsToIssue ≠ []) : ¬ Polled h := by
  intro hp
  have := hp (by rw [hs]; rfl) hq
  rw [hs] at this
  exact this (by decide)

/-- A waiting handle polls for its requests unless it is in `READY` or
`REPLY.START`. -/
theorem State.isWaiting.polled {h : Handle} (hw : h.state.isWaiting = true)
    (hready : h.state ≠ .ready) (hstart : h.state ≠ .replyStart) : Polled h := by
  intro hc _
  cases hs : h.state <;> simp_all [State.isWaiting, State.isConnected, State.isProcessing] <;>
    decide

/-! ## The run loop -/

/-- The run loop returns with `h'`: in `REPLY.START` only because that state
looked for a new reply and the socket had nothing. -/
structure Waits (inp : Input) (h h' : Handle) : Prop where
  waiting : h'.state.isWaiting = true
  reply : h'.state = .replyStart →
    h.state = .replyStart ∧ h.rx.rlen = 0 ∧ inp.recv = .again ∧ h'.q = h.q
  ended : h'.state.isEnded = true → h'.q.cmdsToIssue = [] ∧ h'.q.cmdsInFlight = []

theorem Waits.of_state {inp : Input} {h h' : Handle} {s : State} (hs : h'.state = s)
    (hw : s.isWaiting = true) (hne : s ≠ .replyStart) (hend : s.isEnded = false) :
    Waits inp h h' where
  waiting := by rw [hs]; exact hw
  reply := fun hr => absurd (hs.symm.trans hr) hne
  ended := fun he => by
    rw [hs, hend] at he
    cases he

/-- `DEAD` and `CLOSED` have aborted all commands. -/
theorem Waits.of_abortAll {inp : Input} {h h' : Handle} {s : State} (hinv : h.book.Inv)
    (ht : Tails h) (hs : h.state = s) (hw : s.isWaiting = true) (hne : s ≠ .replyStart)
    (hok : abortAll inp h = .ok h') : Waits inp h h' := by
  obtain ⟨-, -, h₁, -, -, hok₁, hdo, -⟩ := abortAll_ok inp hinv ht
  rw [hok] at hok₁
  cases hok₁
  rw [hdo]
  refine ⟨?_, fun hr => absurd (hs.symm.trans hr) hne, fun _ => ⟨rfl, rfl⟩⟩
  show h.state.isWaiting = true
  rw [hs]
  exact hw

theorem enterSend_waits {inp : Input} {s t : State} {h : Handle} (hs : h.state = t)
    (hw : t.isWaiting = true) (hne : t ≠ .replyStart) (hend : t.isEnded = false) :
    (enterSend inp s h).Stops (Waits inp h) := by
  unfold enterSend
  obtain he | ⟨e, he⟩ | ⟨tx, n, he⟩ | ⟨tx, n, he⟩ := sendFromWbuf_cases inp h
  · rw [he]
    trivial
  · rw [he]
    trivial
  · rw [he]
    exact .of_state hs hw hne hend
  · rw [he]
    trivial

theorem enterReplyStart_waits {inp : Input} {h : Handle} (hst : h.state = .replyStart) :
    (enterReplyStart inp h).Stops (Waits inp h) := by
  unfold enterReplyStart
  split
  · exact ite_stops (require_stops trivial) trivial
  · rename_i hlen
    refine require_stops ?_
    split
    · rename_i hrecv
      refine ⟨?_, fun _ => ⟨hst, by omega, hrecv, rfl⟩, fun he => ?_⟩
      · show h.state.isWaiting = true
        rw [hst]
        rfl
      · rw [show h.prepareReply.state = h.state from rfl, hst] at he
        cases he
    · trivial
    · exact ite_stops trivial trivial

/-- Wherever the run loop returns, the state is one to wait in. -/
theorem enter_waits (inp : Input) {h : Handle} (hinv : h.book.Inv) (ht : Tails h) :
    (enter inp h).Stops (Waits inp h) := by
  by_cases hr : h.state.isReceiving = true ∧ h.state ≠ .replyStart
  · exact receiving_stops hr.1 hr.2 _
  · unfold enter
    cases hst : h.state <;> simp only [hst, State.isReceiving, ne_eq, reduceCtorEq,
      not_false_eq_true, and_self, not_true_eq_false] at hr ⊢
    case start => exact .of_state hst rfl (by simp) rfl
    case ready =>
      exact ite_stops trivial (require_stops (ite_stops trivial (.of_state hst rfl (by simp) rfl)))
    case dead =>
      refine require_stops ?_
      obtain ⟨-, -, h', -, -, hok, -⟩ := abortAll_ok inp hinv ht
      simp only [hok]
      exact .of_abortAll hinv ht hst rfl (by simp) hok
    case closed =>
      obtain ⟨-, -, h', -, -, hok, -⟩ := abortAll_ok inp hinv ht
      simp only [enterClosed, hok]
      exact .of_abortAll hinv ht hst rfl (by simp) hok
    case issueStart =>
      unfold enterIssueStart
      split
      · trivial
      · refine ite_stops (require_stops trivial) (ite_stops (ite_stops ?_ ?_) (require_stops trivial))
        · exact .of_state rfl rfl (by simp) rfl
        · exact .of_state rfl rfl (by simp) rfl
    case issueSendRequest => exact enterSend_waits hst rfl (by simp) rfl
    case issuePauseSendRequest => exact require_stops (require_stops trivial)
    case issuePrepareWritePayload =>
      unfold enterIssuePrepareWritePayload
      split
      · trivial
      · exact require_stops (ite_stops trivial (ite_stops trivial trivial))
    case issueSendWritePayload => exact enterSend_waits hst rfl (by simp) rfl
    case issuePauseWritePayload => exact require_stops (require_stops trivial)
    case issueSendWriteShutdown => exact ite_stops trivial (.of_state hst rfl (by simp) rfl)
    case issuePauseWriteShutdown => exact require_stops trivial
    case issueFinish =>
      refine require_stops ?_
      split
      · trivial
      · exact require_stops trivial
    case replyStart => exact enterReplyStart_waits hst
    case replyFinishCommand =>
      refine require_stops ?_
      split
      · trivial
      · refine ite_stops trivial ?_
        simp only
        split
        · trivial
        · exact require_stops trivial

/-! ## API calls -/

/-- The call leaves a command in `cmds_to_issue`. -/
def queues (inp : Input) (h : Handle) (api : Api) : Bool :=
  match submission inp h api with
  | some (.accepted h' _) => !h'.q.cmdsToIssue.isEmpty
  | _ => false

theorem queues_eq_true {inp : Input} {h : Handle} {api : Api} :
    queues inp h api = true ↔
      ∃ h' run, submission inp h api = some (.accepted h' run) ∧ h'.q.cmdsToIssue ≠ [] := by
  unfold queues
  split
  · rename_i h' run hs
    simp [hs]
  · rename_i hne
    refine ⟨nofun, ?_⟩
    rintro ⟨h', run, hs, -⟩
    exact absurd hs (hne h' run)

/-- A call that returns without running the machine leaves the state alone. -/
theorem apiCall_idle {inp : Input} {h : Handle} {api : Api} {r : Int} (hinv : h.book.Inv)
    (ht : Tails h) (hclose : api ≠ .close)
    (hctl : (apiCall inp h api).ctl = .idle r) :
    (apiCall inp h api).h.state = h.state ∧
      (h.q.cmdsToIssue = [] → (apiCall inp h api).h.q.cmdsToIssue ≠ [] → queues inp h api = true) := by
  have hstart : ∀ ev k, (startRun ev k h).ctl = .idle r →
      (startRun ev k h).h.state = h.state ∧ (startRun ev k h).h.q = h.q := by
    intro ev k hc
    obtain ⟨s, -, he⟩ | ⟨d, e, r', -, he⟩ := startRun_cases ev k h
    · rw [he] at hc
      cases hc
    · rw [he]
      exact ⟨rfl, rfl⟩
  cases hs : submission inp h api with
  | some s =>
    obtain ⟨k, he⟩ := apiCall_submission hs
    have hf := submission_frame hs
    have ho := submission_orderly hs
    rw [he] at hctl ⊢
    cases s with
    | refused h' | rejected h' => exact ⟨hf.2, fun hq hne => absurd (ho hq) hne⟩
    | accepted h' run =>
      cases run with
      | false =>
        obtain ⟨d, r', ha⟩ := afterRun_h k 0 h'
        simp only [afterSubmit, ha]
        exact ⟨hf.2, fun _ hne => queues_eq_true.mpr ⟨h', false, hs, hne⟩⟩
      | true =>
        obtain ⟨s, -, ha⟩ | ⟨d, e, r', hnone, -⟩ := startRun_cases .cmdIssue k h'
        · simp only [afterSubmit, ha] at hctl
          cases hctl
        · rw [ho rfl] at hnone
          cases hnone
    | abort a => cases hctl
  | none =>
    cases api with
    | close => exact absurd rfl hclose
    | command | aioDisconnect | shutdown => cases hs
    | aioNotifyRead =>
      obtain ⟨h₁, h₂⟩ := hstart _ _ hctl
      exact ⟨h₁, fun hq hne => absurd ((congrArg Queues.cmdsToIssue h₂).trans hq) hne⟩
    | aioNotifyWrite =>
      obtain ⟨h₁, h₂⟩ := hstart _ _ hctl
      exact ⟨h₁, fun hq hne => absurd ((congrArg Queues.cmdsToIssue h₂).trans hq) hne⟩
    | setStrictMode flags =>
      simp only [apiCall] at hctl ⊢
      split
      · exact ⟨rfl, fun hq hne => absurd hq hne⟩
      · exact ⟨rfl, fun hq hne => absurd hq hne⟩
    | setPreadInitialize b => exact ⟨rfl, fun hq hne => absurd hq hne⟩
    | aioCommandCompleted cookie =>
      simp only [apiCall] at hctl ⊢
      cases hc : aioCommandCompleted h cookie with
      | error a =>
        rw [hc] at hctl
        cases hctl
      | ok p =>
        obtain ⟨hd, hq'⟩ := aioCommandCompleted_did hinv ht hc
        exact ⟨hd.state, fun hq hne => absurd (hq'.trans hq) hne⟩

/-! ## Runs -/

/-- `REPLY.START` does not block in front of waiting requests, and no command is
queued while it blocks. -/
def Unblocked (c : Config) : Label → Prop
  | .enter inp => c.h.state = .replyStart → c.h.rx.rlen = 0 → inp.recv = .again →
      c.h.q.cmdsToIssue = []
  | .call api inp => c.h.state = .replyStart →
      queues inp { c.h with lastError := inp.lastError } api = false

instance (c : Config) (l : Label) : Decidable (Unblocked c l) :=
  match l with
  | .enter _ => inferInstanceAs (Decidable (_ → _ → _ → _))
  | .call _ _ => inferInstanceAs (Decidable (_ → _))

/-- What is said of a handle between two calls. -/
structure Waiting (c : Config) : Prop where
  state : ∀ r, c.ctl = .idle r → c.h.state.isWaiting = true
  polled : ∀ r, c.ctl = .idle r → Polled c.h

theorem waiting_of_idle {c : Config} (hi : ∀ r, c.ctl = .idle r → Idle c.h)
    (hs : ∀ r, c.ctl = .idle r → c.h.state.isWaiting = true)
    (hr : ∀ r, c.ctl = .idle r → c.h.state = .replyStart → c.h.q.cmdsToIssue = []) :
    Waiting c where
  state := hs
  polled := by
    intro r hc
    by_cases hready : c.h.state = .ready
    · exact polled_of_empty (hi r hc hready)
    · by_cases hstart : c.h.state = .replyStart
      · exact polled_of_empty (hr r hc hstart)
      · exact State.isWaiting.polled (hs r hc) hready hstart

theorem Waiting.reply {c : Config} (hw : Waiting c) {r : Int} (hc : c.ctl = .idle r)
    (hs : c.h.state = .replyStart) : c.h.q.cmdsToIssue = [] := by
  by_contra hq
  exact not_polled_of_replyStart hs hq (hw.polled r hc)

theorem step_waiting {c c' : Config} {l : Label} (hg : Sound c) (hg' : Sound c') (hw : Waiting c)
    (hl : Unblocked c l) (h : step c l = some c') : Waiting c' := by
  rcases step_cases h with ⟨inp, k, rfl, -, rfl⟩ | ⟨api, inp, r, rfl, hr, rfl⟩
  · have hst := enter_waits inp hg.inv hg.tails
    have key : ∀ r, (stepEnter inp k c.h).ctl = .idle r → Waits inp c.h (stepEnter inp k c.h).h :=
      fun r hc => stepEnter_stops hst (fun h' d hp => ⟨hp.waiting, hp.reply, hp.ended⟩) hc
    refine waiting_of_idle hg'.idle (fun r hc => (key r hc).waiting) fun r hc hs => ?_
    obtain ⟨h₁, h₂, h₃, h₄⟩ := (key r hc).reply hs
    rw [h₄]
    exact hl h₁ h₂ h₃
  · by_cases hcl : api = .close
    · subst hcl
      exact ⟨nofun, nofun⟩
    · have ht : Tails { c.h with lastError := inp.lastError } := ⟨hg.tails.toIssue, hg.tails.done⟩
      have key := fun r' (hc : (apiCall inp { c.h with lastError := inp.lastError } api).ctl =
        .idle r') => apiCall_idle (h := { c.h with lastError := inp.lastError }) hg.inv ht hcl hc
      refine waiting_of_idle hg'.idle (fun r' hc => ?_) fun r' hc hs => ?_
      · rw [(key r' hc).1]
        exact hw.state r hr
      · by_contra hq
        have hs' : c.h.state = .replyStart := (key r' hc).1.symm.trans hs
        have hqueues := (key r' hc).2 (hw.reply hr hs') hq
        rw [hl hs'] at hqueues
        cases hqueues

theorem replyCmd_of_replyStart {h : Handle} (hr : RxInv h) (hs : h.state = .replyStart)
    (hlen : h.rx.rlen = 0) : h.rx.replyCmd = none := by
  have halive : h.alive := by
    constructor <;> (intro hd; rw [hs] at hd; cases hd)
  have hfree : h.rx.replyState = .start := by
    by_contra hne
    exact (hr.saved hne).2.1 hlen
  have hlogical : h.logical = .start := by
    simp [Handle.logical, hs, State.isMid, hfree]
  exact (hr.cmd halive).free hlogical

/-- A step that is not `Unblocked` leaves the machine waiting in `REPLY.START`
with a request that is not polled for. -/
theorem step_not_polled {c c' : Config} {l : Label} (hg : Good c) (hl : ¬ Unblocked c l)
    (h : step c l = some c') : ∃ r, c'.ctl = .idle r ∧ ¬ Polled c'.h := by
  rcases step_cases h with ⟨inp, k, rfl, -, rfl⟩ | ⟨api, inp, r, rfl, hr, rfl⟩
  · simp only [Unblocked, Classical.not_imp] at hl
    obtain ⟨hs, hlen, hrecv, hq⟩ := hl
    have hcmd := replyCmd_of_replyStart hg.rx hs hlen
    have he : enter inp c.h = .block c.h.prepareReply := by
      simp [enter, hs, enterReplyStart, hlen, hcmd, hrecv, require]
    obtain ⟨d, r, ha⟩ := afterRun_h k 0 c.h.prepareReply
    refine ⟨r, ?_⟩
    simp only [stepEnter, he, ha, true_and]
    exact not_polled_of_replyStart hs hq
  · simp only [Unblocked, Classical.not_imp, Bool.not_eq_false] at hl
    obtain ⟨hs, hqueues⟩ := hl
    obtain ⟨h', run, hsub, hq⟩ := queues_eq_true.mp hqueues
    obtain ⟨k, he⟩ := apiCall_submission hsub
    have hs' : h'.state = .replyStart := (submission_frame hsub).2.trans hs
    have hrun : run = false := by
      by_contra hne
      have hready := submission_orderly hsub (Bool.of_not_eq_false hne)
      rw [hs'] at hready
      cases hready
    subst hrun
    obtain ⟨d, r', ha⟩ := afterRun_h k 0 h'
    refine ⟨r', ?_⟩
    simp only [he, afterSubmit, ha, true_and]
    exact not_polled_of_replyStart hs' hq

/-- **Pending work is polled for**, in every run in which `REPLY.START` does not
block while requests wait. A step that breaks this condition breaks the property. -/
theorem queued_requests_polled (c : Config) :
    (machine.ReachableBy Unblocked c → ∀ r, c.ctl = .idle r → Polled c.h) ∧
    ∀ l c', machine.Reachable c → machine.step c l = some c' → ¬ Unblocked c l →
      ∃ r, c'.ctl = .idle r ∧ ¬ Polled c'.h := by
  constructor
  · intro hc r hr
    have key : c.ctl = .closed ∨ Sound c ∧ Waiting c := by
      refine machine.reachableBy_invariant (P := fun c => c.ctl = .closed ∨ Sound c ∧ Waiting c)
        ?_ ?_ hc
      · intro c₀ hi
        refine .inr ⟨initial_sound hi, ?_⟩
        obtain ⟨exp, strict, pi, hdr, payload, mem, rfl⟩ := hi
        exact ⟨fun _ _ => rfl, fun _ _ => polled_of_empty rfl⟩
      · rintro c l c' (hcl | ⟨hs, hw⟩) hl hstep
        · cases l <;> simp [machine, step, hcl] at hstep
        · rcases step_refines hs hstep with hcl | hr
          · exact .inl hcl
          · exact .inr ⟨hr.sound, step_waiting hs hr.sound hw hl hstep⟩
    rcases key with hcl | ⟨-, hw⟩
    · rw [hr] at hcl
      cases hcl
    · exact hw.polled r hr
  · intro l c' hc hstep hl
    rcases reachable_good hc with hcl | hg
    · cases l <;> simp [machine, step, hcl] at hstep
    · exact step_not_polled hg hl hstep

/-- A read that is partly sent. -/
def stalledRead : List Label :=
  [.call (.command (.aioPread 4096 512 0 .null 0)) .calm, .enter .calm,
   .enter { Input.calm with send := .sent 10 }]

theorem queued_requests_polled_stalled_read :
    ∃ c, machine.exec .calm stalledRead = some c ∧ c.h.q.cmdsToIssue.length = 1 ∧
      Polled c.h := by
  have hrun : (machine.exec .calm stalledRead).map
      (fun c => (c.ctl, c.h.q.cmdsToIssue.length)) = some (.idle 1, 1) := by decide +kernel
  obtain ⟨c, hc, hp⟩ := Option.map_eq_some_iff.mp hrun
  have hm : machine.Meets Unblocked .calm stalledRead :=
    machine.meets_of_check (by decide +kernel)
  refine ⟨c, hc, congrArg Prod.snd hp, ?_⟩
  exact (queued_requests_polled c).1 ⟨_, _, Config.initial_calm, hm, hc⟩ 1 (congrArg Prod.fst hp)

/-- A read notification, but the socket has nothing to read after all. -/
def spuriousWakeup : List Label :=
  stalledRead ++ [Label.call .aioNotifyRead .calm, .enter .calm, .enter .calm]

theorem spurious_wakeup_not_polled :
    ¬ ∀ c, machine.Reachable c → ∀ r, c.ctl = .idle r → Polled c.h := by
  intro hall
  have hrun : (machine.exec .calm spuriousWakeup).map
      (fun c => (c.ctl, c.h.state, c.h.q.cmdsToIssue.length)) =
      some (.idle 0, .replyStart, 1) := by decide +kernel
  obtain ⟨c, hc, hp⟩ := Option.map_eq_some_iff.mp hrun
  simp only [Prod.mk.injEq] at hp
  have hq : c.h.q.cmdsToIssue ≠ [] := by
    intro hnil
    simp [hnil] at hp
  exact not_polled_of_replyStart hp.2.1 hq (hall c ⟨_, _, Config.initial_calm, hc⟩ 0 hp.1)

end Libnbd
