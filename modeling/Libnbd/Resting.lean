import Libnbd.Polling

/-!
The handle between two calls of the transmission phase.

The run loop returns in a state that has an event to wait for, or in `DEAD` or `CLOSED`
with nothing left on the queues.
-/

namespace Libnbd

open Lib

theorem goto_not_start {s : State} {h : Handle} (hs : s ≠ .start) :
    (goto s h).All fun h' => h'.state ≠ .start := hs

theorem enterSend_not_start {inp : Input} {h : Handle} {t : State} (hs : h.state ≠ .start)
    (ht : t ≠ .start) : (enterSend inp t h).All fun h' => h'.state ≠ .start := by
  unfold enterSend
  obtain he | ⟨e, he⟩ | ⟨tx, n, he⟩ | ⟨tx, n, he⟩ := sendFromWbuf_cases inp h
  · rw [he]
    trivial
  · rw [he]
    exact goto_not_start (by decide)
  · rw [he]
    exact hs
  · rw [he]
    exact ht

theorem abortAll_not_start {inp : Input} {h h' : Handle} (hinv : h.book.Inv) (ht : Tails h)
    (hs : h.state ≠ .start) (hok : abortAll inp h = .ok h') : h'.state ≠ .start := by
  obtain ⟨-, -, h₁, -, -, hok₁, hdo, -⟩ := abortAll_ok inp hinv ht
  rw [hok] at hok₁
  cases hok₁
  rw [hdo]
  exact hs

/-- The machine does not go back to `START`. -/
theorem enter_not_start (inp : Input) {h : Handle} (hr : RxInv h) (hinv : h.book.Inv) (ht : Tails h)
    (hs : h.state ≠ .start) : (enter inp h).All fun h' => h'.state ≠ .start := by
  by_cases hrecv : h.state.isReceiving = true
  · refine (enter_post inp hr hrecv).mono fun h' hp he => ?_
    have := hp.side
    rw [he] at this
    cases this
  unfold enter
  cases hst : h.state <;> simp only [hst, State.isReceiving, not_true_eq_false] at hrecv ⊢
  case start => exact absurd hst hs
  case ready =>
    exact ite_all (fun _ => goto_not_start (by decide)) fun _ => require_all fun _ =>
      ite_all (fun _ => goto_not_start (by decide)) fun _ => hs
  case dead =>
    refine require_all fun _ => ?_
    cases hok : abortAll inp h with
    | error a => trivial
    | ok h' => exact abortAll_not_start hinv ht hs hok
  case closed =>
    unfold enterClosed
    cases hok : abortAll inp h with
    | error a => trivial
    | ok h' => exact abortAll_not_start hinv ht hs hok
  case issueStart =>
    unfold enterIssueStart
    have hblock : ∀ {s : State}, s ≠ .start →
        (Outcome.block { h with state := s }).All fun h' => h'.state ≠ .start := id
    split
    · trivial
    · exact ite_all (fun _ => require_all fun _ => goto_not_start (by decide)) fun _ =>
        ite_all (fun _ => ite_all (fun _ => hblock (by decide)) fun _ => hblock (by decide))
          fun _ => require_all fun _ => goto_not_start (by decide)
  case issueSendRequest => exact enterSend_not_start hs (by decide)
  case issuePauseSendRequest =>
    exact require_all fun _ => require_all fun _ => goto_not_start (by decide)
  case issuePrepareWritePayload =>
    unfold enterIssuePrepareWritePayload
    split
    · trivial
    · exact require_all fun _ => ite_all (fun _ => goto_not_start (by decide)) fun _ =>
        ite_all (fun _ => goto_not_start (by decide)) fun _ => goto_not_start (by decide)
  case issueSendWritePayload => exact enterSend_not_start hs (by decide)
  case issuePauseWritePayload =>
    exact require_all fun _ => require_all fun _ => goto_not_start (by decide)
  case issueSendWriteShutdown => exact ite_all (fun _ => goto_not_start (by decide)) fun _ => hs
  case issuePauseWriteShutdown => exact require_all fun _ => goto_not_start (by decide)
  case issueFinish =>
    refine require_all fun _ => ?_
    split
    · trivial
    · exact require_all fun _ => goto_not_start (by decide)
  case replyFinishCommand =>
    refine require_all fun _ => ?_
    split
    · exact goto_not_start (by decide)
    · refine ite_all (fun _ => trivial) fun _ => ?_
      simp only
      split
      · trivial
      · exact require_all fun _ => goto_not_start (by decide)

/-- Where the outcome is a failure of the run loop, the handle satisfies `P`. -/
def Outcome.Fails (P : Handle → Prop) : Outcome → Prop
  | .fail h => P h
  | _ => True

theorem require_fails {p : Bool} {a : Abort} {k : Outcome} {P : Handle → Prop} (hk : k.Fails P) :
    (require p a k).Fails P := by
  unfold require
  split
  · exact hk
  · trivial

theorem ite_fails {p : Prop} [Decidable p] {a b : Outcome} {P : Handle → Prop} (ha : a.Fails P)
    (hb : b.Fails P) : (if p then a else b).Fails P := by
  split
  · exact ha
  · exact hb

theorem Outcome.Stops.fails {o : Outcome} {P : Handle → Prop} (ho : o.Stops P) : o.Fails P := by
  cases o with
  | fail h => exact ho
  | _ => trivial

theorem enterSend_fails {inp : Input} {t : State} {h : Handle} {P : Handle → Prop} :
    (enterSend inp t h).Fails P := by
  unfold enterSend
  obtain he | ⟨e, he⟩ | ⟨tx, n, he⟩ | ⟨tx, n, he⟩ := sendFromWbuf_cases inp h <;> rw [he] <;> trivial

/-- The run loop fails only in `DEAD`. -/
theorem enter_fails (inp : Input) {h : Handle} (hinv : h.book.Inv) (ht : Tails h) :
    (enter inp h).Fails fun h' => h'.state = .dead := by
  by_cases hr : h.state.isReceiving = true ∧ h.state ≠ .replyStart
  · exact (receiving_stops hr.1 hr.2 _).fails
  unfold enter
  cases hst : h.state <;> simp only [hst, State.isReceiving, ne_eq, reduceCtorEq,
    not_false_eq_true, and_self, not_true_eq_false] at hr ⊢
  case start => trivial
  case ready => exact ite_fails trivial (require_fails (ite_fails trivial trivial))
  case dead =>
    refine require_fails ?_
    obtain ⟨-, -, h', -, -, hok, hdo, -⟩ := abortAll_ok inp hinv ht
    rw [hok]
    show h'.state = .dead
    rw [hdo]
    exact hst
  case closed =>
    obtain ⟨-, -, h', -, -, hok, -⟩ := abortAll_ok inp hinv ht
    simp only [enterClosed, hok]
    trivial
  case issueStart =>
    unfold enterIssueStart
    split
    · trivial
    · exact ite_fails (require_fails trivial)
        (ite_fails (ite_fails trivial trivial) (require_fails trivial))
  case issueSendRequest => exact enterSend_fails
  case issuePauseSendRequest => exact require_fails (require_fails trivial)
  case issuePrepareWritePayload =>
    unfold enterIssuePrepareWritePayload
    split
    · trivial
    · exact require_fails (ite_fails trivial (ite_fails trivial trivial))
  case issueSendWritePayload => exact enterSend_fails
  case issuePauseWritePayload => exact require_fails (require_fails trivial)
  case issueSendWriteShutdown => exact ite_fails trivial trivial
  case issuePauseWriteShutdown => exact require_fails trivial
  case issueFinish =>
    refine require_fails ?_
    split
    · trivial
    · exact require_fails trivial
  case replyStart =>
    unfold enterReplyStart
    split
    · exact ite_fails (require_fails trivial) trivial
    · refine require_fails ?_
      split
      · trivial
      · trivial
      · exact ite_fails trivial trivial
  case replyFinishCommand =>
    refine require_fails ?_
    split
    · trivial
    · refine ite_fails trivial ?_
      simp only
      split
      · trivial
      · exact require_fails trivial

theorem externalEvent_ne_start {ev : ExternalEvent} {s s' : State} (h : externalEvent ev s = some s') :
    s' ≠ .start := by
  cases ev <;> cases s <;> simp_all [externalEvent] <;> subst h <;> simp

/-- No command is accepted once the connection is gone. -/
theorem queues_ended {inp : Input} {h : Handle} (api : Api) (hs : h.state.isEnded = true) :
    queues inp h api = false := by
  have hconn : h.state.isConnected = false := by
    cases hst : h.state <;> simp_all [State.isEnded, State.isConnected, State.isProcessing]
  cases api with
  | command call =>
    obtain ⟨m, hm⟩ := sanitize_eq h call
    simp only [queues, submission, submit, hm, callError, hconn, Bool.not_false, if_true]
  | aioDisconnect flags =>
    simp only [queues, submission, aioDisconnect, hconn, Bool.not_false, if_true]
  | shutdown flags =>
    simp only [queues, submission, shutdown, hconn, Bool.not_false, if_true]
  | _ => rfl

/-- What is known of a handle between two calls. -/
structure Rested (h : Handle) : Prop where
  waiting : h.state.isWaiting = true
  started : h.state ≠ .start
  ended : h.state.isEnded = true → h.q.cmdsToIssue = [] ∧ h.q.cmdsInFlight = []

theorem step_rested {c c' : Config} {l : Label} (hg : Good c) (hs : c.h.state ≠ .start)
    (hr : ∀ r, c.ctl = .idle r → Rested c.h) (h : step c l = some c') :
    c'.ctl = .closed ∨ c'.h.state ≠ .start ∧ ∀ r, c'.ctl = .idle r → Rested c'.h := by
  rcases step_cases h with ⟨inp, k, rfl, -, rfl⟩ | ⟨api, inp, r, rfl, hctl, rfl⟩
  · have hne : (stepEnter inp k c.h).h.state ≠ .start :=
      stepEnter_all (P := fun h => h.state ≠ .start) k
        (enter_not_start inp hg.rx hg.sound.inv hg.sound.tails hs) hs fun _ _ hp => hp
    refine .inr ⟨hne, fun r hc => ?_⟩
    have hw := stepEnter_stops (enter_waits inp hg.sound.inv hg.sound.tails)
      (fun h' d hp => ⟨hp.waiting, hp.reply, hp.ended⟩) hc
    exact ⟨hw.waiting, hne, hw.ended⟩
  · by_cases hclose : api = .close
    · subst hclose
      exact .inl rfl
    · have hrest := hr r hctl
      have ht : Tails { c.h with lastError := inp.lastError } :=
        ⟨hg.sound.tails.toIssue, hg.sound.tails.done⟩
      have hf := apiCall_frame inp { c.h with lastError := inp.lastError } api hclose
      refine .inr ⟨?_, fun r' hc => ?_⟩
      · rcases hf.state with he | ⟨ev, he⟩
        · exact fun h' => hs (he.symm.trans h')
        · exact externalEvent_ne_start he
      · obtain ⟨hst, hq⟩ := apiCall_idle (h := { c.h with lastError := inp.lastError })
          hg.sound.inv ht hclose hc
        have hst : (stepCall inp api c.h).h.state = c.h.state := hst
        refine ⟨hst ▸ hrest.waiting, fun h' => hs (hst.symm.trans h'), fun he => ?_⟩
        have he' : c.h.state.isEnded = true := hst ▸ he
        obtain ⟨h₁, h₂⟩ := hrest.ended he'
        refine ⟨?_, hf.inFlight.trans h₂⟩
        by_contra hne
        have hqueues := hq h₁ hne
        rw [queues_ended (h := { c.h with lastError := inp.lastError }) api he'] at hqueues
        cases hqueues

theorem reachable_rested {c : Config} {r : Int} (hc : machine.Reachable c) (hr : c.ctl = .idle r) :
    Rested c.h := by
  have key : c.ctl = .closed ∨ Good c ∧ c.h.state ≠ .start ∧ ∀ r, c.ctl = .idle r → Rested c.h := by
    refine machine.reachable_invariant
      (P := fun c => c.ctl = .closed ∨ Good c ∧ c.h.state ≠ .start ∧ ∀ r, c.ctl = .idle r → Rested c.h)
      ?_ ?_ hc
    · intro c₀ hi
      refine .inr ⟨initial_good hi, ?_⟩
      obtain ⟨exp, strict, pi, hdr, payload, mem, rfl⟩ := hi
      exact ⟨nofun, fun _ _ => ⟨rfl, nofun, nofun⟩⟩
    · rintro c l c' (hcl | ⟨hg, hs, hrest⟩) hstep
      · cases l <;> simp [machine, step, hcl] at hstep
      · rcases step_good hg hstep with hcl | hg'
        · exact .inl hcl
        · rcases step_rested hg hs hrest hstep with hcl | h'
          · exact .inl hcl
          · exact .inr ⟨hg', h'⟩
  rcases key with hcl | ⟨-, -, h⟩
  · rw [hr] at hcl
    cases hcl
  · exact h r hr

end Libnbd
