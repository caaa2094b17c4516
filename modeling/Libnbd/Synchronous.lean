import Libnbd.Session
import Libnbd.Resting
import Libnbd.Negotiation.Resting
import Libnbd.Negotiation.Callbacks
import Libnbd.Rejection
import Libnbd.Ready

/-!
The synchronous calls: `nbd_unlocked_poll` (`lib/poll.c`), `wait_for_command`
(`lib/rw.c`) and `wait_for_option` (`lib/opt.c`).

A synchronous call starts the asynchronous one and then polls until the command
is done or the option has ended. The two loops are relations between the session
they start in and the one they return in; one parameter restricts what the polls
report and another what the steps of the state machine do. The only memory of the
caller that can stay behind is what a queued command or `h->opt_cb` refers to.
-/

namespace Libnbd

open Lib

namespace Session

/-! ## One call -/

/-- What the last call returned, if no call is running. -/
def returned : Session → Option Int
  | negotiating ⟨_, .idle r⟩ => some r
  | connected _ ⟨_, .idle r⟩ => some r
  | _ => none

/-- `nbd_internal_is_state_connecting (get_next_state (h))`. -/
def isConnecting : Session → Bool
  | negotiating c => c.h.state.isConnecting
  | connected _ _ => false

/-- The steps of the run loop, inside a call. -/
def Label.isInner : Label → Bool
  | .negotiate (.enter _) | .handover _ _ | .transmit (.enter _) => true
  | _ => false

/-- The call `l` in `s` returns `r` in `s'`; its steps all meet `Q`. -/
def Calls (Q : Session → Label → Prop) (s : Session) (l : Label) (s' : Session) (r : Int) : Prop :=
  ∃ ls, (∀ k ∈ ls, k.isInner = true) ∧ system.Meets Q s (l :: ls) ∧
    system.exec s (l :: ls) = some s' ∧ s'.returned = some r

/-- No condition on the steps. -/
def anyStep : Session → Label → Prop := fun _ _ => True

/-! ## `nbd_unlocked_poll` -/

inductive Notify where
  | read | write
  deriving DecidableEq, Repr

/-- The notification that a call makes. -/
def Label.notifies : Label → Option Notify
  | .negotiate (.call .aioNotifyRead _) | .transmit (.call .aioNotifyRead _) => some .read
  | .negotiate (.call .aioNotifyWrite _) | .transmit (.call .aioNotifyWrite _) => some .write
  | _ => none

def Notify.negotiationEvent : Notify → Negotiation.ExternalEvent
  | read => .notifyRead
  | write => .notifyWrite

def Notify.event : Notify → ExternalEvent
  | read => .notifyRead
  | write => .notifyWrite

/-- The state has a transition for the event. -/
def accepts : Session → Notify → Bool
  | negotiating c, ev => (Negotiation.externalEvent ev.negotiationEvent c.h.state).isSome
  | connected _ c, ev => (Libnbd.externalEvent ev.event c.h.state).isSome

/-- `nbd_internal_aio_get_direction` is 0. -/
def nothingToPoll (s : Session) : Bool := !s.accepts .read && !s.accepts .write

/-- `fds[0].revents`. -/
structure Revents where
  pollIn : Bool
  pollOut : Bool
  pollErr : Bool
  pollHup : Bool
  pollNval : Bool
  deriving DecidableEq, Repr

/-- Only one notification is made, and reading goes first. -/
def Revents.notify (r : Revents) : Option Notify :=
  if r.pollIn || r.pollHup then some .read else if r.pollOut then some .write else none

/-- How `poll (2)` ends, once it is not interrupted any more. -/
inductive PollResult where
  | failed
  | timeout
  | ready (revents : Revents)
  deriving DecidableEq, Repr

/-- `do_poll`, with the value it returns. -/
inductive DoPoll (Q : Session → Label → Prop) : Session → PollResult → Session → Int → Prop where
  | nothing {s p} (hn : s.nothingToPoll = true) : DoPoll Q s p s (-1)
  | failed {s} (hn : s.nothingToPoll = false) : DoPoll Q s .failed s (-1)
  | timeout {s} (hn : s.nothingToPoll = false) : DoPoll Q s .timeout s 0
  | notified {s revents ev l s' r} (hn : s.nothingToPoll = false)
      (hev : Revents.notify revents = some ev) (hl : l.notifies = some ev)
      (hcall : Calls Q s l s' r) : DoPoll Q s (.ready revents) s' (if r = -1 then -1 else 1)
  | closed {s revents} (hn : s.nothingToPoll = false) (hev : Revents.notify revents = none)
      (he : (revents.pollErr || revents.pollNval) = true) : DoPoll Q s (.ready revents) s (-1)
  | spurious {s revents} (hn : s.nothingToPoll = false) (hev : Revents.notify revents = none)
      (he : (revents.pollErr || revents.pollNval) = false) : DoPoll Q s (.ready revents) s 1

/-! ## The loops -/

/-- `wait_for_option`. -/
inductive WaitForOption (P : Session → PollResult → Prop) (Q : Session → Label → Prop) :
    Session → Session → Int → Prop where
  | ended {s} (hs : s.isConnecting = false) : WaitForOption P Q s s 0
  | failed {s p s'} (hs : s.isConnecting = true) (hp : P s p) (hpoll : DoPoll Q s p s' (-1)) :
    WaitForOption P Q s s' (-1)
  | again {s p s₁ r s' r'} (hs : s.isConnecting = true) (hp : P s p) (hpoll : DoPoll Q s p s₁ r)
      (hr : r ≠ -1) (hrest : WaitForOption P Q s₁ s' r') : WaitForOption P Q s s' r'

/-- `nbd_unlocked_aio_command_completed`. -/
def Label.completed (cookie : UInt64) (inp : Input) : Label :=
  .transmit (.call (.aioCommandCompleted cookie) inp)

/-- `wait_for_command`. -/
inductive WaitForCommand (P : Session → PollResult → Prop) (Q : Session → Label → Prop)
    (cookie : UInt64) : Session → Session → Int → Prop where
  | completed {s inp s' r} (hc : Calls Q s (.completed cookie inp) s' r) (hr : r ≠ 0) :
    WaitForCommand P Q cookie s s' (if r = -1 then -1 else 0)
  | failed {s inp s₁ p s'} (hc : Calls Q s (.completed cookie inp) s₁ 0) (hp : P s₁ p)
      (hpoll : DoPoll Q s₁ p s' (-1)) : WaitForCommand P Q cookie s s' (-1)
  | again {s inp s₁ p s₂ r s' r'} (hc : Calls Q s (.completed cookie inp) s₁ 0) (hp : P s₁ p)
      (hpoll : DoPoll Q s₁ p s₂ r) (hr : r ≠ -1) (hrest : WaitForCommand P Q cookie s₂ s' r') :
    WaitForCommand P Q cookie s s' r'

/-! ## Where a call returns -/

/-- A call is in the run loop. -/
def isRunning : Session → Bool
  | negotiating ⟨_, .running _⟩ => true
  | connected _ ⟨_, .running _⟩ => true
  | _ => false

theorem not_running_of_returned {s : Session} {r : Int} (hr : s.returned = some r) :
    s.isRunning = false := by
  cases s with
  | negotiating c =>
    obtain ⟨h, ctl⟩ := c
    cases ctl with
    | running keep => cases hr
    | _ => rfl
  | connected n c =>
    obtain ⟨h, ctl⟩ := c
    cases ctl with
    | running k => cases hr
    | _ => rfl

theorem step_of_not_running {s : Session} {l : Label} (hs : s.isRunning = false)
    (hl : l.isInner = true) : step s l = none := by
  cases s with
  | negotiating c =>
    obtain ⟨h, ctl⟩ := c
    cases ctl with
    | running keep => cases hs
    | _ =>
      cases l with
      | negotiate l =>
        cases l with
        | enter inp => simp [step, atReady, Negotiation.step]
        | call api inp => cases hl
      | handover pending start => simp [step, atReady]
      | transmit l => rfl
  | connected n c =>
    obtain ⟨h, ctl⟩ := c
    cases ctl with
    | running k => cases hs
    | _ =>
      cases l with
      | transmit l =>
        cases l with
        | enter inp => rfl
        | call api inp => cases hl
      | _ => rfl

/-- Once the call has returned, the loop does not run on. -/
theorem exec_of_not_running {s s' : Session} {ls : List Label} (hs : s.isRunning = false)
    (hls : ∀ l ∈ ls, l.isInner = true) (he : system.exec s ls = some s') : s' = s := by
  cases ls with
  | nil => exact (Option.some.inj he).symm
  | cons l ls =>
    obtain ⟨t, ht, -⟩ := Option.bind_eq_some_iff.mp he
    rw [show system.step s l = none from step_of_not_running hs (hls l List.mem_cons_self)] at ht
    cases ht

section Calls

variable {Q : Session → Label → Prop} {s s' : Session} {l : Label} {r : Int}

theorem Calls.returned (hc : Calls Q s l s' r) : s'.returned = some r := by
  obtain ⟨ls, -, -, -, hr⟩ := hc
  exact hr

theorem Calls.reachable (hc : Calls Q s l s' r) (hs : system.Reachable s) :
    system.Reachable s' := by
  obtain ⟨ls, -, -, he, -⟩ := hc
  exact hs.exec _ he

theorem Calls.stays_connected {n : Negotiation.Handle} {c : Config}
    (hc : Calls Q (connected n c) l s' r) : ∃ c', s' = connected n c' := by
  obtain ⟨ls, -, -, he, -⟩ := hc
  exact (exec_connected he).2

/-- The first step of a call, and the steps of the loop after it. -/
theorem Calls.cases (hc : Calls Q s l s' r) : ∃ ls t, (∀ k ∈ ls, k.isInner = true) ∧
    step s l = some t ∧ system.exec t ls = some s' := by
  obtain ⟨ls, hls, -, he, -⟩ := hc
  obtain ⟨t, ht, hrest⟩ := Option.bind_eq_some_iff.mp he
  exact ⟨ls, t, hls, ht, hrest⟩

end Calls

/-! ## Notifications that fail -/

/-- Inside the run loop of a notification. -/
def notifying : Session → Bool
  | negotiating ⟨_, .running keep⟩ => keep
  | connected _ ⟨_, .running k⟩ => k == .notify
  | _ => false

/-- The run loop has failed: the connection is gone, or could not be made. -/
def hasFailed : Session → Bool
  | negotiating c => c.h.state.isFailed
  | connected _ c => c.h.state.isEnded

/-- A notification goes on, or it has ended; with -1 only if the run loop failed. -/
def Settles (s : Session) : Prop :=
  s.notifying = true ∨ s.isRunning = false ∧ (s.returned = some (-1) → s.hasFailed = true)

theorem settles_negotiating (inp : Negotiation.Input) (h : Negotiation.Handle) :
    Settles (.negotiating (Negotiation.stepEnter inp true h)) := by
  have hrests := Negotiation.enter_rests inp h
  unfold Negotiation.stepEnter
  cases he : Negotiation.enter inp h with
  | next h' => exact .inl rfl
  | block h' => exact .inr ⟨rfl, fun hr => absurd (Option.some.inj hr) (by decide)⟩
  | fail h' =>
    rw [he] at hrests
    exact .inr ⟨rfl, fun _ => hrests⟩
  | abort a => exact .inr ⟨rfl, fun hr => by cases hr⟩

theorem settles_connected (inp : Input) (n : Negotiation.Handle) {h : Handle}
    (hinv : h.book.Inv) (ht : Tails h) : Settles (.connected n (stepEnter inp .notify h)) := by
  have hfails := enter_fails inp hinv ht
  unfold stepEnter
  cases he : enter inp h with
  | next h' => exact .inl rfl
  | block h' => exact .inr ⟨rfl, fun hr => absurd (Option.some.inj hr) (by decide)⟩
  | fail h' =>
    rw [he] at hfails
    refine .inr ⟨rfl, fun _ => ?_⟩
    show h'.state.isEnded = true
    rw [show h'.state = .dead from hfails]
    rfl
  | abort a => exact .inr ⟨rfl, fun hr => by cases hr⟩

theorem settles_ready (pending : Bool) (n : Negotiation.Handle) (start : Setting) :
    Settles (enterReady pending n start) := by
  unfold enterReady
  split
  · exact .inr ⟨rfl, fun hr => by cases hr⟩
  · split
    · exact .inl rfl
    · exact .inr ⟨rfl, fun hr => absurd (Option.some.inj hr) (by decide)⟩

theorem running_good {n : Negotiation.Handle} {h : Handle} {k : After}
    (hs : system.Reachable (connected n ⟨h, .running k⟩)) : Good ⟨h, .running k⟩ := by
  obtain ⟨-, hc, -⟩ := reachable_coupled hs
  obtain hcl | hg := reachable_good hc
  · cases hcl
  · exact hg

theorem step_settles {s s' : Session} {l : Label} (hs : system.Reachable s) (hn : s.Settles)
    (hl : l.isInner = true) (h : step s l = some s') : s'.Settles := by
  obtain hn | ⟨hstop, -⟩ := hn
  swap
  · rw [step_of_not_running hstop hl] at h
    cases h
  cases s with
  | negotiating c =>
    obtain ⟨hd, ctl⟩ := c
    cases ctl with
    | running keep =>
      obtain rfl : keep = true := hn
      cases l with
      | negotiate l =>
        cases l with
        | enter inp =>
          simp only [step] at h
          split at h
          · cases h
          · cases h
            exact settles_negotiating inp hd
        | call api inp => cases hl
      | handover pending start =>
        simp only [step] at h
        split at h
        · cases h
          exact settles_ready pending hd start
        · cases h
      | transmit l => cases h
    | _ => cases hn
  | connected n c =>
    obtain ⟨hd, ctl⟩ := c
    cases ctl with
    | running k =>
      obtain rfl : k = .notify := by simpa [notifying] using hn
      have hg := running_good hs
      cases l with
      | transmit l =>
        cases l with
        | enter inp =>
          cases h
          exact settles_connected inp n hg.sound.inv hg.sound.tails
        | call api inp => cases hl
      | _ => cases h
    | _ => cases hn

theorem exec_settles {s s' : Session} {ls : List Label} (hs : system.Reachable s)
    (hn : s.Settles) (hls : ∀ l ∈ ls, l.isInner = true) (he : system.exec s ls = some s') :
    s'.Settles := by
  induction ls generalizing s with
  | nil =>
    cases he
    exact hn
  | cons l ls ih =>
    obtain ⟨t, ht, hrest⟩ := Option.bind_eq_some_iff.mp he
    have hinner := hls l List.mem_cons_self
    exact ih (hs.step _ ht) (step_settles hs hn hinner ht)
      (fun k hk => hls k (List.mem_cons_of_mem _ hk)) hrest

theorem Settles.failed {s : Session} (hs : s.Settles) (hr : s.returned = some (-1)) :
    s.hasFailed = true := by
  obtain hn | ⟨-, hf⟩ := hs
  · have hstop := not_running_of_returned hr
    cases s with
    | negotiating c =>
      obtain ⟨h, ctl⟩ := c
      cases ctl with
      | running keep => cases hstop
      | _ => cases hn
    | connected n c =>
      obtain ⟨h, ctl⟩ := c
      cases ctl with
      | running k => cases hstop
      | _ => cases hn
  · exact hf hr

/-- `poll` does not fail, and reports an event that the state accepts or none at all: not
only that the socket is in error or invalid, and no hang-up in a state that does not read. -/
def PollOk (s : Session) : PollResult → Prop
  | .failed => False
  | .timeout => True
  | .ready revents =>
    match revents.notify with
    | some ev => s.accepts ev = true
    | none => (revents.pollErr || revents.pollNval) = false

/-- A notification runs the state machine on its event. -/
theorem negotiation_notifies {api : Negotiation.Api} {inp : Negotiation.Input} {ev : Notify}
    (h : Negotiation.Handle)
    (hl : Label.notifies (.negotiate (.call api inp)) = some ev) :
    Negotiation.stepCall inp api h =
      Negotiation.startRun ev.negotiationEvent true { h with lastError := inp.lastError } := by
  cases api with
  | aioNotifyRead =>
    cases hl
    rfl
  | aioNotifyWrite =>
    cases hl
    rfl
  | _ => cases hl

theorem transmission_notifies {api : Api} {inp : Input} {ev : Notify} (h : Handle)
    (hl : Label.notifies (.transmit (.call api inp)) = some ev) :
    stepCall inp api h = startRun ev.event .notify { h with lastError := inp.lastError } := by
  cases api with
  | aioNotifyRead =>
    cases hl
    rfl
  | aioNotifyWrite =>
    cases hl
    rfl
  | _ => cases hl

/-- The commands that wait to be sent or to be answered. -/
def commands : Session → List Command
  | negotiating _ => []
  | connected _ c => c.h.q.cmdsToIssue ++ c.h.q.cmdsInFlight

/-- A notification enters the run loop, if the state accepts it, and else changes nothing. -/
theorem step_notifies {s t : Session} {l : Label} {ev : Notify} (hl : l.notifies = some ev)
    (h : step s l = some t) :
    s.accepts ev = true ∧ t.Settles ∨
      s.accepts ev = false ∧ t.returned = some (-1) ∧ t.commands = s.commands ∧
        t.handle.optCb = s.handle.optCb := by
  cases s with
  | negotiating c =>
    cases l with
    | negotiate l =>
      cases l with
      | enter inp => cases hl
      | call api inp =>
        simp only [step] at h
        split at h
        · cases h
        simp only [Negotiation.step] at h
        split at h
        · rw [negotiation_notifies c.h hl, Negotiation.startRun] at h
          cases hs : Negotiation.externalEvent ev.negotiationEvent c.h.state with
          | some s' =>
            rw [show ({ c.h with lastError := inp.lastError } : Negotiation.Handle).state =
              c.h.state from rfl, hs] at h
            cases h
            exact .inl ⟨by simp [accepts, hs], .inl rfl⟩
          | none =>
            rw [show ({ c.h with lastError := inp.lastError } : Negotiation.Handle).state =
              c.h.state from rfl, hs] at h
            cases h
            exact .inr ⟨by simp [accepts, hs], rfl, rfl, rfl⟩
        · cases h
    | handover pending start => cases hl
    | transmit l => cases h
  | connected n c =>
    cases l with
    | transmit l =>
      cases l with
      | enter inp => cases hl
      | call api inp =>
        simp only [step, Libnbd.step] at h
        split at h
        · rw [transmission_notifies c.h hl, startRun] at h
          cases hs : Libnbd.externalEvent ev.event c.h.state with
          | some s' =>
            rw [show ({ c.h with lastError := inp.lastError } : Handle).state =
              c.h.state from rfl, hs] at h
            cases h
            exact .inl ⟨by simp [accepts, hs], .inl rfl⟩
          | none =>
            rw [show ({ c.h with lastError := inp.lastError } : Handle).state =
              c.h.state from rfl, hs] at h
            cases h
            exact .inr ⟨by simp [accepts, hs], rfl, rfl, rfl⟩
        · cases h
    | _ => cases h

section Poll

variable {Q : Session → Label → Prop} {s s' : Session} {p : PollResult} {r : Int}

theorem DoPoll.reachable (hp : DoPoll Q s p s' r) (hs : system.Reachable s) :
    system.Reachable s' := by
  cases hp with
  | notified hn hev hl hcall => exact hcall.reachable hs
  | _ => exact hs

theorem DoPoll.stays_connected {n : Negotiation.Handle} {c : Config}
    (hp : DoPoll Q (connected n c) p s' r) : ∃ c', s' = connected n c' := by
  cases hp with
  | notified hn hev hl hcall => exact hcall.stays_connected
  | _ => exact ⟨c, rfl⟩

theorem DoPoll.returned {r₀ : Int} (hp : DoPoll Q s p s' r) (hs : s.returned = some r₀) :
    ∃ r', s'.returned = some r' := by
  cases hp with
  | notified hn hev hl hcall => exact ⟨_, hcall.returned⟩
  | _ => exact ⟨r₀, hs⟩

/-- A poll that is not at fault fails because there is nothing to wait for, or because the
run loop failed. -/
theorem DoPoll.minus_one (hs : system.Reachable s) (hok : s.PollOk p)
    (hp : DoPoll Q s p s' (-1)) :
    s.nothingToPoll = true ∧ s' = s ∨ s'.hasFailed = true := by
  generalize hr : (-1 : Int) = r at hp
  cases hp with
  | nothing hn => exact .inl ⟨hn, rfl⟩
  | failed hn => exact absurd hok id
  | timeout hn => cases hr
  | @notified revents ev l s' r hn hev hl hcall =>
    have hacc : s.accepts ev = true := by simpa [PollOk, hev] using hok
    have hret : r = -1 := by
      by_contra hne
      rw [if_neg hne] at hr
      cases hr
    obtain ⟨ls, t, hls, ht, hrest⟩ := hcall.cases
    have hreturned := hcall.returned
    rw [hret] at hreturned
    obtain ⟨-, hsettles⟩ | ⟨hnot, -⟩ := step_notifies hl ht
    · exact .inr ((exec_settles (hs.step _ ht) hsettles hls hrest).failed hreturned)
    · rw [hacc] at hnot
      cases hnot
  | @closed revents hn hev he =>
    have : (revents.pollErr || revents.pollNval) = false := by simpa [PollOk, hev] using hok
    rw [he] at this
    cases this
  | spurious hn hev he => cases hr

/-- A poll at fault returns -1 and leaves the queues and the option callbacks as they are. -/
theorem DoPoll.at_fault (hbad : ¬ s.PollOk p) (hp : DoPoll Q s p s' r) :
    r = -1 ∧ s'.commands = s.commands ∧ s'.handle.optCb = s.handle.optCb := by
  cases hp with
  | nothing hn => exact ⟨rfl, rfl, rfl⟩
  | failed hn => exact ⟨rfl, rfl, rfl⟩
  | timeout hn => exact absurd trivial hbad
  | @notified revents ev l s' r hn hev hl hcall =>
    obtain ⟨ls, t, hls, ht, hrest⟩ := hcall.cases
    obtain ⟨hacc, -⟩ | ⟨-, hret, hcmds, hcb⟩ := step_notifies hl ht
    · exact absurd (by simpa [PollOk, hev] using hacc) hbad
    · obtain rfl := exec_of_not_running (not_running_of_returned hret) hls hrest
      have hr : r = -1 := Option.some.inj (hcall.returned.symm.trans hret)
      exact ⟨by rw [if_pos hr], hcmds, hcb⟩
  | closed hn hev he => exact ⟨rfl, rfl, rfl⟩
  | @spurious revents hn hev he => exact absurd (by simpa [PollOk, hev] using he) hbad

end Poll

/-! ## Commands -/

/-- The cookie of the next command. -/
def nextCookie : Session → Nat
  | negotiating _ => 0
  | connected _ c => c.h.q.unique

/-- A synchronous command: `call` is the asynchronous one that it is built on. -/
inductive SyncCommand (P : Session → PollResult → Prop) (Q : Session → Label → Prop)
    (call : Call) : Session → Session → Int → Prop where
  | refused {s inp s'} (hc : Calls Q s (.transmit (.call (.command call) inp)) s' (-1)) :
    SyncCommand P Q call s s' (-1)
  | waited {s inp s₁ s' r} {cookie : UInt64}
      (hc : Calls Q s (.transmit (.call (.command call) inp)) s₁ cookie.toNat)
      (hw : WaitForCommand P Q cookie s₁ s' r) : SyncCommand P Q call s s' r

/-- A run of the loop after the handle is connected belongs to the transmission phase. -/
theorem exec_transmits {n : Negotiation.Handle} {c : Config} {ls : List Label} {s : Session}
    (hls : ∀ l ∈ ls, l.isInner = true) (he : system.exec (connected n c) ls = some s) :
    ∃ ks c', (∀ k ∈ ks, ∃ i, k = .enter i) ∧ machine.exec c ks = some c' ∧ s = connected n c' := by
  induction ls generalizing c with
  | nil =>
    cases he
    exact ⟨[], c, by simp, rfl, rfl⟩
  | cons l ls ih =>
    obtain ⟨t, ht, hrest⟩ := Option.bind_eq_some_iff.mp he
    have hl := hls l List.mem_cons_self
    cases l with
    | transmit l =>
      cases l with
      | enter inp =>
        obtain ⟨c₁, hc₁, rfl⟩ := Option.map_eq_some_iff.mp ht
        obtain ⟨ks, c', hks, hrun, rfl⟩ := ih (fun k hk => hls k (List.mem_cons_of_mem _ hk)) hrest
        refine ⟨.enter inp :: ks, c', ?_, ?_, rfl⟩
        · intro k hk
          obtain rfl | hk := List.mem_cons.mp hk
          · exact ⟨inp, rfl⟩
          · exact hks k hk
        · rw [Lib.System.exec_cons, show machine.step c (.enter inp) = some c₁ from hc₁]
          exact hrun
      | call api inp => cases hl
    | _ => cases ht

section Commands

variable {P : Session → PollResult → Prop} {Q : Session → Label → Prop} {n : Negotiation.Handle}
  {c : Config} {s' : Session} {r : Int}

theorem idle_good (hs : system.Reachable (connected n c)) {r₀ : Int} (hr : c.ctl = .idle r₀) :
    Good c := by
  obtain ⟨-, hc, -⟩ := reachable_coupled hs
  obtain hcl | hg := reachable_good hc
  · rw [hr] at hcl
    cases hcl
  · exact hg

/-- The cookies of the commands on the queues are smaller than the next one. -/
theorem cookie_lt (hs : system.Reachable (connected n c)) {r₀ : Int} (hr : c.ctl = .idle r₀)
    {cmd : Command} (hcmd : cmd ∈ (connected n c).commands) :
    cmd.cookie < (connected n c).nextCookie := by
  have hinv := (idle_good hs hr).sound.inv
  have hmem : cmd.cookie ∈ c.h.book.cookies :=
    List.mem_map_of_mem (List.mem_append_left _ hcmd)
  have hacc := hinv.perm.subset (List.mem_append_left (retiredCookies c.h.book.trace) hmem)
  exact (hinv.range _ hacc).2

/-- The asynchronous call is refused and queues nothing, or returns the next cookie. -/
theorem Calls.command {call : Call} {inp : Input} (hs : system.Reachable (connected n c))
    (hc : Calls Q (connected n c) (.transmit (.call (.command call) inp)) s' r) :
    r = -1 ∧ (∀ cmd ∈ s'.commands, cmd.cookie ≠ (connected n c).nextCookie) ∨
      r = (connected n c).nextCookie ∧ 1 ≤ (connected n c).nextCookie := by
  obtain ⟨ls, t, hls, ht, hrest⟩ := hc.cases
  obtain ⟨c₁, hc₁, rfl⟩ := Option.map_eq_some_iff.mp ht
  obtain ⟨ks, c', hks, hrun, rfl⟩ := exec_transmits hls hrest
  obtain ⟨_, _, h, -⟩ | ⟨_, _, r₀, -, hidle, -⟩ := step_cases hc₁
  · cases h
  have hsound := (idle_good hs hidle).sound
  have hret : c'.ctl = .idle r := by
    obtain ⟨h', ctl⟩ := c'
    cases ctl with
    | idle r' => rw [Option.some.inj hc.returned]
    | _ => cases hc.returned
  obtain ⟨hrefused, hno⟩ | ⟨hctl, -, -⟩ := call_ends hsound hc₁
  · obtain rfl := exec_of_idle hrefused hks hrun
    rw [hrefused] at hret
    refine .inl ⟨(Control.idle.inj hret).symm, fun cmd hcmd => ?_⟩
    simp only [commands, hno.queues] at hcmd
    exact Nat.ne_of_lt (cookie_lt hs hidle hcmd)
  · exact .inr ⟨exec_returns hks hctl hrun hret, hsound.inv.pos⟩

/-- A command that is found completed is done, and the other queues are left alone. -/
theorem completed_done {h h' : Handle} {cookie : UInt64} (hok : aioCommandCompleted h cookie = .ok (h', r))
    (hr : r ≠ 0) (hk : 1 ≤ cookie.toNat) : ∃ cmd ∈ h.q.cmdsDone, cmd.cookie = cookie.toNat ∧
      h'.q.cmdsToIssue = h.q.cmdsToIssue ∧ h'.q.cmdsInFlight = h.q.cmdsInFlight := by
  have hq : h'.q.cmdsToIssue = h.q.cmdsToIssue ∧ h'.q.cmdsInFlight = h.q.cmdsInFlight := by
    obtain ⟨hq, -⟩ | ⟨cmd, -, -, -, hissue, hflight, -⟩ := aioCommandCompleted_cases hok
    · rw [hq]
      exact ⟨rfl, rfl⟩
    · exact ⟨hissue, hflight⟩
  have hpos : ¬ cookie < 1 := by
    rw [UInt64.lt_iff_toNat_lt]
    exact Nat.not_lt.mpr hk
  unfold aioCommandCompleted at hok
  rw [if_neg hpos] at hok
  cases hf : Handle.findCmd cookie.toNat h.q.cmdsDone with
  | none =>
    rw [hf] at hok
    cases hok
    exact absurd rfl hr
  | some cmd =>
    obtain ⟨hmem, hck⟩ := findCmd_mem hf
    exact ⟨cmd, hmem, hck, hq⟩

/-- A command that is found completed is on no other queue. -/
theorem Calls.completed {cookie : UInt64} {inp : Input} (hs : system.Reachable (connected n c))
    (hc : Calls Q (connected n c) (.completed cookie inp) s' r) (hr : r ≠ 0)
    (hk : 1 ≤ cookie.toNat) : ∀ cmd ∈ s'.commands, cmd.cookie ≠ cookie.toNat := by
  obtain ⟨ls, t, hls, ht, hrest⟩ := hc.cases
  obtain ⟨c₁, hc₁, rfl⟩ := Option.map_eq_some_iff.mp ht
  obtain ⟨_, _, h, -⟩ | ⟨_, _, r₀, hl, hidle, rfl⟩ := step_cases hc₁
  · cases h
  cases hl
  have hinv := (idle_good hs hidle).sound.inv
  rw [apiCall] at hrest
  cases hok : aioCommandCompleted { c.h with lastError := inp.lastError } cookie with
  | error a =>
    rw [hok] at hrest
    obtain rfl := exec_of_not_running rfl hls hrest
    cases hc.returned
  | ok p =>
    obtain ⟨h', r'⟩ := p
    rw [hok] at hrest
    obtain rfl := exec_of_not_running rfl hls hrest
    obtain rfl : r' = r := Option.some.inj hc.returned
    obtain ⟨done, hdone, hck, hissue, hflight⟩ := completed_done hok hr hk
    intro cmd hcmd heq
    have hmem : cmd ∈ c.h.q.cmdsToIssue ++ c.h.q.cmdsInFlight := by
      simpa only [commands, hissue, hflight] using hcmd
    have hnodup : (((c.h.q.cmdsToIssue ++ c.h.q.cmdsInFlight) ++ c.h.q.cmdsDone).map
        Command.cookie).Nodup := hinv.nodup
    rw [List.map_append, List.nodup_append] at hnodup
    exact hnodup.2.2 _ (List.mem_map_of_mem hmem) _ (List.mem_map_of_mem hdone) (heq.trans hck.symm)

/-- A connection that is gone has no commands. -/
theorem commands_of_hasFailed (hs : system.Reachable (connected n c)) {r₀ : Int}
    (hr : c.ctl = .idle r₀) (hf : (connected n c).hasFailed = true) :
    (connected n c).commands = [] := by
  obtain ⟨-, hc, -⟩ := reachable_coupled hs
  obtain ⟨h₁, h₂⟩ := (reachable_rested hc hr).ended hf
  simp only [commands, h₁, h₂, List.append_nil]

/-- There is nothing to wait for only on a connection that is gone. -/
theorem hasFailed_of_nothing (hs : system.Reachable (connected n c)) {r₀ : Int}
    (hr : c.ctl = .idle r₀) (hn : (connected n c).nothingToPoll = true) :
    (connected n c).hasFailed = true := by
  obtain ⟨-, hc, -⟩ := reachable_coupled hs
  have hrest := reachable_rested hc hr
  have hw := hrest.waiting
  have hstart := hrest.started
  simp only [nothingToPoll, accepts, Notify.event] at hn
  show c.h.state.isEnded = true
  cases hst : c.h.state <;>
    simp_all [State.isWaiting, State.isEnded, Libnbd.externalEvent]

theorem idle_of_returned {c : Config} (hr : (connected n c).returned = some r) :
    c.ctl = .idle r := by
  obtain ⟨h, ctl⟩ := c
  cases ctl with
  | idle r' => rw [Option.some.inj hr]
  | _ => cases hr

/-- **The loop of a synchronous command** returns with the command on no queue. -/
theorem WaitForCommand.forgets {cookie : UInt64} {s : Session} {r₀ : Int}
    (hw : WaitForCommand PollOk Q cookie s s' r) (hs : system.Reachable s)
    (hconn : ∃ n c, s = connected n c) (hr : s.returned = some r₀) (hk : 1 ≤ cookie.toNat) :
    ∀ cmd ∈ s'.commands, cmd.cookie ≠ cookie.toNat := by
  induction hw generalizing r₀ with
  | completed hc hne =>
    obtain ⟨n, c, rfl⟩ := hconn
    exact hc.completed hs hne hk
  | failed hc hp hpoll =>
    obtain ⟨n, c, rfl⟩ := hconn
    obtain ⟨c₁, rfl⟩ := hc.stays_connected
    have hs₁ := hc.reachable hs
    obtain ⟨c', rfl⟩ := hpoll.stays_connected
    obtain ⟨r', hr'⟩ := hpoll.returned hc.returned
    have hgone : (connected n c').hasFailed = true := by
      obtain ⟨hn, he⟩ | hf := hpoll.minus_one hs₁ hp
      · rw [he]
        exact hasFailed_of_nothing hs₁ (idle_of_returned hc.returned) hn
      · exact hf
    rw [commands_of_hasFailed (hpoll.reachable hs₁) (idle_of_returned hr') hgone]
    simp
  | again hc hp hpoll hne hrest ih =>
    obtain ⟨n, c, rfl⟩ := hconn
    obtain ⟨c₁, rfl⟩ := hc.stays_connected
    obtain ⟨c₂, rfl⟩ := hpoll.stays_connected
    obtain ⟨r', hr'⟩ := hpoll.returned hc.returned
    exact ih (hpoll.reachable (hc.reachable hs)) ⟨n, c₂, rfl⟩ hr'

theorem SyncCommand.forgets {call : Call} {s : Session}
    (hcall : SyncCommand PollOk Q call s s' r) (hs : system.Reachable s) :
    ∀ cmd ∈ s'.commands, cmd.cookie ≠ s.nextCookie := by
  have hconnected : ∀ {inp : Input} {s₁ : Session} {r₁ : Int},
      Calls Q s (.transmit (.call (.command call) inp)) s₁ r₁ → ∃ n c, s = connected n c := by
    intro inp s₁ r₁ hc
    obtain ⟨-, t, -, ht, -⟩ := hc.cases
    cases s with
    | negotiating c => cases ht
    | connected n c => exact ⟨n, c, rfl⟩
  cases hcall with
  | refused hc =>
    obtain ⟨n, c, rfl⟩ := hconnected hc
    obtain ⟨-, hnone⟩ | ⟨hr, -⟩ := hc.command hs
    · exact hnone
    · exact absurd hr.symm (cookie_ne_neg_one _)
  | @waited inp s₁ s' r cookie hc hw =>
    obtain ⟨n, c, rfl⟩ := hconnected hc
    obtain ⟨hr, -⟩ | ⟨hr, hpos⟩ := hc.command hs
    · exact absurd hr (cookie_ne_neg_one _)
    · have hck : cookie.toNat = (connected n c).nextCookie := Int.ofNat_inj.mp hr
      rw [← hck] at hpos ⊢
      obtain ⟨c₁, rfl⟩ := hc.stays_connected
      exact hw.forgets (hc.reachable hs) ⟨n, c₁, rfl⟩ hc.returned hpos

end Commands

/-! ## Options -/

end Session

/-- The calls that submit an option. -/
def Negotiation.Api.isOption : Negotiation.Api → Bool
  | set _ | aioConnect _ | aioNotifyRead | aioNotifyWrite => false
  | _ => true

namespace Session

/-- A synchronous option call: `api` is the asynchronous one that it is built on. -/
inductive SyncOption (P : Session → PollResult → Prop) (Q : Session → Label → Prop)
    (api : Negotiation.Api) : Session → Session → Prop where
  | refused {s inp s'} (hc : Calls Q s (.negotiate (.call api inp)) s' (-1)) :
    SyncOption P Q api s s'
  | waited {s inp s₁ r₁ s' r} (hc : Calls Q s (.negotiate (.call api inp)) s₁ r₁) (hr : r₁ ≠ -1)
      (hw : WaitForOption P Q s₁ s' r) : SyncOption P Q api s s'

/-- Negotiation ended in `READY`, in the run loop of a call. -/
def FromReady : Session → Prop
  | negotiating c => Negotiation.machine.Reachable c
  | connected n _ => n.state = .ready ∧ ∃ keep, Negotiation.machine.Reachable ⟨n, .running keep⟩

theorem reachable_fromReady {s : Session} (hs : system.Reachable s) : s.FromReady := by
  refine system.reachable_invariant ?_ ?_ hs
  · rintro s ⟨c, hc, rfl⟩
    exact ⟨c, [], hc, rfl⟩
  · intro s l s' hp h
    cases s with
    | negotiating c =>
      cases l with
      | negotiate l =>
        simp only [system, step] at h
        split at h
        · cases h
        · obtain ⟨c', hc', rfl⟩ := Option.map_eq_some_iff.mp h
          exact System.Reachable.step _ hp hc'
      | handover pending start =>
        simp only [system, step] at h
        split at h
        · rename_i hat
          cases h
          obtain ⟨n, ctl⟩ := c
          cases ctl with
          | running keep =>
            have hready : n.state = .ready := by simpa [atReady] using hat
            have hR : Negotiation.RunShape n := Negotiation.reachable_shape hp
            have hsock : n.sock = true := hR.shape.sock (by rw [hready]; rfl)
            unfold enterReady
            rw [if_neg (by simp [hsock])]
            split <;> exact ⟨hready, keep, hp⟩
          | _ => simp [atReady] at hat
        · cases h
      | transmit l => cases h
    | connected n c =>
      cases l with
      | transmit l =>
        obtain ⟨c', -, rfl⟩ := Option.map_eq_some_iff.mp h
        exact hp
      | _ => cases h

section Options

variable {Q : Session → Label → Prop} {s s' : Session} {r : Int}

/-- `h->opt_cb` holds nothing unless an option is in progress. -/
theorem released_of_not_connecting (hs : system.Reachable s) {r₀ : Int}
    (hr : s.returned = some r₀) (hc : s.isConnecting = false) : s.handle.view.released := by
  have hready := reachable_fromReady hs
  cases s with
  | negotiating c =>
    have hc' : Negotiation.machine.Reachable c := hready
    obtain ⟨h, ctl⟩ := c
    cases ctl with
    | idle r₁ =>
      have hrest : h.state.isResting = true := Negotiation.reachable_resting hc' rfl
      by_cases hstart : h.state = .start
      · have hR : Negotiation.RestShape h := Negotiation.reachable_shape hc'
        have hcur : h.optCurrent = none := by
          have hcurrent := hR.shape.current
          rw [hstart] at hcurrent
          exact hcurrent
        have hrel := hR.shape.auto (.inl hcur)
        simp only [Negotiation.Core.released, Bool.and_eq_true] at hrel
        exact hrel
      · refine Negotiation.released_of_settled hc' ?_
        show h.state = .negotiating ∨ h.state = .ready ∨ h.state = .closed ∨ h.state = .dead
        have hnot : h.state.isConnecting = false := hc
        cases hst : h.state <;> simp_all [Negotiation.State.isResting,
          Negotiation.State.isConnecting, Negotiation.State.isReceiving,
          Negotiation.State.isSending]
    | _ => cases hr
  | connected n c =>
    obtain ⟨hst, keep, hn⟩ := hready
    rw [(reachable_coupled hs).handle_eq]
    exact Negotiation.released_of_settled hn (.inr hst)

/-- A handle that waits for an option has an event to wait for. -/
theorem wakes_of_connecting (hs : system.Reachable s) {r₀ : Int} (hr : s.returned = some r₀)
    (hc : s.isConnecting = true) : s.nothingToPoll = false := by
  cases s with
  | negotiating c =>
    obtain ⟨h, ctl⟩ := c
    cases ctl with
    | idle r₁ =>
      have hrest : h.state.isResting = true :=
        Negotiation.reachable_resting (reachable_fromReady hs) rfl
      obtain hread | hwrite := Negotiation.State.isResting.wakes hrest hc
      · simp [nothingToPoll, accepts, Notify.negotiationEvent, hread]
      · simp [nothingToPoll, accepts, Notify.negotiationEvent, hwrite]
    | _ => cases hr
  | connected n c => cases hc

theorem not_connecting_of_hasFailed (hf : s.hasFailed = true) : s.isConnecting = false := by
  cases s with
  | negotiating c =>
    have hfail : c.h.state = .dead ∨ c.h.state = .start := by
      simpa [hasFailed, Negotiation.State.isFailed] using hf
    show c.h.state.isConnecting = false
    obtain hs | hs := hfail <;> rw [hs] <;> rfl
  | connected n c => rfl

/-- **The loop of a synchronous option call** returns with nothing in `h->opt_cb`. -/
theorem WaitForOption.releases {r₀ : Int} (hw : WaitForOption PollOk Q s s' r)
    (hs : system.Reachable s) (hr : s.returned = some r₀) : s'.handle.view.released := by
  induction hw generalizing r₀ with
  | ended hc => exact released_of_not_connecting hs hr hc
  | failed hc hp hpoll =>
    obtain ⟨r', hr'⟩ := hpoll.returned hr
    obtain ⟨hn, -⟩ | hf := hpoll.minus_one hs hp
    · rw [wakes_of_connecting hs hr hc] at hn
      cases hn
    · exact released_of_not_connecting (hpoll.reachable hs) hr' (not_connecting_of_hasFailed hf)
  | again hc hp hpoll hne hrest ih =>
    obtain ⟨r', hr'⟩ := hpoll.returned hr
    exact ih (hpoll.reachable hs) hr'

/-- An option call is refused and leaves `h->opt_cb` alone, or runs the machine and ignores the
result. -/
def Asks (h : Negotiation.Handle) : Negotiation.Submit → Prop
  | .refused h' => h'.optCb = h.optCb
  | .run _ keep _ => keep = false
  | .abort _ => True
  | .done _ => False

theorem permitted_asks {h h' : Negotiation.Handle} {k : Negotiation.Submit}
    (p : Negotiation.State → Bool) (hcb : h'.optCb = h.optCb) (hk : Asks h k) :
    Asks h (Negotiation.permitted p h' k) := by
  unfold Negotiation.permitted
  split
  · exact hk
  · exact hcb

theorem needFixed_asks {h h' : Negotiation.Handle} {k : Negotiation.Submit}
    (hcb : h'.optCb = h.optCb) (hk : Asks h k) : Asks h (Negotiation.needFixed h' k) := by
  unfold Negotiation.needFixed
  split
  · exact hk
  · exact hcb

theorem needCallback_asks {h h' : Negotiation.Handle} {k : Negotiation.Submit}
    (fn : Closure) (hcb : h'.optCb = h.optCb) (hk : Asks h k) :
    Asks h (Negotiation.needCallback fn h' k) := by
  unfold Negotiation.needCallback
  split
  · exact hcb
  · exact hk

theorem queries_asks (inp : Negotiation.Input) (h : Negotiation.Handle) (opt : Negotiation.Opt)
    (queries : Option (List CString)) (context completion : Closure) :
    Asks h (Negotiation.aioOptMetaContextQueries inp h opt queries context completion) := by
  refine permitted_asks _ rfl (needCallback_asks _ rfl (needFixed_asks rfl ?_))
  have hview := (Negotiation.setQuerylist_view inp h queries).1
  generalize Negotiation.setQuerylist inp h queries = q at hview ⊢
  obtain ⟨h', ok⟩ := q
  show Asks h (if !ok then .refused h' else if h'.optCb.fn.isNull then
    Negotiation.submitOption h' opt (some context) completion else .abort .queueFn)
  split
  · exact congrArg Negotiation.View.optCb hview
  · split <;> trivial

theorem submit_asks (inp : Negotiation.Input) (h : Negotiation.Handle) {api : Negotiation.Api}
    (ha : api.isOption = true) : Asks h (Negotiation.submit inp h api) := by
  have hplain : ∀ opt completion, Asks h (Negotiation.plainOption h opt completion) :=
    fun _ _ => permitted_asks _ rfl rfl
  have hfixed : ∀ opt completion, Asks h (Negotiation.fixedOption h opt completion) :=
    fun _ _ => permitted_asks _ rfl (needFixed_asks rfl rfl)
  cases api with
  | aioOptGo completion => exact hplain _ _
  | aioOptInfo completion => exact hfixed _ _
  | aioOptAbort => exact permitted_asks _ rfl rfl
  | aioOptStarttls completion => exact hfixed _ _
  | aioOptExtendedHeaders completion => exact hfixed _ _
  | aioOptStructuredReply completion => exact hfixed _ _
  | aioOptList list completion =>
    refine permitted_asks _ rfl (needCallback_asks _ rfl (needFixed_asks rfl ?_))
    split <;> trivial
  | aioOptListMetaContext queries context completion => exact queries_asks _ _ _ _ _ _
  | aioOptSetMetaContext queries context completion => exact queries_asks _ _ _ _ _ _
  | _ => cases ha

/-- A call ignores what the run loop returned, unless it is a notification. -/
def Quiet : Session → Prop
  | negotiating ⟨_, .running keep⟩ => keep = false
  | negotiating ⟨_, .idle r⟩ => r = 0
  | _ => True

theorem step_quiet {l : Label} (hq : s.Quiet) (hl : l.isInner = true) (h : step s l = some s') :
    s'.Quiet := by
  cases s with
  | negotiating c =>
    obtain ⟨hd, ctl⟩ := c
    cases l with
    | negotiate l =>
      cases l with
      | enter inp =>
        simp only [step] at h
        split at h
        · cases h
        · cases ctl with
          | running keep =>
            obtain rfl : keep = false := hq
            cases h
            simp only [Negotiation.stepEnter]
            cases Negotiation.enter inp hd <;> first | rfl | trivial
          | _ => cases h
      | call api inp => cases hl
    | handover pending start =>
      simp only [step] at h
      split at h
      · cases h
        unfold enterReady
        split
        · trivial
        · split <;> trivial
      · cases h
    | transmit l => cases h
  | connected n c =>
    cases l with
    | transmit l =>
      obtain ⟨c', -, rfl⟩ := Option.map_eq_some_iff.mp h
      trivial
    | _ => cases h

theorem exec_quiet {ls : List Label} (hq : s.Quiet) (hls : ∀ l ∈ ls, l.isInner = true)
    (he : system.exec s ls = some s') : s'.Quiet := by
  induction ls generalizing s with
  | nil =>
    cases he
    exact hq
  | cons l ls ih =>
    obtain ⟨t, ht, hrest⟩ := Option.bind_eq_some_iff.mp he
    exact ih (step_quiet hq (hls l List.mem_cons_self) ht)
      (fun k hk => hls k (List.mem_cons_of_mem _ hk)) hrest

/-- An option call returns at once and leaves `h->opt_cb` alone, or its result is ignored. -/
theorem step_option {api : Negotiation.Api} {inp : Negotiation.Input} {c : Negotiation.Config}
    (ha : api.isOption = true) (h : step (negotiating c) (.negotiate (.call api inp)) = some s') :
    s'.handle.optCb = c.h.optCb ∧ s'.isRunning = false ∨ s'.Quiet := by
  simp only [step] at h
  split at h
  · cases h
  simp only [Negotiation.step] at h
  split at h
  · cases h
    have hasks := submit_asks inp { c.h with lastError := inp.lastError } ha
    simp only [Negotiation.stepCall]
    cases hsub : Negotiation.submit inp { c.h with lastError := inp.lastError } api with
    | refused h' =>
      rw [hsub] at hasks
      exact .inl ⟨hasks, rfl⟩
    | done h' =>
      rw [hsub] at hasks
      exact absurd hasks id
    | run ev keep h' =>
      rw [hsub] at hasks
      obtain rfl : keep = false := hasks
      right
      simp only [Negotiation.afterSubmit, Negotiation.startRun]
      split <;> rfl
    | abort a => exact .inr trivial
  · cases h

theorem SyncOption.forgets {api : Negotiation.Api} (ha : api.isOption = true)
    (hcall : SyncOption PollOk Q api s s') (hs : system.Reachable s)
    (hid : s'.handle.optCb.id = s.handle.nextId) : s'.handle.view.released := by
  cases hcall with
  | waited hc hr hw => exact hw.releases (hc.reachable hs) hc.returned
  | refused hc =>
    have hs' := hc.reachable hs
    have hret := hc.returned
    obtain ⟨ls, t, hls, ht, hrest⟩ := hc.cases
    cases s with
    | connected n c => cases ht
    | negotiating c =>
      obtain ⟨hcb, hstop⟩ | hquiet := step_option ha ht
      · obtain rfl := exec_of_not_running hstop hls hrest
        have htracked := Negotiation.reachable_tracked (reachable_fromReady hs)
        have hlt : c.h.optCb.id < c.h.nextId := htracked.current
        rw [hcb] at hid
        exact absurd hid (Nat.ne_of_lt hlt)
      · have hq := exec_quiet hquiet hls hrest
        cases s' with
        | negotiating c' =>
          obtain ⟨h', ctl⟩ := c'
          cases ctl with
          | idle r =>
            obtain rfl : r = 0 := hq
            exact absurd (Option.some.inj hret) (by decide)
          | _ => cases hret
        | connected n c' => exact released_of_not_connecting hs' hret rfl

end Options

/-! ## Synchronous calls -/

/-- **A synchronous call leaves nothing behind** if no poll is at fault: when it returns, no
queue has a command with the cookie that it was given, and `h->opt_cb` holds nothing of its
option. A poll that is at fault makes the call return -1 and leaves all that as it is. -/
theorem synchronous_calls_forget {s : Session} (hs : system.Reachable s) :
    (∀ call s' r, SyncCommand PollOk anyStep call s s' r →
      ∀ cmd ∈ s'.commands, cmd.cookie ≠ s.nextCookie) ∧
    (∀ api s', api.isOption = true → SyncOption PollOk anyStep api s s' →
      s'.handle.optCb.id = s.handle.nextId → s'.handle.view.released) ∧
    ∀ p s' r, DoPoll anyStep s p s' r → ¬ s.PollOk p →
      r = -1 ∧ s'.commands = s.commands ∧ s'.handle.optCb = s.handle.optCb :=
  ⟨fun _ _ _ hcall => hcall.forgets hs, fun _ _ ha hcall => hcall.forgets ha hs,
    fun _ _ _ hp hbad => hp.at_fault hbad⟩

/-! ### One read, with a server that answers and with a poll that fails -/

/-- A read of one byte. -/
def readOne : Call := .aioPread 4096 1 0 .null 0

/-- `nbd_aio_pread`: the request is queued and sent. -/
def asks : List Label :=
  .transmit (.call (.command readOne) .calm) :: List.replicate 5 (.transmit (.enter .calm))

/-- The server answers the request with the byte 5. -/
def answers : List Label :=
  .transmit (.call .aioNotifyRead .calm) ::
    .transmit (.enter { Input.calm with
      recv := .data (toBE 4 nbdSimpleReplyMagic.toNat ++ toBE 4 0 ++ toBE 8 1) }) ::
    List.replicate 6 (.transmit (.enter { Input.calm with recv := .data [5] }))

/-- `nbd_aio_command_completed`. -/
def looks : List Label := [.completed 1 .calm]

theorem reachable_of_created {s : Session} {ls : List Label}
    (hs : system.exec (.negotiating .created) ls = some s) : system.Reachable s :=
  ⟨.negotiating .created, ls, initial_created, hs⟩

theorem calls_of_exec {s s' : Session} {l : Label} {ls : List Label} {r : Int}
    (hls : ls.all Label.isInner = true) (he : system.exec s (l :: ls) = some s')
    (hr : s'.returned = some r) : Calls anyStep s l s' r :=
  ⟨ls, List.all_eq_true.mp hls, system.meets_true _ _, he, hr⟩

/-- The server answers, and the read returns 0. -/
theorem synchronous_calls_forget_read : ∃ s s', system.Reachable s ∧ s.nextCookie = 1 ∧
    SyncCommand PollOk anyStep readOne s s' 0 ∧ ∀ cmd ∈ s'.commands, cmd.cookie ≠ 1 := by
  have hrun : ((system.exec (.negotiating .created) goDescribed).bind fun s =>
      (system.exec s asks).bind fun s₁ => (system.exec s₁ looks).bind fun s₂ =>
        (system.exec s₂ answers).bind fun s₃ => (system.exec s₃ looks).map fun s₄ =>
          (s.nextCookie, [s₁, s₂, s₃, s₄].map returned, s₂.nothingToPoll, s₂.accepts .read)) =
      some (1, [some 1, some 0, some 0, some 1], false, true) := by decide +kernel
  simp only [Option.bind_eq_some_iff, Option.map_eq_some_iff, Prod.mk.injEq, List.map_cons,
    List.map_nil, List.cons.injEq, and_true] at hrun
  obtain ⟨s, hs, s₁, h₁, s₂, h₂, s₃, h₃, s₄, h₄, hcookie, ⟨hr₁, hr₂, hr₃, hr₄⟩, hpoll, hread⟩ := hrun
  have hreach : system.Reachable s := reachable_of_created hs
  have hasked : Calls anyStep s (.transmit (.call (.command readOne) .calm)) s₁
      (1 : UInt64).toNat := calls_of_exec (by decide) h₁ hr₁
  have hnotified : DoPoll anyStep s₂ (.ready ⟨true, false, false, false, false⟩) s₃ 1 :=
    .notified hpoll rfl rfl (calls_of_exec (by decide) h₃ hr₃)
  have hok : s₂.PollOk (.ready ⟨true, false, false, false, false⟩) := hread
  have hwait : WaitForCommand PollOk anyStep 1 s₁ s₄ 0 :=
    .again (calls_of_exec (by decide) h₂ hr₂) hok hnotified (by decide)
      (.completed (calls_of_exec (by decide) h₄ hr₄) (by decide))
  have hsync : SyncCommand PollOk anyStep readOne s s₄ 0 := .waited hasked hwait
  exact ⟨s, s₄, hreach, hcookie, hsync,
    hcookie ▸ (synchronous_calls_forget hreach).1 readOne s₄ 0 hsync⟩

/-- Nothing is asked of `poll (2)`. -/
def anyPoll : Session → PollResult → Prop := fun _ _ => True

/-- If `poll (2)` reports only `POLLERR` while the read waits for its answer, the read returns
-1 and its command stays in flight. -/
theorem poll_error_keeps_command :
    ¬ ∀ s call s' r, system.Reachable s → SyncCommand anyPoll anyStep call s s' r →
      ∀ cmd ∈ s'.commands, cmd.cookie ≠ s.nextCookie := by
  intro hall
  have hrun : ((system.exec (.negotiating .created) goDescribed).bind fun s =>
      (system.exec s asks).bind fun s₁ => (system.exec s₁ looks).map fun s₂ =>
        (s.nextCookie, s₁.returned, s₂.returned, s₂.commands.map Command.cookie,
          s₂.nothingToPoll)) =
      some (1, some 1, some 0, [1], false) := by decide +kernel
  simp only [Option.bind_eq_some_iff, Option.map_eq_some_iff, Prod.mk.injEq] at hrun
  obtain ⟨s, hs, s₁, h₁, s₂, h₂, hcookie, hr₁, hr₂, hcmds, hpoll⟩ := hrun
  have hfault : DoPoll anyStep s₂ (.ready ⟨false, false, true, false, false⟩) s₂ (-1) :=
    .closed hpoll rfl rfl
  have hasked : Calls anyStep s (.transmit (.call (.command readOne) .calm)) s₁
      (1 : UInt64).toNat := calls_of_exec (by decide) h₁ hr₁
  have hsync : SyncCommand anyPoll anyStep readOne s s₂ (-1) :=
    .waited hasked (.failed (calls_of_exec (by decide) h₂ hr₂) trivial hfault)
  have hforgets := hall s readOne s₂ (-1) (reachable_of_created hs) hsync
  have hmem : (1 : Nat) ∈ s₂.commands.map Command.cookie := hcmds ▸ List.mem_singleton_self 1
  obtain ⟨cmd, hcmd, hone⟩ := List.mem_map.mp hmem
  exact hforgets cmd hcmd (hone.trans hcookie.symm)

end Session

end Libnbd
