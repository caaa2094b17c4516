import Libnbd.Synchronous
import Libnbd.Negotiation.Endings

/-!
What the synchronous option calls find when `wait_for_option` has returned 0
(`lib/opt.c`).

`nbd_unlocked_opt_go` and its siblings assert in which state an option ends, given the
error that `go_complete` stored. The assertions hold in every run in which no server
refuses STARTTLS although TLS is required, and in which nothing is pending on the socket
when the handle comes to `READY`.
-/

namespace Libnbd.Session

open Lib

/-- `get_next_state (h)` is the state. -/
def isNegotiating : Session → Bool
  | negotiating c => c.h.state == .negotiating
  | connected _ _ => false

def isDead : Session → Bool
  | negotiating c => c.h.state == .dead
  | connected _ c => c.h.state == .dead

def atRestReady : Session → Bool
  | negotiating c => c.h.state == .ready
  | connected _ c => c.h.state == .ready

/-- The variable that `go_complete` sets; it is 0 before. -/
def optionError (id : Nat) (s : Session) : UInt32 :=
  (Negotiation.errorsTold id s.handle.trace).getLastD 0

/-- What the synchronous call of option `o` asserts with the error `err`. -/
def Asserts (o : Negotiation.Opt) (err : UInt32) (s : Session) : Prop :=
  match o with
  | .go =>
    (err ≠ 0 → (s.isNegotiating || s.isDead) = true) ∧ (err = 0 → s.atRestReady = true)
  | .info => err ≠ 0 → (s.isNegotiating || s.isDead) = true
  | .starttls | .extendedHeaders | .structuredReply => (s.isNegotiating || s.isDead) = true
  | _ => True

/-- The step does not refuse STARTTLS where TLS is required, and finds nothing pending in
`READY`. -/
def Agreeable (s : Session) : Label → Prop
  | .negotiate (.enter inp) => ¬ Negotiation.RefusesTls inp s.handle
  | .handover pending _ => pending = false
  | .negotiate (.call _ _) | .transmit _ => True

instance (s : Session) (l : Label) : Decidable (Agreeable s l) :=
  match l with
  | .negotiate (.enter _) => inferInstanceAs (Decidable (¬ _))
  | .handover _ _ => inferInstanceAs (Decidable (_ = _))
  | .negotiate (.call _ _) | .transmit _ => isTrue trivial

/-- The option is under way, and if it has led to `READY` then nothing else has happened. -/
def Underway (o : Negotiation.Opt) (id : Nat) : Session → Prop
  | negotiating c =>
    c.Holds (fun _ => True) (Negotiation.Underway o id) (Negotiation.Underway o id)
  | connected n c =>
    Negotiation.Underway o id n ∧ n.state = .ready ∧ c.h.state = .ready ∧ c.ctl = .idle 0

section Steps

variable {o : Negotiation.Opt} {id : Nat} {s s' : Session} {l : Label}

theorem enterReady_underway {n : Negotiation.Handle} (start : Setting)
    (hu : Negotiation.Underway o id n) (hs : n.state = .ready) :
    (enterReady false n start).Underway o id := by
  unfold enterReady
  split
  · trivial
  · exact ⟨hu, hs, rfl, rfl⟩

/-- **Step** of the run loop. -/
theorem step_underway (hs : system.Reachable s) (ho : o.isWaited = true) (hu : s.Underway o id)
    (hl : l.isInner = true) (hq : Agreeable s l) (h : step s l = some s') : s'.Underway o id := by
  cases s with
  | negotiating c =>
    cases l with
    | negotiate l =>
      cases l with
      | enter inp =>
        simp only [step] at h
        split at h
        · cases h
        obtain ⟨hd, ctl⟩ := c
        cases ctl with
        | running keep =>
          cases h
          have hS : Negotiation.RunShape hd := Negotiation.reachable_shape (reachable_coupled hs)
          exact Negotiation.stepEnter_holds (Negotiation.enter_underway hu hS ho hq)
        | _ => cases h
      | call api inp => cases hl
    | handover pending start =>
      simp only [step] at h
      split at h
      · rename_i hat
        obtain ⟨hd, ctl⟩ := c
        simp only [atReady, Bool.and_eq_true, beq_iff_eq] at hat
        cases ctl with
        | running keep =>
          cases h
          obtain rfl : pending = false := hq
          exact enterReady_underway start hu hat.1
        | _ => exact absurd hat.2 (by simp)
      · cases h
    | transmit l => cases h
  | connected n c =>
    obtain ⟨-, -, -, hidle⟩ := hu
    cases l with
    | transmit l =>
      cases l with
      | enter inp =>
        simp only [step, Libnbd.step, hidle] at h
        cases h
      | call api inp => cases hl
    | _ => cases h

theorem exec_underway {ls : List Label} (hs : system.Reachable s) (ho : o.isWaited = true)
    (hu : s.Underway o id) (hls : ∀ l ∈ ls, l.isInner = true) (hm : system.Meets Agreeable s ls)
    (he : system.exec s ls = some s') : s'.Underway o id := by
  induction ls generalizing s with
  | nil =>
    cases he
    exact hu
  | cons l ls ih =>
    obtain ⟨t, ht, hrest⟩ := Option.bind_eq_some_iff.mp he
    have ht' := step_underway hs ho hu (hls l List.mem_cons_self) hm.1 ht
    exact ih (hs.step _ ht) ht' (fun k hk => hls k (List.mem_cons_of_mem _ hk)) (hm.2 t ht) hrest

/-- A notification before the handle is connected. -/
theorem step_notified {ev : Notify} (hc : s.isConnecting = true) (hu : s.Underway o id)
    (hl : l.notifies = some ev) (h : step s l = some s') : s'.Underway o id := by
  cases s with
  | connected n c => cases hc
  | negotiating c =>
    cases l with
    | negotiate l =>
      cases l with
      | enter inp => cases hl
      | call api inp =>
        simp only [step] at h
        split at h
        · cases h
        obtain ⟨hd, ctl⟩ := c
        cases ctl with
        | idle r =>
          cases h
          show (Negotiation.stepCall inp api hd).Holds _ _ _
          rw [negotiation_notifies hd hl]
          refine Negotiation.startRun_holds (Negotiation.notify_underway ?_ ?_ true)
          · exact Negotiation.Underway.setError hu _
          · cases ev
            · exact .inl rfl
            · exact .inr rfl
        | _ => cases h
    | handover pending start => cases hl
    | transmit l => cases h

variable {p : PollResult} {r : Int}

theorem DoPoll.underway (hp : DoPoll Agreeable s p s' r) (hs : system.Reachable s)
    (ho : o.isWaited = true) (hc : s.isConnecting = true) (hu : s.Underway o id) :
    s'.Underway o id := by
  cases hp with
  | notified hn hev hl hcall =>
    obtain ⟨ls, hls, hm, he, -⟩ := hcall
    obtain ⟨t, ht, hrest⟩ := Option.bind_eq_some_iff.mp he
    exact exec_underway (hs.step _ ht) ho (step_notified hc hu hl ht) hls (hm.2 t ht) hrest
  | _ => exact hu

/-- **Run**: the loop of a synchronous option call keeps it. -/
theorem WaitForOption.underway {P : Session → PollResult → Prop}
    (hw : WaitForOption P Agreeable s s' r) (hr : r = 0) (hs : system.Reachable s)
    {r₀ : Int} (hret : s.returned = some r₀) (ho : o.isWaited = true) (hu : s.Underway o id) :
    s'.Underway o id ∧ s'.isConnecting = false ∧ system.Reachable s' ∧ ∃ r, s'.returned = some r := by
  induction hw generalizing r₀ with
  | ended hc => exact ⟨hu, hc, hs, r₀, hret⟩
  | failed hc hp hpoll => cases hr
  | again hc hp hpoll hne hrest ih =>
    obtain ⟨r', hr'⟩ := hpoll.returned hret
    exact ih hr (hpoll.reachable hs) hr' (hpoll.underway hs ho hc hu)

/-- The call that asks for the option. -/
theorem call_underway {api : Negotiation.Api} {inp : Negotiation.Input} {s₁ : Session}
    (hs : system.Reachable s) (ha : Negotiation.waitedCall o = some api)
    (hc : Calls Agreeable s (.negotiate (.call api inp)) s₁ 0) :
    o.isWaited = true ∧ s₁.Underway o s.handle.nextId := by
  obtain ⟨ls, hls, hm, he, hret⟩ := hc
  obtain ⟨t, ht, hrest⟩ := Option.bind_eq_some_iff.mp he
  have hreach : system.Reachable t := hs.step _ ht
  have hmeets : system.Meets Agreeable t ls := hm.2 t ht
  cases s with
  | connected n c => cases ht
  | negotiating c =>
    simp only [system, step] at ht
    split at ht
    · cases ht
    obtain ⟨hd, ctl⟩ := c
    cases ctl with
    | idle r₀ =>
      cases ht
      have hR : Negotiation.RestShape hd := Negotiation.reachable_shape (reachable_coupled hs)
      have hR' : Negotiation.RestShape { hd with lastError := inp.lastError } :=
        ⟨hR.shape, hR.ended, hR.start, hR.connecting⟩
      have htracked : Negotiation.Tracked hd.view := Negotiation.reachable_tracked (reachable_coupled hs)
      obtain ⟨ho, hsub⟩ := Negotiation.submit_waited inp
        { hd with lastError := inp.lastError } ha
      refine ⟨ho, ?_⟩
      obtain ⟨h', hrefused⟩ | ⟨hneg, hasked⟩ := hsub
      · -- a call that is refused does not return 0
        have hstep : Negotiation.stepCall inp api hd = ⟨h', .idle (-1)⟩ := by
          simp only [Negotiation.stepCall, hrefused, Negotiation.afterSubmit]
        rw [hstep] at hrest
        obtain rfl := exec_of_not_running (s := .negotiating ⟨h', .idle (-1)⟩) rfl hls hrest
        exact absurd (Option.some.inj hret) (by decide)
      · have hgo : (Negotiation.stepCall inp api hd).Holds (fun _ => True)
            (Negotiation.Underway o hd.nextId) fun _ => True := by
          simp only [Negotiation.stepCall, hasked]
          exact Negotiation.afterSubmit_holds
            (Negotiation.submitOption_underway hR' htracked hneg)
        have hrun : (Negotiation.stepCall inp api hd).ctl = .running false := by
          simp only [Negotiation.stepCall, hasked, Negotiation.submitOption, Negotiation.afterSubmit,
            Negotiation.startRun]
          rw [show Negotiation.externalEvent .cmdIssue _ = some .newstyleStart from by
            simp only [Negotiation.Handle.log_state]
            rw [show hd.state = .negotiating from hneg]
            rfl]
        have hu : (negotiating (Negotiation.stepCall inp api hd)).Underway o hd.nextId := by
          simp only [Negotiation.Config.Holds, hrun] at hgo
          simpa only [Underway, Negotiation.Config.Holds, hrun] using hgo
        exact exec_underway hreach ho hu hls hmeets hrest
    | _ => cases ht

end Steps

section Ends

variable {o : Negotiation.Opt} {s : Session} {id : Nat}

theorem optionError_eq {err : UInt32} (ht : Negotiation.errorsTold id s.handle.trace = [err]) :
    s.optionError id = err := by
  rw [optionError, ht]
  rfl

/-- Where an option can have ended, its synchronous call asserts what is the case. -/
theorem asserts_of_ends {err : UInt32} {t : Negotiation.State} (he : Negotiation.Ends o err t)
    (hneg : t = .negotiating → s.isNegotiating = true) (hdead : t = .dead → s.isDead = true)
    (hready : t = .ready → s.atRestReady = true) (hfin : t ≠ .newstyleFinished) :
    s.Asserts o err := by
  obtain ⟨hs, hgo⟩ | ⟨hs, herr, ho⟩ := he
  · have hend : (s.isNegotiating || s.isDead) = true := by
      obtain hs | hs := hs
      · rw [hneg hs]
        rfl
      · rw [hdead hs, Bool.or_true]
    cases o with
    | go => exact ⟨fun _ => hend, fun herr => absurd herr (hgo rfl)⟩
    | info => exact fun _ => hend
    | starttls => exact hend
    | extendedHeaders => exact hend
    | structuredReply => exact hend
    | _ => trivial
  · have hr : s.atRestReady = true := hready (hs.resolve_left hfin)
    obtain rfl | rfl := ho
    · exact ⟨fun hne => absurd herr hne, fun _ => hr⟩
    · exact fun hne => absurd herr hne

theorem asserts_of_underway (hs : system.Reachable s) (hu : s.Underway o id)
    (hc : s.isConnecting = false) {r : Int} (hr : s.returned = some r) :
    s.Asserts o (s.optionError id) := by
  cases s with
  | negotiating c =>
    obtain ⟨h, ctl⟩ := c
    cases ctl with
    | idle r₀ =>
      have hR : Negotiation.RestShape h := Negotiation.reachable_shape (reachable_coupled hs)
      have hstate : h.state.isConnecting = false := hc
      have hu' : Negotiation.Underway o id h := hu
      obtain ha | ⟨-, err, htold, hends⟩ := hu'
      · -- the callback of an option in progress has been called in `DEAD`
        have hw := ha.within
        have hdead : h.state = .dead := by
          cases hst : h.state <;> simp_all [Negotiation.State.isWithin, Negotiation.State.isConnecting]
        have hrel := hR.ended (.inl hdead)
        simp only [Negotiation.Core.released, Bool.and_eq_true] at hrel
        have hnull : h.optCb.completion.isNull = true := hrel.2
        simp [Closure.isNull, ha.callback] at hnull
      · rw [optionError_eq (s := .negotiating ⟨h, .idle r₀⟩) htold]
        refine asserts_of_ends hends ?_ ?_ ?_ ?_
        · exact fun he => by simp [isNegotiating, he]
        · exact fun he => by simp [isDead, he]
        · exact fun he => by simp [atRestReady, he]
        · intro he
          rw [he] at hstate
          cases hstate
    | _ => cases hr
  | connected n c =>
    obtain ⟨hu, hn, hready, -⟩ := hu
    obtain ha | ⟨-, err, htold, hends⟩ := hu
    · have hw := ha.within
      rw [hn] at hw
      cases hw
    · rw [hn] at hends
      rw [optionError_eq (s := .connected n c) htold]
      refine asserts_of_ends hends ?_ ?_ ?_ ?_
      · exact fun he => by cases he
      · exact fun he => by cases he
      · exact fun _ => by simp [atRestReady, hready]
      · exact fun he => by cases he

/-- **The assertions of the synchronous option calls hold** in every run in which no server
refuses STARTTLS where TLS is required and nothing is pending on the socket in `READY`: when
`wait_for_option` returns 0, the handle is in a state that the call expects of the error its
completion callback was given. -/
theorem option_assertions_hold (hs : system.Reachable s) {api : Negotiation.Api}
    (ha : Negotiation.waitedCall o = some api) {inp : Negotiation.Input} {s₁ s' : Session}
    (hc : Calls Agreeable s (.negotiate (.call api inp)) s₁ 0)
    (hw : WaitForOption anyPoll Agreeable s₁ s' 0) :
    s'.Asserts o (s'.optionError s.handle.nextId) := by
  obtain ⟨ho, hu⟩ := call_underway hs ha hc
  obtain ⟨hu', hend, hs', r, hr⟩ := hw.underway rfl (hc.reachable hs) hc.returned ho hu
  exact asserts_of_underway hs' hu' hend hr

end Ends

/-! ### GO, with a server that agrees -/

/-- Connect in option mode, ready for GO. -/
def connectForGo : List Label :=
  (Negotiation.connectOptMode ++
    [Negotiation.Label.call (.set (.setRequestMetaContext false)) .calm]).map Label.negotiate

/-- `nbd_opt_go`: the server describes an export of 4096 bytes and agrees. -/
def goes : List Label :=
  (Negotiation.Label.call (.aioOptGo Negotiation.goComplete) .calm ::
    List.replicate 8 (Negotiation.Label.enter .calm) ++
    Negotiation.exchange .go Negotiation.repInfo [0, 0, 0, 0, 0, 0, 0, 0, 16, 0, 0, 1] ++
    Negotiation.exchange .go Negotiation.repAck [] ++
    [Negotiation.Label.enter .calm]).map Label.negotiate ++
    [Label.handover false ⟨0, true, fun _ => 0, fun _ => 0, fun _ => 0⟩]

theorem option_assertions_hold_go : ∃ s s', system.Reachable s ∧
    WaitForOption anyPoll Agreeable s' s' 0 ∧ s'.Asserts .go (s'.optionError s.handle.nextId) ∧
    s'.optionError s.handle.nextId = 0 := by
  have hrun : ((system.exec (.negotiating .created) connectForGo).bind fun s =>
      (system.exec s goes).map fun s' => (s'.returned, s'.isConnecting,
        s'.optionError s.handle.nextId, system.check (fun s l => decide (Agreeable s l)) s goes)) =
      some (some 0, false, 0, true) := by decide +kernel
  simp only [Option.bind_eq_some_iff, Option.map_eq_some_iff, Prod.mk.injEq] at hrun
  obtain ⟨s, hs, s', hs', hret, hend, herr, hcheck⟩ := hrun
  have hreach : system.Reachable s := reachable_of_created hs
  have hcall : Calls Agreeable s
      (.negotiate (.call (.aioOptGo Negotiation.goComplete) .calm)) s' 0 :=
    ⟨goes.tail, by decide, system.meets_of_check hcheck, hs', hret⟩
  have hwait : WaitForOption anyPoll Agreeable s' s' 0 := .ended hend
  exact ⟨s, s', hreach, hwait, option_assertions_hold hreach (o := .go) rfl hcall hwait, herr⟩

end Libnbd.Session
