import Libnbd.Completion
import Libnbd.Lifecycle

/-!
Who owns a command when its submission returns.

`nbd_internal_command_common` queues the command, may run the machine, and then
reads `cmd->cookie`. The command is still on one of the three lists at that
point unless an iteration of this very run completed and retired it.
-/

namespace Libnbd

open Lib

/-- The iteration does not retire the command with cookie `k`. -/
def Survives (k : Nat) (c : Config) : Label → Prop
  | .enter inp => ∀ p ∈ enterCompletes c.h, p.1.cookie = k → retires inp p.1 p.2 = false
  | .call _ _ => True

instance (k : Nat) (c : Config) (l : Label) : Decidable (Survives k c l) :=
  match l with
  | .enter inp => inferInstanceAs
      (Decidable (∀ p ∈ enterCompletes c.h, p.1.cookie = k → retires inp p.1 p.2 = false))
  | .call _ _ => inferInstanceAs (Decidable True)

/-- What an iteration of the run loop completes, if no assertion fails. -/
theorem stepEnter_completes {inp : Input} {after : After} {h : Handle} (hinv : h.book.Inv)
    (ht : Tails h) (hna : ∀ a, (stepEnter inp after h).ctl ≠ .aborted a) :
    Completes inp (enterCompletes h) h (stepEnter inp after h).h := by
  have hc := enter_completes inp hinv ht
  obtain ⟨h', ho, he⟩ | ⟨h', d, r, ho | ho, he⟩ | ⟨a, -, he⟩ := stepEnter_cases inp after h
  · rw [ho] at hc
    rw [he]
    exact hc
  · rw [ho] at hc
    rw [he]
    exact ⟨hc.events, hc.done⟩
  · rw [ho] at hc
    rw [he]
    exact ⟨hc.events, hc.done⟩
  · rw [he] at hna
    exact absurd rfl (hna a)

theorem enter_not_closed {inp : Input} {after : After} {h : Handle} :
    (stepEnter inp after h).ctl ≠ .closed := by
  obtain ⟨h', ho, he⟩ | ⟨h', d, r, ho, he⟩ | ⟨a, -, he⟩ := stepEnter_cases inp after h <;>
    simp [he]

/-- **Step.** A command that was accepted stays owned unless it is retired. -/
theorem stepEnter_owned {c c' : Config} {inp : Input} {k : Nat} (hs : Sound c) (hs' : Sound c')
    (hk : k ∈ acceptedCookies c.h.trace) (hc : Completes inp (enterCompletes c.h) c.h c'.h) :
    k ∈ c'.h.book.cookies ↔ k ∈ c.h.book.cookies ∧ Survives k c (.enter inp) := by
  obtain ⟨es, htr, -, hret, -⟩ := hc.events
  have hacc : k ∈ acceptedCookies c'.h.trace := by
    rw [htr, acceptedCookies_append]
    exact List.mem_append_left _ hk
  have hret' : k ∈ retiredCookies es ↔ ¬ Survives k c (.enter inp) := by
    rw [hret]
    simp only [Survives, List.mem_map, List.mem_filter, not_forall, Bool.not_eq_false]
    constructor
    · rintro ⟨p, ⟨hp, hr⟩, hpk⟩
      exact ⟨p, hp, hpk, hr⟩
    · rintro ⟨p, hp, hpk, hr⟩
      exact ⟨p, ⟨hp, hr⟩, hpk⟩
  have hold := hs.inv.mem_commands_iff k
  have hnew := hs'.inv.mem_commands_iff k
  simp only [Handle.book] at hold hnew
  simp only [Handle.book]
  rw [hnew, hold, htr, retiredCookies_append, List.mem_append, hret', ← htr]
  simp only [hk, hacc, true_and, not_or, not_not]

theorem exec_of_aborted {c c' : Config} {a : Abort} {ls : List Label} (hc : c.ctl = .aborted a)
    (he : machine.exec c ls = some c') : c' = c := by
  cases ls with
  | nil => exact (Option.some.inj he).symm
  | cons l ls =>
    obtain ⟨t, ht, -⟩ := Option.bind_eq_some_iff.mp he
    cases l <;> simp [machine, step, hc] at ht

/-- **Run.** The iterations of one run loop. -/
theorem exec_owned {c c' : Config} {ls : List Label} {k : Nat} {r : Int} (hs : Sound c)
    (hk : k ∈ acceptedCookies c.h.trace) (hls : ∀ l ∈ ls, ∃ inp, l = .enter inp)
    (he : machine.exec c ls = some c') (hr : c'.ctl = .idle r) :
    k ∈ c'.h.book.cookies ↔ k ∈ c.h.book.cookies ∧ machine.Meets (Survives k) c ls := by
  induction ls generalizing c with
  | nil =>
    cases he
    simp [System.Meets]
  | cons l ls ih =>
    obtain ⟨t, ht, hrest⟩ := Option.bind_eq_some_iff.mp he
    obtain ⟨inp, rfl⟩ := hls l List.mem_cons_self
    have hstep : step c (.enter inp) = some t := ht
    obtain ⟨inp', after, hl, -, rfl⟩ | ⟨api, inp', r', hl, -⟩ := step_cases hstep
    · cases hl
      have hna : ∀ a, (stepEnter inp after c.h).ctl ≠ .aborted a := by
        intro a ha
        rw [exec_of_aborted ha hrest, ha] at hr
        cases hr
      have hs' := ((step_refines hs hstep).resolve_left enter_not_closed).sound
      have hc := stepEnter_completes hs.inv hs.tails hna
      have hk' : k ∈ acceptedCookies (stepEnter inp after c.h).h.trace := by
        obtain ⟨es, htr, -⟩ := hc.events
        rw [htr, acceptedCookies_append]
        exact List.mem_append_left _ hk
      rw [ih hs' hk' (fun l hl => hls l (List.mem_cons_of_mem _ hl)) hrest,
        stepEnter_owned hs hs' hk hc, and_assoc]
      refine and_congr_right fun _ => and_congr_right fun _ => ?_
      constructor
      · intro hm s' hs'
        rwa [← Option.some.inj (ht.symm.trans hs')]
      · exact fun hm => hm _ ht
    · cases hl

/-! ## Submission -/

/-- What retiring a command logs. -/
def Event.isRetirement : Event → Bool
  | .freeFn _ | .freeCompletion _ | .retire _ | .completed .. => true
  | _ => false

/-- A call that is no submission logs at most that a command was retired. -/
structure OnlyRetires (h h' : Handle) : Prop where
  trace : ∃ es, h'.trace = h.trace ++ es ∧ ∀ e ∈ es, e.isRetirement = true
  done : ∀ cmd ∈ h'.q.cmdsDone, cmd ∈ h.q.cmdsDone

theorem OnlyRetires.same {h h' : Handle} (htr : h'.trace = h.trace) (hq : h'.q = h.q) :
    OnlyRetires h h' where
  trace := ⟨[], by rw [htr, List.append_nil], fun _ he => absurd he List.not_mem_nil⟩
  done := fun cmd hmem => hq ▸ hmem

theorem apiCall_no_submission {inp : Input} {h : Handle} {api : Api} (hclose : api ≠ .close)
    (hnone : submission inp h api = none) : OnlyRetires h (apiCall inp h api).h := by
  have hstart : ∀ ev k, OnlyRetires h (startRun ev k h).h := by
    intro ev k
    obtain ⟨s, -, he⟩ | ⟨d, e, r', -, he⟩ := startRun_cases ev k h
    · rw [he]
      exact .same rfl rfl
    · rw [he]
      exact .same rfl rfl
  cases api with
  | close => exact absurd rfl hclose
  | command | aioDisconnect | shutdown => cases hnone
  | aioNotifyRead => exact hstart .notifyRead .notify
  | aioNotifyWrite => exact hstart .notifyWrite .notify
  | setStrictMode flags =>
    simp only [apiCall]
    split <;> exact .same rfl rfl
  | setPreadInitialize b => exact .same rfl rfl
  | aioCommandCompleted cookie =>
    simp only [apiCall]
    split
    · exact .same rfl rfl
    · rename_i h' r hok
      obtain ⟨hq, htr⟩ | ⟨cmd, -, -, htr, -, -, hdone⟩ := aioCommandCompleted_cases hok
      · exact .same htr hq
      · refine ⟨⟨_, htr, ?_⟩, fun c hc => ?_⟩
        · unfold retireAndFreeCommand
          split_ifs <;> simp [Event.isRetirement]
        · rw [hdone] at hc
          exact List.mem_of_mem_eraseP hc

theorem accept_of_submission {inp : Input} {h : Handle} {api : Api} {cmd : Command}
    (hclose : api ≠ .close) (hacc : Event.accept cmd ∈ (apiCall inp h api).h.trace)
    (hnew : Event.accept cmd ∉ h.trace) : ∃ s, submission inp h api = some s := by
  by_contra hno
  have hnone : submission inp h api = none := by
    simpa [Option.eq_none_iff_forall_ne_some] using hno
  obtain ⟨es, htr, hes⟩ := (apiCall_no_submission hclose hnone).trace
  rw [htr] at hacc
  rcases List.mem_append.mp hacc with h | h
  · exact hnew h
  · exact absurd (hes _ h) (by simp [Event.isRetirement])

/-- What a submission leaves to the run loop, or to the caller. -/
theorem afterSubmit_completes (h : Handle) (k : After) {s : Submit} (hna : ∀ a, s ≠ .abort a)
    {inp : Input} {ps : List (Command × UInt32)} (hc : s.Completes inp ps h) :
    Completes inp ps h (afterSubmit h k s).h := by
  cases s with
  | refused h' | rejected h' => exact hc
  | accepted h' run =>
    cases run with
    | false =>
      obtain ⟨d, r, he⟩ := afterRun_h k 0 h'
      simp only [afterSubmit, he]
      exact ⟨hc.events, hc.done⟩
    | true =>
      obtain ⟨s, -, he⟩ | ⟨d, e, r', -, he⟩ := startRun_cases .cmdIssue k h'
      · simp only [afterSubmit, he]
        exact ⟨hc.events, hc.done⟩
      · simp only [afterSubmit, he]
        exact ⟨hc.events, hc.done⟩
  | abort a => exact absurd rfl (hna a)

theorem callCompletes_mem {h : Handle} {api : Api} {p : Command × UInt32}
    (hp : p ∈ callCompletes h api) : p.1 ∈ h.q.cmdsToIssue := by
  cases api with
  | shutdown flags =>
    simp only [callCompletes] at hp
    split at hp
    · simp only [withAbortError, List.mem_map] at hp
      obtain ⟨cmd, hcmd, rfl⟩ := hp
      unfold abandoned at hcmd
      split at hcmd
      · exact hcmd
      · exact List.mem_of_mem_tail hcmd
    · cases hp
  | _ => cases hp

/-- A command that a call accepted is owned when the call starts to run. -/
theorem call_owned {c c₁ : Config} {api : Api} {inp : Input} {cmd : Command} (hs : Sound c)
    (hs₁ : Sound c₁) (hclose : api ≠ .close)
    (hc₁ : c₁ = apiCall inp { c.h with lastError := inp.lastError } api)
    (hacc : Event.accept cmd ∈ c₁.h.trace) (hnew : Event.accept cmd ∉ c.h.trace) :
    cmd.cookie ∈ c₁.h.book.cookies := by
  rw [hc₁] at hacc
  obtain ⟨s, hsub⟩ := accept_of_submission hclose hacc hnew
  obtain ⟨k, he⟩ := apiCall_submission hsub
  rw [he] at hacc hc₁
  have hna : ∀ a, s ≠ .abort a := by
    rintro a rfl
    exact hnew hacc
  have hcomp := afterSubmit_completes _ k hna
    (submission_completes (h := { c.h with lastError := inp.lastError }) hs.inv
      ⟨hs.tails.toIssue, hs.tails.done⟩ hsub)
  rw [← hc₁] at hcomp hacc
  obtain ⟨es, htr, -, hret, -⟩ := hcomp.events
  refine (hs₁.inv.mem_commands_iff _).mpr ⟨mem_acceptedCookies hacc, fun hmem => ?_⟩
  -- whatever is retired by now was accepted before the call
  have hold : cmd.cookie ∈ acceptedCookies c.h.trace := by
    have hmem' : cmd.cookie ∈ retiredCookies c.h.trace ++ retiredCookies es := by
      rw [← retiredCookies_append]
      exact htr ▸ hmem
    rcases List.mem_append.mp hmem' with h | h
    · exact hs.inv.perm.subset (List.mem_append_right _ h)
    · rw [hret] at h
      obtain ⟨p, hp, hpk⟩ := List.mem_map.mp h
      have hq := callCompletes_mem (List.mem_filter.mp hp).1
      rw [← hpk]
      exact mem_acceptedCookies (hs.inv.queued _ hq)
  rw [acceptedCookies_eq] at hold
  obtain ⟨cmd', hcmd', hk⟩ := List.mem_map.mp hold
  have hacc' : Event.accept cmd' ∈ c₁.h.trace := by
    rw [htr]
    exact List.mem_append_left _ (mem_accepted.mp hcmd')
  exact hnew (hs₁.inv.accept_inj hacc hacc' hk.symm ▸ mem_accepted.mp hcmd')

/-! ## The cookie returned -/

/-- A submission logs the one command it accepts, which has the next cookie. -/
def Submit.Accepts (h : Handle) : Submit → Prop
  | .refused h' | .rejected h' => ∀ cmd, Event.accept cmd ∈ h'.trace → Event.accept cmd ∈ h.trace
  | .accepted h' _ => ∃ cmd, h'.trace = h.trace ++ [Event.accept cmd] ∧ cmd.cookie = h.q.unique
  | .abort _ => True

theorem enqueue_accepts {h : Handle} {cmd : Command} (hk : cmd.cookie = h.q.unique) :
    (enqueue h cmd).Accepts h := by
  unfold enqueue
  simp only
  split
  · split
    · exact ⟨cmd, rfl, hk⟩
    · trivial
  · split
    · split
      · trivial
      · split
        · trivial
        · exact ⟨cmd, rfl, hk⟩
    · trivial

theorem accept_of_reject {trace : List Event} {fn completion : Closure} {cmd : Command}
    (h : Event.accept cmd ∈ trace ++ rejectEvents fn completion) : Event.accept cmd ∈ trace := by
  rcases List.mem_append.mp h with h | h
  · exact h
  · rcases rejectEvents_mem _ h with h | h <;> cases h

theorem submit_accepts (inp : Input) (h : Handle) (call : Call) :
    (submit inp h call).Accepts h := by
  obtain ⟨m, hm⟩ := sanitize_eq h call
  unfold submit
  simp only [hm]
  split
  · exact fun cmd => accept_of_reject
  · unfold commandCommon
    split
    · exact fun cmd => accept_of_reject
    · exact enqueue_accepts (h := { h with mem := m }) rfl

theorem exec_returns {c c' : Config} {ls : List Label} {k : Nat} {r : Int}
    (hls : ∀ l ∈ ls, ∃ inp, l = .enter inp)
    (hctl : c.ctl = .running (.command k) ∨ c.ctl = .idle k)
    (he : machine.exec c ls = some c') (hr : c'.ctl = .idle r) : r = k := by
  induction ls generalizing c with
  | nil =>
    cases he
    rcases hctl with h | h
    · rw [h] at hr
      cases hr
    · rw [h] at hr
      exact (Control.idle.inj hr).symm
  | cons l ls ih =>
    obtain ⟨t, ht, hrest⟩ := Option.bind_eq_some_iff.mp he
    obtain ⟨inp, rfl⟩ := hls l List.mem_cons_self
    have hrec := ih (c := t) (fun l hl => hls l (List.mem_cons_of_mem _ hl))
    rcases hctl with h | h
    · have ht' : t = stepEnter inp (.command k) c.h := by
        simpa [machine, step, h] using ht.symm
      subst ht'
      unfold stepEnter at hrest hrec
      cases ho : enter inp c.h with
      | next h' =>
        rw [ho] at hrest hrec
        exact hrec (.inl rfl) hrest
      | block h' =>
        rw [ho] at hrest hrec
        exact hrec (.inr rfl) hrest
      | fail h' =>
        rw [ho] at hrest hrec
        exact hrec (.inr rfl) hrest
      | abort a =>
        rw [ho] at hrest
        rw [exec_of_aborted rfl hrest] at hr
        cases hr
    · simp [machine, step, h] at ht

/-- The control after a command call that accepted `cmd`. -/
theorem command_ctl {inp : Input} {h : Handle} {call : Call} {cmd : Command}
    (hna : ∀ a, (apiCall inp h (.command call)).ctl ≠ .aborted a)
    (hacc : Event.accept cmd ∈ (apiCall inp h (.command call)).h.trace)
    (hnew : Event.accept cmd ∉ h.trace) :
    (apiCall inp h (.command call)).ctl = .running (.command cmd.cookie) ∨
      (apiCall inp h (.command call)).ctl = .idle cmd.cookie := by
  have ha := submit_accepts inp h call
  simp only [apiCall] at hacc hna ⊢
  cases hs : submit inp h call with
  | refused h' | rejected h' =>
    rw [hs] at hacc ha
    exact absurd (ha cmd hacc) hnew
  | abort a =>
    rw [hs] at hna
    exact absurd rfl (hna a)
  | accepted h' run =>
    rw [hs] at hacc ha
    obtain ⟨cmd', htr, hk⟩ := ha
    have hcmd : ∀ {g : Handle}, g.trace = h'.trace → Event.accept cmd ∈ g.trace → cmd = cmd' := by
      intro g hg hmem
      rw [hg, htr] at hmem
      rcases List.mem_append.mp hmem with h | h
      · exact absurd h hnew
      · simpa using h
    cases run with
    | false =>
      right
      rw [hcmd rfl hacc, hk]
      rfl
    | true =>
      obtain ⟨s, -, he⟩ | ⟨d, e, r, -, he⟩ := startRun_cases .cmdIssue (.command h.q.unique) h'
      · simp only [afterSubmit, he] at hacc ⊢
        rw [hcmd rfl hacc, hk]
        exact .inl rfl
      · simp only [afterSubmit] at hacc ⊢
        rw [he] at hacc
        have hc := hcmd rfl hacc
        rw [hc, hk]
        unfold startRun
        split
        · exact .inl rfl
        · exact .inr rfl

/-- **The command outlives its submission** exactly when no iteration of the run
that the submission triggers retires it; then the cookie returned is its own. -/
theorem command_outlives_submission_iff {c c₁ c' : Config} {api : Api} {inp : Input}
    {cmd : Command} {ls : List Label} {r : Int} (hc : machine.Reachable c)
    (hcall : machine.step c (.call api inp) = some c₁) (hacc : Event.accept cmd ∈ c₁.h.trace)
    (hnew : Event.accept cmd ∉ c.h.trace) (hls : ∀ l ∈ ls, ∃ i, l = .enter i)
    (hrun : machine.exec c₁ ls = some c') (hret : c'.ctl = .idle r) :
    (cmd.cookie ∈ c'.h.book.cookies ↔ machine.Meets (Survives cmd.cookie) c₁ ls) ∧
      (cmd.cookie ∈ c'.h.book.cookies → ∀ call, api = .command call → r = cmd.cookie) := by
  have hstep : step c (.call api inp) = some c₁ := hcall
  obtain ⟨inp', k, hl, -⟩ | ⟨api', inp', r', hl, hctl, hc₁⟩ := step_cases hstep
  · cases hl
  cases hl
  have hs : Sound c := by
    rcases reachable_sound hc with h | h
    · rw [hctl] at h
      cases h
    · exact h
  have hncl : c₁.ctl ≠ .closed := by
    intro h
    cases ls with
    | nil =>
      cases hrun
      rw [h] at hret
      cases hret
    | cons l ls =>
      obtain ⟨t, ht, -⟩ := Option.bind_eq_some_iff.mp hrun
      cases l <;> simp [machine, step, h] at ht
  have hclose : api ≠ .close := by
    rintro rfl
    rw [hc₁] at hncl
    exact hncl rfl
  have hs₁ := ((step_refines hs hstep).resolve_left hncl).sound
  have hown := call_owned hs hs₁ hclose hc₁ hacc hnew
  refine ⟨?_, fun _ call ha => ?_⟩
  · rw [exec_owned hs₁ (mem_acceptedCookies hacc) hls hrun hret, and_iff_right hown]
  · subst ha
    refine exec_returns hls ?_ hrun hret
    have hna : ∀ a, c₁.ctl ≠ .aborted a := by
      intro a h
      rw [exec_of_aborted h hrun, h] at hret
      cases hret
    rw [hc₁] at hna hacc ⊢
    exact command_ctl hna hacc hnew

/-- A read with a completion callback. -/
def submittedRead : Label := .call (.command (.aioPread 4096 512 0 ⟨true, true⟩ 0)) .calm

/-- Sending its request fails, and the completion callback returns `ret`. -/
def sendFails (ret : Int) : List Label :=
  [.enter .calm, .enter { Input.calm with send := .error },
   .enter { Input.calm with callback := fun _ => ⟨ret, 0⟩ }]

theorem sendFails_enter (ret : Int) : ∀ l ∈ sendFails ret, ∃ i, l = .enter i := by
  intro l hl
  simp only [sendFails, List.mem_cons, List.not_mem_nil, or_false] at hl
  rcases hl with rfl | rfl | rfl <;> exact ⟨_, rfl⟩

/-- The submission of `submittedRead` on a fresh connection, with the command it
accepts and the state it returns in. -/
theorem sendFails_run (ret : Int) (cookies : List Nat)
    (h : (machine.step .calm submittedRead).bind (fun c₁ =>
      (machine.exec c₁ (sendFails ret)).map fun c' =>
        ((accepted c₁.h.trace).map Command.cookie, c'.ctl, c'.h.book.cookies)) =
      some ([1], .idle 1, cookies)) :
    ∃ c₁ c' cmd, machine.step .calm submittedRead = some c₁ ∧
      machine.exec c₁ (sendFails ret) = some c' ∧ Event.accept cmd ∈ c₁.h.trace ∧
      cmd.cookie = 1 ∧ c'.ctl = .idle 1 ∧ c'.h.book.cookies = cookies := by
  obtain ⟨c₁, h₁, hrest⟩ := Option.bind_eq_some_iff.mp h
  obtain ⟨c', h', hp⟩ := Option.map_eq_some_iff.mp hrest
  simp only [Prod.mk.injEq] at hp
  have hmem : 1 ∈ (accepted c₁.h.trace).map Command.cookie := by simp [hp.1]
  obtain ⟨cmd, hcmd, hk⟩ := List.mem_map.mp hmem
  exact ⟨c₁, c', cmd, h₁, h', mem_accepted.mp hcmd, hk, hp.2.1, hp.2.2⟩

theorem command_outlives_failed_send :
    ∃ c₁ c' cmd, machine.step .calm submittedRead = some c₁ ∧
      machine.exec c₁ (sendFails 0) = some c' ∧ Event.accept cmd ∈ c₁.h.trace ∧
      cmd.cookie ∈ c'.h.book.cookies := by
  obtain ⟨c₁, c', cmd, h₁, h', hacc, hk, hctl, -⟩ := sendFails_run 0 [1] (by decide +kernel)
  have hcheck : (machine.step .calm submittedRead).map (fun c₁ =>
      machine.check (fun c l => decide (Survives 1 c l)) c₁ (sendFails 0)) = some true := by
    decide +kernel
  rw [h₁] at hcheck
  have hm := machine.meets_of_check (Option.some.inj hcheck)
  rw [← hk] at hm
  refine ⟨c₁, c', cmd, h₁, h', hacc, ?_⟩
  exact (command_outlives_submission_iff ⟨_, [], Config.initial_calm, rfl⟩ h₁ hacc
    (by simp [Config.calm, Config.ofExport, Handle.connected]) (sendFails_enter 0) h' hctl).1.mpr hm

theorem submitted_read_retired :
    ¬ ∀ c c₁ c' api inp cmd ls r, machine.Reachable c →
      machine.step c (.call api inp) = some c₁ → Event.accept cmd ∈ c₁.h.trace →
      Event.accept cmd ∉ c.h.trace → (∀ l ∈ ls, ∃ i, l = .enter i) →
      machine.exec c₁ ls = some c' → c'.ctl = .idle r → cmd.cookie ∈ c'.h.book.cookies := by
  intro hall
  obtain ⟨c₁, c', cmd, h₁, h', hacc, hk, hctl, hcookies⟩ :=
    sendFails_run 1 [] (by decide +kernel)
  have hmem := hall .calm c₁ c' _ _ cmd (sendFails 1) 1 ⟨_, [], Config.initial_calm, rfl⟩ h₁ hacc
    (by simp [Config.calm, Config.ofExport, Handle.connected]) (sendFails_enter 1) h' hctl
  rw [hcookies] at hmem
  cases hmem

end Libnbd
