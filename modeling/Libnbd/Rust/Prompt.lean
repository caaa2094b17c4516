import Libnbd.Rust.Pending

/-!
When a completed call is noticed.

The predicates are called by `add_command`, once and without the lock, and by
the polling task after its own `aio_notify_*`. So a completion is noticed unless
it comes at a time nobody looks: from a call of the C library that is not the
polling task's while the call is queued, or from any call between the first look
at the predicate and the lock.
-/

namespace Libnbd.Rust

open Lib

/-- The call has all its predicate waits for. -/
def Call.Ripe (c : Call) (v : View) : Prop :=
  match c.kind with
  | .withCompletionCallback => c.ccb ≠ none
  | .changesState predicate value => v.get predicate = value

/-- What the C library does gives call `i` what its predicate waits for. -/
def Effects.Ripens (fx : Effects) (i : Nat) (c : Call) : Prop :=
  match c.kind with
  | .withCompletionCallback => i ∈ fx.completions.map Prod.fst
  | .changesState predicate value => fx.view.get predicate = value

instance (fx : Effects) (i : Nat) (c : Call) : Decidable (fx.Ripens i c) := by
  unfold Effects.Ripens
  cases c.kind <;> infer_instance

/-- The calls that `p` picks are not completed. -/
def Async.Spared (s : Async) (fx : Effects) (p : Nat → Call → Bool) : Prop :=
  ∀ i < s.next, ∀ c ∈ s.calls i, p i c = true → ¬ fx.Ripens i c

instance (s : Async) (fx : Effects) (p : Nat → Call → Bool) : Decidable (s.Spared fx p) :=
  inferInstanceAs (Decidable (∀ i < s.next, ∀ c ∈ s.calls i, p i c = true → ¬ fx.Ripens i c))

/-- The C library does not complete a call at a time nobody looks. -/
def Watched (s : Async) : Label → Prop
  | .issue _ _ fx | .other fx => s.Spared fx fun i c => c.stage = .checked ∨ i ∈ s.queue
  | .task (.ready (.notify _ fx)) => s.Spared fx fun _ c => c.stage = .checked
  | _ => True

instance (s : Async) (l : Label) : Decidable (Watched s l) := by
  unfold Watched
  split <;> infer_instance

/-- No call is ripe that waits for the lock, or that waits in the queue while
the polling task is elsewhere. -/
structure Async.Noticed (s : Async) : Prop where
  orderly : s.Orderly fun _ => True
  checked : ∀ i c, s.calls i = some c → c.stage = .checked → ¬ c.Ripe s.handle
  queued : ¬ s.task.looks → ∀ i ∈ s.queue, ∀ c, s.calls i = some c → ¬ c.Ripe s.handle

/-- A predicate that says `false` has not what it waits for. -/
theorem not_ripe_of_false {c : Call} {v : View} {res : SharedResult}
    (htaken : c.taken = false) (h : c.completionPredicate v res = some (false, c)) :
    ¬ c.Ripe v := by
  have hsend : ∀ (d : Call) r, d.send r ≠ some (false, c) := by
    intro d r
    cases hr : d.ret <;> simp [Call.send, hr]
  have hrecv : c.tryRecv = c.ccb := by simp [Call.tryRecv, htaken]
  cases hk : c.kind with
  | withCompletionCallback =>
    simp only [Call.Ripe, hk, ne_eq, not_not]
    cases hc : c.ccb with
    | none => rfl
    | some errno =>
      exfalso
      rw [hc] at hrecv
      rcases res with (e | e) | ⟨⟩ <;> simp only [Call.completionPredicate, hk, hrecv] at h
      · split at h
        · exact hsend _ _ h
        · exact hsend _ _ h
      · exact hsend _ _ h
      · split at h
        · exact hsend _ _ h
        · exact hsend _ _ h
  | changesState predicate value =>
    simp only [Call.Ripe, hk]
    rcases res with e | ⟨⟩ <;> simp only [Call.completionPredicate, hk] at h
    · exact absurd h (hsend _ _)
    · split at h
      next hne => exact hne
      next => exact absurd h (hsend _ _)

/-- A call the C library does not complete. -/
theorem not_ripe_of_effects {s s' : Async} {fx : Effects} {i : Nat} {c' : Call}
    (hs : s.effects fx = some s') (hc : s'.calls i = some c') :
    ∃ c, s.calls i = some c ∧ c'.stage = c.stage ∧
      (¬ c.Ripe s.handle → ¬ fx.Ripens i c → ¬ c'.Ripe s'.handle) := by
  obtain ⟨calls, hd, rfl⟩ := effects_cases hs
  change calls i = some c' at hc
  rcases deliver_cases hd i with he | ⟨c, err, hm, hc₀, hk, hccb, he⟩
  · refine ⟨c', he ▸ hc, rfl, fun hr hf => ?_⟩
    cases hk : c'.kind with
    | withCompletionCallback =>
      simp only [Call.Ripe, hk] at hr ⊢
      exact hr
    | changesState predicate value =>
      simp only [Effects.Ripens, hk] at hf
      simp only [Call.Ripe, hk]
      exact hf
  · rw [he] at hc
    cases hc
    refine ⟨c, hc₀, rfl, fun _ hf => ?_⟩
    simp only [Effects.Ripens, hk] at hf
    exact absurd (List.mem_map_of_mem hm) hf

/-! ## One step -/

theorem Task.looks_of_quiet {t : Task} (h : t.quiet = true) : ¬ t.looks := by
  rintro (⟨res, rfl⟩ | ⟨e, rfl⟩) <;> cases h

theorem Async.Orderly.lt_next {s : Async} (h : s.Orderly notices) {i : Nat} {c : Call}
    (hc : s.calls i = some c) : i < s.next := by
  by_contra hi
  rw [h.queued.fresh i (not_lt.mp hi)] at hc
  cases hc

/-- One call changes its stage, or leaves the queue with a result. -/
theorem Async.Noticed.setCall {s : Async} {i : Nat} {c c' : Call} (h : s.Noticed)
    (hc : s.calls i = some c) (ho : (s.setCall i c').Orderly fun _ => True)
    (hchecked : c'.stage = .checked → ¬ c'.Ripe s.handle)
    (hqueued : i ∈ s.queue → c'.kind = c.kind ∧ c'.ccb = c.ccb) : (s.setCall i c').Noticed := by
  refine ⟨ho, fun j d hd hst => ?_, fun hl j hj d hd => ?_⟩
  · by_cases hji : j = i
    · subst hji
      rw [setCall_self] at hd
      cases hd
      exact hchecked hst
    · rw [setCall_of_ne _ _ hji] at hd
      exact h.checked j d hd hst
  · by_cases hji : j = i
    · subst hji
      rw [setCall_self] at hd
      cases hd
      obtain ⟨hk, hccb⟩ := hqueued hj
      have := h.queued hl j hj c hc
      simp only [Call.Ripe] at this ⊢
      rw [hk, hccb]
      exact this
    · rw [setCall_of_ne _ _ hji] at hd
      exact h.queued hl j hj d hd

/-- A call of the C library that is not the polling task's. -/
theorem Async.Noticed.effects {s s' : Async} {fx : Effects} (h : s.Noticed)
    (hw : Watched s (.other fx)) (hs : s.effects fx = some s') : s'.Noticed := by
  have hframe : s'.task = s.task ∧ s'.queue = s.queue := by
    obtain ⟨calls, -, rfl⟩ := effects_cases hs
    exact ⟨rfl, rfl⟩
  refine ⟨h.orderly.effects hs, fun i c' hc' hst => ?_, fun hl i hi c' hc' => ?_⟩
  · obtain ⟨c, hc, hstage, hr⟩ := not_ripe_of_effects hs hc'
    rw [hstage] at hst
    exact hr (h.checked i c hc hst) (hw i (h.orderly.lt_next hc) c hc (by simp [hst]))
  · rw [hframe.1] at hl
    rw [hframe.2] at hi
    obtain ⟨c, hc, -, hr⟩ := not_ripe_of_effects hs hc'
    exact hr (h.queued hl i hi c hc) (hw i (h.orderly.lt_next hc) c hc (by simp [hi]))

theorem Async.Noticed.issue {s s' : Async} {kind : AsyncKind} {res : SharedResult} {fx : Effects}
    (h : s.Noticed) (hw : Watched s (.issue kind res fx)) (hs : s.issue kind res fx = some s') :
    s'.Noticed := by
  have ho := h.orderly.issue hs
  simp only [Async.issue] at hs
  have hframe : s'.task = s.task ∧ s'.queue = s.queue := by
    obtain ⟨calls, -, rfl⟩ := effects_cases hs
    exact ⟨rfl, rfl⟩
  have hold : ∀ i c, i ≠ s.next → s'.calls i = some c → ∃ d, s.calls i = some d ∧
      c.stage = d.stage ∧ (¬ d.Ripe s.handle → ¬ fx.Ripens i d → ¬ c.Ripe s'.handle) := by
    intro i c hi hc
    obtain ⟨d, hd, hrest⟩ := not_ripe_of_effects hs hc
    exact ⟨d, (setCall_of_ne s _ hi).symm.trans hd, hrest⟩
  refine ⟨ho, fun i c hc hst => ?_, fun hl i hi c hc => ?_⟩
  · have hne : i ≠ s.next := by
      rintro rfl
      obtain ⟨d, hd, hstage, -⟩ := not_ripe_of_effects hs hc
      rw [hstage] at hst
      obtain rfl := Option.some.inj ((setCall_self s s.next _).symm.trans hd)
      rcases res with e | ⟨⟩ <;> cases hst
    obtain ⟨d, hd, hstage, hr⟩ := hold i c hne hc
    rw [hstage] at hst
    exact hr (h.checked i d hd hst) (hw i (h.orderly.lt_next hd) d hd (by simp [hst]))
  · rw [hframe.1] at hl
    rw [hframe.2] at hi
    obtain ⟨d₀, hd₀⟩ := h.orderly.queued.known i hi
    have hne : i ≠ s.next := by
      rintro rfl
      rw [h.orderly.queued.fresh _ (Nat.le_refl _)] at hd₀
      cases hd₀
    obtain ⟨d, hd, -, hr⟩ := hold i c hne hc
    exact hr (h.queued hl i hi d hd) (hw i (h.orderly.lt_next hd) d hd (by simp [hi]))

theorem Async.Noticed.check {s s' : Async} {i : Nat} (h : s.Noticed) (hs : s.check i = some s') :
    s'.Noticed := by
  have ho := h.orderly.check hs
  obtain ⟨c, c', hc, rfl, hi, hsound, hp⟩ := Async.check_cases h.orderly hs
  refine h.setCall hc ho (fun hst => ?_) fun hm => absurd hm hi.2.2
  obtain ⟨hfalse, rfl⟩ := hp hst
  have hr : ¬ c.Ripe s.handle := not_ripe_of_false hi.2.1 hfalse
  exact hr

theorem Async.Noticed.register {s s' : Async} {i : Nat} (h : s.Noticed)
    (hs : s.register i = some s') : s'.Noticed := by
  have ho := h.orderly.register hs
  obtain ⟨c, hc, hstage, ⟨e, hp, rfl⟩ | ⟨l, hp, rfl⟩⟩ := Async.register_cases hs
  · exact h.setCall hc ho (fun hst => by cases hst) fun _ => ⟨rfl, rfl⟩
  · have hqueue : s.queue = l := by rw [Async.queue, hp]
    obtain ⟨hcalls, -, hhandle, -, -, -, -, hlooks, -⟩ :=
      notifyOne_frame (s.setCall i { c with stage := .awaiting })
    refine ⟨ho, fun j d hd hst => ?_, fun hl j hj d hd => ?_⟩
    · change (s.setCall i _).notifyOne.calls j = some d at hd
      rw [hcalls] at hd
      change ¬ d.Ripe (s.setCall i _).notifyOne.handle
      rw [hhandle]
      by_cases hji : j = i
      · subst hji
        rw [setCall_self] at hd
        cases hd
        cases hst
      · rw [setCall_of_ne _ _ hji] at hd
        exact h.checked j d hd hst
    · change (s.setCall i _).notifyOne.calls j = some d at hd
      rw [hcalls] at hd
      change ¬ d.Ripe (s.setCall i _).notifyOne.handle
      rw [hhandle]
      by_cases hji : j = i
      · subst hji
        rw [setCall_self] at hd
        cases hd
        exact h.checked j c hc hstage
      · rw [setCall_of_ne _ _ hji] at hd
        have hj' : j ∈ s.queue := by
          rw [hqueue]
          exact (List.mem_append.mp hj).resolve_right (by simpa using hji)
        exact h.queued (fun hk => hl (hlooks.mpr hk)) j hj' d hd

theorem Async.Noticed.task {s s' : Async} {e : Event} (h : s.Noticed) (hw : Watched s (.task e))
    (hs : s.taskStep e = some s') : s'.Noticed := by
  have ho := h.orderly.task (fun _ _ _ => trivial) hs
  obtain ⟨t, b, rfl, h₀, -⟩ | ⟨res, fx, u, t, rfl, ht, hu, rfl, hk⟩ |
    ⟨res, l, ht, hl, rfl⟩ | ⟨e, l, ht, hl, rfl⟩ := Async.taskStep_cases h.orderly hs
  · exact ⟨ho, h.checked, fun _ => h.queued (Task.looks_of_quiet h₀)⟩
  · refine ⟨ho, fun i c' hc' hst => ?_, fun hn => absurd ?_ hn⟩
    · obtain ⟨c, hc, hstage, hr⟩ := not_ripe_of_effects hu hc'
      rw [hstage] at hst
      exact hr (h.checked i c hc hst) (hw i (h.orderly.lt_next hc) c hc (by simp [hst]))
    · obtain ⟨r, hr, -⟩ | hfail := hk
      · exact .inl ⟨r, hr⟩
      · exact .inr hfail
  all_goals
    have hqueue : s.queue = l := by rw [Async.queue, hl]
    have hcause : s.cause = none := by rw [Async.cause, hl]
    have hq := h.orderly.queued
    rw [hqueue, hcause] at hq
  · obtain ⟨hscan, hrest, hfalse⟩ := hq.scan (recoverableResult res)
      fun e => recoverableResult_justified fun _ _ => trivial
    refine ⟨ho, fun i c hc hst => ?_, fun _ i hi c hc => ?_⟩
    · have hs₀ := hrest.early i c hc (by rw [hst]; rfl)
      exact hrest.handle ▸ h.checked i c hs₀ hst
    · have hw := (hscan.sound i c hc).queued.mp hi
      change ¬ c.Ripe (retain _ _ _ _ s).2.handle
      rw [hrest.handle]
      exact not_ripe_of_false ((hscan.sound i c hc).untaken hw.2) (hfalse i hi c hc)
  · obtain ⟨-, hrest⟩ := (hq.mono (.fatal e)).die
    refine ⟨ho, fun i c hc hst => ?_, fun _ i hi => by cases hi⟩
    have hs₀ := hrest.early i c hc (by rw [hst]; rfl)
    exact hrest.handle ▸ h.checked i c hs₀ hst

theorem Async.Noticed.step {s s' : Async} {l : Label} (h : s.Noticed) (hw : Watched s l)
    (hs : s.step l = some s') : s'.Noticed := by
  cases l with
  | issue kind res fx => exact h.issue hw hs
  | check i => exact h.check hs
  | register i => exact h.register hs
  | resume i =>
    have ho := h.orderly.resume hs
    obtain ⟨c, ret, hc, -, -, rfl⟩ := Async.resume_cases h.orderly hs
    exact h.setCall hc ho (fun hst => by cases hst) fun _ => ⟨rfl, rfl⟩
  | drop i =>
    have ho := h.orderly.drop hs
    obtain ⟨c, hc, -, rfl⟩ := Async.drop_cases hs
    exact h.setCall hc ho (fun hst => by cases hst) fun _ => ⟨rfl, rfl⟩
  | other fx => exact h.effects hw hs
  | task e => exact h.task hw hs

/-- As long as the C library completes no call at a time nobody looks, a call
whose completion has come is in the queue only between the `aio_notify_*` of the
polling task and the predicates. -/
theorem completed_calls_noticed {s : Async} (h : asyncMachine.ReachableBy Watched s) {i : Nat}
    {c : Call} (hi : i ∈ s.queue) (hc : s.calls i = some c) (hr : c.Ripe s.handle) :
    s.task.looks := by
  have hn : s.Noticed := by
    refine asyncMachine.reachableBy_invariant (P := Async.Noticed) ?_
      (fun s l s' hs hw hstep => hs.step hw hstep) h
    rintro s ⟨v, rfl⟩
    exact ⟨orderly_new v, fun i c hc => (by cases hc), fun _ i hi => (by cases hi)⟩
  by_contra hl
  exact hn.queued hl i hi c hc hr

/-- A call that is issued, queued and completed by the polling task. -/
def readRun : List Label :=
  [.issue .withCompletionCallback (.ok ()) ⟨[], ⟨false, false⟩⟩, .check 0, .register 0,
    .task (.start (.ok ()) (.ok ())), .task (.direction true), .task .look,
    .task (.ready (.notify (.ok ()) ⟨[(0, 0)], ⟨false, false⟩⟩))]

theorem completed_calls_noticed_read :
    ∃ s c, asyncMachine.exec (.new ⟨true, false⟩) readRun = some s ∧ 0 ∈ s.queue ∧
      s.calls 0 = some c ∧ c.Ripe s.handle ∧ s.task.looks := by
  have hrun : (asyncMachine.exec (.new ⟨true, false⟩) readRun).isSome = true := by decide
  have hfacts : (asyncMachine.exec (.new ⟨true, false⟩) readRun).map
      (fun s => (s.queue, s.calls 0)) =
        some ([0], some ⟨.withCompletionCallback, .awaiting, some 0, false, none⟩) := by decide
  obtain ⟨s, hs⟩ := Option.isSome_iff_exists.mp hrun
  rw [hs] at hfacts
  obtain ⟨hq, hc⟩ := Prod.mk.inj (Option.some.inj hfacts)
  have hi : 0 ∈ s.queue := by
    rw [hq]
    exact List.mem_cons_self
  refine ⟨s, _, hs, hi, hc, by simp [Call.Ripe], ?_⟩
  exact completed_calls_noticed ⟨_, _, ⟨_, rfl⟩, asyncMachine.meets_of_check (by decide), hs⟩ hi hc
    (by simp [Call.Ripe])

-- The completion comes between the look at the predicate and the lock.
example :
    ((asyncMachine.exec (.new ⟨true, false⟩)
        [.task (.start (.ok ()) (.ok ())),
          .issue .withCompletionCallback (.ok ()) ⟨[], ⟨false, false⟩⟩, .check 0,
          .other ⟨[(0, 0)], ⟨false, false⟩⟩, .register 0, .task (.direction true),
          .task .look]).map fun s => (s.queue, s.calls 0, s.task)) =
      some ([0], some ⟨.withCompletionCallback, .awaiting, some 0, false, none⟩, .polling) := by
  decide

end Libnbd.Rust
