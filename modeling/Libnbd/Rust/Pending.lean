import Libnbd.Rust.AsyncHandle

/-!
The queue of the asynchronous handle.

Every call that waits for its result has its predicate in the queue exactly
once, and no predicate is called again after it said `true`, whatever the
interleaving. `Orderly` is the invariant. `cause` in it is the error the polling
task died of, which the predicates are given before the queue is closed, and
`notices` are the recoverable errors its notifications have returned: a result is
success, the error of the completion callback, one of `notices` or `cause`.
-/

namespace Libnbd.Rust

open Lib

/-- The future of the call waits, or was dropped while it did. -/
def Call.waits (c : Call) : Prop :=
  (c.stage = .awaiting ∨ c.stage = .dropped) ∧ c.ret = none

instance (c : Call) : Decidable c.waits := inferInstanceAs (Decidable (_ ∧ _))

/-- The stages of a call in which its predicate has said nothing but `false`. -/
def Stage.early : Stage → Bool
  | .failed _ | .issued | .checked | .refused _ => true
  | .awaiting | .dropped | .returned _ => false

/-- A notification or the end of the polling task has given this error. -/
def Justified (notices : ErrorKind → Prop) (cause : Option Error) : Error → Prop
  | .fatal e => cause = some (.fatal e)
  | .recoverable kind => notices kind

/-- A call with a completion callback succeeds only if the callback was told so, and fails only
if it was told an error or with the error of the polling task. The error of a call is that one,
the one that the callback was told, or the one of a notification. -/
def Call.Truthful (notices : ErrorKind → Prop) (cause : Option Error) (c : Call) :
    SharedResult → Prop
  | .ok () => c.kind = .withCompletionCallback → c.ccb = some 0
  | .error (.fatal e) => cause = some (.fatal e)
  | .error (.recoverable kind) =>
      (c.kind = .withCompletionCallback → ∃ n, n ≠ 0 ∧ c.ccb = some n) ∧
        (notices kind ∨ ∃ n, c.ccb = some n ∧ kind = .fromErrno n)

structure Call.Sound (notices : ErrorKind → Prop) (cause : Option Error) (l : List Nat) (i : Nat) (c : Call) : Prop where
  queued : i ∈ l ↔ c.waits
  early : c.stage.early = true → c.ret = none
  returned : ∀ r, c.stage = .returned r → c.ret = some r
  refused : ∀ e, c.stage = .refused e → cause = some e
  untaken : c.ret = none → c.taken = false
  truth : ∀ r, c.ret = some r → c.Truthful notices cause r

/-- The error the queue was closed with. -/
def Async.cause (s : Async) : Option Error :=
  match s.pendingCommands with
  | .ok _ => none
  | .error e => some e

/-- What holds of the calls when the predicates of `l` are still to be called. -/
structure Async.Queued (notices : ErrorKind → Prop) (cause : Option Error) (l : List Nat) (s : Async) : Prop where
  calm : s.panicked = false
  fresh : ∀ i, s.next ≤ i → s.calls i = none
  nodup : l.Nodup
  known : ∀ i ∈ l, ∃ c, s.calls i = some c
  sound : ∀ i c, s.calls i = some c → c.Sound notices cause l i

structure Async.Orderly (notices : ErrorKind → Prop) (s : Async) : Prop where
  queued : s.Queued notices s.cause s.queue
  closed : s.task = .dead ↔ s.cause ≠ none
  fatal : ∀ e, s.cause = some e → e.isFatal = true
  nothing : s.task = .nothingPending false → s.queue = []
  heard : ∀ kind, s.task = .notified (some kind) → notices kind

variable {notices : ErrorKind → Prop}

/-! ## Predicates -/

theorem Call.waits.stage_of {c : Call} (h : c.waits) : c.stage.early = false := by
  obtain ⟨h | h, -⟩ := h <;> rw [h] <;> rfl

/-- What a predicate that has not sent its result does. -/
theorem completionPredicate_cases {c : Call} (v : View) (res : SharedResult)
    (cause : Option Error) (hret : c.ret = none) (htaken : c.taken = false)
    (hres : ∀ e, res = .error e → Justified notices cause e) :
    c.completionPredicate v res = some (false, c) ∨
      ∃ taken r,
        c.completionPredicate v res = some (true, { c with taken := taken, ret := some r }) ∧
        c.Truthful notices cause r := by
  obtain ⟨kind, stage, ccb, taken, ret⟩ := c
  obtain rfl : ret = none := hret
  obtain rfl : taken = false := htaken
  cases kind with
  | withCompletionCallback =>
    rcases res with (e | e) | ⟨⟩
    · cases ccb with
      | none => exact .inl rfl
      | some errno =>
        by_cases h0 : errno = 0
        · subst h0
          exact .inr ⟨true, .ok (), rfl, fun _ => rfl⟩
        · refine .inr ⟨true, .error (.recoverable e), ?_, fun _ => ⟨errno, h0, rfl⟩,
            .inl (hres _ rfl)⟩
          simp [Call.completionPredicate, Call.tryRecv, Call.send, h0]
    · exact .inr ⟨false, .error (.fatal e), rfl, hres _ rfl⟩
    · cases ccb with
      | none => exact .inl rfl
      | some errno =>
        by_cases h0 : errno = 0
        · subst h0
          exact .inr ⟨true, .ok (), rfl, fun _ => rfl⟩
        · refine .inr ⟨true, .error (.recoverable (.fromErrno errno)), ?_,
            fun _ => ⟨errno, h0, rfl⟩, .inr ⟨errno, rfl, rfl⟩⟩
          simp [Call.completionPredicate, Call.tryRecv, Call.send, h0]
  | changesState predicate value =>
    rcases res with (e | e) | ⟨⟩
    · exact .inr ⟨false, .error (.recoverable e), rfl, fun h => (by cases h), .inl (hres _ rfl)⟩
    · exact .inr ⟨false, .error (.fatal e), rfl, hres _ rfl⟩
    · by_cases hp : v.get predicate = value
      · refine .inr ⟨false, .ok (), ?_, fun h => (by cases h)⟩
        simp [Call.completionPredicate, Call.send, hp]
      · left
        simp [Call.completionPredicate, hp]

/-! ## One call changes -/

theorem setCall_self (s : Async) (i : Nat) (c : Call) : (s.setCall i c).calls i = some c :=
  Function.update_self ..

theorem setCall_of_ne (s : Async) {i j : Nat} (c : Call) (h : j ≠ i) :
    (s.setCall i c).calls j = s.calls j := Function.update_of_ne h ..

/-- Call `i` changes and moves in or out of the queue. -/
theorem Async.Queued.setCall {cause : Option Error} {l l' : List Nat} {s : Async} {i : Nat}
    {c c' : Call} (h : s.Queued notices cause l) (hc : s.calls i = some c) (hnd : l'.Nodup)
    (hl : ∀ j, j ≠ i → (j ∈ l' ↔ j ∈ l)) (hs : c'.Sound notices cause l' i) :
    (s.setCall i c').Queued notices cause l' where
  calm := h.calm
  fresh j hj := by
    have hji : j ≠ i := by
      rintro rfl
      rw [h.fresh j hj] at hc
      cases hc
    rw [setCall_of_ne _ _ hji]
    exact h.fresh j hj
  nodup := hnd
  known j hj := by
    by_cases hji : j = i
    · rw [hji]
      exact ⟨c', setCall_self ..⟩
    · rw [setCall_of_ne _ _ hji]
      exact h.known j ((hl j hji).mp hj)
  sound j d hd := by
    by_cases hji : j = i
    · subst hji
      rw [setCall_self] at hd
      cases hd
      exact hs
    · rw [setCall_of_ne _ _ hji] at hd
      obtain ⟨h₁, h₂, h₃, h₄, h₅, h₆⟩ := h.sound j d hd
      exact ⟨(hl j hji).trans h₁, h₂, h₃, h₄, h₅, h₆⟩

theorem Async.Queued.perm {cause : Option Error} {l l' : List Nat} {s : Async}
    (h : s.Queued notices cause l) (hp : l.Perm l') : s.Queued notices cause l' where
  calm := h.calm
  fresh := h.fresh
  nodup := hp.nodup_iff.mp h.nodup
  known i hi := h.known i (hp.mem_iff.mpr hi)
  sound i c hc := by
    obtain ⟨h₁, h₂, h₃, h₄, h₅, h₆⟩ := h.sound i c hc
    exact ⟨hp.mem_iff.symm.trans h₁, h₂, h₃, h₄, h₅, h₆⟩

/-- Nothing is resolved with a fatal error before the polling task has one. -/
theorem Async.Queued.mono {l : List Nat} {s : Async} (h : s.Queued notices none l) (e : Error) :
    s.Queued notices (some e) l where
  calm := h.calm
  fresh := h.fresh
  nodup := h.nodup
  known := h.known
  sound i c hc := by
    obtain ⟨h₁, h₂, h₃, h₄, h₅, h₆⟩ := h.sound i c hc
    refine ⟨h₁, h₂, h₃, fun e' he => (by cases h₄ e' he), h₅, fun r hr => ?_⟩
    have := h₆ r hr
    rcases r with (kind | e') | ⟨⟩
    · exact this
    · cases this
    · exact this

/-- The frame rule: only the calls, their number and the flag count. -/
theorem Async.Queued.congr {cause : Option Error} {l : List Nat} {s t : Async}
    (h : s.Queued notices cause l) (hc : t.calls = s.calls) (hn : t.next = s.next)
    (hp : t.panicked = s.panicked) : t.Queued notices cause l := by
  obtain ⟨h₁, h₂, h₃, h₄, h₅⟩ := h
  exact ⟨hp ▸ h₁, by rwa [hn, hc], h₃, by rwa [hc], by rwa [hc]⟩

/-! ## The predicate of a queued call -/

/-- The call of a queued predicate: it is kept, or it leaves with a result. -/
theorem Async.Queued.visit {cause : Option Error} {i : Nat} {l : List Nat} {s : Async}
    (h : s.Queued notices cause (i :: l)) (res : SharedResult)
    (hres : ∀ e, res = .error e → Justified notices cause e) :
    ∃ c, s.calls i = some c ∧ c.waits ∧
      ((c.completionPredicate s.handle res = some (false, c) ∧
          s.visit res i = (false, s.setCall i c)) ∨
        ∃ c', c'.stage = c.stage ∧ s.visit res i = (true, s.setCall i c') ∧
          (s.setCall i c').Queued notices cause l) := by
  obtain ⟨c, hc⟩ := h.known i List.mem_cons_self
  have hs := h.sound i c hc
  have hw : c.waits := hs.queued.mp List.mem_cons_self
  obtain ⟨hi, hnd⟩ := List.nodup_cons.mp h.nodup
  refine ⟨c, hc, hw, ?_⟩
  rcases completionPredicate_cases s.handle res cause hw.2 (hs.untaken hw.2) hres with
    hp | ⟨taken, r, hp, htruth⟩
  · exact .inl ⟨hp, by simp only [Async.visit, hc, Option.bind_some, hp]⟩
  · refine .inr ⟨{ c with taken := taken, ret := some r }, rfl,
      by simp only [Async.visit, hc, Option.bind_some, hp], ?_⟩
    refine h.setCall hc hnd (fun j hj => by simp [hj]) ⟨?_, ?_, ?_, hs.refused, ?_, ?_⟩
    · simp [hi, Call.waits]
    · intro he
      rw [hw.stage_of] at he
      cases he
    · intro r' hr'
      obtain ⟨hw | hw, -⟩ := hw <;> rw [hw] at hr' <;> cases hr'
    · intro hr'
      cases hr'
    · intro r' hr'
      cases hr'
      exact htruth

/-! ## The scans -/

/-- What a scan leaves alone. -/
structure Async.Scanned (s t : Async) : Prop where
  handle : t.handle = s.handle
  next : t.next = s.next
  task : t.task = s.task
  early : ∀ i c, t.calls i = some c → c.stage.early = true → s.calls i = some c

theorem Async.Scanned.refl (s : Async) : s.Scanned s := ⟨rfl, rfl, rfl, fun _ _ h _ => h⟩

theorem Async.Scanned.setCall {s t : Async} (h : s.Scanned t) (i : Nat) {c : Call}
    (hc : c.stage.early = false) : s.Scanned (t.setCall i c) := by
  refine ⟨h.handle, h.next, h.task, fun j d hd he => ?_⟩
  by_cases hji : j = i
  · subst hji
    rw [setCall_self] at hd
    cases hd
    rw [hc] at he
    cases he
  · rw [setCall_of_ne _ _ hji] at hd
    exact h.early j d hd he

/-- After a scan the queue holds the calls whose predicate said `false`. -/
theorem Async.Queued.scan {cause : Option Error} {l : List Nat} {s : Async}
    (h : s.Queued notices cause l) (res : SharedResult)
    (hres : ∀ e, res = .error e → Justified notices cause e) :
    (retain (Async.visit res) l.length 0 l s).2.Queued notices cause
        (retain (Async.visit res) l.length 0 l s).1 ∧
      s.Scanned (retain (Async.visit res) l.length 0 l s).2 ∧
      ∀ i ∈ (retain (Async.visit res) l.length 0 l s).1, ∀ c,
        (retain (Async.visit res) l.length 0 l s).2.calls i = some c →
          c.completionPredicate s.handle res = some (false, c) := by
  have hI := retain_rule (Async.visit res) [] l
    (I := fun xs ys t => t.Queued notices cause (xs ++ ys) ∧ s.Scanned t ∧
      ∀ i ∈ xs, ∀ c, t.calls i = some c → c.completionPredicate s.handle res = some (false, c))
    (n := l.length) (s := s) ?_ ?_ ?_ (Nat.le_refl _)
    ⟨h, Async.Scanned.refl s, by simp⟩
  · simpa only [List.append_nil, List.nil_append, List.length_nil] using hI
  · rintro xs ys zs t hp ⟨hq, ht, hk⟩
    exact ⟨hq.perm (hp.append_left xs), ht, hk⟩
  · rintro xs i ys t ⟨hq, ht, hk⟩ hv
    obtain ⟨c, hc, hw, ⟨-, hv'⟩ | ⟨c', hs, hv', hq'⟩⟩ := (hq.perm List.perm_middle).visit res hres
    · rw [hv'] at hv
      cases hv
    · rw [hv']
      have hi : i ∉ xs := by
        have := (List.perm_middle.nodup_iff.mp hq.nodup)
        simp only [List.nodup_cons, List.mem_append, not_or] at this
        exact this.1.1
      refine ⟨hq', ht.setCall i (hs ▸ hw.stage_of), fun j hj d hd => ?_⟩
      rw [setCall_of_ne _ _ (by rintro rfl; exact hi hj)] at hd
      exact hk j hj d hd
  · rintro xs i ys t ⟨hq, ht, hk⟩ hv
    obtain ⟨c, hc, hw, ⟨hp, hv'⟩ | ⟨c', hs, hv', hq'⟩⟩ := (hq.perm List.perm_middle).visit res hres
    · rw [hv']
      have hcalls : (t.setCall i c).calls = t.calls := Function.update_eq_self_iff.mpr hc.symm
      refine ⟨?_, ht.setCall i hw.stage_of, fun j hj d hd => ?_⟩
      · rw [List.append_assoc, List.singleton_append]
        exact hq.congr hcalls rfl rfl
      · rw [hcalls] at hd
        rcases List.mem_append.mp hj with hj | hj
        · exact hk j hj d hd
        · obtain rfl := List.mem_singleton.mp hj
          rw [hc] at hd
          cases hd
          rw [← ht.handle]
          exact hp
    · rw [hv'] at hv
      cases hv

theorem completionPredicate_fatal (c : Call) (v : View) (e : FatalErrorKind) :
    c.completionPredicate v (.error (.fatal e)) ≠ some (false, c) := by
  have hsend : ∀ (d : Call) r, d.send r ≠ some (false, c) := by
    intro d r
    cases hr : d.ret <;> simp [Call.send, hr]
  intro h
  cases hk : c.kind <;> simp only [Call.completionPredicate, hk] at h <;> exact hsend _ _ h

/-- The error of the polling task resolves every call in the queue. -/
theorem Async.Queued.die {l : List Nat} {s : Async} {e : FatalErrorKind}
    (h : s.Queued notices (some (.fatal e)) l) :
    (l.foldl (fun s i => (s.visit (.error (.fatal e)) i).2) s).Queued notices (some (.fatal e)) [] ∧
      s.Scanned (l.foldl (fun s i => (s.visit (.error (.fatal e)) i).2) s) := by
  suffices hgen : ∀ (l : List Nat) (t : Async), s.Scanned t → t.Queued notices (some (.fatal e)) l →
      (l.foldl (fun s i => (s.visit (.error (.fatal e)) i).2) t).Queued notices (some (.fatal e)) [] ∧
        s.Scanned (l.foldl (fun s i => (s.visit (.error (.fatal e)) i).2) t) from
    hgen l s (Async.Scanned.refl s) h
  intro l
  induction l with
  | nil => exact fun t ht hq => ⟨hq, ht⟩
  | cons i l ih =>
    intro t ht hq
    obtain ⟨c, hc, hw, ⟨hp, -⟩ | ⟨c', hs, hv, hq'⟩⟩ :=
      hq.visit (.error (.fatal e)) fun e' he => by cases he; rfl
    · exact absurd hp (completionPredicate_fatal c _ e)
    · rw [List.foldl_cons, hv]
      exact ih _ (ht.setCall i (hs ▸ hw.stage_of)) hq'

/-! ## The calls of the C library -/

/-- What the C library does to a call is to call its completion callback, once. -/
theorem deliver_cases {calls calls' : Nat → Option Call} {cs : List (Nat × Int)}
    (h : deliver calls cs = some calls') (i : Nat) :
    calls' i = calls i ∨ ∃ c err, (i, err) ∈ cs ∧ calls i = some c ∧
      c.kind = .withCompletionCallback ∧ c.ccb = none ∧
      calls' i = some { c with ccb := some err } := by
  induction cs generalizing calls with
  | nil =>
    cases h
    exact .inl rfl
  | cons p cs ih =>
    obtain ⟨j, err⟩ := p
    simp only [deliver] at h
    cases hj : calls j with
    | none => simp [hj] at h
    | some c =>
      simp only [hj] at h
      split at h
      next hg =>
        by_cases hij : i = j
        · subst hij
          right
          rcases ih h with hi | ⟨d, err', -, hd, -, hccb, -⟩
          · rw [Function.update_self] at hi
            exact ⟨c, err, List.mem_cons_self, hj, hg.1, hg.2, hi⟩
          · rw [Function.update_self] at hd
            cases hd
            cases hccb
        · rcases ih h with hi | ⟨d, err', hm, hd, hk, hccb, hd'⟩
          · rw [Function.update_of_ne hij] at hi
            exact .inl hi
          · rw [Function.update_of_ne hij] at hd
            exact .inr ⟨d, err', List.mem_cons_of_mem _ hm, hd, hk, hccb, hd'⟩
      next => cases h

theorem effects_cases {s s' : Async} {fx : Effects} (h : s.effects fx = some s') :
    ∃ calls, deliver s.calls fx.completions = some calls ∧
      s' = { s with calls := calls, handle := fx.view } := by
  simp only [Async.effects, Option.map_eq_some_iff] at h
  obtain ⟨calls, hd, rfl⟩ := h
  exact ⟨calls, hd, rfl⟩

theorem Call.Sound.completed {cause : Option Error} {l : List Nat} {i : Nat} {c : Call}
    (h : c.Sound notices cause l i) (hk : c.kind = .withCompletionCallback) (hccb : c.ccb = none)
    (err : Int) : ({ c with ccb := some err } : Call).Sound notices cause l i := by
  obtain ⟨h₁, h₂, h₃, h₄, h₅, h₆⟩ := h
  refine ⟨h₁, h₂, h₃, h₄, h₅, fun r hr => ?_⟩
  have := h₆ r hr
  rcases r with (kind | e) | ⟨⟩
  · obtain ⟨n, -, hn⟩ := this.1 hk
    rw [hccb] at hn
    cases hn
  · exact this
  · rw [Call.Truthful, hccb] at this
    cases this hk

theorem Async.Queued.effects {cause : Option Error} {l : List Nat} {s s' : Async} {fx : Effects}
    (h : s.Queued notices cause l) (hs : s.effects fx = some s') : s'.Queued notices cause l := by
  obtain ⟨calls, hd, rfl⟩ := effects_cases hs
  refine ⟨h.calm, fun i hi => ?_, h.nodup, fun i hi => ?_, fun i c hc => ?_⟩
  · have hn := h.fresh i hi
    rcases deliver_cases hd i with he | ⟨c, err, -, hc, -⟩
    · exact he.trans hn
    · rw [hn] at hc
      cases hc
  · obtain ⟨c, hc⟩ := h.known i hi
    rcases deliver_cases hd i with he | ⟨d, err, -, -, -, -, hd'⟩
    · exact ⟨c, he.trans hc⟩
    · exact ⟨_, hd'⟩
  · change calls i = some c at hc
    rcases deliver_cases hd i with he | ⟨d, err, -, hd', hk, hccb, he⟩
    · exact h.sound i c (he ▸ hc)
    · rw [he] at hc
      cases hc
      exact (h.sound i d hd').completed hk hccb err

/-- A new call. -/
theorem Async.Queued.issued {cause : Option Error} {l : List Nat} {s : Async} {c : Call}
    (h : s.Queued notices cause l) (hstage : c.stage = .issued ∨ ∃ e, c.stage = .failed e)
    (htaken : c.taken = false) (hret : c.ret = none) :
    ({ s.setCall s.next c with next := s.next + 1 } : Async).Queued notices cause l := by
  have hnew := h.fresh s.next (Nat.le_refl _)
  have hl : s.next ∉ l := by
    intro hm
    obtain ⟨d, hd⟩ := h.known _ hm
    rw [hnew] at hd
    cases hd
  refine ⟨h.calm, fun i hi => ?_, h.nodup, fun i hi => ?_, fun i d hd => ?_⟩
  · have hi' : s.next + 1 ≤ i := hi
    exact (setCall_of_ne s c (by omega)).trans (h.fresh i (by omega))
  · obtain ⟨d, hd⟩ := h.known i hi
    exact ⟨d, (setCall_of_ne s c (by rintro rfl; exact hl hi)).trans hd⟩
  · change (s.setCall s.next c).calls i = some d at hd
    by_cases hi : i = s.next
    · subst hi
      rw [setCall_self] at hd
      cases hd
      refine ⟨⟨fun hm => absurd hm hl, fun hw => ?_⟩, fun _ => hret, fun r hr => ?_, fun e he => ?_,
        fun _ => htaken, fun r hr => ?_⟩
      · have := hw.stage_of
        rcases hstage with hs | ⟨e, hs⟩ <;> rw [hs] at this <;> cases this
      · rcases hstage with hs | ⟨e, hs⟩ <;> rw [hs] at hr <;> cases hr
      · rcases hstage with hs | ⟨e, hs⟩ <;> rw [hs] at he <;> cases he
      · rw [hret] at hr
        cases hr
    · rw [setCall_of_ne _ _ hi] at hd
      exact h.sound i d hd

/-! ## One step -/

/-- A step that leaves the queue as it is. -/
theorem Async.Orderly.of {s t : Async} (h : s.Orderly notices)
    (hq : t.Queued notices s.cause s.queue)
    (hp : t.pendingCommands = s.pendingCommands) (ht : t.task = .dead ↔ s.task = .dead)
    (hn : t.task = .nothingPending false → s.queue = [])
    (hk : ∀ kind, t.task = .notified (some kind) → notices kind) : t.Orderly notices := by
  have hcause : t.cause = s.cause := by rw [Async.cause, hp]; rfl
  have hqueue : t.queue = s.queue := by rw [Async.queue, hp]; rfl
  exact ⟨by rwa [hcause, hqueue], by rw [hcause]; exact ht.trans h.closed,
    by rw [hcause]; exact h.fatal, by rwa [hqueue], hk⟩

/-- One call changes its stage or gets its result. -/
theorem Async.Orderly.setCall {s : Async} {i : Nat} {c c' : Call} (h : s.Orderly notices)
    (hc : s.calls i = some c) (hs : c'.Sound notices s.cause s.queue i) :
    (s.setCall i c').Orderly notices :=
  h.of (h.queued.setCall hc h.queued.nodup (fun _ _ => Iff.rfl) hs) rfl Iff.rfl h.nothing h.heard

theorem Async.Orderly.effects {s s' : Async} {fx : Effects} (h : s.Orderly notices)
    (hs : s.effects fx = some s') : s'.Orderly notices := by
  have hq := h.queued.effects hs
  obtain ⟨calls, -, rfl⟩ := effects_cases hs
  exact h.of hq rfl Iff.rfl h.nothing h.heard

theorem Async.Orderly.issue {s s' : Async} {kind : AsyncKind} {res : SharedResult} {fx : Effects}
    (h : s.Orderly notices) (hs : s.issue kind res fx = some s') : s'.Orderly notices := by
  simp only [Async.issue] at hs
  refine Async.Orderly.effects (h.of (h.queued.issued ?_ rfl rfl) rfl Iff.rfl h.nothing h.heard) hs
  rcases res with e | ⟨⟩
  · exact .inr ⟨e, rfl⟩
  · exact .inl rfl

/-- The call of a step of its `async fn`, before `ret_rx.await`. -/
theorem Call.Sound.of_early {cause : Option Error} {l : List Nat} {i : Nat} {c : Call}
    (h : c.Sound notices cause l i) (he : c.stage.early = true) :
    c.ret = none ∧ c.taken = false ∧ i ∉ l := by
  refine ⟨h.early he, h.untaken (h.early he), fun hi => ?_⟩
  rw [(h.queued.mp hi).stage_of] at he
  cases he

theorem Async.check_cases {s s' : Async} {i : Nat} (h : s.Orderly notices)
    (hs : s.check i = some s') :
    ∃ c c', s.calls i = some c ∧ s' = s.setCall i c' ∧
      (c.ret = none ∧ c.taken = false ∧ i ∉ s.queue) ∧ c'.Sound notices s.cause s.queue i ∧
      (c'.stage = .checked → c.completionPredicate s.handle (.ok ()) = some (false, c) ∧
        c' = { c with stage := .checked }) := by
  simp only [Async.check] at hs
  cases hc : s.calls i with
  | none => simp [hc] at hs
  | some c =>
    simp only [hc] at hs
    split at hs
    next hstage =>
      have hsound := h.queued.sound i c hc
      obtain ⟨hret, htaken, hi⟩ := hsound.of_early (by rw [hstage]; rfl)
      rcases completionPredicate_cases s.handle (.ok ()) s.cause hret
        htaken (fun e he => by cases he) with hp | ⟨taken, r, hp, htruth⟩
      · rw [hp] at hs
        cases hs
        refine ⟨c, _, rfl, rfl, ⟨hret, htaken, hi⟩,
          ⟨⟨fun hm => absurd hm hi, fun hw => ?_⟩, fun _ => hret, fun r hr => (by cases hr),
            fun e he => (by cases he), fun _ => htaken, hsound.truth⟩, fun _ => ⟨hp, rfl⟩⟩
        have := hw.stage_of
        cases this
      · rw [hp] at hs
        cases hs
        refine ⟨c, _, rfl, rfl, ⟨hret, htaken, hi⟩,
          ⟨⟨fun hm => absurd hm hi, fun hw => ?_⟩, fun he => (by cases he), fun r hr => (by cases hr),
            fun e he => (by cases he), fun hr => (by cases hr), fun r' hr => ?_⟩,
          fun he => (by cases he)⟩
        · exact absurd hw.2 (by simp)
        · cases hr
          exact htruth
    next => cases hs

theorem Async.Orderly.check {s s' : Async} {i : Nat} (h : s.Orderly notices)
    (hs : s.check i = some s') : s'.Orderly notices := by
  obtain ⟨c, c', hc, rfl, -, hsound, -⟩ := Async.check_cases h hs
  exact h.setCall hc hsound

/-- The polling task is about to call the predicates. -/
def Task.looks (t : Task) : Prop := (∃ res, t = .notified res) ∨ ∃ e, t = .failing e

theorem notifyOne_frame (s : Async) :
    s.notifyOne.calls = s.calls ∧ s.notifyOne.next = s.next ∧ s.notifyOne.handle = s.handle ∧
      s.notifyOne.panicked = s.panicked ∧ s.notifyOne.pendingCommands = s.pendingCommands ∧
      (s.notifyOne.task = .dead ↔ s.task = .dead) ∧
      s.notifyOne.task ≠ .nothingPending false ∧ (s.notifyOne.task.looks ↔ s.task.looks) ∧
      ∀ res, s.notifyOne.task = .notified res → s.task = .notified res := by
  cases ht : s.task with
  | noDirection woken => cases woken <;> simp [Async.notifyOne, ht, Task.looks]
  | nothingPending woken => cases woken <;> simp [Async.notifyOne, ht, Task.looks]
  | _ => simp [Async.notifyOne, ht, Task.looks]

/-- `add_command` under the lock: the call is refused with the error of the
polling task, or its predicate is queued and the polling task notified. -/
theorem Async.register_cases {s s' : Async} {i : Nat} (hs : s.register i = some s') :
    ∃ c, s.calls i = some c ∧ c.stage = .checked ∧
      ((∃ e, s.pendingCommands = .error e ∧ s' = s.setCall i { c with stage := .refused e }) ∨
        ∃ l, s.pendingCommands = .ok l ∧
          s' = { (s.setCall i { c with stage := .awaiting }).notifyOne with
            pendingCommands := .ok (l ++ [i]) }) := by
  simp only [Async.register] at hs
  cases hc : s.calls i with
  | none => simp [hc] at hs
  | some c =>
    simp only [hc] at hs
    split at hs
    next hstage =>
      refine ⟨c, rfl, hstage, ?_⟩
      cases hp : s.pendingCommands with
      | error e =>
        simp only [hp, Option.some.injEq] at hs
        exact .inl ⟨e, rfl, hs.symm⟩
      | ok l =>
        simp only [hp, Option.some.injEq] at hs
        exact .inr ⟨l, rfl, hs.symm⟩
    next => cases hs

theorem Async.Orderly.register {s s' : Async} {i : Nat} (h : s.Orderly notices)
    (hs : s.register i = some s') : s'.Orderly notices := by
  obtain ⟨c, hc, hstage, ⟨e, hp, rfl⟩ | ⟨l, hp, rfl⟩⟩ := Async.register_cases hs
  all_goals
    have hsound := h.queued.sound i c hc
    obtain ⟨hret, htaken, hi⟩ := hsound.of_early (by rw [hstage]; rfl)
  · refine h.setCall hc ⟨⟨fun hm => absurd hm hi, fun hw => ?_⟩, fun _ => hret,
      fun r hr => (by cases hr), fun e' he => ?_, fun _ => htaken, hsound.truth⟩
    · have := hw.stage_of
      cases this
    · cases he
      rw [Async.cause, hp]
  · have hqueue : s.queue = l := by rw [Async.queue, hp]
    have hcause : s.cause = none := by rw [Async.cause, hp]
    have hq := h.queued
    rw [hqueue, hcause] at hq hsound
    rw [hqueue] at hi
    obtain ⟨hcalls, hnext, -, hpan, -, hdead, hnot, -, hheard⟩ :=
      notifyOne_frame (s.setCall i { c with stage := .awaiting })
    refine ⟨?_, ?_, fun e he => (by cases he), fun hn => absurd hn hnot,
      fun kind hk => h.heard kind (hheard _ hk)⟩
    · have hset : (s.setCall i { c with stage := .awaiting }).Queued notices none (l ++ [i]) := by
        refine hq.setCall hc ?_ (fun j hj => by simp [hj]) ⟨?_, fun he => (by cases he),
          fun r hr => (by cases hr), fun e he => (by cases he), fun _ => htaken, hsound.truth⟩
        · simpa [List.nodup_append] using ⟨hq.nodup, fun j hj => fun he => hi (he ▸ hj)⟩
        · exact ⟨fun _ => ⟨.inl rfl, hret⟩, fun _ => by simp⟩
      exact hset.congr hcalls hnext hpan
    · change (s.setCall i _).notifyOne.task = .dead ↔ (none : Option Error) ≠ none
      have hclosed := h.closed
      rw [hcause] at hclosed
      exact hdead.trans hclosed

/-- A future that is polled is ready or blocked: its predicate is not lost. -/
theorem Async.resume_cases {s s' : Async} {i : Nat} (h : s.Orderly notices)
    (hs : s.resume i = some s') :
    ∃ c ret, s.calls i = some c ∧ c.stage = .awaiting ∧ c.ret = some ret ∧
      s' = s.setCall i { c with stage := .returned ret } := by
  simp only [Async.resume] at hs
  cases hc : s.calls i with
  | none => simp [hc] at hs
  | some c =>
    simp only [hc] at hs
    split at hs
    next hstage =>
      cases hret : c.ret with
      | none =>
        have hi : i ∈ s.queue := (h.queued.sound i c hc).queued.mpr ⟨.inl hstage, hret⟩
        simp [hret, hi] at hs
      | some ret =>
        simp only [hret, Option.some.injEq] at hs
        exact ⟨c, ret, rfl, hstage, hret, by rw [hret]; exact hs.symm⟩
    next => cases hs

theorem Async.Orderly.resume {s s' : Async} {i : Nat} (h : s.Orderly notices)
    (hs : s.resume i = some s') : s'.Orderly notices := by
  obtain ⟨c, ret, hc, hstage, hret, rfl⟩ := Async.resume_cases h hs
  have hsound := h.queued.sound i c hc
  refine h.setCall hc ⟨⟨fun hm => ?_, fun hw => ?_⟩, fun he => (by cases he), fun r hr => ?_,
    fun e he => (by cases he), hsound.untaken, hsound.truth⟩
  · have := (hsound.queued.mp hm).2
    rw [hret] at this
    cases this
  · have := hw.stage_of
    exact absurd hw.2 (by simp [hret])
  · cases hr
    exact hret

theorem Async.drop_cases {s s' : Async} {i : Nat} (hs : s.drop i = some s') :
    ∃ c, s.calls i = some c ∧ c.stage = .awaiting ∧
      s' = s.setCall i { c with stage := .dropped } := by
  simp only [Async.drop] at hs
  cases hc : s.calls i with
  | none => simp [hc] at hs
  | some c =>
    simp only [hc] at hs
    split at hs
    next hstage => exact ⟨c, rfl, hstage, (Option.some.inj hs).symm⟩
    next => cases hs

theorem Async.Orderly.drop {s s' : Async} {i : Nat} (h : s.Orderly notices)
    (hs : s.drop i = some s') : s'.Orderly notices := by
  obtain ⟨c, hc, hstage, rfl⟩ := Async.drop_cases hs
  have hsound := h.queued.sound i c hc
  refine h.setCall hc ⟨hsound.queued.trans ?_, fun he => (by cases he), fun r hr => (by cases hr),
    fun e he => (by cases he), hsound.untaken, hsound.truth⟩
  simp [Call.waits, hstage]

/-- The queue is open until the polling task is dead. -/
theorem Async.Orderly.open_ {s : Async} (h : s.Orderly notices) (ht : s.task ≠ .dead) :
    ∃ l, s.pendingCommands = .ok l := by
  cases hp : s.pendingCommands with
  | ok l => exact ⟨l, rfl⟩
  | error e =>
    refine absurd (h.closed.mpr ?_) ht
    rw [Async.cause, hp]
    simp

/-- The polling task is not between `aio_notify_*` and the predicates. -/
def Task.quiet : Task → Bool
  | .notified _ | .failing _ | .dead => false
  | _ => true

/-- The polling task only moves on. -/
def Async.Moved (s s' : Async) : Prop :=
  ∃ t b, s' = { s with task := t, newCommand := b } ∧ s.task.quiet = true ∧ t ≠ .dead ∧
    (t = .nothingPending false → s.queue = []) ∧ ∀ res, t ≠ .notified res

theorem Async.moved {s : Async} {t₀ : Task} (ht : s.task = t₀) (h₀ : t₀.quiet = true) (t : Task)
    (b : Bool) (h₁ : t ≠ .dead) (hq : t = .nothingPending false → s.queue = [])
    (hk : ∀ res, t ≠ .notified res) : s.Moved { s with task := t, newCommand := b } :=
  ⟨t, b, rfl, ht ▸ h₀, h₁, hq, hk⟩

/-- A step of the polling task moves it, lets the C library work, scans the queue
or closes it. -/
theorem Async.taskStep_cases {s s' : Async} {e : Event} (h : s.Orderly notices)
    (hs : s.taskStep e = some s') :
    s.Moved s' ∨
      (∃ res fx u t, e = .ready (.notify res fx) ∧ s.task = .polling ∧ s.effects fx = some u ∧
        s' = { u with task := t } ∧ ((∃ r, t = .notified r ∧ recoverableResult r = res) ∨ ∃ e, t = .failing e)) ∨
      (∃ res l, s.task = .notified res ∧ s.pendingCommands = .ok l ∧
        s' = { (retain (Async.visit (recoverableResult res)) l.length 0 l s).2 with
          pendingCommands := .ok (retain (Async.visit (recoverableResult res)) l.length 0 l s).1
          task := .rearming }) ∨
      ∃ e l, s.task = .failing e ∧ s.pendingCommands = .ok l ∧
        s' = { l.foldl (fun s i => (s.visit (.error (.fatal e)) i).2) s with
          pendingCommands := .error (.fatal e), task := .dead } := by
  cases e with
  | start fd setup =>
    simp only [Async.taskStep] at hs
    split at hs
    next ht =>
      left
      split at hs <;> cases hs <;> exact Async.moved ht rfl _ _ (by simp) (by simp) (by simp)
    next => cases hs
  | direction wanted =>
    simp only [Async.taskStep] at hs
    split at hs
    next ht =>
      left
      cases wanted <;> cases hs
      · exact Async.moved ht rfl (.noDirection s.newCommand) _ (by simp) (by simp) (by simp)
      · exact Async.moved ht rfl .looking _ (by simp) (by simp) (by simp)
    next => cases hs
  | look =>
    simp only [Async.taskStep] at hs
    split at hs
    next ht =>
      left
      obtain ⟨l, hl⟩ := h.open_ (by simp [ht])
      split at hs
      next e he =>
        rw [hl] at he
        cases he
      next he =>
        cases hs
        exact Async.moved ht rfl (.nothingPending s.newCommand) _ (by simp)
          (fun _ => by rw [Async.queue, he]) (by simp)
      next =>
        cases hs
        exact Async.moved ht rfl .polling _ (by simp) (by simp) (by simp)
    next => cases hs
  | wake =>
    simp only [Async.taskStep] at hs
    split at hs
    next ht =>
      left
      cases hs
      rcases ht with ht | ht <;> exact Async.moved ht rfl _ _ (by simp) (by simp) (by simp)
    next => cases hs
  | ready r =>
    simp only [Async.taskStep] at hs
    split at hs
    next ht =>
      cases r with
      | ioError err =>
        cases hs
        exact .inl (Async.moved ht rfl _ _ (by simp) (by simp) (by simp))
      | mismatch =>
        cases hs
        exact .inl (Async.moved ht rfl _ _ (by simp) (by simp) (by simp))
      | notify res fx =>
        obtain ⟨u, hu, rfl⟩ := Option.map_eq_some_iff.mp hs
        right
        left
        rcases res with (kind | e) | ⟨⟩
        · exact ⟨_, fx, u, .notified (some kind), rfl, ht, hu, rfl, .inl ⟨_, rfl, rfl⟩⟩
        · exact ⟨_, fx, u, .failing e, rfl, ht, hu, rfl, .inr ⟨_, rfl⟩⟩
        · exact ⟨_, fx, u, .notified none, rfl, ht, hu, rfl, .inl ⟨_, rfl, rfl⟩⟩
    next => cases hs
  | scan =>
    simp only [Async.taskStep] at hs
    split at hs
    next res ht =>
      obtain ⟨l, hl⟩ := h.open_ (by simp [ht])
      rw [hl] at hs
      cases hs
      exact .inr (.inr (.inl ⟨res, l, ht, hl, rfl⟩))
    next => cases hs
  | rearm res =>
    simp only [Async.taskStep] at hs
    split at hs
    next ht =>
      left
      split at hs <;> cases hs <;> exact Async.moved ht rfl _ _ (by simp) (by simp) (by simp)
    next => cases hs
  | die =>
    simp only [Async.taskStep] at hs
    split at hs
    next e ht =>
      obtain ⟨l, hl⟩ := h.open_ (by simp [ht])
      rw [hl] at hs
      cases hs
      exact .inr (.inr (.inr ⟨e, l, ht, hl, rfl⟩))
    next => cases hs

theorem recoverableResult_justified {res : Option ErrorKind} {cause : Option Error} {e : Error}
    (hk : ∀ kind, res = some kind → notices kind) (h : recoverableResult res = .error e) :
    Justified notices cause e := by
  cases res with
  | none => cases h
  | some kind =>
    cases h
    exact hk kind rfl

theorem Async.Orderly.task {s s' : Async} {e : Event} (h : s.Orderly notices)
    (hnote : ∀ kind fx, e = .ready (.notify (.error (.recoverable kind)) fx) → notices kind)
    (hs : s.taskStep e = some s') : s'.Orderly notices := by
  obtain ⟨t, b, rfl, h₀, h₁, hn, hk⟩ | ⟨res, fx, u, t, rfl, ht, hu, rfl, hk⟩ |
    ⟨res, l, ht, hl, rfl⟩ | ⟨e, l, ht, hl, rfl⟩ := Async.taskStep_cases h hs
  · refine h.of (h.queued.congr rfl rfl rfl) rfl ⟨fun hd => absurd hd h₁, fun hd => ?_⟩ hn
      fun kind hkind => absurd hkind (hk _)
    rw [hd] at h₀
    cases h₀
  · have hq := h.effects hu
    obtain ⟨calls, -, rfl⟩ := effects_cases hu
    refine hq.of (hq.queued.congr rfl rfl rfl) rfl ?_ ?_ fun kind hkind => ?_
    · rcases hk with ⟨r, rfl, -⟩ | ⟨e, rfl⟩ <;> simp [ht]
    · rcases hk with ⟨r, rfl, -⟩ | ⟨e, rfl⟩ <;> simp
    · obtain ⟨r, rfl, hres⟩ | ⟨e, rfl⟩ := hk
      · cases hkind
        exact hnote kind fx (by rw [← hres]; rfl)
      · cases hkind
  all_goals
    have hqueue : s.queue = l := by rw [Async.queue, hl]
    have hcause : s.cause = none := by rw [Async.cause, hl]
    have hq := h.queued
    rw [hqueue, hcause] at hq
  · obtain ⟨hscan, -, -⟩ := hq.scan (recoverableResult res)
      fun e => recoverableResult_justified fun kind hkind => h.heard kind (hkind ▸ ht)
    refine ⟨hscan.congr rfl rfl rfl, ?_, fun e he => (by cases he), fun hn => (by cases hn),
      fun kind hk => (by cases hk)⟩
    exact ⟨fun hd => (by cases hd), fun hd => absurd rfl hd⟩
  · obtain ⟨hdie, -⟩ := (hq.mono (.fatal e)).die
    refine ⟨hdie.congr rfl rfl rfl, ?_, fun e' he => ?_, fun hn => (by cases hn),
      fun kind hk => (by cases hk)⟩
    · exact ⟨fun _ => (by simp [Async.cause]), fun _ => rfl⟩
    · cases he
      rfl

/-- The recoverable errors that the notifications of a run have returned. -/
def Notices (ls : List Label) (kind : ErrorKind) : Prop :=
  ∃ fx, Label.task (.ready (.notify (.error (.recoverable kind)) fx)) ∈ ls

theorem Async.Orderly.step {s s' : Async} {l : Label} {ls : List Label}
    (h : s.Orderly (Notices ls)) (hl : l ∈ ls) (hs : s.step l = some s') :
    s'.Orderly (Notices ls) := by
  cases l with
  | issue kind res fx => exact h.issue hs
  | check i => exact h.check hs
  | register i => exact h.register hs
  | resume i => exact h.resume hs
  | drop i => exact h.drop hs
  | other fx => exact h.effects hs
  | task e => exact h.task (fun kind fx he => ⟨fx, he ▸ hl⟩) hs

theorem orderly_new (v : View) : (Async.new v).Orderly notices where
  queued := ⟨rfl, fun _ _ => rfl, List.nodup_nil, fun i hi => (by cases hi),
    fun i c hc => (by cases hc)⟩
  closed := ⟨fun h => (by cases h), fun h => absurd rfl h⟩
  fatal e he := by cases he
  nothing h := by cases h
  heard kind h := by cases h

end Libnbd.Rust
