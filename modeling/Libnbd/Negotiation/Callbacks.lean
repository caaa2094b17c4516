import Libnbd.Negotiation.Effect

/-!
The callbacks of an option call.

The trace tells for every accepted option call when its list or context callback
and its completion callback were called and when its closures were freed.
`option_callbacks_complete` says that whenever the machine rests in `NEGOTIATING`,
`READY`, `CLOSED` or `DEAD`, these events are exactly the ones a caller may
expect, in that order, and that `h->opt_cb` holds nothing.
-/

namespace Libnbd.Negotiation

open Lib

/-! ## The events of one option call -/

/-- The option call that an event belongs to. -/
def Event.optionId : Event → Option Nat
  | accept id _ _ _ | list id _ _ | context id _ | completion id _ | freeFn id
  | freeCompletion id => some id
  | _ => none

def optionEvents (id : Nat) (trace : List Event) : List Event :=
  trace.filter fun e => e.optionId == some id

/-- Calls of the list or context callback. -/
def Event.isReport : Event → Bool
  | list _ _ _ | context _ _ => true
  | _ => false

/-- The end of an option: the completion callback, then the closures are freed. -/
def endEvents (id : Nat) (fn completion : Closure) (err : UInt32) : List Event :=
  (if completion.callback then [Event.completion id err] else []) ++
    (if fn.free then [Event.freeFn id] else []) ++
    (if completion.free then [Event.freeCompletion id] else [])

/-- Calls of the closure `fn`. -/
structure Reports (fn : Closure) (reports : List Event) : Prop where
  isReport : ∀ e ∈ reports, e.isReport = true
  callback : reports ≠ [] → fn.callback = true

/-- Everything has happened that the caller of option `id` may expect: reports,
then one call of the completion callback, then each closure is freed once. -/
def Completed (id : Nat) (opt : Opt) (fn completion : Closure) (trace : List Event) : Prop :=
  ∃ reports err, Reports fn reports ∧
    optionEvents id trace =
      .accept id opt fn completion :: reports ++ endEvents id fn completion err

/-- The option is in progress, and its closures are those in `h->opt_cb`. -/
def InProgress (v : View) (id : Nat) (opt : Opt) (fn completion : Closure) : Prop :=
  v.optCb = ⟨id, fn, completion⟩ ∧
    ∃ reports, Reports fn reports ∧
      optionEvents id v.trace = .accept id opt fn completion :: reports

def View.released (v : View) : Prop :=
  v.optCb.fn.isNull = true ∧ v.optCb.completion.isNull = true

/-- Every accepted option is in progress or completed, and `h->opt_cb` holds
nothing of a completed one. -/
structure Tracked (v : View) : Prop where
  current : v.optCb.id < v.nextId
  known : ∀ e ∈ v.trace, ∀ id, e.optionId = some id → id < v.nextId
  options : ∀ id opt fn completion, .accept id opt fn completion ∈ v.trace →
    InProgress v id opt fn completion ∨
      Completed id opt fn completion v.trace ∧ (v.optCb.id = id → v.released)

/-! ## Appending events -/

section Append

variable {id : Nat} {opt : Opt} {fn completion : Closure} {trace es : List Event} {v : View}

theorem Closure.eq_null {c : Closure} (h : c.isNull = true) : c = .null := by
  obtain ⟨callback, free⟩ := c
  simp only [Closure.isNull, Bool.and_eq_true, Bool.not_eq_true'] at h
  rw [show callback = false from h.1, show free = false from h.2]
  rfl

theorem optionEvents_append (id : Nat) (t es : List Event) :
    optionEvents id (t ++ es) = optionEvents id t ++ optionEvents id es :=
  List.filter_append _ _

/-- Events of other options or of none. -/
theorem optionEvents_eq_nil (h : ∀ e ∈ es, e.optionId ≠ some id) : optionEvents id es = [] := by
  simpa [optionEvents] using h

theorem optionEvents_eq_self (h : ∀ e ∈ es, e.optionId = some id) : optionEvents id es = es := by
  simpa [optionEvents] using h

theorem mem_accept_append (hes : ∀ e ∈ es, ∀ i o f k, e ≠ .accept i o f k) :
    .accept id opt fn completion ∈ trace ++ es → .accept id opt fn completion ∈ trace := by
  intro h
  rcases List.mem_append.mp h with h | h
  · exact h
  · exact absurd rfl (hes _ h _ _ _ _)

theorem Completed.append (hc : Completed id opt fn completion trace)
    (hes : ∀ e ∈ es, e.optionId ≠ some id) : Completed id opt fn completion (trace ++ es) := by
  obtain ⟨reports, err, hr, he⟩ := hc
  refine ⟨reports, err, hr, ?_⟩
  rw [optionEvents_append, optionEvents_eq_nil hes, List.append_nil, he]

theorem endEvents_id {err : UInt32} : ∀ e ∈ endEvents id fn completion err, e.optionId = some id := by
  intro e he
  simp only [endEvents, List.mem_append] at he
  rcases he with (he | he) | he <;> split at he <;> simp_all [Event.optionId]

/-- Nothing is left to do for an option without closures. -/
theorem InProgress.completed (hp : InProgress v id opt fn completion) (hr : v.released) :
    Completed id opt fn completion v.trace := by
  obtain ⟨hcb, reports, hrep, he⟩ := hp
  obtain ⟨hfn, hcomp⟩ := hr
  rw [hcb] at hfn hcomp
  have hfn' : fn = .null := Closure.eq_null hfn
  have hcomp' : completion = .null := Closure.eq_null hcomp
  subst hfn' hcomp'
  have hnil : reports = [] := by
    by_contra hne
    exact absurd (hrep.callback hne) nofun
  subst hnil
  exact ⟨[], 0, hrep, by simpa [endEvents, Closure.null] using he⟩

end Append

/-! ## What the effects do -/

variable {v v' : View} {h : Handle}

/-- The trace grows by events of no option, and the callbacks stay. -/
theorem Tracked.silent (ht : Tracked v) (es : List Event) (hes : ∀ e ∈ es, e.optionId = none)
    (hcb : v'.optCb = v.optCb) (hid : v'.nextId = v.nextId) (htr : v'.trace = v.trace ++ es) :
    Tracked v' := by
  have hne : ∀ id : Nat, ∀ e ∈ es, e.optionId ≠ some id := by
    intro id e he
    rw [hes e he]
    exact nofun
  have hrel : v'.released ↔ v.released := by simp only [View.released, hcb]
  refine ⟨by rw [hcb, hid]; exact ht.current, ?_, ?_⟩
  · intro e he id hid'
    rw [htr] at he
    rw [hid]
    rcases List.mem_append.mp he with he | he
    · exact ht.known e he id hid'
    · exact absurd hid' (hne id e he)
  · intro id opt fn completion hm
    rw [htr] at hm
    have hm' := mem_accept_append (fun e he i o f k heq => by
      have := hes e he
      rw [heq] at this
      cases this) hm
    rcases ht.options id opt fn completion hm' with ⟨hv, reports, hr, he⟩ | ⟨hc, hr⟩
    · refine .inl ⟨hcb.trans hv, reports, hr, ?_⟩
      rw [htr, optionEvents_append, optionEvents_eq_nil (hne id), List.append_nil, he]
    · refine .inr ⟨?_, fun hi => hrel.mpr (hr (by rw [← hcb]; exact hi))⟩
      rw [htr]
      exact hc.append (hne id)

/-- The list or context callback is called. -/
theorem Tracked.report (ht : Tracked v) {e : Event} (hid : e.optionId = some v.optCb.id)
    (hrep : e.isReport = true) (hfn : v.optCb.fn.callback = true) (hcb : v'.optCb = v.optCb)
    (hid' : v'.nextId = v.nextId) (htr : v'.trace = v.trace ++ [e]) : Tracked v' := by
  have hrel : ¬ v.released := by
    intro hr
    have := hr.1
    simp [Closure.isNull, hfn] at this
  refine ⟨by rw [hcb, hid']; exact ht.current, ?_, ?_⟩
  · intro e' he id hi
    rw [htr] at he
    rw [hid']
    rcases List.mem_append.mp he with he | he
    · exact ht.known e' he id hi
    · cases List.mem_singleton.mp he
      rw [hid] at hi
      cases hi
      exact ht.current
  · intro id opt fn completion hm
    rw [htr] at hm
    have hm' := mem_accept_append (fun e' he i o f k heq => by
      cases List.mem_singleton.mp he
      rw [heq] at hrep
      cases hrep) hm
    rcases ht.options id opt fn completion hm' with ⟨hv, reports, hr, he⟩ | ⟨hc, hr⟩
    · refine .inl ⟨hcb.trans hv, reports ++ [e], ⟨?_, ?_⟩, ?_⟩
      · intro e' he'
        rcases List.mem_append.mp he' with he' | he'
        · exact hr.isReport e' he'
        · cases List.mem_singleton.mp he'
          exact hrep
      · intro _
        rw [hv] at hfn
        exact hfn
      · rw [htr, optionEvents_append, he, optionEvents_eq_self]
        · rfl
        · intro e' he'
          cases List.mem_singleton.mp he'
          rw [hid, hv]
    · have hne : v.optCb.id ≠ id := fun hi => hrel (hr hi)
      refine .inr ⟨?_, fun hi => absurd (by rw [← hcb]; exact hi) hne⟩
      rw [htr]
      refine hc.append fun e' he' => ?_
      cases List.mem_singleton.mp he'
      rw [hid]
      exact fun h => hne (Option.some.inj h)

theorem complete_trace (v : View) (err : UInt32) (hf : v.optCb.fn.isNull = false → v.freesFn = true) :
    (v.complete err).trace = v.trace ++ endEvents v.optCb.id v.optCb.fn v.optCb.completion err ∧
      (v.complete err).released := by
  cases hfr : v.freesFn with
  | true =>
    simp [View.complete, View.released, endEvents, hfr, Closure.isNull, Closure.null]
  | false =>
    have hnull : v.optCb.fn.isNull = true := by
      by_contra hne
      rw [hf (eq_false_of_ne_true hne)] at hfr
      cases hfr
    have hnull' := Closure.eq_null hnull
    simp [View.complete, View.released, endEvents, hfr, hnull', Closure.isNull, Closure.null]

/-- The option is completed and freed. -/
theorem Tracked.complete (ht : Tracked v) (err : UInt32)
    (hf : v.optCb.fn.isNull = false → v.freesFn = true) : Tracked (v.complete err) := by
  obtain ⟨htr, hrel⟩ := complete_trace v err hf
  refine ⟨ht.current, ?_, ?_⟩
  · intro e he id hi
    rw [htr] at he
    show id < v.nextId
    rcases List.mem_append.mp he with he | he
    · exact ht.known e he id hi
    · rw [endEvents_id e he] at hi
      cases hi
      exact ht.current
  · intro id opt fn completion hm
    rw [htr] at hm
    have hm' := mem_accept_append (fun e he i o f k heq => by
      rw [heq] at he
      simp only [endEvents, List.mem_append] at he
      rcases he with (he | he) | he <;> split at he <;> simp at he) hm
    refine .inr ⟨?_, fun _ => hrel⟩
    rw [htr]
    rcases ht.options id opt fn completion hm' with ⟨hv, reports, hr, he⟩ | ⟨hc, hr⟩
    · refine ⟨reports, err, hr, ?_⟩
      rw [optionEvents_append, he, hv, optionEvents_eq_self endEvents_id]
    · by_cases hi : v.optCb.id = id
      · -- nothing is left in `h->opt_cb`, so nothing happens
        obtain ⟨hfn, hcomp⟩ := hr hi
        rw [Closure.eq_null hfn, Closure.eq_null hcomp]
        simpa [endEvents, Closure.null] using hc
      · refine hc.append fun e he => ?_
        rw [endEvents_id e he]
        exact fun h => hi (Option.some.inj h)

/-- An option call is accepted after the one before it was released. -/
theorem Tracked.accept (ht : Tracked v) (hr : v.released) (opt : Opt) (fn : Option Closure)
    (completion : Closure) :
    Tracked { v with
      optCurrent := some opt
      optCb := { id := v.nextId, fn := fn.getD v.optCb.fn, completion := completion }
      nextId := v.nextId + 1
      trace := v.trace ++ [Event.accept v.nextId opt (fn.getD .null) completion] } := by
  have hnew : optionEvents v.nextId v.trace = [] :=
    optionEvents_eq_nil fun e he hi => Nat.lt_irrefl _ (ht.known e he _ hi)
  refine ⟨Nat.lt_succ_self _, ?_, ?_⟩
  · intro e he id hi
    rcases List.mem_append.mp he with he | he
    · exact Nat.lt_succ_of_lt (ht.known e he id hi)
    · cases List.mem_singleton.mp he
      cases hi
      exact Nat.lt_succ_self _
  · intro id opt' fn' completion' hm
    rcases List.mem_append.mp hm with hm | hm
    · have hlt : id < v.nextId := ht.known _ hm id rfl
      have hc : Completed id opt' fn' completion' v.trace := by
        rcases ht.options id opt' fn' completion' hm with hp | ⟨hc, -⟩
        · exact hp.completed hr
        · exact hc
      refine .inr ⟨hc.append fun e he => ?_, fun hi => absurd hi (Nat.ne_of_gt hlt)⟩
      cases List.mem_singleton.mp he
      exact fun h => Nat.ne_of_gt hlt (Option.some.inj h)
    · cases List.mem_singleton.mp hm
      refine .inl ⟨?_, [], ⟨nofun, fun h => absurd rfl h⟩, ?_⟩
      · cases fn with
        | some f => rfl
        | none => simp [Closure.eq_null hr.1]
      · rw [optionEvents_append, hnew, optionEvents_eq_self]
        · rfl
        · intro e he
          cases List.mem_singleton.mp he
          rfl

theorem Change.silent {s : State} (hc : Change v s v') :
    (∃ es, (∀ e ∈ es, Event.optionId e = none) ∧ v'.trace = v.trace ++ es) ∧ v'.optCb = v.optCb ∧
      v'.nextId = v.nextId ∧ v'.freesFn = v.freesFn := by
  have hnone : ∀ e : Event, e.optionId = none → v'.trace = v.trace ++ [e] →
      ∃ es, (∀ e ∈ es, Event.optionId e = none) ∧ v'.trace = v.trace ++ es := by
    intro e he htr
    exact ⟨[e], fun e' he' => by cases List.mem_singleton.mp he'; exact he, htr⟩
  have hnil : v'.trace = v.trace → ∃ es, (∀ e ∈ es, Event.optionId e = none) ∧
      v'.trace = v.trace ++ es := fun h => ⟨[], nofun, by rw [h, List.append_nil]⟩
  cases hc with
  | move => exact ⟨hnil rfl, rfl, rfl, rfl⟩
  | listing => exact ⟨hnil rfl, rfl, rfl, rfl⟩
  | exportName => exact ⟨hnil rfl, rfl, rfl, rfl⟩
  | fallback => exact ⟨hnil rfl, rfl, rfl, rfl⟩
  | named => exact ⟨hnil rfl, rfl, rfl, rfl⟩
  | unasked => exact ⟨hnil rfl, rfl, rfl, rfl⟩
  | gflags => exact ⟨hnil rfl, rfl, rfl, rfl⟩
  | described => exact ⟨hnil rfl, rfl, rfl, rfl⟩
  | structured => exact ⟨hnil rfl, rfl, rfl, rfl⟩
  | tlsAck => exact ⟨hnone _ rfl rfl, rfl, rfl, rfl⟩
  | skipped => exact ⟨hnone _ rfl rfl, rfl, rfl, rfl⟩
  | reset => exact ⟨hnil rfl, rfl, rfl, rfl⟩
  | resetSkipped => exact ⟨hnone _ rfl rfl, rfl, rfl, rfl⟩
  | requested => exact ⟨hnone _ rfl rfl, rfl, rfl, rfl⟩
  | acked => exact ⟨hnone _ rfl rfl, rfl, rfl, rfl⟩
  | refused => exact ⟨hnone _ rfl rfl, rfl, rfl, rfl⟩
  | passedOver => exact ⟨hnone _ rfl rfl, rfl, rfl, rfl⟩
  | goFailed => exact ⟨hnone _ rfl rfl, rfl, rfl, rfl⟩
  | current hd hn => exact ⟨hnil rfl, rfl, rfl, by simp [View.freesFn, hn]⟩

theorem Tracked.change (ht : Tracked v) {s : State} (hc : Change v s v') : Tracked v' := by
  obtain ⟨⟨es, hes, htr⟩, hcb, hid, -⟩ := hc.silent
  exact ht.silent es hes hcb hid htr

theorem Tracked.reported (ht : Tracked v) {e : Event} (hid : e.optionId = some v.optCb.id)
    (hrep : e.isReport = true) : Tracked (v.log (if v.optCb.fn.callback then [e] else [])) := by
  split
  · rename_i hfn
    exact ht.report hid hrep hfn rfl rfl rfl
  · exact ht.silent [] nofun rfl rfl rfl

theorem Tracked.inState (ht : Tracked v) (s : State) : Tracked { v with state := s } :=
  ⟨ht.current, ht.known, ht.options⟩

theorem effect_tracked (hS : RunShape h) (ht : Tracked h.view) (he : Effect h.view v) :
    Tracked v := by
  have hf : h.view.optCb.fn.isNull = false → h.view.freesFn = true := hS.shape.frees
  cases he with
  | change s v₁ hc => exact (ht.change hc).inState s
  | complete err s v₁ hc _ =>
    obtain ⟨-, hcb, -, hfr⟩ := hc.silent
    refine ((ht.change hc).complete err fun hn => ?_).inState s
    rw [hfr]
    rw [hcb] at hn
    exact hf hn
  | list name description _ =>
    exact (ht.reported (e := .list h.optCb.id name description) rfl rfl).inState _
  | context name s _ _ =>
    exact (ht.reported (e := .context h.optCb.id name) rfl rfl).inState s
  | kept name id _ _ =>
    have h₁ := ht.reported (e := .context h.optCb.id name) rfl rfl
    refine Tracked.silent h₁ [.metaContext name id] ?_ rfl rfl rfl
    intro e he
    cases List.mem_singleton.mp he
    rfl

theorem call_tracked (hR : RestShape h) (ht : Tracked h.view) (hc : CallEffect h.view v) :
    Tracked v := by
  cases hc with
  | same => exact ht
  | configure cfg fixed _ _ => exact ht.silent [] nofun rfl rfl (List.append_nil _).symm
  | rename name _ =>
    refine ht.silent [.rename name] ?_ rfl rfl rfl
    intro e he
    cases List.mem_singleton.mp he
    rfl
  | accept opt fn completion hs =>
    have hq := hR.shape.quiet (by rw [show h.state = .negotiating from hs]; rfl)
    simp only [Core.released, Bool.and_eq_true] at hq
    exact ht.accept hq opt fn completion
  | abort _ => exact ht.silent [] nofun rfl rfl (List.append_nil _).symm

theorem reachable_tracked {c : Config} (hc : machine.Reachable c) : Tracked c.h.view := by
  refine reachable_view (I := Tracked) (fun h v hS ht he => effect_tracked hS ht he)
    (fun h v hR ht he => call_tracked hR ht he)
    (fun v s ht _ => ht.inState s) ?_ hc
  intro sbuf
  exact ⟨Nat.zero_lt_one, nofun, nofun⟩

/-! ## The lifecycle -/

/-- The machine has reached `NEGOTIATING` or `READY`, or has returned in `CLOSED`
or `DEAD`. -/
def Config.Settled (c : Config) : Prop :=
  match c.ctl with
  | .running _ => c.h.state = .negotiating ∨ c.h.state = .ready
  | .idle _ => c.h.state = .negotiating ∨ c.h.state = .ready ∨ c.h.state = .closed ∨
      c.h.state = .dead
  | .aborted _ => False

theorem released_of_settled {c : Config} (hc : machine.Reachable c) (hs : c.Settled) :
    c.h.view.released := by
  have hS := reachable_shape hc
  have hrel : c.h.core.released = true → c.h.view.released := by
    intro h
    simp only [Core.released, Bool.and_eq_true] at h
    exact h
  obtain ⟨h, ctl⟩ := c
  apply hrel
  have hquiet : ∀ s, Shape h.core s → s = .negotiating ∨ s = .ready → h.core.released = true := by
    rintro s h₁ (rfl | rfl)
    · exact h₁.quiet rfl
    · exact h₁.quiet rfl
  cases ctl with
  | running keep =>
    have hR : RunShape h := hS
    exact hquiet _ hR.shape hs
  | idle ret =>
    have hR : RestShape h := hS
    rcases hs with hs | hs | hs | hs
    · exact hquiet _ hR.shape (.inl hs)
    · exact hquiet _ hR.shape (.inr hs)
    · exact hR.ended (.inr hs)
    · exact hR.ended (.inl hs)
  | aborted a => cases hs

end Libnbd.Negotiation
