import Libnbd.Payloads
import Libnbd.Ownership

/-!
Commands that are rejected.

A call can fail in the wrapper, in `nbd_unlocked_aio_*` or in
`nbd_internal_command_common`. Up to the last of them the wrapper frees the
closures, from then on `nbd_internal_command_common` does. The id list of a
filtered block status changes hands as well, but `nbd_internal_command_common`
looks at it only behind its first checks: a request that these reject leaves the
list to nobody.
-/

namespace Libnbd

open Lib

/-! ## The id list -/

/-- Where the id list of a filtered block status is when the call returns: never
allocated, freed, with the queued command, or lost. -/
inductive IdList where
  | absent | freed | queued | lost
  deriving DecidableEq, Repr

/-- `nbd_internal_command_common` has got to `ids = data`. -/
def Request.takesIds (h : Handle) (r : Request) : Bool :=
  !h.disconnectRequest && h.q.inFlight != intMax && (r.boundsError h).isNone

/-- The list in the hands of `nbd_internal_command_common`, whose error path frees it
through the variable `ids`. -/
def Request.idList (h : Handle) (r : Request) (alloc : Nat → Bool) : IdList :=
  if r.error h alloc = none then .queued else if r.takesIds h then .freed else .lost

/-- The list in `nbd_unlocked_aio_block_status_filter`, which frees it at `fail`. -/
def filterList (inp : Input) (h : Handle) (filter : List CString) (flags : UInt32) (r : Request) :
    IdList :=
  if (checkAioBlockStatus h).isSome || (filterError h flags).isSome || !inp.alloc 2 then .absent
  else if !inp.alloc 3 || (filterIds h filter).isNone then .freed
  else r.idList h inp.alloc

/-- The wrapper of the call has let it through. -/
def Call.passes (h : Handle) (call : Call) : Bool :=
  h.state.isConnected && call.argError.isNone &&
    !(call.flags &&& (0xffffffff ^^^ call.flagMask) != 0 &&
      (h.isStrict strictFlags || decide (call.flags > 0xffff)))

/-- Where the id list of a call ends up. -/
def Call.idList (inp : Input) (h : Handle) : Call → IdList
  | .aioBlockStatusFilter count offset filter extent64 completion flags =>
    let call := Call.aioBlockStatusFilter count offset filter extent64 completion flags
    if call.passes h then filterList inp h filter flags (callRequest h call) else .absent
  | _ => .absent

/-- A filtered block status that is fine but for the first checks of
`nbd_internal_command_common`. -/
def LosesIds (inp : Input) (h : Handle) (call : Call) : Prop :=
  (∃ count offset filter extent64 completion flags,
    call = .aioBlockStatusFilter count offset filter extent64 completion flags) ∧
    callError inp h call = none ∧
    (h.disconnectRequest = true ∨ h.q.inFlight = intMax ∨
      ((callRequest h call).boundsError h).isSome = true)

variable {inp : Input} {h : Handle} {call : Call}

theorem callError_eq_none : callError inp h call = none ↔
    call.passes h = true ∧ unlockedError inp h call = none := by
  unfold callError Call.passes
  generalize (call.flags &&& (0xffffffff ^^^ call.flagMask) != 0 &&
    (h.isStrict strictFlags || decide (call.flags > 0xffff))) = bad
  cases h.state.isConnected with
  | false => simp
  | true => cases bad <;> simp [Option.isNone_iff_eq_none]

theorem unlockedError_filter {count offset : UInt64} {filter : List CString}
    {extent64 completion : Closure} {flags : UInt32} :
    unlockedError inp h (.aioBlockStatusFilter count offset filter extent64 completion flags) = none ↔
      ((checkAioBlockStatus h).isSome || (filterError h flags).isSome || !inp.alloc 2) = false ∧
        (!inp.alloc 3 || (filterIds h filter).isNone) = false := by
  simp only [unlockedError, Option.or_eq_none_iff]
  cases checkAioBlockStatus h <;> cases filterError h flags <;> cases inp.alloc 2 <;>
    cases inp.alloc 3 <;> cases filterIds h filter <;> simp

theorem Request.takesIds_eq_false {r : Request} : r.takesIds h = false ↔
    h.disconnectRequest = true ∨ h.q.inFlight = intMax ∨ (r.boundsError h).isSome = true := by
  unfold Request.takesIds
  cases h.disconnectRequest <;> simp [Option.isSome_iff_ne_none]
  tauto

theorem Request.error_of_not_takesIds {r : Request} {alloc : Nat → Bool}
    (ht : r.takesIds h = false) : r.error h alloc ≠ none := by
  unfold Request.error
  rcases Request.takesIds_eq_false.mp ht with hd | hi | hb
  · simp [hd]
  · split
    · exact nofun
    · simp
  · obtain ⟨e, he⟩ := Option.isSome_iff_exists.mp hb
    split
    · exact nofun
    · split
      · exact nofun
      · simp [he]

/-- The list is lost exactly there. -/
theorem idList_lost : call.idList inp h = .lost ↔ LosesIds inp h call := by
  cases call with
  | aioBlockStatusFilter count offset filter extent64 completion flags =>
    simp only [Call.idList, LosesIds, callError_eq_none, unlockedError_filter]
    generalize callRequest h (.aioBlockStatusFilter count offset filter extent64 completion flags) = r
    generalize Call.passes h (.aioBlockStatusFilter count offset filter extent64 completion flags) =
      passed
    rw [← Request.takesIds_eq_false]
    unfold filterList Request.idList
    constructor
    · intro hl
      refine ⟨⟨_, _, _, _, _, _, rfl⟩, ?_⟩
      split_ifs at hl with h₁ h₂ h₃ h₄ h₅
      exact ⟨⟨h₁, eq_false_of_ne_true h₂, eq_false_of_ne_true h₃⟩, eq_false_of_ne_true h₅⟩
    · rintro ⟨-, ⟨h₁, h₂, h₃⟩, h₅⟩
      have h₄ : r.error h inp.alloc ≠ none := Request.error_of_not_takesIds h₅
      simp [h₁, h₂, h₃, h₄, h₅]
  | _ => simp [Call.idList, LosesIds]

/-! ## What the run loop frees -/

/-- The closures of a call that no command has taken over are freed. -/
def Event.isReject (e : Event) : Bool := e == .rejectFn || e == .rejectCompletion

def rejections (trace : List Event) : List Event := trace.filter Event.isReject

theorem rejections_append (es fs : List Event) :
    rejections (es ++ fs) = rejections es ++ rejections fs := List.filter_append ..

theorem rejections_same {t es : List Event} (hes : ∀ e ∈ es, e.isReject = false) :
    rejections (t ++ es) = rejections t := by
  have hnil : rejections es = [] := by simpa [rejections, List.filter_eq_nil_iff] using hes
  rw [rejections_append, hnil, List.append_nil]

theorem rejections_of_ending {t t' : List Event} (h : Ending t t') : rejections t' = rejections t := by
  obtain ⟨es, rfl, hes⟩ := h
  refine rejections_same fun e he => ?_
  have := hes e he
  cases e <;> first | rfl | cases this

theorem abortAll_rejections {h' : Handle} (hinv : h.book.Inv) (ht : Tails h)
    (hok : abortAll inp h = .ok h') : rejections h'.trace = rejections h.trace := by
  obtain ⟨h₁, h₂, h₃, hok₁, hok₂, hok₃, -, -, htr, -⟩ := abortAll_ok inp hinv ht
  obtain rfl : h₃ = h' := Except.ok.inj (hok₃.symm.trans hok)
  have e₁ := rejections_of_ending (abortCommands_ending hok₁)
  have e₂ := rejections_of_ending (abortCommands_ending hok₂)
  rw [htr, e₂]
  exact e₁

/-- The run loop does not touch them. -/
theorem enter_rejections (inp : Input) {h : Handle} (hinv : h.book.Inv) (ht : Tails h) :
    (enter inp h).All fun h' => rejections h'.trace = rejections h.trace := by
  rcases h.state.kinds with hs | hs | hs | hs | hs | hs
  · refine (enter_quiet inp hs).mono fun h' hq => ?_
    obtain ⟨es, htr, hes, -⟩ := hq.trace
    rw [htr]
    refine rejections_same fun e he => ?_
    obtain ⟨c, -, hm⟩ := hes e he
    cases e <;> first | rfl | cases hm
  · exact (enter_sends inp hs).mono fun h' hq => by rw [hq.eq]
  · simp only [enter, hs, enterIssueFinish]
    refine require_all fun _ => ?_
    split
    · trivial
    · refine require_all fun _ => ?_
      simp only [Handle.log, goto, Outcome.All, rejections_append]
      exact List.append_nil _
  · simp only [enter, hs]
    cases hf : Handle.findCmd h.replyCookie h.q.cmdsInFlight with
    | none =>
      unfold enterReplyFinishCommand
      simp only [hf]
      exact require_all fun _ => rfl
    | some cmd =>
      have halive : h.alive := by
        constructor <;> (intro he; rw [hs] at he; cases he)
      obtain ⟨h', hfin, heq⟩ := finishCommand_ok inp hinv ht halive hf
      rw [heq]
      refine require_all fun _ => require_all fun _ => ?_
      obtain ⟨pre, post, cmd', retire, -, -, hb⟩ := hfin.book
      have htr : h'.trace = _ := congrArg Book.trace hb
      change rejections h'.trace = _
      rw [htr]
      refine rejections_of_ending ⟨_, rfl, fun e he => ?_⟩
      rcases List.mem_append.mp he with he | he
      · rcases List.mem_append.mp he with he | he
        · unfold completionEvents at he
          split at he
          · cases List.mem_singleton.mp he
            rfl
          · cases he
        · cases List.mem_singleton.mp he
          rfl
      · split at he
        · exact ending_retireAndFree cmd e he
        · cases he
  · obtain ⟨-, -, h', -, -, hok, -⟩ := abortAll_ok inp hinv ht
    simp only [enter, hs, enterDead, hok]
    exact require_all fun _ => abortAll_rejections hinv ht hok
  · obtain ⟨-, -, h', -, -, hok, -⟩ := abortAll_ok inp hinv ht
    simp only [enter, hs, enterClosed, hok]
    exact abortAll_rejections hinv ht hok

/-- **Run.** -/
theorem exec_rejections {c c' : Config} {ls : List Label} (hs : Sound c)
    (hls : ∀ l ∈ ls, ∃ inp, l = .enter inp) (he : machine.exec c ls = some c') :
    rejections c'.h.trace = rejections c.h.trace ∧ ∃ es, c'.h.trace = c.h.trace ++ es := by
  induction ls generalizing c with
  | nil =>
    cases he
    exact ⟨rfl, [], (List.append_nil _).symm⟩
  | cons l ls ih =>
    obtain ⟨t, ht, hrest⟩ := Option.bind_eq_some_iff.mp he
    obtain ⟨inp, rfl⟩ := hls l List.mem_cons_self
    have hstep : step c (.enter inp) = some t := ht
    obtain ⟨inp', after, hl, -, rfl⟩ | ⟨api, inp', r', hl, -⟩ := step_cases hstep
    · cases hl
      have hs' := ((step_refines hs hstep).resolve_left enter_not_closed).sound
      obtain ⟨hrej, es, htr⟩ := ih hs' (fun l hl => hls l (List.mem_cons_of_mem _ hl)) hrest
      have hone : rejections (stepEnter inp after c.h).h.trace = rejections c.h.trace :=
        stepEnter_all after (enter_rejections inp hs.inv hs.tails) rfl fun _ _ hp => hp
      obtain ⟨fs, hfs⟩ := step_trace_append hs hstep
      exact ⟨hrej.trans hone, fs ++ es, by rw [htr, hfs, List.append_assoc]⟩
    · cases hl

/-! ## The whole call -/

/-- The call has left no trace but that its closures are freed, each once. -/
structure NoTrace (h h' : Handle) (call : Call) : Prop where
  queues : h'.q = h.q
  state : h'.state = h.state
  freed : ∃ es, h'.trace = h.trace ++ es ∧ (∀ e ∈ es, e.isReject = true) ∧
    es.count .rejectFn = (if call.fn.free then 1 else 0) ∧
    es.count .rejectCompletion = if call.completion.free then 1 else 0

theorem NoTrace.of_rejectEvents {h' : Handle} (hq : h'.q = h.q) (hs : h'.state = h.state)
    (htr : h'.trace = h.trace ++ rejectEvents call.fn call.completion) : NoTrace h h' call := by
  refine ⟨hq, hs, _, htr, fun e he => ?_, ?_, ?_⟩
  · rcases rejectEvents_mem e he with rfl | rfl <;> rfl
  · unfold rejectEvents
    cases call.fn.free <;> cases call.completion.free <;> rfl
  · unfold rejectEvents
    cases call.fn.free <;> cases call.completion.free <;> rfl

/-- What a call makes of its closures: all of them freed if it is rejected; otherwise
those of the new command are freed only if the command is retired. -/
def Accounts (inp : Input) (h : Handle) (call : Call) (r : Int) (h' : Handle) : Prop :=
  if r = -1 then NoTrace h h' call ∧ call.idList inp h ≠ .lost
  else r = h.q.unique ∧ ∃ es, h'.trace = h.trace ++ es ∧ rejections es = [] ∧
    (.freeFn h.q.unique ∈ es ∨ .freeCompletion h.q.unique ∈ es → .retire h.q.unique ∈ es)

theorem callRequest_callbacks (h : Handle) (call : Call) :
    (callRequest h call).fn = call.fn ∧ (callRequest h call).completion = call.completion := by
  cases call <;> exact ⟨rfl, rfl⟩

/-- How a call ends: rejected, or accepted under the next cookie. -/
theorem submit_ends (inp : Input) (call : Call) (hinv : h.book.Inv) (ht : Tails h) (hi : Idle h) :
    (∃ h', (submit inp h call = .refused h' ∨ submit inp h call = .rejected h') ∧
      NoTrace h h' call) ∨
    ∃ h' cmd run, submit inp h call = .accepted h' run ∧ cmd.cookie = h.q.unique ∧
      h'.trace = h.trace ++ [Event.accept cmd] ∧ ¬ LosesIds inp h call := by
  obtain ⟨m, hm⟩ := sanitize_eq h call
  unfold submit
  simp only [hm]
  split
  · exact .inl ⟨_, .inl rfl, .of_rejectEvents rfl rfl rfl⟩
  · rename_i hok
    have hconn := connected_of_callError hok
    unfold commandCommon
    split
    · obtain ⟨hfn, hcompletion⟩ := callRequest_callbacks { h with mem := m } call
      refine .inl ⟨_, .inr rfl, .of_rejectEvents rfl rfl ?_⟩
      simp only [Handle.log, Handle.setError]
      rw [hfn, hcompletion]
    · rename_i herr
      rw [enqueue_eq (h := { h with mem := m }) _ hinv ⟨ht.toIssue, ht.done⟩ hconn hi]
      refine .inr ⟨_, _, _, rfl, rfl, rfl, ?_⟩
      rintro ⟨⟨count, offset, filter, extent64, completion, flags, rfl⟩, -, hl⟩
      have hout : (callRequest { h with mem := m }
          (.aioBlockStatusFilter count offset filter extent64 completion flags)).takesIds
            { h with mem := m } = false := Request.takesIds_eq_false.mpr hl
      exact Request.error_of_not_takesIds hout herr

theorem cookie_ne_neg_one (k : Nat) : ((k : Nat) : Int) ≠ -1 := by omega

/-- Free functions of a command that is still on a list have not been called. -/
theorem retired_of_freed {c : Config} (hs : Sound c) (hl : Life c.h.book) {k : Nat}
    (hk : k ∈ acceptedCookies c.h.trace)
    (hf : .freeFn k ∈ c.h.trace ∨ .freeCompletion k ∈ c.h.trace) : .retire k ∈ c.h.trace := by
  have hout : k ∉ c.h.book.cookies := by
    intro hin
    obtain ⟨cmd, hmem, rfl⟩ := List.mem_map.mp hin
    -- the calls made for a command that is on a list are no free functions
    have hcalls : ∀ e ∈ calls cmd.cookie c.h.trace, e.midOf = some cmd.cookie ∨
        ∃ err, e = .completion cmd.cookie err := by
      intro e he
      rcases List.mem_append.mp (show cmd ∈ (c.h.book.toIssue ++ c.h.book.inFlight) ++ c.h.book.done
        from hmem) with hp | hd
      · exact .inl (hl.pending cmd hp e he)
      · obtain ⟨mids, err, hm, heq⟩ := hl.done cmd hd
        rw [show calls cmd.cookie c.h.trace = _ from heq] at he
        rcases List.mem_append.mp he with he | he
        · exact .inl (hm e he)
        · unfold completionEvents at he
          split at he
          · exact .inr ⟨err, List.mem_singleton.mp he⟩
          · cases he
    rcases hf with hf | hf
    · rcases hcalls _ (List.mem_filter.mpr ⟨hf, by simp [Event.callOf]⟩) with h | ⟨_, h⟩ <;> cases h
    · rcases hcalls _ (List.mem_filter.mpr ⟨hf, by simp [Event.callOf]⟩) with h | ⟨_, h⟩ <;> cases h
  have hret : k ∈ retiredCookies c.h.trace := by
    by_contra hno
    exact hout ((hs.inv.mem_commands_iff k).mpr ⟨hk, hno⟩)
  obtain ⟨e, he, hek⟩ := List.mem_filterMap.mp hret
  cases e <;> simp at hek
  rw [← hek]
  exact he

theorem filterIds_lastError (e : Option (UInt32 × String)) (names : List CString) :
    filterIds { h with lastError := e } names = filterIds h names := by
  induction names with
  | nil => rfl
  | cons name names ih => simp only [filterIds, ih]

/-- The last error of the thread has no say in where the list ends up. -/
theorem idList_lastError (e : Option (UInt32 × String)) :
    call.idList inp { h with lastError := e } = call.idList inp h := by
  cases call with
  | aioBlockStatusFilter =>
    simp only [Call.idList, filterList, callRequest, filterIds_lastError]
    rfl
  | _ => rfl

theorem losesIds_lastError (e : Option (UInt32 × String)) :
    LosesIds inp { h with lastError := e } call ↔ LosesIds inp h call := by
  rw [← idList_lost, ← idList_lost, idList_lastError]

/-- Up to the run loop: the call returns -1 at once, or the command is queued. -/
theorem call_ends {c c₁ : Config} (hs : Sound c)
    (hcall : step c (.call (.command call) inp) = some c₁) :
    (c₁.ctl = .idle (-1) ∧ NoTrace c.h c₁.h call) ∨
    ((c₁.ctl = .running (.command c.h.q.unique) ∨ c₁.ctl = .idle c.h.q.unique) ∧
      (∃ cmd, cmd.cookie = c.h.q.unique ∧ c₁.h.trace = c.h.trace ++ [Event.accept cmd]) ∧
      ¬ LosesIds inp c.h call) := by
  obtain ⟨_, _, h, -⟩ | ⟨api, inp', r, hl, hidle, rfl⟩ := step_cases hcall
  · cases h
  cases hl
  have hi : Idle { c.h with lastError := inp.lastError } := hs.idle r hidle
  obtain ⟨h', hsub, hno⟩ | ⟨h', cmd, run, hsub, hck, htr, hl⟩ :=
    submit_ends inp (h := { c.h with lastError := inp.lastError }) call hs.inv
      ⟨hs.tails.toIssue, hs.tails.done⟩ hi
  · refine .inl ?_
    rcases hsub with hsub | hsub <;>
      simp only [apiCall, hsub, afterSubmit, true_and] <;> exact ⟨hno.queues, hno.state, hno.freed⟩
  · refine .inr ?_
    rw [losesIds_lastError] at hl
    cases run with
    | false =>
      rw [apiCall, hsub]
      exact ⟨.inr rfl, ⟨cmd, hck, htr⟩, hl⟩
    | true =>
      simp only [apiCall, hsub, afterSubmit, startRun]
      split
      · exact ⟨.inl rfl, ⟨cmd, hck, htr⟩, hl⟩
      · exact ⟨.inr rfl, ⟨cmd, hck, htr⟩, hl⟩

/-- An idle handle does not enter the run loop. -/
theorem exec_of_idle {c c' : Config} {ls : List Label} {r : Int} (hi : c.ctl = .idle r)
    (hls : ∀ l ∈ ls, ∃ i, l = .enter i) (hrun : machine.exec c ls = some c') : c' = c := by
  cases ls with
  | nil => exact (Option.some.inj hrun).symm
  | cons l ls =>
    obtain ⟨i, rfl⟩ := hls l List.mem_cons_self
    obtain ⟨t, ht, -⟩ := Option.bind_eq_some_iff.mp hrun
    simp [machine, step, hi] at ht

/-- **A rejected command leaves no trace**: whatever a command call finds, the queues,
the counters and the state are as before when it returns -1, no callback has been
called, and its closures are freed, each once; when it returns a cookie, the closures
are freed only with the command. The id list of a filtered block status is released
as well, unless the first checks of `nbd_internal_command_common` reject it. -/
theorem command_accounts_iff {c c₁ c₂ : Config} {call : Call} {inp : Input} {ls : List Label}
    {r : Int} (hc : machine.Reachable c) (hcall : machine.step c (.call (.command call) inp) = some c₁)
    (hls : ∀ l ∈ ls, ∃ i, l = .enter i) (hrun : machine.exec c₁ ls = some c₂)
    (hret : c₂.ctl = .idle r) :
    Accounts inp c.h call r c₂.h ↔ ¬ LosesIds inp c.h call := by
  have hopen : c.ctl ≠ .closed := by
    intro hcl
    simp [machine, step, hcl] at hcall
  obtain ⟨hs, hlife⟩ := (reachable_life hc).resolve_left hopen
  obtain ⟨hidle, hno⟩ | ⟨hctl, ⟨cmd, hck, htr₁⟩, hl⟩ := call_ends hs hcall
  · obtain rfl := exec_of_idle hidle hls hrun
    rw [hidle] at hret
    cases hret
    rw [← idList_lost]
    simp only [Accounts, if_pos]
    exact and_iff_right hno
  · have hr : r = c.h.q.unique := exec_returns hls hctl hrun hret
    have hne : r ≠ -1 := by rw [hr]; exact cookie_ne_neg_one _
    simp only [Accounts, if_neg hne]
    refine iff_of_true ⟨hr, ?_⟩ hl
    have hc₁ : machine.Reachable c₁ := System.Reachable.step machine hc hcall
    have hs₁ : Sound c₁ := (reachable_sound hc₁).resolve_left (by
      rcases hctl with h | h <;> (rw [h]; simp))
    obtain ⟨hrej, es, htr₂⟩ := exec_rejections hs₁ hls hrun
    have htr : c₂.h.trace = c.h.trace ++ ([Event.accept cmd] ++ es) := by
      rw [htr₂, htr₁, List.append_assoc]
    refine ⟨_, htr, ?_, fun hf => ?_⟩
    · rw [htr₂, rejections_append] at hrej
      rw [rejections_append, List.append_eq_nil_iff]
      exact ⟨rfl, List.append_right_eq_self.mp hrej⟩
    · -- the cookie is new, so nothing before the call bears it
      have hc₂ : machine.Reachable c₂ := System.Reachable.exec machine hc₁ hrun
      obtain ⟨hs₂, hlife₂⟩ := (reachable_life hc₂).resolve_left (by rw [hret]; simp)
      have hk : c.h.q.unique ∈ acceptedCookies c₂.h.trace := by
        rw [← hck]
        exact mem_acceptedCookies (by rw [htr]; simp)
      have hret₂ := retired_of_freed hs₂ hlife₂ hk (by
        rw [htr]
        exact hf.imp (List.mem_append_right _) (List.mem_append_right _))
      rw [htr] at hret₂
      refine (List.mem_append.mp hret₂).resolve_left fun hold => ?_
      have hold' : c.h.q.unique ∈ retiredCookies c.h.trace :=
        List.mem_filterMap.mpr ⟨_, hold, rfl⟩
      have hacc := hs.inv.perm.subset (List.mem_append_right c.h.book.cookies hold')
      exact Nat.lt_irrefl _ (hs.inv.range _ hacc).2

/-- Ask for a context that has not been negotiated. -/
def askUnknown : Call := .aioBlockStatusFilter 4096 0 [[99]] ⟨true, true⟩ ⟨true, true⟩ 0

theorem command_accounts_unknown :
    ∃ c, machine.step (.ofExport .filtered) (.call (.command askUnknown) .calm) = some c ∧
      c.ctl = .idle (-1) ∧ Accounts .calm (Config.ofExport .filtered).h askUnknown (-1) c.h := by
  have hstep : (machine.step (.ofExport .filtered) (.call (.command askUnknown) .calm)).map
      Config.ctl = some (.idle (-1)) := by decide +kernel
  obtain ⟨c, hcall, hctl⟩ := Option.map_eq_some_iff.mp hstep
  refine ⟨c, hcall, hctl, ?_⟩
  refine (command_accounts_iff ⟨_, [], Config.initial_ofExport _, rfl⟩ hcall (by simp)
    (show machine.exec _ [] = _ from rfl) hctl).mpr ?_
  rw [← idList_lost]
  decide +kernel

/-- Ask for a range behind the end of the export. -/
def askBeyond : Call := .aioBlockStatusFilter 4096 0x10000000000 [[98]] ⟨true, true⟩ ⟨true, true⟩ 0

theorem beyond_loses_ids :
    ¬ ∀ c c₁ c₂ call inp ls r, machine.Reachable c →
      machine.step c (.call (.command call) inp) = some c₁ → (∀ l ∈ ls, ∃ i, l = Label.enter i) →
      machine.exec c₁ ls = some c₂ → c₂.ctl = .idle r → Accounts inp c.h call r c₂.h := by
  intro hall
  have hstep : (machine.step (.ofExport .filtered) (.call (.command askBeyond) .calm)).map
      Config.ctl = some (.idle (-1)) := by decide +kernel
  obtain ⟨c, hcall, hctl⟩ := Option.map_eq_some_iff.mp hstep
  have hacc := hall _ _ _ _ _ [] _ ⟨_, [], Config.initial_ofExport _, rfl⟩ hcall (by simp) rfl hctl
  exact hacc.2 (by decide +kernel)

end Libnbd
