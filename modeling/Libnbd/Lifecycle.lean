import Libnbd.Conservation

/-!
Lifecycle of the closures of a command.

`calls k trace` are the calls into the caller's closures of the command with
cookie `k`. They come in one shape: chunk or extent callbacks, the completion
callback, the two free functions. `Life` follows a prefix of that shape from
list to list.
-/

namespace Libnbd

open Lib Relation

/-- The command whose closures an event calls. -/
def Event.callOf : Event → Option Nat
  | .chunk k .. | .extent k .. | .completion k _ | .freeFn k | .freeCompletion k => some k
  | _ => none

def calls (k : Nat) (trace : List Event) : List Event :=
  trace.filter fun e => e.callOf == some k

/-- Only chunk and extent callbacks of `k`. -/
def OnlyMid (k : Nat) (es : List Event) : Prop := ∀ e ∈ es, e.midOf = some k

/-- **Lifecycle**: chunk or extent callbacks, then the completion callback once,
then each free function once; what the caller left null is not called. -/
def Lifecycle (cmd : Command) (trace : List Event) : Prop :=
  ∃ mids err, OnlyMid cmd.cookie mids ∧
    calls cmd.cookie trace = mids ++
      (if cmd.completion.callback then [Event.completion cmd.cookie err] else []) ++
      (if cmd.fn.free then [Event.freeFn cmd.cookie] else []) ++
      (if cmd.completion.free then [Event.freeCompletion cmd.cookie] else [])

@[simp] theorem calls_append (k : Nat) (es fs : List Event) :
    calls k (es ++ fs) = calls k es ++ calls k fs := List.filter_append ..

theorem calls_eq_nil {k : Nat} {es : List Event} (h : ∀ e ∈ es, e.callOf ≠ some k) :
    calls k es = [] := by
  simpa [calls, List.filter_eq_nil_iff] using h

theorem calls_eq_self {k : Nat} {es : List Event} (h : ∀ e ∈ es, e.callOf = some k) :
    calls k es = es := by
  simpa [calls, List.filter_eq_self] using h

theorem midOf_callOf {e : Event} {k : Nat} (h : e.midOf = some k) : e.callOf = some k := by
  cases e <;> simp_all [Event.midOf, Event.callOf]

theorem callOf_completionEvents {cmd : Command} {err : UInt32} :
    ∀ e ∈ completionEvents cmd err, e.callOf = some cmd.cookie := by
  unfold completionEvents
  split <;> simp [Event.callOf]

theorem callOf_freeEvents {cmd : Command} : ∀ e ∈ freeEvents cmd, e.callOf = some cmd.cookie := by
  intro e he
  unfold freeEvents at he
  rcases List.mem_append.mp he with he | he
  · split at he <;> simp_all [Event.callOf]
  · split at he <;> simp_all [Event.callOf]

theorem calls_completionEvents (cmd : Command) (err : UInt32) (k : Nat) :
    calls k (completionEvents cmd err) =
      if cmd.cookie = k then completionEvents cmd err else [] := by
  split
  · rename_i hk
    exact calls_eq_self fun e he => hk ▸ callOf_completionEvents e he
  · rename_i hk
    exact calls_eq_nil fun e he => by simpa [callOf_completionEvents e he] using hk

theorem calls_retireAndFree (cmd : Command) (k : Nat) :
    calls k (retireAndFreeCommand cmd) = if cmd.cookie = k then freeEvents cmd else [] := by
  have hlast : calls k [Event.retire cmd.cookie] = [] := rfl
  rw [retireAndFreeCommand_eq, calls_append, hlast, List.append_nil]
  split
  · rename_i hk
    exact calls_eq_self fun e he => hk ▸ callOf_freeEvents e he
  · rename_i hk
    exact calls_eq_nil fun e he => by simpa [callOf_freeEvents e he] using hk

/-- Free functions are called for the closures that the type of the command has;
the others are null. -/
theorem freeEvents_eq {cmd : Command} (hc : cmd.ClosuresOk) :
    freeEvents cmd = (if cmd.fn.free then [Event.freeFn cmd.cookie] else []) ++
      (if cmd.completion.free then [Event.freeCompletion cmd.cookie] else []) := by
  unfold freeEvents
  by_cases ht : cmd.type = .blockStatus ∨ cmd.type = .read
  · simp [ht]
  · have hnull : cmd.fn = .null := hc.1 (fun h => ht (.inr h)) (fun h => ht (.inl h))
    simp [ht, hnull, Closure.null]

theorem completionEvents_from {c₀ c : Command} (h : c₀.From c) (err : UInt32) :
    completionEvents c err = completionEvents c₀ err := by
  rw [h]
  rfl

theorem freeEvents_from {c₀ c : Command} (h : c₀.From c) : freeEvents c = freeEvents c₀ := by
  rw [h]
  rfl

/-! ## Accepted commands -/

/-- A cookie belongs to one accepted command. -/
theorem Book.Inv.accept_inj {b : Book} (hb : b.Inv) {c d : Command}
    (hc : Event.accept c ∈ b.trace) (hd : Event.accept d ∈ b.trace) (hk : c.cookie = d.cookie) :
    c = d := by
  have hnd : ((accepted b.trace).map Command.cookie).Nodup := by
    rw [← acceptedCookies_eq]
    exact hb.sorted.imp Nat.ne_of_lt
  exact List.inj_on_of_nodup_map hnd (mem_accepted.mpr hc) (mem_accepted.mpr hd) hk

/-- The accepted command that a command of the lists comes from. -/
theorem Book.Inv.from_accept {b : Book} (hb : b.Inv) {c cmd : Command} (hc : c ∈ b.commands)
    (ha : Event.accept cmd ∈ b.trace) (hk : c.cookie = cmd.cookie) : cmd.From c := by
  obtain ⟨c₀, h₀, hf⟩ := hb.origin c hc
  have hk₀ : c.cookie = c₀.cookie := by rw [hf]
  rw [hb.accept_inj ha h₀ (hk.symm.trans hk₀)]
  exact hf

/-! ## The invariant -/

structure Life (b : Book) : Prop where
  fresh : ∀ k, b.unique ≤ k → calls k b.trace = []
  pending : ∀ c ∈ b.toIssue ++ b.inFlight, OnlyMid c.cookie (calls c.cookie b.trace)
  done : ∀ c ∈ b.done, ∃ mids err, OnlyMid c.cookie mids ∧
    calls c.cookie b.trace = mids ++ completionEvents c err
  retired : ∀ cmd, Event.accept cmd ∈ b.trace → cmd.cookie ∉ b.cookies →
    ∃ mids err, OnlyMid cmd.cookie mids ∧
      calls cmd.cookie b.trace = mids ++ completionEvents cmd err ++ freeEvents cmd

theorem life_empty : Life .empty where
  fresh := fun _ _ => rfl
  pending := by simp [Book.empty]
  done := by simp [Book.empty]
  retired := by simp [Book.empty]

section Step

variable {b : Book} (hl : Life b)

include hl

/-- Commands that move without a call into their closures. -/
theorem Life.silent {b' : Book} {es : List Event} (htrace : b'.trace = b.trace ++ es)
    (hes : ∀ e ∈ es, e.callOf = none) (hunique : b'.unique = b.unique)
    (hpending : ∀ c ∈ b'.toIssue ++ b'.inFlight, c ∈ b.toIssue ++ b.inFlight)
    (hdone : ∀ c ∈ b'.done, c ∈ b.done) (hcookies : ∀ k, k ∈ b'.cookies ↔ k ∈ b.cookies)
    (haccept : ∀ cmd, Event.accept cmd ∈ b'.trace → Event.accept cmd ∈ b.trace) : Life b' := by
  have hcalls : ∀ k, calls k b'.trace = calls k b.trace := by
    intro k
    have hnil : calls k es = [] := by
      refine calls_eq_nil fun e he => ?_
      rw [hes e he]
      exact nofun
    rw [htrace, calls_append, hnil, List.append_nil]
  constructor
  · intro k hk
    rw [hcalls]
    exact hl.fresh k (hunique ▸ hk)
  · intro c hc
    rw [hcalls]
    exact hl.pending c (hpending c hc)
  · intro c hc
    rw [hcalls]
    exact hl.done c (hdone c hc)
  · intro cmd ha hk
    rw [hcalls]
    exact hl.retired cmd (haccept cmd ha) (by rwa [← hcookies])

theorem Life.touch (hb : b.Inv) {cmds : List Command} {es : List Event}
    (ht : List.Forall₂ Command.Touched b.inFlight cmds)
    (hes : ∀ e ∈ es, ∃ c ∈ b.inFlight, e.midOf = some c.cookie) :
    Life { b with inFlight := cmds, trace := b.trace ++ es } := by
  -- a callback is for a command in flight, so calls of other cookies stay
  have hother : ∀ k, k ∉ b.inFlight.map Command.cookie → calls k es = [] := by
    intro k hk
    apply calls_eq_nil
    intro e he hcall
    obtain ⟨c, hc, hm⟩ := hes e he
    rw [midOf_callOf hm] at hcall
    exact hk (Option.some.inj hcall ▸ List.mem_map_of_mem hc)
  have hcookies : ({ b with inFlight := cmds, trace := b.trace ++ es } : Book).cookies =
      b.cookies := by
    simp only [Book.cookies, Book.commands, List.map_append, map_cookie_of_touched ht]
  have hnd := hb.nodup
  simp only [Book.cookies, Book.commands, List.map_append] at hnd
  constructor
  · intro k hk
    rw [calls_append, hl.fresh k hk, hother k, List.append_nil]
    intro hm
    obtain ⟨c, hc, rfl⟩ := List.mem_map.mp hm
    have hlt := (hb.mem_range (c := c) (by simp [Book.commands, hc])).2
    exact absurd hk (Nat.not_le_of_lt hlt)
  · intro c hc e he
    rw [calls_append] at he
    rcases List.mem_append.mp he with he | he
    · have hin : ∃ d ∈ b.toIssue ++ b.inFlight, d.cookie = c.cookie := by
        rcases List.mem_append.mp hc with hc | hc
        · exact ⟨c, by simp [hc], rfl⟩
        · obtain ⟨d, hd, hdc⟩ := exists_of_forall₂ ht c hc
          exact ⟨d, by simp [hd], hdc.cookie.symm⟩
      obtain ⟨d, hd, hk⟩ := hin
      exact hk ▸ hl.pending d hd e (by rw [hk]; exact he)
    · have hmem := List.mem_filter.mp he
      obtain ⟨d, -, hm⟩ := hes e hmem.1
      have hk : e.callOf = some c.cookie := by simpa using hmem.2
      rw [midOf_callOf hm] at hk
      rw [hm, hk]
  · intro c hc
    obtain ⟨mids, err, hm, heq⟩ := hl.done c hc
    refine ⟨mids, err, hm, ?_⟩
    rw [calls_append, heq, hother c.cookie, List.append_nil]
    intro hin
    exact (List.nodup_append.mp hnd).2.2 _ (List.mem_append_right _ hin) _
      (List.mem_map_of_mem hc) rfl
  · intro cmd ha hk
    rw [hcookies] at hk
    have ha' : Event.accept cmd ∈ b.trace := by
      rcases List.mem_append.mp ha with ha | ha
      · exact ha
      · obtain ⟨c, -, hm⟩ := hes _ ha
        cases hm
    obtain ⟨mids, err, hm, heq⟩ := hl.retired cmd ha' hk
    refine ⟨mids, err, hm, ?_⟩
    rw [calls_append, heq, hother cmd.cookie, List.append_nil]
    intro hin
    exact hk (by simp only [Book.cookies, Book.commands, List.map_append, List.mem_append]; tauto)

theorem Life.accept {cmd : Command} (hk : cmd.cookie = b.unique) :
    Life { b with toIssue := b.toIssue ++ [cmd], unique := b.unique + 1,
                  trace := b.trace ++ [Event.accept cmd] } := by
  have hcalls : ∀ k, calls k (b.trace ++ [Event.accept cmd]) = calls k b.trace := by
    intro k
    rw [calls_append]
    exact List.append_nil _
  constructor
  · intro k hk'
    rw [hcalls]
    exact hl.fresh k (Nat.le_of_succ_le hk')
  · intro c hc
    simp only [List.mem_append, List.mem_singleton] at hc
    rw [hcalls]
    rcases hc with (hc | rfl) | hc
    · exact hl.pending c (List.mem_append_left _ hc)
    · rw [hl.fresh c.cookie (Nat.le_of_eq hk.symm)]
      simp [OnlyMid]
    · exact hl.pending c (List.mem_append_right _ hc)
  · intro c hc
    rw [hcalls]
    exact hl.done c hc
  · intro d ha hd
    rw [hcalls]
    simp only [List.mem_append, List.mem_singleton, Event.accept.injEq] at ha
    simp only [Book.cookies, Book.commands, List.map_append, List.mem_append, List.map_cons,
      List.map_nil, List.mem_singleton, not_or] at hd
    rcases ha with ha | rfl
    · refine hl.retired d ha ?_
      simp only [Book.cookies, Book.commands, List.map_append, List.mem_append, not_or]
      tauto
    · exact absurd rfl hd.1.1.2

/-- Finishing or aborting: `b₀` is the book without the command. -/
theorem Life.settle (hb : b.Inv) {b₀ : Book} {cmd cmd' : Command} {err : UInt32} {retire : Bool}
    (htrace : b₀.trace = b.trace) (hunique : b₀.unique = b.unique) (hdone : b₀.done = b.done)
    (hperm : (cmd.cookie :: b₀.cookies).Perm b.cookies) (hmem : cmd ∈ b.toIssue ++ b.inFlight)
    (hsub : ∀ c ∈ b₀.toIssue ++ b₀.inFlight, c ∈ b.toIssue ++ b.inFlight)
    (hs : Settled cmd cmd' err retire) : Life (b₀.settle cmd cmd' err retire) := by
  have hcmd : cmd ∈ b.commands := List.mem_append_left _ hmem
  have hnd : (cmd.cookie :: b₀.cookies).Nodup := hperm.nodup_iff.mpr hb.nodup
  have hne : ∀ c ∈ b₀.commands, c.cookie ≠ cmd.cookie := by
    intro c hc hk
    exact (List.nodup_cons.mp hnd).1 (hk ▸ List.mem_map_of_mem hc)
  have hk' : cmd'.cookie = cmd.cookie := by rw [hs.same]
  -- what the step adds to the calls of `k`
  have hcalls : ∀ k, calls k (b₀.settle cmd cmd' err retire).trace = calls k b.trace ++
      if cmd.cookie = k then
        completionEvents cmd err ++ if retire then freeEvents cmd else []
      else [] := by
    intro k
    have hfin : calls k [Event.finish cmd.cookie] = [] := rfl
    simp only [Book.settle, htrace, calls_append, calls_completionEvents, hfin]
    cases retire
    · by_cases hk : cmd.cookie = k <;> simp [hk, calls]
    · simp only [if_true, calls_retireAndFree]
      by_cases hk : cmd.cookie = k <;> simp [hk]
  have hold : ∀ k, cmd.cookie ≠ k →
      calls k (b₀.settle cmd cmd' err retire).trace = calls k b.trace := by
    intro k hk
    rw [hcalls, if_neg hk, List.append_nil]
  constructor
  · intro k hk
    rw [hold]
    · exact hl.fresh k (by rw [← hunique]; exact hk)
    · intro heq
      have hlt := (hb.mem_range hcmd).2
      simp only [Book.settle, hunique] at hk
      omega
  · intro c hc
    have hc₀ : c ∈ b₀.toIssue ++ b₀.inFlight := hc
    rw [hold _ (hne c (List.mem_append_left _ hc₀)).symm]
    exact hl.pending c (hsub c hc₀)
  · intro c hc
    have hcase : c ∈ b.done ∨ retire = false ∧ c = cmd' := by
      simp only [Book.settle, hdone] at hc
      cases retire
      · simpa using hc
      · exact .inl (by simpa using hc)
    rcases hcase with hc | ⟨hr, rfl⟩
    · rw [hold _ (hne c (List.mem_append_right _ (hdone ▸ hc))).symm]
      exact hl.done c hc
    · refine ⟨calls cmd.cookie b.trace, err, by rw [hk']; exact hl.pending cmd hmem, ?_⟩
      rw [hcalls, hk', if_pos rfl, hr]
      simp only [Bool.false_eq_true, if_false, List.append_nil]
      have hfrom : cmd.From c := by
        unfold Command.From
        rw [hs.same]
      rw [completionEvents_from hfrom]
  · intro d ha hd
    have ha' : Event.accept d ∈ b.trace := by
      simp only [Book.settle, htrace, List.mem_append] at ha
      rcases ha with ha | (ha | ha) | ha
      · exact ha
      · cases callOf_completionEvents _ ha
      · simp at ha
      · split at ha
        · rw [retireAndFreeCommand_eq] at ha
          rcases List.mem_append.mp ha with ha | ha
          · cases callOf_freeEvents _ ha
          · simp at ha
        · cases ha
    by_cases hk : cmd.cookie = d.cookie
    · -- the command that was settled: it is gone, so it was retired
      have hr : retire = true := by
        cases hr : retire with
        | true => rfl
        | false =>
          refine absurd ?_ hd
          simp [Book.settle, hr, Book.cookies, Book.commands, hk', hk]
      have hfrom := hb.from_accept hcmd ha' hk
      refine ⟨calls cmd.cookie b.trace, err, by rw [← hk]; exact hl.pending cmd hmem, ?_⟩
      rw [hcalls, if_pos hk, hr]
      simp only [if_true]
      rw [completionEvents_from hfrom, freeEvents_from hfrom, hk, List.append_assoc]
    · rw [hold _ hk]
      refine hl.retired d ha' ?_
      intro hin
      rcases List.mem_cons.mp (hperm.mem_iff.mpr hin) with h | h
      · exact hk h.symm
      · refine hd ?_
        simp only [Book.settle, Book.cookies, Book.commands, List.map_append,
          List.mem_append] at h ⊢
        rcases h with (h | h) | h
        · exact .inl (.inl h)
        · exact .inl (.inr h)
        · right
          split
          · exact h
          · simp only [List.map_append, List.mem_append]
            exact .inl h

theorem Life.retire (hb : b.Inv) {pre post : List Command} {cmd : Command}
    (hq : b.done = pre ++ cmd :: post) (ret : Int) :
    Life { b with done := pre ++ post
                  trace := b.trace ++
                    (retireAndFreeCommand cmd ++ [Event.completed cmd.cookie ret]) } := by
  have hcmd : cmd ∈ b.commands := by simp [Book.commands, hq]
  have hnd := hb.nodup
  simp only [Book.cookies, Book.commands, hq, List.map_append, List.map_cons] at hnd
  have hcalls : ∀ k, calls k (b.trace ++ (retireAndFreeCommand cmd ++
      [Event.completed cmd.cookie ret])) =
      calls k b.trace ++ if cmd.cookie = k then freeEvents cmd else [] := by
    intro k
    have hlast : calls k [Event.completed cmd.cookie ret] = [] := rfl
    rw [calls_append, calls_append, hlast, List.append_nil, calls_retireAndFree]
  have hold : ∀ k, cmd.cookie ≠ k → calls k (b.trace ++ (retireAndFreeCommand cmd ++
      [Event.completed cmd.cookie ret])) = calls k b.trace := by
    intro k hk
    rw [hcalls, if_neg hk, List.append_nil]
  have hdisj : ∀ c, (c ∈ b.toIssue ++ b.inFlight ∨ c ∈ pre ++ post) → cmd.cookie ≠ c.cookie := by
    intro c hc hk
    have hperm : (cmd.cookie :: (b.toIssue.map Command.cookie ++ b.inFlight.map Command.cookie ++
        (pre ++ post).map Command.cookie)).Nodup := by
      refine List.Perm.nodup ?_ hnd
      rw [List.perm_iff_count]
      intro k
      simp only [List.map_append, List.count_append, List.count_cons]
      omega
    refine (List.nodup_cons.mp hperm).1 ?_
    rw [hk, ← List.map_append, ← List.map_append]
    refine List.mem_map_of_mem ?_
    simp only [List.mem_append] at hc ⊢
    tauto
  constructor
  · intro k hk
    rw [hold]
    · exact hl.fresh k hk
    · intro heq
      have hlt := (hb.mem_range hcmd).2
      simp only at hk
      omega
  · intro c hc
    rw [hold _ (hdisj c (.inl hc))]
    exact hl.pending c hc
  · intro c hc
    rw [hold _ (hdisj c (.inr hc))]
    refine hl.done c ?_
    simp only [hq, List.mem_append, List.mem_cons] at hc ⊢
    tauto
  · intro d ha hd
    have ha' : Event.accept d ∈ b.trace := by
      simp only [List.mem_append] at ha
      rcases ha with ha | ha | ha
      · exact ha
      · rw [retireAndFreeCommand_eq] at ha
        rcases List.mem_append.mp ha with ha | ha
        · cases callOf_freeEvents _ ha
        · simp at ha
      · simp at ha
    by_cases hk : cmd.cookie = d.cookie
    · have hfrom := hb.from_accept hcmd ha' hk
      obtain ⟨mids, err, hm, heq⟩ := hl.done cmd (by simp [hq])
      refine ⟨mids, err, by rw [← hk]; exact hm, ?_⟩
      rw [hcalls, if_pos hk, ← hk, heq, completionEvents_from hfrom, freeEvents_from hfrom]
    · rw [hold _ hk]
      refine hl.retired d ha' ?_
      simp only [Book.cookies, Book.commands, hq, List.map_append, List.map_cons, List.mem_append,
        List.mem_cons, not_or] at hd ⊢
      refine ⟨hd.1, hd.2.1, fun h => hk h.symm, hd.2.2⟩

end Step

theorem life_step {b b' : Book} (hb : b.Inv) (hl : Life b) (h : BookStep b b') : Life b' := by
  cases h with
  | touch ht hes => exact hl.touch hb ht hes
  | reject hes =>
    refine hl.silent rfl ?_ rfl (fun _ h => h) (fun _ h => h) (fun _ => Iff.rfl) ?_
    · intro e he
      rcases hes e he with rfl | rfl <;> rfl
    · intro cmd ha
      rcases List.mem_append.mp ha with ha | ha
      · exact ha
      · rcases hes _ ha with h | h <;> cases h
  | accept hk _ => exact hl.accept hk
  | issue hq =>
    refine hl.silent rfl ?_ rfl ?_ (fun _ h => h) ?_ ?_
    · simp [Event.callOf]
    · intro c hc
      simp only [hq, List.mem_append, List.mem_cons] at hc ⊢
      tauto
    · intro k
      simp only [Book.cookies, Book.commands, hq, List.map_append, List.map_cons, List.mem_append,
        List.mem_cons]
      tauto
    · intro cmd ha
      simpa using ha
  | finish hq hs =>
    refine hl.settle hb rfl rfl rfl ?_ (by simp [hq]) ?_ hs
    · rw [List.perm_iff_count]
      intro k
      simp only [Book.cookies, Book.commands, hq, List.map_append, List.map_cons,
        List.count_append, List.count_cons]
      omega
    · intro c hc
      simp only [hq, List.mem_append, List.mem_cons] at hc ⊢
      tauto
  | abort hq hs =>
    refine hl.settle hb rfl rfl rfl ?_ (by simp [hq]) ?_ hs
    · rw [List.perm_iff_count]
      intro k
      simp only [Book.cookies, Book.commands, hq, List.map_append, List.map_cons,
        List.count_append, List.count_cons]
      omega
    · intro c hc
      simp only [hq, List.mem_append, List.mem_cons] at hc ⊢
      tauto
  | retire hq => exact hl.retire hb hq _

theorem life_steps {b b' : Book} (hb : b.Inv) (hl : Life b) (h : BookSteps b b') : Life b' := by
  have := BookSteps.invariant (P := fun b => b.Inv ∧ Life b)
    (fun b b' hp hs => ⟨Book.inv_step hp.1 hs, life_step hp.1 hp.2 hs⟩) h ⟨hb, hl⟩
  exact this.2

theorem reachable_life {c : Config} (h : machine.Reachable c) :
    c.ctl = .closed ∨ Sound c ∧ Life c.h.book := by
  refine machine.reachable_invariant (P := fun c => c.ctl = .closed ∨ Sound c ∧ Life c.h.book)
    ?_ ?_ h
  · intro c hc
    refine .inr ⟨initial_sound hc, ?_⟩
    obtain ⟨exp, strict, pi, hdr, payload, mem, rfl⟩ := hc
    exact life_empty
  · intro c l c' hc hstep
    rcases hc with hc | ⟨hs, hl⟩
    · cases l <;> simp [machine, step, hc] at hstep
    · exact (step_refines hs hstep).imp id fun hr => ⟨hr.sound, life_steps hs.inv hl hr.steps⟩

/-! ## Closing the handle -/

theorem freeCmdList_cons (inp : Input) (c : Command) (cs : List Command) :
    freeCmdList inp (c :: cs) =
      completionEvents c (orErr c.error enotconn) ++ retireAndFreeCommand c ++
        freeCmdList inp cs := by
  have hcall : (callCallback inp c.completion (.completion c.cookie (orErr c.error enotconn))
      (orErr c.error enotconn)).1 = completionEvents c (orErr c.error enotconn) := by
    unfold callCallback completionEvents
    split <;> rfl
  simp only [freeCmdList, List.flatMap_cons, hcall]

theorem calls_freeCmdList_of_not_mem (inp : Input) {k : Nat} {cmds : List Command}
    (h : k ∉ cmds.map Command.cookie) : calls k (freeCmdList inp cmds) = [] := by
  induction cmds with
  | nil => rfl
  | cons c cs ih =>
    simp only [List.map_cons, List.mem_cons, not_or] at h
    have hne : c.cookie ≠ k := fun hk => h.1 hk.symm
    rw [freeCmdList_cons, calls_append, calls_append, calls_completionEvents, calls_retireAndFree,
      if_neg hne, if_neg hne, ih h.2]
    rfl

theorem calls_freeCmdList (inp : Input) {cmds : List Command}
    (hnd : (cmds.map Command.cookie).Nodup) {c : Command} (hc : c ∈ cmds) :
    calls c.cookie (freeCmdList inp cmds) =
      completionEvents c (orErr c.error enotconn) ++ freeEvents c := by
  induction cmds with
  | nil => cases hc
  | cons d ds ih =>
    simp only [List.map_cons, List.nodup_cons] at hnd
    rw [freeCmdList_cons, calls_append, calls_append, calls_completionEvents, calls_retireAndFree]
    rcases List.mem_cons.mp hc with rfl | hc
    · rw [if_pos rfl, if_pos rfl, calls_freeCmdList_of_not_mem inp hnd.1, List.append_nil]
    · have hne : d.cookie ≠ c.cookie := fun hk => hnd.1 (hk ▸ List.mem_map_of_mem hc)
      rw [if_neg hne, if_neg hne, ih hnd.2 hc]
      rfl

theorem close_trace (inp : Input) (h : Handle) :
    (close inp h).trace = h.trace ++ freeCmdList inp h.book.commands := by
  simp [close, Handle.log, freeCmdList, Book.commands, Handle.book]

theorem accept_mem_close {inp : Input} {h : Handle} {cmd : Command} :
    Event.accept cmd ∈ (close inp h).trace ↔ Event.accept cmd ∈ h.trace := by
  rw [close_trace, List.mem_append]
  refine ⟨fun hm => hm.resolve_right ?_, .inl⟩
  generalize h.book.commands = cmds
  induction cmds with
  | nil => exact List.not_mem_nil
  | cons c cs ih =>
    rw [freeCmdList_cons, retireAndFreeCommand_eq]
    simp only [List.mem_append, not_or]
    refine ⟨⟨fun hm => ?_, fun hm => ?_, by simp⟩, ih⟩
    · cases callOf_completionEvents _ hm
    · cases callOf_freeEvents _ hm

def Event.isCompletion : Event → Bool
  | .completion .. => true
  | _ => false

theorem countP_mids {k : Nat} {mids : List Event} (h : OnlyMid k mids) :
    mids.countP Event.isCompletion = 0 := by
  rw [List.countP_eq_zero]
  intro e he
  have := h e he
  cases e <;> simp_all [Event.midOf, Event.isCompletion]

theorem countP_freeEvents (cmd : Command) : (freeEvents cmd).countP Event.isCompletion = 0 := by
  rw [List.countP_eq_zero]
  intro e he
  unfold freeEvents at he
  rcases List.mem_append.mp he with he | he
  · split at he <;> simp_all [Event.isCompletion]
  · split at he <;> simp_all [Event.isCompletion]

theorem Lifecycle.countP {cmd : Command} {trace : List Event} (h : Lifecycle cmd trace)
    (hcb : cmd.completion.callback = true) :
    (calls cmd.cookie trace).countP Event.isCompletion = 1 := by
  obtain ⟨mids, err, hm, heq⟩ := h
  have hone : [Event.completion cmd.cookie err].countP Event.isCompletion = 1 := rfl
  have hfree : ∀ (p : Bool) (e : Event), e.isCompletion = false →
      (if p then [e] else []).countP Event.isCompletion = 0 := by
    intro p e he
    cases p <;> simp [he]
  rw [heq, hcb]
  simp only [if_true, List.countP_append, countP_mids hm, hone]
  rw [hfree _ _ rfl, hfree _ _ rfl]

/-- **Callback lifecycle.** After `nbd_close` every accepted command has had its
lifecycle, exactly if no command was left in `cmds_done` whose completion
callback would be called a second time. -/
theorem lifecycle_iff_no_completed_left {c c' : Config} {inp : Input} (h : machine.Reachable c)
    (hclose : machine.step c (.call .close inp) = some c') :
    (∀ cmd, Event.accept cmd ∈ c'.h.trace → Lifecycle cmd c'.h.trace) ↔
      ∀ cmd ∈ c.h.q.cmdsDone, cmd.completion.callback = false := by
  have hctl : ∃ r, c.ctl = .idle r := by
    cases hc : c.ctl <;> simp [machine, step, hc] at hclose ⊢
  obtain ⟨r, hr⟩ := hctl
  have hc' : c'.h = close inp { c.h with lastError := inp.lastError } := by
    simp only [machine, step, hr, Option.some.injEq] at hclose
    rw [← hclose]
    rfl
  obtain hcl | ⟨hs, hl⟩ := reachable_life h
  · rw [hcl] at hr
    cases hr
  have hb := hs.inv
  have hacc : ∀ cmd, Event.accept cmd ∈ c'.h.trace ↔ Event.accept cmd ∈ c.h.trace := by
    intro cmd
    rw [hc', accept_mem_close]
  have htrace : c'.h.trace = c.h.trace ++ freeCmdList inp c.h.book.commands := by
    rw [hc', close_trace]
    rfl
  constructor
  · intro hall d hd
    cases hcb : d.completion.callback with
    | false => rfl
    | true =>
      have hdc : d ∈ c.h.book.commands := List.mem_append_right _ hd
      obtain ⟨d₀, h₀, hf⟩ := hb.origin d hdc
      have hk : d.cookie = d₀.cookie := by rw [hf]
      have hcb₀ : d₀.completion.callback = true := by
        rw [hf] at hcb
        exact hcb
      have hone := (hall d₀ ((hacc d₀).mpr h₀)).countP hcb₀
      obtain ⟨mids, err, hm, heq⟩ := hl.done d hd
      rw [htrace, calls_append, ← hk] at hone
      have heq' : calls d.cookie c.h.trace = mids ++ completionEvents d err := heq
      rw [heq', calls_freeCmdList inp hb.nodup hdc] at hone
      simp [List.countP_append, List.countP_cons, countP_mids hm, countP_freeEvents,
        completionEvents, hcb, Event.isCompletion] at hone
  · intro hnone cmd ha
    have ha' : Event.accept cmd ∈ c.h.book.trace := (hacc cmd).mp ha
    have hshape : ∀ mids err, OnlyMid cmd.cookie mids → cmd.ClosuresOk →
        calls cmd.cookie c'.h.trace = mids ++ completionEvents cmd err ++ freeEvents cmd →
        Lifecycle cmd c'.h.trace := by
      intro mids err hm hcl heq
      refine ⟨mids, err, hm, ?_⟩
      rw [heq, freeEvents_eq hcl]
      simp only [completionEvents, List.append_assoc]
    have hclos := hb.accepts cmd ha'
    have hcalls : calls cmd.cookie c'.h.trace = calls cmd.cookie c.h.book.trace ++
        calls cmd.cookie (freeCmdList inp c.h.book.commands) := by
      rw [htrace, calls_append]
      rfl
    by_cases hin : cmd.cookie ∈ c.h.book.cookies
    · obtain ⟨d, hd, hk⟩ := List.mem_map.mp hin
      have hfrom := hb.from_accept hd ha' hk
      rw [← hk, calls_freeCmdList inp hb.nodup hd, completionEvents_from hfrom,
        freeEvents_from hfrom, hk] at hcalls
      rcases List.mem_append.mp hd with hp | hdone
      · -- never completed: `nbd_close` makes the only completion call
        have hm := hl.pending d hp
        rw [hk] at hm
        exact hshape _ _ hm hclos (by rw [hcalls, List.append_assoc])
      · -- completed before: there is no callback that could be called again
        obtain ⟨mids, err, hm, heq⟩ := hl.done d hdone
        have hnil : ∀ e, completionEvents cmd e = [] := by
          intro e
          have := hnone d hdone
          rw [hfrom] at this
          simp only at this
          simp [completionEvents, this]
        rw [completionEvents_from hfrom, hnil, List.append_nil, hk] at heq
        refine hshape mids 0 (hk ▸ hm) hclos ?_
        rw [hcalls, heq, hnil, hnil]
        simp
    · obtain ⟨mids, err, hm, heq⟩ := hl.retired cmd ha' hin
      rw [calls_freeCmdList_of_not_mem inp hin, List.append_nil] at hcalls
      exact hshape mids err hm hclos (hcalls.trans heq)

/-! Reads that fail with a simple reply, and are or are not retired. -/

/-- Submit a read, send it, and receive the simple reply `EIO` for it, upon which the callback
retires it; then submit and send another one. -/
def retiredAndPending : List Label :=
  let retire : Input := { Input.calm with callback := fun _ => ⟨1, 0⟩ }
  Label.call (.command (.aioPread 4096 512 0 ⟨true, true⟩ 0)) .calm :: List.replicate 5 (.enter .calm) ++
  Label.call .aioNotifyRead .calm :: .enter { retire with
    recv := .data [0x67, 0x44, 0x66, 0x98, 0, 0, 0, 5, 0, 0, 0, 0, 0, 0, 0, 1] } ::
  List.replicate 5 (.enter retire) ++
  Label.call (.command (.aioPread 8192 512 0 ⟨true, true⟩ 0)) .calm :: List.replicate 5 (.enter .calm)

theorem lifecycle_of_retired_and_pending :
    ∃ c c', machine.exec .calm retiredAndPending = some c ∧
      machine.step c (.call .close .calm) = some c' ∧
      ((accepted c'.h.trace).map fun cmd => cmd.completion) = [⟨true, true⟩, ⟨true, true⟩] ∧
      ∀ cmd, Event.accept cmd ∈ c'.h.trace → Lifecycle cmd c'.h.trace := by
  have hrun : (machine.exec .calm retiredAndPending).bind (fun c =>
      (machine.step c (.call .close .calm)).map fun c' =>
        (c.h.q.cmdsDone.length, (accepted c'.h.trace).map fun cmd => cmd.completion)) =
      some (0, [⟨true, true⟩, ⟨true, true⟩]) := by decide +kernel
  obtain ⟨c, hc, hrest⟩ := Option.bind_eq_some_iff.mp hrun
  obtain ⟨c', hc', hp⟩ := Option.map_eq_some_iff.mp hrest
  obtain ⟨hdone, haccepted⟩ := Prod.mk.inj hp
  refine ⟨c, c', hc, hc', haccepted, ?_⟩
  refine (lifecycle_iff_no_completed_left ⟨_, _, Config.initial_calm, hc⟩ hc').mpr ?_
  intro cmd hm
  rw [List.eq_nil_of_length_eq_zero hdone] at hm
  cases hm

/-- Submit a read, send it, and receive the simple reply `EIO` for it. -/
def failedRead (completion : Closure) : List Label :=
  Label.call (.command (.aioPread 4096 512 0 completion 0)) .calm :: List.replicate 5 (.enter .calm) ++
  Label.call .aioNotifyRead .calm :: .enter { Input.calm with
    recv := .data [0x67, 0x44, 0x66, 0x98, 0, 0, 0, 5, 0, 0, 0, 0, 0, 0, 0, 1] } ::
  List.replicate 5 (.enter .calm)

/-- Without a retirement `nbd_close` calls the completion callback a second time. -/
theorem completed_read_completed_again :
    ¬ ∀ c c' inp, machine.Reachable c → machine.step c (.call .close inp) = some c' →
      ∀ cmd, Event.accept cmd ∈ c'.h.trace → Lifecycle cmd c'.h.trace := by
  intro hall
  have hrun : (machine.exec .calm (failedRead ⟨true, true⟩)).bind (fun c =>
      (machine.step c (.call .close .calm)).map fun c' =>
        (accepted c'.h.trace).map fun cmd => (cmd.completion.callback,
          (calls cmd.cookie c'.h.trace).countP Event.isCompletion)) =
      some [(true, 2)] := by decide +kernel
  obtain ⟨c, hc, hrest⟩ := Option.bind_eq_some_iff.mp hrun
  obtain ⟨c', hc', hp⟩ := Option.map_eq_some_iff.mp hrest
  obtain ⟨cmd, rest, hacc, hcmd, -⟩ := List.map_eq_cons_iff.mp hp
  simp only [Prod.mk.injEq] at hcmd
  have hmem : Event.accept cmd ∈ c'.h.trace := by
    rw [← mem_accepted, hacc]
    exact List.mem_cons_self
  have hone := (hall c c' .calm ⟨_, _, Config.initial_calm, hc⟩ hc' cmd hmem).countP hcmd.1
  omega

end Libnbd
