import Libnbd.Frame
import Mathlib.Logic.Relation

/-!
What the queues of a handle are for.

A `Book` has the three lists of commands and the trace, without tail pointers,
counters, buffers and protocol states. `BookStep` says how a command may move:
it is accepted at the end of the queue, issued from its front, touched while in
flight, finished or aborted with one completion call, and retired. The
invariants of the three lists are proved here, over `BookStep`; the handle
refines it in `Libnbd.Refine`.
-/

namespace Libnbd

open Lib Relation

structure Book where
  toIssue : List Command
  inFlight : List Command
  done : List Command
  unique : Nat
  trace : List Event

namespace Book

/-- All commands that are accepted and not retired. -/
def commands (b : Book) : List Command := b.toIssue ++ b.inFlight ++ b.done

def cookies (b : Book) : List Nat := b.commands.map Command.cookie

def empty : Book := ⟨[], [], [], 1, []⟩

end Book

/-- The completion callback, if there is one, sees `err`. -/
def completionEvents (cmd : Command) (err : UInt32) : List Event :=
  if cmd.completion.callback then [.completion cmd.cookie err] else []

/-- The closures of a command are where its type has them. -/
def Command.ClosuresOk (cmd : Command) : Prop :=
  (cmd.type ≠ .read → cmd.type ≠ .blockStatus → cmd.fn = .null) ∧
    (cmd.type = .disc → cmd.completion = .null)

/-- `cmd` ends as `cmd'` after its completion callback saw `err`. -/
structure Settled (cmd cmd' : Command) (err : UInt32) (retire : Bool) : Prop where
  same : cmd' = { cmd with error := cmd'.error }
  error : cmd.error ≠ 0 → err ≠ 0 ∧ cmd'.error ≠ 0
  disc : cmd.type = .disc → retire = true

/-- A command already off its list is completed, then kept or retired. -/
def Book.settle (b : Book) (cmd cmd' : Command) (err : UInt32) (retire : Bool) : Book :=
  { b with
    done := if retire then b.done else b.done ++ [cmd']
    trace := b.trace ++ (completionEvents cmd err ++ [Event.finish cmd.cookie] ++
      if retire then retireAndFreeCommand cmd else []) }

/-- Return value of `nbd_aio_command_completed` for a command that is done. -/
def completedRet (cmd : Command) : Int := if completedError cmd = 0 then 1 else -1

inductive BookStep : Book → Book → Prop
  | touch {b : Book} {cmds : List Command} {es : List Event}
      (ht : List.Forall₂ Command.Touched b.inFlight cmds)
      (hes : ∀ e ∈ es, ∃ c ∈ b.inFlight, e.midOf = some c.cookie) :
      BookStep b { b with inFlight := cmds, trace := b.trace ++ es }
  | reject {b : Book} {es : List Event}
      (hes : ∀ e ∈ es, e = .rejectFn ∨ e = .rejectCompletion) :
      BookStep b { b with trace := b.trace ++ es }
  | accept {b : Book} {cmd : Command} (hk : cmd.cookie = b.unique) (hc : cmd.ClosuresOk) :
      BookStep b { b with
        toIssue := b.toIssue ++ [cmd], unique := b.unique + 1, trace := b.trace ++ [Event.accept cmd] }
  | issue {b : Book} {cmd : Command} {rest : List Command} (hq : b.toIssue = cmd :: rest) :
      BookStep b { b with
        toIssue := rest, inFlight := cmd :: b.inFlight, trace := b.trace ++ [Event.issue cmd] }
  | finish {b : Book} {pre post : List Command} {cmd cmd' : Command} {err : UInt32} {retire : Bool}
      (hq : b.inFlight = pre ++ cmd :: post) (hs : Settled cmd cmd' err retire) :
      BookStep b ({ b with inFlight := pre ++ post }.settle cmd cmd' err retire)
  | abort {b : Book} {pre post : List Command} {cmd cmd' : Command} {err : UInt32} {retire : Bool}
      (hq : b.toIssue = pre ++ cmd :: post) (hs : Settled cmd cmd' err retire) :
      BookStep b ({ b with toIssue := pre ++ post }.settle cmd cmd' err retire)
  | retire {b : Book} {pre post : List Command} {cmd : Command} (hq : b.done = pre ++ cmd :: post) :
      BookStep b { b with
        done := pre ++ post
        trace := b.trace ++
          (retireAndFreeCommand cmd ++ [Event.completed cmd.cookie (completedRet cmd)]) }

/-- Any number of moves. -/
abbrev BookSteps : Book → Book → Prop := ReflTransGen BookStep

theorem BookSteps.invariant {P : Book → Prop} (hP : ∀ b b', P b → BookStep b b' → P b')
    {b b' : Book} (h : BookSteps b b') (hb : P b) : P b' := by
  induction h with
  | refl => exact hb
  | tail _ hstep ih => exact hP _ _ ih hstep

theorem BookStep.trace_append {b b' : Book} (h : BookStep b b') :
    ∃ es, b'.trace = b.trace ++ es := by
  cases h <;> exact ⟨_, rfl⟩

theorem BookSteps.trace_append {b b' : Book} (h : BookSteps b b') :
    ∃ es, b'.trace = b.trace ++ es := by
  induction h with
  | refl => exact ⟨[], (List.append_nil _).symm⟩
  | tail _ hstep ih =>
    obtain ⟨es, he⟩ := ih
    obtain ⟨fs, hf⟩ := hstep.trace_append
    exact ⟨es ++ fs, by rw [hf, he, List.append_assoc]⟩

/-! ## The lists -/

/-- Cookies of the commands in the order in which they were accepted. -/
def acceptedCookies (trace : List Event) : List Nat :=
  trace.filterMap fun
    | .accept cmd => some cmd.cookie
    | _ => none

/-- Cookies in the order in which the commands finished. -/
def finishedCookies (trace : List Event) : List Nat :=
  trace.filterMap fun
    | .finish k => some k
    | _ => none

def retiredCookies (trace : List Event) : List Nat :=
  trace.filterMap fun
    | .retire k => some k
    | _ => none

/-- The accepted commands, in order. -/
def accepted (trace : List Event) : List Command :=
  trace.filterMap fun
    | .accept cmd => some cmd
    | _ => none

/-- The commands that have been sent completely, in order. -/
def issued (trace : List Event) : List Command :=
  trace.filterMap fun
    | .issue cmd => some cmd
    | _ => none

@[simp] theorem accepted_append (es fs : List Event) :
    accepted (es ++ fs) = accepted es ++ accepted fs := List.filterMap_append

@[simp] theorem issued_append (es fs : List Event) :
    issued (es ++ fs) = issued es ++ issued fs := List.filterMap_append

theorem mem_accepted {trace : List Event} {cmd : Command} :
    cmd ∈ accepted trace ↔ Event.accept cmd ∈ trace := by
  simp only [accepted, List.mem_filterMap]
  constructor
  · rintro ⟨e, he, heq⟩
    cases e <;> simp_all
  · intro h
    exact ⟨_, h, rfl⟩

theorem acceptedCookies_eq (trace : List Event) :
    acceptedCookies trace = (accepted trace).map Command.cookie := by
  induction trace with
  | nil => rfl
  | cons e es ih =>
    unfold acceptedCookies accepted at ih ⊢
    cases e <;> simp [ih]

theorem mem_acceptedCookies {trace : List Event} {cmd : Command}
    (h : Event.accept cmd ∈ trace) : cmd.cookie ∈ acceptedCookies trace := by
  rw [acceptedCookies_eq]
  exact List.mem_map_of_mem (mem_accepted.mpr h)

@[simp] theorem acceptedCookies_append (es fs : List Event) :
    acceptedCookies (es ++ fs) = acceptedCookies es ++ acceptedCookies fs :=
  List.filterMap_append

@[simp] theorem finishedCookies_append (es fs : List Event) :
    finishedCookies (es ++ fs) = finishedCookies es ++ finishedCookies fs :=
  List.filterMap_append

@[simp] theorem retiredCookies_append (es fs : List Event) :
    retiredCookies (es ++ fs) = retiredCookies es ++ retiredCookies fs :=
  List.filterMap_append

/-- The events of a step that moves no command between the lists. -/
def Event.isCall : Event → Bool
  | .chunk .. | .extent .. | .completion .. | .freeFn _ | .freeCompletion _ | .completed ..
  | .rejectFn | .rejectCompletion | .issue _ => true
  | _ => false

theorem cookies_of_isCall {es : List Event} (h : ∀ e ∈ es, e.isCall = true) :
    acceptedCookies es = [] ∧ finishedCookies es = [] ∧ retiredCookies es = [] := by
  induction es with
  | nil => exact ⟨rfl, rfl, rfl⟩
  | cons e es ih =>
    obtain ⟨h₁, h₂, h₃⟩ := ih fun e he => h e (List.mem_cons_of_mem _ he)
    have he := h e List.mem_cons_self
    cases e with
    | accept | finish | retire => simp [Event.isCall] at he
    | _ => exact ⟨h₁, h₂, h₃⟩

theorem midOf_isCall {e : Event} {k : Nat} (h : e.midOf = some k) : e.isCall = true := by
  cases e <;> simp_all [Event.midOf, Event.isCall]

theorem completionEvents_isCall (cmd : Command) (err : UInt32) :
    ∀ e ∈ completionEvents cmd err, e.isCall = true := by
  unfold completionEvents
  split <;> simp [Event.isCall]

/-- The free functions of a command, and then its end. -/
def freeEvents (cmd : Command) : List Event :=
  (if (cmd.type = .blockStatus ∨ cmd.type = .read) ∧ cmd.fn.free = true
    then [Event.freeFn cmd.cookie] else []) ++
  (if cmd.completion.free = true then [Event.freeCompletion cmd.cookie] else [])

theorem retireAndFreeCommand_eq (cmd : Command) :
    retireAndFreeCommand cmd = freeEvents cmd ++ [Event.retire cmd.cookie] := rfl

theorem freeEvents_isCall (cmd : Command) : ∀ e ∈ freeEvents cmd, e.isCall = true := by
  intro e he
  unfold freeEvents at he
  rcases List.mem_append.mp he with he | he
  · split at he <;> simp_all [Event.isCall]
  · split at he <;> simp_all [Event.isCall]

theorem cookies_retireAndFree (cmd : Command) :
    acceptedCookies (retireAndFreeCommand cmd) = [] ∧
      finishedCookies (retireAndFreeCommand cmd) = [] ∧
      retiredCookies (retireAndFreeCommand cmd) = [cmd.cookie] := by
  obtain ⟨h₁, h₂, h₃⟩ := cookies_of_isCall (freeEvents_isCall cmd)
  rw [retireAndFreeCommand_eq]
  simp only [acceptedCookies_append, finishedCookies_append, retiredCookies_append, h₁, h₂, h₃]
  exact ⟨rfl, rfl, rfl⟩

theorem exists_of_forall₂ {cs ds : List Command} (h : List.Forall₂ Command.Touched cs ds) :
    ∀ d ∈ ds, ∃ c ∈ cs, c.Touched d := by
  induction h with
  | nil => simp
  | cons hcd _ ih =>
    intro d hd
    rcases List.mem_cons.mp hd with rfl | hd
    · exact ⟨_, List.mem_cons_self, hcd⟩
    · obtain ⟨c, hc, hcd⟩ := ih d hd
      exact ⟨c, List.mem_cons_of_mem _ hc, hcd⟩

theorem perm_append_mid (a b c d : List Nat) (u : Nat) :
    (a ++ [u] ++ b ++ c ++ d).Perm (a ++ b ++ c ++ d ++ [u]) := by
  rw [List.perm_iff_count]
  intro k
  simp only [List.count_append]
  omega

/-- `c` is `c₀` but for what a reply may change. -/
def Command.From (c₀ c : Command) : Prop :=
  c = { c₀ with error := c.error, dataSeen := c.dataSeen }

namespace Book

/-- Conservation and order. -/
structure Inv (b : Book) : Prop where
  perm : (b.cookies ++ retiredCookies b.trace).Perm (acceptedCookies b.trace)
  sorted : (acceptedCookies b.trace).Pairwise (· < ·)
  range : ∀ k ∈ acceptedCookies b.trace, 1 ≤ k ∧ k < b.unique
  pos : 1 ≤ b.unique
  order : (b.toIssue.map Command.cookie).Sublist (acceptedCookies b.trace)
  doneOrder : (b.done.map Command.cookie).Sublist (finishedCookies b.trace)
  noDisc : ∀ c ∈ b.done, c.type ≠ .disc
  accepts : ∀ c, Event.accept c ∈ b.trace → c.ClosuresOk
  queued : ∀ c ∈ b.toIssue, Event.accept c ∈ b.trace
  origin : ∀ c ∈ b.commands, ∃ c₀, Event.accept c₀ ∈ b.trace ∧ c₀.From c

theorem inv_empty : empty.Inv where
  perm := .refl _
  sorted := .nil
  range := by simp [empty, acceptedCookies]
  pos := Nat.le_refl 1
  order := .refl _
  doneOrder := .refl _
  noDisc := by simp [empty]
  accepts := by simp [empty]
  queued := by simp [empty]
  origin := by simp [empty, commands]

namespace Inv

variable {b : Book} (hb : b.Inv)

include hb

theorem nodup : b.cookies.Nodup := by
  have hacc : (acceptedCookies b.trace).Nodup := hb.sorted.imp Nat.ne_of_lt
  exact (List.nodup_append.mp (hb.perm.nodup_iff.mpr hacc)).1

theorem closures {c : Command} (hc : c ∈ b.commands) : c.ClosuresOk := by
  obtain ⟨c₀, h₀, hf⟩ := hb.origin c hc
  have := hb.accepts c₀ h₀
  rw [hf]
  exact this

theorem nodup_lists : (b.toIssue.map Command.cookie).Nodup ∧
    (b.inFlight.map Command.cookie).Nodup ∧ (b.done.map Command.cookie).Nodup := by
  have h := hb.nodup
  simp only [cookies, commands, List.map_append] at h
  have h₁ := List.nodup_append.mp h
  have h₂ := List.nodup_append.mp h₁.1
  exact ⟨h₂.1, h₂.2.1, h₁.2.1⟩

theorem mem_range {c : Command} (hc : c ∈ b.commands) : 1 ≤ c.cookie ∧ c.cookie < b.unique := by
  apply hb.range
  apply hb.perm.mem_iff.mp
  exact List.mem_append_left _ (List.mem_map_of_mem hc)

theorem mem_commands_iff (k : Nat) :
    k ∈ b.cookies ↔ k ∈ acceptedCookies b.trace ∧ k ∉ retiredCookies b.trace := by
  have hacc : (acceptedCookies b.trace).Nodup := hb.sorted.imp Nat.ne_of_lt
  have hnd := List.nodup_append.mp (hb.perm.nodup_iff.mpr hacc)
  constructor
  · intro hk
    exact ⟨hb.perm.mem_iff.mp (List.mem_append_left _ hk), fun hr => hnd.2.2 k hk k hr rfl⟩
  · rintro ⟨ha, hr⟩
    rcases List.mem_append.mp (hb.perm.mem_iff.mpr ha) with h | h
    · exact h
    · exact absurd h hr

/-- Everything but accepting a command: cookies leave the lists only by being
retired, the queue only shrinks, and what is new in `done` has just finished. -/
theorem move {b' : Book} {es : List Event} (htrace : b'.trace = b.trace ++ es)
    (hacc : acceptedCookies es = []) (hunique : b'.unique = b.unique)
    (hperm : (b'.cookies ++ retiredCookies es).Perm b.cookies)
    (hqueue : b'.toIssue.Sublist b.toIssue)
    (hdone : (b'.done.map Command.cookie).Sublist
      (b.done.map Command.cookie ++ finishedCookies es))
    (hdisc : ∀ c ∈ b'.done, c.type ≠ .disc)
    (hfrom : ∀ c ∈ b'.commands, ∃ d ∈ b.commands, d.From c) : b'.Inv := by
  have hacc' : acceptedCookies b'.trace = acceptedCookies b.trace := by
    rw [htrace, acceptedCookies_append, hacc, List.append_nil]
  constructor
  · rw [hacc', htrace, retiredCookies_append]
    refine List.Perm.trans ?_ hb.perm
    rw [List.perm_iff_count] at hperm ⊢
    intro k
    have := hperm k
    simp only [List.count_append] at this ⊢
    omega
  · rw [hacc']
    exact hb.sorted
  · rw [hacc', hunique]
    exact hb.range
  · rw [hunique]
    exact hb.pos
  · rw [hacc']
    exact (hqueue.map _).trans hb.order
  · rw [htrace, finishedCookies_append]
    exact hdone.trans (hb.doneOrder.append (.refl _))
  · exact hdisc
  · intro c hc
    rw [htrace] at hc
    rcases List.mem_append.mp hc with hc | hc
    · exact hb.accepts c hc
    · have := mem_acceptedCookies hc
      rw [hacc] at this
      cases this
  · intro c hc
    rw [htrace]
    exact List.mem_append_left _ (hb.queued c (hqueue.subset hc))
  · intro c hc
    obtain ⟨d, hd, hdc⟩ := hfrom c hc
    obtain ⟨c₀, h₀, hf⟩ := hb.origin d hd
    refine ⟨c₀, by rw [htrace]; exact List.mem_append_left _ h₀, ?_⟩
    unfold Command.From at hf hdc ⊢
    rw [hdc, hf]

theorem touch {cmds : List Command} {es : List Event}
    (ht : List.Forall₂ Command.Touched b.inFlight cmds)
    (hes : ∀ e ∈ es, ∃ c ∈ b.inFlight, e.midOf = some c.cookie) :
    { b with inFlight := cmds, trace := b.trace ++ es }.Inv := by
  have hcall : ∀ e ∈ es, e.isCall = true := by
    intro e he
    obtain ⟨c, -, hk⟩ := hes e he
    exact midOf_isCall hk
  obtain ⟨h₁, h₂, h₃⟩ := cookies_of_isCall hcall
  refine hb.move rfl h₁ rfl ?_ (.refl _) ?_ hb.noDisc ?_
  · rw [h₃, List.append_nil]
    simp only [cookies, commands, List.map_append, map_cookie_of_touched ht]
    exact .refl _
  · rw [h₂, List.append_nil]
  · intro c hc
    simp only [commands, List.mem_append] at hc
    rcases hc with (hc | hc) | hc
    · exact ⟨c, by simp [commands, hc], rfl⟩
    · obtain ⟨d, hd, hdc⟩ := exists_of_forall₂ ht c hc
      exact ⟨d, by simp [commands, hd], hdc.1⟩
    · exact ⟨c, by simp [commands, hc], rfl⟩

theorem reject {es : List Event} (hes : ∀ e ∈ es, e = .rejectFn ∨ e = .rejectCompletion) :
    { b with trace := b.trace ++ es }.Inv := by
  have hcall : ∀ e ∈ es, e.isCall = true := by
    intro e he
    rcases hes e he with rfl | rfl <;> rfl
  obtain ⟨h₁, h₂, h₃⟩ := cookies_of_isCall hcall
  refine hb.move rfl h₁ rfl ?_ (.refl _) ?_ hb.noDisc fun c hc => ⟨c, hc, rfl⟩
  · rw [h₃, List.append_nil]
    exact .refl _
  · rw [h₂, List.append_nil]

theorem issue {cmd : Command} {rest : List Command} (hq : b.toIssue = cmd :: rest) :
    { b with toIssue := rest, inFlight := cmd :: b.inFlight,
             trace := b.trace ++ [Event.issue cmd] }.Inv := by
  refine hb.move rfl rfl rfl ?_ ?_ ?_ hb.noDisc ?_
  · simp only [cookies, commands, hq, List.map_append, List.map_cons]
    rw [List.perm_iff_count]
    intro k
    simp only [List.count_append, List.count_cons, retiredCookies, List.filterMap_cons,
      List.filterMap_nil, List.count_nil]
    omega
  · rw [hq]
    exact List.sublist_cons_self _ _
  · exact List.sublist_append_left _ _
  · intro c hc
    refine ⟨c, ?_, rfl⟩
    simp only [commands, hq, List.mem_append, List.mem_cons] at hc ⊢
    tauto

/-- Finishing or aborting: `b₀` is the book without the command. -/
theorem settle {b₀ : Book} {cmd cmd' : Command} {err : UInt32} {retire : Bool}
    (htrace : b₀.trace = b.trace) (hunique : b₀.unique = b.unique) (hdone : b₀.done = b.done)
    (hperm : (cmd.cookie :: b₀.cookies).Perm b.cookies) (hmem : cmd ∈ b.commands)
    (hsub : ∀ c ∈ b₀.commands, c ∈ b.commands)
    (hqueue : b₀.toIssue.Sublist b.toIssue) (hs : Settled cmd cmd' err retire) :
    (b₀.settle cmd cmd' err retire).Inv := by
  have hk : cmd'.cookie = cmd.cookie := by rw [hs.same]
  have ht : cmd'.type = cmd.type := by rw [hs.same]
  obtain ⟨c₁, c₂, c₃⟩ := cookies_of_isCall (completionEvents_isCall cmd err)
  obtain ⟨r₁, r₂, r₃⟩ := cookies_retireAndFree cmd
  have hfinish : acceptedCookies [Event.finish cmd.cookie] = [] ∧
      finishedCookies [Event.finish cmd.cookie] = [cmd.cookie] ∧
      retiredCookies [Event.finish cmd.cookie] = [] := ⟨rfl, rfl, rfl⟩
  cases retire with
  | true =>
    refine hb.move (by simp only [Book.settle, htrace]; rfl) ?_ hunique ?_ hqueue ?_ ?_ ?_
    · simp only [if_true, acceptedCookies_append, c₁, hfinish, r₁, List.append_nil]
    · simp only [if_true, retiredCookies_append, c₃, hfinish, r₃, List.nil_append]
      exact (List.perm_append_singleton _ _).trans hperm
    · simp only [Book.settle, if_true, hdone]
      exact List.sublist_append_left _ _
    · simp only [Book.settle, if_true, hdone]
      exact hb.noDisc
    · intro c hc
      exact ⟨c, hsub c hc, rfl⟩
  | false =>
    refine hb.move (by simp only [Book.settle, htrace]; rfl) ?_ hunique ?_ hqueue ?_ ?_ ?_
    · simp only [Bool.false_eq_true, if_false, acceptedCookies_append, c₁, hfinish, List.append_nil]
    · simp only [Bool.false_eq_true, if_false, retiredCookies_append, c₃, hfinish, List.append_nil]
      refine List.Perm.trans ?_ hperm
      simp only [Book.settle, Bool.false_eq_true, if_false, cookies, commands, List.map_append,
        List.map_cons, List.map_nil, hk, ← List.append_assoc]
      exact List.perm_append_singleton _ _
    · simp only [Book.settle, Bool.false_eq_true, if_false, hdone, List.map_append, List.map_cons,
        List.map_nil, hk, finishedCookies_append, c₂, hfinish, List.nil_append]
      exact (List.Sublist.refl _).append (List.sublist_append_left _ _)
    · intro c hc
      simp only [Book.settle, Bool.false_eq_true, if_false, hdone, List.mem_append,
        List.mem_singleton] at hc
      rcases hc with hc | rfl
      · exact hb.noDisc c hc
      · intro hd
        exact absurd (hs.disc (ht ▸ hd)) (by decide)
    · intro c hc
      simp only [Book.settle, Bool.false_eq_true, if_false, commands, List.mem_append,
        List.mem_singleton] at hc
      rcases hc with hc | hc | rfl
      · exact ⟨c, hsub c (by simp only [commands, List.mem_append]; tauto), rfl⟩
      · exact ⟨c, hsub c (by simp only [commands, List.mem_append]; tauto), rfl⟩
      · exact ⟨cmd, hmem, by unfold Command.From; rw [hs.same]⟩

theorem finish {pre post : List Command} {cmd cmd' : Command} {err : UInt32} {retire : Bool}
    (hq : b.inFlight = pre ++ cmd :: post) (hs : Settled cmd cmd' err retire) :
    ({ b with inFlight := pre ++ post }.settle cmd cmd' err retire).Inv := by
  refine hb.settle rfl rfl rfl ?_ ?_ ?_ (.refl _) hs
  · rw [List.perm_iff_count]
    intro k
    simp only [cookies, commands, hq, List.map_append, List.map_cons, List.count_append,
      List.count_cons]
    omega
  · simp [commands, hq]
  · intro c hc
    simp only [commands, hq, List.mem_append, List.mem_cons] at hc ⊢
    tauto

theorem abort {pre post : List Command} {cmd cmd' : Command} {err : UInt32} {retire : Bool}
    (hq : b.toIssue = pre ++ cmd :: post) (hs : Settled cmd cmd' err retire) :
    ({ b with toIssue := pre ++ post }.settle cmd cmd' err retire).Inv := by
  refine hb.settle rfl rfl rfl ?_ ?_ ?_ ?_ hs
  · rw [List.perm_iff_count]
    intro k
    simp only [cookies, commands, hq, List.map_append, List.map_cons, List.count_append,
      List.count_cons]
    omega
  · simp [commands, hq]
  · intro c hc
    simp only [commands, hq, List.mem_append, List.mem_cons] at hc ⊢
    tauto
  · rw [hq]
    exact (List.Sublist.refl _).append (List.sublist_cons_self _ _)

theorem retire {pre post : List Command} {cmd : Command} (hq : b.done = pre ++ cmd :: post)
    (ret : Int) :
    { b with done := pre ++ post
             trace := b.trace ++
               (retireAndFreeCommand cmd ++ [Event.completed cmd.cookie ret]) }.Inv := by
  obtain ⟨r₁, r₂, r₃⟩ := cookies_retireAndFree cmd
  refine hb.move rfl ?_ rfl ?_ (.refl _) ?_ ?_ ?_
  · rw [acceptedCookies_append, r₁]
    rfl
  · rw [retiredCookies_append, r₃, List.perm_iff_count]
    intro k
    simp only [cookies, commands, hq, List.map_append, List.map_cons, List.count_append,
      List.count_cons, retiredCookies, List.filterMap_cons, List.filterMap_nil, List.count_nil]
    omega
  · rw [hq]
    simp only [List.map_append, List.map_cons]
    exact ((List.Sublist.refl _).append (List.sublist_cons_self _ _)).trans
      (List.sublist_append_left _ _)
  · intro c hc
    apply hb.noDisc
    simp only [hq, List.mem_append, List.mem_cons] at hc ⊢
    tauto
  · intro c hc
    refine ⟨c, ?_, rfl⟩
    simp only [commands, hq, List.mem_append, List.mem_cons] at hc ⊢
    tauto

theorem accept {cmd : Command} (hk : cmd.cookie = b.unique) (hc : cmd.ClosuresOk) :
    { b with toIssue := b.toIssue ++ [cmd], unique := b.unique + 1,
             trace := b.trace ++ [Event.accept cmd] }.Inv := by
  have hacc : acceptedCookies (b.trace ++ [Event.accept cmd]) = acceptedCookies b.trace ++ [b.unique] := by
    rw [acceptedCookies_append, ← hk]
    rfl
  have hmem : ∀ c ∈ ({ b with toIssue := b.toIssue ++ [cmd] } : Book).commands,
      c = cmd ∨ c ∈ b.commands := by
    intro c hc'
    simp only [commands, List.mem_append, List.mem_singleton] at hc' ⊢
    tauto
  constructor
  · simp only [cookies, commands, hacc, List.map_append, List.map_cons, List.map_nil, hk,
      retiredCookies_append]
    refine List.Perm.trans ?_ (hb.perm.append_right [b.unique])
    simp only [cookies, commands, List.map_append, retiredCookies, List.filterMap_cons,
      List.filterMap_nil, List.append_nil]
    exact perm_append_mid _ _ _ _ _
  · simp only [hacc]
    rw [List.pairwise_append]
    exact ⟨hb.sorted, List.pairwise_singleton _ _,
      fun k hk' u hu => by rw [List.mem_singleton.mp hu]; exact (hb.range k hk').2⟩
  · intro k hk'
    simp only [hacc, List.mem_append, List.mem_singleton] at hk'
    have hpos := hb.pos
    rcases hk' with hk' | rfl
    · have := hb.range k hk'
      exact ⟨this.1, Nat.lt_succ_of_lt this.2⟩
    · exact ⟨hpos, Nat.lt_succ_self _⟩
  · exact Nat.le_succ_of_le hb.pos
  · simp only [hacc, List.map_append, List.map_cons, List.map_nil, hk]
    exact hb.order.append (.refl _)
  · have hfin : finishedCookies (b.trace ++ [Event.accept cmd]) = finishedCookies b.trace := by
      rw [finishedCookies_append]
      exact List.append_nil _
    simp only [hfin]
    exact hb.doneOrder
  · exact hb.noDisc
  · intro c hc'
    simp only [List.mem_append, List.mem_singleton, Event.accept.injEq] at hc'
    rcases hc' with h | rfl
    · exact hb.accepts c h
    · exact hc
  · intro c hc'
    rcases List.mem_append.mp hc' with h | h
    · exact List.mem_append_left _ (hb.queued c h)
    · rw [List.mem_singleton.mp h]
      exact List.mem_append_right _ List.mem_cons_self
  · intro c hc'
    rcases hmem c hc' with rfl | h
    · exact ⟨c, List.mem_append_right _ List.mem_cons_self, rfl⟩
    · obtain ⟨c₀, h₀, hf⟩ := hb.origin c h
      exact ⟨c₀, List.mem_append_left _ h₀, hf⟩

end Inv

theorem inv_step {b b' : Book} (hb : b.Inv) (h : BookStep b b') : b'.Inv := by
  cases h with
  | touch ht hes => exact hb.touch ht hes
  | reject hes => exact hb.reject hes
  | accept hk hc => exact hb.accept hk hc
  | issue hq => exact hb.issue hq
  | finish hq hs => exact hb.finish hq hs
  | abort hq hs => exact hb.abort hq hs
  | retire hq => exact hb.retire hq _

theorem inv_steps {b b' : Book} (hb : b.Inv) (h : BookSteps b b') : b'.Inv :=
  h.invariant (fun _ _ => inv_step) hb

end Book

end Libnbd
