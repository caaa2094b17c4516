import Libnbd.Copy.Interleaving

/-!
Visits to the handle of the first worker, and what they do to a copy.

A worker that writes zeroes with `synch_write` runs the callbacks of the first worker in its
own thread. If one of them meets an update by the first worker itself, a reference to a buffer
is lost: the buffer is freed while a write still needs it. In all other runs the accounts
balance and the copy is exact.
-/

namespace Libnbd.Copy

open Lib

/-! ## Copies without a visit -/

/-- The frame is in the loop that writes zeroes with `synch_write`. -/
def Frame.isSlow : Frame → Bool
  | .fill _ (some _) => true
  | _ => false

/-- No thread needs the handle of another one: there is one thread only, each thread writes to
the destination by itself, or the server can write zeroes. -/
def Setup.NoFallback (s : Setup) (n : Nat) : Prop := n = 1 ∨ s.target ≠ .nbd false

/-- No thread is in `nbd_pwrite`, and if the server can write zeroes, none is about to be. -/
structure Threads.Alone (s : Setup) (n : Nat) (t : Threads) : Prop where
  length : t.threads.length = n
  visit : t.visit = none
  fast : s.target = .nbd true → ∀ th ∈ t.threads, ∀ f ∈ th.worker.frames, f.isSlow = false

section Alone

variable {s : Setup} {t t' : Threads} {w : Worker} {next n i : Nat} {act : Action} {b : Begun} {e : Event}
  {th th' : Thread}

theorem flush_fast (h : ∀ f ∈ w.frames, f.isSlow = false) (r : Range) :
    ∀ f ∈ (w.flush r).frames, f.isSlow = false := by
  unfold Worker.flush
  split
  · exact h
  · exact List.forall_mem_cons.mpr ⟨rfl, h⟩

theorem runLoop_fast {cfg : Config} {x : Effect} (h : ∀ f ∈ w.frames, f.isSlow = false)
    (hrun : w.runLoop cfg next = .ok x) : ∀ f ∈ x.worker.frames, f.isSlow = false := by
  unfold Worker.runLoop at hrun
  split at hrun
  · split at hrun
    · simp only [Worker.workCount_eq] at hrun
      split at hrun
      · cases hrun
        exact h
      · cases hrun
    · cases hrun
      exact h
  · split at hrun
    · cases hrun
      exact flush_fast h _
    · dsimp only at hrun
      split at hrun
      · cases hrun
      · cases hrun
        exact h
      · cases hrun
        exact flush_fast h _
  · cases hrun
    exact h
  · split at hrun
    · cases hrun
    · obtain ⟨v, hv, hrest⟩ := bind_ok hrun
      unfold Worker.increaseQueueSize at hv
      split at hv
      · cases hv
        cases hrest
        exact h
      · cases hv
  · split at hrun
    · cases hrun
    · cases hrun
      exact h
  · cases hrun

theorem beginLoop_fast {cfg : Config} (h : ∀ f ∈ w.frames, f.isSlow = false)
    (hb : w.beginLoop cfg next = .ok b) : ∀ f ∈ b.worker.frames, f.isSlow = false := by
  unfold Worker.beginLoop at hb
  split at hb
  · split at hb <;> cases hb <;> exact h
  · split at hb <;> cases hb <;> exact h
  · obtain ⟨x, hrun, rfl⟩ := map_ok hb
    exact runLoop_fast h hrun

theorem beginFrame_fast (hs : s.target = .nbd true) {answer : Bool} {f : Frame} {fs : List Frame}
    (hf : f.isSlow = false) (hfs : ∀ g ∈ fs, g.isSlow = false)
    (hb : w.beginFrame s next answer fs f = .ok b) : ∀ g ∈ b.worker.frames, g.isSlow = false := by
  unfold Worker.beginFrame at hb
  split at hb
  · cases hb
    exact hfs
  · split at hb
    · cases hb
    · split at hb
      · cases hb
        exact List.forall_mem_cons.mpr ⟨rfl, List.forall_mem_cons.mpr ⟨rfl, hfs⟩⟩
      · split at hb
        · cases hb
        · cases hb
          exact List.forall_mem_cons.mpr ⟨rfl, hfs⟩
  · split at hb
    · cases hb
      exact hfs
    · split at hb
      · cases hb
        exact hfs
      · next hslow =>
        -- the server writes the zeroes
        rw [Setup.asynchZero, hs] at hslow
        exact absurd rfl hslow
  · cases hf

/-- No action leads to the loop that writes zeroes if the server does that. -/
theorem begin_fast (hs : s.target = .nbd true) (h : ∀ f ∈ w.frames, f.isSlow = false)
    (hb : w.begin s next act = .ok b) : ∀ f ∈ b.worker.frames, f.isSlow = false := by
  cases act with
  | run answer =>
    simp only [Worker.begin] at hb
    split at hb
    · exact beginLoop_fast h hb
    · next f fs hf =>
      obtain ⟨htop, hrest⟩ := List.forall_mem_cons.mp (hf ▸ h)
      exact beginFrame_fast hs htop hrest hb
  | readDone k =>
    simp only [Worker.begin] at hb
    split at hb
    · cases hb
    · unfold Worker.beginRead at hb
      split at hb
      · cases hb
      · dsimp only at hb
        split at hb
        · cases hb
          exact h
        · cases hb
          exact List.forall_mem_cons.mpr ⟨rfl, h⟩
  | writeDone k =>
    simp only [Worker.begin] at hb
    split at hb
    · cases hb
    · obtain ⟨bytes, -, rfl⟩ := map_ok hb
      exact h
  | zeroDone k =>
    simp only [Worker.begin] at hb
    split at hb
    · cases hb
    · cases hb
      exact h

theorem slow_of_writesZeroes (h : w.writesZeroes = true) : ∃ f ∈ w.frames, f.isSlow = true := by
  unfold Worker.writesZeroes at h
  split at h
  · next hf =>
    rw [hf]
    exact ⟨_, List.mem_cons_self, rfl⟩
  · cases h

/-- One thread has changed. -/
theorem Threads.Alone.set (h : t.Alone s n) (hthreads : t'.threads = t.threads.set i th')
    (hvisit : t'.visit = none)
    (hfast : s.target = .nbd true → ∀ f ∈ th'.worker.frames, f.isSlow = false) : t'.Alone s n where
  length := by rw [hthreads, List.length_set, h.length]
  visit := hvisit
  fast hs v hv := by
    rw [hthreads] at hv
    rcases List.mem_or_eq_of_mem_set hv with hmem | rfl
    · exact h.fast hs v hmem
    · exact hfast hs

/-- **Step lemma.** Nobody enters `nbd_pwrite`. -/
theorem step_alone (hs : s.NoFallback n) (h : t.Alone s n) (hstep : t.step s i e = some t') :
    t'.Alone s n := by
  obtain ⟨-, hmoved⟩ := step_moved hstep
  cases hmoved with
  | begun hi hready hvisits hb =>
    refine h.set rfl h.visit fun hz => ?_
    rw [settle_worker]
    exact begin_fast hz (h.fast hz _ (List.mem_of_getElem? hi)) hb
  | failed hi hready hb hne => exact ⟨h.length, h.visit, h.fast⟩
  | accessed hi hstatus hnext =>
    refine h.set rfl h.visit fun hz => ?_
    rw [settle_worker]
    exact h.fast hz _ (List.mem_of_getElem? hi)
  | called hi hstatus =>
    next th next =>
    refine h.set rfl h.visit fun hz => ?_
    have hold := h.fast hz _ (List.mem_of_getElem? hi)
    cases next <;> exact hold
  | entered hi hfree hvisit hshared hother hwrites =>
    obtain hone | htarget := hs
    · obtain ⟨hlt, -⟩ := List.getElem?_eq_some_iff.mp hi
      rw [h.length, hone] at hlt
      exact absurd (Nat.lt_one_iff.mp hlt) hother
    · obtain ⟨f, hf, hslow⟩ := slow_of_writesZeroes hwrites
      have hz : s.target = .nbd true := by
        unfold Setup.shared at hshared
        cases htarget' : s.target with
        | own =>
          rw [htarget'] at hshared
          cases hshared
        | nbd canZero =>
          cases canZero with
          | true => rfl
          | false => exact absurd htarget' htarget
      rw [h.fast hz _ (List.mem_of_getElem? hi) f hf] at hslow
      cases hslow
  | woken hi hpolling =>
    next th => exact h.set rfl h.visit fun hz => h.fast hz th (List.mem_of_getElem? hi)
  | calledBack h₀ hvisit hnext =>
    rw [h.visit] at hvisit
    cases hvisit
  | answered h₀ hvisit hk hslice =>
    rw [h.visit] at hvisit
    cases hvisit
  | answerFailed h₀ hvisit hk hslice =>
    rw [h.visit] at hvisit
    cases hvisit
  | left hi hfree hvisit hb =>
    rw [h.visit] at hvisit
    cases hvisit

theorem alone_start (s : Setup) (n : Nat) :
    Threads.Alone s n ⟨0, List.replicate n {}, none, [], none⟩ where
  length := List.length_replicate
  visit := rfl
  fast _ th hth := by
    obtain rfl := List.eq_of_mem_replicate hth
    exact fun f hf => by cases hf

/-- **Without a fallback** to `synch_write` in several threads, no thread takes a reply for
another one, in any run. -/
theorem meets_of_noFallback (hs : s.NoFallback n) {cond : Threads → Nat × Event → Prop}
    (hcond : ∀ t i e, t.visit = none → (∀ k, e ≠ .answer k) → cond t (i, e))
    {ls : List (Nat × Event)}
    (he : (threads s).exec ⟨0, List.replicate n {}, none, [], none⟩ ls = some t) :
    (threads s).Meets cond ⟨0, List.replicate n {}, none, [], none⟩ ls := by
  refine (threads s).meets_of_invariant (P := Threads.Alone s n) ?_ (alone_start s n) he
  rintro t₁ ⟨i, e⟩ t₂ h hstep
  refine ⟨hcond t₁ i e h.visit fun k hk => ?_, step_alone hs h hstep⟩
  obtain ⟨-, hmoved⟩ := step_moved (e := e) hstep
  subst hk
  cases hmoved with
  | answered h₀ hvisit =>
    rw [h.visit] at hvisit
    cases hvisit
  | answerFailed h₀ hvisit =>
    rw [h.visit] at hvisit
    cases hvisit

theorem separate_of_noFallback (hs : s.NoFallback n) {ls : List (Nat × Event)}
    (he : (threads s).exec ⟨0, List.replicate n {}, none, [], none⟩ ls = some t) :
    (threads s).Meets Separate ⟨0, List.replicate n {}, none, [], none⟩ ls := by
  refine meets_of_noFallback hs (fun t i e hvisit hno => ?_) he
  cases e with
  | begin act =>
    refine .inl (Option.isNone_iff_eq_none.mpr ?_)
    exact callback_free hvisit rfl i
  | answer k => exact absurd rfl (hno k)
  | _ => trivial

end Alone

/-! ## Two threads and one handle too few -/

/-- A hole of a whole work range and a tail of 513 bytes, copied to a server that cannot write
zeroes. -/
def holeBeforeTail : Setup where
  size := threadWorkSize + 513
  sizes := ⟨2 ^ 25, 2 ^ 25, 512⟩
  maxRequests := 64
  allocated := false
  targetIsZero := false
  src := fun q => if q < threadWorkSize then 0 else 7
  dst := fun _ => 1
  extents := fun a n => if a + n ≤ threadWorkSize then [⟨a, n, true⟩] else defaultGetExtents a n
  sizeOk := by decide
  sizesOk := ⟨⟨by decide, by decide, by decide, by decide⟩, .inr (by decide), by decide⟩
  sparseFits := by decide
  target := .nbd false
  freed := fun _ => 170

def twoThreads : Threads := ⟨0, List.replicate 2 {}, none, [], none⟩

theorem init_twoThreads (s : Setup) : (threads s).init twoThreads := ⟨2, by decide, rfl⟩

def goOn (i n : Nat) : List (Nat × Event) := List.replicate n (i, .begin (.run false))

def ticks (i n : Nat) : List (Nat × Event) := List.replicate n (i, .tick)

/-- The second thread has the hole, the first one has read the tail and is writing the first
512 bytes of it. The second thread writes zeroes, and gets the reply to that write. -/
def visit : List (Nat × Event) :=
  goOn 1 7 ++ goOn 0 4 ++ ticks 0 5 ++ [(0, Event.begin (.readDone 0))] ++ goOn 0 1 ++
    ticks 0 3 ++ [(1, Event.enter), (1, .answer 0)]

/-- The first thread adds the reference for its second write after the callback. -/
def apart : List (Nat × Event) := ticks 1 5 ++ goOn 0 1 ++ ticks 0 2

/-- It adds it between the load and the store of the callback. -/
def overlap : List (Nat × Event) := ticks 1 4 ++ goOn 0 1 ++ ticks 0 2 ++ ticks 1 1

/-- The second write is handed over and the split of the tail is done. -/
def handOver : List (Nat × Event) := [(1, Event.leave)] ++ ticks 0 1 ++ goOn 0 1

/-- The rest of the zeroes, and then the second write, with a callback of `n` accesses. -/
def finish (n : Nat) : List (Nat × Event) :=
  [(1, Event.enter), (1, .leave), (1, .enter), (1, .leave), (1, .enter), (1, .leave)] ++ goOn 1 3 ++
    goOn 0 2 ++ [(0, Event.begin (.writeDone 0))] ++ ticks 0 n ++ goOn 0 1

theorem holeBeforeTail_described : holeBeforeTail.Described := by
  intro a n _ _
  show Describes holeBeforeTail.src
    (if a + n ≤ threadWorkSize then [⟨a, n, true⟩] else defaultGetExtents a n) a (a + n)
  split
  · next hle =>
    refine ⟨⟨_, [], rfl, Nat.le_refl _, Nat.le_refl _⟩, fun e he _ q _ hq _ _ => ?_⟩
    obtain rfl := List.mem_singleton.mp he
    exact if_pos (Nat.lt_of_lt_of_le hq hle)
  · exact describes_default _ a n

/-! ## The accounts -/

/-- The worker, with the command that its thread is handing over. -/
def Thread.holding (th : Thread) : Worker :=
  match th.status with
  | .calling n => n.apply th.worker
  | _ => th.worker

/-- Nobody is in the middle of an update of the worker. -/
def Threads.Rests (t : Threads) (i : Nat) (th : Thread) : Prop :=
  t.callback i = none ∧ th.isBusy = false

/-- The queue size is what is being read and what has not been written yet; each buffer counts
the commands that point to it, and is freed once with the last of them. -/
structure Worker.Balanced (w : Worker) : Prop where
  queue : w.queueSize = w.queued
  idle : w.Idle → w.queueSize = 0
  refs : ∀ b buf, w.buffers[b]? = some buf → buf.refs = w.holders b
  frees : ∀ b buf, w.buffers[b]? = some buf → buf.frees = if w.holders b = 0 then 1 else 0

/-- No assertion on a queue size has failed and no freed buffer has been used, and the accounts
of each worker balance when they are not being updated. -/
structure Threads.Accounts (t : Threads) : Prop where
  asserts : ∀ halt, t.halted = some halt → halt ≠ .failed .increaseQueueSize ∧
    halt ≠ .failed .decreaseQueueSize ∧ halt ≠ .badBuffer
  balanced : t.halted = none → ∀ i th, t.threads[i]? = some th → t.Rests i th → th.holding.Balanced

section Accounts

variable {s : Setup} {t : Threads} {a : Copying} {i : Nat} {th : Thread}

theorem Threads.Rests.settled (h : t.Rests i th) : t.settled i th = .ok th.holding := by
  obtain ⟨hnone, hbusy⟩ := h
  rw [Threads.settled, hnone]
  dsimp only
  unfold Thread.isBusy at hbusy
  unfold Thread.settled Thread.holding
  cases hstatus : th.status with
  | busy code locked =>
    rw [hstatus] at hbusy
    cases hbusy
  | _ => rfl

/-- If no update of the first worker and no callback of it in another thread overlap, the
accounts balance: in every order of the threads' accesses and of the completions. -/
theorem worker_accounting_unless_visited (s : Setup) (h : (threads s).ReachableBy Separate t) :
    t.Accounts := by
  have hrefines := threads_refine h
  refine ⟨fun halt hhalt => ?_, fun hnone i th hi hrests => ?_⟩
  · obtain ⟨hne, a, i, act, ha, herr⟩ := hrefines.stopped halt hhalt
    unfold Copying.step at herr
    split at herr
    · cases herr
      exact absurd rfl hne
    · next w hw =>
      obtain ⟨-, -, hasserts, -⟩ := worker_accounting s.toConfig ha (List.mem_of_getElem? hw)
      rcases bind_error herr with hstep | ⟨e, -, hok⟩
      · exact hasserts act halt hstep
      · cases hok
  · obtain ⟨a, ha, htracks⟩ := hrefines.going hnone
    obtain ⟨w, hw, hsettled⟩ := htracks.worker hi
    obtain rfl : th.holding = w := Except.ok.inj (hrests.settled.symm.trans hsettled)
    obtain ⟨hqueue, hidle, -, hbuffers⟩ := worker_accounting s.toConfig ha (List.mem_of_getElem? hw)
    exact ⟨hqueue, hidle, fun b buf hbuf => (hbuffers b buf hbuf).1,
      fun b buf hbuf => (hbuffers b buf hbuf).2⟩

/-- The first thread is not being updated and passes the test. -/
def Threads.restsWith (p : Thread → Bool) (t : Threads) : Bool :=
  t.halted.isNone && (t.callback 0).isNone && t.threads[0]?.any fun th => !th.isBusy && p th

theorem Threads.restsWith_spec {p : Thread → Bool} (h : t.restsWith p = true) :
    t.halted = none ∧ ∃ th, t.threads[0]? = some th ∧ t.Rests 0 th ∧ p th = true := by
  simp only [Threads.restsWith, Bool.and_eq_true, Option.any_eq_true, Option.isNone_iff_eq_none,
    Bool.not_eq_true'] at h
  obtain ⟨⟨hnone, hcallback⟩, th, hth, hbusy, hp⟩ := h
  exact ⟨hnone, th, hth, ⟨hcallback, hbusy⟩, hp⟩

/-- The visit and the update do not overlap, and one reference is left. -/
theorem worker_accounting_of_visit_apart : ∃ t th, (threads holeBeforeTail).ReachableBy Separate t ∧
    t.threads[0]? = some th ∧ th.holding.queued = 1 ∧ th.holding.holders 0 = 1 := by
  let run := visit ++ apart ++ handOver ++ ticks 0 2
  have hsep : (threads holeBeforeTail).Meets Separate twoThreads run :=
    (threads holeBeforeTail).meets_of_check (by decide +kernel)
  have hrun : ((threads holeBeforeTail).exec twoThreads run).any (Threads.restsWith fun th =>
      th.holding.queueSize == 1 && th.holding.buffers[0]?.any (·.refs == 1)) = true := by
    decide +kernel
  obtain ⟨t, hexec, ht⟩ := (Option.any_eq_true _ _).mp hrun
  obtain ⟨hnone, th, hth, hrests, hp⟩ := Threads.restsWith_spec ht
  simp only [Bool.and_eq_true, Option.any_eq_true, beq_iff_eq] at hp
  obtain ⟨hqueue, buf, hbuf, hrefs⟩ := hp
  have hreach : (threads holeBeforeTail).ReachableBy Separate t :=
    ⟨twoThreads, run, init_twoThreads _, hsep, hexec⟩
  have hbalanced := (worker_accounting_unless_visited holeBeforeTail hreach).balanced hnone 0 th hth hrests
  exact ⟨t, th, hreach, hth, hbalanced.queue.symm.trans hqueue,
    (hbalanced.refs 0 buf hbuf).symm.trans hrefs⟩

/-- The store of the callback undoes the reference for the second write, which is then in
flight for a buffer that has been freed. -/
theorem worker_accounting_loses_reference :
    ¬ ∀ (s : Setup) (t : Threads), (threads s).Reachable t → t.Accounts := by
  intro h
  let run := visit ++ overlap ++ handOver ++ ticks 0 3
  have hrun : ((threads holeBeforeTail).exec twoThreads run).any (Threads.restsWith fun th =>
      th.holding.holders 0 == 1 && th.holding.buffers[0]?.any (·.refs == 0)) = true := by
    decide +kernel
  obtain ⟨t, hexec, ht⟩ := (Option.any_eq_true _ _).mp hrun
  obtain ⟨hnone, th, hth, hrests, hp⟩ := Threads.restsWith_spec ht
  simp only [Bool.and_eq_true, Option.any_eq_true, beq_iff_eq] at hp
  obtain ⟨hholders, buf, hbuf, hrefs⟩ := hp
  have haccounts := h holeBeforeTail t ⟨twoThreads, run, init_twoThreads _, hexec⟩
  have hcount := (haccounts.balanced hnone 0 th hth hrests).refs 0 buf hbuf
  rw [hrefs, hholders] at hcount
  cases hcount

end Accounts

/-! ## The copy -/

/-- All threads have returned. -/
def Threads.finished (t : Threads) : Bool :=
  t.visit.isNone && t.threads.all fun th => match th.worker.pc, th.status with
    | .done, .free => true
    | _, _ => false

/-- The destination after the operations of the log. -/
def Threads.destination (s : Setup) (t : Threads) : Nat → UInt8 := t.log.foldl DstOp.apply s.dst

/-- Every position of the source has had one operation, each of which has made its range equal
to the source, and so the destination is the source. -/
structure Threads.Copied (s : Setup) (t : Threads) : Prop where
  once : ∀ q < s.size, t.log.countP (fun op => op.Holds q) = 1
  sound : ∀ op ∈ t.log, op.Sound s.toConfig
  exact : ∀ q, t.destination s q = if q < s.size then s.src q else s.dst q

section Copied

variable {s : Setup} {t : Threads} {a : Copying}

theorem Threads.finished_thread (h : t.finished = true) {i : Nat} {th : Thread}
    (hi : t.threads[i]? = some th) : t.settled i th = .ok th.worker ∧ th.worker.pc = .done := by
  obtain ⟨hvisit, hall⟩ := (Bool.and_eq_true _ _).mp h
  have hnone : t.callback i = none := callback_free (Option.isNone_iff_eq_none.mp hvisit) rfl i
  have hth := List.all_eq_true.mp hall th (List.mem_of_getElem? hi)
  split at hth
  · next hpc hfree =>
    rw [Threads.settled, hnone]
    dsimp only
    unfold Thread.settled
    rw [hfree]
    exact ⟨rfl, hpc⟩
  · cases hth

/-- If no update of the first worker and no callback of it in another thread overlap, the copy
is exact: no assertion fails, and when all threads have returned, every position of the source
has been written, zeroed or skipped once, with the bytes of the source, whatever the order of
the threads' accesses and of the completions. -/
theorem copies_exactly_unless_visited (s : Setup) (hext : s.Described)
    (hzero : s.targetIsZero = true → ∀ q < s.size, s.dst q = 0)
    (h : (threads s).ReachableBy Separate t) :
    t.halted = none ∧ (t.finished = true → t.Copied s) := by
  have hrefines := threads_refine h
  have hnone : t.halted = none := by
    refine Option.eq_none_iff_forall_ne_some.mpr fun halt hhalt => ?_
    obtain ⟨hne, a, i, act, ha, herr⟩ := hrefines.stopped halt hhalt
    exact hne ((copies_exactly s.toConfig hext hzero ha).1 i act halt herr)
  refine ⟨hnone, fun hfinished => ?_⟩
  obtain ⟨a, ha, htracks⟩ := hrefines.going hnone
  have hdone : ∀ w ∈ a.workers, w.pc = .done := by
    intro w hw
    obtain ⟨i, hi⟩ := List.mem_iff_getElem?.mp hw
    obtain ⟨hlt, -⟩ := List.getElem?_eq_some_iff.mp hi
    rw [← htracks.length] at hlt
    obtain ⟨hsettled, hpc⟩ := Threads.finished_thread hfinished (List.getElem?_eq_getElem hlt)
    have hw := htracks.workers i _ w (List.getElem?_eq_getElem hlt) hi
    rwa [Except.ok.inj (hsettled.symm.trans hw)] at hpc
  obtain ⟨honce, hsound, hexact⟩ := (copies_exactly s.toConfig hext hzero ha).2 hdone
  rw [← htracks.log] at honce hsound
  refine ⟨honce, hsound, fun q => ?_⟩
  rw [Threads.destination, htracks.log]
  exact hexact q

theorem copies_exactly_of_visit_apart : ∃ t, (threads holeBeforeTail).ReachableBy Separate t ∧
    t.finished = true ∧
    ∀ q, t.destination holeBeforeTail q =
      if q < threadWorkSize + 513 then (if q < threadWorkSize then 0 else 7) else 1 := by
  let run := visit ++ apart ++ handOver ++ ticks 0 2 ++ finish 6
  have hsep : (threads holeBeforeTail).Meets Separate twoThreads run :=
    (threads holeBeforeTail).meets_of_check (by decide +kernel)
  have hrun : ((threads holeBeforeTail).exec twoThreads run).any Threads.finished = true := by
    decide +kernel
  obtain ⟨t, hexec, hfinished⟩ := (Option.any_eq_true _ _).mp hrun
  have hreach : (threads holeBeforeTail).ReachableBy Separate t :=
    ⟨twoThreads, run, init_twoThreads _, hsep, hexec⟩
  have hzero : holeBeforeTail.targetIsZero = true → ∀ q < holeBeforeTail.size, holeBeforeTail.dst q = 0 :=
    fun h => by cases h
  obtain ⟨-, hcopied⟩ :=
    copies_exactly_unless_visited holeBeforeTail holeBeforeTail_described hzero hreach
  exact ⟨t, hreach, hfinished, (hcopied hfinished).exact⟩

/-- The second write takes its byte from the buffer that has been freed, and this byte stays
in the destination. -/
theorem copies_freed_byte : ¬ ∀ (s : Setup) (t : Threads), s.Described →
    (s.targetIsZero = true → ∀ q < s.size, s.dst q = 0) → (threads s).Reachable t →
    t.halted = none ∧ (t.finished = true → t.Copied s) := by
  intro h
  let run := visit ++ overlap ++ handOver ++ ticks 0 3 ++ finish 5
  have hrun : ((threads holeBeforeTail).exec twoThreads run).any (fun t => t.finished &&
      t.log.getLast? == some (.write (threadWorkSize + 512) [170])) = true := by
    decide +kernel
  obtain ⟨t, hexec, ht⟩ := (Option.any_eq_true _ _).mp hrun
  obtain ⟨hfinished, hlast⟩ := (Bool.and_eq_true _ _).mp ht
  obtain ⟨-, hcopied⟩ := h holeBeforeTail t holeBeforeTail_described (fun h => by cases h)
    ⟨twoThreads, run, init_twoThreads _, hexec⟩
  obtain ⟨log, hlog⟩ := List.getLast?_eq_some_iff.mp (beq_iff_eq.mp hlast)
  have hbyte := (hcopied hfinished).exact (threadWorkSize + 512)
  rw [Threads.destination, hlog, List.foldl_concat] at hbyte
  exact absurd (show (170 : UInt8) = 7 from hbyte) (by decide)

end Copied

end Libnbd.Copy
