import Libnbd.Copy.Visits

/-!
nbdcopy comes to an end, if no worker takes the replies of another one.

A worker in `poll` waits for a command of its own, and every step of a thread uses up some of
the work that is left, except for a return from `poll`. A reply that another thread has taken
does not end that `poll`.
-/

namespace Libnbd.Copy

open Lib

/-! ## The work that is left -/

/-- A bound on the steps that a part still leads to: it is filled, or it is written. -/
def Part.work (p : Part) : Nat := p.len + 3

/-- The parts of a read are not known before it has completed; there is one for each byte
at most. -/
def Command.work (c : Command) : Nat := 4 * c.len + 2

def Frame.work : Frame → Nat
  | .finishedRead _ parts => (parts.map Part.work).sum + 1
  | .fill c none => c.len + 2
  | .fill c (some _) => c.len + 1

/-- The rest of a work range, and the zeroing that has been deferred. -/
def Range.work (r : Range) : Nat :=
  9 * r.count + (r.zeroingStart.map fun z => r.offset - z + 2).getD 0

/-- The range behind a command. -/
def Range.behind (r : Range) (len : Nat) : Range :=
  { r with offset := r.offset + len, count := r.count - len }

def Pc.work (cfg : Config) : Pc → Nat
  | .fetch => 2
  | .scan r => r.work + 3
  | .data r =>
    let len := min r.count cfg.sizes.requestSize
    4 * len + 2 + (r.behind len).work + 5
  | .wait r c => c.work + (r.behind c.len).work + 4
  | .drain => 1
  | .done => 0

def Worker.work (cfg : Config) (w : Worker) : Nat :=
  w.pc.work cfg + ((w.reads.map Command.work).sum + (w.writes.length + (w.zeroes.length +
    (w.frames.map Frame.work).sum)))

/-- What has not been handed out, and what the workers have. -/
def Copying.work (cfg : Config) (s : Copying) : Nat :=
  11 * (cfg.size - s.next) + (s.workers.map (Worker.work cfg)).sum

/-- The block of zeroes that a fill goes on with is not empty. -/
def Frame.Advances : Frame → Prop
  | .fill c (some dataSize) => 0 < c.len → 0 < dataSize
  | _ => True

/-- What the count of the work rests on. -/
structure Paced (cfg : Config) (w : Worker) : Prop where
  typed : Typed cfg w
  frames : ∀ f ∈ w.frames, f.Advances

section Work

variable {cfg : Config} {w w' : Worker} {next next' : Nat} {ops : List DstOp}

theorem work_tiles {a b : Nat} {ps : List Part} (h : Tiles Part.offset Part.len a b ps) :
    (ps.map Part.work).sum ≤ 4 * (b - a) := by
  induction ps generalizing a with
  | nil => simp only [List.map_nil, List.sum_nil, Nat.zero_le]
  | cons p ps ih =>
    obtain ⟨-, hpos, hrest⟩ := h
    have hle := hrest.le
    have hwork := ih hrest
    simp only [List.map_cons, List.sum_cons, Part.work]
    omega

/-- Zeroing is deferred at the price of the frame that it becomes. -/
theorem flush_work (w : Worker) (r : Range) :
    ((w.flush r).frames.map Frame.work).sum + 9 * r.count
      = (w.frames.map Frame.work).sum + r.work := by
  unfold Worker.flush Range.work
  cases hz : r.zeroingStart with
  | none => simp only [Option.map_none, Option.getD_none, Nat.add_zero]
  | some z =>
    simp only [Option.map_some, Option.getD_some, List.map_cons, List.sum_cons, Frame.work]
    omega

theorem length_eraseIdx_lt {α : Type} {l : List α} {k : Nat} {a : α} (h : l[k]? = some a) :
    (l.eraseIdx k).length + 1 = l.length := by
  obtain ⟨hk, -⟩ := List.getElem?_eq_some_iff.mp h
  rw [List.length_eraseIdx_of_lt hk]
  omega

theorem Paced.top (h : Paced cfg w) {f : Frame} {fs : List Frame} (hf : w.frames = f :: fs) :
    f.Advances ∧ ∀ g ∈ fs, g.Advances := List.forall_mem_cons.mp (hf ▸ h.frames)

theorem Paced.flush (h : Paced cfg w) (r : Range) : ∀ f ∈ (w.flush r).frames, f.Advances := by
  unfold Worker.flush
  split
  · exact h.frames
  · exact List.forall_mem_cons.mpr ⟨trivial, h.frames⟩

theorem Paced.move (h : Paced cfg w) (hm : Moves cfg w next w' next' ops) :
    Paced cfg w' := by
  have hrequest := cfg.requestSize_pos
  refine ⟨h.typed.move hm, ?_⟩
  cases hm with
  | rangeEnd hf hpc hcount => exact h.flush _
  | data hf hpc hcount hlen hz => exact h.flush _
  | splitEnd hf hb => exact (h.top hf).2
  | splitZero hf hz hin hqueue =>
    exact List.forall_mem_cons.mpr ⟨trivial, List.forall_mem_cons.mpr ⟨trivial, (h.top hf).2⟩⟩
  | splitData hf hz hin hb hbuf hlive =>
    exact List.forall_mem_cons.mpr ⟨trivial, (h.top hf).2⟩
  | fillSkip hf ht hb => exact (h.top hf).2
  | fillZero hf ht => exact (h.top hf).2
  | fillSlow hf ht =>
    refine List.forall_mem_cons.mpr ⟨?_, (h.top hf).2⟩
    simp only [Frame.Advances]
    omega
  | fillWrite hf hpos hlen =>
    obtain ⟨htop, hrest⟩ := h.top hf
    exact List.forall_mem_cons.mpr ⟨fun _ => htop hpos, hrest⟩
  | fillEnd hf hlen hb => exact (h.top hf).2
  | readSplit hk hb hbuf hlive hsparse => exact List.forall_mem_cons.mpr ⟨trivial, h.frames⟩
  | _ => exact h.frames

/-- Every move uses up work. -/
theorem work_move (h : Paced cfg w) (hm : Moves cfg w next w' next' ops) :
    11 * (cfg.size - next') + w'.work cfg < 11 * (cfg.size - next) + w.work cfg := by
  have hrequest := cfg.requestSize_pos
  unfold Worker.work
  cases hm with
  | fetch hf hpc hnext hn =>
    simp only [hpc, Pc.work, Range.work, Option.map_none, Option.getD_none, threadWorkSize] at hn ⊢
    omega
  | exhausted hf hpc hnext =>
    simp only [hpc, Pc.work]
    omega
  | @rangeEnd r hf hpc hcount =>
    have hflush := flush_work w r
    simp only [hpc, Pc.work, Worker.flush_reads, Worker.flush_writes, Worker.flush_zeroes]
    omega
  | @zeroes r len i hf hpc hcount hlen hz =>
    -- a range of zeroes is deferred, and is cheaper to fill than it was to scan
    simp only [hpc, Pc.work, Range.work, Option.map_some, Option.getD_some]
    cases r.zeroingStart with
    | none =>
      simp only [Option.getD_none, Option.map_none]
      omega
    | some z =>
      simp only [Option.getD_some, Option.map_some]
      omega
  | @data r len i hf hpc hcount hlen hz =>
    have hflush := flush_work w r
    have hbehind : (Range.behind ⟨r.offset, r.count, r.exts, i, none⟩ len).work
      = 9 * (r.count - len) := rfl
    simp only [hpc, Pc.work, Worker.flush_reads, Worker.flush_writes, Worker.flush_zeroes,
      ← hlen, hbehind]
    omega
  | create hf hpc =>
    simp only [hpc, Pc.work, Command.work]
    omega
  | start hf hpc hslot hqueue =>
    simp only [hpc, Pc.work, Range.behind, List.map_cons, List.sum_cons]
    omega
  | drained hf hpc hidle =>
    simp only [hpc, Pc.work]
    omega
  | splitEnd hf hb =>
    simp only [hf, List.map_cons, List.sum_cons, Frame.work]
    omega
  | splitZero hf hz hin hqueue =>
    simp only [hf, List.map_cons, List.sum_cons, Frame.work, Part.work]
    omega
  | splitData hf hz hin hb hbuf hlive =>
    simp only [hf, List.map_cons, List.sum_cons, Frame.work, Part.work, List.length_cons]
    omega
  | fillSkip hf ht hb =>
    simp only [hf, List.map_cons, List.sum_cons, Frame.work]
    omega
  | fillZero hf ht =>
    simp only [hf, List.map_cons, List.sum_cons, Frame.work, List.length_cons]
    omega
  | fillSlow hf ht =>
    simp only [hf, List.map_cons, List.sum_cons, Frame.work]
    omega
  | @fillWrite c fs dataSize len hf hpos hlen =>
    have hblock : 0 < dataSize := (h.top hf).1 hpos
    simp only [hf, List.map_cons, List.sum_cons, Frame.work]
    omega
  | fillEnd hf hlen hb =>
    simp only [hf, List.map_cons, List.sum_cons, Frame.work]
    omega
  | readWhole hk hb hbuf hlive hwhole =>
    rw [sum_eraseIdx Command.work hk]
    simp only [Command.work, List.length_cons]
    omega
  | @readSplit k b c buf hk hb hbuf hlive hsparse =>
    have hin := (h.typed.reads _ (List.mem_of_getElem? hk)).2
    have hparts := work_tiles (splitParts_exact cfg hsparse hin).1
    rw [sum_eraseIdx Command.work hk]
    simp only [List.map_cons, List.sum_cons, Frame.work, Command.work]
    omega
  | writeDone hk hb hbuf hlive hdata hqueue =>
    have hlen := length_eraseIdx_lt hk
    simp only
    omega
  | zeroDone hk hqueue hb =>
    have hlen := length_eraseIdx_lt hk
    simp only
    omega

/-- The whole copy has less to do after every step. -/
theorem work_step {s s' : Copying} {l : Nat × Action} (h : ∀ w ∈ s.workers, Paced cfg w)
    (hs : (copying cfg).step s l = some s') :
    (∀ w ∈ s'.workers, Paced cfg w) ∧ s'.work cfg < s.work cfg := by
  obtain ⟨i, w, w', next', ops, hw, hm, rfl⟩ := copying_step hs
  have hpaced := h w (List.mem_of_getElem? hw)
  refine ⟨fun v hv => ?_, ?_⟩
  · rcases List.mem_or_eq_of_mem_set hv with hmem | rfl
    · exact h v hmem
    · exact hpaced.move hm
  · have hless := work_move hpaced hm
    have hset := sum_set (Worker.work cfg) hw w'
    unfold Copying.work
    simp only
    omega

theorem reachable_paced {s : Copying} (h : (copying cfg).Reachable s) :
    ∀ w ∈ s.workers, Paced cfg w :=
  reachable_workers (P := Paced cfg) ⟨typed_start cfg, fun f hf => by cases hf⟩
    (fun _ _ _ _ _ hp hm => hp.move hm) h

end Work

/-! ## Going on -/

/-- The action is the completion of a command. -/
def Action.Completes : Action → Prop
  | .run _ => False
  | _ => True

section Going

variable {cfg : Config} {s : Setup} {w : Worker} {next : Nat} {act : Action} {b : Begun}

theorem beginLoop_goes (cfg : Config) (hpc : w.pc ≠ .done) :
    w.beginLoop cfg next ≠ .error .blocked := by
  intro h
  unfold Worker.beginLoop at h
  cases hw : w.pc with
  | wait r c =>
    rw [hw] at h
    dsimp only at h
    split at h <;> cases h
  | drain =>
    rw [hw] at h
    dsimp only at h
    split at h <;> cases h
  | done => exact hpc hw
  | fetch =>
    rw [hw] at h
    simp only [Worker.runLoop, hw, Worker.workCount_eq] at h
    split at h
    · split at h
      · cases h
      · cases h
    · cases h
  | scan r =>
    rw [hw] at h
    simp only [Worker.runLoop, hw] at h
    split at h
    · cases h
    · split at h <;> cases h
  | data r =>
    rw [hw] at h
    simp only [Worker.runLoop, hw] at h
    cases h

theorem beginFrame_goes {answer : Bool} {f : Frame} {fs : List Frame} :
    w.beginFrame s next answer fs f ≠ .error .blocked := by
  intro h
  unfold Worker.beginFrame at h
  split at h
  · cases h
  · split at h
    · cases h
    · split at h
      · cases h
      · split at h <;> cases h
  · split at h
    · cases h
    · split at h <;> cases h
  · split at h <;> cases h

/-- A worker that has not returned can go on, if only into `poll`. -/
theorem begin_goes (h : w.frames ≠ [] ∨ w.pc ≠ .done) (answer : Bool) :
    w.begin s next (.run answer) ≠ .error .blocked := by
  unfold Worker.begin
  cases hf : w.frames with
  | nil => exact beginLoop_goes s.toConfig (h.resolve_left fun hne => hne hf)
  | cons f fs => exact beginFrame_goes

/-- A command in flight can complete. -/
theorem begin_completion (next : Nat) (h : 0 < w.inFlight) :
    ∃ act, Action.Completes act ∧ w.begin s next act ≠ .error .blocked := by
  unfold Worker.inFlight at h
  rcases hr : w.reads with _ | ⟨c, cs⟩
  · rcases hw : w.writes with _ | ⟨c, cs⟩
    · rcases hz : w.zeroes with _ | ⟨c, cs⟩
      · simp only [hr, hw, hz, List.length_nil] at h
        omega
      · refine ⟨.zeroDone 0, trivial, fun h => ?_⟩
        simp only [Worker.begin, hz, List.getElem?_cons_zero] at h
        cases h
    · refine ⟨.writeDone 0, trivial, fun h => ?_⟩
      simp only [Worker.begin, hw, List.getElem?_cons_zero] at h
      cases hslice : s.slice w c with
      | error halt =>
        rw [hslice] at h
        cases h
        exact slice_ne_blocked hslice
      | ok bytes =>
        rw [hslice] at h
        cases h
  · refine ⟨.readDone 0, trivial, fun h => ?_⟩
    simp only [Worker.begin, hr, List.getElem?_cons_zero] at h
    unfold Worker.beginRead at h
    split at h
    · cases h
    · dsimp only at h
      split at h <;> cases h

/-- A worker that waits has a command in flight. -/
theorem Accounted.in_flight (h : Accounted w) (hreq : 0 < cfg.maxRequests) (hf : w.frames = [])
    (hwait : w.inFlight ≥ cfg.maxRequests ∨ w.queueSize ≥ cfg.sizes.queueSize) :
    0 < w.inFlight := by
  rcases hwait with hmany | hfull
  · exact Nat.lt_of_lt_of_le hreq hmany
  · -- the queue is not empty, and what is queued is being read or written
    have hrequest := cfg.requestSize_pos
    have hsize : cfg.sizes.requestSize ≤ cfg.sizes.queueSize := cfg.sizesOk.2.2
    have hqueued : 0 < w.queued := by
      rw [← h.queue]
      omega
    unfold Worker.queued at hqueued
    unfold Worker.inFlight
    rcases hr : w.reads with _ | ⟨c, cs⟩
    · rcases hw : w.writes with _ | ⟨c, cs⟩
      · simp only [hr, hw, hf, List.map_nil, List.sum_nil, Nat.add_zero, Nat.lt_irrefl] at hqueued
      · simp only [List.length_cons]
        omega
    · simp only [List.length_cons]
      omega

/-- An action that leads to `poll` has found a command in flight. -/
theorem begin_awaits (ha : Accounted w) (hreq : 0 < s.maxRequests) (hb : w.begin s next act = .ok b)
    {m : Memory} (hrun : b.code.run b.worker.memory = .ok (.poll, m)) :
    (∃ answer, act = .run answer) ∧ w.frames = [] ∧ 0 < b.worker.inFlight ∧
      b.code.accesses b.worker.memory ≤ 1 := by
  obtain ⟨hact, hwaits⟩ | hupdates := begin_updates hb
  · obtain ⟨x, hx, hpoll⟩ := hwaits.run
    obtain rfl : (.poll, m) = x := Except.ok.inj (hrun.symm.trans hx)
    obtain ⟨-, hfew, hbusy⟩ := hpoll rfl
    refine ⟨hact, hwaits.frames, ?_, hfew⟩
    rw [hwaits.worker]
    exact hbusy.elim id (ha.in_flight hreq hwaits.frames)
  · have hno : Next.polls .poll = false := hupdates.runs.run_ok hrun
    cases hno

theorem accesses_freeCommand (c : Command) (m : Memory) :
    (Code.freeCommand c (.ret .go)).accesses m ≤ 3 := by
  unfold Code.freeCommand
  split
  · exact Nat.zero_le 3
  · simp only [Prog.accesses]
    split <;> simp only [Prog.accesses] <;> omega

theorem accesses_decreaseQueueSize (len : Nat) {k : Code} {n : Nat} (hk : ∀ m, k.accesses m ≤ n)
    (m : Memory) : (Code.decreaseQueueSize len k).accesses m ≤ n + 3 := by
  simp only [Code.decreaseQueueSize, Prog.accesses]
  split
  · simp only [Prog.accesses]
    have := hk (Memory.setQueueSize (wrapSub (2 ^ 64 - 1) m.queueSize len) m)
    omega
  · simp only [Prog.accesses]
    omega

theorem Code.Updates.accesses_le {code : Code} (h : code.Updates) (m : Memory) :
    code.accesses m ≤ 6 := by
  cases h with
  | none => exact Nat.zero_le 6
  | free c => exact Nat.le_trans (accesses_freeCommand c m) (by decide)
  | finish c =>
    unfold Code.finishedCommand
    split
    · exact accesses_decreaseQueueSize c.len (accesses_freeCommand c) m
    · exact Nat.le_trans (accesses_freeCommand c m) (by decide)
  | decrease len =>
    exact Nat.le_trans (accesses_decreaseQueueSize len (fun _ => Nat.le_refl 0) m) (by decide)
  | addRef b c => exact (by decide : 2 ≤ 6)

theorem begin_accesses (hb : w.begin s next act = .ok b) : b.code.accesses b.worker.memory ≤ 6 := by
  obtain ⟨-, hwaits⟩ | hupdates := begin_updates hb
  · obtain ⟨hcode, -⟩ | ⟨r, c, hcode⟩ := hwaits.code
    · rw [hcode]
      exact Nat.zero_le 6
    · rw [hcode]
      simp only [Code.startRead, Code.increaseQueueSize, Prog.accesses]
      split
      · simp only [Prog.accesses]
        omega
      · simp only [Prog.accesses]
        split <;> simp only [Prog.accesses] <;> omega
  · exact hupdates.accesses_le _

end Going

/-! ## What a thread has still to do -/

/-- A bound on the steps up to the next action. -/
def Next.left : Next → Nat
  | .go => 2
  | .poll => 0
  | _ => 3

def Thread.left (th : Thread) : Nat :=
  match th.status with
  | .free => 2
  | .polling => 0
  | .calling _ => 3
  | .busy code _ =>
    match code.run th.worker.memory with
    | .ok x => code.accesses th.worker.memory + x.1.left
    | .error _ => 0

def Threads.left (t : Threads) : Nat :=
  (t.threads.map Thread.left).sum + if t.visit.isNone then 1 else 0

/-- A thread that is in `poll`, or about to go there, has a command in flight. -/
def Thread.Waits (th : Thread) : Prop :=
  match th.status with
  | .polling => 0 < th.worker.inFlight
  | .busy code _ =>
    (∀ n, code ≠ .ret n) ∧ ∀ m, code.run th.worker.memory = .ok (.poll, m) → 0 < th.worker.inFlight
  | _ => True

/-- The threads and the atomic workers, when no callback of the first worker is running in
another thread. -/
structure Threads.Flows (s : Setup) (t : Threads) (a : Copying) : Prop where
  tracks : t.Tracks a
  reachable : (copying s.toConfig).Reachable a
  halted : t.halted = none
  alone : t.visit.bind Visit.callback = none
  waits : ∀ th ∈ t.threads, th.Waits
  visitor : ∀ v, t.visit = some v → ∃ th, t.threads[v.thread]? = some th ∧ th.status = .free ∧
    th.worker.writesZeroes = true

/-- Nobody gets the reply to a write of the first worker in its stead. -/
def Unanswered (_ : Threads) : Nat × Event → Prop
  | (_, .answer _) => False
  | _ => True

instance (t : Threads) : (l : Nat × Event) → Decidable (Unanswered t l)
  | (_, .answer _) => .isFalse id
  | (_, .begin _) => .isTrue trivial
  | (_, .tick) => .isTrue trivial
  | (_, .enter) => .isTrue trivial
  | (_, .leave) => .isTrue trivial
  | (_, .wake) => .isTrue trivial

theorem unanswered_of_noFallback {s : Setup} {n : Nat} (hs : s.NoFallback n) {ls : List (Nat × Event)}
    {t : Threads} (he : (threads s).exec ⟨0, List.replicate n {}, none, [], none⟩ ls = some t) :
    (threads s).Meets Unanswered ⟨0, List.replicate n {}, none, [], none⟩ ls := by
  refine meets_of_noFallback hs (fun t i e _ hno => ?_) he
  cases e with
  | answer k => exact absurd rfl (hno k)
  | _ => trivial

/-- Neither a return from `poll` nor a reply that another thread takes. -/
def Event.Own : Event → Prop
  | .wake => False
  | .answer _ => False
  | _ => True

def Event.fuel : Event → Nat
  | .wake => 3
  | _ => 0

section Flow

variable {s : Setup} {t t' : Threads} {a : Copying} {i : Nat} {th : Thread} {e : Event} {code : Code}
  {m : Memory} {locked : Bool} {n : Next} {act : Action} {b : Begun}

theorem settle_left (w : Worker) (locked : Bool) (h : code.run w.memory = .ok (n, m)) :
    (Thread.settle w code locked).left = code.accesses w.memory + n.left := by
  cases code with
  | ret n' =>
    cases h
    cases n <;> rfl
  | stop halt => cases h
  | load k =>
    simp only [Thread.settle, Thread.left, h]
  | store f p =>
    simp only [Thread.settle, Thread.left, h]

theorem Next.left_le (n : Next) : n.left ≤ 3 := by
  cases n <;> simp only [Next.left, Nat.le_refl, Nat.zero_le, Nat.reduceLeDiff]

theorem settle_waits {w : Worker} (h : ∀ m, code.run w.memory = .ok (.poll, m) → 0 < w.inFlight) :
    (Thread.settle w code locked).Waits := by
  cases code with
  | ret n =>
    cases n with
    | poll => exact h _ rfl
    | _ => exact trivial
  | _ => exact ⟨fun n => by simp, h⟩

theorem Threads.Flows.callback (h : t.Flows s a) (j : Nat) : t.callback j = none :=
  callback_free rfl h.alone j

theorem Threads.Flows.accounted (h : t.Flows s a) (hi : t.threads[i]? = some th)
    (hbetween : th.Between) : Typed s.toConfig th.worker ∧ Accounted th.worker := by
  obtain ⟨w, hw, hsettled⟩ := h.tracks.worker hi
  obtain ⟨-, rfl⟩ | ⟨code, -, hcode, -⟩ := hbetween.worker hsettled
  · exact reachable_accounted h.reachable (List.mem_of_getElem? hw)
  · rw [h.callback] at hcode
    cases hcode

theorem Threads.Flows.no_error (hext : s.Described) (h : t.Flows s a) (hi : t.threads[i]? = some th)
    (hbetween : th.Between) {halt : Halt} (hb : th.worker.begin s t.next act = .error halt) :
    halt = .blocked :=
  (reachable_inv hext h.reachable).blocked
    (h.tracks.begin_error h.reachable hi hbetween (.inl (h.callback i)) hb)

/-- The other threads have not changed. -/
theorem Threads.Flows.waits_set (h : t.Flows s a) {th' : Thread} (hth : th'.Waits) :
    ∀ v ∈ t.threads.set i th', v.Waits := by
  intro v hv
  rcases List.mem_or_eq_of_mem_set hv with hmem | rfl
  · exact h.waits v hmem
  · exact hth

/-- The thread that is in `nbd_pwrite` is another one. -/
theorem Threads.Flows.visitor_set (h : t.Flows s a) (hi : t.threads[i]? = some th)
    (hbusy : th.status ≠ .free) {th' : Thread} : ∀ v, t.visit = some v →
      ∃ th₁, (t.threads.set i th')[v.thread]? = some th₁ ∧ th₁.status = .free ∧
        th₁.worker.writesZeroes = true := by
  intro v hv
  obtain ⟨th₁, hth₁, hfree, hwrites⟩ := h.visitor v hv
  refine ⟨th₁, (List.getElem?_set_ne fun heq => ?_).trans hth₁, hfree, hwrites⟩
  rw [← heq, hi] at hth₁
  cases hth₁
  exact hbusy hfree

theorem left_set (hi : t.threads[i]? = some th) (th' : Thread) :
    ((t.threads.set i th').map Thread.left).sum + th.left =
      (t.threads.map Thread.left).sum + th'.left :=
  sum_set Thread.left hi th'

theorem Thread.Waits.run (h : th.Waits) {code : Code} {locked : Bool}
    (hstatus : th.status = .busy code locked) : (∀ n, code ≠ .ret n) ∧
      ∀ m, code.run th.worker.memory = .ok (.poll, m) → 0 < th.worker.inFlight := by
  unfold Thread.Waits at h
  rwa [hstatus] at h

/-- The thread is busy with a program that comes to its end. -/
theorem Threads.Flows.runs (h : t.Flows s a) (hi : t.threads[i]? = some th)
    (hstatus : th.status = .busy code locked) : ∃ x, code.run th.worker.memory = .ok x := by
  obtain ⟨w, -, hsettled⟩ := h.tracks.worker hi
  rw [Threads.settled, h.callback] at hsettled
  dsimp only at hsettled
  rw [Thread.settled, hstatus] at hsettled
  obtain ⟨⟨n, w'⟩, hafter, -⟩ := map_ok hsettled
  obtain ⟨m, hrun⟩ := Worker.run_of_after hafter
  exact ⟨(n, m), hrun⟩

theorem frames_of_writesZeroes {w : Worker} (h : w.writesZeroes = true) : w.frames ≠ [] := by
  intro hnil
  rw [Worker.writesZeroes, hnil] at h
  cases h

theorem Thread.free_of_ready (h : th.ready s i act = true) :
    th.status = .free ∨ act.Completes := by
  unfold Thread.ready at h
  cases hstatus : th.status with
  | free => exact .inl rfl
  | polling =>
    rw [hstatus] at h
    cases act with
    | run answer => cases h
    | _ => exact .inr trivial
  | _ =>
    rw [hstatus] at h
    cases h

/-- The work of the atomic workers, and what the threads have to do until the next action. -/
def Threads.rank (s : Setup) (t : Threads) (a : Copying) : Nat := 10 * a.work s.toConfig + t.left

/-- **An action begins**, in the thread's own time or with the reply to its zeroes. -/
theorem Threads.Flows.begin (hreq : 0 < s.maxRequests) (h : t.Flows s a)
    (hi : t.threads[i]? = some th) (hbetween : th.Between)
    (hfree : th.status = .free ∨ act.Completes)
    (hb : th.worker.begin s t.next act = .ok b) (locked : Bool) {visit : Option Visit}
    (hvisit : visit.bind Visit.callback = none)
    (hkeep : ∀ v, visit = some v → v.thread ≠ i ∧ t.visit = some v)
    (hleave : visit = t.visit ∨ visit = none ∧ th.status = .free ∧ th.worker.frames ≠ []) :
    ∃ a', (t.begun i b locked visit).Flows s a' ∧
      1 + (t.begun i b locked visit).rank s a' ≤ t.rank s a := by
  obtain ⟨htyped, hacc⟩ := h.accounted hi hbetween
  obtain ⟨a', hcase, htracks⟩ := h.tracks.begin locked visit h.reachable hi hbetween
    (.inl (h.callback i)) hb (hvisit.trans h.alone.symm)
  have hwaits : ∀ m, b.code.run b.worker.memory = .ok (.poll, m) → 0 < b.worker.inFlight :=
    fun m hm => (begin_awaits hacc hreq hb hm).2.2.1
  refine ⟨a', ⟨htracks, reachable_begun h.reachable hcase, h.halted, hvisit,
    h.waits_set (settle_waits hwaits), fun v hv => ?_⟩, ?_⟩
  · obtain ⟨hne, hold⟩ := hkeep v hv
    obtain ⟨th', hth', hfree', hwrites'⟩ := h.visitor v hold
    exact ⟨th', (List.getElem?_set_ne hne.symm).trans hth', hfree', hwrites'⟩
  · have hset := left_set hi (.settle b.worker b.code locked)
    have hbit : (if visit.isNone then 1 else 0) ≤ 1 + (if t.visit.isNone then 1 else 0) := by
      split <;> omega
    have hrank : ∀ a', (t.begun i b locked visit).rank s a' = 10 * a'.work s.toConfig +
        (((t.threads.set i (.settle b.worker b.code locked)).map Thread.left).sum +
          if visit.isNone then 1 else 0) := fun _ => rfl
    rw [hrank, Threads.rank, Threads.left]
    obtain ⟨rfl, m, hm⟩ | hstep := hcase
    · -- the worker has to wait, and the test has been used up
      obtain ⟨⟨answer, rfl⟩, hframes, -, hfew⟩ := begin_awaits hacc hreq hb hm
      have hnew := settle_left b.worker locked hm
      have hstatus : th.status = .free := hfree.resolve_right fun hno => hno
      have hold : th.left = 2 := by
        rw [Thread.left, hstatus]
      have hpoll : Next.left .poll = 0 := rfl
      obtain rfl | ⟨-, -, hne⟩ := hleave
      · omega
      · exact absurd hframes hne
    · obtain ⟨-, hless⟩ := work_step (reachable_paced h.reachable) hstep
      have hsmall : (Thread.settle b.worker b.code locked).left ≤ 9 := by
        obtain ⟨n, w', hafter, -⟩ := begin_after htyped hacc hb
        obtain ⟨m, hrun⟩ := Worker.run_of_after hafter
        have haccesses := begin_accesses hb
        have hnext := n.left_le
        rw [settle_left b.worker locked hrun]
        omega
      obtain rfl | ⟨-, hstatus, -⟩ := hleave
      · omega
      · have hold : th.left = 2 := by
          rw [Thread.left, hstatus]
        omega

/-- **Step lemma.** -/
theorem step_flows (hext : s.Described) (hreq : 0 < s.maxRequests) (h : t.Flows s a)
    (hu : Unanswered t (i, e)) (hs : t.step s i e = some t') :
    ∃ a', t'.Flows s a' ∧ 1 + t'.rank s a' ≤ t.rank s a + e.fuel := by
  obtain ⟨-, hmoved⟩ := step_moved hs
  cases hmoved with
  | begun hi hready hvisits hb =>
    next th act b locked =>
    refine h.begin hreq hi (Thread.between_of_ready hready) (Thread.free_of_ready hready) hb locked
      h.alone (fun v hv => ⟨fun heq => ?_, hv⟩) (.inl rfl)
    rw [Threads.visits, hv, Option.any_some, heq, beq_self_eq_true] at hvisits
    cases hvisits
  | failed hi hready hb hne =>
    exact absurd (h.no_error hext hi (Thread.between_of_ready hready) hb) hne
  | accessed hi hstatus hnext =>
    next th code code' locked m =>
    obtain ⟨hgoes, htracks⟩ := h.tracks.access hi hstatus hnext
    obtain ⟨⟨n, m'⟩, hrun⟩ := h.runs hi hstatus
    have hrun' : code'.run m = .ok (n, m') := (Prog.run_next hnext).trans hrun
    obtain ⟨-, hpoll⟩ := (h.waits th (List.mem_of_getElem? hi)).run hstatus
    refine ⟨a, ⟨htracks, h.reachable, hgoes, h.alone, h.waits_set (settle_waits fun m₁ hm₁ => ?_),
      h.visitor_set hi (by rw [hstatus]; exact fun h => by cases h)⟩, ?_⟩
    · have hsame : (Next.poll, m₁) = (n, m') := Except.ok.inj (hm₁.symm.trans hrun')
      cases hsame
      exact hpoll _ hrun
    · have hset := left_set hi (.settle (th.worker.withMemory m) code' locked)
      have hnew := settle_left (th.worker.withMemory m) locked hrun'
      have hold : th.left = code.accesses th.worker.memory + n.left := by
        rw [Thread.left, hstatus]
        dsimp only
        rw [hrun]
      have hfewer := Prog.accesses_next hnext
      rw [memory_withMemory] at hnew
      unfold Threads.rank Threads.left
      dsimp only
      omega
  | called hi hstatus =>
    next th n =>
    refine ⟨a, ⟨h.tracks.call hi hstatus, h.reachable, h.halted, h.alone, h.waits_set trivial,
      h.visitor_set hi (by rw [hstatus]; exact fun h => by cases h)⟩, ?_⟩
    · have hset := left_set hi ⟨n.apply th.worker, .free⟩
      have hnew : Thread.left ⟨n.apply th.worker, .free⟩ = 2 := rfl
      have hold : th.left = 3 := by
        rw [Thread.left, hstatus]
      unfold Threads.rank Threads.left
      dsimp only
      omega
  | calledBack h₀ hvisit hnext =>
    have halone := h.alone
    rw [hvisit] at halone
    cases halone
  | entered hi hfree hvisit hshared hother hwrites =>
    next th =>
    refine ⟨a, ⟨h.tracks.enter hi hvisit, h.reachable, h.halted, rfl, h.waits, fun v hv => ?_⟩, ?_⟩
    · cases hv
      exact ⟨th, hi, hfree, hwrites⟩
    · unfold Threads.rank Threads.left
      rw [hvisit]
      exact Nat.le_of_eq (Nat.add_comm _ _)
  | answered => exact hu.elim
  | answerFailed => exact hu.elim
  | left hi hfree hvisit hb =>
    next th b =>
    obtain ⟨th', hth', -, hwrites⟩ := h.visitor _ hvisit
    obtain rfl : th = th' := Option.some.inj (hi.symm.trans hth')
    exact h.begin hreq hi (.inl hfree) (.inl hfree) hb false rfl (fun v hv => by cases hv)
      (.inr ⟨rfl, hfree, frames_of_writesZeroes hwrites⟩)
  | woken hi hpolling =>
    next th =>
    refine ⟨a, ⟨h.tracks.wake hi hpolling, h.reachable, h.halted, h.alone, h.waits_set trivial,
      h.visitor_set hi (by rw [hpolling]; exact fun h => by cases h)⟩, ?_⟩
    · have hset := left_set hi { th with status := .free }
      have hnew : Thread.left { th with status := .free } = 2 := rfl
      have hfuel : Event.fuel .wake = 3 := rfl
      unfold Threads.rank Threads.left
      dsimp only
      omega

/-- **Run lemma.** -/
theorem exec_flows (hext : s.Described) (hreq : 0 < s.maxRequests) {ls : List (Nat × Event)}
    (h : t.Flows s a) (hm : (threads s).Meets Unanswered t ls) (he : (threads s).exec t ls = some t') :
    ∃ a', t'.Flows s a' ∧
      ls.length + t'.rank s a' ≤ t.rank s a + (ls.map fun l => l.2.fuel).sum := by
  induction ls generalizing t a with
  | nil =>
    cases he
    exact ⟨a, h, by simp⟩
  | cons l ls ih =>
    obtain ⟨i, e⟩ := l
    obtain ⟨t₁, hs, hrest⟩ := Option.bind_eq_some_iff.mp he
    obtain ⟨a₁, h₁, hrank⟩ := step_flows hext hreq h hm.1 hs
    obtain ⟨a', h', hrun⟩ := ih h₁ (hm.2 t₁ hs) hrest
    refine ⟨a', h', ?_⟩
    simp only [List.length_cons, List.map_cons, List.sum_cons]
    omega

theorem step_eq (h : t.Flows s a) (hi : t.threads[i]? = some th) (act : Action) :
    t.step s i (.begin act) = t.beginStep s i th act := by
  simp only [Threads.step, h.halted, hi, Option.isSome_none, Bool.false_eq_true, if_false]

/-- The thread that writes zeroes gets its reply. -/
theorem Threads.Flows.leaves (hext : s.Described) (h : t.Flows s a) {v : Visit}
    (hv : t.visit = some v) : (t.step s v.thread .leave).isSome = true := by
  obtain ⟨th, hi, hfree, hwrites⟩ := h.visitor v hv
  have hnone : v.callback = none := by
    have halone := h.alone
    rwa [hv] at halone
  obtain ⟨j, c⟩ := v
  obtain rfl : c = none := hnone
  cases hb : th.worker.begin s t.next (.run false) with
  | error halt =>
    obtain rfl := h.no_error hext hi (.inl hfree) hb
    exact absurd hb (begin_goes (.inl (frames_of_writesZeroes hwrites)) false)
  | ok b =>
    simp only [Threads.step, h.halted, hi, hfree, hv, Threads.leaveStep, hb, Option.isSome_none,
      Bool.false_eq_true, if_false, if_true, Option.isSome_some]

/-- A busy thread makes its next access. -/
theorem Threads.Flows.ticks (h : t.Flows s a) (hv : t.visit = none) (hi : t.threads[i]? = some th)
    (hstatus : th.status = .busy code locked) : (t.step s i .tick).isSome = true := by
  obtain ⟨hret, -⟩ := (h.waits th (List.mem_of_getElem? hi)).run hstatus
  obtain ⟨x, hrun⟩ := h.runs hi hstatus
  simp only [Threads.step, h.halted, hi, hv, Threads.tickStep, hstatus, Option.isSome_none,
    Bool.false_eq_true, if_false, Option.isSome_map]
  cases code with
  | ret n => exact absurd rfl (hret n)
  | stop halt => cases hrun
  | _ => rfl

/-- An action that a thread can begin by itself. -/
theorem Threads.Flows.begins (h : t.Flows s a) (hv : t.visit = none) (hi : t.threads[i]? = some th)
    (hready : th.ready s i act = true) (hgoes : th.worker.begin s t.next act ≠ .error .blocked) :
    (t.step s i (.begin act)).isSome = true := by
  rw [step_eq h hi]
  unfold Threads.beginStep
  rw [if_neg]
  · cases hb : th.worker.begin s t.next act with
    | error halt =>
      cases halt with
      | blocked => exact absurd hb hgoes
      | _ => rfl
    | ok b => rfl
  · simp [hready, Threads.visits, Threads.taken, hv]

/-- Until all threads have returned, some thread goes on. -/
theorem Threads.Flows.goes_on (hext : s.Described) (h : t.Flows s a) (hfinished : t.finished = false) :
    ∃ i e, Event.Own e ∧ (t.step s i e).isSome = true := by
  cases hv : t.visit with
  | some v => exact ⟨v.thread, .leave, trivial, h.leaves hext hv⟩
  | none =>
    obtain ⟨th, hmem, hth⟩ : ∃ th ∈ t.threads, ¬ (th.worker.pc = .done ∧ th.status = .free) := by
      rw [Threads.finished, hv, Option.isNone_none, Bool.true_and] at hfinished
      obtain ⟨th, hmem, hno⟩ := List.all_eq_false.mp hfinished
      refine ⟨th, hmem, fun hdone => hno ?_⟩
      rw [hdone.1, hdone.2]
    obtain ⟨i, hi⟩ := List.mem_iff_getElem?.mp hmem
    cases hstatus : th.status with
    | busy code locked =>
      exact ⟨i, .tick, trivial, h.ticks hv hi hstatus⟩
    | calling n =>
      refine ⟨i, .tick, trivial, ?_⟩
      simp only [Threads.step, h.halted, hi, hv, Threads.tickStep, hstatus, Threads.taken,
        Option.isSome_none, Bool.and_false, Bool.false_and, Bool.false_eq_true, if_false,
        Option.isSome_some]
    | polling =>
      have hbusy : 0 < th.worker.inFlight := by
        have hwaits := h.waits th hmem
        rwa [Thread.Waits, hstatus] at hwaits
      obtain ⟨act, hact, hgoes⟩ := begin_completion (s := s) t.next hbusy
      refine ⟨i, .begin act, trivial, h.begins hv hi ?_ hgoes⟩
      unfold Thread.ready
      rw [hstatus]
      cases act with
      | run answer => exact hact.elim
      | _ => rfl
    | free =>
      have hgoes : th.worker.begin s t.next (.run false) ≠ .error .blocked :=
        begin_goes (.inr fun hpc => hth ⟨hpc, hstatus⟩) false
      by_cases hready : th.ready s i (.run false) = true
      · exact ⟨i, .begin (.run false), trivial, h.begins hv hi hready hgoes⟩
      · -- it writes zeroes through the first handle, if that is not in use
        have hwrites : (s.shared && i != 0 && th.worker.writesZeroes) = true := by
          unfold Thread.ready at hready
          rw [hstatus] at hready
          simpa using hready
        cases hlocked : t.firstLocked with
        | false =>
          refine ⟨i, .enter, trivial, ?_⟩
          simp only [Threads.step, h.halted, hi, hstatus, hv, hwrites, hlocked, Option.isSome_none,
            Bool.false_eq_true, if_false, Bool.not_false, Bool.and_true, if_true, Option.isSome_some]
        | true =>
          unfold Threads.firstLocked at hlocked
          obtain ⟨th₀, h₀, hbusy⟩ := (Option.any_eq_true _ _).mp hlocked
          split at hbusy
          · next code locked hstatus₀ =>
            exact ⟨0, .tick, trivial, h.ticks hv h₀ hstatus₀⟩
          · cases hbusy

end Flow

/-! ## The whole copy -/

theorem work_start (cfg : Config) (threads : Nat) :
    Copying.work cfg ⟨0, List.replicate threads {}, []⟩ = 11 * cfg.size + 2 * threads := by
  have hone : Worker.work cfg {} = 2 := rfl
  simp only [Copying.work, Nat.sub_zero, List.map_replicate, List.sum_replicate_nat, hone,
    Nat.mul_comm]

theorem flows_start (s : Setup) {n : Nat} (hn : 0 < n) :
    Threads.Flows s ⟨0, List.replicate n {}, none, [], none⟩ ⟨0, List.replicate n {}, []⟩ where
  tracks := tracks_start n
  reachable := ⟨_, [], ⟨n, hn, rfl⟩, rfl⟩
  halted := rfl
  alone := rfl
  waits th hth := by
    obtain rfl := List.eq_of_mem_replicate hth
    trivial
  visitor v hv := by cases hv

/-- As long as no thread takes a reply that the first worker waits for, the copy is over after
110 steps for each byte, 22 for each thread and three for each return from `poll`, in every
order of the threads' accesses and of the completions. No thread is in `poll` without a command
in flight, and until all of them have returned one of them can go on. -/
theorem copying_finishes_unless_answered (s : Setup) (hext : s.Described) (hreq : 0 < s.maxRequests)
    {n : Nat} (hn : 0 < n) {ls : List (Nat × Event)} {t : Threads}
    (hm : (threads s).Meets Unanswered ⟨0, List.replicate n {}, none, [], none⟩ ls)
    (h : (threads s).exec ⟨0, List.replicate n {}, none, [], none⟩ ls = some t) :
    ls.length ≤ 110 * s.size + 22 * n + 1 + (ls.map fun l => l.2.fuel).sum ∧
      (∀ th ∈ t.threads, th.status = .polling → 0 < th.worker.inFlight) ∧
      (t.finished = false →
        ∃ i e, Event.Own e ∧ (t.step s i e).isSome = true) := by
  obtain ⟨a, hflows, hlen⟩ := exec_flows hext hreq (flows_start s hn) hm h
  refine ⟨?_, fun th hth hpolling => ?_, hflows.goes_on hext⟩
  · have hleft : Threads.left ⟨0, List.replicate n {}, none, [], none⟩ = 2 * n + 1 := by
      have hone : Thread.left {} = 2 := rfl
      simp only [Threads.left, List.map_replicate, List.sum_replicate_nat, hone, Nat.mul_comm,
        Option.isNone_none, if_true]
    have hstart : Threads.rank s ⟨0, List.replicate n {}, none, [], none⟩
        ⟨0, List.replicate n {}, []⟩ = 10 * (11 * s.size + 2 * n) + (2 * n + 1) := by
      rw [Threads.rank, work_start, hleft]
    omega
  · have hwaits := hflows.waits th hth
    rwa [Thread.Waits, hpolling] at hwaits

def Thread.isPolling (th : Thread) : Bool :=
  match th.status with
  | .polling => true
  | _ => false

theorem Thread.polling_of_isPolling {th : Thread} (h : th.isPolling = true) : th.status = .polling := by
  unfold Thread.isPolling at h
  split at h
  · next hstatus => exact hstatus
  · cases h

/-- The first thread reads the tail and comes to the end of its work range. -/
def tailRead : List (Nat × Event) := goOn 1 7 ++ goOn 0 4 ++ ticks 0 5 ++ goOn 0 3

theorem copying_finishes_with_a_wait : ∃ t th,
    (threads holeBeforeTail).exec twoThreads tailRead = some t ∧
    t.threads[0]? = some th ∧ 0 < th.worker.inFlight ∧
    ∃ i e, Event.Own e ∧ (t.step holeBeforeTail i e).isSome = true := by
  have hunanswered : (threads holeBeforeTail).Meets Unanswered twoThreads tailRead :=
    (threads holeBeforeTail).meets_of_check (by decide +kernel)
  have hrun : ((threads holeBeforeTail).exec twoThreads tailRead).any (fun t => !t.finished &&
      t.threads[0]?.any Thread.isPolling) = true := by
    decide +kernel
  obtain ⟨t, hexec, ht⟩ := (Option.any_eq_true _ _).mp hrun
  obtain ⟨hfinished, hth⟩ := (Bool.and_eq_true _ _).mp ht
  obtain ⟨th, hth, hpolling⟩ := (Option.any_eq_true _ _).mp hth
  obtain ⟨-, hbusy, hgoes⟩ := copying_finishes_unless_answered holeBeforeTail holeBeforeTail_described
    (by decide) (by decide) hunanswered hexec
  exact ⟨t, th, hexec, hth, hbusy th (List.mem_of_getElem? hth) (Thread.polling_of_isPolling hpolling),
    hgoes ((Bool.not_eq_true' _).mp hfinished)⟩

/-- With a visit the first worker may wait in `poll` for a reply that has been taken. -/
theorem polls_for_nothing : ∃ t th, (threads holeBeforeTail).Reachable t ∧
    t.threads[0]? = some th ∧ th.worker.inFlight = 0 ∧ th.status = .polling := by
  let run := visit ++ ticks 1 5 ++ [(1, Event.leave)] ++ goOn 0 1 ++ ticks 0 3 ++ goOn 0 1 ++ ticks 0 2 ++
    goOn 0 3 ++ [(1, Event.enter), (1, .answer 0)] ++ ticks 1 6
  have hrun : ((threads holeBeforeTail).exec twoThreads run).any (fun t => t.threads[0]?.any fun th =>
      th.worker.inFlight == 0 && th.isPolling) = true := by
    decide +kernel
  obtain ⟨t, hexec, ht⟩ := (Option.any_eq_true _ _).mp hrun
  obtain ⟨th, hth, hcheck⟩ := (Option.any_eq_true _ _).mp ht
  obtain ⟨hidle, hpolling⟩ := (Bool.and_eq_true _ _).mp hcheck
  exact ⟨t, th, ⟨twoThreads, run, init_twoThreads _, hexec⟩, hth, beq_iff_eq.mp hidle,
    Thread.polling_of_isPolling hpolling⟩

end Libnbd.Copy
