import Libnbd.Copy.Exact
import Libnbd.Copy.Threads

/-!
The threads of nbdcopy refine the atomic workers.

A thread that is left alone while it updates the counters of its worker makes one step of the
atomic worker. So a run in which no callback of the first worker overlaps, in another thread,
with an update by the first worker itself is a run of the atomic workers, in which each update
has been made as soon as it has begun.
-/

namespace Libnbd.Copy

open Lib

/-! ## Programs that are left alone -/

section Code

variable {cfg : Config} {m : Memory} {c : Command} {k : Code} {b : Nat} {buf : Buffer}

theorem modify_eq_set {α : Type} {l : List α} {i : Nat} {a : α} (h : l[i]? = some a) (f : α → α) :
    l.modify i f = l.set i (f a) := by
  rw [List.modify_eq_set_getElem?, h]
  rfl

theorem Memory.refs_eq (hbuf : m.buffers[b]? = some buf) : m.refs b = buf.refs := by
  simp only [Memory.refs, hbuf, Option.map_some, Option.getD_some]

theorem Memory.setRefs_eq (hbuf : m.buffers[b]? = some buf) (n : Nat) :
    m.setRefs b n = { m with buffers := m.buffers.set b { buf with refs := n } } := by
  rw [Memory.setRefs, modify_eq_set hbuf]

theorem Memory.free_eq (hbuf : m.buffers[b]? = some buf) :
    m.free b = { m with buffers := m.buffers.set b { buf with frees := buf.frees + 1 } } := by
  rw [Memory.free, modify_eq_set hbuf]

theorem run_decreaseQueueSize (len : Nat) : (Code.decreaseQueueSize len k).run m =
    if len ≤ m.queueSize then k.run { m with queueSize := m.queueSize - len }
    else .error (.failed .decreaseQueueSize) := by
  rw [Code.decreaseQueueSize, Prog.run_load]
  split
  · next hle =>
    rw [Prog.run_load, Prog.run_store, Memory.setQueueSize, wrapSub, if_pos hle]
  · rfl

theorem run_addRef (hbuf : m.buffers[b]? = some buf) : (Code.addRef b k).run m =
    k.run { m with buffers := m.buffers.set b { buf with refs := buf.refs + 1 } } := by
  rw [Code.addRef, Prog.run_load, Prog.run_store, Memory.setRefs_eq hbuf, Memory.refs_eq hbuf]

theorem freeCommand_none (hb : c.buffer = none) : Code.freeCommand c k = k := by
  rw [Code.freeCommand, hb]

/-- The last reference frees the buffer. -/
theorem run_freeCommand (hb : c.buffer = some b) (hbuf : m.buffers[b]? = some buf)
    (hpos : 0 < buf.refs) : (Code.freeCommand c k).run m =
      k.run { m with buffers := m.buffers.set b (Worker.dropRef buf) } := by
  obtain ⟨hlt, -⟩ := List.getElem?_eq_some_iff.mp hbuf
  have hsub : wrapSub uintMax (m.refs b) 1 = buf.refs - 1 := by
    rw [Memory.refs_eq hbuf, wrapSub, if_pos (show 1 ≤ buf.refs from hpos)]
  simp only [Code.freeCommand, hb, Prog.run_load, Prog.run_store, hsub, Memory.setRefs_eq hbuf]
  unfold Worker.dropRef
  by_cases hlast : buf.refs - 1 = 0
  · let last : Buffer := { buf with refs := buf.refs - 1 }
    have hdropped : (m.buffers.set b last)[b]? = some last := List.getElem?_set_self hlt
    rw [if_pos hlast, if_pos hlast, Prog.run_store,
      Memory.free_eq (m := { m with buffers := m.buffers.set b last }) hdropped, List.set_set]
  · rw [if_neg hlast, if_neg hlast]

theorem run_finishedCommand (hb : c.buffer = some b) (hbuf : m.buffers[b]? = some buf)
    (hpos : 0 < buf.refs) : (Code.finishedCommand c k).run m =
      if c.len ≤ m.queueSize then
        k.run ⟨m.queueSize - c.len, m.buffers.set b (Worker.dropRef buf)⟩
      else .error (.failed .decreaseQueueSize) := by
  rw [Code.finishedCommand, if_pos (by rw [hb]; rfl), run_decreaseQueueSize]
  split
  · exact run_freeCommand (m := ⟨m.queueSize - c.len, m.buffers⟩) hb hbuf hpos
  · rfl

theorem finishedCommand_none (hb : c.buffer = none) : Code.finishedCommand c k = k := by
  rw [Code.finishedCommand, if_neg (by rw [hb]; exact Bool.false_ne_true), freeCommand_none hb]

theorem run_startRead (r : Range) : (Code.startRead cfg r c).run m =
    if m.queueSize ≥ cfg.sizes.queueSize then .ok (.poll, m)
    else .ok (.read r c, { m with queueSize := m.queueSize + c.len }) := by
  rw [Code.startRead, Prog.run_load]
  split
  · rfl
  · next hfull =>
    rw [Code.increaseQueueSize, Prog.run_load, if_pos (Nat.lt_of_not_le hfull)]
    rfl

end Code

/-! ## Actions that are left alone -/

def Next.polls : Next → Bool
  | poll => true
  | _ => false

/-- What follows the updates, and the worker when that has been done as well. -/
def Worker.after (w : Worker) (code : Code) : Except Halt (Next × Worker) :=
  (code.run w.memory).map fun x => (x.1, x.1.apply (w.withMemory x.2))

/-- The action as one step. -/
def Begun.finish (b : Begun) : Except Halt Effect :=
  match b.worker.after b.code with
  | .error halt => .error halt
  | .ok (n, w) => if n.polls then .error .blocked else .ok ⟨w, b.next, b.ops⟩

/-- The action of the atomic worker. -/
def Setup.resolve (s : Setup) : Action → Action
  | .run answer => .run (s.asynchZero answer)
  | a => a

section Actions

variable {s : Setup} {cfg : Config} {w w' : Worker} {next : Nat} {b : Begun} {n : Next} {m : Memory}
  {halt : Halt} {c : Command}

theorem Worker.after_of_run {code : Code} (h : code.run w.memory = .ok (n, m)) :
    w.after code = .ok (n, n.apply (w.withMemory m)) := by
  rw [Worker.after, h]
  rfl

theorem Worker.run_of_after {code : Code} (h : w.after code = .ok (n, w')) :
    ∃ m, code.run w.memory = .ok (n, m) := by
  obtain ⟨⟨n', m⟩, hrun, hx⟩ := map_ok h
  cases hx
  exact ⟨m, hrun⟩

theorem Begun.finish_ok (h : b.code.run b.worker.memory = .ok (n, m)) (hn : n.polls = false) :
    b.finish = .ok ⟨n.apply (b.worker.withMemory m), b.next, b.ops⟩ := by
  simp only [Begun.finish, Worker.after_of_run h, hn, Bool.false_eq_true, if_false]

theorem Begun.finish_poll (h : b.code.run b.worker.memory = .ok (.poll, m)) :
    b.finish = .error .blocked := by
  simp only [Begun.finish, Worker.after_of_run h, Next.polls, if_true]

theorem Begun.finish_error (h : b.code.run b.worker.memory = .error halt) :
    b.finish = .error halt := by
  simp only [Begun.finish, Worker.after, h, Except.map]

theorem beginLoop_finish (w : Worker) (cfg : Config) (next : Nat) :
    w.runLoop cfg next = (w.beginLoop cfg next).bind Begun.finish := by
  unfold Worker.beginLoop
  cases hpc : w.pc with
  | wait r c =>
    simp only [Worker.runLoop, hpc]
    by_cases hmany : w.inFlight ≥ cfg.maxRequests
    · rw [if_pos (.inl hmany), if_pos hmany]
      rfl
    · rw [if_neg hmany]
      have hrun : (Code.startRead cfg r c).run w.memory = _ := run_startRead r
      by_cases hfull : w.queueSize ≥ cfg.sizes.queueSize
      · rw [if_pos (.inr hfull)]
        rw [if_pos (show w.memory.queueSize ≥ cfg.sizes.queueSize from hfull)] at hrun
        exact (Begun.finish_poll (b := ⟨w, next, [], .startRead cfg r c⟩) hrun).symm
      · rw [if_neg (by omega)]
        rw [if_neg (show ¬ w.memory.queueSize ≥ cfg.sizes.queueSize from hfull)] at hrun
        rw [Worker.increaseQueueSize, if_pos (Nat.lt_of_not_le hfull)]
        exact (Begun.finish_ok (b := ⟨w, next, [], .startRead cfg r c⟩) hrun rfl).symm
  | drain =>
    simp only [Worker.runLoop, hpc]
    split <;> rfl
  | _ =>
    dsimp only
    cases w.runLoop cfg next <;> rfl

/-- The buffer of a live command has a reference left. -/
theorem Accounted.buffer (h : Accounted w) (hc : c ∈ w.live) {b : Nat} (hb : c.buffer = some b) :
    ∃ buf, w.buffers[b]? = some buf ∧ 0 < buf.refs ∧ buf.frees = 0 := by
  obtain ⟨⟨b', buf⟩, hof⟩ := h.bufferOf hc (by simp [hb])
  obtain ⟨hb', hbuf, hfrees⟩ := Worker.bufferOf_ok hof
  obtain rfl : b = b' := Option.some.inj (hb.symm.trans hb')
  refine ⟨buf, hbuf, Nat.pos_of_ne_zero fun hzero => ?_, hfrees⟩
  have hfreed := h.frees buf (List.mem_of_getElem? hbuf)
  rw [if_pos hzero, hfrees] at hfreed
  cases hfreed

theorem bufferOf_eq {b : Nat} {buf : Buffer} (hb : c.buffer = some b) (hbuf : w.buffers[b]? = some buf)
    (hfrees : buf.frees = 0) : w.bufferOf c = .ok (b, buf) := by
  simp only [Worker.bufferOf, hb, hbuf, hfrees, if_true]

/-- `free_command` of a live command, in one step and access by access. -/
theorem Accounted.freeCommand_finish (h : Accounted w) (hc : c ∈ w.live) (v : Worker)
    (hv : v.buffers = w.buffers) (ops : List DstOp) :
    (do let v ← v.freeCommand c; Except.ok (Effect.mk v next ops)) =
      Begun.finish ⟨v, next, ops, .freeCommand c (.ret .go)⟩ := by
  cases hb : c.buffer with
  | none =>
    rw [freeCommand_none hb, Begun.finish_ok rfl rfl, Worker.freeCommand, if_pos (by rw [hb]; rfl)]
    rfl
  | some b =>
    obtain ⟨buf, hbuf, hpos, hfrees⟩ := h.buffer hc hb
    rw [← hv] at hbuf
    rw [Worker.freeCommand, if_neg (by rw [hb]; exact Bool.false_ne_true), bufferOf_eq hb hbuf hfrees,
      Begun.finish_ok (run_freeCommand hb hbuf hpos) rfl]
    rfl

/-- `finished_command` of a live command. -/
theorem Accounted.finishedCommand_finish (h : Accounted w) (hc : c ∈ w.live) (v : Worker)
    (hv : v.buffers = w.buffers) (ops : List DstOp) :
    (do let v ← v.finishedCommand c; Except.ok (Effect.mk v next ops)) =
      Begun.finish ⟨v, next, ops, .finishedCommand c (.ret .go)⟩ := by
  cases hb : c.buffer with
  | none =>
    rw [finishedCommand_none hb, ← freeCommand_none (k := .ret .go) hb,
      ← h.freeCommand_finish hc v hv ops, Worker.finishedCommand,
      if_neg (by rw [hb]; exact Bool.false_ne_true)]
    rfl
  | some b =>
    obtain ⟨buf, hbuf, hpos, hfrees⟩ := h.buffer hc hb
    rw [← hv] at hbuf
    have hrun := run_finishedCommand (k := .ret .go) (m := v.memory) hb hbuf hpos
    rw [Worker.finishedCommand, if_pos (by rw [hb]; rfl), Worker.decreaseQueueSize]
    by_cases hle : c.len ≤ v.queueSize
    · rw [if_pos hle]
      rw [if_pos (show c.len ≤ v.memory.queueSize from hle)] at hrun
      rw [Begun.finish_ok hrun rfl]
      simp only [Worker.freeCommand, hb, Option.isNone_some, Bool.false_eq_true, if_false]
      have hof : Worker.bufferOf { v with queueSize := v.queueSize - c.len } c = .ok (b, buf) :=
        bufferOf_eq hb hbuf hfrees
      simp only [bind, Except.bind, hof]
      rfl
    · rw [if_neg hle]
      rw [if_neg (show ¬ c.len ≤ v.memory.queueSize from hle)] at hrun
      rw [Begun.finish_error hrun]
      rfl

theorem createSubcommand_in {p : Part} (hin : p.In c) : w.createSubcommand c p =
    if p.zero then .ok (w, ⟨p.offset, p.len, 0, none⟩)
    else w.bufferOf c >>= fun x =>
      .ok (w.setBuffer x.1 { x.2 with refs := x.2.refs + 1 },
        ⟨p.offset, p.len, p.offset - c.offset, c.buffer⟩) := by
  obtain ⟨hlo, hlt, hle⟩ := hin
  rw [Worker.createSubcommand, if_neg (not_not_intro ⟨hlo, hlt⟩), if_neg (not_not_intro hle)]

theorem createSubcommand_not_in {p : Part} (hin : ¬ p.In c) :
    w.createSubcommand c p = .error (.failed .subcommand) := by
  unfold Worker.createSubcommand
  split
  · rfl
  · next hlo =>
    rw [if_pos fun hle => hin ⟨(not_not.mp hlo).1, (not_not.mp hlo).2, hle⟩]

theorem beginFrame_finish (ht : Typed s.toConfig w) (ha : Accounted w) {f : Frame} {fs : List Frame}
    (hf : w.frames = f :: fs) (answer : Bool) :
    w.runFrame s.toConfig next (s.asynchZero answer) fs f =
      (w.beginFrame s next answer fs f).bind Begun.finish := by
  have hlive := mem_live_of_frames hf
  cases f with
  | finishedRead c parts =>
    cases parts with
    | nil => exact ha.freeCommand_finish hlive { w with frames := fs } rfl []
    | cons p ps =>
      unfold Worker.runFrame Worker.beginFrame
      dsimp only
      by_cases hin : p.In c
      · rw [createSubcommand_in hin, if_neg (not_not_intro hin)]
        cases hz : p.zero with
        | true =>
          simp only [if_true]
          let b : Begun := {
            worker := { w with
              frames := .fill ⟨p.offset, p.len, 0, none⟩ none :: .finishedRead c ps :: fs }
            next
            code := .decreaseQueueSize p.len (.ret .go) }
          have hrun := run_decreaseQueueSize (k := .ret .go) (m := b.worker.memory) p.len
          show _ = b.finish
          simp only [Worker.decreaseQueueSize]
          by_cases hle : p.len ≤ w.queueSize
          · rw [if_pos (show p.len ≤ b.worker.memory.queueSize from hle)] at hrun
            rw [Begun.finish_ok hrun rfl]
            simp only [bind, Except.bind, ge_iff_le, if_pos hle]
            rfl
          · rw [if_neg (show ¬ p.len ≤ b.worker.memory.queueSize from hle)] at hrun
            rw [Begun.finish_error hrun]
            simp only [bind, Except.bind, ge_iff_le, if_neg hle]
        | false =>
          have hsome : c.buffer ≠ none := (ht.top hf).1
          obtain ⟨b₀, hb⟩ := Option.ne_none_iff_exists'.mp hsome
          obtain ⟨buf, hbuf, -, hfrees⟩ := ha.buffer hlive hb
          let b : Begun := {
            worker := { w with frames := .finishedRead c ps :: fs }
            next
            code := .addRef b₀ (.ret (.write ⟨p.offset, p.len, p.offset - c.offset, some b₀⟩)) }
          have hmem : b.worker.memory.buffers[b₀]? = some buf := hbuf
          have hrun := run_addRef
            (k := .ret (.write ⟨p.offset, p.len, p.offset - c.offset, some b₀⟩)) hmem
          simp only [hb, bufferOf_eq hb hbuf hfrees, bind, Except.bind, Bool.false_eq_true, if_false]
          exact (Begun.finish_ok (b := b) hrun rfl).symm
      · rw [createSubcommand_not_in hin, if_pos hin]
        rfl
  | fill c dataSize =>
    cases dataSize with
    | none =>
      unfold Worker.runFrame Worker.beginFrame
      dsimp only
      split
      · exact ha.freeCommand_finish hlive { w with frames := fs } rfl [.skip c.offset c.len]
      · split <;> rfl
    | some dataSize =>
      unfold Worker.runFrame Worker.beginFrame
      dsimp only
      split
      · rfl
      · exact ha.freeCommand_finish hlive { w with frames := fs } rfl []

theorem beginRead_finish (ht : Typed s.toConfig w) (ha : Accounted w) {k : Nat}
    (hk : w.reads[k]? = some c) :
    { w with reads := w.reads.eraseIdx k }.finishedRead s.toConfig next c =
      ({ w with reads := w.reads.eraseIdx k }.beginRead s.toConfig next c).bind Begun.finish := by
  have hmem := List.mem_of_getElem? hk
  obtain ⟨b, hb⟩ := Option.ne_none_iff_exists'.mp (ht.reads c hmem).1
  obtain ⟨buf, hbuf, -, hfrees⟩ := ha.buffer (mem_live_of_reads hmem) hb
  have hof : Worker.bufferOf { w with reads := w.reads.eraseIdx k } c = .ok (b, buf) :=
    bufferOf_eq hb hbuf hfrees
  unfold Worker.finishedRead Worker.beginRead
  simp only [hof, hb, bind, Except.bind, modify_eq_set hbuf]
  split <;> rfl

/-- The slice of a live write is what has been read into its buffer. -/
theorem Accounted.slice_eq (ha : Accounted w) (hc : c ∈ w.live) {b : Nat} {buf : Buffer}
    (hb : c.buffer = some b) (hbuf : w.buffers[b]? = some buf) : s.slice w c =
      match buf.data with
      | none => .error .unfilled
      | some data => .ok ((data.drop c.base).take c.len) := by
  obtain ⟨buf', hbuf', -, hfrees⟩ := ha.buffer hc hb
  obtain rfl : buf = buf' := Option.some.inj (hbuf.symm.trans hbuf')
  cases hdata : buf.data with
  | none => simp only [Setup.slice, hb, Option.bind_some, hbuf, hdata]
  | some data => simp only [Setup.slice, hb, Option.bind_some, hbuf, hdata, hfrees, if_true]

theorem beginWrite_finish (ht : Typed s.toConfig w) (ha : Accounted w) {k : Nat}
    (hk : w.writes[k]? = some c) :
    { w with writes := w.writes.eraseIdx k }.finishedWrite next c =
      ((s.slice w c).map fun bytes => Begun.mk { w with writes := w.writes.eraseIdx k } next
        [.write c.offset bytes] (.finishedCommand c (.ret .go))).bind Begun.finish := by
  have hmem := List.mem_of_getElem? hk
  obtain ⟨b, hb⟩ := Option.ne_none_iff_exists'.mp (ht.writes c hmem)
  obtain ⟨buf, hbuf, -, hfrees⟩ := ha.buffer (mem_live_of_writes hmem) hb
  have hof : Worker.bufferOf { w with writes := w.writes.eraseIdx k } c = .ok (b, buf) :=
    bufferOf_eq hb hbuf hfrees
  rw [ha.slice_eq (mem_live_of_writes hmem) hb hbuf]
  unfold Worker.finishedWrite
  simp only [hof, bind, Except.bind]
  cases buf.data with
  | none => rfl
  | some data =>
    exact ha.finishedCommand_finish (mem_live_of_writes hmem)
      { w with writes := w.writes.eraseIdx k } rfl _

/-- **An action that is left alone** is a step of the atomic worker. -/
theorem begin_finish (ht : Typed s.toConfig w) (ha : Accounted w) (next : Nat) (a : Action) :
    w.step s.toConfig next (s.resolve a) = (w.begin s next a).bind Begun.finish := by
  cases a with
  | run answer =>
    cases hf : w.frames with
    | nil =>
      simp only [Setup.resolve, Worker.step, Worker.begin, hf]
      exact beginLoop_finish w s.toConfig next
    | cons f fs =>
      simp only [Setup.resolve, Worker.step, Worker.begin, hf]
      exact beginFrame_finish ht ha hf answer
  | readDone k =>
    cases hk : w.reads[k]? with
    | none =>
      simp only [Setup.resolve, Worker.step, Worker.begin, hk]
      rfl
    | some c =>
      simp only [Setup.resolve, Worker.step, Worker.begin, hk]
      exact beginRead_finish ht ha hk
  | writeDone k =>
    cases hk : w.writes[k]? with
    | none =>
      simp only [Setup.resolve, Worker.step, Worker.begin, hk]
      rfl
    | some c =>
      simp only [Setup.resolve, Worker.step, Worker.begin, hk]
      exact beginWrite_finish ht ha hk
  | zeroDone k =>
    cases hk : w.zeroes[k]? with
    | none =>
      simp only [Setup.resolve, Worker.step, Worker.begin, hk]
      rfl
    | some c =>
      simp only [Setup.resolve, Worker.step, Worker.begin, hk]
      exact ha.finishedCommand_finish (mem_live_of_zeroes (List.mem_of_getElem? hk))
        { w with zeroes := w.zeroes.eraseIdx k } rfl _

/-- The assertions on the queue size. -/
def Halt.OfQueue (halt : Halt) : Prop :=
  halt = .failed .increaseQueueSize ∨ halt = .failed .decreaseQueueSize

theorem decreaseQueueSize_all {P : Next → Prop} {k : Code} (len : Nat)
    (hk : k.All P Halt.OfQueue) : (Code.decreaseQueueSize len k).All P Halt.OfQueue := by
  intro m
  dsimp only
  split
  · exact fun _ => hk
  · exact .inr rfl

theorem freeCommand_all {P : Next → Prop} {k : Code} (c : Command)
    (hk : k.All P Halt.OfQueue) : (Code.freeCommand c k).All P Halt.OfQueue := by
  unfold Code.freeCommand
  split
  · exact hk
  · intro m
    show Prog.All P Halt.OfQueue (if _ then _ else _)
    split
    · exact hk
    · exact hk

theorem finishedCommand_all {P : Next → Prop} {k : Code} (c : Command)
    (hk : k.All P Halt.OfQueue) : (Code.finishedCommand c k).All P Halt.OfQueue := by
  unfold Code.finishedCommand
  split
  · exact decreaseQueueSize_all c.len (freeCommand_all c hk)
  · exact freeCommand_all c hk

/-- The updates of the actions that do not wait. -/
inductive Code.Updates : Code → Prop where
  | none {n : Next} (hn : n.polls = false) : Updates (.ret n)
  | free (c : Command) : Updates (.freeCommand c (.ret .go))
  | finish (c : Command) : Updates (.finishedCommand c (.ret .go))
  | decrease (len : Nat) : Updates (.decreaseQueueSize len (.ret .go))
  | addRef (b : Nat) (c : Command) : Updates (.addRef b (.ret (.write c)))

theorem Code.Updates.runs {code : Code} (h : code.Updates) :
    code.All (fun n => n.polls = false) Halt.OfQueue := by
  cases h with
  | none hn => exact hn
  | free c => exact freeCommand_all c rfl
  | finish c => exact finishedCommand_all c rfl
  | decrease len => exact decreaseQueueSize_all len rfl
  | addRef b c => exact fun _ => rfl

/-- Only the tests before a wait lead to `poll`, and they change nothing. -/
structure Begun.Waits (s : Setup) (b : Begun) (w : Worker) (next : Nat) : Prop where
  worker : b.worker = w
  next : b.next = next
  ops : b.ops = []
  frames : w.frames = []
  code : b.code = .ret .poll ∧ (s.maxRequests ≤ w.inFlight ∨ 0 < w.inFlight) ∨
    ∃ r c, b.code = .startRead s.toConfig r c

theorem beginFrame_updates {answer : Bool} {f : Frame} {fs : List Frame}
    (h : w.beginFrame s next answer fs f = .ok b) : b.code.Updates := by
  unfold Worker.beginFrame at h
  split at h
  · cases h
    exact .free _
  · split at h
    · cases h
    · split at h
      · cases h
        exact .decrease _
      · split at h
        · cases h
        · cases h
          exact .addRef _ _
  · split at h
    · cases h
      exact .free _
    · split at h
      · cases h
        exact .none rfl
      · cases h
        exact .none rfl
  · split at h
    · cases h
      exact .none rfl
    · cases h
      exact .free _

theorem begin_updates {a : Action} (h : w.begin s next a = .ok b) :
    (∃ answer, a = .run answer) ∧ b.Waits s w next ∨ b.code.Updates := by
  cases a with
  | run answer =>
    simp only [Worker.begin] at h
    split at h
    · next hf =>
      unfold Worker.beginLoop at h
      split at h
      · split at h
        · next hmany =>
          cases h
          exact .inl ⟨⟨answer, rfl⟩, rfl, rfl, rfl, hf, .inl ⟨rfl, .inl hmany⟩⟩
        · cases h
          exact .inl ⟨⟨answer, rfl⟩, rfl, rfl, rfl, hf, .inr ⟨_, _, rfl⟩⟩
      · split at h
        · next hbusy =>
          cases h
          exact .inl ⟨⟨answer, rfl⟩, rfl, rfl, rfl, hf, .inl ⟨rfl, .inr hbusy⟩⟩
        · cases h
          exact .inr (.none rfl)
      · obtain ⟨e, -, rfl⟩ := map_ok h
        exact .inr (.none rfl)
    · exact .inr (beginFrame_updates h)
  | readDone k =>
    simp only [Worker.begin] at h
    split at h
    · cases h
    · unfold Worker.beginRead at h
      split at h
      · cases h
      · dsimp only at h
        split at h
        · cases h
          exact .inr (.none rfl)
        · cases h
          exact .inr (.none rfl)
  | writeDone k =>
    simp only [Worker.begin] at h
    split at h
    · cases h
    · next c hk =>
      obtain ⟨bytes, -, rfl⟩ := map_ok h
      exact .inr (.finish c)
  | zeroDone k =>
    simp only [Worker.begin] at h
    split at h
    · cases h
    · cases h
      exact .inr (.finish _)

theorem Begun.Waits.run (h : b.Waits s w next) : ∃ x, b.code.run b.worker.memory = .ok x ∧
    (x.1 = .poll → x.2 = w.memory ∧ b.code.accesses b.worker.memory ≤ 1 ∧
      (0 < w.inFlight ∨ w.inFlight ≥ s.maxRequests ∨ w.queueSize ≥ s.sizes.queueSize)) := by
  obtain ⟨rfl, -, -, -, ⟨hcode, hbusy⟩ | ⟨r, c, hcode⟩⟩ := h
  · rw [hcode]
    exact ⟨_, rfl, fun _ => ⟨rfl, Nat.zero_le 1, hbusy.symm.imp id .inl⟩⟩
  · rw [hcode, run_startRead]
    by_cases hfull : b.worker.memory.queueSize ≥ s.sizes.queueSize
    · rw [if_pos hfull]
      refine ⟨_, rfl, fun _ => ⟨rfl, ?_, .inr (.inr hfull)⟩⟩
      rw [Code.startRead, Prog.accesses, if_pos hfull, Prog.accesses]
    · rw [if_neg hfull]
      exact ⟨_, rfl, fun hpoll => by cases hpoll⟩

/-- An action that has begun comes to its end: the worker waits and nothing has changed, or
the atomic worker makes a step. -/
theorem begin_after (ht : Typed s.toConfig w) (ha : Accounted w) {a : Action}
    (h : w.begin s next a = .ok b) : ∃ n w', b.worker.after b.code = .ok (n, w') ∧
      (n = .poll ∧ w' = w ∧ b.next = next ∧ b.ops = [] ∨
        w.step s.toConfig next (s.resolve a) = .ok ⟨w', b.next, b.ops⟩) := by
  have hstep := begin_finish ht ha next a
  rw [h] at hstep
  change _ = b.finish at hstep
  obtain ⟨-, hwaits⟩ | hupdates := begin_updates h
  · obtain ⟨⟨n, m⟩, hrun, hpoll⟩ := hwaits.run
    refine ⟨n, _, Worker.after_of_run hrun, ?_⟩
    cases hn : n.polls with
    | false => exact .inr (hstep.trans (Begun.finish_ok hrun hn))
    | true =>
      cases n with
      | poll =>
        obtain ⟨hmemory, -⟩ := hpoll rfl
        refine .inl ⟨rfl, ?_, hwaits.next, hwaits.ops⟩
        rw [show m = w.memory from hmemory, hwaits.worker]
        rfl
      | _ => cases hn
  · cases hrun : b.code.run b.worker.memory with
    | error halt =>
      -- the assertions on the queue size hold
      rw [Begun.finish_error hrun] at hstep
      rcases hupdates.runs.run_error hrun with rfl | rfl <;> cases step_fails ht ha hstep
    | ok x =>
      obtain ⟨n, m⟩ := x
      have hn : n.polls = false := hupdates.runs.run_ok hrun
      exact ⟨n, _, Worker.after_of_run hrun, .inr (hstep.trans (Begun.finish_ok hrun hn))⟩

theorem begin_error (ht : Typed s.toConfig w) (ha : Accounted w) {a : Action}
    (h : w.begin s next a = .error halt) : w.step s.toConfig next (s.resolve a) = .error halt := by
  rw [begin_finish ht ha next a, h]
  rfl

end Actions

/-! ## Threads that are left alone -/

/-- The worker when the thread has made its updates and has handed its command over. -/
def Thread.settled (th : Thread) : Except Halt Worker :=
  match th.status with
  | .busy code _ => (th.worker.after code).map Prod.snd
  | .calling n => .ok (n.apply th.worker)
  | _ => .ok th.worker

/-- The worker when a callback has made its updates as well. -/
def Thread.settledBy (th : Thread) (code : Code) : Except Halt Worker :=
  match code.run th.worker.memory with
  | .error halt => .error halt
  | .ok x => Thread.settled { th with worker := th.worker.withMemory x.2 }

namespace Threads

/-- The callback of the worker that another thread is in. -/
def callback (t : Threads) (i : Nat) : Option Code :=
  if i = 0 then t.visit.bind Visit.callback else none

def settled (t : Threads) (i : Nat) (th : Thread) : Except Halt Worker :=
  match t.callback i with
  | none => th.settled
  | some code => th.settledBy code

end Threads

def Thread.isBusy (th : Thread) : Bool :=
  match th.status with
  | .busy _ _ => true
  | _ => false

/-- Every update that has begun is an update that has been made. -/
structure Threads.Tracks (t : Threads) (a : Copying) : Prop where
  next : t.next = a.next
  log : t.log = a.log
  length : t.threads.length = a.workers.length
  workers : ∀ i th w, t.threads[i]? = some th → a.workers[i]? = some w → t.settled i th = .ok w
  apart : ∀ th, t.threads[0]? = some th → t.callback 0 ≠ none → th.isBusy = false

section Threads

variable {s : Setup} {t t' : Threads} {a a' : Copying} {i : Nat} {th th' : Thread} {w w' : Worker}
  {code : Code} {m : Memory}

@[simp] theorem withMemory_memory (w : Worker) : w.withMemory w.memory = w := rfl

@[simp] theorem memory_withMemory (w : Worker) (m : Memory) : (w.withMemory m).memory = m := rfl

@[simp] theorem withMemory_withMemory (w : Worker) (m m' : Memory) :
    (w.withMemory m).withMemory m' = w.withMemory m' := rfl

@[simp] theorem memory_apply (n : Next) (w : Worker) : (n.apply w).memory = w.memory := by
  cases n <;> rfl

theorem apply_withMemory (n : Next) (w : Worker) (m : Memory) :
    n.apply (w.withMemory m) = (n.apply w).withMemory m := by
  cases n <;> rfl

theorem settled_settle (w : Worker) (code : Code) (locked : Bool) :
    (Thread.settle w code locked).settled = (w.after code).map Prod.snd := by
  cases code with
  | ret n => cases n <;> rfl
  | _ => rfl

/-- An access of the thread does not change what it comes to. -/
theorem after_next {code' : Code} (h : code.next w.memory = some (code', m)) :
    (w.withMemory m).after code' = w.after code := by
  rw [Worker.after, Worker.after, memory_withMemory, Prog.run_next h]
  rfl

/-- A callback that is over, or about to go on. -/
theorem settled_visit (i : Nat) (code : Code) (th : Thread) (hvisit : t.visit = some (.settle i code)) :
    t.settled 0 th = th.settledBy code := by
  rw [Threads.settled, Threads.callback, if_pos rfl, hvisit]
  cases code <;> rfl

theorem settledBy_next {code' : Code} (h : code.next th.worker.memory = some (code', m)) :
    Thread.settledBy { th with worker := th.worker.withMemory m } code' = th.settledBy code := by
  rw [Thread.settledBy, Thread.settledBy, memory_withMemory, Prog.run_next h]
  rfl

theorem callback_of_ne (h : i ≠ 0) : t.callback i = none := if_neg h

theorem Threads.Tracks.worker (h : t.Tracks a) (hi : t.threads[i]? = some th) :
    ∃ w, a.workers[i]? = some w ∧ t.settled i th = .ok w := by
  obtain ⟨hlt, -⟩ := List.getElem?_eq_some_iff.mp hi
  rw [h.length] at hlt
  exact ⟨_, List.getElem?_eq_getElem hlt, h.workers i th _ hi (List.getElem?_eq_getElem hlt)⟩

/-- One thread has changed. -/
theorem Threads.Tracks.set (h : t.Tracks a) (hi : t.threads[i]? = some th)
    (hthreads : t'.threads = t.threads.set i th') (hworkers : a'.workers = a.workers.set i w')
    (hsettled : t'.settled i th' = .ok w') (hcallback : ∀ j, j ≠ i → t'.callback j = t.callback j)
    (hapart : i = 0 → t'.callback 0 ≠ none → th'.isBusy = false) (hnext : t'.next = a'.next)
    (hlog : t'.log = a'.log) : t'.Tracks a' where
  next := hnext
  log := hlog
  length := by rw [hthreads, hworkers, List.length_set, List.length_set, h.length]
  workers j thj wj hj hwj := by
    obtain ⟨hlt, -⟩ := List.getElem?_eq_some_iff.mp hi
    by_cases hji : i = j
    · subst hji
      rw [hthreads, List.getElem?_set_self hlt] at hj
      rw [hworkers, List.getElem?_set_self (h.length ▸ hlt)] at hwj
      cases hj
      cases hwj
      exact hsettled
    · rw [hthreads, List.getElem?_set_ne hji] at hj
      rw [hworkers, List.getElem?_set_ne hji] at hwj
      have hold := h.workers j thj wj hj hwj
      unfold Threads.settled at hold ⊢
      rwa [hcallback j fun hne => hji hne.symm]
  apart th₀ h₀ hne := by
    obtain ⟨hlt, -⟩ := List.getElem?_eq_some_iff.mp hi
    by_cases hi0 : i = 0
    · subst hi0
      rw [hthreads, List.getElem?_set_self hlt] at h₀
      cases h₀
      exact hapart rfl hne
    · rw [hthreads, List.getElem?_set_ne hi0] at h₀
      rw [hcallback 0 fun h0 => hi0 h0.symm] at hne
      exact h.apart th₀ h₀ hne

end Threads

/-! ## Separate updates -/

/-- The action allocates, fills or counts the buffers of the worker, or looks at its queue
size. -/
def Worker.updates (w : Worker) : Action → Bool
  | .run _ =>
    match w.frames, w.pc with
    | [], .data _ => true
    | [], .wait _ _ => true
    | .finishedRead _ _ :: _, _ => true
    | _, _ => false
  | _ => true

/-- No update of a worker begins while another thread is in a callback of the worker, and no
such callback while the worker is in the middle of an update. -/
def Separate (t : Threads) : Nat × Event → Prop
  | (i, .begin a) =>
    (t.callback i).isNone = true ∨ (t.threads[i]?).all (fun th => !th.worker.updates a) = true
  | (_, .answer _) => (t.threads[0]?).all (fun th => !th.isBusy) = true
  | _ => True

instance (t : Threads) (l : Nat × Event) : Decidable (Separate t l) := by
  unfold Separate
  split <;> infer_instance

section Untouched

variable {s : Setup} {cfg : Config} {w : Worker} {next : Nat} {a : Action} {b : Begun}

theorem flush_withMemory (w : Worker) (r : Range) (m : Memory) :
    (w.withMemory m).flush r = (w.flush r).withMemory m := by
  unfold Worker.flush
  split <;> rfl

theorem memory_flush (w : Worker) (r : Range) : (w.flush r).memory = w.memory := by
  unfold Worker.flush
  split <;> rfl

theorem Typed.withMemory (h : Typed cfg w) (m : Memory) : Typed cfg (w.withMemory m) :=
  ⟨h.pc, h.reads, h.writes, h.zeroes, h.frames⟩

theorem Typed.of_withMemory {m : Memory} (h : Typed cfg (w.withMemory m)) : Typed cfg w :=
  ⟨h.pc, h.reads, h.writes, h.zeroes, h.frames⟩

theorem forall_ok {ε α : Type} {x : α} {P : α → Prop} (h : P x) :
    ∀ y, (Except.ok x : Except ε α) = .ok y → P y := by
  intro y hy
  cases hy
  exact h

theorem forall_error {ε α : Type} {e : ε} {P : α → Prop} :
    ∀ y, (Except.error e : Except ε α) = .ok y → P y := by
  intro y hy
  cases hy

/-- The worker goes on without a look at the memory. -/
def Begun.Blind (b : Begun) (w : Worker) : Prop := b.worker.memory = w.memory ∧ ∃ n, b.code = .ret n

theorem runLoop_blind (cfg : Config) (next : Nat) (hdata : ∀ r, w.pc ≠ .data r)
    (hwait : ∀ r c, w.pc ≠ .wait r c) (hdrain : w.pc ≠ .drain) (m : Memory) :
    (w.withMemory m).runLoop cfg next =
        (w.runLoop cfg next).map (fun e => { e with worker := e.worker.withMemory m }) ∧
      ∀ e, w.runLoop cfg next = .ok e → e.worker.memory = w.memory := by
  have hpc : (w.withMemory m).pc = w.pc := rfl
  unfold Worker.runLoop
  rw [hpc]
  cases hw : w.pc with
  | fetch =>
    simp only [Worker.workCount_eq]
    split
    · split
      · exact ⟨rfl, forall_ok rfl⟩
      · exact ⟨rfl, forall_error⟩
    · exact ⟨rfl, forall_ok rfl⟩
  | scan r =>
    dsimp only
    split
    · refine ⟨?_, forall_ok (memory_flush w r)⟩
      rw [flush_withMemory]
      rfl
    · split
      · exact ⟨rfl, forall_error⟩
      · exact ⟨rfl, forall_ok rfl⟩
      · refine ⟨?_, forall_ok (memory_flush w r)⟩
        rw [flush_withMemory]
        rfl
  | data r => exact absurd hw (hdata r)
  | wait r c => exact absurd hw (hwait r c)
  | drain => exact absurd hw hdrain
  | done => exact ⟨rfl, forall_error⟩

theorem beginLoop_blind (hdata : ∀ r, w.pc ≠ .data r) (hwait : ∀ r c, w.pc ≠ .wait r c) (m : Memory) :
    (w.withMemory m).beginLoop cfg next =
        (w.beginLoop cfg next).map (fun b => { b with worker := b.worker.withMemory m }) ∧
      ∀ b, w.beginLoop cfg next = .ok b → b.Blind w := by
  have hpc : (w.withMemory m).pc = w.pc := rfl
  by_cases hdrain : w.pc = .drain
  · have hidle : (w.withMemory m).inFlight = w.inFlight := rfl
    unfold Worker.beginLoop
    rw [hpc, hdrain, hidle]
    dsimp only
    split
    · exact ⟨rfl, forall_ok ⟨rfl, _, rfl⟩⟩
    · exact ⟨rfl, forall_ok ⟨rfl, _, rfl⟩⟩
  · obtain ⟨heq, hmem⟩ := runLoop_blind cfg next hdata hwait hdrain m
    have hloop : ∀ v : Worker, v.pc = w.pc → v.beginLoop cfg next =
        (v.runLoop cfg next).map fun e => Begun.mk e.worker e.next e.ops (.ret .go) := by
      intro v hv
      unfold Worker.beginLoop
      cases hw : v.pc with
      | data r => exact absurd (hv.symm.trans hw) (hdata r)
      | wait r c => exact absurd (hv.symm.trans hw) (hwait r c)
      | drain => exact absurd (hv.symm.trans hw) hdrain
      | _ => rfl
    rw [hloop w rfl, hloop (w.withMemory m) rfl, heq]
    cases hrun : w.runLoop cfg next with
    | error halt => exact ⟨rfl, forall_error⟩
    | ok e => exact ⟨rfl, forall_ok ⟨hmem e hrun, _, rfl⟩⟩

theorem beginFill_blind {answer : Bool} {c : Command} {dataSize : Option Nat} {fs : List Frame}
    (hc : c.buffer = none) (m : Memory) :
    (w.withMemory m).beginFrame s next answer fs (.fill c dataSize) =
        (w.beginFrame s next answer fs (.fill c dataSize)).map
          (fun b => { b with worker := b.worker.withMemory m }) ∧
      ∀ b, w.beginFrame s next answer fs (.fill c dataSize) = .ok b → b.Blind w := by
  cases dataSize with
  | none =>
    unfold Worker.beginFrame
    simp only [freeCommand_none hc]
    split
    · exact ⟨rfl, forall_ok ⟨rfl, _, rfl⟩⟩
    · split
      · exact ⟨rfl, forall_ok ⟨rfl, _, rfl⟩⟩
      · exact ⟨rfl, forall_ok ⟨rfl, _, rfl⟩⟩
  | some dataSize =>
    unfold Worker.beginFrame
    simp only [freeCommand_none hc]
    split
    · exact ⟨rfl, forall_ok ⟨rfl, _, rfl⟩⟩
    · exact ⟨rfl, forall_ok ⟨rfl, _, rfl⟩⟩

/-- An action that updates nothing is the same whatever a callback is about to do. -/
theorem begin_blind (next : Nat) (ht : Typed s.toConfig w) (hu : w.updates a = false) (m : Memory) :
    (w.withMemory m).begin s next a =
        (w.begin s next a).map (fun b => { b with worker := b.worker.withMemory m }) ∧
      ∀ b, w.begin s next a = .ok b → b.Blind w := by
  cases a with
  | run answer =>
    have hframes : (w.withMemory m).frames = w.frames := rfl
    unfold Worker.begin
    simp only [hframes]
    cases hf : w.frames with
    | nil =>
      refine beginLoop_blind (fun r hpc => ?_) (fun r c hpc => ?_) m
      · simp only [Worker.updates, hf, hpc, reduceCtorEq] at hu
      · simp only [Worker.updates, hf, hpc, reduceCtorEq] at hu
    | cons f fs =>
      cases f with
      | finishedRead c parts => simp only [Worker.updates, hf, reduceCtorEq] at hu
      | fill c dataSize => exact beginFill_blind (ht.top hf).1 m
  | _ => cases hu

end Untouched

/-! ## Steps -/

section Steps

variable {s : Setup} {t t' : Threads} {a : Copying} {i : Nat} {th : Thread} {act : Action} {b : Begun}
  {locked : Bool} {halt : Halt}

/-- The thread is between two actions. -/
def Thread.Between (th : Thread) : Prop := th.status = .free ∨ th.status = .polling

theorem Thread.Between.settled (h : th.Between) (w : Worker) :
    Thread.settled { th with worker := w } = .ok w := by
  unfold Thread.settled
  rcases h with h | h <;> rw [h]

/-- The worker of a thread between two actions, but for what a callback is about to do. -/
theorem Thread.Between.worker (h : th.Between) {w : Worker} (hw : t.settled i th = .ok w) :
    t.callback i = none ∧ w = th.worker ∨
      ∃ code x, t.callback i = some code ∧ code.run th.worker.memory = .ok x ∧
        w = th.worker.withMemory x.2 := by
  unfold Threads.settled at hw
  cases hcallback : t.callback i with
  | none =>
    rw [hcallback] at hw
    exact .inl ⟨rfl, (Except.ok.inj ((h.settled th.worker).symm.trans hw)).symm⟩
  | some code =>
    rw [hcallback] at hw
    dsimp only at hw
    unfold Thread.settledBy at hw
    cases hrun : code.run th.worker.memory with
    | error halt =>
      rw [hrun] at hw
      cases hw
    | ok x =>
      rw [hrun] at hw
      exact .inr ⟨code, x, rfl, hrun, (Except.ok.inj ((h.settled _).symm.trans hw)).symm⟩

theorem settle_with (w v : Worker) (code : Code) :
    { Thread.settle w code locked with worker := v } = Thread.settle v code locked := by
  cases code with
  | ret n => cases n <;> rfl
  | _ => rfl

theorem settle_worker (w : Worker) (code : Code) : (Thread.settle w code locked).worker = w := by
  cases code with
  | ret n => cases n <;> rfl
  | _ => rfl

theorem copying_ok {cfg : Config} {w : Worker} {e : Effect} (hw : a.workers[i]? = some w)
    (hs : w.step cfg a.next act = .ok e) :
    (copying cfg).step a (i, act) = some ⟨e.next, a.workers.set i e.worker, a.log ++ e.ops⟩ := by
  simp only [copying, Copying.step, hw, hs]
  rfl

theorem copying_error {cfg : Config} {w : Worker} (hw : a.workers[i]? = some w)
    (hs : w.step cfg a.next act = .error halt) : a.step cfg i act = .error halt := by
  simp only [Copying.step, hw, hs]
  rfl

theorem set_getElem? {α : Type} {l : List α} {x : α} (h : l[i]? = some x) : l = l.set i x := by
  obtain ⟨hlt, rfl⟩ := List.getElem?_eq_some_iff.mp h
  exact (List.set_getElem_self hlt).symm

/-- While a callback is running, only an action that updates nothing begins. -/
theorem updates_of_callback {code : Code} (hsep : t.callback i = none ∨ th.worker.updates act = false)
    (hcode : t.callback i = some code) : th.worker.updates act = false := by
  refine hsep.resolve_left ?_
  rw [hcode]
  exact Option.some_ne_none _

/-- The action of thread `i` has begun. -/
def Threads.begun (t : Threads) (i : Nat) (b : Begun) (locked : Bool) (visit : Option Visit) : Threads :=
  { t with
    next := b.next
    threads := t.threads.set i (.settle b.worker b.code locked)
    visit
    log := t.log ++ b.ops }

/-- **An action begins**, and with it the atomic worker has made its step, or has to wait. -/
theorem Threads.Tracks.begin (h : t.Tracks a) (locked : Bool) (visit : Option Visit)
    (ha : (copying s.toConfig).Reachable a) (hi : t.threads[i]? = some th) (hbetween : th.Between)
    (hsep : t.callback i = none ∨ th.worker.updates act = false)
    (hb : th.worker.begin s t.next act = .ok b)
    (hvisit : visit.bind Visit.callback = t.visit.bind Visit.callback) :
    ∃ a', (a' = a ∧ (∃ m, b.code.run b.worker.memory = .ok (.poll, m)) ∨
        (copying s.toConfig).step a (i, s.resolve act) = some a') ∧
      (t.begun i b locked visit).Tracks a' := by
  obtain ⟨w, hw, hsettled⟩ := h.worker hi
  obtain ⟨htyped, hacc⟩ := reachable_accounted ha (List.mem_of_getElem? hw)
  have hcall : ∀ j, (t.begun i b locked visit).callback j = t.callback j := by
    intro j
    unfold Threads.callback
    rw [← hvisit]
    rfl
  -- the action of the worker with the memory that the callback leaves behind
  obtain ⟨b', hb', hnext, hops, hnew⟩ : ∃ b', w.begin s t.next act = .ok b' ∧ b'.next = b.next ∧
      b'.ops = b.ops ∧ ∀ n w', b'.worker.after b'.code = .ok (n, w') →
        (∃ m, b.code.run b.worker.memory = .ok (n, m)) ∧
        (t.begun i b locked visit).settled i (.settle b.worker b.code locked) = .ok w' ∧
        (t.callback i ≠ none → (Thread.settle b.worker b.code locked).isBusy = false) := by
    obtain ⟨hnone, rfl⟩ | ⟨code, x, hcode, hrun, rfl⟩ := hbetween.worker hsettled
    · refine ⟨b, hb, rfl, rfl, fun n w' hafter =>
        ⟨Worker.run_of_after hafter, ?_, fun hsome => absurd hnone hsome⟩⟩
      unfold Threads.settled
      rw [hcall, hnone]
      dsimp only
      rw [settled_settle, hafter]
      rfl
    · obtain ⟨hmap, hblind⟩ :=
        begin_blind t.next htyped.of_withMemory (updates_of_callback hsep hcode) x.2
      obtain ⟨hmem, n₀, hret⟩ := hblind b hb
      rw [hb] at hmap
      refine ⟨_, hmap, rfl, rfl, fun n w' hafter => ⟨?_, ?_, fun _ => ?_⟩⟩
      · obtain ⟨m, hm⟩ := Worker.run_of_after hafter
        change b.code.run x.2 = _ at hm
        rw [hret] at hm ⊢
        cases hm
        exact ⟨_, rfl⟩
      · unfold Threads.settled
        rw [hcall, hcode]
        dsimp only
        unfold Thread.settledBy
        rw [settle_worker, hmem, hrun]
        dsimp only
        rw [settle_with, settled_settle, hafter]
        rfl
      · rw [hret]
        cases n₀ <;> rfl
  obtain ⟨n, w', hafter, hcase⟩ := begin_after htyped hacc hb'
  obtain ⟨hrun, hset, hbusy⟩ := hnew n w' hafter
  have hapart : i = 0 → (t.begun i b locked visit).callback 0 ≠ none →
      (Thread.settle b.worker b.code locked).isBusy = false := by
    rintro rfl hne
    exact hbusy (hcall 0 ▸ hne)
  obtain ⟨rfl, rfl, hsame, hnone⟩ | hstep := hcase
  · refine ⟨a, .inl ⟨rfl, hrun⟩, h.set hi rfl (set_getElem? hw) hset (fun j _ => hcall j) hapart ?_ ?_⟩
    · exact hnext.symm.trans (hsame.trans h.next)
    · show t.log ++ b.ops = a.log
      rw [← h.log, ← hops, hnone, List.append_nil]
  · rw [h.next] at hstep
    refine ⟨_, .inr (copying_ok hw hstep), h.set hi rfl rfl hset (fun j _ => hcall j) hapart
      hnext.symm ?_⟩
    show t.log ++ b.ops = a.log ++ b'.ops
    rw [h.log, hops]

/-- What the atomic workers have done when an action begins. -/
theorem reachable_begun {a' : Copying} (ha : (copying s.toConfig).Reachable a) {P : Prop}
    {l : Nat × Action} (h : a' = a ∧ P ∨ (copying s.toConfig).step a l = some a') :
    (copying s.toConfig).Reachable a' := by
  obtain ⟨rfl, -⟩ | hstep := h
  · exact ha
  · exact ha.step _ hstep

/-- An assertion that fails at the beginning of an action fails in the atomic worker. -/
theorem Threads.Tracks.begin_error (h : t.Tracks a) (ha : (copying s.toConfig).Reachable a)
    (hi : t.threads[i]? = some th) (hbetween : th.Between)
    (hsep : t.callback i = none ∨ th.worker.updates act = false)
    (hb : th.worker.begin s t.next act = .error halt) :
    a.step s.toConfig i (s.resolve act) = .error halt := by
  obtain ⟨w, hw, hsettled⟩ := h.worker hi
  obtain ⟨htyped, hacc⟩ := reachable_accounted ha (List.mem_of_getElem? hw)
  have hbw : w.begin s t.next act = .error halt := by
    obtain ⟨-, rfl⟩ | ⟨code, x, hcode, -, rfl⟩ := hbetween.worker hsettled
    · exact hb
    · rw [(begin_blind t.next htyped.of_withMemory (updates_of_callback hsep hcode) x.2).1, hb]
      rfl
  have hstep := Copy.begin_error htyped hacc hbw
  rw [h.next] at hstep
  exact copying_error hw hstep

/-- One thread has changed, and what it comes to has not. -/
theorem Threads.Tracks.keep (h : t.Tracks a) (hi : t.threads[i]? = some th) {th' : Thread}
    (hthreads : t'.threads = t.threads.set i th') (hsettled : t'.settled i th' = t.settled i th)
    (hcallback : ∀ j, j ≠ i → t'.callback j = t.callback j)
    (hapart : i = 0 → t'.callback 0 ≠ none → th'.isBusy = false) (hnext : t'.next = t.next)
    (hlog : t'.log = t.log) : t'.Tracks a := by
  obtain ⟨w, hw, hold⟩ := h.worker hi
  exact h.set hi hthreads (set_getElem? hw) (hsettled.trans hold) hcallback hapart
    (hnext.trans h.next) (hlog.trans h.log)

/-- **An access of the thread** to its worker, while nobody else is at it. -/
theorem Threads.Tracks.access (h : t.Tracks a) (hi : t.threads[i]? = some th) {code code' : Code}
    {m : Memory} (hstatus : th.status = .busy code locked)
    (hnext : code.next th.worker.memory = some (code', m)) :
    code'.error? = none ∧ Threads.Tracks { t with
      threads := t.threads.set i (.settle (th.worker.withMemory m) code' locked)
      halted := code'.error? } a := by
  obtain ⟨w, hw, hsettled⟩ := h.worker hi
  have hnone : t.callback i = none := by
    refine Classical.byContradiction fun hsome => ?_
    obtain rfl : i = 0 := Classical.byContradiction fun hne => hsome (callback_of_ne hne)
    have hfree := h.apart th hi hsome
    rw [Thread.isBusy, hstatus] at hfree
    cases hfree
  have hold : t.settled i th = (th.worker.after code).map Prod.snd := by
    rw [Threads.settled, hnone]
    dsimp only
    rw [Thread.settled, hstatus]
  have hnew : (Thread.settle (th.worker.withMemory m) code' locked).settled = t.settled i th := by
    rw [settled_settle, after_next hnext, hold]
  refine ⟨?_, h.keep hi rfl ?_ (fun _ _ => rfl) ?_ rfl rfl⟩
  · rw [hsettled, Worker.after, ← Prog.run_next hnext] at hold
    cases hrun : code'.run m with
    | error halt =>
      rw [hrun] at hold
      cases hold
    | ok x => exact Prog.error?_of_run hrun
  · rw [← hnew, Threads.settled]
    change (match t.callback i with | none => _ | some code => _) = _
    rw [hnone]
  · rintro rfl hsome
    exact absurd hnone hsome

/-- The call that follows the updates. -/
theorem Threads.Tracks.call (h : t.Tracks a) (hi : t.threads[i]? = some th) {n : Next}
    (hstatus : th.status = .calling n) :
    Threads.Tracks { t with threads := t.threads.set i ⟨n.apply th.worker, .free⟩ } a := by
  refine h.keep hi rfl ?_ (fun _ _ => rfl) (fun _ _ => rfl) rfl rfl
  have hcalling : ∀ w, Thread.settled { th with worker := w } = .ok (n.apply w) := by
    intro w
    rw [Thread.settled, hstatus]
  unfold Threads.settled
  change (match t.callback i with | none => _ | some code => _) = _
  cases t.callback i with
  | none => exact (hcalling th.worker).symm
  | some code =>
    simp only [Thread.settledBy, memory_apply]
    cases code.run th.worker.memory with
    | error halt => rfl
    | ok x =>
      dsimp only
      rw [hcalling, apply_withMemory]
      rfl

/-- **An access of another thread** to the first worker, in a callback. -/
theorem Threads.Tracks.callback (h : t.Tracks a) (hi : t.threads[0]? = some th) {code code' : Code}
    {m : Memory} {j : Nat} (hvisit : t.visit = some ⟨j, some code⟩)
    (hnext : code.next th.worker.memory = some (code', m)) :
    code'.error? = none ∧ Threads.Tracks { t with
      threads := t.threads.set 0 { th with worker := th.worker.withMemory m }
      visit := some (.settle i code')
      halted := code'.error? } a := by
  obtain ⟨w, hw, hsettled⟩ := h.worker hi
  have hcode : t.callback 0 = some code := by
    rw [Threads.callback, if_pos rfl, hvisit]
    rfl
  have hold : t.settled 0 th = th.settledBy code := by
    rw [Threads.settled, hcode]
  have hnew := settledBy_next hnext
  refine ⟨?_, h.keep hi rfl ?_ (fun j hj => ?_) (fun _ _ => ?_) rfl rfl⟩
  · rw [hsettled, Thread.settledBy, ← Prog.run_next hnext] at hold
    cases hrun : code'.run m with
    | error halt =>
      rw [hrun] at hold
      cases hold
    | ok x => exact Prog.error?_of_run hrun
  · rw [hold, ← hnew]
    exact settled_visit i code' _ rfl
  · rw [callback_of_ne hj, callback_of_ne hj]
  · refine h.apart th hi ?_
    rw [hcode]
    exact Option.some_ne_none _

/-- A write of the worker, in the list that there is when the thread has handed its own
command over. -/
theorem Thread.settled_write {w : Worker} {k : Nat} {c : Command} (hbusy : th.isBusy = false)
    (hsettled : th.settled = .ok w) (hk : th.worker.writes[k]? = some c) :
    ∃ k', w.writes[k']? = some c ∧ w.memory = th.worker.memory ∧
      ∀ m, Thread.settled { th with worker :=
          { th.worker with writes := th.worker.writes.eraseIdx k }.withMemory m } =
        .ok ({ w with writes := w.writes.eraseIdx k' }.withMemory m) := by
  unfold Thread.settled at hsettled ⊢
  cases hstatus : th.status with
  | busy code locked =>
    rw [Thread.isBusy, hstatus] at hbusy
    cases hbusy
  | calling n =>
    rw [hstatus] at hsettled
    cases hsettled
    cases n with
    | write c' => exact ⟨k + 1, hk, rfl, fun m => rfl⟩
    | _ => exact ⟨k, hk, rfl, fun m => rfl⟩
  | _ =>
    rw [hstatus] at hsettled
    cases hsettled
    exact ⟨k, hk, rfl, fun m => rfl⟩

theorem finishedCommand_go {c : Command} {m : Memory} {x : Next × Memory}
    (h : (Code.finishedCommand c (.ret .go)).run m = .ok x) : x.1 = .go :=
  (finishedCommand_all (P := fun n => n = .go) (k := .ret .go) c rfl).run_ok h

/-- **A callback begins** in another thread, and with it the first of the atomic workers has
finished a write. -/
theorem Threads.Tracks.answer (h : t.Tracks a) (ha : (copying s.toConfig).Reachable a)
    (hi : t.threads[0]? = some th) (hnone : t.callback 0 = none) (hbusy : th.isBusy = false)
    {k : Nat} {c : Command} (hk : th.worker.writes[k]? = some c) {x : Except Halt (List UInt8)}
    (hslice : s.slice th.worker c = x) :
    match x with
    | .error halt => ∃ k', a.step s.toConfig 0 (.writeDone k') = .error halt
    | .ok bytes => ∃ a', (copying s.toConfig).Reachable a' ∧ Threads.Tracks { t with
        threads := t.threads.set 0
          { th with worker := { th.worker with writes := th.worker.writes.eraseIdx k } }
        visit := some (.settle i (.finishedCommand c (.ret .go)))
        log := t.log ++ [DstOp.write c.offset bytes] } a' := by
  obtain ⟨w, hw, hsettled⟩ := h.worker hi
  obtain ⟨htyped, hacc⟩ := reachable_accounted ha (List.mem_of_getElem? hw)
  rw [Threads.settled, hnone] at hsettled
  obtain ⟨k', hk', hmemory, hnew⟩ := Thread.settled_write hbusy hsettled hk
  have hsame : s.slice w c = x := by
    rw [← hslice, Setup.slice, Setup.slice, show w.buffers = _ from congrArg Memory.buffers hmemory]
    rfl
  have hbegin : w.begin s a.next (.writeDone k') = x.map fun bytes =>
      ⟨{ w with writes := w.writes.eraseIdx k' }, a.next, [.write c.offset bytes],
        .finishedCommand c (.ret .go)⟩ := by
    rw [← hsame]
    simp only [Worker.begin, hk']
  cases x with
  | error halt => exact ⟨k', copying_error hw (Copy.begin_error htyped hacc hbegin)⟩
  | ok bytes =>
    obtain ⟨n, w', hafter, ⟨-, -, -, hops⟩ | hstep⟩ := begin_after htyped hacc hbegin
    · cases hops
    · refine ⟨_, ha.step _ (copying_ok hw hstep), h.set hi rfl rfl ?_ (fun j hj => ?_) (fun _ _ => ?_)
        h.next ?_⟩
      · rw [settled_visit i (.finishedCommand c (.ret .go)) _ rfl, Thread.settledBy]
        change Except.map _ ((Code.finishedCommand c (.ret .go)).run w.memory) = _ at hafter
        change (match (Code.finishedCommand c (.ret .go)).run th.worker.memory with
          | .error halt => _ | .ok x => _) = _
        rw [← hmemory]
        cases hrun : (Code.finishedCommand c (.ret .go)).run w.memory with
        | error halt =>
          rw [hrun] at hafter
          cases hafter
        | ok x =>
          rw [hrun] at hafter
          obtain ⟨n', m⟩ := x
          obtain rfl : n' = .go := finishedCommand_go hrun
          cases hafter
          exact hnew m
      · rw [callback_of_ne hj, callback_of_ne hj]
      · exact hbusy
      · show t.log ++ _ = a.log ++ _
        rw [h.log]

end Steps

/-! ## Runs -/

/-- The atomic workers have come this far as well, and if an assertion has failed, so does one
of theirs. -/
structure Threads.Refines (s : Setup) (t : Threads) : Prop where
  going : t.halted = none → ∃ a, (copying s.toConfig).Reachable a ∧ t.Tracks a
  stopped : ∀ halt, t.halted = some halt → halt ≠ .blocked ∧
    ∃ a i act, (copying s.toConfig).Reachable a ∧ a.step s.toConfig i act = .error halt

section Runs

variable {s : Setup} {t t' : Threads} {a : Copying} {i : Nat} {th : Thread} {act : Action} {e : Event}

theorem Threads.Refines.of_tracks (hnone : t.halted = none) (ha : (copying s.toConfig).Reachable a)
    (h : t.Tracks a) : t.Refines s := by
  refine ⟨fun _ => ⟨a, ha, h⟩, fun halt hhalt => ?_⟩
  rw [hnone] at hhalt
  cases hhalt

theorem Threads.Refines.of_error {halt : Halt} (hhalted : t.halted = some halt) (hne : halt ≠ .blocked)
    (ha : (copying s.toConfig).Reachable a) (h : a.step s.toConfig i act = .error halt) :
    t.Refines s := by
  refine ⟨fun hnone => ?_, fun halt' hhalt => ?_⟩
  · rw [hhalted] at hnone
    cases hnone
  · rw [hhalted] at hhalt
    cases hhalt
    exact ⟨hne, a, i, act, ha, h⟩

/-- What an event of thread `i` does. -/
inductive Threads.Moved (s : Setup) (t : Threads) (i : Nat) : Event → Threads → Prop where
  | begun {th : Thread} {act : Action} {b : Begun} {locked : Bool} (hi : t.threads[i]? = some th)
      (hready : th.ready s i act = true) (hvisits : t.visits i = false)
      (hb : th.worker.begin s t.next act = .ok b) :
      Moved s t i (.begin act) (t.begun i b locked t.visit)
  | failed {th : Thread} {act : Action} {halt : Halt} (hi : t.threads[i]? = some th)
      (hready : th.ready s i act = true) (hb : th.worker.begin s t.next act = .error halt)
      (hne : halt ≠ .blocked) : Moved s t i (.begin act) { t with halted := some halt }
  | accessed {th : Thread} {code code' : Code} {locked : Bool} {m : Memory}
      (hi : t.threads[i]? = some th) (hstatus : th.status = .busy code locked)
      (hnext : code.next th.worker.memory = some (code', m)) :
      Moved s t i .tick { t with
        threads := t.threads.set i (.settle (th.worker.withMemory m) code' locked)
        halted := code'.error? }
  | called {th : Thread} {n : Next} (hi : t.threads[i]? = some th) (hstatus : th.status = .calling n) :
      Moved s t i .tick { t with threads := t.threads.set i ⟨n.apply th.worker, .free⟩ }
  | calledBack {th : Thread} {code code' : Code} {m : Memory} (h₀ : t.threads[0]? = some th)
      (hvisit : t.visit = some ⟨i, some code⟩)
      (hnext : code.next th.worker.memory = some (code', m)) :
      Moved s t i .tick { t with
        threads := t.threads.set 0 { th with worker := th.worker.withMemory m }
        visit := some (.settle i code')
        halted := code'.error? }
  | entered {th : Thread} (hi : t.threads[i]? = some th) (hfree : th.status = .free)
      (hvisit : t.visit = none) (hshared : s.shared = true) (hother : i ≠ 0)
      (hwrites : th.worker.writesZeroes = true) :
      Moved s t i .enter { t with visit := some ⟨i, none⟩ }
  | answered {th : Thread} {k : Nat} {c : Command} {bytes : List UInt8}
      (h₀ : t.threads[0]? = some th) (hvisit : t.visit = some ⟨i, none⟩)
      (hk : th.worker.writes[k]? = some c) (hslice : s.slice th.worker c = .ok bytes) :
      Moved s t i (.answer k) { t with
        threads := t.threads.set 0
          { th with worker := { th.worker with writes := th.worker.writes.eraseIdx k } }
        visit := some (.settle i (.finishedCommand c (.ret .go)))
        log := t.log ++ [DstOp.write c.offset bytes] }
  | answerFailed {th : Thread} {k : Nat} {c : Command} {halt : Halt} (h₀ : t.threads[0]? = some th)
      (hvisit : t.visit = some ⟨i, none⟩) (hk : th.worker.writes[k]? = some c)
      (hslice : s.slice th.worker c = .error halt) :
      Moved s t i (.answer k) { t with halted := some halt }
  | left {th : Thread} {b : Begun} (hi : t.threads[i]? = some th) (hfree : th.status = .free)
      (hvisit : t.visit = some ⟨i, none⟩) (hb : th.worker.begin s t.next (.run false) = .ok b) :
      Moved s t i .leave (t.begun i b false none)
  | woken {th : Thread} (hi : t.threads[i]? = some th) (hpolling : th.status = .polling) :
      Moved s t i .wake { t with threads := t.threads.set i { th with status := .free } }

theorem beginStep_moved (hi : t.threads[i]? = some th) (h : t.beginStep s i th act = some t') :
    t.Moved s i (.begin act) t' := by
  unfold Threads.beginStep at h
  split at h
  · cases h
  · next hready =>
    simp only [Bool.or_eq_true, Bool.not_eq_true', not_or, Bool.not_eq_false, Bool.not_eq_true] at hready
    obtain ⟨⟨hready, hvisits⟩, -⟩ := hready
    split at h
    · cases h
    · next halt hne hb =>
      cases h
      exact .failed hi hready hb hne
    · next b hb =>
      cases h
      exact .begun hi hready hvisits hb

theorem tickStep_moved (hi : t.threads[i]? = some th) (h : t.tickStep i th = some t') :
    t.Moved s i .tick t' := by
  unfold Threads.tickStep at h
  split at h
  · next code locked hstatus =>
    obtain ⟨⟨code', m⟩, hnext, rfl⟩ := Option.map_eq_some_iff.mp h
    exact .accessed hi hstatus hnext
  · next n hstatus =>
    split at h
    · cases h
    · cases h
      exact .called hi hstatus
  · cases h

theorem callbackStep_moved {code : Code} (hvisit : t.visit = some ⟨i, some code⟩)
    (h : t.callbackStep i code = some t') : t.Moved s i .tick t' := by
  unfold Threads.callbackStep at h
  split at h
  · cases h
  · next th₀ h₀ =>
    obtain ⟨⟨code', m⟩, hnext, rfl⟩ := Option.map_eq_some_iff.mp h
    exact .calledBack h₀ hvisit hnext

theorem answerStep_moved {k : Nat} (hvisit : t.visit = some ⟨i, none⟩)
    (h : t.answerStep s i k = some t') : t.Moved s i (.answer k) t' := by
  unfold Threads.answerStep at h
  split at h
  · cases h
  · next th₀ h₀ =>
    split at h
    · cases h
    · next c hk =>
      split at h
      · next halt hslice =>
        cases h
        exact .answerFailed h₀ hvisit hk hslice
      · next bytes hslice =>
        cases h
        exact .answered h₀ hvisit hk hslice

theorem leaveStep_moved (hi : t.threads[i]? = some th) (hfree : th.status = .free)
    (hvisit : t.visit = some ⟨i, none⟩) (h : t.leaveStep s i th = some t') :
    t.Moved s i .leave t' := by
  unfold Threads.leaveStep at h
  split at h
  · cases h
  · next b hb =>
    cases h
    exact .left hi hfree hvisit hb

/-- Every step is one of the moves. -/
theorem step_moved (h : t.step s i e = some t') : t.halted = none ∧ t.Moved s i e t' := by
  unfold Threads.step at h
  split at h
  · cases h
  · next hhalted =>
    refine ⟨Option.not_isSome_iff_eq_none.mp hhalted, ?_⟩
    split at h
    · cases h
    · next th hi =>
      cases e with
      | begin act => exact beginStep_moved hi h
      | tick =>
        dsimp only at h
        split at h
        · next j code hvisit =>
          split at h
          · next heq =>
            subst heq
            exact callbackStep_moved hvisit h
          · exact tickStep_moved hi h
        · exact tickStep_moved hi h
      | enter =>
        dsimp only at h
        split at h
        · next hfree hvisit =>
          split at h
          · next hready =>
            cases h
            simp only [Bool.and_eq_true, bne_iff_ne] at hready
            obtain ⟨⟨⟨hshared, hother⟩, hwrites⟩, -⟩ := hready
            exact .entered hi hfree hvisit hshared hother hwrites
          · cases h
        · cases h
      | answer k =>
        dsimp only at h
        split at h
        · next j hvisit =>
          split at h
          · next heq =>
            subst heq
            exact answerStep_moved hvisit h
          · cases h
        · cases h
      | leave =>
        dsimp only at h
        split at h
        · next j hfree hvisit =>
          split at h
          · next heq =>
            subst heq
            exact leaveStep_moved hi hfree hvisit h
          · cases h
        · cases h
      | wake =>
        dsimp only at h
        split at h
        · next hpolling =>
          cases h
          exact .woken hi hpolling
        · cases h

theorem Thread.between_of_ready (h : th.ready s i act = true) : th.Between := by
  unfold Thread.ready at h
  unfold Thread.Between
  cases hstatus : th.status with
  | free => exact .inl rfl
  | polling => exact .inr rfl
  | _ =>
    rw [hstatus] at h
    cases h

/-- The callback that another thread is in, if the first handle is free or nothing but its
own write is going on there. -/
theorem callback_free {v : Option Visit} (hvisit : t.visit = v) (hfree : v.bind Visit.callback = none)
    (j : Nat) : t.callback j = none := by
  unfold Threads.callback
  rw [hvisit, hfree]
  exact ite_self none

theorem slice_ne_blocked {w : Worker} {c : Command} : s.slice w c ≠ .error .blocked := by
  intro h
  unfold Setup.slice at h
  split at h
  · cases h
  · split at h <;> cases h

/-- The write to the first handle begins. -/
theorem Threads.Tracks.enter (h : t.Tracks a) (hi : t.threads[i]? = some th) (hvisit : t.visit = none) :
    Threads.Tracks { t with visit := some ⟨i, none⟩ } a := by
  have hcallback : ∀ j, Threads.callback { t with visit := some ⟨i, none⟩ } j = t.callback j :=
    fun j => (callback_free rfl rfl j).trans (callback_free hvisit rfl j).symm
  refine h.keep hi (set_getElem? hi) ?_ (fun j _ => hcallback j)
    (fun _ hne => absurd (callback_free rfl rfl 0) hne) rfl rfl
  unfold Threads.settled
  rw [hcallback]

theorem Threads.Tracks.wake (h : t.Tracks a) (hi : t.threads[i]? = some th)
    (hpolling : th.status = .polling) :
    Threads.Tracks { t with threads := t.threads.set i { th with status := .free } } a := by
  refine h.keep hi rfl ?_ (fun _ _ => rfl) (fun _ _ => rfl) rfl rfl
  unfold Threads.settled Thread.settledBy Thread.settled
  rw [hpolling]
  rfl

/-- **Step lemma.** -/
theorem step_refines (h : t.Refines s) (hsep : Separate t (i, e)) (hs : t.step s i e = some t') :
    t'.Refines s := by
  obtain ⟨hnone, hmoved⟩ := step_moved hs
  obtain ⟨a, ha, htracks⟩ := h.going hnone
  have hcases : ∀ {th act}, t.threads[i]? = some th → Separate t (i, .begin act) →
      t.callback i = none ∨ th.worker.updates act = false := by
    intro th act hi hsep
    refine hsep.imp Option.isNone_iff_eq_none.mp fun hall => ?_
    rw [hi] at hall
    exact (Bool.not_eq_true' _).mp hall
  have hbusy : ∀ {th k}, t.threads[0]? = some th → Separate t (i, .answer k) → th.isBusy = false := by
    intro th k h₀ hsep
    have hall : (t.threads[0]?).all (fun th => !th.isBusy) = true := hsep
    rw [h₀] at hall
    exact (Bool.not_eq_true' _).mp hall
  cases hmoved with
  | begun hi hready _ hb =>
    obtain ⟨a', ha', htracks'⟩ := htracks.begin _ t.visit ha hi (Thread.between_of_ready hready)
      (hcases hi hsep) hb rfl
    exact .of_tracks hnone (reachable_begun ha ha') htracks'
  | failed hi hready hb hne =>
    exact .of_error rfl hne ha
      (htracks.begin_error ha hi (Thread.between_of_ready hready) (hcases hi hsep) hb)
  | accessed hi hstatus hnext =>
    obtain ⟨hgoes, htracks'⟩ := htracks.access hi hstatus hnext
    exact .of_tracks hgoes ha htracks'
  | called hi hstatus => exact .of_tracks hnone ha (htracks.call hi hstatus)
  | calledBack h₀ hvisit hnext =>
    obtain ⟨hgoes, htracks'⟩ := htracks.callback h₀ hvisit hnext
    exact .of_tracks hgoes ha htracks'
  | entered hi _ hvisit => exact .of_tracks hnone ha (htracks.enter hi hvisit)
  | answered h₀ hvisit hk hslice =>
    obtain ⟨a', ha', htracks'⟩ := htracks.answer (i := i) ha h₀ (callback_free hvisit rfl 0)
      (hbusy h₀ hsep) hk hslice
    exact .of_tracks hnone ha' htracks'
  | answerFailed h₀ hvisit hk hslice =>
    obtain ⟨k', herr⟩ := htracks.answer (i := i) ha h₀ (callback_free hvisit rfl 0)
      (hbusy h₀ hsep) hk hslice
    exact .of_error rfl (fun heq => slice_ne_blocked (heq ▸ hslice)) ha herr
  | left hi hfree hvisit hb =>
    obtain ⟨a', ha', htracks'⟩ := htracks.begin false none ha hi (.inl hfree)
      (.inl (callback_free hvisit rfl i)) hb (by rw [hvisit]; rfl)
    exact .of_tracks hnone (reachable_begun ha ha') htracks'
  | woken hi hpolling => exact .of_tracks hnone ha (htracks.wake hi hpolling)

theorem tracks_start (n : Nat) :
    Threads.Tracks ⟨0, List.replicate n {}, none, [], none⟩ ⟨0, List.replicate n {}, []⟩ := by
  refine ⟨rfl, rfl, ?_, fun i th w hth hw => ?_, fun th _ hne => ?_⟩
  · rw [List.length_replicate, List.length_replicate]
  · obtain rfl := List.eq_of_mem_replicate (List.mem_of_getElem? hth)
    obtain rfl := List.eq_of_mem_replicate (List.mem_of_getElem? hw)
    rw [Threads.settled, callback_free rfl rfl]
    rfl
  · exact absurd (callback_free rfl rfl 0) hne

/-- **The atomic workers are refined** by the threads of every run in which no two threads
update a worker at a time. -/
theorem threads_refine (h : (threads s).ReachableBy Separate t) : t.Refines s := by
  refine (threads s).reachableBy_invariant (P := Threads.Refines s) ?_ ?_ h
  · rintro t₀ ⟨n, hn, rfl⟩
    exact .of_tracks rfl ⟨_, [], ⟨n, hn, rfl⟩, rfl⟩ (tracks_start n)
  · rintro t₁ ⟨i, e⟩ t₂ hP hsep hstep
    exact step_refines hP hsep hstep

end Runs

end Libnbd.Copy
