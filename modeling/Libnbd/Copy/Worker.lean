import Libnbd.Copy.FileExtents
import Libnbd.Copy.Split
import Libnbd.Lib.System

/-!
The worker threads of nbdcopy (`copy/multi-thread-copying.c`).

A step runs a worker up to its next call of `src->ops` or `dst->ops`; a command that is
outstanding may complete between any two steps, also inside the call that has started it.
A completion that goes on to make calls itself is a frame on the stack of its worker, and
only the topmost frame runs.

This is the worker as it is when nobody interferes: a step is made at once, and the callbacks
of a worker do not run in parallel with it. What the threads really do is in `Threads`, and
when that comes to the same in `Interleaving`.
-/

namespace Libnbd.Copy

open Lib

/-! ## Data -/

/-- What the copy is given: the options, what `main` has made of the sizes, the contents of
source and destination, and the extents of each work range. -/
structure Config where
  size : Nat
  sizes : Sizes
  maxRequests : Nat
  allocated : Bool
  targetIsZero : Bool
  src : Nat → UInt8
  dst : Nat → UInt8
  extents : Nat → Nat → List Extent
  sizeOk : size < 2 ^ 63
  sizesOk : (MainSizes.ok sizes).Fine
  sparseFits : sizes.sparseSize ≤ uintMax

/-- `struct buffer`. `data` is unset until it has been read into; `frees` counts how often
the buffer has been freed. -/
structure Buffer where
  data : Option (List UInt8) := none
  refs : Nat := 1
  frees : Nat := 0
  deriving DecidableEq, Repr

/-- `struct command` with its slice. A buffer is named by its place in the list of all the
worker has ever allocated. -/
structure Command where
  offset : Nat
  len : Nat
  base : Nat := 0
  buffer : Option Nat := none
  deriving DecidableEq, Repr

/-- A call in progress: `finished_read` with the parts it has still to hand on, and
`fill_dst_range_with_zeroes`, in its loop if `data_size` is set. -/
inductive Frame where
  | finishedRead (command : Command) (parts : List Part)
  | fill (command : Command) (dataSize : Option Nat)
  deriving DecidableEq, Repr

/-- The variables of the loop over a work range; `zeroingStart` is set if `is_zeroing` is. -/
structure Range where
  offset : Nat
  count : Nat
  exts : List Extent
  extentIndex : Nat
  zeroingStart : Option Nat

/-- Where `worker_thread` is: before `get_next_offset`, at the top of `while (count)`, about
to create a read, waiting for a slot to start it, waiting for commands in flight, returned. -/
inductive Pc where
  | fetch
  | scan (r : Range)
  | data (r : Range)
  | wait (r : Range) (command : Command)
  | drain
  | done

/-- `struct worker`, its commands that are outstanding at the source and at the
destination, and its heap. -/
structure Worker where
  pc : Pc := .fetch
  queueSize : Nat := 0
  reads : List Command := []
  writes : List Command := []
  zeroes : List Command := []
  frames : List Frame := []
  buffers : List Buffer := []

/-- A completed operation on the destination. A range that is declared zero is skipped. -/
inductive DstOp where
  | write (offset : Nat) (bytes : List UInt8)
  | zero (offset len : Nat)
  | skip (offset len : Nat)
  deriving DecidableEq, Repr

inductive Assertion where
  | workRange
  | onlyZeroes
  | subcommand
  | increaseQueueSize
  | decreaseQueueSize
  deriving DecidableEq, Repr

/-- Why there is no step: the worker has to wait, an assertion fails, or it uses a buffer
that has been freed or that was never read into. -/
inductive Halt where
  | blocked
  | failed (a : Assertion)
  | badBuffer
  | unfilled
  deriving DecidableEq, Repr

/-- The worker afterwards, `next_offset`, and what completes at the destination. -/
structure Effect where
  worker : Worker
  next : Nat
  ops : List DstOp := []

/-! ## `only_zeroes` -/

/-- The last extent that starts at or before `offset`; the list is the rest behind `i`. -/
def seekExtent (offset : Nat) : List Extent → Nat → Nat
  | [], i => i
  | e :: es, i => if e.offset ≤ offset then seekExtent offset es (i + 1) else i

/-- The search for data, from the extent found on. -/
def searchData (offset len : Nat) : List Extent → Option Bool
  | [] => some true
  | e :: es =>
    if ¬ e.offset + e.length > offset then none
    else if e.offset ≥ offset + len then some true
    else if !e.zero then some false
    else searchData offset len es

/-- `only_zeroes` with the new index; `none` if an assertion fails. -/
def onlyZeroes (exts : List Extent) (i offset len : Nat) : Option (Bool × Nat) :=
  match exts[i]? with
  | none => none
  | some e =>
    if ¬ e.offset ≤ offset then none
    else
      let i := seekExtent offset (exts.drop (i + 1)) i
      match exts[i]? with
      | none => none
      | some e =>
        if ¬ e.offset ≤ offset then none
        else if ¬ (i = exts.length - 1 ∨ exts[i + 1]?.any (fun e => e.offset > offset)) then none
        else (searchData offset len (exts.drop i)).map (·, i)

/-! ## Commands and buffers -/

namespace Worker

/-- `in_flight`. Commands of files complete inside the call that starts them. -/
def inFlight (w : Worker) : Nat := w.reads.length + w.writes.length + w.zeroes.length

def increaseQueueSize (cfg : Config) (w : Worker) (len : Nat) : Except Halt Worker :=
  if w.queueSize < cfg.sizes.queueSize then .ok { w with queueSize := w.queueSize + len }
  else .error (.failed .increaseQueueSize)

def decreaseQueueSize (w : Worker) (len : Nat) : Except Halt Worker :=
  if w.queueSize ≥ len then .ok { w with queueSize := w.queueSize - len }
  else .error (.failed .decreaseQueueSize)

/-- The buffer of a command, which must not have been freed. -/
def bufferOf (w : Worker) (c : Command) : Except Halt (Nat × Buffer) :=
  match c.buffer with
  | none => .error .badBuffer
  | some b =>
    match w.buffers[b]? with
    | none => .error .badBuffer
    | some buf => if buf.frees = 0 then .ok (b, buf) else .error .badBuffer

def setBuffer (w : Worker) (b : Nat) (buf : Buffer) : Worker :=
  { w with buffers := w.buffers.set b buf }

/-- One reference less; the last one frees the buffer. -/
def dropRef (buf : Buffer) : Buffer :=
  { buf with
    refs := buf.refs - 1
    frees := if buf.refs - 1 = 0 then buf.frees + 1 else buf.frees }

def freeCommand (w : Worker) (c : Command) : Except Halt Worker :=
  if c.buffer.isNone then .ok w
  else do
    let (b, buf) ← w.bufferOf c
    .ok (w.setBuffer b (dropRef buf))

/-- `create_command` for a read, with its buffer. -/
def createRead (w : Worker) (offset len : Nat) : Worker × Command :=
  ({ w with buffers := w.buffers ++ [{}] }, ⟨offset, len, 0, some w.buffers.length⟩)

def createSubcommand (w : Worker) (c : Command) (p : Part) : Except Halt (Worker × Command) :=
  if ¬ (c.offset ≤ p.offset ∧ p.offset < c.offset + c.len) then .error (.failed .subcommand)
  else if ¬ p.offset + p.len ≤ c.offset + c.len then .error (.failed .subcommand)
  else if p.zero then .ok (w, ⟨p.offset, p.len, 0, none⟩)
  else do
    let (b, buf) ← w.bufferOf c
    .ok (w.setBuffer b { buf with refs := buf.refs + 1 },
      ⟨p.offset, p.len, p.offset - c.offset, c.buffer⟩)

def finishedCommand (w : Worker) (c : Command) : Except Halt Worker := do
  let w ← if c.buffer.isSome then w.decreaseQueueSize c.len else .ok w
  w.freeCommand c

/-! ## Steps of a worker -/

/-- The deferred zeroing, if there is one: a zero command given to
`fill_dst_range_with_zeroes`. -/
def flush (w : Worker) (r : Range) : Worker :=
  match r.zeroingStart with
  | none => w
  | some z => { w with frames := .fill ⟨z, r.offset - z, 0, none⟩ none :: w.frames }

section Flush

variable (w : Worker) (r : Range)

@[simp] theorem flush_queueSize : (w.flush r).queueSize = w.queueSize := by
  unfold flush
  split <;> rfl

@[simp] theorem flush_reads : (w.flush r).reads = w.reads := by
  unfold flush
  split <;> rfl

@[simp] theorem flush_writes : (w.flush r).writes = w.writes := by
  unfold flush
  split <;> rfl

@[simp] theorem flush_zeroes : (w.flush r).zeroes = w.zeroes := by
  unfold flush
  split <;> rfl

@[simp] theorem flush_buffers : (w.flush r).buffers = w.buffers := by
  unfold flush
  split <;> rfl

end Flush

/-- `worker_thread`, with `next_offset`. -/
def runLoop (cfg : Config) (next : Nat) (w : Worker) : Except Halt Effect :=
  match w.pc with
  | .fetch =>
    if next < cfg.size then
      let count := if cfg.size - next > threadWorkSize then threadWorkSize else cfg.size - next
      if 0 < count ∧ count ≤ threadWorkSize then
        .ok ⟨{ w with pc := .scan ⟨next, count, cfg.extents next count, 0, none⟩ },
          next + threadWorkSize, []⟩
      else .error (.failed .workRange)
    else .ok ⟨{ w with pc := .drain }, next, []⟩
  | .scan r =>
    if r.count = 0 then .ok ⟨{ w.flush r with pc := .fetch }, next, []⟩
    else
      let len := min r.count cfg.sizes.requestSize
      match onlyZeroes r.exts r.extentIndex r.offset len with
      | none => .error (.failed .onlyZeroes)
      | some (true, i) =>
        .ok ⟨{ w with pc := .scan ⟨r.offset + len, r.count - len, r.exts, i,
          some (r.zeroingStart.getD r.offset)⟩ }, next, []⟩
      | some (false, i) =>
        .ok ⟨{ w.flush r with pc := .data ⟨r.offset, r.count, r.exts, i, none⟩ }, next, []⟩
  | .data r =>
    let (w, c) := w.createRead r.offset (min r.count cfg.sizes.requestSize)
    .ok ⟨{ w with pc := .wait r c }, next, []⟩
  | .wait r c =>
    -- `wait_for_request_slots`
    if w.inFlight ≥ cfg.maxRequests ∨ w.queueSize ≥ cfg.sizes.queueSize then .error .blocked
    else do
      let w ← w.increaseQueueSize cfg c.len
      .ok ⟨{ w with
        pc := .scan { r with offset := r.offset + c.len, count := r.count - c.len }
        reads := c :: w.reads }, next, []⟩
  | .drain => if w.inFlight > 0 then .error .blocked else .ok ⟨{ w with pc := .done }, next, []⟩
  | .done => .error .blocked

/-- The topmost frame `f`, over `fs`. `efficient` is the answer of `asynch_zero`. -/
def runFrame (cfg : Config) (next : Nat) (w : Worker) (efficient : Bool) (fs : List Frame) :
    Frame → Except Halt Effect
  | .finishedRead c [] => do
    let w ← { w with frames := fs }.freeCommand c
    .ok ⟨w, next, []⟩
  | .finishedRead c (p :: ps) => do
    let (w, sub) ← w.createSubcommand c p
    if p.zero then
      let w ← w.decreaseQueueSize sub.len
      .ok ⟨{ w with frames := .fill sub none :: .finishedRead c ps :: fs }, next, []⟩
    else
      .ok ⟨{ w with writes := sub :: w.writes, frames := .finishedRead c ps :: fs }, next, []⟩
  | .fill c none =>
    if cfg.targetIsZero then do
      let w ← { w with frames := fs }.freeCommand c
      .ok ⟨w, next, [.skip c.offset c.len]⟩
    else if efficient then
      .ok ⟨{ w with zeroes := c :: w.zeroes, frames := fs }, next, []⟩
    else
      .ok ⟨{ w with frames := .fill c (some (min cfg.sizes.requestSize c.len)) :: fs }, next, []⟩
  | .fill c (some dataSize) =>
    if c.len > 0 then
      let len := if c.len > dataSize then dataSize else c.len
      let rest : Command := { c with offset := c.offset + len, len := c.len - len }
      .ok ⟨{ w with frames := .fill rest (some dataSize) :: fs }, next,
        [.write c.offset (List.replicate len 0)]⟩
    else do
      let w ← { w with frames := fs }.freeCommand c
      .ok ⟨w, next, []⟩

/-- `finished_read`: the source has filled the buffer. -/
def finishedRead (cfg : Config) (next : Nat) (w : Worker) (c : Command) : Except Halt Effect := do
  let (b, buf) ← w.bufferOf c
  let bytes := bytesOf cfg.src c.offset c.len
  let w := w.setBuffer b { buf with data := some bytes }
  if cfg.allocated ∨ cfg.sizes.sparseSize = 0 then
    .ok ⟨{ w with writes := c :: w.writes }, next, []⟩
  else
    let parts := splitParts bytes c.offset (c.offset + c.len) cfg.sizes.sparseSize
    .ok ⟨{ w with frames := .finishedRead c parts :: w.frames }, next, []⟩

/-- `finished_command` for a write, whose bytes the destination takes from the slice. -/
def finishedWrite (next : Nat) (w : Worker) (c : Command) : Except Halt Effect := do
  let (_, buf) ← w.bufferOf c
  match buf.data with
  | none => .error .unfilled
  | some data =>
    let w ← w.finishedCommand c
    .ok ⟨w, next, [.write c.offset ((data.drop c.base).take c.len)]⟩

end Worker

/-- What happens next to a worker: it runs, or its `k`th outstanding read, write or zero
command completes. -/
inductive Action where
  | run (efficient : Bool)
  | readDone (k : Nat)
  | writeDone (k : Nat)
  | zeroDone (k : Nat)
  deriving DecidableEq, Repr

def Worker.step (cfg : Config) (next : Nat) (w : Worker) : Action → Except Halt Effect
  | .run efficient =>
    match w.frames with
    | [] => w.runLoop cfg next
    | f :: fs => w.runFrame cfg next efficient fs f
  | .readDone k =>
    match w.reads[k]? with
    | none => .error .blocked
    | some c => { w with reads := w.reads.eraseIdx k }.finishedRead cfg next c
  | .writeDone k =>
    match w.writes[k]? with
    | none => .error .blocked
    | some c => { w with writes := w.writes.eraseIdx k }.finishedWrite next c
  | .zeroDone k =>
    match w.zeroes[k]? with
    | none => .error .blocked
    | some c => do
      let w ← { w with zeroes := w.zeroes.eraseIdx k }.finishedCommand c
      .ok ⟨w, next, [.zero c.offset c.len]⟩

/-! ## All workers -/

/-- `next_offset`, the workers, and what has completed at the destination so far. -/
structure Copying where
  next : Nat
  workers : List Worker
  log : List DstOp

def Copying.step (cfg : Config) (s : Copying) (i : Nat) (a : Action) : Except Halt Copying :=
  match s.workers[i]? with
  | none => .error .blocked
  | some w => do
    let e ← w.step cfg s.next a
    .ok ⟨e.next, s.workers.set i e.worker, s.log ++ e.ops⟩

/-- Any number of workers, in any order of steps. -/
def copying (cfg : Config) : System Copying (Nat × Action) where
  init s := ∃ threads, 0 < threads ∧ s = ⟨0, List.replicate threads {}, []⟩
  step s l := (s.step cfg l.1 l.2).toOption

/-! ## What a step can do -/

/-- `free_command` on the buffers. -/
def Released (c : Command) (bs bs' : List Buffer) : Prop :=
  (c.buffer = none ∧ bs' = bs) ∨
    ∃ b buf, c.buffer = some b ∧ bs[b]? = some buf ∧ buf.frees = 0 ∧
      bs' = bs.set b (Worker.dropRef buf)

/-- The part lies inside the command. -/
def Part.In (p : Part) (c : Command) : Prop :=
  c.offset ≤ p.offset ∧ p.offset < c.offset + c.len ∧ p.offset + p.len ≤ c.offset + c.len

/-- The steps of a worker, with `next_offset` before and after and what completes. -/
inductive Moves (cfg : Config) (w : Worker) (next : Nat) : Worker → Nat → List DstOp → Prop
  | fetch {n : Nat} (hf : w.frames = []) (hpc : w.pc = .fetch) (hnext : next < cfg.size)
      (hn : n = min (cfg.size - next) threadWorkSize) :
      Moves cfg w next { w with pc := .scan ⟨next, n, cfg.extents next n, 0, none⟩ }
        (next + threadWorkSize) []
  | exhausted (hf : w.frames = []) (hpc : w.pc = .fetch) (hnext : cfg.size ≤ next) :
      Moves cfg w next { w with pc := .drain } next []
  | rangeEnd {r : Range} (hf : w.frames = []) (hpc : w.pc = .scan r) (hcount : r.count = 0) :
      Moves cfg w next { w.flush r with pc := .fetch } next []
  | zeroes {r : Range} {len i : Nat} (hf : w.frames = []) (hpc : w.pc = .scan r)
      (hcount : r.count ≠ 0) (hlen : len = min r.count cfg.sizes.requestSize)
      (hz : onlyZeroes r.exts r.extentIndex r.offset len = some (true, i)) :
      Moves cfg w next { w with pc := .scan ⟨r.offset + len, r.count - len, r.exts, i,
        some (r.zeroingStart.getD r.offset)⟩ } next []
  | data {r : Range} {len i : Nat} (hf : w.frames = []) (hpc : w.pc = .scan r)
      (hcount : r.count ≠ 0) (hlen : len = min r.count cfg.sizes.requestSize)
      (hz : onlyZeroes r.exts r.extentIndex r.offset len = some (false, i)) :
      Moves cfg w next { w.flush r with pc := .data ⟨r.offset, r.count, r.exts, i, none⟩ } next []
  | create {r : Range} (hf : w.frames = []) (hpc : w.pc = .data r) :
      Moves cfg w next { w with
        buffers := w.buffers ++ [{}]
        pc := .wait r ⟨r.offset, min r.count cfg.sizes.requestSize, 0, some w.buffers.length⟩ }
        next []
  | start {r : Range} {c : Command} (hf : w.frames = []) (hpc : w.pc = .wait r c)
      (hslot : w.inFlight < cfg.maxRequests) (hqueue : w.queueSize < cfg.sizes.queueSize) :
      Moves cfg w next { w with
        queueSize := w.queueSize + c.len
        pc := .scan { r with offset := r.offset + c.len, count := r.count - c.len }
        reads := c :: w.reads } next []
  | drained (hf : w.frames = []) (hpc : w.pc = .drain) (hidle : w.inFlight = 0) :
      Moves cfg w next { w with pc := .done } next []
  | splitEnd {c : Command} {fs : List Frame} {bs : List Buffer}
      (hf : w.frames = .finishedRead c [] :: fs) (hb : Released c w.buffers bs) :
      Moves cfg w next { w with frames := fs, buffers := bs } next []
  | splitZero {c : Command} {p : Part} {ps : List Part} {fs : List Frame}
      (hf : w.frames = .finishedRead c (p :: ps) :: fs) (hz : p.zero = true) (hin : p.In c)
      (hqueue : p.len ≤ w.queueSize) :
      Moves cfg w next { w with
        queueSize := w.queueSize - p.len
        frames := .fill ⟨p.offset, p.len, 0, none⟩ none :: .finishedRead c ps :: fs } next []
  | splitData {c : Command} {p : Part} {ps : List Part} {fs : List Frame} {b : Nat} {buf : Buffer}
      (hf : w.frames = .finishedRead c (p :: ps) :: fs) (hz : p.zero = false) (hin : p.In c)
      (hb : c.buffer = some b) (hbuf : w.buffers[b]? = some buf) (hlive : buf.frees = 0) :
      Moves cfg w next { w with
        buffers := w.buffers.set b { buf with refs := buf.refs + 1 }
        writes := ⟨p.offset, p.len, p.offset - c.offset, c.buffer⟩ :: w.writes
        frames := .finishedRead c ps :: fs } next []
  | fillSkip {c : Command} {fs : List Frame} {bs : List Buffer}
      (hf : w.frames = .fill c none :: fs) (ht : cfg.targetIsZero = true)
      (hb : Released c w.buffers bs) :
      Moves cfg w next { w with frames := fs, buffers := bs } next [.skip c.offset c.len]
  | fillZero {c : Command} {fs : List Frame} (hf : w.frames = .fill c none :: fs)
      (ht : cfg.targetIsZero = false) :
      Moves cfg w next { w with zeroes := c :: w.zeroes, frames := fs } next []
  | fillSlow {c : Command} {fs : List Frame} (hf : w.frames = .fill c none :: fs)
      (ht : cfg.targetIsZero = false) :
      Moves cfg w next
        { w with frames := .fill c (some (min cfg.sizes.requestSize c.len)) :: fs } next []
  | fillWrite {c : Command} {fs : List Frame} {dataSize len : Nat}
      (hf : w.frames = .fill c (some dataSize) :: fs) (hpos : 0 < c.len)
      (hlen : len = min c.len dataSize) :
      Moves cfg w next { w with
        frames := .fill { c with offset := c.offset + len, len := c.len - len } (some dataSize) :: fs }
        next [.write c.offset (List.replicate len 0)]
  | fillEnd {c : Command} {fs : List Frame} {bs : List Buffer} {dataSize : Nat}
      (hf : w.frames = .fill c (some dataSize) :: fs) (hlen : c.len = 0)
      (hb : Released c w.buffers bs) :
      Moves cfg w next { w with frames := fs, buffers := bs } next []
  | readWhole {k b : Nat} {c : Command} {buf : Buffer} (hk : w.reads[k]? = some c)
      (hb : c.buffer = some b) (hbuf : w.buffers[b]? = some buf) (hlive : buf.frees = 0)
      (hwhole : cfg.allocated = true ∨ cfg.sizes.sparseSize = 0) :
      Moves cfg w next { w with
        reads := w.reads.eraseIdx k
        buffers := w.buffers.set b { buf with data := some (bytesOf cfg.src c.offset c.len) }
        writes := c :: w.writes } next []
  | readSplit {k b : Nat} {c : Command} {buf : Buffer} (hk : w.reads[k]? = some c)
      (hb : c.buffer = some b) (hbuf : w.buffers[b]? = some buf) (hlive : buf.frees = 0)
      (hsparse : cfg.sizes.sparseSize ≠ 0) :
      Moves cfg w next { w with
        reads := w.reads.eraseIdx k
        buffers := w.buffers.set b { buf with data := some (bytesOf cfg.src c.offset c.len) }
        frames := .finishedRead c (splitParts (bytesOf cfg.src c.offset c.len) c.offset
          (c.offset + c.len) cfg.sizes.sparseSize) :: w.frames } next []
  | writeDone {k b : Nat} {c : Command} {buf : Buffer} {data : List UInt8}
      (hk : w.writes[k]? = some c) (hb : c.buffer = some b) (hbuf : w.buffers[b]? = some buf)
      (hlive : buf.frees = 0) (hdata : buf.data = some data) (hqueue : c.len ≤ w.queueSize) :
      Moves cfg w next { w with
        writes := w.writes.eraseIdx k
        queueSize := w.queueSize - c.len
        buffers := w.buffers.set b (Worker.dropRef buf) }
        next [.write c.offset ((data.drop c.base).take c.len)]
  | zeroDone {k q : Nat} {c : Command} {bs : List Buffer} (hk : w.zeroes[k]? = some c)
      (hqueue : c.buffer = none ∧ q = w.queueSize ∨
        c.buffer ≠ none ∧ c.len ≤ w.queueSize ∧ q = w.queueSize - c.len)
      (hb : Released c w.buffers bs) :
      Moves cfg w next { w with
        zeroes := w.zeroes.eraseIdx k, queueSize := q, buffers := bs }
        next [.zero c.offset c.len]

/-- From a computation that succeeds in two stages, both. -/
theorem bind_ok {α β : Type} {x : Except Halt α} {f : α → Except Halt β} {y : β}
    (h : (do let a ← x; f a) = .ok y) : ∃ a, x = .ok a ∧ f a = .ok y := by
  cases x with
  | error e => cases h
  | ok a => exact ⟨a, rfl, h⟩

theorem map_ok {ε α β : Type} {x : Except ε α} {f : α → β} {b : β} (h : x.map f = .ok b) :
    ∃ a, x = .ok a ∧ f a = b := by
  cases x with
  | error e => cases h
  | ok a => exact ⟨a, rfl, Except.ok.inj h⟩

namespace Worker

variable {cfg : Config} {w w' : Worker} {next : Nat} {e : Effect} {c : Command}

theorem bufferOf_ok {x : Nat × Buffer} (h : w.bufferOf c = .ok x) :
    c.buffer = some x.1 ∧ w.buffers[x.1]? = some x.2 ∧ x.2.frees = 0 := by
  unfold bufferOf at h
  split at h
  · cases h
  · next b hb =>
    split at h
    · cases h
    · next buf hbuf =>
      split at h
      · next hlive =>
        cases h
        exact ⟨hb, hbuf, hlive⟩
      · cases h

theorem freeCommand_ok (h : w.freeCommand c = .ok w') :
    ∃ bs, Released c w.buffers bs ∧ w' = { w with buffers := bs } := by
  unfold freeCommand at h
  split at h
  · next hnone =>
    cases h
    exact ⟨w.buffers, .inl ⟨Option.isNone_iff_eq_none.mp hnone, rfl⟩, rfl⟩
  · obtain ⟨⟨b, buf⟩, hof, hw⟩ := bind_ok h
    obtain ⟨hb, hbuf, hlive⟩ := bufferOf_ok hof
    cases hw
    exact ⟨_, .inr ⟨b, buf, hb, hbuf, hlive, rfl⟩, rfl⟩

theorem decreaseQueueSize_ok {len : Nat} (h : w.decreaseQueueSize len = .ok w') :
    len ≤ w.queueSize ∧ w' = { w with queueSize := w.queueSize - len } := by
  unfold decreaseQueueSize at h
  split at h
  · next hle =>
    cases h
    exact ⟨hle, rfl⟩
  · cases h

theorem finishedCommand_ok (h : w.finishedCommand c = .ok w') :
    ∃ q bs, (c.buffer = none ∧ q = w.queueSize ∨
        c.buffer ≠ none ∧ c.len ≤ w.queueSize ∧ q = w.queueSize - c.len) ∧
      Released c w.buffers bs ∧ w' = { w with queueSize := q, buffers := bs } := by
  unfold finishedCommand at h
  simp only at h
  split at h
  · next hsome =>
    obtain ⟨v, hv, hfree⟩ := bind_ok h
    obtain ⟨hle, rfl⟩ := decreaseQueueSize_ok hv
    obtain ⟨bs, hb, rfl⟩ := freeCommand_ok hfree
    exact ⟨_, bs, .inr ⟨Option.isSome_iff_ne_none.mp hsome, hle, rfl⟩, hb, rfl⟩
  · next hnone =>
    obtain ⟨v, hv, hfree⟩ := bind_ok h
    cases hv
    obtain ⟨bs, hb, rfl⟩ := freeCommand_ok hfree
    exact ⟨_, bs, .inl ⟨by simpa using hnone, rfl⟩, hb, rfl⟩

theorem createSubcommand_ok {p : Part} {x : Worker × Command} (h : w.createSubcommand c p = .ok x) :
    p.In c ∧ (p.zero = true ∧ x = (w, ⟨p.offset, p.len, 0, none⟩) ∨
      p.zero = false ∧ ∃ b buf, c.buffer = some b ∧ w.buffers[b]? = some buf ∧ buf.frees = 0 ∧
        x = (w.setBuffer b { buf with refs := buf.refs + 1 },
          ⟨p.offset, p.len, p.offset - c.offset, c.buffer⟩)) := by
  unfold createSubcommand at h
  split at h
  · cases h
  · next hlo =>
    split at h
    · cases h
    · next hhi =>
      have hin : p.In c := by
        unfold Part.In
        omega
      refine ⟨hin, ?_⟩
      split at h
      · next hz =>
        cases h
        exact .inl ⟨hz, rfl⟩
      · next hz =>
        obtain ⟨⟨b, buf⟩, hof, hx⟩ := bind_ok h
        obtain ⟨hb, hbuf, hlive⟩ := bufferOf_ok hof
        cases hx
        exact .inr ⟨by simpa using hz, b, buf, hb, hbuf, hlive, rfl⟩

theorem workCount_eq (n : Nat) :
    (if n > threadWorkSize then threadWorkSize else n) = min n threadWorkSize := by
  split <;> omega

theorem runLoop_moves (hf : w.frames = []) (h : w.runLoop cfg next = .ok e) :
    Moves cfg w next e.worker e.next e.ops := by
  unfold runLoop at h
  split at h
  · next hpc =>
    split at h
    · next hnext =>
      simp only [workCount_eq] at h
      split at h
      · cases h
        exact .fetch hf hpc hnext rfl
      · cases h
    · next hnext =>
      cases h
      exact .exhausted hf hpc (by omega)
  · next r hpc =>
    split at h
    · next hcount =>
      cases h
      exact .rangeEnd hf hpc hcount
    · next hcount =>
      simp only at h
      split at h
      · cases h
      · next i hz =>
        cases h
        exact .zeroes hf hpc hcount rfl hz
      · next i hz =>
        cases h
        exact .data hf hpc hcount rfl hz
  · next r hpc =>
    cases h
    exact .create hf hpc
  · next r c hpc =>
    split at h
    · cases h
    · next hslot =>
      obtain ⟨v, hv, hrest⟩ := bind_ok h
      unfold increaseQueueSize at hv
      split at hv
      · next hqueue =>
        cases hv
        cases hrest
        exact .start hf hpc (by omega) hqueue
      · cases hv
  · next hpc =>
    split at h
    · cases h
    · next hidle =>
      cases h
      exact .drained hf hpc (by omega)
  · cases h

theorem runFrame_moves {f : Frame} {fs : List Frame} {efficient : Bool} (hf : w.frames = f :: fs)
    (h : w.runFrame cfg next efficient fs f = .ok e) : Moves cfg w next e.worker e.next e.ops := by
  unfold runFrame at h
  split at h
  · next c =>
    obtain ⟨v, hv, hrest⟩ := bind_ok h
    obtain ⟨bs, hb, rfl⟩ := freeCommand_ok hv
    cases hrest
    exact .splitEnd hf hb
  · next c p ps =>
    obtain ⟨⟨v, sub⟩, hv, hrest⟩ := bind_ok h
    obtain ⟨hin, ⟨hz, hx⟩ | ⟨hz, b, buf, hb, hbuf, hlive, hx⟩⟩ := createSubcommand_ok hv
    · cases hx
      simp only [hz, if_true] at hrest
      obtain ⟨u, hu, hrest⟩ := bind_ok hrest
      obtain ⟨hle, rfl⟩ := decreaseQueueSize_ok hu
      cases hrest
      exact .splitZero hf hz hin hle
    · cases hx
      simp only [hz, Bool.false_eq_true, if_false] at hrest
      cases hrest
      exact .splitData hf hz hin hb hbuf hlive
  · next c =>
    split at h
    · next ht =>
      obtain ⟨v, hv, hrest⟩ := bind_ok h
      obtain ⟨bs, hb, rfl⟩ := freeCommand_ok hv
      cases hrest
      exact .fillSkip hf ht hb
    · next ht =>
      have ht' : cfg.targetIsZero = false := by simpa using ht
      split at h
      · cases h
        exact .fillZero hf ht'
      · cases h
        exact .fillSlow hf ht'
  · next c dataSize =>
    split at h
    · next hpos =>
      cases h
      exact .fillWrite hf hpos (by split <;> omega)
    · next hpos =>
      obtain ⟨v, hv, hrest⟩ := bind_ok h
      obtain ⟨bs, hb, rfl⟩ := freeCommand_ok hv
      cases hrest
      exact .fillEnd hf (by omega) hb

/-- Every step is one of the moves. -/
theorem step_moves {a : Action} (h : w.step cfg next a = .ok e) :
    Moves cfg w next e.worker e.next e.ops := by
  cases a with
  | run efficient =>
    simp only [step] at h
    split at h
    · next hf => exact runLoop_moves hf h
    · next f fs hf => exact runFrame_moves hf h
  | readDone k =>
    simp only [step] at h
    split at h
    · cases h
    · next c hk =>
      unfold finishedRead at h
      obtain ⟨⟨b, buf⟩, hof, hrest⟩ := bind_ok h
      obtain ⟨hb, hbuf, hlive⟩ := bufferOf_ok hof
      simp only at hrest
      split at hrest
      · next hwhole =>
        cases hrest
        exact .readWhole hk hb hbuf hlive hwhole
      · next hwhole =>
        cases hrest
        exact .readSplit hk hb hbuf hlive fun hz => hwhole (.inr hz)
  | writeDone k =>
    simp only [step] at h
    split at h
    · cases h
    · next c hk =>
      unfold finishedWrite at h
      obtain ⟨⟨b, buf⟩, hof, hrest⟩ := bind_ok h
      obtain ⟨hb, hbuf, hlive⟩ := bufferOf_ok hof
      simp only at hrest
      split at hrest
      · cases hrest
      · next data hdata =>
        obtain ⟨v, hv, hrest⟩ := bind_ok hrest
        obtain ⟨q, bs, hq, hrel, rfl⟩ := finishedCommand_ok hv
        cases hrest
        rcases hq with ⟨hnone, -⟩ | ⟨-, hle, rfl⟩
        · simp [hb] at hnone
        · rcases hrel with ⟨hnone, -⟩ | ⟨b', buf', hb', hbuf', -, rfl⟩
          · simp [hb] at hnone
          · obtain rfl : b = b' := by simpa [hb] using hb'
            obtain rfl : buf = buf' := by simpa [hbuf] using hbuf'
            exact .writeDone hk hb hbuf hlive hdata hle
  | zeroDone k =>
    simp only [step] at h
    split at h
    · cases h
    · next c hk =>
      obtain ⟨v, hv, hrest⟩ := bind_ok h
      obtain ⟨q, bs, hq, hrel, rfl⟩ := finishedCommand_ok hv
      cases hrest
      exact .zeroDone hk hq hrel

end Worker

/-- A step of the whole copy is a move of one worker. -/
theorem copying_step {cfg : Config} {s s' : Copying} {l : Nat × Action}
    (h : (copying cfg).step s l = some s') :
    ∃ i w w' next' ops, s.workers[i]? = some w ∧ Moves cfg w s.next w' next' ops ∧
      s' = ⟨next', s.workers.set i w', s.log ++ ops⟩ := by
  obtain ⟨i, a⟩ := l
  simp only [copying, Copying.step] at h
  split at h
  · cases h
  · next w hw =>
    cases hstep : w.step cfg s.next a with
    | error halt =>
      rw [hstep] at h
      cases h
    | ok e =>
      rw [hstep] at h
      cases h
      exact ⟨i, w, e.worker, e.next, e.ops, hw, Worker.step_moves hstep, rfl⟩

end Libnbd.Copy
