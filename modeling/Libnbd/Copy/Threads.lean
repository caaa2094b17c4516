import Libnbd.Copy.Worker
import Libnbd.Lib.Program

/-!
The threads of nbdcopy (`copy/multi-thread-copying.c`), with what they do to each other.

A worker has no lock. That is enough as long as its callbacks run in its own thread, but
`nbd_ops_synch_write` uses the first handle for every worker: while another thread is in
`nbd_pwrite`, it holds the lock of that handle and runs the callbacks of the first worker. So
here an action of a worker is a program that loads and stores its counters one by one, any
two programs may be interleaved, and only the lock of the first handle is respected.

A thread with nothing to do before an event is in `poll`, which it leaves when something
arrives for it and not because another thread has changed what it waits for.
-/

namespace Libnbd.Copy

open Lib

/-! ## What is given -/

/-- The destination: one that each thread writes to by itself, or an NBD server with a handle
for each thread and with or without write zeroes. -/
inductive Target where
  | own
  | nbd (canZero : Bool)
  deriving DecidableEq, Repr

/-- What the copy is given, with the kind of the destination and with what is read from a
buffer that has been freed. -/
structure Setup extends Config where
  target : Target
  freed : Nat → UInt8

namespace Setup

variable (s : Setup)

/-- `nbd_ops_synch_write` uses the handle of the first worker. -/
def shared : Bool :=
  match s.target with
  | .own => false
  | .nbd _ => true

/-- What `asynch_zero` answers; a file may answer one or the other. -/
def asynchZero (answer : Bool) : Bool :=
  match s.target with
  | .own => answer
  | .nbd canZero => canZero

/-- The bytes that the destination takes from the slice of a write. -/
def slice (w : Worker) (c : Command) : Except Halt (List UInt8) :=
  match c.buffer.bind fun b => w.buffers[b]? with
  | none => .error .badBuffer
  | some buf =>
    match buf.data with
    | none => .error .unfilled
    | some data =>
      let bytes := if buf.frees = 0 then data else bytesOf s.freed 0 data.length
      .ok ((bytes.drop c.base).take c.len)

end Setup

/-! ## Programs -/

/-- What the callbacks of a worker update. -/
structure Memory where
  queueSize : Nat
  buffers : List Buffer

def Worker.memory (w : Worker) : Memory := ⟨w.queueSize, w.buffers⟩

def Worker.withMemory (w : Worker) (m : Memory) : Worker :=
  { w with queueSize := m.queueSize, buffers := m.buffers }

/-- What follows the updates: the thread goes on, calls `poll`, or hands a command over. -/
inductive Next where
  | go
  | poll
  | read (r : Range) (command : Command)
  | write (command : Command)
  | zero (command : Command)

/-- What the call does to the worker. -/
def Next.apply : Next → Worker → Worker
  | go, w => w
  | poll, w => w
  | read r c, w =>
    { w with
      pc := .scan { r with offset := r.offset + c.len, count := r.count - c.len }
      reads := c :: w.reads }
  | write c, w => { w with writes := c :: w.writes }
  | zero c, w => { w with zeroes := c :: w.zeroes }

/-- The command is for the destination. -/
def Next.usesHandle : Next → Bool
  | write _ => true
  | zero _ => true
  | _ => false

abbrev Code := Prog Memory Halt Next

namespace Memory

def setQueueSize (n : Nat) (m : Memory) : Memory := { m with queueSize := n }

def setRefs (b n : Nat) (m : Memory) : Memory :=
  { m with buffers := m.buffers.modify b fun buf => { buf with refs := n } }

def free (b : Nat) (m : Memory) : Memory :=
  { m with buffers := m.buffers.modify b fun buf => { buf with frees := buf.frees + 1 } }

/-- `buffer->refs`. -/
def refs (m : Memory) (b : Nat) : Nat := (m.buffers[b]?.map Buffer.refs).getD 0

end Memory

/-- Subtraction of `unsigned` and of `size_t`, of which the greatest value is `top`. -/
def wrapSub (top a b : Nat) : Nat := if b ≤ a then a - b else a + (top + 1) - b

namespace Code

/-- `increase_queue_size`. The sum is far below `SIZE_MAX`. -/
def increaseQueueSize (cfg : Config) (len : Nat) (k : Code) : Code :=
  .load fun m =>
    if m.queueSize < cfg.sizes.queueSize then
      .load fun m => .store (Memory.setQueueSize (m.queueSize + len)) k
    else .stop (.failed .increaseQueueSize)

/-- `decrease_queue_size`. -/
def decreaseQueueSize (len : Nat) (k : Code) : Code :=
  .load fun m =>
    if m.queueSize ≥ len then
      .load fun m => .store (Memory.setQueueSize (wrapSub (2 ^ 64 - 1) m.queueSize len)) k
    else .stop (.failed .decreaseQueueSize)

/-- The reference that `create_subcommand` adds. -/
def addRef (b : Nat) (k : Code) : Code :=
  .load fun m => .store (Memory.setRefs b (m.refs b + 1)) k

/-- `free_command`. -/
def freeCommand (c : Command) (k : Code) : Code :=
  match c.buffer with
  | none => k
  | some b =>
    .load fun m =>
      let refs := wrapSub uintMax (m.refs b) 1
      .store (Memory.setRefs b refs) (if refs = 0 then .store (Memory.free b) k else k)

/-- `finished_command`. -/
def finishedCommand (c : Command) (k : Code) : Code :=
  if c.buffer.isSome then decreaseQueueSize c.len (freeCommand c k) else freeCommand c k

/-- `wait_for_request_slots` after a look at the commands in flight, and
`increase_queue_size`. -/
def startRead (cfg : Config) (r : Range) (c : Command) : Code :=
  .load fun m =>
    if m.queueSize ≥ cfg.sizes.queueSize then .ret .poll
    else increaseQueueSize cfg c.len (.ret (.read r c))

end Code

/-! ## Actions -/

/-- An action that has begun: the worker with its own variables as they are afterwards,
`next_offset`, what completes at the destination, and the updates that are to be made. -/
structure Begun where
  worker : Worker
  next : Nat
  ops : List DstOp := []
  code : Code := .ret .go

instance (p : Part) (c : Command) : Decidable (p.In c) :=
  inferInstanceAs (Decidable (_ ∧ _ ∧ _))

namespace Worker

/-- `worker_thread`. -/
def beginLoop (cfg : Config) (next : Nat) (w : Worker) : Except Halt Begun :=
  match w.pc with
  | .wait r c =>
    if w.inFlight ≥ cfg.maxRequests then .ok { worker := w, next, code := .ret .poll }
    else .ok { worker := w, next, code := .startRead cfg r c }
  | .drain =>
    if w.inFlight > 0 then .ok { worker := w, next, code := .ret .poll }
    else .ok { worker := { w with pc := .done }, next }
  | _ => (w.runLoop cfg next).map fun e => { worker := e.worker, next := e.next, ops := e.ops }

/-- The topmost frame, over `fs`. -/
def beginFrame (s : Setup) (next : Nat) (w : Worker) (answer : Bool) (fs : List Frame) :
    Frame → Except Halt Begun
  | .finishedRead c [] =>
    .ok { worker := { w with frames := fs }, next, code := .freeCommand c (.ret .go) }
  | .finishedRead c (p :: ps) =>
    if ¬ p.In c then .error (.failed .subcommand)
    else if p.zero then
      .ok {
        worker := { w with frames := .fill ⟨p.offset, p.len, 0, none⟩ none :: .finishedRead c ps :: fs }
        next
        code := .decreaseQueueSize p.len (.ret .go) }
    else
      match c.buffer with
      | none => .error .badBuffer
      | some b =>
        .ok {
          worker := { w with frames := .finishedRead c ps :: fs }
          next
          code := .addRef b (.ret (.write ⟨p.offset, p.len, p.offset - c.offset, some b⟩)) }
  | .fill c none =>
    if s.targetIsZero then
      .ok {
        worker := { w with frames := fs }
        next
        ops := [.skip c.offset c.len]
        code := .freeCommand c (.ret .go) }
    else if s.asynchZero answer then
      .ok { worker := { w with frames := fs }, next, code := .ret (.zero c) }
    else
      .ok { worker := { w with frames := .fill c (some (min s.sizes.requestSize c.len)) :: fs }, next }
  | .fill c (some dataSize) =>
    if c.len > 0 then
      let len := if c.len > dataSize then dataSize else c.len
      .ok {
        worker := { w with
          frames := .fill { c with offset := c.offset + len, len := c.len - len } (some dataSize) :: fs }
        next
        ops := [.write c.offset (List.replicate len 0)] }
    else .ok { worker := { w with frames := fs }, next, code := .freeCommand c (.ret .go) }

/-- `finished_read`: the source has filled the buffer. -/
def beginRead (cfg : Config) (next : Nat) (w : Worker) (c : Command) : Except Halt Begun :=
  match c.buffer with
  | none => .error .badBuffer
  | some b =>
    let bytes := bytesOf cfg.src c.offset c.len
    let w := { w with buffers := w.buffers.modify b fun buf => { buf with data := some bytes } }
    if cfg.allocated ∨ cfg.sizes.sparseSize = 0 then
      .ok { worker := w, next, code := .ret (.write c) }
    else
      let parts := splitParts bytes c.offset (c.offset + c.len) cfg.sizes.sparseSize
      .ok { worker := { w with frames := .finishedRead c parts :: w.frames }, next }

/-- An action of the worker in its own thread. -/
def begin (s : Setup) (next : Nat) (w : Worker) : Action → Except Halt Begun
  | .run answer =>
    match w.frames with
    | [] => w.beginLoop s.toConfig next
    | f :: fs => w.beginFrame s next answer fs f
  | .readDone k =>
    match w.reads[k]? with
    | none => .error .blocked
    | some c => { w with reads := w.reads.eraseIdx k }.beginRead s.toConfig next c
  | .writeDone k =>
    match w.writes[k]? with
    | none => .error .blocked
    | some c => (s.slice w c).map fun bytes =>
      { worker := { w with writes := w.writes.eraseIdx k }
        next
        ops := [.write c.offset bytes]
        code := .finishedCommand c (.ret .go) }
  | .zeroDone k =>
    match w.zeroes[k]? with
    | none => .error .blocked
    | some c =>
      .ok {
        worker := { w with zeroes := w.zeroes.eraseIdx k }
        next
        ops := [.zero c.offset c.len]
        code := .finishedCommand c (.ret .go) }

/-- The worker is about to write zeroes with `synch_write`. -/
def writesZeroes (w : Worker) : Bool :=
  match w.frames with
  | .fill c (some _) :: _ => c.len > 0
  | _ => false

/-- The action needs the lock of the handle of its worker at the destination: to look at the
commands in flight, to write zeroes, or because it is a callback. -/
def usesHandle (w : Worker) : Action → Bool
  | .run _ =>
    w.writesZeroes || (w.frames.isEmpty && match w.pc with
      | .wait _ _ => true
      | .drain => true
      | _ => false)
  | .readDone _ => false
  | .writeDone _ => true
  | .zeroDone _ => true

end Worker

/-! ## Threads -/

/-- What a thread is doing: it can begin an action, makes updates (in a callback with the lock
of its handle at the destination), is about to hand a command over, or is in `poll`. -/
inductive Status where
  | free
  | busy (code : Code) (locked : Bool)
  | calling (next : Next)
  | polling

structure Thread where
  worker : Worker := {}
  status : Status := .free

/-- A thread that is in `nbd_pwrite` on the first handle, and the callback of the first worker
that it is in. -/
structure Visit where
  thread : Nat
  callback : Option Code

structure Threads where
  next : Nat
  threads : List Thread
  visit : Option Visit
  log : List DstOp
  halted : Option Halt

/-- What a thread does next: it begins an action, makes one access or hands its command over;
it enters `nbd_pwrite` on the first handle, runs a callback for the `k`th write of the first
worker in there, or gets the reply to its own write; or it returns from `poll`. -/
inductive Event where
  | begin (a : Action)
  | tick
  | enter
  | answer (k : Nat)
  | leave
  | wake
  deriving DecidableEq, Repr

/-- What the thread does after the accesses so far. -/
def Thread.settle (w : Worker) (code : Code) (locked : Bool) : Thread :=
  match code with
  | .ret .go => ⟨w, .free⟩
  | .ret .poll => ⟨w, .polling⟩
  | .ret n => ⟨w, .calling n⟩
  | code => ⟨w, .busy code locked⟩

/-- Thread `i` can begin an action of its own. In `poll` that can only be a callback, and the
zeroes of the other workers go through the first handle, which is `enter`. -/
def Thread.ready (s : Setup) (i : Nat) (th : Thread) (a : Action) : Bool :=
  match th.status, a with
  | .free, .run _ => !(s.shared && i != 0 && th.worker.writesZeroes)
  | .free, _ => true
  | .polling, .run _ => false
  | .polling, _ => true
  | _, _ => false

/-- The callback is over when its updates have been made. -/
def Visit.settle (i : Nat) (code : Code) : Visit :=
  match code with
  | .ret _ => ⟨i, none⟩
  | code => ⟨i, some code⟩

namespace Threads

variable (s : Setup) (t : Threads)

/-- Another thread has the lock of the handle of thread `i`. -/
def taken (i : Nat) : Bool := i == 0 && t.visit.isSome

/-- The thread is in `nbd_pwrite` on the first handle. -/
def visits (i : Nat) : Bool := t.visit.any fun v => v.thread == i

/-- The first thread is in a callback of its own handle. -/
def firstLocked : Bool :=
  t.threads[0]?.any fun th => match th.status with
    | .busy _ locked => locked
    | _ => false

/-- Begin an action. -/
def beginStep (i : Nat) (th : Thread) (a : Action) : Option Threads :=
  if !th.ready s i a || t.visits i || (t.taken i && th.worker.usesHandle a) then none
  else
    match th.worker.begin s t.next a with
    | .error .blocked => none
    | .error halt => some { t with halted := some halt }
    | .ok b =>
      let locked := match a with
        | .writeDone _ => true
        | .zeroDone _ => true
        | _ => false
      some { t with
        next := b.next
        threads := t.threads.set i (.settle b.worker b.code locked)
        log := t.log ++ b.ops }

/-- One access of a thread to its own worker, or the call that follows the updates. -/
def tickStep (i : Nat) (th : Thread) : Option Threads :=
  match th.status with
  | .busy code locked =>
    (code.next th.worker.memory).map fun (code, m) =>
      { t with
        threads := t.threads.set i (.settle (th.worker.withMemory m) code locked)
        halted := code.error? }
  | .calling n =>
    if t.taken i && n.usesHandle then none
    else some { t with threads := t.threads.set i ⟨n.apply th.worker, .free⟩ }
  | _ => none

/-- One access to the first worker, in a callback that thread `i` runs. -/
def callbackStep (i : Nat) (code : Code) : Option Threads :=
  match t.threads[0]? with
  | none => none
  | some th =>
    (code.next th.worker.memory).map fun (code, m) =>
      { t with
        threads := t.threads.set 0 { th with worker := th.worker.withMemory m }
        visit := some (.settle i code)
        halted := code.error? }

/-- The reply to the `k`th write of the first worker. -/
def answerStep (i k : Nat) : Option Threads :=
  match t.threads[0]? with
  | none => none
  | some th =>
    match th.worker.writes[k]? with
    | none => none
    | some c =>
      match s.slice th.worker c with
      | .error halt => some { t with halted := some halt }
      | .ok bytes =>
        some { t with
          threads := t.threads.set 0
            { th with worker := { th.worker with writes := th.worker.writes.eraseIdx k } }
          visit := some (.settle i (.finishedCommand c (.ret .go)))
          log := t.log ++ [DstOp.write c.offset bytes] }

/-- The reply to the zeroes that thread `i` has written. -/
def leaveStep (i : Nat) (th : Thread) : Option Threads :=
  match th.worker.begin s t.next (.run false) with
  | .error _ => none
  | .ok b =>
    some { t with
      next := b.next
      threads := t.threads.set i (.settle b.worker b.code false)
      visit := none
      log := t.log ++ b.ops }

def step (i : Nat) (e : Event) : Option Threads :=
  if t.halted.isSome then none
  else
    match t.threads[i]? with
    | none => none
    | some th =>
      match e with
      | .begin a => t.beginStep s i th a
      | .tick =>
        match t.visit with
        | some ⟨j, some code⟩ => if j = i then t.callbackStep i code else t.tickStep i th
        | _ => t.tickStep i th
      | .enter =>
        match th.status, t.visit with
        | .free, none =>
          if s.shared && i != 0 && th.worker.writesZeroes && !t.firstLocked then
            some { t with visit := some ⟨i, none⟩ }
          else none
        | _, _ => none
      | .answer k =>
        match t.visit with
        | some ⟨j, none⟩ => if j = i then t.answerStep s i k else none
        | _ => none
      | .leave =>
        match th.status, t.visit with
        | .free, some ⟨j, none⟩ => if j = i then t.leaveStep s i th else none
        | _, _ => none
      | .wake =>
        match th.status with
        | .polling => some { t with threads := t.threads.set i { th with status := .free } }
        | _ => none

end Threads

/-- `multi_thread_copying`: any number of threads, in any order of their accesses. -/
def threads (s : Setup) : System Threads (Nat × Event) where
  init t := ∃ n, 0 < n ∧ t = ⟨0, List.replicate n {}, none, [], none⟩
  step t l := t.step s l.1 l.2

end Libnbd.Copy
