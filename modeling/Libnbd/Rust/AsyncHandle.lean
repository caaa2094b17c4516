import Libnbd.Lib.System
import Libnbd.Lib.Retain
import Mathlib.Logic.Function.Basic

/-!
The asynchronous Rust handle.

A call issues its command with the C library, then hands a completion predicate
to `add_command`, which calls it once and otherwise queues it. A polling task
calls `aio_notify_read` or `aio_notify_write` when the file descriptor is ready
and then every queued predicate. The calls run on any number of threads, so a
run is an interleaving of their steps with those of the polling task: each label
is one step between two points where another thread can come in. What the C
library does during one of its calls is in the label: the result, the completion
callbacks it makes and what `aio_is_connecting` and `aio_is_closed` say
afterwards.
-/

namespace Libnbd.Rust

open Lib

inductive ErrorKind
  | withErrno (errno : Int) (description : String)
  | withoutErrno (description : String)
  | errno (errno : Int)
deriving DecidableEq

inductive FatalErrorKind
  | libnbd (kind : ErrorKind)
  | io (rawOsError : Option Int)
deriving DecidableEq

inductive Error
  | recoverable (kind : ErrorKind)
  | fatal (kind : FatalErrorKind)
deriving DecidableEq

/-- A result whose value is `()`. -/
abbrev SharedResult := Except Error Unit

def ErrorKind.fromErrno (val : Int) : ErrorKind := .errno val

def Error.isFatal : Error → Bool
  | .fatal _ => true
  | .recoverable _ => false

def Error.toFatal : Error → FatalErrorKind
  | .fatal e => e
  | .recoverable e => .libnbd e

/-- The calls of the handle that a `ChangesState` call waits for. -/
inductive StatePredicate
  | aioIsConnecting
  | aioIsClosed
deriving DecidableEq

/-- What the state predicates of the C handle say. -/
structure View where
  aioIsConnecting : Bool
  aioIsClosed : Bool
deriving DecidableEq

def View.get (v : View) : StatePredicate → Bool
  | .aioIsConnecting => v.aioIsConnecting
  | .aioIsClosed => v.aioIsClosed

inductive AsyncKind
  | withCompletionCallback
  | changesState (predicate : StatePredicate) (value : Bool)
deriving DecidableEq

/-- How far the `async fn` of a call is. -/
inductive Stage
  /-- The C function returned an error. -/
  | failed (e : Error)
  /-- `add_command` has not called the predicate yet. -/
  | issued
  /-- The predicate said `false`; the queue is not locked yet. -/
  | checked
  /-- `add_command` found the error of the polling task. -/
  | refused (e : Error)
  /-- In `ret_rx.await`. -/
  | awaiting
  /-- The future was dropped in `ret_rx.await`. -/
  | dropped
  | returned (ret : SharedResult)
deriving DecidableEq

/-- A call, with its two channels and what its predicate has captured. -/
structure Call where
  kind : AsyncKind
  stage : Stage
  /-- What the completion callback sent on `ccb_tx`. -/
  ccb : Option Int
  /-- `ccb_rx` has been read. -/
  taken : Bool
  /-- What was sent on `ret_tx`; the predicate then holds `None` in its place. -/
  ret : Option SharedResult
deriving DecidableEq

/-- `ccb_rx.try_recv()` -/
def Call.tryRecv (c : Call) : Option Int := if c.taken then none else c.ccb

/-- `ret_tx.take().unwrap().send(ret).ok(); true` -/
def Call.send (c : Call) (ret : SharedResult) : Option (Bool × Call) :=
  match c.ret with
  | some _ => none
  | none => some (true, { c with ret := some ret })

/-- `completion_predicate`; `none` is a panic. -/
def Call.completionPredicate (c : Call) (v : View) (res : SharedResult) : Option (Bool × Call) :=
  match c.kind, res with
  | .withCompletionCallback, .error (.fatal e) => c.send (.error (.fatal e))
  | .withCompletionCallback, res =>
    match c.tryRecv with
    | none => some (false, c)
    | some errno =>
      let c := { c with taken := true }
      if errno = 0 then c.send (.ok ())
      else match res with
        | .error e => c.send (.error e)
        | .ok () => c.send (.error (.recoverable (.fromErrno errno)))
  | .changesState _ _, .error e => c.send (.error e)
  | .changesState predicate value, .ok () =>
    if v.get predicate ≠ value then some (false, c) else c.send (.ok ())

/-- Where the polling task is. -/
inductive Task
  | starting
  /-- At the top of the loop. -/
  | top
  /-- The handle waits for the file descriptor; the queue is looked at next. -/
  | looking
  /-- In `new_command.notified()`, because the handle waits for nothing. -/
  | noDirection (woken : Bool)
  /-- In `new_command.notified()`, because the queue was empty. -/
  | nothingPending (woken : Bool)
  /-- In `tokio_fd.ready()`. -/
  | polling
  /-- `aio_notify_*` has returned; the predicates are called next. -/
  | notified (res : Option ErrorKind)
  | rearming
  /-- `polling_task` has returned; the queue is not locked yet. -/
  | failing (e : FatalErrorKind)
  | dead
deriving DecidableEq

structure Async where
  handle : View
  calls : Nat → Option Call
  next : Nat
  /-- The queued predicates, each by the number of its call. -/
  pendingCommands : Except Error (List Nat)
  /-- The permit that `notify_one` leaves when nobody waits. -/
  newCommand : Bool
  task : Task
  panicked : Bool

/-- `AsyncHandle::new` -/
def Async.new (v : View) : Async where
  handle := v
  calls := fun _ => none
  next := 0
  pendingCommands := .ok []
  newCommand := false
  task := .starting
  panicked := false

def Async.setCall (s : Async) (i : Nat) (c : Call) : Async :=
  { s with calls := Function.update s.calls i (some c) }

def Async.panic (s : Async) : Async := { s with panicked := true }

/-- The effects of a call of the C library: the completion callbacks it makes,
each with the error it passes, and the state it leaves the handle in. -/
structure Effects where
  completions : List (Nat × Int)
  view : View
deriving DecidableEq

/-- A completion callback is called at most once, and only that of a command the
C library was given. -/
def deliver (calls : Nat → Option Call) : List (Nat × Int) → Option (Nat → Option Call)
  | [] => some calls
  | (i, err) :: rest =>
    match calls i with
    | none => none
    | some c =>
      if c.kind = .withCompletionCallback ∧ c.ccb = none then
        deliver (Function.update calls i (some { c with ccb := some err })) rest
      else none

def Async.effects (s : Async) (fx : Effects) : Option Async :=
  (deliver s.calls fx.completions).map fun calls => { s with calls := calls, handle := fx.view }

/-- `new_command.notify_one()` -/
def Async.notifyOne (s : Async) : Async :=
  match s.task with
  | .noDirection false => { s with task := .noDirection true }
  | .nothingPending false => { s with task := .nothingPending true }
  | _ => { s with newCommand := true }

/-- The predicate of call `i` is called. A panic ends the caller. -/
def Async.visit (res : SharedResult) (s : Async) (i : Nat) : Bool × Async :=
  match (s.calls i).bind fun c => c.completionPredicate s.handle res with
  | none => (true, s.panic)
  | some (done, c) => (done, s.setCall i c)

/-- What `tokio_fd.ready()` gives. -/
inductive Ready
  | ioError (rawOsError : Option Int)
  /-- The readiness does not match the interest. -/
  | mismatch
  | notify (res : SharedResult) (fx : Effects)

/-- The steps of the polling task, with what its calls return. -/
inductive Event
  | start (fd : SharedResult) (setup : Except (Option Int) Unit)
  | direction (wanted : Bool)
  | look
  | wake
  | ready (r : Ready)
  | scan
  | rearm (res : Except (Option Int) Unit)
  | die

inductive Label
  /-- A call of the C function of an asynchronous call. -/
  | issue (kind : AsyncKind) (res : SharedResult) (fx : Effects)
  | check (i : Nat)
  | register (i : Nat)
  | resume (i : Nat)
  | drop (i : Nat)
  /-- Any other call on the C handle. -/
  | other (fx : Effects)
  | task (e : Event)

/-- The C function is called; `?` returns its error. -/
def Async.issue (s : Async) (kind : AsyncKind) (res : SharedResult) (fx : Effects) :
    Option Async :=
  let stage := match res with
    | .ok () => .issued
    | .error e => .failed e
  let c : Call := { kind, stage, ccb := none, taken := false, ret := none }
  ({ s.setCall s.next c with next := s.next + 1 } : Async).effects fx

/-- `add_command`, up to the lock. -/
def Async.check (s : Async) (i : Nat) : Option Async :=
  match s.calls i with
  | some c =>
    if c.stage = .issued then
      match c.completionPredicate s.handle (.ok ()) with
      | none => some s.panic
      | some (true, c) => some (s.setCall i { c with stage := .awaiting })
      | some (false, c) => some (s.setCall i { c with stage := .checked })
    else none
  | none => none

/-- `add_command`, with the queue locked. -/
def Async.register (s : Async) (i : Nat) : Option Async :=
  match s.calls i with
  | some c =>
    if c.stage = .checked then
      match s.pendingCommands with
      | .error e => some (s.setCall i { c with stage := .refused e })
      | .ok l =>
        some { (s.setCall i { c with stage := .awaiting }).notifyOne with
          pendingCommands := .ok (l ++ [i]) }
    else none
  | none => none

def Async.queue (s : Async) : List Nat :=
  match s.pendingCommands with
  | .ok l => l
  | .error _ => []

/-- `ret_rx.await.unwrap()`: it is ready once there is a result, and panics when
the predicate is gone without one. -/
def Async.resume (s : Async) (i : Nat) : Option Async :=
  match s.calls i with
  | some c =>
    if c.stage = .awaiting then
      match c.ret with
      | some ret => some (s.setCall i { c with stage := .returned ret })
      | none => if i ∈ s.queue then none else some s.panic
    else none
  | none => none

def Async.drop (s : Async) (i : Nat) : Option Async :=
  match s.calls i with
  | some c =>
    if c.stage = .awaiting then some (s.setCall i { c with stage := .dropped }) else none
  | none => none

/-- `new_command.notified()`: a permit is used up at once. -/
def Async.wait (s : Async) (at_ : Bool → Task) : Async :=
  { s with task := at_ s.newCommand, newCommand := false }

def recoverableResult : Option ErrorKind → SharedResult
  | none => .ok ()
  | some kind => .error (.recoverable kind)

/-- One step of `polling_task` and of the closure around it. -/
def Async.taskStep (s : Async) : Event → Option Async
  | .start fd setup =>
    if s.task = .starting then
      match fd, setup with
      | .error e, _ => some { s with task := .failing e.toFatal }
      | .ok (), .error err => some { s with task := .failing (.io err) }
      | .ok (), .ok () => some { s with task := .top }
    else none
  | .direction wanted =>
    if s.task = .top then
      some (if wanted then { s with task := .looking } else s.wait .noDirection)
    else none
  | .look =>
    if s.task = .looking then
      match s.pendingCommands with
      | .error _ => some s.panic
      | .ok [] => some (s.wait .nothingPending)
      | .ok (_ :: _) => some { s with task := .polling }
    else none
  | .wake =>
    if s.task = .noDirection true ∨ s.task = .nothingPending true then
      some { s with task := .top }
    else none
  | .ready r =>
    if s.task = .polling then
      match r with
      | .ioError err => some { s with task := .failing (.io err) }
      | .mismatch => some { s with task := .top }
      | .notify res fx => (s.effects fx).map fun s =>
        match res with
        | .ok () => { s with task := .notified none }
        | .error (.recoverable kind) => { s with task := .notified (some kind) }
        | .error (.fatal e) => { s with task := .failing e }
    else none
  | .scan =>
    match s.task with
    | .notified res =>
      match s.pendingCommands with
      | .error _ => some s.panic
      | .ok l =>
        let out := retain (Async.visit (recoverableResult res)) l.length 0 l s
        some { out.2 with pendingCommands := .ok out.1, task := .rearming }
    | _ => none
  | .rearm res =>
    if s.task = .rearming then
      match res with
      | .error err => some { s with task := .failing (.io err) }
      | .ok () => some { s with task := .top }
    else none
  | .die =>
    match s.task with
    | .failing e =>
      match s.pendingCommands with
      | .error _ => some s.panic
      | .ok l =>
        let out := l.foldl (fun s i => (s.visit (.error (.fatal e)) i).2) s
        some { out with pendingCommands := .error (.fatal e), task := .dead }
    | _ => none

def Async.step (s : Async) : Label → Option Async
  | .issue kind res fx => s.issue kind res fx
  | .check i => s.check i
  | .register i => s.register i
  | .resume i => s.resume i
  | .drop i => s.drop i
  | .other fx => s.effects fx
  | .task e => s.taskStep e

def asyncMachine : System Async Label where
  init s := ∃ v, s = .new v
  step := Async.step

end Libnbd.Rust
