import Libnbd.Api
import Libnbd.Lib.System

/-!
The generated run loop (`generator/state_machine_generator.ml`) and the
transition system of a connected handle.

`nbd_internal_run` is cut into its iterations: `Control.running` is a handle
inside the loop, every label `enter` runs the code of the current state once
under an arbitrary environment, and an API call is possible only while no other
call is running, because the handle is locked.
-/

namespace Libnbd

open Lib

/-! ## Top-level states -/

def enterReady (inp : Input) (h : Handle) : Outcome :=
  if h.q.cmdsToIssue ≠ [] then goto .issueStart h
  else require h.sock .readySock <| if inp.pending then goto .replyStart h else .block h

/-- Fail every command that is not done and close the socket. -/
def abortAll (inp : Input) (h : Handle) : Except Abort Handle :=
  match abortCommands inp { h with q := { h.q with cmdsToIssue := [] } } h.q.cmdsToIssue with
  | .error a => .error a
  | .ok h' =>
    match abortCommands inp { h' with q := { h'.q with cmdsInFlight := [] } } h'.q.cmdsInFlight with
    | .error a => .error a
    | .ok h'' => .ok { h'' with sock := false, q := { h''.q with inFlight := 0 } }

def enterDead (inp : Input) (h : Handle) : Outcome :=
  require h.lastError.isSome .deadError <|
  match abortAll inp h with
  | .error a => .abort a
  | .ok h => .fail h

def enterClosed (inp : Input) (h : Handle) : Outcome :=
  match abortAll inp h with
  | .error a => .abort a
  | .ok h => .block h

/-- `nbd_internal_enter_*`. -/
def enter (inp : Input) (h : Handle) : Outcome :=
  match h.state with
  | .start => .block h
  | .ready => enterReady inp h
  | .dead => enterDead inp h
  | .closed => enterClosed inp h
  | .issueStart => enterIssueStart h
  | .issueSendRequest => enterIssueSendRequest inp h
  | .issuePauseSendRequest => enterIssuePauseSendRequest h
  | .issuePrepareWritePayload => enterIssuePrepareWritePayload h
  | .issueSendWritePayload => enterIssueSendWritePayload inp h
  | .issuePauseWritePayload => enterIssuePauseWritePayload h
  | .issueSendWriteShutdown => enterIssueSendWriteShutdown inp h
  | .issuePauseWriteShutdown => enterIssuePauseWriteShutdown h
  | .issueFinish => enterIssueFinish h
  | .replyStart => enterReplyStart inp h
  | .replyRecvReply => enterReplyRecvReply inp h
  | .replyCheckReplyMagic => enterReplyCheckReplyMagic h
  | .replyRecvStructuredRemaining => enterReplyRecvStructuredRemaining inp h
  | .replyFinishCommand => enterReplyFinishCommand inp h
  | .simpleStart => enterSimpleStart h
  | .simpleRecvReadPayload => enterSimpleRecvReadPayload inp h
  | .chunkStart => enterChunkStart h
  | .chunkRecvError => enterChunkRecvError inp h
  | .chunkRecvErrorMessage => enterChunkRecvErrorMessage inp h
  | .chunkRecvErrorTail => enterChunkRecvErrorTail inp h
  | .chunkRecvOffsetData => enterChunkRecvOffsetData inp h
  | .chunkRecvOffsetDataData => enterChunkRecvOffsetDataData inp h
  | .chunkRecvOffsetHole => enterChunkRecvOffsetHole inp h
  | .chunkRecvBsHeader => enterChunkRecvBsHeader inp h
  | .chunkRecvBsEntries => enterChunkRecvBsEntries inp h
  | .chunkResync => enterChunkResync inp h
  | .chunkFinish => enterChunkFinish h

inductive ExternalEvent where
  | notifyRead | notifyWrite | cmdIssue
  deriving DecidableEq, Repr

/-- The external events each state accepts and where they lead. -/
def externalEvent : ExternalEvent → State → Option State
  | .cmdIssue, .ready => some .issueStart
  | .notifyRead, .ready => some .replyStart
  | .notifyRead, .replyStart => some .replyStart
  | .notifyWrite, .issueSendRequest => some .issueSendRequest
  | .notifyRead, .issueSendRequest => some .issuePauseSendRequest
  | .notifyWrite, .issueSendWritePayload => some .issueSendWritePayload
  | .notifyRead, .issueSendWritePayload => some .issuePauseWritePayload
  | .notifyWrite, .issueSendWriteShutdown => some .issueSendWriteShutdown
  | .notifyRead, .issueSendWriteShutdown => some .issuePauseWriteShutdown
  | _, _ => none

/-! ## The transition system -/

/-- The call that entered the run loop, for what it does after the loop. -/
inductive After where
  | command (cookie : Nat)
  | disconnect
  | notify
  deriving DecidableEq, Repr

inductive Control where
  | idle (ret : Int)
  | running (after : After)
  | closed
  | aborted (a : Abort)
  deriving DecidableEq, Repr

structure Config where
  h : Handle
  ctl : Control

inductive Api where
  | command (call : Call)
  | aioDisconnect (flags : UInt32)
  | shutdown (flags : UInt32)
  | aioCommandCompleted (cookie : UInt64)
  | aioNotifyRead
  | aioNotifyWrite
  | setStrictMode (flags : UInt32)
  | setPreadInitialize (b : Bool)
  | close

inductive Label where
  | enter (inp : Input)
  | call (api : Api) (inp : Input)

/-- What is left to do when the run loop ends with `r`. -/
def afterRun (k : After) (r : Int) (h : Handle) : Config :=
  match k with
  | .command cookie => ⟨h, .idle cookie⟩
  | .disconnect => ⟨{ h with disconnectRequest := true }, .idle 0⟩
  | .notify => ⟨h, .idle r⟩

/-- Enter the run loop with an external event, if the state accepts it. -/
def startRun (ev : ExternalEvent) (k : After) (h : Handle) : Config :=
  match externalEvent ev h.state with
  | some s => ⟨{ h with state := s }, .running k⟩
  | none => afterRun k (-1) (h.setError einval "external event is invalid in this state")

/-- One iteration of the run loop. -/
def stepEnter (inp : Input) (k : After) (h : Handle) : Config :=
  match enter inp h with
  | .next h => ⟨h, .running k⟩
  | .block h => afterRun k 0 h
  | .fail h => afterRun k (-1) h
  | .abort a => ⟨h, .aborted a⟩

/-- Continue after the submission of a command. -/
def afterSubmit (h₀ : Handle) (k : After) : Submit → Config
  | .refused h => ⟨h, .idle (-1)⟩
  | .rejected h => ⟨h, .idle (-1)⟩
  | .accepted h true => startRun .cmdIssue k h
  | .accepted h false => afterRun k 0 h
  | .abort a => ⟨h₀, .aborted a⟩

/-- One API call. -/
def apiCall (inp : Input) (h : Handle) : Api → Config
  | .command call => afterSubmit h (.command h.q.unique) (submit inp h call)
  | .aioDisconnect flags => afterSubmit h .disconnect (aioDisconnect inp h flags)
  | .shutdown flags => afterSubmit h .disconnect (shutdown inp h flags)
  | .aioCommandCompleted cookie =>
    match aioCommandCompleted h cookie with
    | .error a => ⟨h, .aborted a⟩
    | .ok (h, r) => ⟨h, .idle r⟩
  | .aioNotifyRead => startRun .notifyRead .notify h
  | .aioNotifyWrite => startRun .notifyWrite .notify h
  | .setStrictMode flags =>
    if flags &&& (0xffffffff ^^^ strictMask) != 0 then
      ⟨h.setError einval "flags: invalid value for flag", .idle (-1)⟩
    else ⟨{ h with strict := flags }, .idle 0⟩
  | .setPreadInitialize b => ⟨{ h with preadInitialize := b }, .idle 0⟩
  | .close => ⟨close inp h, .closed⟩

/-- One API call on an idle handle, with the last error of the calling thread. -/
def stepCall (inp : Input) (api : Api) (h : Handle) : Config :=
  apiCall inp { h with lastError := inp.lastError } api

def step (c : Config) : Label → Option Config
  | .enter inp =>
    match c.ctl with
    | .running k => some (stepEnter inp k c.h)
    | _ => none
  | .call api inp =>
    match c.ctl with
    | .idle _ => some (stepCall inp api c.h)
    | _ => none

/-- A freshly connected handle: any negotiated export, any settings, any
memory contents. -/
def Initial (c : Config) : Prop :=
  ∃ exp strict preadInitialize hdr payload mem,
    c = ⟨Handle.connected exp strict preadInitialize hdr payload mem, .idle 0⟩

/-- The transmission phase of a handle. -/
def machine : System Config Label where
  init := Initial
  step := step

/-! ## An undisturbed environment, for concrete runs -/

/-- Nothing arrives, everything is sent at once, callbacks succeed. -/
def Input.calm : Input where
  recv := .again
  send := .sent 65536
  shutWrites := true
  pending := false
  lastError := none
  alloc := fun _ => true
  callback := fun _ => ⟨0, 0⟩

/-- A small export with every optional feature of the protocol off. -/
def Export.calm : Export where
  exportsize := 1048576
  eflags := 0x1
  blockMinimum := 0
  payloadMaximum := 33554432
  extendedHeaders := false
  structuredReplies := false
  metaValid := false
  metaContexts := []

/-- The same with structured replies negotiated. -/
def Export.structured : Export := { Export.calm with structuredReplies := true }

def Config.ofExport (exp : Export) : Config :=
  ⟨Handle.connected exp strictMask false (fun _ => 0) (fun _ => 0) (fun _ => 0), .idle 0⟩

def Config.calm : Config := .ofExport .calm

theorem Config.initial_ofExport (exp : Export) : machine.init (.ofExport exp) :=
  ⟨_, _, _, _, _, _, rfl⟩

theorem Config.initial_calm : machine.init .calm := Config.initial_ofExport _

end Libnbd
