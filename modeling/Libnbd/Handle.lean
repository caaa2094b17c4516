import Libnbd.Protocol
import Libnbd.Lib.Bytes
import Libnbd.Lib.TailQueue

/-!
The part of `struct nbd_handle` that the transmission phase reads and writes
(`lib/internal.h`), the commands queued on it and what it lets the outside see.

A pointer to a command is represented by the command's cookie. `trace` is what
the application can observe of a handle, in order, together with the moments a
command is accepted, issued, finished and retired; `sent` is the stream of bytes
handed to the socket layer and `stores` the ranges of caller memory that
received data or zeroes.
-/

namespace Libnbd

open Lib

abbrev CString := List UInt8

/-- States of `generator/state_machine.ml` that the transmission phase uses.
`start` is `STATE_START`, which there only marks a free `reply_state`. -/
inductive State where
  | start | ready | dead | closed
  | issueStart | issueSendRequest | issuePauseSendRequest | issuePrepareWritePayload
  | issueSendWritePayload | issuePauseWritePayload | issueSendWriteShutdown
  | issuePauseWriteShutdown | issueFinish
  | replyStart | replyRecvReply | replyCheckReplyMagic | replyRecvStructuredRemaining
  | replyFinishCommand
  | simpleStart | simpleRecvReadPayload
  | chunkStart | chunkRecvError | chunkRecvErrorMessage | chunkRecvErrorTail
  | chunkRecvOffsetData | chunkRecvOffsetDataData | chunkRecvOffsetHole
  | chunkRecvBsHeader | chunkRecvBsEntries | chunkResync | chunkFinish
  deriving DecidableEq, Repr

/-- `nbd_internal_is_state_processing`: the groups `ISSUE_COMMAND` and `REPLY`. -/
def State.isProcessing : State → Bool
  | start | ready | dead | closed => false
  | _ => true

/-- The API calls whose permitted state is `Connected`. -/
def State.isConnected (s : State) : Bool := s == .ready || s.isProcessing

/-! ## Commands -/

/-- A closure passed by the caller: which of its two functions are not null. -/
structure Closure where
  callback : Bool
  free : Bool
  deriving DecidableEq, Repr

def Closure.null : Closure := ⟨false, false⟩

/-- `CALLBACK_IS_NULL`. -/
def Closure.isNull (c : Closure) : Bool := !c.callback && !c.free

/-- `struct command`. The caller's read buffer is an address, the bytes to be
sent (write data or block status ids) are the object `data` points to. -/
structure Command where
  flags : UInt16
  type : CmdType
  cookie : Nat
  offset : UInt64
  count : UInt64
  buf : Nat := 0
  data : List UInt8 := []
  fn : Closure := .null
  completion : Closure := .null
  wide : Bool := false
  initialized : Bool := false
  dataSeen : UInt32 := 0
  error : UInt32 := 0
  deriving DecidableEq, Repr

inductive ReadStatus where
  | data | hole | error
  deriving DecidableEq, Repr

/-- What happens on a handle, in order. -/
inductive Event where
  | accept (cmd : Command)
  | issue (cmd : Command)
  | chunk (cookie : Nat) (subbuf : List UInt8) (offset : UInt64) (status : ReadStatus)
      (error : UInt32)
  | extent (cookie : Nat) (name : CString) (offset : UInt64) (wide : Bool)
      (entries : List (UInt64 × UInt64)) (error : UInt32)
  | completion (cookie : Nat) (error : UInt32)
  | finish (cookie : Nat)
  | freeFn (cookie : Nat)
  | freeCompletion (cookie : Nat)
  | retire (cookie : Nat)
  | completed (cookie : Nat) (ret : Int)
  | rejectFn
  | rejectCompletion
  deriving DecidableEq, Repr

/-- The caller's reaction to a callback: return value and `*error` afterwards. -/
structure CbResult where
  ret : Int
  error : UInt32
  deriving DecidableEq, Repr

/-! ## The handle -/

/-- What negotiation left behind, and the settings the commands consult. -/
structure Export where
  exportsize : UInt64
  eflags : UInt16
  blockMinimum : UInt32
  payloadMaximum : UInt32
  extendedHeaders : Bool
  structuredReplies : Bool
  metaValid : Bool
  metaContexts : List (CString × UInt32)
  deriving DecidableEq, Repr

/-- `h->rbuf`: null, inside `sbuf.reply.hdr`, inside `sbuf.reply.payload`,
inside `bs_raw.storage`, or an address of the caller. -/
inductive Rbuf where
  | null
  | hdr (pos : Nat)
  | payload (pos : Nat)
  | raw (pos : Nat)
  | user (addr : Nat)
  deriving DecidableEq, Repr

/-- The receiving side. -/
structure Rx where
  rbuf : Rbuf
  rlen : Nat
  hdr : Mem
  payload : Mem
  payloadLeft : Nat
  bsCount : Nat
  bsRaw : Option Mem
  replyCmd : Option Nat
  replyState : State

/-- The sending side. `wbuf` is the rest of the object being sent. -/
structure Tx where
  wbuf : List UInt8
  wlen : Nat
  wflags : Bool
  req : List UInt8
  inWritePayload : Bool
  inWriteShutdown : Bool
  sent : List UInt8
  deriving DecidableEq, Repr

structure Queues where
  cmdsToIssue : List Command
  cmdsToIssueTail : Option Nat
  cmdsInFlight : List Command
  cmdsDone : List Command
  cmdsDoneTail : Option Nat
  inFlight : Int
  unique : Nat
  deriving DecidableEq, Repr

structure Store where
  cookie : Option Nat
  addr : Nat
  len : Nat
  deriving DecidableEq, Repr

structure Handle where
  state : State
  exp : Export
  strict : UInt32
  preadInitialize : Bool
  disconnectRequest : Bool
  sock : Bool
  rx : Rx
  tx : Tx
  q : Queues
  bytesSent : Nat
  chunksSent : Nat
  bytesReceived : Nat
  chunksReceived : Nat
  lastError : Option (UInt32 × String)
  mem : Mem
  stores : List Store
  trace : List Event

namespace Handle

/-- `set_error`. -/
def setError (h : Handle) (errnum : UInt32) (text : String) : Handle :=
  { h with lastError := some (errnum, text) }

/-- Append to the trace. -/
def log (h : Handle) (es : List Event) : Handle := { h with trace := h.trace ++ es }

/-- The handle as `nbd_create` and a successful negotiation leave it when the
state machine first reaches `READY`. -/
def connected (exp : Export) (strict : UInt32) (preadInitialize : Bool) (hdr payload mem : Mem) :
    Handle where
  state := .ready
  exp := exp
  strict := strict
  preadInitialize := preadInitialize
  disconnectRequest := false
  sock := true
  rx :=
    { rbuf := .null, rlen := 0, hdr := hdr, payload := payload, payloadLeft := 0, bsCount := 0,
      bsRaw := none, replyCmd := none, replyState := .start }
  tx :=
    { wbuf := [], wlen := 0, wflags := false, req := [], inWritePayload := false,
      inWriteShutdown := false, sent := [] }
  q :=
    { cmdsToIssue := [], cmdsToIssueTail := none, cmdsInFlight := [], cmdsDone := [],
      cmdsDoneTail := none, inFlight := 0, unique := 1 }
  bytesSent := 0
  chunksSent := 0
  bytesReceived := 0
  chunksReceived := 0
  lastError := none
  mem := mem
  stores := []
  trace := []

/-- Find a command of a list by its cookie. -/
def findCmd (cookie : Nat) (cmds : List Command) : Option Command :=
  cmds.find? fun c => c.cookie == cookie

/-- What `h->reply_cmd` points to. -/
inductive Ref where
  | null
  | dangling
  | live (cmd : Command)

def replyRef (h : Handle) : Ref :=
  match h.rx.replyCmd with
  | none => .null
  | some k =>
    match findCmd k h.q.cmdsInFlight with
    | none => .dangling
    | some cmd => .live cmd

/-- Write through a pointer to a command of a list. -/
def setFirst (cmd : Command) : List Command → List Command
  | [] => []
  | c :: cs => if c.cookie = cmd.cookie then cmd :: cs else c :: setFirst cmd cs

/-- Change a command in flight in place. -/
def setCmd (h : Handle) (cmd : Command) : Handle :=
  { h with q := { h.q with cmdsInFlight := setFirst cmd h.q.cmdsInFlight } }

/-- The fields of the reply header in `sbuf.reply.hdr`. -/
def replyMagic (h : Handle) : UInt32 := h.rx.hdr.be32 0
def replyError (h : Handle) : UInt32 := h.rx.hdr.be32 4
def replyFlags (h : Handle) : UInt16 := h.rx.hdr.be16 4
def replyType (h : Handle) : UInt16 := h.rx.hdr.be16 6
def replyCookie (h : Handle) : Nat := (h.rx.hdr.be64 8).toNat
def replyOffset (h : Handle) : UInt64 := h.rx.hdr.be64 16

/-- `length` of a structured (32 bit) or extended (64 bit) reply header. -/
def replyLength (h : Handle) : Nat :=
  if h.exp.extendedHeaders then (h.rx.hdr.be64 24).toNat else (h.rx.hdr.be32 16).toNat

end Handle

/-! ## Environment and outcome of one state -/

inductive RecvResult where
  | again
  | error
  | data (bs : List UInt8)
  deriving DecidableEq, Repr

inductive SendResult where
  | again
  | error
  | sent (n : Nat)
  deriving DecidableEq, Repr

/-- Everything outside the library that one step may consult: the socket
operations, the last error of the calling thread, the allocator and the caller's
callbacks. -/
structure Input where
  recv : RecvResult
  send : SendResult
  shutWrites : Bool
  pending : Bool
  lastError : Option (UInt32 × String)
  alloc : Nat → Bool
  callback : Event → CbResult

/-- Failing assertions, and undefined behaviour (the last three). -/
inductive Abort where
  | saveRlen | saveReplyState | saveStart | resumeProcessing | startReplyCmd
  | structuredRbuf | finishLookup | finishDisc | doneTail | inFlightNegative
  | readCmd | errorLength | errorCmd | tailCmd | dataCmd | holeCmd | bsExtent | bsCmd | bsLength
  | bsDivides | bsType | bsStorage | bsMetaValid | bsCook | resyncRbuf | chunkPayloadLeft
  | issueEmpty | issueCookie | issueCount | issueWlen | issueShutdown
  | readySock | deadError | abortDisc
  | queueProcessing | queueTail | abandonEmpty | completedDisc | completedTail
  | danglingReplyCmd | danglingTail | wbufOverrun
  deriving DecidableEq, Repr

/-- How a state's code ends: `SET_NEXT_STATE` was used, or not (the machine
blocks), or -1 was returned, or the process died. -/
inductive Outcome where
  | next (h : Handle)
  | block (h : Handle)
  | fail (h : Handle)
  | abort (a : Abort)

/-- `assert`. -/
def require (p : Bool) (a : Abort) (k : Outcome) : Outcome := if p then k else .abort a

/-- `SET_NEXT_STATE (s); return 0`. -/
def goto (s : State) (h : Handle) : Outcome := .next { h with state := s }

/-- `CALL_CALLBACK`: the events, the return value and `*error` afterwards. -/
def callCallback (inp : Input) (c : Closure) (e : Event) (error : UInt32) :
    List Event × Int × UInt32 :=
  if c.callback then ([e], (inp.callback e).ret, (inp.callback e).error) else ([], 0, error)

end Libnbd
