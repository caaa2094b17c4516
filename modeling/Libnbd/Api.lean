import Libnbd.Issue
import Libnbd.Chunk

/-!
The calls of the public API that act on a connected handle: commands
(`lib/rw.c`), their completion (`lib/aio.c`), disconnection
(`lib/disconnect.c`) and `nbd_close` (`lib/handle.c`), each with the checks of
the wrapper that `generator/C.ml` puts around it.
-/

namespace Libnbd

open Lib

/-! ## `nbd_internal_command_common` -/

/-- Arguments of `nbd_internal_command_common`. `ids` is the payload of a
filtered block status command. -/
structure Request where
  flags : UInt16
  type : CmdType
  offset : UInt64
  count : UInt64
  countErr : UInt32
  buf : Nat := 0
  data : List UInt8 := []
  ids : Option (List UInt8) := none
  fn : Closure := .null
  completion : Closure := .null
  wide : Bool := false

/-- How a submission ends. In `refused` the closures are still with the
wrapper, in `rejected` `nbd_internal_command_common` has freed them; `run` tells
whether the queued command kicks the state machine. -/
inductive Submit where
  | refused (h : Handle)
  | rejected (h : Handle)
  | accepted (h : Handle) (run : Bool)
  | abort (a : Abort)

namespace Handle

def isStrict (h : Handle) (bit : UInt32) : Bool := h.strict &&& bit != 0

end Handle

/-- The free functions called for closures that no command took over. -/
def rejectEvents (fn completion : Closure) : List Event :=
  (if fn.free then [Event.rejectFn] else []) ++ (if completion.free then [Event.rejectCompletion] else [])

namespace Request

/-- The size on the wire: for a filtered block status the id list replaces the
count that the caller asked about. -/
def wireCount (r : Request) : UInt64 :=
  match r.type, r.ids with
  | .blockStatus, some ids => UInt64.ofNat ids.length
  | _, _ => r.count

/-- The `count_err` checks, which look at the caller's count. -/
def boundsError (h : Handle) (r : Request) : Option (UInt32 × String) :=
  if r.countErr = 0 then none
  else if h.isStrict strictZeroSize && r.count == 0 then some (einval, "count cannot be 0")
  else if h.isStrict strictBounds &&
      (decide (r.offset > h.exp.exportsize) || decide (r.count > h.exp.exportsize - r.offset)) then
    some (r.countErr, "request out of bounds")
  else if h.exp.blockMinimum != 0 && h.isStrict strictAlign &&
      (r.offset ||| r.count) &&& (h.exp.blockMinimum.toUInt64 - 1) != 0 then
    some (einval, "request is unaligned")
  else none

/-- The limits on the size of the request. -/
def sizeError (h : Handle) (r : Request) : Option (UInt32 × String) :=
  let payloadTooLarge :=
    h.isStrict strictPayload && decide (r.wireCount > h.exp.payloadMaximum.toUInt64)
  let requestTooLarge := decide (r.wireCount > UInt64.ofNat maxRequestSize)
  match r.type, r.ids with
  | .write, _ =>
    if payloadTooLarge then some (erange, "request too large: maximum payload size")
    else if requestTooLarge then some (erange, "request too large: maximum request size")
    else none
  | .read, _ =>
    if requestTooLarge then some (erange, "request too large: maximum request size") else none
  | .blockStatus, some _ =>
    if requestTooLarge || payloadTooLarge then some (erange, "filter set too large") else none
  | _, _ =>
    if !h.exp.extendedHeaders && decide (r.wireCount > uint32Max) then
      some (erange, "request too large: maximum request size")
    else none

/-- Why `nbd_internal_command_common` does not queue a request. -/
def error (h : Handle) (r : Request) (alloc : Nat → Bool) : Option (UInt32 × String) :=
  if h.disconnectRequest then some (einval, "cannot request more commands after NBD_CMD_DISC")
  else if h.q.inFlight = intMax then some (enomem, "too many commands already in flight")
  else
    match r.boundsError h, r.sizeError h with
    | some e, _ => some e
    | none, some e => some e
    | none, none => if alloc 1 then none else some (enomem, "calloc")

/-- The command that is queued. -/
def command (h : Handle) (r : Request) : Command where
  flags := r.flags
  type := r.type
  cookie := h.q.unique
  offset := r.offset
  count := r.wireCount
  buf := r.buf
  data := r.ids.getD r.data
  fn := r.fn
  completion := r.completion
  wide := r.wide
  initialized := h.preadInitialize

end Request

/-- Put a new command at the end of `cmds_to_issue`. -/
def enqueue (h : Handle) (cmd : Command) : Submit :=
  let h := { h with q := { h.q with unique := h.q.unique + 1, inFlight := h.q.inFlight + 1 } }.log
    [.accept cmd]
  match h.q.cmdsToIssue with
  | [] =>
    if h.q.cmdsToIssueTail = none then
      .accepted { h with q := { h.q with
        cmdsToIssue := [cmd], cmdsToIssueTail := some cmd.cookie } } (h.state == .ready)
    else .abort .queueTail
  | _ :: _ =>
    if h.state.isProcessing then
      match h.q.cmdsToIssueTail with
      | none => .abort .danglingTail
      | some t =>
        match linkAfter Command.cookie t cmd h.q.cmdsToIssue with
        | none => .abort .danglingTail
        | some l => .accepted { h with q := { h.q with
            cmdsToIssue := l, cmdsToIssueTail := some cmd.cookie } } false
    else .abort .queueProcessing

def commandCommon (inp : Input) (h : Handle) (r : Request) : Submit :=
  match r.error h inp.alloc with
  | some (errnum, text) =>
    .rejected ((h.setError errnum text).log (rejectEvents r.fn r.completion))
  | none => enqueue h (r.command h)

/-! ## `nbd_unlocked_aio_*` -/

namespace Handle

/-- `get_flag`: `none` stands for -1. -/
def getFlag (h : Handle) (flag : UInt16) : Option Bool :=
  if h.exp.eflags = 0 then none else some (h.exp.eflags &&& flag != 0)

def can (h : Handle) (flag : UInt16) : Bool := h.getFlag flag == some true

end Handle

def hasFlag (flags flag : UInt32) : Bool := flags &&& flag != 0

/-- The commands of the API, with their arguments. -/
inductive Call where
  | aioPread (buf : Nat) (count offset : UInt64) (completion : Closure) (flags : UInt32)
  | aioPreadStructured (buf : Nat) (count offset : UInt64) (chunk completion : Closure)
      (flags : UInt32)
  | aioPwrite (buf : Option (List UInt8)) (count offset : UInt64) (completion : Closure)
      (flags : UInt32)
  | aioFlush (completion : Closure) (flags : UInt32)
  | aioTrim (count offset : UInt64) (completion : Closure) (flags : UInt32)
  | aioCache (count offset : UInt64) (completion : Closure) (flags : UInt32)
  | aioZero (count offset : UInt64) (completion : Closure) (flags : UInt32)
  | aioBlockStatus (count offset : UInt64) (extent completion : Closure) (flags : UInt32)
  | aioBlockStatus64 (count offset : UInt64) (extent64 completion : Closure) (flags : UInt32)
  | aioBlockStatusFilter (count offset : UInt64) (filter : List CString)
      (extent64 completion : Closure) (flags : UInt32)

namespace Call

def flags : Call → UInt32
  | aioPread _ _ _ _ f | aioPreadStructured _ _ _ _ _ f | aioPwrite _ _ _ _ f | aioFlush _ f
  | aioTrim _ _ _ f | aioCache _ _ _ f | aioZero _ _ _ f | aioBlockStatus _ _ _ _ f
  | aioBlockStatus64 _ _ _ _ f | aioBlockStatusFilter _ _ _ _ _ f => f

/-- The flags `generator/API.ml` admits for the call. -/
def flagMask : Call → UInt32
  | aioPread .. | aioFlush .. | aioCache .. => 0
  | aioPreadStructured .. => 0x4
  | aioPwrite .. => 0x21
  | aioTrim .. => 0x1
  | aioZero .. => 0x13
  | aioBlockStatus .. | aioBlockStatus64 .. => 0x8
  | aioBlockStatusFilter .. => 0x28

def completion : Call → Closure
  | aioPread _ _ _ c _ | aioPreadStructured _ _ _ _ c _ | aioPwrite _ _ _ c _ | aioFlush c _
  | aioTrim _ _ c _ | aioCache _ _ c _ | aioZero _ _ c _ | aioBlockStatus _ _ _ c _
  | aioBlockStatus64 _ _ _ c _ | aioBlockStatusFilter _ _ _ _ c _ => c

/-- The chunk or extent closure, if the call has one. -/
def fn : Call → Closure
  | aioPreadStructured _ _ _ c _ _ | aioBlockStatus _ _ c _ _ | aioBlockStatus64 _ _ c _ _
  | aioBlockStatusFilter _ _ _ c _ _ => c
  | _ => .null

/-- Checks of the wrapper, after the state and before the flags. -/
def argError : Call → Option (UInt32 × String)
  | aioPread buf .. => if buf = 0 then some (efault, "buf cannot be NULL") else none
  | aioPreadStructured buf _ _ chunk _ _ =>
    if buf = 0 then some (efault, "buf cannot be NULL")
    else if chunk.isNull then some (efault, "chunk cannot be NULL") else none
  | aioPwrite buf .. => if buf = none then some (efault, "buf cannot be NULL") else none
  | aioBlockStatus _ _ extent _ _ =>
    if extent.isNull then some (efault, "extent cannot be NULL") else none
  | aioBlockStatus64 _ _ extent64 _ _ | aioBlockStatusFilter _ _ _ extent64 _ _ =>
    if extent64.isNull then some (efault, "extent64 cannot be NULL") else none
  | _ => none

end Call

def readOnlyError (h : Handle) : Option (UInt32 × String) :=
  if h.can flagReadOnly then some (eperm, "server does not support write operations") else none

def fuaError (h : Handle) (flags : UInt32) : Option (UInt32 × String) :=
  if hasFlag flags cmdFlagFua && !h.can flagSendFua then
    some (einval, "server does not support the FUA flag") else none

def supportError (h : Handle) (flag : UInt16) (text : String) : Option (UInt32 × String) :=
  if h.can flag then none else some (einval, text)

/-- Run checks only under `LIBNBD_STRICT_COMMANDS`. -/
def underStrictCommands (h : Handle) (e : Option (UInt32 × String)) : Option (UInt32 × String) :=
  if h.isStrict strictCommands then e else none

def checkAioBlockStatus (h : Handle) : Option (UInt32 × String) :=
  underStrictCommands h <|
    if !h.exp.structuredReplies then some (enotsup, "server does not support structured replies")
    else if !h.exp.metaValid || h.exp.metaContexts.isEmpty then
      some (enotsup, "did not negotiate any metadata contexts")
    else none

/-- The flags `nbd_unlocked_aio_pwrite` goes on with. -/
def pwriteFlags (h : Handle) (flags : UInt32) : UInt32 :=
  if h.isStrict strictAutoFlag then
    if h.exp.extendedHeaders then flags ||| cmdFlagPayloadLen
    else flags &&& (0xffffffff ^^^ cmdFlagPayloadLen)
  else flags

/-- Ids of the named contexts in order, big-endian; `none` if a name is unknown. -/
def filterIds (h : Handle) : List CString → Option (List UInt8)
  | [] => some []
  | name :: names =>
    match h.exp.metaValid, h.exp.metaContexts.find? fun m => m.1 == name with
    | true, some (_, id) => (filterIds h names).map fun ids => toBE 4 id.toNat ++ ids
    | _, _ => none

/-- The flags `nbd_unlocked_aio_block_status_filter` goes on with. -/
def filterFlags (h : Handle) (flags : UInt32) : UInt32 :=
  if h.isStrict strictAutoFlag then flags ||| cmdFlagPayloadLen else flags

def filterError (h : Handle) (flags : UInt32) : Option (UInt32 × String) :=
  if h.isStrict strictAutoFlag && !h.exp.extendedHeaders then
    some (enotsup, "server does not support extended headers")
  else
    underStrictCommands h <|
      if !h.can flagBlockStatusPayload then
        some (einval, "server does not support the block status payload flag")
      else if !hasFlag (filterFlags h flags) cmdFlagPayloadLen then
        some (einval, "incorrect setting for PAYLOAD_LEN flag")
      else none

/-- Checks of `nbd_unlocked_aio_*`, made while the closures are still with the
wrapper. -/
def unlockedError (inp : Input) (h : Handle) : Call → Option (UInt32 × String)
  | .aioPread .. => none
  | .aioPreadStructured _ _ _ _ _ flags =>
    underStrictCommands h <|
      if hasFlag flags cmdFlagDf && !h.can flagSendDf then
        some (einval, "server does not support the DF flag") else none
  | .aioPwrite _ _ _ _ flags =>
    underStrictCommands h <|
      (readOnlyError h).or <| (fuaError h (pwriteFlags h flags)).or <|
        if hasFlag (pwriteFlags h flags) cmdFlagPayloadLen != h.exp.extendedHeaders then
          some (einval, "incorrect setting for PAYLOAD_LEN flag") else none
  | .aioFlush .. =>
    underStrictCommands h <| supportError h flagSendFlush "server does not support flush operations"
  | .aioTrim _ _ _ flags =>
    underStrictCommands h <|
      (supportError h flagSendTrim "server does not support trim operations").or <|
        (readOnlyError h).or <| fuaError h flags
  | .aioCache .. =>
    underStrictCommands h <| supportError h flagSendCache "server does not support cache operations"
  | .aioZero _ _ _ flags =>
    underStrictCommands h <|
      (supportError h flagSendWriteZeroes "server does not support zero operations").or <|
        (readOnlyError h).or <| (fuaError h flags).or <|
          if hasFlag flags cmdFlagFastZero && !h.can flagSendFastZero then
            some (einval, "server does not support the fast zero flag") else none
  | .aioBlockStatus .. | .aioBlockStatus64 .. => checkAioBlockStatus h
  | .aioBlockStatusFilter _ _ filter _ _ flags =>
    (checkAioBlockStatus h).or <| (filterError h flags).or <|
      if !inp.alloc 2 then some (enomem, "calloc")
      else if !inp.alloc 3 then some (enomem, "realloc")
      else if filterIds h filter = none then some (einval, "context not negotiated")
      else none

/-- What `nbd_unlocked_aio_*` hands to `nbd_internal_command_common`. -/
def callRequest (h : Handle) : Call → Request
  | .aioPread buf count offset completion flags =>
    { flags := flags.toUInt16, type := .read, offset, count, countErr := einval, buf, completion }
  | .aioPreadStructured buf count offset chunk completion flags =>
    { flags := flags.toUInt16, type := .read, offset, count, countErr := einval, buf,
      fn := chunk, completion }
  | .aioPwrite buf count offset completion flags =>
    { flags := (pwriteFlags h flags).toUInt16, type := .write, offset, count,
      countErr := enospc, data := buf.getD [], completion }
  | .aioFlush completion flags =>
    { flags := flags.toUInt16, type := .flush, offset := 0, count := 0, countErr := 0, completion }
  | .aioTrim count offset completion flags =>
    { flags := flags.toUInt16, type := .trim, offset, count, countErr := enospc, completion }
  | .aioCache count offset completion flags =>
    { flags := flags.toUInt16, type := .cache, offset, count, countErr := einval, completion }
  | .aioZero count offset completion flags =>
    { flags := flags.toUInt16, type := .writeZeroes, offset, count, countErr := enospc,
      completion }
  | .aioBlockStatus count offset extent completion flags =>
    { flags := flags.toUInt16, type := .blockStatus, offset, count, countErr := einval,
      fn := extent, completion }
  | .aioBlockStatus64 count offset extent64 completion flags =>
    { flags := flags.toUInt16, type := .blockStatus, offset, count, countErr := einval,
      fn := extent64, completion, wide := true }
  | .aioBlockStatusFilter count offset filter extent64 completion flags =>
    { flags := (filterFlags h flags).toUInt16, type := .blockStatus, offset, count,
      countErr := einval, ids := some (toBE 8 count.toNat ++ (filterIds h filter).getD []),
      fn := extent64, completion, wide := true }

/-- The wrapper zeroes a read buffer before it checks anything. -/
def sanitize (h : Handle) : Call → Handle
  | .aioPread buf count .. | .aioPreadStructured buf count .. =>
    if h.preadInitialize && buf != 0 then { h with mem := h.mem.fill buf count.toNat 0 } else h
  | _ => h

/-- Why a call is refused before any closure is handed over. -/
def callError (inp : Input) (h : Handle) (call : Call) : Option (UInt32 × String) :=
  if !h.state.isConnected then some (einval, "invalid state")
  else call.argError.or <|
    if call.flags &&& (0xffffffff ^^^ call.flagMask) != 0 &&
        (h.isStrict strictFlags || decide (call.flags > 0xffff)) then
      some (einval, "flags: invalid value for flag")
    else unlockedError inp h call

/-- A command call of the API. -/
def submit (inp : Input) (h : Handle) (call : Call) : Submit :=
  let h := sanitize h call
  match callError inp h call with
  | some (errnum, text) =>
    .refused ((h.setError errnum text).log (rejectEvents call.fn call.completion))
  | none => commandCommon inp h (callRequest h call)

/-! ## Disconnecting -/

/-- The request of `nbd_unlocked_aio_disconnect`. -/
def discRequest (flags : UInt32) : Request :=
  { flags := flags.toUInt16, type := .disc, offset := 0, count := 0, countErr := 0 }

def aioDisconnect (inp : Input) (h : Handle) (flags : UInt32) : Submit :=
  if !h.state.isConnected then .refused (h.setError einval "invalid state")
  else if flags != 0 && (h.isStrict strictFlags || decide (flags > 0xffff)) then
    .refused (h.setError einval "flags: invalid value for flag")
  else commandCommon inp h (discRequest flags)

/-- The commands that `LIBNBD_SHUTDOWN_ABANDON_PENDING` aborts: the head of the
queue is taken for partially sent unless the machine is `READY`. -/
def abandoned (h : Handle) : List Command :=
  if h.state = .ready then h.q.cmdsToIssue else h.q.cmdsToIssue.tail

def abandonPending (inp : Input) (h : Handle) : Except Abort Handle :=
  if h.state = .ready then
    abortCommands inp { h with q := { h.q with cmdsToIssue := [] } } h.q.cmdsToIssue
  else
    match h.q.cmdsToIssue with
    | [] => .error .abandonEmpty
    | cmd :: rest =>
      abortCommands inp
        { h with q := { h.q with cmdsToIssue := [cmd], cmdsToIssueTail := some cmd.cookie } } rest

/-- `nbd_shutdown` on a connected handle, up to the point where it waits.
`accepted h false` without a new command means that `NBD_CMD_DISC` was already
queued. -/
def shutdown (inp : Input) (h : Handle) (flags : UInt32) : Submit :=
  if !h.state.isConnected then .refused (h.setError einval "invalid state")
  else if flags &&& (0xffffffff ^^^ shutdownAbandonPending) != 0 then
    .refused (h.setError einval "flags: invalid value for flag")
  else
    match (if hasFlag flags shutdownAbandonPending then abandonPending inp h else .ok h) with
    | .error a => .abort a
    | .ok h =>
      if h.disconnectRequest then .accepted h false else commandCommon inp h (discRequest 0)

/-! ## Retiring commands -/

/-- The node in front of the one with this cookie. -/
def prevCookie (cookie : Nat) : List Command → Option Nat
  | c :: d :: rest => if d.cookie = cookie then some c.cookie else prevCookie cookie (d :: rest)
  | _ => none

/-- The error `nbd_unlocked_aio_command_completed` reports for a command. -/
def completedError (cmd : Command) : UInt32 :=
  if cmd.type = .read ∧ cmd.dataSeen.toUInt64 ≠ cmd.count ∧ cmd.error = 0 then eproto
  else cmd.error

/-- `nbd_unlocked_aio_command_completed` and its return value. -/
def aioCommandCompleted (h : Handle) (cookie : UInt64) : Except Abort (Handle × Int) :=
  if cookie < 1 then .ok (h.setError einval "invalid aio cookie", -1)
  else
    match Handle.findCmd cookie.toNat h.q.cmdsDone with
    | none => .ok (h, 0)
    | some cmd =>
      if cmd.type = .disc then .error .completedDisc
      else if h.q.cmdsDoneTail = some cmd.cookie ∧
          h.q.cmdsDone.getLast?.map Command.cookie ≠ some cmd.cookie then .error .completedTail
      else
        let ret := if completedError cmd = 0 then 1 else -1
        let h := { h with q := { h.q with
          cmdsDone := h.q.cmdsDone.eraseP fun c => c.cookie == cookie.toNat
          cmdsDoneTail :=
            if h.q.cmdsDoneTail = some cmd.cookie then prevCookie cmd.cookie h.q.cmdsDone
            else h.q.cmdsDoneTail } }
        let h := h.log (retireAndFreeCommand cmd ++ [Event.completed cmd.cookie ret])
        .ok (if ret = -1 then h.setError (completedError cmd) "command failed" else h, ret)

/-- `free_cmd_list`. -/
def freeCmdList (inp : Input) (cmds : List Command) : List Event :=
  cmds.flatMap fun cmd =>
    (callCallback inp cmd.completion (.completion cmd.cookie (orErr cmd.error enotconn))
      (orErr cmd.error enotconn)).1 ++ retireAndFreeCommand cmd

/-- `nbd_close`. -/
def close (inp : Input) (h : Handle) : Handle :=
  { h with q := { h.q with cmdsToIssue := [], cmdsInFlight := [], cmdsDone := [] } }.log
    (freeCmdList inp h.q.cmdsToIssue ++ freeCmdList inp h.q.cmdsInFlight ++
      freeCmdList inp h.q.cmdsDone)

end Libnbd
