import Libnbd.Reply

/-!
State machine for structured and extended reply chunks
(`generator/states-reply-chunk.c`).
-/

namespace Libnbd

open Lib

/-- The comparisons are on unsigned 64 bit values and the sums wrap. -/
def structuredReplyInBounds (offset : UInt64) (length : UInt32) (cmd : Command) : Bool :=
  !(decide (offset < cmd.offset) || decide (cmd.offset + cmd.count ≤ offset) ||
    decide (cmd.offset + cmd.count < offset + length.toUInt64))

/-- Size of the block status prefix and of one descriptor. -/
def bsPrefixLen (type : UInt16) : Nat := if type = replyTypeBlockStatus then 4 else 8
def bsExtentLen (type : UInt16) : Nat := if type = replyTypeBlockStatus then 8 else 16

def bsReplyLengthOk (type : UInt16) (length : Nat) : Bool :=
  decide (bsPrefixLen type + bsExtentLen type ≤ length) &&
    (length - bsPrefixLen type) % bsExtentLen type == 0

/-- Throw the rest of the payload away: the tail of `RECV_ERROR` and
`RECV_BS_HEADER`, and the `resync` label of `CHUNK_REPLY.START`. -/
def resync (h : Handle) : Outcome :=
  goto .chunkResync
    { h with rx := { h.rx with rbuf := .null, rlen := h.rx.payloadLeft, payloadLeft := 0 } }

/-- Ask for `n` bytes into `sbuf.reply.payload`. -/
def recvPayload (s : State) (n : Nat) (h : Handle) : Outcome :=
  goto s { h with rx := { h.rx with rbuf := .payload 0, rlen := n } }

/-- As `recvPayload`, counting the bytes off `h->payload_left`. -/
def recvPayloadCounted (s : State) (n : Nat) (h : Handle) : Outcome :=
  recvPayload s n { h with rx := { h.rx with payloadLeft := h.rx.payloadLeft - n } }

/-- The block status case of `CHUNK_REPLY.START`. -/
def chunkStartBlockStatus (h : Handle) (cmd : Command) : Outcome :=
  if cmd.type ≠ .blockStatus ∨ h.exp.metaValid = false ∨ h.exp.metaContexts = [] ∨
      bsReplyLengthOk h.replyType h.replyLength = false then resync h
  else
    require (!cmd.fn.isNull) .bsExtent <|
    recvPayload .chunkRecvBsHeader (bsPrefixLen h.replyType) (h.setCmd
      (if h.exp.extendedHeaders ≠ (h.replyType == replyTypeBlockStatusExt)
        then { cmd with error := orErr cmd.error eproto } else cmd))

/-- The `switch` on the chunk type, with `h->payload_left` set. -/
def chunkStartType (h : Handle) (cmd : Command) : Outcome :=
  let length := h.replyLength
  if h.replyType = replyTypeNone then
    if length ≠ 0 ∨ h.replyFlags &&& replyFlagDone = 0 then resync h else goto .chunkFinish h
  else if h.replyType = replyTypeOffsetData then
    if cmd.type ≠ .read ∨ length < 8 then resync h
    else recvPayloadCounted .chunkRecvOffsetData 8 h
  else if h.replyType = replyTypeOffsetHole then
    if cmd.type ≠ .read ∨ length ≠ 12 then resync h
    else recvPayloadCounted .chunkRecvOffsetHole 12 h
  else if h.replyType = replyTypeBlockStatus ∨ h.replyType = replyTypeBlockStatusExt then
    chunkStartBlockStatus h cmd
  else if replyTypeIsErr h.replyType then
    if length < 4 then resync h else recvPayload .chunkRecvError (min length 6) h
  else resync h

/-- The chunk is for a known command and may be looked at. -/
def chunkExpected (h : Handle) (cmd : Command) : Bool :=
  h.exp.structuredReplies && !(h.exp.extendedHeaders && h.replyOffset != cmd.offset)

/-- `CHUNK_REPLY.START`. An unexpected chunk jumps to `resync` before
`h->payload_left` has been set from the header. -/
def enterChunkStart (h : Handle) : Outcome :=
  if h.replyLength > maxRequestSize + 8 then
    goto .dead (h.setError 0 "invalid server reply length")
  else
    match h.replyRef with
    | .dangling => .abort .danglingReplyCmd
    | .null => resync h
    | .live cmd =>
      if chunkExpected h cmd then
        chunkStartType { h with rx := { h.rx with payloadLeft := h.replyLength } } cmd
      else resync h

/-! ## Error chunks -/

/-- Fields of `sbuf.reply.payload.error`. -/
def Handle.chunkErrorError (h : Handle) : UInt32 := h.rx.payload.be32 0
def Handle.chunkErrorLen (h : Handle) : Nat := (h.rx.payload.be16 4).toNat
def Handle.chunkErrorOffset (h : Handle) : UInt64 := h.rx.payload.be64 (6 + nbdMaxString)

def recvErrorDone (h : Handle) : Outcome :=
  let length := h.rx.payloadLeft
  let h := { h with rx := { h.rx with payloadLeft := length - min length 6 } }
  require (decide (4 ≤ length)) .errorLength <|
  match h.replyRef with
  | .dangling => .abort .danglingReplyCmd
  | .null => .abort .errorCmd
  | .live cmd =>
    if length < 6 ∨ h.chunkErrorLen > h.rx.payloadLeft ∨ h.chunkErrorLen > nbdMaxString then
      resync (h.setCmd { cmd with error := orErr cmd.error (errnoOfNbdError h.chunkErrorError) })
    else
      goto .chunkRecvErrorMessage { h with rx := { h.rx with
        rbuf := .payload 6
        rlen := h.chunkErrorLen
        payloadLeft := h.rx.payloadLeft - h.chunkErrorLen } }

def enterChunkRecvError (inp : Input) : Handle → Outcome := recvThen inp recvErrorDone

def recvErrorMessageDone (h : Handle) : Outcome :=
  goto .chunkRecvErrorTail { h with rx := { h.rx with
    rbuf :=
      if h.replyType = replyTypeErrorOffset ∧ h.rx.payloadLeft = 8
      then .payload (6 + nbdMaxString) else .null
    rlen := h.rx.payloadLeft
    payloadLeft := 0 } }

def enterChunkRecvErrorMessage (inp : Input) : Handle → Outcome :=
  recvThen inp recvErrorMessageDone

def recvErrorTailDone (inp : Input) (h : Handle) : Outcome :=
  match h.replyRef with
  | .dangling => .abort .danglingReplyCmd
  | .null => .abort .tailCmd
  | .live cmd =>
    let error := orErr (errnoOfNbdError h.chunkErrorError) eproto
    let offset := h.chunkErrorOffset
    let (es, ret, scratch) :=
      if h.replyType = replyTypeErrorOffset ∧ h.rx.rbuf ≠ .null ∧
          structuredReplyInBounds offset 0 cmd = true ∧ cmd.type = .read then
        callCallback inp cmd.fn (.chunk cmd.cookie [] offset .error error) error
      else ([], 0, error)
    goto .chunkFinish ((h.log es).setCmd
      { cmd with error := orErr (if ret = -1 then orErr cmd.error scratch else cmd.error) error })

def enterChunkRecvErrorTail (inp : Input) : Handle → Outcome :=
  recvThen inp (recvErrorTailDone inp)

/-! ## Data and holes -/

/-- `if (cmd->data_seen <= cmd->count) cmd->data_seen += n`. -/
def Command.see (cmd : Command) (n : UInt32) : Command :=
  if cmd.dataSeen.toUInt64 ≤ cmd.count then { cmd with dataSeen := cmd.dataSeen + n } else cmd

/-- The chunk callback of data and holes, which keeps an earlier error. -/
def callChunk (inp : Input) (h : Handle) (cmd : Command) (e : Event) : Handle :=
  let (es, ret, err) := callCallback inp cmd.fn e cmd.error
  (h.log es).setCmd (if ret = -1 then { cmd with error := callbackError cmd.error err } else cmd)

/-- First eight bytes of a data or hole payload. -/
def Handle.chunkOffset (h : Handle) : UInt64 := h.rx.payload.be64 0

def recvOffsetDataDone (h : Handle) : Outcome :=
  match h.replyRef with
  | .dangling => .abort .danglingReplyCmd
  | .null => .abort .dataCmd
  | .live cmd =>
    require (cmd.buf != 0 && cmd.type == .read) .dataCmd <|
    let length := UInt32.ofNat h.rx.payloadLeft
    if structuredReplyInBounds h.chunkOffset length cmd then
      let h := h.setCmd (cmd.see length)
      goto .chunkRecvOffsetDataData { h with rx := { h.rx with
        rbuf := .user (cmd.buf + (h.chunkOffset - cmd.offset).toNat)
        rlen := h.rx.payloadLeft } }
    else goto .dead (h.setError 0 "range of structured reply is out of bounds")

def enterChunkRecvOffsetData (inp : Input) : Handle → Outcome := recvThen inp recvOffsetDataDone

def recvOffsetDataDataDone (inp : Input) (h : Handle) : Outcome :=
  match h.replyRef with
  | .dangling => .abort .danglingReplyCmd
  | .null => .abort .dataCmd
  | .live cmd =>
    let addr := cmd.buf + (h.chunkOffset - cmd.offset).toNat
    let h := callChunk inp h cmd
      (.chunk cmd.cookie (h.mem.read addr h.rx.payloadLeft) h.chunkOffset .data cmd.error)
    goto .chunkFinish { h with rx := { h.rx with payloadLeft := 0 } }

def enterChunkRecvOffsetDataData (inp : Input) : Handle → Outcome :=
  recvThen inp (recvOffsetDataDataDone inp)

/-- `if (!cmd->initialized) memset (addr, 0, n)`. -/
def Handle.zeroHole (h : Handle) (cmd : Command) (addr n : Nat) : Handle :=
  { h with
    mem := if cmd.initialized then h.mem else h.mem.fill addr n 0
    stores := h.stores ++ if cmd.initialized then [] else [⟨h.rx.replyCmd, addr, n⟩] }

def recvOffsetHoleDone (inp : Input) (h : Handle) : Outcome :=
  match h.replyRef with
  | .dangling => .abort .danglingReplyCmd
  | .null => .abort .holeCmd
  | .live cmd =>
    require (cmd.buf != 0 && cmd.type == .read) .holeCmd <|
    let length := h.rx.payload.be32 8
    if structuredReplyInBounds h.chunkOffset length cmd then
      let addr := cmd.buf + (h.chunkOffset - cmd.offset).toNat
      let cmd := cmd.see length
      let h := h.zeroHole cmd addr length.toNat
      goto .chunkFinish (callChunk inp h cmd
        (.chunk cmd.cookie (h.mem.read addr length.toNat) h.chunkOffset .hole cmd.error))
    else goto .dead (h.setError 0 "range of structured reply is out of bounds")

def enterChunkRecvOffsetHole (inp : Input) : Handle → Outcome :=
  recvThen inp (recvOffsetHoleDone inp)

/-! ## Block status -/

def recvBsHeaderDone (inp : Input) (h : Handle) : Outcome :=
  match h.replyRef with
  | .dangling => .abort .danglingReplyCmd
  | .null => .abort .bsCmd
  | .live cmd =>
    require (cmd.type == .blockStatus) .bsCmd <|
    require (bsReplyLengthOk h.replyType h.rx.payloadLeft) .bsLength <|
    require (h.replyType == replyTypeBlockStatus || h.replyType == replyTypeBlockStatusExt)
      .bsType <|
    let left := h.rx.payloadLeft - bsPrefixLen h.replyType
    let count := left / bsExtentLen h.replyType
    let h := { h with rx := { h.rx with payloadLeft := left, bsCount := count } }
    require (left % bsExtentLen h.replyType == 0) .bsDivides <|
    if h.replyType = replyTypeBlockStatusExt ∧ count ≠ (h.rx.payload.be32 4).toNat then resync h
    else if inp.alloc left && inp.alloc (count * (if cmd.wide then 16 else 8)) then
      goto .chunkRecvBsEntries { h with rx := { h.rx with
        bsRaw := some fun _ => 0
        rbuf := .raw 0
        rlen := left
        payloadLeft := 0 } }
    else
      goto .dead ({ h with rx := { h.rx with bsRaw := none } }.setError enomem "malloc")

def enterChunkRecvBsHeader (inp : Input) : Handle → Outcome :=
  recvThen inp (recvBsHeaderDone inp)

/-- The descriptors in `bs_raw`, as (length, flags). -/
def bsDescriptors (type : UInt16) (raw : Mem) (count : Nat) : List (UInt64 × UInt64) :=
  (List.range count).map fun i =>
    if type = replyTypeBlockStatus then ((raw.be32 (8 * i)).toUInt64, (raw.be32 (8 * i + 4)).toUInt64)
    else (raw.be64 (16 * i), raw.be64 (16 * i + 8))

/-- The parameters of the loop of `RECV_BS_ENTRIES`: whether the chunk is of the
64 bit type, whether the callback takes 64 bit extents, the bytes of the export
from the command's offset on. -/
structure CookParams where
  ext : Bool
  wide : Bool
  cap : UInt64

namespace CookParams

variable (p : CookParams)

def tooHuge (len : UInt64) : Bool := p.ext && decide (len > int64Max)
def tooLong (len : UInt64) : Bool := p.ext && !p.wide && decide (len > uint32Max)
def badFlags (flags : UInt64) : Bool := p.ext && !p.wide && decide (flags > uint32Max)

def clipHuge (len : UInt64) : UInt64 :=
  if p.tooHuge len then int64Max + 1 - UInt64.ofNat maxRequestSize else len

/-- Lengths that do not fit the callback are cut to an aligned value. -/
def clipLength (len : UInt64) : UInt64 :=
  if p.tooLong (p.clipHuge len) then 0x100000000 - UInt64.ofNat maxRequestSize else p.clipHuge len

def clipFlags (flags : UInt64) : UInt64 :=
  if p.badFlags flags then flags.toUInt32.toUInt64 else flags

/-- The length left when the extent is cut at the end of the export. -/
def clipCap (total len : UInt64) : UInt64 := if len > p.cap - total then p.cap - total else len

end CookParams

/-- How one iteration ends: an assertion fails, `break`, or an entry was
written, with the error of the command and whether `stop` is set. -/
inductive Cooked where
  | fail
  | stop (error : UInt32)
  | entry (len flags : UInt64) (error : UInt32) (last : Bool)

/-- The end of an iteration, from the test for a zero length on. -/
def cookFinish (p : CookParams) (i : Nat) (stop : Bool) (error : UInt32) (len flags : UInt64) :
    Cooked :=
  if len = 0 ∧ i > 0 then .stop error
  else if !p.wide && decide ((len ||| flags) > uint32Max) then .fail
  else .entry len flags (if len = 0 then orErr error eproto else error) (stop || len == 0)

/-- The middle of an iteration: cut the extent at the end of the export. -/
def cookClip (p : CookParams) (i : Nat) (total : UInt64) (stop : Bool) (error : UInt32)
    (len flags : UInt64) : Cooked :=
  if p.cap < total then .fail
  else
    cookFinish p i (stop || decide (len > p.cap - total))
      (if len > p.cap - total then orErr error eproto else error) (p.clipCap total len) flags

/-- One iteration of the loop. -/
def cookEntry (p : CookParams) (i : Nat) (total : UInt64) (error : UInt32)
    (origLen origFlags : UInt64) : Cooked :=
  if p.badFlags origFlags ∧ i > 0 then .stop error
  else
    cookClip p i total
      (p.tooHuge origLen || p.tooLong (p.clipHuge origLen) || p.badFlags origFlags)
      (if p.badFlags origFlags then orErr error eoverflow else error)
      (p.clipLength origLen) (p.clipFlags origFlags)

/-- The loop from the `i`th descriptor on. Result: the cooked entries and the
error of the command afterwards; `none` when an assertion fails. -/
def cookEntries (p : CookParams) :
    Nat → UInt64 → UInt32 → List (UInt64 × UInt64) → Option (List (UInt64 × UInt64) × UInt32)
  | _, _, error, [] => some ([], error)
  | i, total, error, (origLen, origFlags) :: rest =>
    match cookEntry p i total error origLen origFlags with
    | .fail => none
    | .stop error => some ([], error)
    | .entry len flags error true => some ([(len, flags)], error)
    | .entry len flags error false =>
      (cookEntries p (i + 1) (total + len) error rest).map fun r => ((len, flags) :: r.1, r.2)

/-- Bytes of the export from the command's offset on. -/
def bsCap (h : Handle) (cmd : Command) : UInt64 :=
  if cmd.offset ≤ h.exp.exportsize then h.exp.exportsize - cmd.offset else 0

def cookParams (h : Handle) (cmd : Command) : CookParams where
  ext := h.replyType != replyTypeBlockStatus
  wide := cmd.wide
  cap := bsCap h cmd

def recvBsEntriesDone (inp : Input) (h : Handle) : Outcome :=
  match h.replyRef with
  | .dangling => .abort .danglingReplyCmd
  | .null => .abort .bsCmd
  | .live cmd =>
    require (cmd.type == .blockStatus) .bsCmd <|
    require (!cmd.fn.isNull) .bsExtent <|
    match h.rx.bsRaw with
    | none => .abort .bsStorage
    | some raw =>
      require (h.rx.bsCount != 0) .bsStorage <|
      require h.exp.metaValid .bsMetaValid <|
      match h.exp.metaContexts.find? fun m => m.2 == h.rx.payload.be32 0 with
      | none => goto .chunkFinish h
      | some (name, _) =>
        match cookEntries (cookParams h cmd) 0 0 cmd.error
            (bsDescriptors h.replyType raw h.rx.bsCount) with
        | none => .abort .bsCook
        | some (entries, error) =>
          let (es, ret, err) := callCallback inp cmd.fn
            (.extent cmd.cookie name cmd.offset cmd.wide entries error) error
          goto .chunkFinish ((h.log es).setCmd
            { cmd with error := if ret = -1 then callbackError error err else error })

def enterChunkRecvBsEntries (inp : Input) : Handle → Outcome :=
  recvThen inp (recvBsEntriesDone inp)

/-! ## End of a chunk -/

def resyncDone (h : Handle) : Outcome :=
  match h.replyRef with
  | .dangling => .abort .danglingReplyCmd
  | .null => goto .replyFinishCommand h
  | .live cmd =>
    goto .chunkFinish (h.setCmd { cmd with error := orErr cmd.error eproto })

def enterChunkResync (inp : Input) (h : Handle) : Outcome :=
  require (h.rx.rbuf == .null) .resyncRbuf <| recvThen inp resyncDone h

def enterChunkFinish (h : Handle) : Outcome :=
  require (h.rx.payloadLeft == 0) .chunkPayloadLeft <|
  if h.replyFlags &&& replyFlagDone ≠ 0 then goto .replyFinishCommand h
  else goto .ready { h with rx := { h.rx with replyCmd := none } }

end Libnbd
