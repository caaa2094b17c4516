import Libnbd.Negotiation.Handle

/-!
Export size, flags and block sizes (`lib/flags.c`), the getters that report what
was negotiated (`lib/flags.c`, `lib/handle.c`), and the common code for option
replies (`generator/states-newstyle.c`).
-/

namespace Libnbd.Negotiation

open Lib

/-! ## Setting -/

namespace Handle

/-- `nbd_internal_reset_size_and_flags`. -/
@[simps] def resetSizeAndFlags (h : Handle) : Handle :=
  { h with exp := { h.exp with
      exportsize := 0
      eflags := 0
      blockMinimum := 0
      blockPreferred := 0
      blockMaximum := 0
      payloadMaximum := 0
      canonicalName := none
      description := none } }

/-- The export flags after the claims the client cannot use were dropped. -/
def usableFlags (h : Handle) (eflags : UInt16) : UInt16 :=
  let eflags :=
    if eflags &&& flagSendDf != 0 && !h.exp.structuredReplies then eflags &&& ~~~flagSendDf
    else eflags
  let eflags :=
    if eflags &&& flagBlockStatusPayload != 0 && !h.exp.extendedHeaders then
      eflags &&& ~~~flagBlockStatusPayload
    else eflags
  if eflags &&& flagSendFastZero != 0 && eflags &&& flagSendWriteZeroes == 0 then
    eflags &&& ~~~flagSendFastZero
  else eflags

/-- No metadata context can have been requested for this export. -/
def nothingRequested (h : Handle) : Bool :=
  h.cfg.requestMeta && (!h.exp.structuredReplies || h.cfg.requestMetaContexts.isEmpty)

/-- The improper block sizes that are ignored. -/
def badBlockSize (min pref max : UInt32) : Bool :=
  min == 0 || decide (min > 64 * 1024) || decide (min > pref) || decide (pref < 512) ||
    decide (pref > max) || min &&& (min - 1) != 0 || pref &&& (pref - 1) != 0 ||
    (max != 0xffffffff && max % min != 0)

/-- `nbd_internal_set_block_size`. -/
def setBlockSize (h : Handle) (min pref max : UInt32) : Handle :=
  if badBlockSize min pref max then h
  else { h with exp := { h.exp with
      blockMinimum := min, blockPreferred := pref, blockMaximum := max } }

/-- `nbd_internal_set_payload`. -/
@[simps] def setPayload (h : Handle) : Handle :=
  { h with exp := { h.exp with
      payloadMaximum :=
        if h.exp.blockMaximum ≠ 0 then
          min (UInt32.ofNat maxRequestSize) (max (1024 * 1024) h.exp.blockMaximum)
        else 32 * 1024 * 1024 } }

end Handle

/-- `nbd_internal_set_size_and_flags`, followed by `k` on success; every caller
moves to `DEAD` on failure. -/
def setSizeAndFlags (h : Handle) (exportsize : UInt64) (eflags : UInt16) (k : Handle → Outcome) :
    Outcome :=
  if eflags = 0 then die einval "handshake: invalid eflags == 0 from server" h
  else
    let set (metaValid : Bool) : Handle := { h with exp := { h.exp with
      exportsize := exportsize, eflags := h.usableFlags eflags, metaValid := metaValid } }
    if h.nothingRequested then
      require h.exp.metaContexts.isEmpty .setSizeContexts (k (set true))
    else k (set h.exp.metaValid)

/-! ## Getters -/

namespace Handle

/-- `get_flag`. -/
def getFlag (h : Handle) (flag : UInt16) : Int :=
  if h.exp.eflags = 0 then -1 else if h.exp.eflags &&& flag != 0 then 1 else 0

def isReadOnly (h : Handle) : Int := h.getFlag flagReadOnly
def canFlush (h : Handle) : Int := h.getFlag flagSendFlush
def canFua (h : Handle) : Int := h.getFlag flagSendFua
def isRotational (h : Handle) : Int := h.getFlag flagRotational
def canTrim (h : Handle) : Int := h.getFlag flagSendTrim
def canZero (h : Handle) : Int := h.getFlag flagSendWriteZeroes
def canFastZero (h : Handle) : Int := h.getFlag flagSendFastZero
def canDf (h : Handle) : Int := h.getFlag flagSendDf
def canMultiConn (h : Handle) : Int := h.getFlag flagCanMultiConn
def canCache (h : Handle) : Int := h.getFlag flagSendCache
def canBlockStatusPayload (h : Handle) : Int := h.getFlag flagBlockStatusPayload

/-- `nbd_unlocked_can_meta_context`. -/
def canMetaContext (h : Handle) (name : CString) : Int :=
  if !h.cfg.requestMetaContexts.isEmpty && !h.exp.metaValid then -1
  else if name ∈ h.exp.metaContexts.map Prod.fst then 1 else 0

/-- `nbd_unlocked_get_size`. -/
def getSize (h : Handle) : Int :=
  if h.exp.eflags = 0 then -1
  else if h.exp.exportsize > int64Max then -1 else h.exp.exportsize.toNat

inductive SizeType where
  | minimum | preferred | maximum | payload
  deriving DecidableEq, Repr

/-- `nbd_unlocked_get_block_size`. -/
def getBlockSize (h : Handle) (type : SizeType) : Int :=
  if h.exp.eflags = 0 then -1
  else
    match type with
    | .minimum => h.exp.blockMinimum.toNat
    | .preferred => h.exp.blockPreferred.toNat
    | .maximum => h.exp.blockMaximum.toNat
    | .payload => h.exp.payloadMaximum.toNat

/-- `nbd_unlocked_get_canonical_export_name` and
`nbd_unlocked_get_export_description`, when `strdup` succeeds. -/
def getCanonicalExportName (h : Handle) : Option CString :=
  if h.exp.eflags = 0 then none else h.exp.canonicalName

def getExportDescription (h : Handle) : Option CString :=
  if h.exp.eflags = 0 then none else h.exp.description

end Handle

/-! ## Common code for parsing a reply to an option -/

/-- `prepare_for_reply_payload`. -/
def prepareForReplyPayload (h : Handle) (opt : Opt) : Except String Handle :=
  let len := h.replylen.toNat
  if h.replyMagic ≠ nbdRepMagic ∨ h.replyOption ≠ opt.code then
    .error "handshake: invalid option reply magic or option"
  else if h.reply = repAck ∧ len ≠ 0 then
    .error "handshake: invalid NBD_REP_ACK option reply length"
  else if h.reply = repInfo ∧ len < 2 then
    .error "handshake: NBD_REP_INFO reply length too small"
  else if h.reply = repMetaContext ∧ (len ≤ 4 ∨ len > contextSize) then
    .error "handshake: invalid NBD_REP_META_CONTEXT reply length"
  else if len > maxRequestSize then .error "handshake: invalid option reply length"
  else .ok { h with
    rbuf := if len ≤ payloadSize then some optionReplySize else none
    rlen := len }

/-- Lower case hexadecimal digits. -/
def hexDigits (n : Nat) : String := String.ofList (Nat.toDigits 16 n)

/-- One byte of a message from the server, quoted unless it is printable. -/
def quoteByte (b : UInt8) : String :=
  if 0x20 ≤ b ∧ b ≤ 0x7e then String.singleton (Char.ofNat b.toNat)
  else "\\x" ++ (if b < 16 then "0" else "") ++ hexDigits b.toNat

def showCString (s : CString) : String := String.ofList (s.map fun b => Char.ofNat b.toNat)

namespace Handle

/-- The errno and the text that `handle_reply_error` finds for a reply. -/
def replyError (h : Handle) : UInt32 × String :=
  if h.reply = repErrUnsup then (enotsup, "the operation is not supported by the server")
  else if h.reply = repErrPolicy then (0, "server policy prevents the operation")
  else if h.reply = repErrPlatform then
    (0, "the operation is not supported by the server platform")
  else if h.reply = repErrInvalid then (einval, "the server rejected this operation as invalid")
  else if h.reply = repErrTooBig then (einval, "the operation is too large to process")
  else if h.reply = repErrTlsReqd then (enotsup, "the server requires TLS encryption first")
  else if h.reply = repErrUnknown then
    (enoent, "the server has no export named '" ++ showCString h.cfg.exportName ++ "'")
  else if h.reply = repErrShutdown then (eshutdown, "the server is shutting down")
  else if h.reply = repErrBlockSizeReqd then (einval, "the server requires specific block sizes")
  else (0, "handshake: unknown reply from the server: 0x" ++ hexDigits h.reply.toNat)

end Handle

/-- `handle_reply_error`, followed by `k` on success; every caller moves to
`DEAD` on failure. -/
def handleReplyError (inp : Input) (h : Handle) (k : Handle → Outcome) : Outcome :=
  if !repIsErr h.reply then die 0 "handshake: unexpected option reply type" h
  else if h.replylen.toNat > nbdMaxString then
    die 0 "handshake: option error string too long" h
  else if !inp.alloc 0 then die enomem "open_memstream" h
  else
    let (err, text) := h.replyError
    if h.replylen = 0 then k (h.setError err text)
    else fetch h 0 h.replylen.toNat fun msg =>
      k (h.setError err (text ++ ": " ++ String.join (msg.map quoteByte)))

end Libnbd.Negotiation
