import Libnbd.Handle
import Mathlib.Tactic.Simps.Basic

/-!
The part of `struct nbd_handle` that connecting and option negotiation read and
write (`lib/internal.h`), and the states of the groups `CONNECT*`, `MAGIC`,
`OLDSTYLE` and `NEWSTYLE`.

`sbuf` is the static buffer shared by everything sent and received before the
transmission phase; an option reply header occupies its first 20 bytes and the
payload follows. `wbuf` stands for the pair `h->wbuf`, `h->wlen`: the bytes that
remain to be sent. `sent` is the stream of bytes handed to the socket layer and
`trace` what the application and the server could observe, in order.
-/

namespace Libnbd.Negotiation

open Lib

/-! ## Protocol numbers -/

def nbdMagic : UInt64 := 0x4e42444d41474943
def nbdOldVersion : UInt64 := 0x0000420281861253
def nbdNewVersion : UInt64 := 0x49484156454F5054
def nbdRepMagic : UInt64 := 0x3e889045565a9

def flagFixedNewstyle : UInt16 := 1
def flagNoZeroes : UInt16 := 2
def handshakeFlagMask : UInt32 := 3

def flagRotational : UInt16 := 0x0010
def flagCanMultiConn : UInt16 := 0x0100

/-- `NBD_OPT_*`. -/
inductive Opt where
  | exportName | abort | list | starttls | info | go | structuredReply
  | listMetaContext | setMetaContext | extendedHeaders
  deriving DecidableEq, Repr

def Opt.code : Opt → UInt32
  | exportName => 1
  | abort => 2
  | list => 3
  | starttls => 5
  | info => 6
  | go => 7
  | structuredReply => 8
  | listMetaContext => 9
  | setMetaContext => 10
  | extendedHeaders => 11

def repAck : UInt32 := 1
def repServer : UInt32 := 2
def repInfo : UInt32 := 3
def repMetaContext : UInt32 := 4
def repErrUnsup : UInt32 := 0x80000001
def repErrPolicy : UInt32 := 0x80000002
def repErrInvalid : UInt32 := 0x80000003
def repErrPlatform : UInt32 := 0x80000004
def repErrTlsReqd : UInt32 := 0x80000005
def repErrUnknown : UInt32 := 0x80000006
def repErrShutdown : UInt32 := 0x80000007
def repErrBlockSizeReqd : UInt32 := 0x80000008
def repErrTooBig : UInt32 := 0x80000009
def repErrExtHeaderReqd : UInt32 := 0x8000000a

/-- `NBD_REP_IS_ERR`. -/
def repIsErr (reply : UInt32) : Bool := reply &&& 0x80000000 != 0

def infoExport : UInt16 := 0
def infoName : UInt16 := 1
def infoDescription : UInt16 := 2
def infoBlockSize : UInt16 := 3

/-- `sizeof h->sbuf.or.option_reply`. -/
def optionReplySize : Nat := 20

/-- `sizeof h->sbuf.or.payload`, which is that of its member `server`. -/
def payloadSize : Nat := 4 + (2 * nbdMaxString + 1)

/-- `sizeof h->sbuf.or.payload.context`. -/
def contextSize : Nat := 4 + nbdMaxString

def enoent : UInt32 := 2
def enametoolong : UInt32 := 36

/-! ## States -/

/-- The option sub-machines that share the shape `START`, `SEND`, `RECV_REPLY`,
`RECV_REPLY_PAYLOAD`, `CHECK_REPLY`. -/
inductive OptGroup where
  | starttls | extendedHeaders | structuredReply | list | metaContext | go
  deriving DecidableEq, Repr

inductive State where
  | start | negotiating | ready | dead | closed
  | connectStart | connectConnecting
  | connectTcpStart | connectTcpConnect | connectTcpConnecting | connectTcpNextAddress
  | connectCommandStart | connectSaStart
  | magicStart | magicRecvMagic | magicCheckMagic
  | oldstyleStart | oldstyleRecvRemaining | oldstyleCheck
  | newstyleStart | newstyleRecvGflags | newstyleCheckGflags | newstyleSendCflags
  | newstylePrepareOptAbort | newstyleSendOptAbort | newstyleSendOptionShutdown
  | newstyleFinished
  | optStart (g : OptGroup) | optSend (g : OptGroup) | optRecvReply (g : OptGroup)
  | optRecvReplyPayload (g : OptGroup) | optCheckReply (g : OptGroup)
  | tlsHandshakeRead | tlsHandshakeWrite | tlsHandshakeDone
  | metaSendExportnamelen | metaSendExportname | metaSendNrqueries | metaPrepareNextQuery
  | metaSendQuerylen | metaSendQuery | metaPrepareForReply
  | goSendExportnamelen | goSendExport | goSendNrinfos | goSendInfo
  | exportNameStart | exportNameSend | exportNameSendExport | exportNameRecvReply
  | exportNameCheckReply
  deriving DecidableEq, Repr

/-- `nbd_internal_is_state_connecting`: the listed groups do not contain
`CONNECT_SA`. -/
def State.isConnecting : State → Bool
  | start | negotiating | ready | dead | closed | connectSaStart => false
  | _ => true

/-! ## The handle -/

inductive Tls where
  | disable | allow | require
  deriving DecidableEq, Repr

/-- What the application sets on a handle. -/
structure Settings where
  tls : Tls
  optMode : Bool
  requestEh : Bool
  requestSr : Bool
  requestMeta : Bool
  requestBlockSize : Bool
  fullInfo : Bool
  exportName : CString
  requestMetaContexts : List CString
  deriving DecidableEq, Repr

inductive Variant where
  | oldstyle | newstyle | newstyleFixed
  deriving DecidableEq, Repr

/-- What has been negotiated so far. -/
structure Negotiated where
  tlsNegotiated : Bool
  protocol : Option Variant
  structuredReplies : Bool
  extendedHeaders : Bool
  exportsize : UInt64
  eflags : UInt16
  blockMinimum : UInt32
  blockPreferred : UInt32
  blockMaximum : UInt32
  payloadMaximum : UInt32
  canonicalName : Option CString
  description : Option CString
  metaValid : Bool
  metaContexts : List (CString × UInt32)
  deriving DecidableEq, Repr

/-- `h->opt_cb`: the list or context callback and the completion callback of the
option call number `id`. -/
structure OptCb where
  id : Nat
  fn : Closure
  completion : Closure
  deriving DecidableEq, Repr

/-- What happens on a handle, in order: option calls and their callbacks, and
the steps of the negotiation that a metadata context list depends on. -/
inductive Event where
  | accept (id : Nat) (opt : Opt) (fn completion : Closure)
  | list (id : Nat) (name description : CString)
  | context (id : Nat) (name : CString)
  | completion (id : Nat) (error : UInt32)
  | freeFn (id : Nat)
  | freeCompletion (id : Nat)
  | metaRequest (exportName : CString)
  | metaContext (name : CString) (id : UInt32)
  | metaAck
  | metaRefused
  | metaSkipped (exportName : CString)
  | tlsAck
  | rename (exportName : CString)
  | goFailed
  deriving DecidableEq, Repr

structure Handle where
  state : State
  cfg : Settings
  gflags : UInt16
  exp : Negotiated
  optCurrent : Option Opt
  optCb : OptCb
  nextId : Nat
  querylist : List CString
  querynum : Nat
  sbuf : Mem
  rbuf : Option Nat
  rlen : Nat
  wbuf : List UInt8
  wflags : Bool
  sock : Bool
  addrs : Nat
  connectErrno : UInt32
  bytesSent : Nat
  chunksSent : Nat
  bytesReceived : Nat
  chunksReceived : Nat
  lastError : Option (UInt32 × String)
  sent : List UInt8
  trace : List Event

namespace Handle

/-- `nbd_create`. -/
def create (sbuf : Mem) : Handle where
  state := .start
  cfg :=
    { tls := .disable, optMode := false, requestEh := true, requestSr := true,
      requestMeta := true, requestBlockSize := true, fullInfo := false, exportName := [],
      requestMetaContexts := [] }
  gflags := 3
  exp :=
    { tlsNegotiated := false, protocol := none, structuredReplies := false,
      extendedHeaders := false, exportsize := 0, eflags := 0, blockMinimum := 0,
      blockPreferred := 0, blockMaximum := 0, payloadMaximum := 0, canonicalName := none,
      description := none, metaValid := false, metaContexts := [] }
  optCurrent := none
  optCb := { id := 0, fn := .null, completion := .null }
  nextId := 1
  querylist := []
  querynum := 0
  sbuf := sbuf
  rbuf := none
  rlen := 0
  wbuf := []
  wflags := false
  sock := false
  addrs := 0
  connectErrno := 0
  bytesSent := 0
  chunksSent := 0
  bytesReceived := 0
  chunksReceived := 0
  lastError := none
  sent := []
  trace := []

/-- `set_error`. -/
@[simps] def setError (h : Handle) (errnum : UInt32) (text : String) : Handle :=
  { h with lastError := some (errnum, text) }

/-- Append to the trace. -/
@[simps] def log (h : Handle) (es : List Event) : Handle := { h with trace := h.trace ++ es }

/-- `nbd_get_errno`. -/
def getErrno (h : Handle) : UInt32 := (h.lastError.map Prod.fst).getD 0

/-- `h->gflags & LIBNBD_HANDSHAKE_FLAG_FIXED_NEWSTYLE`. -/
def isFixed (h : Handle) : Bool := h.gflags &&& flagFixedNewstyle != 0

/-- The fields of the option reply header in `sbuf.or.option_reply`. -/
def replyMagic (h : Handle) : UInt64 := h.sbuf.be64 0
def replyOption (h : Handle) : UInt32 := h.sbuf.be32 8
def reply (h : Handle) : UInt32 := h.sbuf.be32 12
def replylen (h : Handle) : UInt32 := h.sbuf.be32 16

/-- How many bytes of the option reply payload have arrived in `sbuf`. -/
def payloadSeen (h : Handle) : Nat := (h.rbuf.getD optionReplySize) - optionReplySize

/-- `nbd_internal_free_option`: which of the callbacks it frees depends on
`h->opt_current`. -/
def freesFn (h : Handle) : Bool :=
  h.optCurrent == some .list || h.optCurrent == some .listMetaContext ||
    h.optCurrent == some .setMetaContext

@[simps] def freeOption (h : Handle) : Handle :=
  { h with
    optCb := { h.optCb with
      fn := if h.freesFn then .null else h.optCb.fn
      completion := .null }
    trace := h.trace ++
      (if h.freesFn && h.optCb.fn.free then [Event.freeFn h.optCb.id] else []) ++
      (if h.optCb.completion.free then [Event.freeCompletion h.optCb.id] else []) }

/-- `CALL_CALLBACK (h->opt_cb.completion, &err); nbd_internal_free_option (h)`. -/
def completeOption (h : Handle) (err : UInt32) : Handle :=
  (h.log (if h.optCb.completion.callback then [.completion h.optCb.id err] else [])).freeOption

end Handle

/-! ## Environment and outcome of one state -/

inductive HandshakeResult where
  | done | again | error
  deriving DecidableEq, Repr

/-- Result of `getsockopt (SO_ERROR)`. -/
inductive SoError where
  | failed (errnum : UInt32)
  | status (errnum : UInt32)
  deriving DecidableEq, Repr

/-- Everything outside the library that one step may consult: the socket
operations, the last error of the calling thread, the allocator, GnuTLS and the
system calls used to connect. -/
structure Input where
  recv : RecvResult
  send : SendResult
  shutWrites : Bool
  pending : Bool
  lastError : Option (UInt32 × String)
  alloc : Nat → Bool
  createSession : Bool
  handshake : HandshakeResult
  isReading : Bool
  socket : Bool
  socketCreate : Bool
  connect : UInt32
  soError : SoError
  addresses : Option Nat
  spawn : Bool

/-- Failing assertions and `abort ()`, and (the last three) accesses outside the
received payload or its buffer and lengths that wrap below zero. -/
inductive Abort where
  | connectSock | checkMagicOpt | newstyleOpt | newstyleCurrent | optAbortFixed
  | optFixed (g : OptGroup) | optMode (g : OptGroup) | optCompletion (g : OptGroup)
  | optFn (g : OptGroup) | listCurrent | contextLen | goMode | infoRbuf | infoUnsup
  | setSizeContexts | infoLen | deadError | readySock | queueFn
  | payloadOverread | payloadOverwrite | lengthUnderflow
  deriving DecidableEq, Repr

/-- How a state's code ends: `SET_NEXT_STATE` was used, or not (the machine
blocks), or -1 was returned, or the process died. -/
inductive Outcome where
  | next (h : Handle)
  | block (h : Handle)
  | fail (h : Handle)
  | abort (a : Abort)

/-- `assert`. -/
def require (p : Bool) (a : Abort) (k : Outcome) : Outcome := if p then k else .abort a

/-- `SET_NEXT_STATE (s); return 0`. -/
def goto (s : State) (h : Handle) : Outcome := .next { h with state := s }

/-- `set_error (errnum, text); SET_NEXT_STATE (%.DEAD); return 0`. -/
def die (errnum : UInt32) (text : String) (h : Handle) : Outcome :=
  goto .dead (h.setError errnum text)

/-! ## `recv_into_rbuf` and `send_from_wbuf` -/

namespace Handle

/-- Store received bytes where `h->rbuf` points, and advance. -/
@[simps] def store (h : Handle) (bs : List UInt8) : Handle :=
  { h with
    bytesReceived := h.bytesReceived + bs.length
    rlen := h.rlen - bs.length
    rbuf := h.rbuf.map (· + bs.length)
    sbuf := match h.rbuf with
      | some p => h.sbuf.write p bs
      | none => h.sbuf }

/-- How many bytes one `recv` asks for: discarded payload goes through a sink. -/
def recvWant (h : Handle) : Nat := if h.rbuf = none then min h.rlen bufsiz else h.rlen

/-- Hand `n` bytes of `h->wbuf` to the socket. -/
@[simps] def advance (h : Handle) (n : Nat) : Handle :=
  { h with
    bytesSent := h.bytesSent + n
    sent := h.sent ++ h.wbuf.take n
    wbuf := h.wbuf.drop n }

/-- `h->rbuf = &h->sbuf + pos; h->rlen = n`. -/
@[simps] def expect (h : Handle) (pos n : Nat) : Handle := { h with rbuf := some pos, rlen := n }

/-- Build `bs` at the start of `h->sbuf` and point `h->wbuf` at it. -/
@[simps] def emit (h : Handle) (bs : List UInt8) : Handle :=
  { h with sbuf := h.sbuf.write 0 bs, wbuf := bs }

end Handle

/-- The states that receive: fail, block, or go on with `done` once `h->rlen`
bytes have arrived. -/
def recvThen (inp : Input) (done : Handle → Outcome) (h : Handle) : Outcome :=
  if h.rlen = 0 then done h
  else
    match inp.recv with
    | .again => .block h
    | .error => die eio "recv" h
    | .data bs =>
      let got := bs.take h.recvWant
      if got = [] then die 0 "recv: server disconnected unexpectedly" h
      else if (h.store got).rlen = 0 then done (h.store got)
      else .block (h.store got)

/-- The states that send: fail, block, or go on with `done` once `h->wbuf` is
empty. -/
def sendThen (inp : Input) (done : Handle → Outcome) (h : Handle) : Outcome :=
  if h.wbuf = [] then done { h with wflags := false }
  else
    match inp.send with
    | .again => .block h
    | .error => die eio "send" h
    | .sent n =>
      let h := h.advance n
      if h.wbuf = [] then done { h with wflags := false } else .block h

/-- `n` bytes at `pos` of the option reply payload. -/
def fetch (h : Handle) (pos n : Nat) (k : List UInt8 → Outcome) : Outcome :=
  if pos + n ≤ h.payloadSeen then k (h.sbuf.read (optionReplySize + pos) n)
  else .abort .payloadOverread

/-- Store one byte at `pos` of the option reply payload. -/
def poke (h : Handle) (pos : Nat) (b : UInt8) (k : Handle → Outcome) : Outcome :=
  if pos < payloadSize then k { h with sbuf := h.sbuf.write (optionReplySize + pos) [b] }
  else .abort .payloadOverwrite

/-- A difference of lengths. -/
def minus (a b : Nat) (k : Nat → Outcome) : Outcome :=
  if b ≤ a then k (a - b) else .abort .lengthUnderflow

/-- `strndup`: the bytes up to the first NUL. -/
def strndup (bs : List UInt8) : CString := bs.takeWhile (· ≠ 0)

/-- `struct nbd_new_option`. -/
def optionHeader (opt : Opt) (optlen : Nat) : List UInt8 :=
  toBE 8 nbdNewVersion.toNat ++ toBE 4 opt.code.toNat ++ toBE 4 optlen

end Libnbd.Negotiation
