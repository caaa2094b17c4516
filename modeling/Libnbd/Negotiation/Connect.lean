import Libnbd.Negotiation.Flags

/-!
Connecting (`generator/states-connect.c`,
`generator/states-connect-socket-activation.c`), the magic number
(`generator/states-magic.c`), the oldstyle handshake
(`generator/states-oldstyle.c`) and the part of the fixed newstyle handshake that
is not about one option (`generator/states-newstyle.c`).
-/

namespace Libnbd.Negotiation

open Lib

/-! ## Connecting -/

def enterConnectStart (inp : Input) (h : Handle) : Outcome :=
  require (!h.sock) .connectSock <|
  if !inp.socket then die eio "socket" h
  else if !inp.socketCreate then die enomem "malloc" h
  else if inp.connect = 0 then .block { h with sock := true }
  else die inp.connect "connect" { h with sock := true }

def enterConnectConnecting (inp : Input) (h : Handle) : Outcome :=
  match inp.soError with
  | .failed e => die e "getsockopt: SO_ERROR" h
  | .status e => if e = 0 then goto .magicStart h else die e "connect" h

/-- A name that does not resolve brings the handle back to `START`. -/
def enterConnectTcpStart (inp : Input) (h : Handle) : Outcome :=
  match inp.addresses with
  | none => .fail { h.setError 0 "getaddrinfo" with state := .start, connectErrno := 0 }
  | some n => goto .connectTcpConnect { h with addrs := n, connectErrno := 0 }

def enterConnectTcpConnect (inp : Input) (h : Handle) : Outcome :=
  require (!h.sock) .connectSock <|
  if h.addrs = 0 then
    .fail { h.setError h.connectErrno "connect: could not connect to remote host" with
      state := .start }
  else if !inp.socket then goto .connectTcpNextAddress h
  else if !inp.socketCreate then die enomem "malloc" h
  else if inp.connect = 0 then goto .connectTcpConnecting { h with sock := true }
  else goto .connectTcpNextAddress
    { h with sock := true, connectErrno := orErr h.connectErrno inp.connect }

def enterConnectTcpConnecting (inp : Input) (h : Handle) : Outcome :=
  match inp.soError with
  | .failed e => die e "getsockopt: SO_ERROR" h
  | .status e =>
    if e = 0 then goto .magicStart h
    else goto .connectTcpNextAddress { h with connectErrno := orErr h.connectErrno e }

def enterConnectTcpNextAddress (h : Handle) : Outcome :=
  goto .connectTcpConnect { h with sock := false, addrs := h.addrs - 1 }

def enterConnectCommandStart (inp : Input) (h : Handle) : Outcome :=
  require (!h.sock) .connectSock <|
  if inp.spawn then goto .magicStart { h with sock := true } else die eio "fork" h

def enterConnectSaStart (inp : Input) (h : Handle) : Outcome :=
  require (!h.sock) .connectSock <|
  if inp.spawn then goto .connectStart h else die eio "fork" h

/-! ## The magic number -/

def enterMagicStart (h : Handle) : Outcome := goto .magicRecvMagic (h.expect 0 16)

def enterMagicRecvMagic (inp : Input) (h : Handle) : Outcome :=
  recvThen inp (goto .magicCheckMagic) h

def enterMagicCheckMagic (h : Handle) : Outcome :=
  if h.sbuf.be64 0 ≠ nbdMagic then
    die 0 "handshake: server did not send expected NBD magic" h
  else if h.sbuf.be64 8 = nbdNewVersion then
    require (h.optCurrent == none) .checkMagicOpt <|
    goto .newstyleStart { h with chunksReceived := h.chunksReceived + 1 }
  else if h.sbuf.be64 8 = nbdOldVersion then
    goto .oldstyleStart { h with chunksReceived := h.chunksReceived + 1 }
  else die 0 "handshake: server is not either an oldstyle or fixed newstyle NBD server" h

/-! ## Oldstyle -/

/-- The first 16 bytes of the 152 were read as the magic number. No metadata
context can be asked for on such a connection. -/
def enterOldstyleStart (h : Handle) : Outcome :=
  goto .oldstyleRecvRemaining ((h.expect 16 136).log [.metaSkipped h.cfg.exportName])

def enterOldstyleRecvRemaining (inp : Input) (h : Handle) : Outcome :=
  recvThen inp (goto .oldstyleCheck) h

def enterOldstyleCheck (h : Handle) : Outcome :=
  if h.cfg.tls = .require then
    die enotsup "handshake: server is oldstyle, but handle TLS setting is 'require' (2)" h
  else
    let h := { h with gflags := h.sbuf.be16 24 }
    if h.gflags ≠ 0 then die 0 "handshake: oldstyle server should not set gflags" h
    else setSizeAndFlags h (h.sbuf.be64 16) (h.sbuf.be16 26) fun h =>
      let h := h.setPayload
      goto .ready { h with exp := { h.exp with protocol := some .oldstyle } }

/-! ## Newstyle -/

/-- `NEWSTYLE.START` when no option is pending: expect the global flags. -/
def newstyleGflags (h : Handle) : Outcome :=
  require (h.optCurrent == none) .newstyleCurrent <|
  goto .newstyleRecvGflags (h.expect 0 2)

def enterNewstyleStart (h : Handle) : Outcome :=
  if h.cfg.optMode then
    match h.optCurrent with
    | some .go | some .info =>
      if h.isFixed then goto (.optStart .metaContext) h else goto .exportNameStart h
    | some .list => goto (.optStart .list) h
    | some .abort =>
      if h.isFixed then goto .newstylePrepareOptAbort h
      else die enotsup "handshake: server is not using fixed newstyle" h
    | some .listMetaContext | some .setMetaContext => goto (.optStart .metaContext) h
    | some .structuredReply => goto (.optStart .structuredReply) h
    | some .extendedHeaders => goto (.optStart .extendedHeaders) h
    | some .starttls => goto (.optStart .starttls) h
    | some .exportName => .abort .newstyleOpt
    | none => newstyleGflags h
  else newstyleGflags h

def enterNewstyleRecvGflags (inp : Input) (h : Handle) : Outcome :=
  recvThen inp (goto .newstyleCheckGflags) h

def enterNewstyleCheckGflags (h : Handle) : Outcome :=
  let h := { h with gflags := h.gflags &&& h.sbuf.be16 0 }
  if !h.isFixed && h.cfg.tls == .require then
    die enotsup
      "handshake: server is not using fixed newstyle, but handle TLS setting is 'require' (2)" h
  else
    let h := { h with exp := { h.exp with
      protocol := some (if h.isFixed then .newstyleFixed else .newstyle) } }
    goto .newstyleSendCflags (h.emit (toBE 4 h.gflags.toNat))

def enterNewstyleSendCflags (inp : Input) (h : Handle) : Outcome :=
  sendThen inp (fun h =>
    if h.isFixed then goto (.optStart .starttls) h
    else if h.cfg.optMode then goto .negotiating h
    else goto .exportNameStart h) h

/-- Build an option header and count it. -/
@[simps] def Handle.request (h : Handle) (opt : Opt) (optlen : Nat) : Handle :=
  { h.emit (optionHeader opt optlen) with chunksSent := h.chunksSent + 1 }

def enterNewstylePrepareOptAbort (h : Handle) : Outcome :=
  require h.isFixed .optAbortFixed <|
  goto .newstyleSendOptAbort (h.request .abort 0)

def enterNewstyleSendOptAbort (inp : Input) (h : Handle) : Outcome :=
  sendThen inp (goto .newstyleSendOptionShutdown) h

def enterNewstyleSendOptionShutdown (inp : Input) (h : Handle) : Outcome :=
  if inp.shutWrites then goto (if h.cfg.optMode then .closed else .dead) h else .block h

def enterNewstyleFinished (h : Handle) : Outcome := goto .ready h

/-! ## Top-level states -/

/-- `abort_option`, and what follows it in `DEAD` and `CLOSED` when no command
was ever queued. -/
@[simps] def Handle.abortOption (h : Handle) : Handle :=
  { h.completeOption (orErr h.getErrno enotconn) with sock := false }

def enterDead (h : Handle) : Outcome :=
  require h.lastError.isSome .deadError <| .fail h.abortOption

def enterClosed (h : Handle) : Outcome := .block h.abortOption

/-- `READY` with an empty `cmds_to_issue` and nothing pending on the socket. -/
def enterReady (h : Handle) : Outcome := require h.sock .readySock <| .block h

end Libnbd.Negotiation
