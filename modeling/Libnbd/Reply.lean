import Libnbd.Socket

/-!
State machine for receiving replies from the server: the common part
(`generator/states-reply.c`) and simple replies
(`generator/states-reply-simple.c`).
-/

namespace Libnbd

open Lib

/-- `save_reply_state` followed by `SET_NEXT_STATE (%.READY)`. -/
def saveReplyState (h : Handle) : Outcome :=
  require (h.rx.rlen ≠ 0) .saveRlen <|
  require (h.rx.replyState == .start) .saveReplyState <|
  require (h.state != .start) .saveStart <|
  goto .ready { h with rx := { h.rx with replyState := h.state } }

/-- The states that receive a payload: fail, save the state and block, or go
on with `done` once `h->rlen` bytes have arrived. -/
def recvThen (inp : Input) (done : Handle → Outcome) (h : Handle) : Outcome :=
  match recvIntoRbuf inp h with
  | .fail h => goto .dead h
  | .more h => saveReplyState h
  | .done h => done h

namespace Handle

/-- Size of the header that `REPLY.START` asks for. -/
def replyHeaderSize (h : Handle) : Nat := if h.exp.extendedHeaders then 32 else 16

/-- Point `h->rbuf` at an empty reply header. -/
def prepareReply (h : Handle) : Handle :=
  { h with rx := { h.rx with rbuf := .hdr 0, rlen := h.replyHeaderSize } }

end Handle

def enterReplyStart (inp : Input) (h : Handle) : Outcome :=
  if h.rx.rlen > 0 then
    if h.rx.replyState ≠ .start then
      require h.rx.replyState.isProcessing .resumeProcessing <|
      goto h.rx.replyState { h with rx := { h.rx with replyState := .start } }
    else goto .replyRecvReply h
  else
    require (h.rx.replyCmd == none) .startReplyCmd <|
    match inp.recv with
    | .again => .block h.prepareReply
    | .error => goto .dead (h.prepareReply.setError eio "recv")
    | .data bs =>
      let got := bs.take h.replyHeaderSize
      if got = [] then goto .closed h.prepareReply
      else goto .replyRecvReply (h.prepareReply.store got)

/-- The magic number is already there and is not the one extended headers use. -/
def shortMagicBad (h : Handle) : Bool :=
  h.exp.extendedHeaders &&
    (match h.rx.rbuf with
      | .hdr p => decide (4 ≤ p)
      | _ => false) &&
    h.replyMagic != nbdExtendedReplyMagic

def enterReplyRecvReply (inp : Input) (h : Handle) : Outcome :=
  match recvIntoRbuf inp h with
  | .fail h => goto .dead h
  | .more h =>
    if shortMagicBad h then
      goto .dead (h.setError 0 "invalid or unexpected reply magic")
    else goto .ready h
  | .done h => goto .replyCheckReplyMagic h

/-- The search for the command of the current reply header. -/
def Handle.lookupReply (h : Handle) : Option Nat :=
  (Handle.findCmd h.replyCookie h.q.cmdsInFlight).map Command.cookie

def enterReplyCheckReplyMagic (h : Handle) : Outcome :=
  let found := { h with
    chunksReceived := h.chunksReceived + 1
    rx := { h.rx with replyCmd := h.lookupReply } }
  let invalid := goto .dead (h.setError 0 "invalid or unexpected reply magic")
  if h.replyMagic = nbdSimpleReplyMagic then
    if h.exp.extendedHeaders then invalid else goto .simpleStart found
  else if h.replyMagic = nbdStructuredReplyMagic then
    if h.exp.extendedHeaders then invalid
    else
      require (h.rx.rbuf == .hdr 16) .structuredRbuf <|
      goto .replyRecvStructuredRemaining { found with rx := { found.rx with rlen := 4 } }
  else if h.replyMagic = nbdExtendedReplyMagic then
    if h.exp.extendedHeaders then goto .chunkStart found else invalid
  else invalid

def enterReplyRecvStructuredRemaining (inp : Input) : Handle → Outcome :=
  recvThen inp (goto .chunkStart)

/-- Take the first command with this cookie off `cmds_in_flight`. -/
def Handle.unlink (h : Handle) (cookie : Nat) : Handle :=
  { h with q := { h.q with
      cmdsInFlight := h.q.cmdsInFlight.eraseP fun c => c.cookie == cookie
      inFlight := h.q.inFlight - 1 } }

def enterReplyFinishCommand (inp : Input) (h : Handle) : Outcome :=
  require (h.rx.replyCmd == h.lookupReply) .finishLookup <|
  match Handle.findCmd h.replyCookie h.q.cmdsInFlight with
  | none => goto .ready h
  | some cmd =>
    if cmd.completion.isNull = false ∧ cmd.type = .disc then .abort .finishDisc
    else
      let (es, cmd', retire) := notifyCompletion inp cmd cmd.error
      let h := Handle.log (Handle.unlink { h with rx := { h.rx with replyCmd := none } } cmd.cookie)
        (es ++ [Event.finish cmd.cookie])
      match h.settle cmd' retire with
      | .error a => .abort a
      | .ok h => require (decide (0 ≤ h.q.inFlight)) .inFlightNegative <| goto .ready h

/-! ## Simple replies -/

def enterSimpleStart (h : Handle) : Outcome :=
  match h.replyRef with
  | .dangling => .abort .danglingReplyCmd
  | .null =>
    if h.replyError ≠ 0 ∨ h.exp.structuredReplies = true then goto .replyFinishCommand h
    else goto .dead (h.setError eproto
      "no matching cookie found for server reply, this is probably a server bug")
  | .live cmd =>
    let error := errnoOfNbdError h.replyError
    let unexpected :=
      if cmd.type = .read ∧ h.exp.structuredReplies = true then orErr cmd.error eproto
      else cmd.error
    let cmd := { cmd with error := orErr unexpected error }
    if error = 0 ∧ cmd.type = .read then
      goto .simpleRecvReadPayload (Handle.setCmd
        { h with rx := { h.rx with rbuf := .user cmd.buf, rlen := cmd.count.toNat } }
        { cmd with dataSeen := cmd.dataSeen + cmd.count.toUInt32 })
    else goto .replyFinishCommand (h.setCmd cmd)

/-- What a chunk callback returning -1 stores in `cmd->error`. -/
def callbackError (old err : UInt32) : UInt32 := orErr old (orErr err eproto)

def simpleReadPayloadDone (inp : Input) (h : Handle) : Outcome :=
  match h.replyRef with
  | .dangling => .abort .danglingReplyCmd
  | .null => .abort .readCmd
  | .live cmd =>
    let e := .chunk cmd.cookie (h.mem.read cmd.buf cmd.count.toNat) cmd.offset .data cmd.error
    let (es, ret, err) := callCallback inp cmd.fn e cmd.error
    goto .replyFinishCommand ((h.log es).setCmd
      (if ret = -1 then { cmd with error := orErr err eproto } else cmd))

def enterSimpleRecvReadPayload (inp : Input) : Handle → Outcome :=
  recvThen inp (simpleReadPayloadDone inp)

end Libnbd
