import Libnbd.Socket

/-!
State machine for issuing commands to the server
(`generator/states-issue-command.c`).
-/

namespace Libnbd

open Lib

/-- The request header of a command, compact or extended. -/
def requestHeader (extended : Bool) (cmd : Command) : List UInt8 :=
  if extended then
    toBE 4 nbdExtendedRequestMagic ++ toBE 2 cmd.flags.toNat ++ toBE 2 cmd.type.code ++
      toBE 8 cmd.cookie ++ toBE 8 cmd.offset.toNat ++ toBE 8 cmd.count.toNat
  else
    toBE 4 nbdRequestMagic ++ toBE 2 cmd.flags.toNat ++ toBE 2 cmd.type.code ++
      toBE 8 cmd.cookie ++ toBE 8 cmd.offset.toNat ++ toBE 4 cmd.count.toNat

/-- Cookie field of the request header in `h->req`. -/
def requestCookie (req : List UInt8) : Nat := beNat ((req.drop 8).take 8)

/-- Whether `PREPARE_WRITE_PAYLOAD` decides to send a payload. -/
def Command.hasPayload (extended : Bool) (cmd : Command) : Bool :=
  cmd.type == .write ||
    (extended && cmd.type == .blockStatus && cmd.flags &&& cmdFlagPayloadLen.toUInt16 != 0)

/-- `ISSUE_COMMAND.START` from the point where it builds the request header. -/
def issueRequest (h : Handle) (cmd : Command) (rest : List Command) : Outcome :=
  require (h.exp.extendedHeaders || decide (cmd.count ≤ uint32Max)) .issueCount <|
    goto .issueSendRequest { h with
      chunksSent := h.chunksSent + 1
      tx := { h.tx with
        req := requestHeader h.exp.extendedHeaders cmd
        wbuf := requestHeader h.exp.extendedHeaders cmd
        wlen := if h.exp.extendedHeaders then 32 else 28
        wflags := h.tx.wflags || cmd.type == .write || !rest.isEmpty } }

/-- `ISSUE_COMMAND.START`. The branch for `in_write_shutdown` only records
`SEND_WRITE_SHUTDOWN` as the next state; control falls through to building the
request again, which overrides it. -/
def enterIssueStart (h : Handle) : Outcome :=
  match h.q.cmdsToIssue with
  | [] => .abort .issueEmpty
  | cmd :: rest =>
    if h.tx.inWriteShutdown then issueRequest h cmd rest
    else if h.tx.wlen ≠ 0 then
      if h.tx.inWritePayload then .block { h with state := .issueSendWritePayload }
      else .block { h with state := .issueSendRequest }
    else issueRequest h cmd rest

/-- `SEND_REQUEST` and `SEND_WRITE_PAYLOAD` differ in the state that follows. -/
def enterSend (inp : Input) (next : State) (h : Handle) : Outcome :=
  match sendFromWbuf inp h with
  | .overrun => .abort .wbufOverrun
  | .fail h => goto .dead h
  | .done h => goto next h
  | .more h => .block h

def enterIssueSendRequest (inp : Input) : Handle → Outcome :=
  enterSend inp .issuePrepareWritePayload

def enterIssueSendWritePayload (inp : Input) : Handle → Outcome :=
  enterSend inp .issueFinish

/-- `PAUSE_SEND_REQUEST` and `PAUSE_WRITE_PAYLOAD` differ in the flag. -/
def enterPause (inWritePayload : Bool) (h : Handle) : Outcome :=
  require (h.tx.wlen ≠ 0) .issueWlen <|
  require (!h.q.cmdsToIssue.isEmpty) .issueEmpty <|
  goto .replyStart { h with tx := { h.tx with inWritePayload := inWritePayload } }

def enterIssuePauseSendRequest : Handle → Outcome := enterPause false
def enterIssuePauseWritePayload : Handle → Outcome := enterPause true

def enterIssuePrepareWritePayload (h : Handle) : Outcome :=
  match h.q.cmdsToIssue with
  | [] => .abort .issueEmpty
  | cmd :: rest =>
    require (requestCookie h.tx.req == cmd.cookie) .issueCookie <|
    if cmd.hasPayload h.exp.extendedHeaders then
      goto .issueSendWritePayload { h with tx := { h.tx with
        wbuf := cmd.data
        wlen := cmd.count.toNat
        wflags := h.tx.wflags || (!rest.isEmpty && decide (cmd.count < 65536)) } }
    else if cmd.type = .disc then
      goto .issueSendWriteShutdown { h with tx := { h.tx with inWriteShutdown := true } }
    else goto .issueFinish h

def enterIssueSendWriteShutdown (inp : Input) (h : Handle) : Outcome :=
  if inp.shutWrites then goto .issueFinish h else .block h

def enterIssuePauseWriteShutdown (h : Handle) : Outcome :=
  require h.tx.inWriteShutdown .issueShutdown <| goto .replyStart h

def enterIssueFinish (h : Handle) : Outcome :=
  require (h.tx.wlen == 0) .issueWlen <|
  match h.q.cmdsToIssue with
  | [] => .abort .issueEmpty
  | cmd :: rest =>
    require (requestCookie h.tx.req == cmd.cookie) .issueCookie <|
    goto .ready ({ h with q := { h.q with
      cmdsToIssue := rest
      cmdsToIssueTail :=
        if h.q.cmdsToIssueTail = some cmd.cookie then none else h.q.cmdsToIssueTail
      cmdsInFlight := cmd :: h.q.cmdsInFlight } }.log [.issue cmd])

end Libnbd
