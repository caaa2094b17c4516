import Libnbd.Negotiation.Api
import Libnbd.Lib.System

/-!
The run loop of `generator/state_machine_generator.ml` before the transmission
phase, and the transition system of a handle from `nbd_create` to `READY`.
As in the transmission phase, `nbd_internal_run` is cut into its iterations and
an API call is possible only while no other call is running.
-/

namespace Libnbd.Negotiation

open Lib

/-- `START` of an option sub-machine. -/
def enterOptStart (inp : Input) : OptGroup → Handle → Outcome
  | .starttls => enterStarttlsStart
  | .extendedHeaders => enterExtendedHeadersStart
  | .structuredReply => enterStructuredReplyStart
  | .list => enterListStart
  | .metaContext => enterMetaContextStart inp
  | .go => enterGoStart

/-- `SEND` of an option sub-machine. -/
def enterOptSendGroup (inp : Input) : OptGroup → Handle → Outcome
  | .metaContext => enterMetaContextSend inp
  | .go => enterGoSend inp
  | g => enterOptSend inp g

/-- `CHECK_REPLY` of an option sub-machine. -/
def enterOptCheckReply (inp : Input) : OptGroup → Handle → Outcome
  | .starttls => enterStarttlsCheckReply inp
  | .extendedHeaders => enterExtendedHeadersCheckReply inp
  | .structuredReply => enterStructuredReplyCheckReply inp
  | .list => enterListCheckReply inp
  | .metaContext => enterMetaContextCheckReply inp
  | .go => enterGoCheckReply inp

/-- `nbd_internal_enter_*`. -/
def enter (inp : Input) (h : Handle) : Outcome :=
  match h.state with
  | .start => .block h
  | .negotiating => .block h
  | .ready => enterReady h
  | .dead => enterDead h
  | .closed => enterClosed h
  | .connectStart => enterConnectStart inp h
  | .connectConnecting => enterConnectConnecting inp h
  | .connectTcpStart => enterConnectTcpStart inp h
  | .connectTcpConnect => enterConnectTcpConnect inp h
  | .connectTcpConnecting => enterConnectTcpConnecting inp h
  | .connectTcpNextAddress => enterConnectTcpNextAddress h
  | .connectCommandStart => enterConnectCommandStart inp h
  | .connectSaStart => enterConnectSaStart inp h
  | .magicStart => enterMagicStart h
  | .magicRecvMagic => enterMagicRecvMagic inp h
  | .magicCheckMagic => enterMagicCheckMagic h
  | .oldstyleStart => enterOldstyleStart h
  | .oldstyleRecvRemaining => enterOldstyleRecvRemaining inp h
  | .oldstyleCheck => enterOldstyleCheck h
  | .newstyleStart => enterNewstyleStart h
  | .newstyleRecvGflags => enterNewstyleRecvGflags inp h
  | .newstyleCheckGflags => enterNewstyleCheckGflags h
  | .newstyleSendCflags => enterNewstyleSendCflags inp h
  | .newstylePrepareOptAbort => enterNewstylePrepareOptAbort h
  | .newstyleSendOptAbort => enterNewstyleSendOptAbort inp h
  | .newstyleSendOptionShutdown => enterNewstyleSendOptionShutdown inp h
  | .newstyleFinished => enterNewstyleFinished h
  | .optStart g => enterOptStart inp g h
  | .optSend g => enterOptSendGroup inp g h
  | .optRecvReply g => enterOptRecvReply inp g h
  | .optRecvReplyPayload g => enterOptRecvReplyPayload inp g h
  | .optCheckReply g => enterOptCheckReply inp g h
  | .tlsHandshakeRead => enterTlsHandshake inp h
  | .tlsHandshakeWrite => enterTlsHandshake inp h
  | .tlsHandshakeDone => enterTlsHandshakeDone h
  | .metaSendExportnamelen => enterMetaSendExportnamelen inp h
  | .metaSendExportname => enterMetaSendExportname inp h
  | .metaSendNrqueries => enterMetaSendNrqueries inp h
  | .metaPrepareNextQuery => enterMetaPrepareNextQuery h
  | .metaSendQuerylen => enterMetaSendQuerylen inp h
  | .metaSendQuery => enterMetaSendQuery inp h
  | .metaPrepareForReply => enterMetaPrepareForReply h
  | .goSendExportnamelen => enterGoSendExportnamelen inp h
  | .goSendExport => enterGoSendExport inp h
  | .goSendNrinfos => enterGoSendNrinfos inp h
  | .goSendInfo => enterGoSendInfo inp h
  | .exportNameStart => enterExportNameStart h
  | .exportNameSend => enterExportNameSend inp h
  | .exportNameSendExport => enterExportNameSendExport inp h
  | .exportNameRecvReply => enterExportNameRecvReply inp h
  | .exportNameCheckReply => enterExportNameCheckReply h

/-- The states that wait for the socket to become readable. -/
def State.isReceiving : State → Bool
  | magicRecvMagic | oldstyleRecvRemaining | newstyleRecvGflags | optRecvReply _
  | optRecvReplyPayload _ | tlsHandshakeRead | exportNameRecvReply => true
  | _ => false

/-- The states that wait for the socket to become writable. -/
def State.isSending : State → Bool
  | connectConnecting | connectTcpConnecting | newstyleSendCflags | newstyleSendOptAbort
  | newstyleSendOptionShutdown | optSend _ | tlsHandshakeWrite | metaSendExportnamelen
  | metaSendExportname | metaSendNrqueries | metaSendQuerylen | metaSendQuery
  | goSendExportnamelen | goSendExport | goSendNrinfos | goSendInfo | exportNameSend
  | exportNameSendExport => true
  | _ => false

/-- The external events each state accepts and where they lead. -/
def externalEvent : ExternalEvent → State → Option State
  | .cmdConnectSockAddr, .start => some .connectStart
  | .cmdConnectTcp, .start => some .connectTcpStart
  | .cmdConnectCommand, .start => some .connectCommandStart
  | .cmdConnectSa, .start => some .connectSaStart
  | .cmdConnectSocket, .start => some .magicStart
  | .cmdIssue, .negotiating => some .newstyleStart
  | .notifyWrite, .connectStart => some .connectConnecting
  | .notifyWrite, .connectTcpConnect => some .connectTcpConnecting
  | .notifyRead, s => if s.isReceiving then some s else none
  | .notifyWrite, s => if s.isSending then some s else none
  | _, _ => none

/-! ## The transition system -/

inductive Control where
  | idle (ret : Int)
  | running (keep : Bool)
  | aborted (a : Abort)
  deriving DecidableEq, Repr

structure Config where
  h : Handle
  ctl : Control

inductive Label where
  | enter (inp : Input)
  | call (api : Api) (inp : Input)

/-- The call returns when the run loop ends with `r`. -/
def afterRun (keep : Bool) (r : Int) (h : Handle) : Config := ⟨h, .idle (if keep then r else 0)⟩

/-- Enter the run loop with an external event, if the state accepts it. -/
def startRun (ev : ExternalEvent) (keep : Bool) (h : Handle) : Config :=
  match externalEvent ev h.state with
  | some s => ⟨{ h with state := s }, .running keep⟩
  | none => afterRun keep (-1) (h.setError einval "external event is invalid in this state")

/-- One iteration of the run loop. -/
def stepEnter (inp : Input) (keep : Bool) (h : Handle) : Config :=
  match enter inp h with
  | .next h => ⟨h, .running keep⟩
  | .block h => afterRun keep 0 h
  | .fail h => afterRun keep (-1) h
  | .abort a => ⟨h, .aborted a⟩

def afterSubmit (h₀ : Handle) : Submit → Config
  | .refused h => ⟨h, .idle (-1)⟩
  | .done h => ⟨h, .idle 0⟩
  | .run ev keep h => startRun ev keep h
  | .abort a => ⟨h₀, .aborted a⟩

/-- One API call on an idle handle, with the last error of the calling thread. -/
def stepCall (inp : Input) (api : Api) (h : Handle) : Config :=
  let h := { h with lastError := inp.lastError }
  afterSubmit h (submit inp h api)

def step (c : Config) : Label → Option Config
  | .enter inp =>
    match c.ctl with
    | .running keep => some (stepEnter inp keep c.h)
    | _ => none
  | .call api inp =>
    match c.ctl with
    | .idle _ => some (stepCall inp api c.h)
    | _ => none

/-- A new handle; the static buffer may hold anything. -/
def Initial (c : Config) : Prop := ∃ sbuf, c = ⟨.create sbuf, .idle 0⟩

/-- A handle from its creation to the start of the transmission phase. -/
def machine : System Config Label where
  init := Initial
  step := step

/-! ## An undisturbed environment, for concrete runs -/

/-- Nothing arrives, everything is sent at once, every resource is available. -/
def Input.calm : Input where
  recv := .again
  send := .sent 65536
  shutWrites := true
  pending := false
  lastError := none
  alloc := fun _ => true
  createSession := true
  handshake := .done
  isReading := true
  socket := true
  socketCreate := true
  connect := 0
  soError := .status 0
  addresses := some 1
  spawn := true

/-- The next receive brings `bs`. -/
def Input.receive (bs : List UInt8) : Input := { Input.calm with recv := .data bs }

def Config.created : Config := ⟨.create fun _ => 0, .idle 0⟩

theorem Config.initial_created : machine.init .created := ⟨_, rfl⟩

/-- Connect in option mode to a server with fixed newstyle, without structured
replies, and stop in `NEGOTIATING`. -/
def connectOptMode : List Label :=
  [Label.call (.set (.setOptMode true)) .calm, .call (.set (.setRequestStructuredReplies false)) .calm,
    .call (.aioConnect .socket) .calm, .enter .calm,
    .enter (.receive (toBE 8 nbdMagic.toNat ++ toBE 8 nbdNewVersion.toNat)), .enter .calm,
    .enter .calm, .enter (.receive [0, 3]), .enter .calm, .enter .calm, .enter .calm, .enter .calm,
    .enter .calm, .enter .calm]

/-- One option reply: its header, its payload, and the state that checks it. -/
def exchange (opt : Opt) (reply : UInt32) (payload : List UInt8) : List Label :=
  [Label.enter (.receive (toBE 8 nbdRepMagic.toNat ++ toBE 4 opt.code.toNat ++ toBE 4 reply.toNat ++
      toBE 4 payload.length)),
    .enter (.receive payload), .enter .calm]

/-- Negotiate structured replies in option mode. -/
def agreeStructured : List Label :=
  Label.call (.aioOptStructuredReply .null) .calm :: List.replicate 3 (.enter .calm) ++
  exchange .structuredReply repAck [] ++ [Label.enter .calm]

/-- Ask for the metadata context `a`, which the server has under the id 7. -/
def setOneContext : List Label :=
  Label.call (.aioOptSetMetaContext (some [[97]]) ⟨true, false⟩ .null) .calm ::
    List.replicate 11 (.enter .calm) ++
  exchange .setMetaContext repMetaContext [0, 0, 0, 7, 97] ++ [Label.enter .calm] ++
  exchange .setMetaContext repAck [] ++ [Label.enter .calm]

/-- Go on with what was negotiated, to an export of 4096 bytes. -/
def goOn : List Label :=
  [Label.call (.set (.setRequestMetaContext false)) .calm, .call (.aioOptGo .null) .calm] ++
  List.replicate 8 (Label.enter .calm) ++
  exchange .go repInfo [0, 0, 0, 0, 0, 0, 0, 0, 16, 0, 0, 1] ++ exchange .go repAck [] ++
  [Label.enter .calm]

end Libnbd.Negotiation
