import Libnbd.Negotiation.Connect

/-!
The option sub-machines of the newstyle handshake
(`generator/states-newstyle-opt-*.c`).

`SEND`, `RECV_REPLY` and `RECV_REPLY_PAYLOAD` are the same in all of them up to
the option; `START` and `CHECK_REPLY` are not.
-/

namespace Libnbd.Negotiation

open Lib

/-! ## The common states -/

/-- The option that a reply must name. -/
def Handle.groupOption (h : Handle) : OptGroup → Opt
  | .starttls => .starttls
  | .extendedHeaders => .extendedHeaders
  | .structuredReply => .structuredReply
  | .list => .list
  | .metaContext =>
    if h.optCurrent = some .listMetaContext then .listMetaContext else .setMetaContext
  | .go => h.optCurrent.getD .go

/-- Wait for the header of a reply. -/
def awaitReply (g : OptGroup) (h : Handle) : Outcome :=
  goto (.optRecvReply g) (h.expect 0 optionReplySize)

/-- `SEND` of the options without data. -/
def enterOptSend (inp : Input) (g : OptGroup) (h : Handle) : Outcome :=
  sendThen inp (awaitReply g) h

def enterOptRecvReply (inp : Input) (g : OptGroup) (h : Handle) : Outcome :=
  recvThen inp (fun h =>
    match prepareForReplyPayload h (h.groupOption g) with
    | .error text => die 0 text h
    | .ok h => goto (.optRecvReplyPayload g) h) h

def enterOptRecvReplyPayload (inp : Input) (g : OptGroup) (h : Handle) : Outcome :=
  recvThen inp (goto (.optCheckReply g)) h

/-! ## `OPT_STARTTLS` -/

def enterStarttlsStart (h : Handle) : Outcome :=
  require h.isFixed (.optFixed .starttls) <|
  let send := goto (.optSend .starttls) (h.request .starttls 0)
  if h.optCurrent = some .starttls then require h.cfg.optMode (.optMode .starttls) send
  else if h.cfg.tls = .disable then goto (.optStart .extendedHeaders) h
  else require h.optCb.completion.isNull (.optCompletion .starttls) send

/-- What a STARTTLS acknowledgement invalidates. -/
@[simps] def Handle.forgetPlaintext (h : Handle) : Handle :=
  { h with exp := { h.resetSizeAndFlags.exp with
      structuredReplies := false, extendedHeaders := false, metaValid := false } }

/-- The state in which the handshake goes on. -/
def handshakeState (inp : Input) : State :=
  if inp.isReading then .tlsHandshakeRead else .tlsHandshakeWrite

def enterStarttlsCheckReply (inp : Input) (h : Handle) : Outcome :=
  if h.reply = repAck then
    if h.exp.tlsNegotiated then
      die eproto "handshake: unable to support server accepting TLS twice" h
    else
      let h := h.forgetPlaintext.log [.tlsAck]
      if inp.createSession then goto (handshakeState inp) h else die eio "gnutls_init" h
  else
    handleReplyError inp h fun h =>
      if h.cfg.tls = .require then
        goto .newstylePrepareOptAbort
          (h.setError enotsup
            "handshake: server refused TLS, but handle TLS setting is 'require' (2)")
      else
        let err := if h.reply = repErrInvalid then einval else enotsup
        goto (if h.optCurrent = some .starttls then .negotiating else .optStart .extendedHeaders)
          (h.completeOption err)

/-- `TLS_HANDSHAKE_READ` and `TLS_HANDSHAKE_WRITE`. -/
def enterTlsHandshake (inp : Input) (h : Handle) : Outcome :=
  match inp.handshake with
  | .error => die 0 "gnutls_handshake" h
  | .done => goto .tlsHandshakeDone h
  | .again => goto (handshakeState inp) h

def enterTlsHandshakeDone (h : Handle) : Outcome :=
  let h := { h with exp := { h.exp with tlsNegotiated := true } }
  goto (if h.optCurrent = some .starttls then .negotiating else .optStart .extendedHeaders)
    (h.completeOption 0)

/-! ## `OPT_EXTENDED_HEADERS` -/

def enterExtendedHeadersStart (h : Handle) : Outcome :=
  require h.isFixed (.optFixed .extendedHeaders) <|
  let send := goto (.optSend .extendedHeaders) (h.request .extendedHeaders 0)
  if h.optCurrent = some .extendedHeaders then
    require h.cfg.optMode (.optMode .extendedHeaders) send
  else
    require h.optCb.completion.isNull (.optCompletion .extendedHeaders) <|
    if !h.cfg.requestEh || !h.cfg.requestSr then goto (.optStart .structuredReply) h else send

def enterExtendedHeadersCheckReply (inp : Input) (h : Handle) : Outcome :=
  let next (err : UInt32) (h : Handle) : Outcome :=
    goto (if h.optCurrent = some .extendedHeaders then .negotiating
      else .optStart .structuredReply) (h.completeOption err)
  if h.reply = repAck then
    next 0 { h with exp := { h.exp with extendedHeaders := true, structuredReplies := true } }
  else
    handleReplyError inp h fun h => next (if h.reply = repErrInvalid then einval else enotsup) h

/-! ## `OPT_STRUCTURED_REPLY` -/

/-- The last of the options that are negotiated without being asked for. -/
def afterStructuredReply (h : Handle) : State :=
  if h.cfg.optMode then .negotiating else .optStart .metaContext

def enterStructuredReplyStart (h : Handle) : Outcome :=
  require h.isFixed (.optFixed .structuredReply) <|
  let send := goto (.optSend .structuredReply) (h.request .structuredReply 0)
  if h.optCurrent = some .structuredReply then
    require h.cfg.optMode (.optMode .structuredReply) send
  else
    require h.optCb.completion.isNull (.optCompletion .structuredReply) <|
    if !h.cfg.requestSr || h.exp.structuredReplies then goto (afterStructuredReply h) h else send

def enterStructuredReplyCheckReply (inp : Input) (h : Handle) : Outcome :=
  let next (err : UInt32) (h : Handle) : Outcome :=
    goto (afterStructuredReply h) (h.completeOption err)
  if h.reply = repAck then next 0 { h with exp := { h.exp with structuredReplies := true } }
  else
    handleReplyError inp h fun h =>
      next (if h.reply = repErrInvalid ∨ h.reply = repErrExtHeaderReqd then einval else enotsup) h

/-! ## `OPT_LIST` -/

def enterListStart (h : Handle) : Outcome :=
  require h.isFixed (.optFixed .list) <|
  require (h.cfg.optMode && h.optCurrent == some .list) .listCurrent <|
  require (!h.optCb.fn.isNull) (.optFn .list) <|
  goto (.optSend .list) (h.request .list 0)

/-- Report one export and wait for more replies. -/
def listExport (h : Handle) (name description : CString) : Outcome :=
  awaitReply .list
    (h.log (if h.optCb.fn.callback then [.list h.optCb.id name description] else []))

/-- Decode `NBD_REP_SERVER`. `server.str` is oversized for the trailing NUL,
which is stored before anything was compared with `len - 4`. -/
def listServer (inp : Input) (h : Handle) : Outcome :=
  let len := h.replylen.toNat
  if len ≥ payloadSize then awaitReply .list h
  else
    minus len 4 fun rest =>
    poke h (4 + rest) 0 fun h =>
    fetch h 0 4 fun bs =>
      let elen := beNat bs
      if elen > rest ∨ elen > nbdMaxString then die 0 "invalid export length" h
      else
        minus rest elen fun dlen =>
          if dlen > nbdMaxString then die 0 "invalid export length" h
          else if elen = len + 4 then
            fetch h 4 rest fun str => listExport h (strndup str) []
          else if !inp.alloc 0 then die enomem "strdup" h
          else
            fetch h 4 elen fun name =>
            fetch h (4 + elen) dlen fun description =>
              listExport h (strndup name) (strndup description)

def enterListCheckReply (inp : Input) (h : Handle) : Outcome :=
  if h.reply = repServer then listServer inp h
  else if h.reply = repAck then goto .negotiating (h.completeOption 0)
  else handleReplyError inp h fun h => goto .negotiating (h.completeOption enotsup)

/-! ## `OPT_META_CONTEXT` -/

/-- Copy a string vector; the copies made before an allocation failed stay. -/
def copyStrings (alloc : Nat → Bool) : Nat → List CString → List CString × Bool
  | _, [] => ([], true)
  | i, s :: ss =>
    if alloc i then (s :: (copyStrings alloc (i + 1) ss).1, (copyStrings alloc (i + 1) ss).2)
    else ([], false)

/-- `nbd_internal_set_querylist`. -/
def setQuerylist (inp : Input) (h : Handle) (queries : Option (List CString)) : Handle × Bool :=
  let (copies, ok) := copyStrings inp.alloc 0 (queries.getD h.cfg.requestMetaContexts)
  let h := { h with querylist := copies }
  (if ok then h else h.setError enomem "strdup", ok)

/-- Length of the option data for `h->querylist`. -/
def Handle.metaOptlen (h : Handle) : Nat :=
  4 + h.cfg.exportName.length + 4 + (h.querylist.map fun q => 4 + q.length).sum

/-- Start the exchange for `opt`, which is LIST or SET. -/
def metaRequest (h : Handle) (opt : Opt) : Outcome :=
  let h := { h.request opt h.metaOptlen with wflags := true }
  goto (.optSend .metaContext)
    (if opt = .setMetaContext then h.log [.metaRequest h.cfg.exportName] else h)

/-- Forget the contexts of an earlier exchange. -/
@[simps] def Handle.resetContexts (h : Handle) : Handle :=
  { h with exp := { h.exp with metaContexts := [], metaValid := false } }

/-- The automatic request for GO and INFO, skipped when nothing can be asked. -/
def metaAutomatic (inp : Input) (h : Handle) : Outcome :=
  if !h.cfg.requestMeta || !h.exp.structuredReplies || h.cfg.requestMetaContexts.isEmpty then
    goto (.optStart .go)
      (if h.cfg.requestMeta then h.log [.metaSkipped h.cfg.exportName] else h)
  else
    let (h, ok) := setQuerylist inp h none
    if ok then metaRequest h .setMetaContext else goto .dead h

def enterMetaContextStart (inp : Input) (h : Handle) : Outcome :=
  require h.isFixed (.optFixed .metaContext) <|
  if h.optCurrent = some .listMetaContext then
    require h.cfg.optMode (.optMode .metaContext) <|
    require (!h.optCb.fn.isNull) (.optFn .metaContext) <|
    metaRequest h .listMetaContext
  else if h.optCurrent = some .setMetaContext then
    require (!h.optCb.fn.isNull) (.optFn .metaContext) <|
    metaRequest h.resetContexts .setMetaContext
  else
    require h.optCb.fn.isNull (.optFn .metaContext) <|
    metaAutomatic inp (if h.cfg.requestMeta then h.resetContexts else h)

/-- Send a 32 bit number that was built in `sbuf`. -/
def sendNumber (s : State) (n : Nat) (h : Handle) : Outcome :=
  goto s { h.emit (toBE 4 n) with wflags := true }

def enterMetaContextSend (inp : Input) (h : Handle) : Outcome :=
  sendThen inp (fun h => sendNumber .metaSendExportnamelen h.cfg.exportName.length h) h

def enterMetaSendExportnamelen (inp : Input) (h : Handle) : Outcome :=
  sendThen inp (fun h =>
    goto .metaSendExportname { h with wbuf := h.cfg.exportName, wflags := true }) h

def enterMetaSendExportname (inp : Input) (h : Handle) : Outcome :=
  sendThen inp (fun h => sendNumber .metaSendNrqueries h.querylist.length h) h

def enterMetaSendNrqueries (inp : Input) (h : Handle) : Outcome :=
  sendThen inp (fun h => goto .metaPrepareNextQuery { h with querynum := 0 }) h

def enterMetaPrepareNextQuery (h : Handle) : Outcome :=
  match h.querylist[h.querynum]? with
  | none => goto .metaPrepareForReply h
  | some query => sendNumber .metaSendQuerylen query.length h

def enterMetaSendQuerylen (inp : Input) (h : Handle) : Outcome :=
  sendThen inp (fun h =>
    goto .metaSendQuery { h with wbuf := (h.querylist[h.querynum]?).getD [] }) h

def enterMetaSendQuery (inp : Input) (h : Handle) : Outcome :=
  sendThen inp (fun h => goto .metaPrepareNextQuery { h with querynum := h.querynum + 1 }) h

def enterMetaPrepareForReply (h : Handle) : Outcome := awaitReply .metaContext h

/-- The end of a LIST or SET exchange that the application asked for. -/
def metaFinish (err : UInt32) (h : Handle) : Outcome :=
  goto .negotiating (h.completeOption err)

/-- `NBD_REP_META_CONTEXT`: LIST only reports the name, SET also keeps it. -/
def metaContextReply (inp : Input) (opt : Opt) (h : Handle) : Outcome :=
  let len := h.replylen.toNat
  if len > contextSize then goto .metaPrepareForReply h
  else
    require (len > 4) .contextLen <|
    fetch h 0 4 fun id =>
    minus len 4 fun rest =>
    fetch h 4 rest fun str =>
      if !inp.alloc 0 then die enomem "strdup" h
      else
        let name := strndup str
        let id := UInt32.ofNat (beNat id)
        let h := h.log (if h.optCb.fn.callback then [.context h.optCb.id name] else [])
        if opt = .listMetaContext then goto .metaPrepareForReply h
        else if !inp.alloc 1 then die enomem "realloc" h
        else goto .metaPrepareForReply
          ({ h with exp := { h.exp with
              metaContexts := h.exp.metaContexts ++ [(name, id)] } }.log [.metaContext name id])

def enterMetaContextCheckReply (inp : Input) (h : Handle) : Outcome :=
  let opt := h.groupOption .metaContext
  if h.reply = repAck then
    let h :=
      if opt = .setMetaContext then
        { h with exp := { h.exp with metaValid := true } }.log [.metaAck]
      else h
    if h.optCurrent = some opt then metaFinish 0 h else goto (.optStart .go) h
  else if h.reply = repMetaContext then metaContextReply inp opt h
  else
    handleReplyError inp h fun h =>
      let h := if opt = .setMetaContext then h.log [.metaRefused] else h
      if h.optCurrent = some opt then metaFinish enotsup h
      else
        goto (.optStart .go)
          (if opt = .setMetaContext then
            { h with exp := { h.exp with metaValid := h.exp.metaContexts.isEmpty } }
          else h)

/-! ## `OPT_GO` -/

/-- `nrinfos`, as `START` and `SEND_EXPORT` compute it. -/
def Handle.nrinfos (h : Handle) : Nat :=
  (if h.cfg.requestBlockSize then 1 else 0) + (if h.cfg.fullInfo then 2 else 0)

/-- `h->sbuf.info`, as `SEND_NRINFOS` fills it. -/
def Handle.infos (h : Handle) : List UInt16 :=
  (if h.cfg.requestBlockSize then [infoBlockSize] else []) ++
    (if h.cfg.fullInfo then [infoName, infoDescription] else [])

theorem Handle.length_infos (h : Handle) : h.infos.length = h.nrinfos := by
  unfold Handle.infos Handle.nrinfos
  split <;> split <;> rfl

def enterGoStart (h : Handle) : Outcome :=
  let h := h.resetSizeAndFlags
  let send (h : Handle) : Outcome :=
    let h := h.request (h.optCurrent.getD .go) (4 + h.cfg.exportName.length + 2 + 2 * h.nrinfos)
    goto (.optSend .go) { h with wflags := true }
  require h.isFixed (.optFixed .go) <|
  if h.optCurrent = some .info then require h.cfg.optMode (.optMode .go) (send h)
  else if h.optCurrent = none then
    require (!h.cfg.optMode) .goMode <|
    require h.optCb.completion.isNull (.optCompletion .go) <|
    send { h with optCurrent := some .go }
  else send h

def enterGoSend (inp : Input) (h : Handle) : Outcome :=
  sendThen inp (fun h => sendNumber .goSendExportnamelen h.cfg.exportName.length h) h

def enterGoSendExportnamelen (inp : Input) (h : Handle) : Outcome :=
  sendThen inp (fun h =>
    goto .goSendExport { h with wbuf := h.cfg.exportName, wflags := true }) h

def enterGoSendExport (inp : Input) (h : Handle) : Outcome :=
  sendThen inp (fun h => goto .goSendNrinfos (h.emit (toBE 2 h.nrinfos))) h

def enterGoSendNrinfos (inp : Input) (h : Handle) : Outcome :=
  sendThen inp (fun h => goto .goSendInfo (h.emit (h.infos.flatMap fun i => toBE 2 i.toNat))) h

def enterGoSendInfo (inp : Input) (h : Handle) : Outcome := sendThen inp (awaitReply .go) h

/-- `NBD_INFO_NAME` and `NBD_INFO_DESCRIPTION` differ in the field they set,
which holds the null pointer when the copy fails. -/
def goString (inp : Input) (which : String) (set : Option CString → Handle) (h : Handle) :
    Outcome :=
  let len := h.replylen.toNat
  if len > 2 + nbdMaxString ∨ len < 2 then
    die 0 ("handshake: incorrect " ++ which ++ " option reply length") h
  else
    minus len 2 fun rest =>
    fetch h 2 rest fun str =>
      if inp.alloc 0 then awaitReply .go (set (some (strndup str)))
      else die enomem "strndup" (set none)

/-- `NBD_REP_INFO`; unknown and oversized infos are skipped. -/
def goInfo (inp : Input) (h : Handle) : Outcome :=
  let len := h.replylen.toNat
  if len > payloadSize then require (h.rbuf == none) .infoRbuf (awaitReply .go h)
  else
    require (len ≥ 2) .infoLen <|
    fetch h 0 2 fun info =>
      let info := UInt16.ofNat (beNat info)
      if info = infoExport then
        if len ≠ 12 then die 0 "handshake: incorrect NBD_INFO_EXPORT option reply length" h
        else
          fetch h 2 8 fun exportsize =>
          fetch h 10 2 fun eflags =>
            setSizeAndFlags h (UInt64.ofNat (beNat exportsize)) (UInt16.ofNat (beNat eflags))
              (awaitReply .go)
      else if info = infoBlockSize then
        if len ≠ 14 then die 0 "handshake: incorrect NBD_INFO_BLOCK_SIZE option reply length" h
        else
          fetch h 2 4 fun min =>
          fetch h 6 4 fun pref =>
          fetch h 10 4 fun max =>
            awaitReply .go (h.setBlockSize (UInt32.ofNat (beNat min)) (UInt32.ofNat (beNat pref))
              (UInt32.ofNat (beNat max)))
      else if info = infoName then
        goString inp "NBD_INFO_NAME"
          (fun s => { h with exp := { h.exp with canonicalName := s } }) h
      else if info = infoDescription then
        goString inp "NBD_INFO_DESCRIPTION"
          (fun s => { h with exp := { h.exp with description := s } }) h
      else awaitReply .go h

/-- The end of GO or INFO. -/
def goFinish (err : UInt32) (h : Handle) : Outcome :=
  goto (if err = 0 ∧ h.optCurrent = some .go then .newstyleFinished
    else if h.cfg.optMode then .negotiating
    else .newstylePrepareOptAbort) (h.completeOption err)

/-- The export that GO or INFO failed for is not described any more. -/
@[simps] def Handle.forgetExport (h : Handle) : Handle :=
  { h with
    exp := { h.resetSizeAndFlags.exp with metaValid := false }
    trace := h.trace ++ [Event.goFailed] }

def enterGoCheckReply (inp : Input) (h : Handle) : Outcome :=
  if h.reply = repInfo then goInfo inp h
  else if h.reply = repErrUnsup ∧ h.optCurrent = some .go then goto .exportNameStart h
  else if h.reply = repAck then goFinish 0 h.setPayload
  else
    handleReplyError inp h fun h =>
      require (h.reply != repErrUnsup || h.optCurrent == some .info) .infoUnsup <|
      goFinish (orErr h.getErrno enotsup) h.forgetExport

/-! ## `OPT_EXPORT_NAME` -/

/-- Without fixed newstyle no metadata context can have been asked for. -/
def enterExportNameStart (h : Handle) : Outcome :=
  let h := { h.request .exportName h.cfg.exportName.length with wflags := true }
  goto .exportNameSend (if h.isFixed then h else h.log [.metaSkipped h.cfg.exportName])

def enterExportNameSend (inp : Input) (h : Handle) : Outcome :=
  sendThen inp (fun h => goto .exportNameSendExport { h with wbuf := h.cfg.exportName }) h

def enterExportNameSendExport (inp : Input) (h : Handle) : Outcome :=
  sendThen inp (fun h =>
    goto .exportNameRecvReply
      (h.expect 0 (if h.gflags &&& flagNoZeroes != 0 then 10 else 134))) h

def enterExportNameRecvReply (inp : Input) (h : Handle) : Outcome :=
  recvThen inp (goto .exportNameCheckReply) h

def enterExportNameCheckReply (h : Handle) : Outcome :=
  setSizeAndFlags h (h.sbuf.be64 0) (h.sbuf.be16 8) fun h =>
    goto .newstyleFinished (h.setPayload.completeOption 0)

end Libnbd.Negotiation
