import Libnbd.Negotiation.Options

/-!
The calls of the public API that configure, connect and negotiate: setters
(`lib/handle.c`, `lib/crypto.c`, `lib/opt.c`), `nbd_aio_connect*`
(`lib/connect.c`) and `nbd_aio_opt_*` (`lib/opt.c`), each with the checks of the
wrapper that `generator/C.ml` puts around it.
-/

namespace Libnbd.Negotiation

open Lib

/-! ## Permitted states -/

def State.isCreated (s : State) : Bool := s == .start
def State.isNegotiating (s : State) : Bool := s == .negotiating

/-- `[ Created; Negotiating ]`. -/
def State.isConfigurable (s : State) : Bool := s.isCreated || s.isNegotiating

/-! ## Calls -/

inductive ExternalEvent where
  | notifyRead | notifyWrite | cmdConnectSockAddr | cmdConnectTcp | cmdConnectCommand
  | cmdConnectSa | cmdConnectSocket | cmdIssue
  deriving DecidableEq, Repr

/-- How the server is reached. -/
inductive Address where
  | sockAddr | tcp | command | systemdSocketActivation | socket
  deriving DecidableEq, Repr

inductive Setter where
  | setTls (tls : Tls)
  | setOptMode (b : Bool)
  | setHandshakeFlags (flags : UInt32)
  | setRequestExtendedHeaders (b : Bool)
  | setRequestStructuredReplies (b : Bool)
  | setRequestMetaContext (b : Bool)
  | setRequestBlockSize (b : Bool)
  | setFullInfo (b : Bool)
  | setExportName (name : CString)
  | addMetaContext (name : CString)
  | clearMetaContexts
  deriving DecidableEq, Repr

inductive Api where
  | set (s : Setter)
  | aioConnect (addr : Address)
  | aioOptGo (completion : Closure)
  | aioOptInfo (completion : Closure)
  | aioOptAbort
  | aioOptStarttls (completion : Closure)
  | aioOptExtendedHeaders (completion : Closure)
  | aioOptStructuredReply (completion : Closure)
  | aioOptList (list completion : Closure)
  | aioOptListMetaContext (queries : Option (List CString)) (context completion : Closure)
  | aioOptSetMetaContext (queries : Option (List CString)) (context completion : Closure)
  | aioNotifyRead
  | aioNotifyWrite
  deriving DecidableEq, Repr

/-- How a call ends: refused with -1, accepted with 0, or the state machine has
to run on an event. `keep` tells whether the result of the run is returned. -/
inductive Submit where
  | refused (h : Handle)
  | done (h : Handle)
  | run (ev : ExternalEvent) (keep : Bool) (h : Handle)
  | abort (a : Abort)

/-- The wrapper's test of the state. -/
def permitted (p : State → Bool) (h : Handle) (k : Submit) : Submit :=
  if p h.state then k
  else .refused (h.setError (if h.state.isCreated then enotconn else einval) "invalid state")

/-! ## Setters -/

def setExportName (inp : Input) (h : Handle) (name : CString) : Submit :=
  if name.length > nbdMaxString then
    .refused (h.setError enametoolong "export name too long for NBD protocol")
  else if name = h.cfg.exportName then .done h
  else if !inp.alloc 0 then .refused (h.setError enomem "strdup")
  else
    let h := { h with cfg := { h.cfg with exportName := name } }.resetSizeAndFlags
    .done ({ h with exp := { h.exp with metaValid := false } }.log [.rename name])

def addMetaContext (inp : Input) (h : Handle) (name : CString) : Submit :=
  if name.length > nbdMaxString then
    .refused (h.setError enametoolong "meta context name too long for NBD protocol")
  else if !inp.alloc 0 then .refused (h.setError enomem "strdup")
  else if !inp.alloc 1 then .refused (h.setError enomem "realloc")
  else
    .done { h with cfg := { h.cfg with
      requestMetaContexts := h.cfg.requestMetaContexts ++ [name] } }

def callSetter (inp : Input) (h : Handle) : Setter → Submit
  | .setTls tls => permitted State.isCreated h <| .done { h with cfg := { h.cfg with tls := tls } }
  | .setOptMode b =>
    permitted State.isCreated h <| .done { h with cfg := { h.cfg with optMode := b } }
  | .setHandshakeFlags flags =>
    permitted State.isCreated h <|
    if flags &&& ~~~handshakeFlagMask ≠ 0 then
      .refused (h.setError einval "flags: invalid value for flag")
    else .done { h with gflags := flags.toUInt16 }
  | .setRequestExtendedHeaders b =>
    permitted State.isCreated h <| .done { h with cfg := { h.cfg with requestEh := b } }
  | .setRequestStructuredReplies b =>
    permitted State.isCreated h <| .done { h with cfg := { h.cfg with requestSr := b } }
  | .setRequestMetaContext b =>
    permitted State.isConfigurable h <| .done { h with cfg := { h.cfg with requestMeta := b } }
  | .setRequestBlockSize b =>
    permitted State.isConfigurable h <|
    .done { h with cfg := { h.cfg with requestBlockSize := b } }
  | .setFullInfo b =>
    permitted State.isConfigurable h <| .done { h with cfg := { h.cfg with fullInfo := b } }
  | .setExportName name => permitted State.isConfigurable h <| setExportName inp h name
  | .addMetaContext name => permitted State.isConfigurable h <| addMetaContext inp h name
  | .clearMetaContexts =>
    permitted State.isConfigurable h <|
    .done { h with cfg := { h.cfg with requestMetaContexts := [] } }

/-! ## Connecting -/

def aioConnect (inp : Input) (h : Handle) : Address → Submit
  | .sockAddr => .run .cmdConnectSockAddr true h
  | .tcp =>
    if inp.alloc 0 then .run .cmdConnectTcp true h else .refused (h.setError enomem "strdup")
  | .command =>
    if inp.alloc 0 then .run .cmdConnectCommand true h
    else .refused (h.setError enomem "realloc")
  | .systemdSocketActivation =>
    if inp.alloc 0 then .run .cmdConnectSa true h else .refused (h.setError enomem "realloc")
  | .socket =>
    if inp.socketCreate then .run .cmdConnectSocket true { h with sock := true }
    else .refused (h.setError enomem "malloc")

/-! ## Options -/

/-- Take over the callbacks of an option call and run the state machine; its
failure is ignored. -/
def submitOption (h : Handle) (opt : Opt) (fn : Option Closure) (completion : Closure) : Submit :=
  .run .cmdIssue false
    ({ h with
      optCurrent := some opt
      optCb := { id := h.nextId, fn := fn.getD h.optCb.fn, completion := completion }
      nextId := h.nextId + 1 }.log [.accept h.nextId opt (fn.getD .null) completion])

/-- The calls that need fixed newstyle. -/
def needFixed (h : Handle) (k : Submit) : Submit :=
  if h.isFixed then k
  else .refused (h.setError enotsup "server is not using fixed newstyle protocol")

/-- The wrapper's test of a callback that is not optional. -/
def needCallback (fn : Closure) (h : Handle) (k : Submit) : Submit :=
  if fn.isNull then .refused (h.setError efault "callback cannot be NULL") else k

/-- The calls without a list or context callback, which leave that one alone. -/
def plainOption (h : Handle) (opt : Opt) (completion : Closure) : Submit :=
  permitted State.isNegotiating h <| submitOption h opt none completion

def fixedOption (h : Handle) (opt : Opt) (completion : Closure) : Submit :=
  permitted State.isNegotiating h <| needFixed h <| submitOption h opt none completion

/-- `nbd_unlocked_aio_opt_abort` takes no callback. -/
def aioOptAbort (h : Handle) : Submit :=
  permitted State.isNegotiating h <| .run .cmdIssue false { h with optCurrent := some .abort }

def aioOptList (h : Handle) (list completion : Closure) : Submit :=
  permitted State.isNegotiating h <| needCallback list h <| needFixed h <|
  if h.optCb.fn.isNull then submitOption h .list (some list) completion else .abort .queueFn

/-- `aio_opt_meta_context_queries`. -/
def aioOptMetaContextQueries (inp : Input) (h : Handle) (opt : Opt)
    (queries : Option (List CString)) (context completion : Closure) : Submit :=
  permitted State.isNegotiating h <| needCallback context h <| needFixed h <|
  let (h, ok) := setQuerylist inp h queries
  if !ok then .refused h
  else if h.optCb.fn.isNull then submitOption h opt (some context) completion
  else .abort .queueFn

def submit (inp : Input) (h : Handle) : Api → Submit
  | .set s => callSetter inp h s
  | .aioConnect addr => permitted State.isCreated h <| aioConnect inp h addr
  | .aioOptGo completion => plainOption h .go completion
  | .aioOptInfo completion => fixedOption h .info completion
  | .aioOptAbort => aioOptAbort h
  | .aioOptStarttls completion => fixedOption h .starttls completion
  | .aioOptExtendedHeaders completion => fixedOption h .extendedHeaders completion
  | .aioOptStructuredReply completion => fixedOption h .structuredReply completion
  | .aioOptList list completion => aioOptList h list completion
  | .aioOptListMetaContext queries context completion =>
    aioOptMetaContextQueries inp h .listMetaContext queries context completion
  | .aioOptSetMetaContext queries context completion =>
    aioOptMetaContextQueries inp h .setMetaContext queries context completion
  | .aioNotifyRead => .run .notifyRead true h
  | .aioNotifyWrite => .run .notifyWrite true h

end Libnbd.Negotiation
