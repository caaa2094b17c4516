import Libnbd.Lib.Decimal
import Libnbd.Negotiation.Flags
import Libnbd.Uri.Queries

/-!
Connecting to an NBD URI (`nbd_unlocked_aio_connect_uri` in `lib/uri.c`) and the
policy that an application sets for URIs it does not trust: which transports they
may name, whether they may or must ask for TLS, and whether they may name local
files.

The policy is kept on every path to a connect call. The host of an `nbd+ssh` URI is
passed to `ssh` as it is, without `--` in front of it, so that a host which begins
with a dash is an option there.
-/

namespace Libnbd.Uri

open Lib Negotiation

/-! ## The URI and the handle -/

/-- The fields of `xmlURI` that are read; a string ends at its first NUL. -/
structure XmlUri where
  scheme : Option CString
  server : Option CString
  port : Int
  user : Option CString
  path : Option CString
  queryRaw : Option CString
  deriving DecidableEq, Repr

/-- What the code around libnbd provides. -/
structure Platform where
  xmlParseURI : CString → Option XmlUri
  unescape : CString → CString
  haveGnutls : Bool
  haveVsock : Bool

/-- Where memory is asked for. -/
inductive Allocation where
  | query (i : Nat)
  | param (i : Nat)
  | username
  | exportName
  | connect
  deriving DecidableEq, Repr

/-- The part of the handle that a URI can be checked against or can set. -/
structure UriHandle where
  uriAllowTransports : UInt32
  uriAllowTls : Tls
  uriAllowLocalFile : Bool
  tls : Tls
  tlsCertificates : Option CString
  tlsPskFile : Option CString
  tlsHostname : Option CString
  tlsUsername : Option CString
  tlsVerifyPeer : Bool
  exportName : CString
  deriving DecidableEq, Repr

/-- How the call fails: with `set_error`, or by one of the two ways to crash. -/
inductive UriError where
  | failed (errno : UInt32) (text : String)
  | assertion
  | nullPointer
  deriving DecidableEq, Repr

inductive Transport where
  | tcp | unixSock | vsock | ssh
  deriving DecidableEq, Repr

/-- `LIBNBD_ALLOW_TRANSPORT_*`. -/
def Transport.flag : Transport → UInt32
  | tcp => 0x01
  | unixSock => 0x02
  | vsock => 0x04
  | ssh => 0x08

inductive SocketParam where
  | none | optional | required
  deriving DecidableEq, Repr

/-- The connect call with which a successful run ends. -/
inductive Target where
  | tcp (hostname port : CString)
  | unixSocket (path : CString)
  | vsock (cid port : UInt32)
  | command (argv : List CString)
  deriving DecidableEq, Repr

def Target.transport : Target → Transport
  | tcp _ _ => .tcp
  | unixSocket _ => .unixSock
  | vsock _ _ => .vsock
  | command _ => .ssh

/-! ## Strings -/

/-- What the string functions see of a buffer. -/
def cstr (s : CString) : CString := s.takeWhile (· != 0)

def toLower (c : UInt8) : UInt8 := if 0x41 ≤ c ∧ c ≤ 0x5a then c + 0x20 else c

/-- `strcasecmp (a, b) == 0`. -/
def strcaseEq (a b : CString) : Bool := a.map toLower == b.map toLower

def parseBool (value : CString) : Option Bool :=
  if value = str "1" || strcaseEq value (str "true") || strcaseEq value (str "t") ||
      strcaseEq value (str "yes") || strcaseEq value (str "y") || strcaseEq value (str "on") then
    some true
  else if value = str "0" || strcaseEq value (str "false") || strcaseEq value (str "f") ||
      strcaseEq value (str "no") || strcaseEq value (str "n") || strcaseEq value (str "off") then
    some false
  else none

/-! ## Schemes -/

structure Scheme where
  name : CString
  transport : Transport
  tls : Bool
  socketParam : SocketParam
  deriving DecidableEq, Repr

def schemes : List Scheme :=
  [⟨str "nbd", .tcp, false, .none⟩,
   ⟨str "nbds", .tcp, true, .none⟩,
   ⟨str "nbd+unix", .unixSock, false, .required⟩,
   ⟨str "nbds+unix", .unixSock, true, .required⟩,
   ⟨str "nbd+vsock", .vsock, false, .none⟩,
   ⟨str "nbds+vsock", .vsock, true, .none⟩,
   ⟨str "nbd+ssh", .ssh, false, .optional⟩,
   ⟨str "nbds+ssh", .ssh, true, .optional⟩]

def findScheme (scheme : CString) : Option Scheme :=
  schemes.find? fun s => strcaseEq scheme s.name

/-- What is said about a URI without a scheme. -/
def noSchemeText (h : UriHandle) (rawUri : CString) : String :=
  "NBD URI does not have a scheme: valid NBD URIs should " ++
    "start with a scheme like nbd://, nbds:// or nbd+unix://" ++
    if rawUri.head? = some 0x2f && h.uriAllowTransports &&& Transport.unixSock.flag != 0 then
      ": to open a local socket use \"nbd+unix://?socket=PATH\""
    else if strcaseEq (rawUri.take 9) (str "localhost") &&
        h.uriAllowTransports &&& Transport.tcp.flag != 0 then
      ": to open a local port use \"nbd://localhost\" or \"nbd://localhost:PORT\""
    else ""

/-! ## Checks -/

def transportAllowed (h : UriHandle) (t : Transport) : Bool :=
  h.uriAllowTransports &&& t.flag != 0

def tlsAllowed (h : UriHandle) (tls : Bool) : Bool :=
  !(tls && h.uriAllowTls == .disable) && !(!tls && h.uriAllowTls == .require)

/-- The last `socket` parameter. -/
def findSocket (queries : List (CString × CString)) : Option CString :=
  queries.foldl (fun s q => if strcaseEq q.1 (str "socket") then some q.2 else s) none

/-- What is known about a URI when all checks that change nothing have passed. -/
structure Accepted where
  uri : XmlUri
  scheme : Scheme
  queries : List (CString × CString)
  unixsocket : Option CString
  deriving DecidableEq, Repr

/-- The test of the `socket` parameter against the scheme. -/
def checkSocket (name : CString) (s : Scheme) (unixsocket : Option CString) : Option UriError :=
  match s.socketParam, unixsocket with
  | .required, none =>
    some (.failed einval ("cannot parse socket parameter from NBD URI (did you mean to use \"" ++
      showCString name ++ ":///?socket=...\"?)"))
  | .none, some _ =>
    some (.failed einval ("socket parameter is incompatible with \"" ++ showCString name ++
      ":\" (did you mean to use \"" ++ (if s.tls then "nbds" else "nbd") ++
      "+unix:///?socket=...\"?)"))
  | _, _ => none

section

variable (P : Platform) (mem : Allocation → Bool)

/-- The first part of the call, up to the test of the `socket` parameter. -/
def checkUri (h : UriHandle) (rawUri : CString) : Except UriError Accepted :=
  match P.xmlParseURI rawUri with
  | none => .error (.failed einval ("unable to parse URI: " ++ showCString rawUri))
  | some uri =>
    match parseUriQueries P.unescape (fun i => mem (.query i)) uri.queryRaw with
    | none =>
      .error (.failed einval ("unable to parse URI queries: " ++
        showCString (uri.queryRaw.getD [])))
    | some raw =>
      let queries := raw.map fun q => (cstr q.1, cstr q.2)
      match uri.scheme with
      | none => .error (.failed einval (noSchemeText h rawUri))
      | some name =>
        match findScheme name with
        | none => .error (.failed einval ("unknown NBD URI scheme: " ++ showCString name))
        | some s =>
          if (rawUri.drop name.length).take 3 != str "://" then
            .error (.failed einval ("URI must begin with '" ++ showCString name ++ "://'"))
          else if !transportAllowed h s.transport then
            .error (.failed eperm ("URI transport " ++ showCString name ++ " is not permitted"))
          else if !tlsAllowed h s.tls then
            .error (.failed eperm ("URI TLS setting " ++ showCString name ++ " is not permitted"))
          else
            match checkSocket name s (findSocket queries) with
            | some e => .error e
            | none => .ok ⟨uri, s, queries, findSocket queries⟩

/-! ## Settings from the URI -/

/-- A change of the handle, which a failure does not undo. -/
abbrev Setting := UriHandle → UriHandle × Option UriError

/-- One setting after the other. -/
def Setting.andThen (f g : Setting) : Setting := fun h =>
  match f h with
  | (h, none) => g h
  | (h, some e) => (h, some e)

/-- A setter that copies a string. -/
def setString (a : Allocation) (set : UriHandle → UriHandle) : Setting := fun h =>
  if mem a then (set h, none) else (h, some (.failed enomem "strdup"))

/-- `nbd_unlocked_set_tls (h, LIBNBD_TLS_REQUIRE)`. -/
def setTlsRequire : Setting := fun h =>
  if P.haveGnutls then ({ h with tls := .require }, none)
  else (h, some (.failed enotsup "libnbd was compiled without TLS support"))

/-- A parameter that names a local file. -/
def setLocalFile (i : Nat) (name : String) (set : UriHandle → UriHandle) : Setting := fun h =>
  if !h.uriAllowLocalFile then
    (h, some (.failed eperm ("local file access (" ++ name ++ ") is not allowed, " ++
      "call nbd_set_uri_allow_local_file to enable this")))
  else setString mem (.param i) set h

/-- One round of the loop over the parameters. -/
def applyParam (i : Nat) (q : CString × CString) : Setting :=
  if strcaseEq q.1 (str "tls-certificates") then
    setLocalFile mem i "tls-certificates" fun h => { h with tlsCertificates := some q.2 }
  else if strcaseEq q.1 (str "tls-psk-file") then
    setLocalFile mem i "tls-psk-file" fun h => { h with tlsPskFile := some q.2 }
  else if strcaseEq q.1 (str "tls-hostname") then
    setString mem (.param i) fun h => { h with tlsHostname := some q.2 }
  else if strcaseEq q.1 (str "tls-verify-peer") then fun h =>
    match parseBool q.2 with
    | some v => ({ h with tlsVerifyPeer := v }, none)
    | none =>
      (h, some (.failed einval ("could not parse tls-verify-peer parameter, " ++
        "expecting tls-verify-peer=true|false")))
  else fun h => (h, none)

def applyParams (i : Nat) : List (CString × CString) → Setting
  | [] => fun h => (h, none)
  | q :: queries => (applyParam mem i q).andThen (applyParams (i + 1) queries)

def setUsername : Option CString → Setting
  | none => fun h => (h, none)
  | some user => setString mem .username fun h => { h with tlsUsername := some user }

/-- `nbd_unlocked_set_export_name`, as far as the name goes. -/
def setExportName (name : CString) : Setting := fun h =>
  if name.length > nbdMaxString then
    (h, some (.failed enametoolong "export name too long for NBD protocol"))
  else if name = h.exportName then (h, none)
  else setString mem .exportName (fun h => { h with exportName := name }) h

def setPath : Option CString → Setting
  | none => setExportName mem []
  | some path => fun h =>
    if path.head? != some 0x2f then (h, some .assertion) else setExportName mem path.tail h

/-- Everything that a URI sets on the handle. -/
def applyUri (a : Accepted) : Setting :=
  Setting.andThen (if a.scheme.tls then setTlsRequire P else fun h => (h, none)) <|
    Setting.andThen (applyParams mem 0 a.queries) <|
      Setting.andThen (setUsername mem a.uri.user) (setPath mem a.uri.path)

/-! ## The connect call -/

/-- The host without the brackets of a literal IPv6 address. -/
def stripBrackets (server : CString) : CString :=
  if server.length ≥ 2 && server.head? == some 0x5b && server.getLast? == some 0x5d then
    server.tail.dropLast
  else server

/-- A number is printed with `%d`. -/
def portOr (port : Int) (default : Nat) : Nat := if port > 0 then port.toNat else default

/-- `sscanf (s, "%" SCNu32, …)`: the value is cut to 64 and then to 32 bits. -/
def scanU32 (s : CString) : Option UInt32 :=
  (scanNumeral s).map fun n =>
    let v := min (digitsValue n.digits) (2 ^ 64 - 1)
    UInt32.ofNat (if n.negative then (2 ^ 64 - v) % 2 ^ 64 else v)

/-- The command of the ssh transport. -/
def sshCommand (server : CString) (port : Int) (unixsocket : Option CString) : List CString :=
  [str "ssh", str "-p", decimal (portOr port 22), server, str "nc"] ++
    match unixsocket with
    | some path => [str "-U", path]
    | none => [str "localhost", str "10809"]

/-- The arguments of the connect call, and the tests it makes before it starts. -/
def connectTarget (a : Accepted) : Except UriError Target :=
  match a.scheme.transport with
  | .tcp =>
    if !mem .connect then .error (.failed enomem "strdup")
    else .ok (.tcp (stripBrackets (a.uri.server.getD (str "localhost")))
      (decimal (portOr a.uri.port 10809)))
  | .unixSock =>
    match a.unixsocket with
    | none => .error .nullPointer
    | some path =>
      if path.length > 108 then
        .error (.failed enametoolong ("socket name too long: " ++ showCString path))
      else .ok (.unixSocket path)
  | .vsock =>
    let connect (cid : UInt32) : Except UriError Target :=
      if P.haveVsock then .ok (.vsock cid (UInt32.ofNat (portOr a.uri.port 10809)))
      else .error (.failed enotsup "AF_VSOCK protocol is not supported")
    match a.uri.server with
    | none => connect 2
    | some server =>
      if server = [] then connect 2
      else
        match scanU32 server with
        | some cid => connect cid
        | none =>
          .error (.failed einval ("cannot parse vsock CID from NBD URI: " ++ showCString server))
  | .ssh =>
    match a.uri.server with
    | none => .error (.failed einval "SSH transport requires a server name")
    | some server =>
      if server = [] then .error (.failed einval "SSH transport requires a server name")
      else if !mem .connect then .error (.failed enomem "realloc")
      else .ok (.command (sshCommand server a.uri.port a.unixsocket))

/-- `nbd_unlocked_aio_connect_uri`. -/
def aioConnectUri (h : UriHandle) (rawUri : CString) : UriHandle × Except UriError Target :=
  match checkUri P mem h rawUri with
  | .error e => (h, .error e)
  | .ok a =>
    match applyUri P mem a h with
    | (h, some e) => (h, .error e)
    | (h, none) => (h, connectTarget P mem a)

end

/-! ## The policy -/

def dash : UInt8 := 0x2d

/-- The scheme asks for TLS. -/
def asksTls (scheme : CString) : Bool := (str "nbds").isPrefixOf (scheme.map toLower)

/-- The call does what the settings of the handle allow, whether or not memory is
found, and gives `ssh` no option of the URI's. -/
structure FollowsPolicy (P : Platform) (h : UriHandle) (rawUri : CString) : Prop where
  transport : ∀ mem h' t, aioConnectUri P mem h rawUri = (h', .ok t) →
    h.uriAllowTransports &&& t.transport.flag ≠ 0
  tls : ∀ mem h' t, aioConnectUri P mem h rawUri = (h', .ok t) →
    ∃ uri scheme, P.xmlParseURI rawUri = some uri ∧ uri.scheme = some scheme ∧
      if asksTls scheme then h.uriAllowTls ≠ .disable ∧ h'.tls = .require
      else h.uriAllowTls ≠ .require ∧ h'.tls = h.tls
  localFile : h.uriAllowLocalFile = false → ∀ mem,
    (aioConnectUri P mem h rawUri).1.tlsCertificates = h.tlsCertificates ∧
      (aioConnectUri P mem h rawUri).1.tlsPskFile = h.tlsPskFile
  ssh : ∀ mem h' argv, aioConnectUri P mem h rawUri = (h', .ok (.command argv)) →
    ∃ uri server port rest, P.xmlParseURI rawUri = some uri ∧ uri.server = some server ∧
      argv = [str "ssh", str "-p", port, server, str "nc"] ++ rest ∧
      (∀ c ∈ port, isDigit c = true) ∧ server.head? ≠ some dash

/-- The parameters of a URI. -/
def uriQueries (P : Platform) (uri : XmlUri) : List (CString × CString) :=
  ((parseUriQueries P.unescape (fun _ => true) uri.queryRaw).getD []).map
    fun q => (cstr q.1, cstr q.2)

/-- A parameter is no reason to fail. -/
def paramAccepted (h : UriHandle) (q : CString × CString) : Bool :=
  if strcaseEq q.1 (str "tls-certificates") then h.uriAllowLocalFile
  else if strcaseEq q.1 (str "tls-psk-file") then h.uriAllowLocalFile
  else if strcaseEq q.1 (str "tls-hostname") then true
  else if strcaseEq q.1 (str "tls-verify-peer") then (parseBool q.2).isSome
  else true

/-- The path is an export name. -/
def pathAccepted : Option CString → Bool
  | none => true
  | some path => path.head? == some 0x2f && decide (path.tail.length ≤ nbdMaxString)

/-- An ssh URI in which nothing is wrong. -/
structure ReachesSsh (P : Platform) (h : UriHandle) (rawUri : CString) (uri : XmlUri)
    (name : CString) (s : Scheme) : Prop where
  parsed : P.xmlParseURI rawUri = some uri
  named : uri.scheme = some name
  known : findScheme name = some s
  ssh : s.transport = .ssh
  form : (rawUri.drop name.length).take 3 = str "://"
  transportOk : transportAllowed h .ssh = true
  tlsOk : tlsAllowed h s.tls = true
  gnutls : s.tls = true → P.haveGnutls = true
  params : ∀ q ∈ uriQueries P uri, paramAccepted h q = true
  path : pathAccepted uri.path = true

/-- An ssh URI in which nothing is wrong, with a host that begins with a dash. -/
def OptionHost (P : Platform) (h : UriHandle) (rawUri : CString) : Prop :=
  ∃ uri name s server, ReachesSsh P h rawUri uri name s ∧ uri.server = some server ∧
    server.head? = some dash

/-! ## The checks -/

section

variable {P : Platform} {mem : Allocation → Bool} {h h' : UriHandle} {rawUri : CString}
  {a : Accepted}

/-- What is known when the checks have passed. -/
structure Checked (P : Platform) (h : UriHandle) (rawUri : CString) (a : Accepted)
    (name : CString) : Prop where
  parsed : P.xmlParseURI rawUri = some a.uri
  queries : a.queries = uriQueries P a.uri
  named : a.uri.scheme = some name
  known : findScheme name = some a.scheme
  form : (rawUri.drop name.length).take 3 = str "://"
  transportOk : transportAllowed h a.scheme.transport = true
  tlsOk : tlsAllowed h a.scheme.tls = true
  socket : checkSocket name a.scheme a.unixsocket = none
  unixsocket : a.unixsocket = findSocket a.queries

/-- Queries that were found do not depend on the memory. -/
theorem uriQueries_of_parse {uri : XmlUri} {raw : List (CString × CString)} {m : Nat → Bool}
    (hp : parseUriQueries P.unescape m uri.queryRaw = some raw) :
    uriQueries P uri = raw.map fun q => (cstr q.1, cstr q.2) := by
  unfold uriQueries
  cases hq : uri.queryRaw with
  | none =>
    rw [hq] at hp
    cases hp
    rfl
  | some query =>
    rw [hq] at hp
    rcases @parseFrom_mem P.unescape m 0 0 query with ⟨hn, -⟩ | ⟨l, h₁, h₂⟩
    · rw [parseUriQueries, hn] at hp
      cases hp
    · rw [parseUriQueries, h₁] at hp
      cases hp
      rw [parseUriQueries, h₂]
      rfl

/-- With enough memory the queries are found. -/
theorem parse_full (P : Platform) (uri : XmlUri) :
    ∃ raw, parseUriQueries P.unescape (fun _ => true) uri.queryRaw = some raw := by
  cases uri.queryRaw with
  | none => exact ⟨[], rfl⟩
  | some query =>
    rcases @parseFrom_mem P.unescape (fun _ => true) 0 0 query with ⟨-, i, hi⟩ | ⟨l, hl, -⟩
    · cases hi
    · exact ⟨l, hl⟩

theorem checkUri_ok (hc : checkUri P mem h rawUri = .ok a) : ∃ name, Checked P h rawUri a name := by
  unfold checkUri at hc
  split at hc
  · cases hc
  rename_i uri huri
  split at hc
  · cases hc
  rename_i raw hraw
  dsimp only at hc
  split at hc
  · cases hc
  rename_i name hname
  split at hc
  · cases hc
  rename_i s hs
  split at hc
  · cases hc
  rename_i hform
  split at hc
  · cases hc
  rename_i htransport
  split at hc
  · cases hc
  rename_i htls
  split at hc
  · cases hc
  rename_i hsocket
  cases hc
  exact ⟨name, {
    parsed := huri
    queries := (uriQueries_of_parse hraw).symm
    named := hname
    known := hs
    form := by simpa using hform
    transportOk := by simpa using htransport
    tlsOk := by simpa using htls
    socket := hsocket
    unixsocket := rfl }⟩

theorem Checked.checkUri {name : CString} (hc : Checked P h rawUri a name) :
    checkUri P (fun _ => true) h rawUri = .ok a := by
  obtain ⟨raw, hraw⟩ := parse_full P a.uri
  have hq := hc.queries
  rw [uriQueries_of_parse hraw] at hq
  have hsocket := hc.socket
  rw [hc.unixsocket, hq] at hsocket
  unfold Uri.checkUri
  simp only [hc.parsed, hraw, hc.named, hc.known, hc.form, hc.transportOk, hc.tlsOk, hsocket,
    bne_self_eq_false, Bool.not_true, Bool.false_eq_true, if_false]
  rw [← hq, ← hc.unixsocket]

/-! ## The settings -/

/-- The second setting is made if the first one succeeds. -/
theorem andThen_none {f g : Setting} :
    (f.andThen g h).2 = none ↔ (f h).2 = none ∧ (g (f h).1).2 = none := by
  unfold Setting.andThen
  rcases f h with ⟨h₁, _ | e⟩ <;> simp

theorem andThen_fst {f g : Setting} (hf : (f h).2 = none) : (f.andThen g h).1 = (g (f h).1).1 := by
  unfold Setting.andThen
  rcases hfh : f h with ⟨h₁, _ | e⟩
  · rfl
  · rw [hfh] at hf
    cases hf

/-- What every setting keeps, two settings in a row keep. -/
theorem andThen_rel {R : UriHandle → UriHandle → Prop} (htrans : ∀ a b c, R a b → R b c → R a c)
    {f g : Setting} (hf : ∀ h, R h (f h).1) (hg : ∀ h, R h (g h).1) (h : UriHandle) :
    R h (f.andThen g h).1 := by
  have h₁ := hf h
  unfold Setting.andThen
  rcases hfh : f h with ⟨h', _ | e⟩
  · rw [hfh] at h₁
    exact htrans _ _ _ h₁ (hg h')
  · rwa [hfh] at h₁

/-- The policy of a handle stays, and with it the local files it forbids to name. -/
structure Keeps (h h' : UriHandle) : Prop where
  localFile : h'.uriAllowLocalFile = h.uriAllowLocalFile
  certificates : h.uriAllowLocalFile = false → h'.tlsCertificates = h.tlsCertificates
  pskFile : h.uriAllowLocalFile = false → h'.tlsPskFile = h.tlsPskFile

theorem Keeps.refl (h : UriHandle) : Keeps h h := ⟨rfl, fun _ => rfl, fun _ => rfl⟩

theorem Keeps.trans (a b c : UriHandle) (hab : Keeps a b) (hbc : Keeps b c) : Keeps a c where
  localFile := hbc.localFile.trans hab.localFile
  certificates ha := (hbc.certificates (hab.localFile.trans ha)).trans (hab.certificates ha)
  pskFile ha := (hbc.pskFile (hab.localFile.trans ha)).trans (hab.pskFile ha)

/-- The policy stays, and so does the use of TLS. -/
def KeepsTls (h h' : UriHandle) : Prop := Keeps h h' ∧ h'.tls = h.tls

theorem KeepsTls.refl (h : UriHandle) : KeepsTls h h := ⟨.refl h, rfl⟩

theorem KeepsTls.trans (a b c : UriHandle) (hab : KeepsTls a b) (hbc : KeepsTls b c) :
    KeepsTls a c := ⟨hab.1.trans _ _ _ hbc.1, hbc.2.trans hab.2⟩

theorem setString_keeps {x : Allocation} {set : UriHandle → UriHandle}
    (hset : ∀ h, KeepsTls h (set h)) (h : UriHandle) : KeepsTls h (setString mem x set h).1 := by
  unfold setString
  split
  · exact hset h
  · exact .refl h

theorem setLocalFile_keeps {i : Nat} {name : String} {set : UriHandle → UriHandle}
    (hset : h.uriAllowLocalFile = true → KeepsTls h (set h)) :
    KeepsTls h (setLocalFile mem i name set h).1 := by
  unfold setLocalFile
  split
  · exact .refl h
  · rename_i hallow
    unfold setString
    split
    · exact hset (by simpa using hallow)
    · exact .refl h

theorem applyParam_keeps (mem : Allocation → Bool) (i : Nat) (q : CString × CString)
    (h : UriHandle) : KeepsTls h (applyParam mem i q h).1 := by
  unfold applyParam
  split
  · refine setLocalFile_keeps fun hallow => ⟨⟨rfl, fun hno => ?_, fun _ => rfl⟩, rfl⟩
    rw [hallow] at hno
    cases hno
  split
  · refine setLocalFile_keeps fun hallow => ⟨⟨rfl, fun _ => rfl, fun hno => ?_⟩, rfl⟩
    rw [hallow] at hno
    cases hno
  split
  · refine setString_keeps (fun h => ?_) h
    exact ⟨⟨rfl, fun _ => rfl, fun _ => rfl⟩, rfl⟩
  split
  · split
    · exact ⟨⟨rfl, fun _ => rfl, fun _ => rfl⟩, rfl⟩
    · exact .refl h
  · exact .refl h

theorem applyParams_keeps (mem : Allocation → Bool) (i : Nat) (queries : List (CString × CString))
    (h : UriHandle) : KeepsTls h (applyParams mem i queries h).1 := by
  induction queries generalizing i h with
  | nil => exact .refl h
  | cons q queries ih =>
    exact andThen_rel KeepsTls.trans (applyParam_keeps mem i q) (fun h => ih (i + 1) h) h

theorem setUsername_keeps (mem : Allocation → Bool) (user : Option CString) (h : UriHandle) :
    KeepsTls h (setUsername mem user h).1 := by
  cases user with
  | none => exact .refl h
  | some user =>
    refine setString_keeps (fun h => ?_) h
    exact ⟨⟨rfl, fun _ => rfl, fun _ => rfl⟩, rfl⟩

theorem setExportName_keeps (mem : Allocation → Bool) (name : CString) (h : UriHandle) :
    KeepsTls h (setExportName mem name h).1 := by
  unfold setExportName
  split
  · exact .refl h
  split
  · exact .refl h
  · refine setString_keeps (fun h => ?_) h
    exact ⟨⟨rfl, fun _ => rfl, fun _ => rfl⟩, rfl⟩

theorem setPath_keeps (mem : Allocation → Bool) (path : Option CString) (h : UriHandle) :
    KeepsTls h (setPath mem path h).1 := by
  cases path with
  | none => exact setExportName_keeps mem [] h
  | some path =>
    simp only [setPath]
    split
    · exact .refl h
    · exact setExportName_keeps mem _ h

/-- Everything but `set_tls`. -/
theorem applyRest_keeps (mem : Allocation → Bool) (a : Accepted) (h : UriHandle) :
    KeepsTls h (Setting.andThen (applyParams mem 0 a.queries)
      (Setting.andThen (setUsername mem a.uri.user) (setPath mem a.uri.path)) h).1 :=
  andThen_rel KeepsTls.trans (applyParams_keeps mem 0 a.queries)
    (andThen_rel KeepsTls.trans (setUsername_keeps mem _) (setPath_keeps mem _)) h

theorem setTls_keeps (P : Platform) (tls : Bool) (h : UriHandle) :
    Keeps h ((if tls then setTlsRequire P else fun h => (h, none)) h).1 := by
  cases tls with
  | false => exact .refl h
  | true =>
    simp only [if_true, setTlsRequire]
    split
    · exact ⟨rfl, fun _ => rfl, fun _ => rfl⟩
    · exact .refl h

theorem applyUri_keeps (P : Platform) (mem : Allocation → Bool) (a : Accepted) (h : UriHandle) :
    Keeps h (applyUri P mem a h).1 :=
  andThen_rel Keeps.trans (setTls_keeps P a.scheme.tls) (fun h => (applyRest_keeps mem a h).1) h

/-- TLS is required from now on if the scheme asks for it, and left alone otherwise. -/
theorem applyUri_tls (hok : (applyUri P mem a h).2 = none) :
    (applyUri P mem a h).1.tls = if a.scheme.tls then .require else h.tls := by
  obtain ⟨hfirst, -⟩ := andThen_none.mp hok
  unfold applyUri
  rw [andThen_fst hfirst, (applyRest_keeps mem a _).2]
  cases ht : a.scheme.tls with
  | false => rfl
  | true =>
    rw [ht] at hfirst
    simp only [if_true, setTlsRequire] at hfirst ⊢
    split at hfirst
    · rename_i hg
      rw [if_pos hg]
    · cases hfirst

/-! ## When the settings succeed -/

theorem setString_none {x : Allocation} {set : UriHandle → UriHandle} :
    (setString mem x set h).2 = none ↔ mem x = true := by
  unfold setString
  split <;> simp_all

theorem setLocalFile_none {i : Nat} {name : String} {set : UriHandle → UriHandle} :
    (setLocalFile mem i name set h).2 = none ↔
      h.uriAllowLocalFile = true ∧ mem (.param i) = true := by
  unfold setLocalFile
  split
  · simp_all
  · rw [setString_none]
    simp_all

theorem paramAccepted_of_applyParam {i : Nat} {q : CString × CString}
    (hok : (applyParam mem i q h).2 = none) : paramAccepted h q = true := by
  unfold applyParam at hok
  unfold paramAccepted
  split at hok
  · rw [if_pos (by assumption)]
    exact (setLocalFile_none.mp hok).1
  rw [if_neg (by assumption)]
  split at hok
  · rw [if_pos (by assumption)]
    exact (setLocalFile_none.mp hok).1
  rw [if_neg (by assumption)]
  split at hok
  · rw [if_pos (by assumption)]
  rw [if_neg (by assumption)]
  split at hok
  · rw [if_pos (by assumption)]
    cases hv : parseBool q.2 with
    | none =>
      rw [hv] at hok
      cases hok
    | some v => rfl
  · rw [if_neg (by assumption)]

theorem applyParam_full {i : Nat} {q : CString × CString} (hq : paramAccepted h q = true) :
    (applyParam (fun _ => true) i q h).2 = none := by
  unfold paramAccepted at hq
  unfold applyParam
  split
  · rw [if_pos (by assumption)] at hq
    exact setLocalFile_none.mpr ⟨hq, rfl⟩
  rw [if_neg (by assumption)] at hq
  split
  · rw [if_pos (by assumption)] at hq
    exact setLocalFile_none.mpr ⟨hq, rfl⟩
  rw [if_neg (by assumption)] at hq
  split
  · exact setString_none.mpr rfl
  rw [if_neg (by assumption)] at hq
  split
  · rw [if_pos (by assumption)] at hq
    obtain ⟨v, hv⟩ := Option.isSome_iff_exists.mp hq
    rw [hv]
  · rfl

theorem paramAccepted_congr (hk : Keeps h h') (q : CString × CString) :
    paramAccepted h' q = paramAccepted h q := by
  unfold paramAccepted
  rw [hk.localFile]

theorem paramsAccepted_of_applyParams {i : Nat} {queries : List (CString × CString)}
    (hok : (applyParams mem i queries h).2 = none) : ∀ q ∈ queries, paramAccepted h q = true := by
  induction queries generalizing i h with
  | nil => exact fun q hq => absurd hq List.not_mem_nil
  | cons q queries ih =>
    obtain ⟨hfirst, hrest⟩ := andThen_none.mp hok
    intro q' hq'
    rcases List.mem_cons.mp hq' with rfl | hq'
    · exact paramAccepted_of_applyParam hfirst
    · rw [← paramAccepted_congr (applyParam_keeps mem i q h).1]
      exact ih hrest q' hq'

theorem applyParams_full {i : Nat} {queries : List (CString × CString)}
    (hq : ∀ q ∈ queries, paramAccepted h q = true) :
    (applyParams (fun _ => true) i queries h).2 = none := by
  induction queries generalizing i h with
  | nil => rfl
  | cons q queries ih =>
    refine andThen_none.mpr ⟨applyParam_full (hq q List.mem_cons_self), ih fun q' hq' => ?_⟩
    rw [paramAccepted_congr (applyParam_keeps _ i q h).1]
    exact hq q' (List.mem_cons_of_mem _ hq')

theorem setUsername_full (user : Option CString) :
    (setUsername (fun _ => true) user h).2 = none := by
  cases user with
  | none => rfl
  | some user => exact setString_none.mpr rfl

theorem length_le_of_setExportName {name : CString} (hok : (setExportName mem name h).2 = none) :
    name.length ≤ nbdMaxString := by
  unfold setExportName at hok
  split at hok
  · cases hok
  · omega

theorem setExportName_full {name : CString} (hlen : name.length ≤ nbdMaxString) :
    (setExportName (fun _ => true) name h).2 = none := by
  unfold setExportName
  rw [if_neg (by omega)]
  split
  · rfl
  · exact setString_none.mpr rfl

theorem pathAccepted_of_setPath {path : Option CString} (hok : (setPath mem path h).2 = none) :
    pathAccepted path = true := by
  cases path with
  | none => rfl
  | some path =>
    simp only [setPath] at hok
    split at hok
    · cases hok
    · rename_i hslash
      have hlen := length_le_of_setExportName hok
      simp only [pathAccepted, Bool.and_eq_true, decide_eq_true_eq]
      exact ⟨by simpa using hslash, hlen⟩

theorem setPath_full {path : Option CString} (hp : pathAccepted path = true) :
    (setPath (fun _ => true) path h).2 = none := by
  cases path with
  | none => exact setExportName_full (Nat.zero_le _)
  | some path =>
    simp only [pathAccepted, Bool.and_eq_true, decide_eq_true_eq, beq_iff_eq] at hp
    simp only [setPath, hp.1, bne_self_eq_false, Bool.false_eq_true, if_false]
    exact setExportName_full hp.2

theorem accepted_of_applyUri (hok : (applyUri P mem a h).2 = none) :
    (a.scheme.tls = true → P.haveGnutls = true) ∧
      (∀ q ∈ a.queries, paramAccepted h q = true) ∧ pathAccepted a.uri.path = true := by
  obtain ⟨hfirst, hrest⟩ := andThen_none.mp hok
  obtain ⟨hparams, hrest⟩ := andThen_none.mp hrest
  obtain ⟨-, hpath⟩ := andThen_none.mp hrest
  refine ⟨fun ht => ?_, fun q hq => ?_, pathAccepted_of_setPath hpath⟩
  · rw [ht] at hfirst
    simp only [if_true, setTlsRequire] at hfirst
    split at hfirst
    · assumption
    · cases hfirst
  · rw [← paramAccepted_congr (setTls_keeps P a.scheme.tls h)]
    exact paramsAccepted_of_applyParams hparams q hq

theorem applyUri_full (hg : a.scheme.tls = true → P.haveGnutls = true)
    (hq : ∀ q ∈ a.queries, paramAccepted h q = true) (hp : pathAccepted a.uri.path = true) :
    (applyUri P (fun _ => true) a h).2 = none := by
  refine andThen_none.mpr ⟨?_, andThen_none.mpr ⟨applyParams_full fun q hq' => ?_,
    andThen_none.mpr ⟨setUsername_full _, setPath_full hp⟩⟩⟩
  · cases ht : a.scheme.tls with
    | false => rfl
    | true => simp [setTlsRequire, hg ht]
  · rw [paramAccepted_congr (setTls_keeps P a.scheme.tls h)]
    exact hq q hq'

/-! ## The connect call -/

theorem connectTarget_transport {t : Target} (ht : connectTarget P mem a = .ok t) :
    t.transport = a.scheme.transport := by
  unfold connectTarget at ht
  split at ht
  · rename_i hs
    split at ht
    · cases ht
    · cases ht
      exact hs.symm
  · rename_i hs
    split at ht
    · cases ht
    split at ht
    · cases ht
    · cases ht
      exact hs.symm
  · rename_i hs
    have hconnect : ∀ cid : UInt32, (if P.haveVsock = true then
        (.ok (.vsock cid (UInt32.ofNat (portOr a.uri.port 10809))) : Except UriError Target)
        else .error (.failed enotsup "AF_VSOCK protocol is not supported")) = .ok t →
        t.transport = a.scheme.transport := by
      intro cid hc
      split at hc
      · cases hc
        exact hs.symm
      · cases hc
    dsimp only at ht
    split at ht
    · exact hconnect 2 ht
    split at ht
    · exact hconnect 2 ht
    split at ht
    · exact hconnect _ ht
    · cases ht
  · rename_i hs
    split at ht
    · cases ht
    split at ht
    · cases ht
    split at ht
    · cases ht
    · cases ht
      exact hs.symm

/-- A command is that of the ssh transport, with the host of the URI. -/
theorem connectTarget_command {argv : List CString}
    (ht : connectTarget P mem a = .ok (.command argv)) :
    ∃ server, a.uri.server = some server ∧ argv = sshCommand server a.uri.port a.unixsocket := by
  have hs : Transport.ssh = a.scheme.transport := connectTarget_transport ht
  unfold connectTarget at ht
  simp only [← hs] at ht
  split at ht
  · cases ht
  rename_i server hserver
  split at ht
  · cases ht
  split at ht
  · cases ht
  · cases ht
    exact ⟨server, hserver, rfl⟩

/-- The three parts of a call that starts a connection. -/
theorem aioConnectUri_ok {t : Target} (hr : aioConnectUri P mem h rawUri = (h', .ok t)) :
    ∃ a name, Checked P h rawUri a name ∧ applyUri P mem a h = (h', none) ∧
      connectTarget P mem a = .ok t := by
  unfold aioConnectUri at hr
  split at hr
  · cases hr
  rename_i a ha
  obtain ⟨name, hc⟩ := checkUri_ok ha
  split at hr
  · cases hr
  rename_i h₁ hset
  obtain ⟨rfl, ht⟩ := Prod.mk.inj hr
  exact ⟨a, name, hc, hset, ht⟩

theorem findScheme_tls {name : CString} {s : Scheme} (hs : findScheme name = some s) :
    s.tls = asksTls name := by
  have hfound := List.find?_some hs
  have heq : name.map toLower = s.name.map toLower := eq_of_beq hfound
  have hall : ∀ s ∈ schemes, s.tls = (str "nbds").isPrefixOf (s.name.map toLower) := by decide
  unfold asksTls
  rw [heq]
  exact hall s (List.mem_of_find?_eq_some hs)

theorem localFile_kept (P : Platform) (mem : Allocation → Bool) (h : UriHandle)
    (rawUri : CString) : Keeps h (aioConnectUri P mem h rawUri).1 := by
  unfold aioConnectUri
  split
  · exact .refl h
  · rename_i a ha
    have hk := applyUri_keeps P mem a h
    split <;> simp_all

theorem transport_permitted {t : Target} (hr : aioConnectUri P mem h rawUri = (h', .ok t)) :
    h.uriAllowTransports &&& t.transport.flag ≠ 0 := by
  obtain ⟨a, name, hc, -, ht⟩ := aioConnectUri_ok hr
  rw [connectTarget_transport ht]
  exact bne_iff_ne.mp hc.transportOk

theorem tls_permitted {t : Target} (hr : aioConnectUri P mem h rawUri = (h', .ok t)) :
    ∃ uri scheme, P.xmlParseURI rawUri = some uri ∧ uri.scheme = some scheme ∧
      if asksTls scheme then h.uriAllowTls ≠ .disable ∧ h'.tls = .require
      else h.uriAllowTls ≠ .require ∧ h'.tls = h.tls := by
  obtain ⟨a, name, hc, hset, -⟩ := aioConnectUri_ok hr
  have htls := applyUri_tls (congrArg Prod.snd hset)
  rw [hset] at htls
  have hok := hc.tlsOk
  refine ⟨a.uri, name, hc.parsed, hc.named, ?_⟩
  rw [← findScheme_tls hc.known]
  unfold tlsAllowed at hok
  cases ht : a.scheme.tls with
  | false =>
    rw [ht] at hok htls
    exact ⟨by simpa using hok, htls⟩
  | true =>
    rw [ht] at hok htls
    exact ⟨by simpa using hok, htls⟩

/-- Nothing but the host of the URI decides which operand `ssh` takes. -/
theorem ssh_host {argv : List CString}
    (hr : aioConnectUri P mem h rawUri = (h', .ok (.command argv))) :
    ∃ uri name s server port rest, ReachesSsh P h rawUri uri name s ∧ uri.server = some server ∧
      argv = [str "ssh", str "-p", port, server, str "nc"] ++ rest ∧
      ∀ c ∈ port, isDigit c = true := by
  obtain ⟨a, name, hc, hset, ht⟩ := aioConnectUri_ok hr
  obtain ⟨server, hserver, hargv⟩ := connectTarget_command ht
  obtain ⟨hg, hparams, hpath⟩ := accepted_of_applyUri (congrArg Prod.snd hset)
  have hssh : Transport.ssh = a.scheme.transport := connectTarget_transport ht
  refine ⟨a.uri, name, a.scheme, server, _, _, ?_, hserver, hargv, fun c hc =>
    isDigit_of_mem_decimal hc⟩
  exact {
    parsed := hc.parsed
    named := hc.named
    known := hc.known
    ssh := hssh.symm
    form := hc.form
    transportOk := hssh ▸ hc.transportOk
    tlsOk := hc.tlsOk
    gnutls := hg
    params := hc.queries ▸ hparams
    path := hpath }

/-- With enough memory an ssh URI in which nothing is wrong starts `ssh`. -/
theorem ReachesSsh.starts {uri : XmlUri} {name : CString} {s : Scheme} {server : CString}
    (hr : ReachesSsh P h rawUri uri name s) (hserver : uri.server = some server)
    (hne : server ≠ []) :
    ∃ h' socket, aioConnectUri P (fun _ => true) h rawUri =
      (h', .ok (.command (sshCommand server uri.port socket))) := by
  have hparam : s.socketParam = .optional := by
    have hall : ∀ s ∈ schemes, s.transport = .ssh → s.socketParam = .optional := by decide
    exact hall s (List.mem_of_find?_eq_some hr.known) hr.ssh
  have hc : Checked P h rawUri
      ⟨uri, s, uriQueries P uri, findSocket (uriQueries P uri)⟩ name := {
    parsed := hr.parsed
    queries := rfl
    named := hr.named
    known := hr.known
    form := hr.form
    transportOk := by rw [hr.ssh]; exact hr.transportOk
    tlsOk := hr.tlsOk
    socket := by simp [checkSocket, hparam]
    unixsocket := rfl }
  have hset := applyUri_full (a := ⟨uri, s, uriQueries P uri, findSocket (uriQueries P uri)⟩)
    hr.gnutls hr.params hr.path
  obtain ⟨h', hh'⟩ : ∃ h', applyUri P (fun _ => true)
      ⟨uri, s, uriQueries P uri, findSocket (uriQueries P uri)⟩ h = (h', none) :=
    ⟨_, Prod.ext rfl hset⟩
  refine ⟨h', findSocket (uriQueries P uri), ?_⟩
  unfold aioConnectUri
  simp only [hc.checkUri, hh', connectTarget, hr.ssh, hserver, hne, if_false, Bool.not_true,
    Bool.false_eq_true]

end

/-- **The policy for URIs is followed** exactly unless the URI is an ssh URI in which
nothing is wrong, with a host that begins with a dash. -/
theorem uri_policy_iff (P : Platform) (h : UriHandle) (rawUri : CString) :
    FollowsPolicy P h rawUri ↔ ¬ OptionHost P h rawUri := by
  constructor
  · rintro hp ⟨uri, name, s, server, hr, hserver, hdash⟩
    have hne : server ≠ [] := by
      rintro rfl
      cases hdash
    obtain ⟨h', socket, hrun⟩ := hr.starts hserver hne
    obtain ⟨uri', server', port, rest, huri', hserver', hargv, -, hnodash⟩ := hp.ssh _ _ _ hrun
    rw [hr.parsed] at huri'
    cases huri'
    rw [hserver] at hserver'
    cases hserver'
    exact hnodash hdash
  · intro hno
    exact {
      transport := fun mem h' t => transport_permitted
      tls := fun mem h' t => tls_permitted
      localFile := fun hl mem =>
        ⟨(localFile_kept P mem h rawUri).certificates hl, (localFile_kept P mem h rawUri).pskFile hl⟩
      ssh := by
        intro mem h' argv hrun
        obtain ⟨uri, name, s, server, port, rest, hr, hserver, hargv, hport⟩ := ssh_host hrun
        exact ⟨uri, server, port, rest, hr.parsed, hserver, hargv, hport,
          fun hdash => hno ⟨uri, name, s, server, hr, hserver, hdash⟩⟩ }

/-- A new handle: every transport, TLS as the URI asks for it, no local files. -/
def newHandle : UriHandle :=
  { uriAllowTransports := 0x0f, uriAllowTls := .allow, uriAllowLocalFile := false
    tls := .disable, tlsCertificates := none, tlsPskFile := none, tlsHostname := none
    tlsUsername := none, tlsVerifyPeer := true, exportName := [] }

/-- A host that makes `ssh` run a command of the URI's. -/
def proxyUri : XmlUri :=
  { scheme := some (str "nbd+ssh"), server := some (str "-oProxyCommand=reboot")
    port := 0, user := none, path := some (str "/"), queryRaw := none }

/-- libxml2, as far as one URI is concerned. -/
def proxyPlatform : Platform where
  xmlParseURI s :=
    if s = str "nbd+ssh://-oProxyCommand=reboot/" then some proxyUri else none
  unescape := percentDecode
  haveGnutls := true
  haveVsock := true

theorem ssh_option_from_uri :
    (aioConnectUri proxyPlatform (fun _ => true) newHandle
        (str "nbd+ssh://-oProxyCommand=reboot/")).2 =
      .ok (.command [str "ssh", str "-p", str "22", str "-oProxyCommand=reboot", str "nc",
        str "localhost", str "10809"]) ∧
    ¬ FollowsPolicy proxyPlatform newHandle (str "nbd+ssh://-oProxyCommand=reboot/") := by
  have hrun : (aioConnectUri proxyPlatform (fun _ => true) newHandle
      (str "nbd+ssh://-oProxyCommand=reboot/")) =
      (newHandle, .ok (.command [str "ssh", str "-p", str "22", str "-oProxyCommand=reboot",
        str "nc", str "localhost", str "10809"])) := by decide +kernel
  refine ⟨by rw [hrun], fun hp => ?_⟩
  obtain ⟨uri, server, port, rest, huri, hserver, -, -, hnodash⟩ := hp.ssh _ _ _ hrun
  cases huri
  cases hserver
  exact hnodash (by decide)

end Libnbd.Uri
