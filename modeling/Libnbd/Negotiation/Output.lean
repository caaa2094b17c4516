import Libnbd.Negotiation.Effect
import Libnbd.Lib.Parse

/-!
What the client sends during the handshake.

`OptRequest` is an option request as the protocol defines it, `encode` its bytes
and `parseRequest` the grammar that gives it back. `asked` records the requests
that a run starts: the calls for metadata contexts with the queries they were
given, every other option where its sub-machine starts. `Output` relates the bytes
handed to the socket to that record: what was sent, followed by what the current
state and its successors have yet to send (`pending`), is the client flags
followed by the encoded requests.
-/

namespace Libnbd.Negotiation

open Lib Lib.Parser

/-! ## Requests -/

inductive OptRequest where
  | exportName (name : CString)
  | abort | list | starttls | structuredReply | extendedHeaders
  | info (go : Bool) (name : CString) (infos : List UInt16)
  | metaContext (set : Bool) (name : CString) (queries : List CString)
  deriving DecidableEq, Repr

/-- A string with its length in front. -/
def counted (s : CString) : List UInt8 := toBE 4 s.length ++ s

namespace OptRequest

def opt : OptRequest → Opt
  | exportName _ => .exportName
  | abort => .abort
  | list => .list
  | starttls => .starttls
  | structuredReply => .structuredReply
  | extendedHeaders => .extendedHeaders
  | info go _ _ => if go then .go else .info
  | metaContext set _ _ => if set then .setMetaContext else .listMetaContext

/-- The data that follows the header. -/
def data : OptRequest → List UInt8
  | exportName name => name
  | info _ name infos =>
    counted name ++ (toBE 2 infos.length ++ infos.flatMap fun i => toBE 2 i.toNat)
  | metaContext _ name queries =>
    counted name ++ (toBE 4 queries.length ++ queries.flatMap counted)
  | _ => []

def encode (r : OptRequest) : List UInt8 := optionHeader r.opt r.data.length ++ r.data

end OptRequest

/-! ## The grammar -/

def parseCounted : Parser CString := do
  let n ← number 4
  bytes n

def parseInfos : Parser (CString × List UInt16) := do
  let name ← parseCounted
  let n ← number 2
  let infos ← times (do let i ← number 2; pure (UInt16.ofNat i)) n
  pure (name, infos)

def parseQueries : Parser (CString × List CString) := do
  let name ← parseCounted
  let n ← number 4
  let queries ← times parseCounted n
  pure (name, queries)

/-- The data of the option with the given code. -/
def parseData (code : Nat) (data : List UInt8) : Option OptRequest :=
  match code with
  | 1 => some (.exportName data)
  | 2 => if data = [] then some .abort else none
  | 3 => if data = [] then some .list else none
  | 5 => if data = [] then some .starttls else none
  | 6 => (parseInfos.whole data).map fun r => .info false r.1 r.2
  | 7 => (parseInfos.whole data).map fun r => .info true r.1 r.2
  | 8 => if data = [] then some .structuredReply else none
  | 9 => (parseQueries.whole data).map fun r => .metaContext false r.1 r.2
  | 10 => (parseQueries.whole data).map fun r => .metaContext true r.1 r.2
  | 11 => if data = [] then some .extendedHeaders else none
  | _ => none

/-- A header and as many bytes as it announces. -/
def parseRequest : Parser OptRequest := do
  let version ← number 8
  let code ← number 4
  let optlen ← number 4
  let data ← bytes optlen
  if version = nbdNewVersion.toNat then StateT.lift (parseData code data) else failure

/-- Requests until nothing is left. -/
def parseRequests (bs : List UInt8) : Option (List OptRequest) := parseList parseRequest bs.length bs

theorem reads_counted {s : CString} (h : s.length < 2 ^ 32) : Reads parseCounted (counted s) s :=
  (reads_number 4 (by omega)).bind (reads_bytes s)

theorem reads_infos {name : CString} {infos : List UInt16} (hn : name.length < 2 ^ 32)
    (hi : infos.length < 2 ^ 16) :
    Reads parseInfos (counted name ++ (toBE 2 infos.length ++ infos.flatMap fun i => toBE 2 i.toNat))
      (name, infos) := by
  have hinfo : ∀ i ∈ infos, Reads (do let i ← number 2; pure (UInt16.ofNat i)) (toBE 2 i.toNat) i := by
    intro i _
    have := (reads_number 2 (n := i.toNat) i.toNat_lt).bind
      (f := fun i => pure (UInt16.ofNat i)) (.pure _)
    simpa using this
  refine (reads_counted hn).bind ((reads_number 2 (by omega)).bind ?_)
  have := (reads_times infos hinfo).bind (f := fun infos => pure (name, infos)) (.pure _)
  rwa [List.append_nil] at this

theorem reads_queries {name : CString} {queries : List CString} (hn : name.length < 2 ^ 32)
    (hl : queries.length < 2 ^ 32) (hq : ∀ q ∈ queries, q.length < 2 ^ 32) :
    Reads parseQueries (counted name ++ (toBE 4 queries.length ++ queries.flatMap counted))
      (name, queries) := by
  refine (reads_counted hn).bind ((reads_number 4 (by omega)).bind ?_)
  have := (reads_times queries fun q hm => reads_counted (hq q hm)).bind
    (f := fun queries => pure (name, queries)) (.pure _)
  rwa [List.append_nil] at this

theorem length_flatMap_counted (queries : List CString) :
    queries.length ≤ (queries.flatMap counted).length ∧
      ∀ q ∈ queries, q.length ≤ (queries.flatMap counted).length := by
  induction queries with
  | nil => exact ⟨Nat.le_refl _, fun _ h => absurd h List.not_mem_nil⟩
  | cons q queries ih =>
    simp only [List.flatMap_cons, List.length_append, List.length_cons, counted, length_toBE]
    refine ⟨by omega, fun r hr => ?_⟩
    rcases List.mem_cons.mp hr with rfl | hr
    · omega
    · have := ih.2 r hr
      omega

/-- The data of a request is parsed back. -/
theorem parseData_data {r : OptRequest} (h : r.data.length < 2 ^ 32)
    (hi : ∀ go name infos, r = .info go name infos → infos.length < 2 ^ 16) :
    parseData r.opt.code.toNat r.data = some r := by
  cases r with
  | info go name infos =>
    have hlen := hi go name infos rfl
    have hn : name.length < 2 ^ 32 := by
      simp only [OptRequest.data, counted, List.length_append, length_toBE] at h
      omega
    have := (reads_infos hn hlen).whole
    cases go <;> simp [parseData, OptRequest.opt, OptRequest.data, Opt.code, this]
  | metaContext set name queries =>
    simp only [OptRequest.data, counted, List.length_append, length_toBE] at h
    have hq := length_flatMap_counted queries
    have hread : Reads parseQueries _ (name, queries) :=
      reads_queries (by omega) (by omega) fun q hm => by have := hq.2 q hm; omega
    cases set <;> simp [parseData, OptRequest.opt, OptRequest.data, Opt.code, hread.whole]
  | _ => rfl

theorem reads_request {r : OptRequest} (h : r.data.length < 2 ^ 32)
    (hi : ∀ go name infos, r = .info go name infos → infos.length < 2 ^ 16) :
    Reads parseRequest r.encode r := by
  have hcode : r.opt.code.toNat < 256 ^ 4 := UInt32.toNat_lt _
  unfold parseRequest OptRequest.encode optionHeader
  simp only [List.append_assoc]
  refine (reads_number 8 (by decide)).bind ((reads_number 4 hcode).bind
    ((reads_number 4 (by omega)).bind ?_))
  have hlift : Reads (if nbdNewVersion.toNat = nbdNewVersion.toNat then
      StateT.lift (parseData r.opt.code.toNat r.data) else failure) [] r := by
    intro rest
    rw [if_pos rfl, parseData_data h hi]
    rfl
  have := (reads_bytes r.data).bind (f := fun data => if nbdNewVersion.toNat = nbdNewVersion.toNat
    then StateT.lift (parseData r.opt.code.toNat data) else failure) hlift
  rwa [List.append_nil] at this

theorem parseRequests_encode {rs : List OptRequest} (h : ∀ r ∈ rs, r.data.length < 2 ^ 32)
    (hi : ∀ go name infos, .info go name infos ∈ rs → infos.length < 2 ^ 16) :
    parseRequests (rs.flatMap OptRequest.encode) = some rs := by
  have hne : ∀ r : OptRequest, r.encode ≠ [] := by
    intro r
    have : 0 < r.encode.length := by simp [OptRequest.encode, optionHeader]
    exact List.ne_nil_of_length_pos this
  have hlen : rs.length ≤ (rs.flatMap OptRequest.encode).length := by
    induction rs with
    | nil => exact Nat.le_refl _
    | cons r rs ih =>
      have hr := List.length_pos_of_ne_nil (hne r)
      have := ih (fun r hr => h r (List.mem_cons_of_mem _ hr))
        fun go name infos hm => hi go name infos (List.mem_cons_of_mem _ hm)
      simp only [List.flatMap_cons, List.length_append, List.length_cons]
      omega
  exact parseList_reads rs (fun r hr => reads_request (h r hr) fun go name infos he =>
    hi go name infos (he ▸ hr)) (fun r _ => hne r) hlen

/-! ## The requests of a run -/

namespace Handle

/-- The option is LIST or SET_META_CONTEXT with the queries of a call. -/
def hasQueries (h : Handle) : Bool :=
  h.optCurrent == some .listMetaContext || h.optCurrent == some .setMetaContext

/-- The request for metadata contexts that a call has prepared. -/
def queried (h : Handle) : OptRequest :=
  .metaContext (h.optCurrent != some .listMetaContext) h.cfg.exportName h.querylist

/-- The request that the current state starts and the state that begins to send
it, unless a call has recorded it already. -/
def starts (h : Handle) : Option (State × OptRequest) :=
  match h.state with
  | .optStart .starttls => some (.optSend .starttls, .starttls)
  | .optStart .extendedHeaders => some (.optSend .extendedHeaders, .extendedHeaders)
  | .optStart .structuredReply => some (.optSend .structuredReply, .structuredReply)
  | .optStart .list => some (.optSend .list, .list)
  | .optStart .metaContext =>
    if h.hasQueries then none
    else some (.optSend .metaContext, .metaContext true h.cfg.exportName h.cfg.requestMetaContexts)
  | .optStart .go =>
    some (.optSend .go, .info (h.optCurrent != some .info) h.cfg.exportName h.infos)
  | .newstylePrepareOptAbort => some (.newstyleSendOptAbort, .abort)
  | .exportNameStart => some (.exportNameSend, .exportName h.cfg.exportName)
  | _ => none

/-- The request that is started if the next state is `s`. -/
def starting (h : Handle) (s : State) : List OptRequest :=
  match h.starts with
  | some (s', r) => if s = s' then [r] else []
  | none => []

end Handle

/-- The request for metadata contexts that a call makes. -/
def Handle.queriesOf (h : Handle) : Api → List OptRequest
  | .aioOptListMetaContext queries _ _ =>
    [.metaContext false h.cfg.exportName (queries.getD h.cfg.requestMetaContexts)]
  | .aioOptSetMetaContext queries _ _ =>
    [.metaContext true h.cfg.exportName (queries.getD h.cfg.requestMetaContexts)]
  | _ => []

/-- The requests that one step of the system starts. -/
def asked (c : Config) (l : Label) : List OptRequest :=
  match machine.step c l with
  | none => []
  | some c' =>
    match l, c'.ctl with
    | .enter _, _ => c.h.starting c'.h.state
    | .call api _, .running _ => c.h.queriesOf api
    | .call _ _, _ => []

/-! ## What was sent -/

/-- The states that call `send_from_wbuf`. -/
def State.usesWbuf : State → Bool
  | newstyleSendCflags | newstyleSendOptAbort | optSend _ | metaSendExportnamelen
  | metaSendExportname | metaSendNrqueries | metaSendQuerylen | metaSendQuery
  | goSendExportnamelen | goSendExport | goSendNrinfos | goSendInfo | exportNameSend
  | exportNameSendExport => true
  | _ => false

namespace Handle

/-- The queries from number `i` on, encoded. -/
def queriesFrom (h : Handle) (i : Nat) : List UInt8 := (h.querylist.drop i).flatMap counted

/-- The infos, encoded. -/
def infoBytes (h : Handle) : List UInt8 := h.infos.flatMap fun i => toBE 2 i.toNat

/-- What the states after the current one have yet to send. -/
def later (h : Handle) : List UInt8 :=
  match h.state with
  | .newstyleStart | .optStart .metaContext => if h.hasQueries then h.queried.encode else []
  | .optSend .metaContext =>
    counted h.cfg.exportName ++ (toBE 4 h.querylist.length ++ h.queriesFrom 0)
  | .metaSendExportnamelen => h.cfg.exportName ++ (toBE 4 h.querylist.length ++ h.queriesFrom 0)
  | .metaSendExportname => toBE 4 h.querylist.length ++ h.queriesFrom 0
  | .metaSendNrqueries => h.queriesFrom 0
  | .metaPrepareNextQuery => h.queriesFrom h.querynum
  | .metaSendQuerylen => (h.querylist[h.querynum]?).getD [] ++ h.queriesFrom (h.querynum + 1)
  | .metaSendQuery => h.queriesFrom (h.querynum + 1)
  | .optSend .go => counted h.cfg.exportName ++ (toBE 2 h.infos.length ++ h.infoBytes)
  | .goSendExportnamelen => h.cfg.exportName ++ (toBE 2 h.infos.length ++ h.infoBytes)
  | .goSendExport => toBE 2 h.infos.length ++ h.infoBytes
  | .goSendNrinfos => h.infoBytes
  | .exportNameSend => h.cfg.exportName
  | _ => []

/-- What the current state and its successors have yet to send. -/
def pending (h : Handle) : List UInt8 := (if h.state.usesWbuf then h.wbuf else []) ++ h.later

/-- The client flags and the requests. -/
def stream (h : Handle) (rs : List OptRequest) : List UInt8 :=
  toBE 4 h.gflags.toNat ++ rs.flatMap OptRequest.encode

end Handle

/-- How what was sent relates to the requests `rs` started so far. -/
def Output (rs : List OptRequest) (h : Handle) : Prop :=
  match h.state with
  | .dead | .closed => h.sent <+: h.stream rs
  | .ready => h.sent = [] ∧ rs = [] ∨ h.sent = h.stream rs
  | .newstyleStart =>
    if h.optCurrent = none then h.sent = [] ∧ rs = [] else h.sent ++ h.pending = h.stream rs
  | s => if s.isFresh then h.sent = [] ∧ rs = [] else h.sent ++ h.pending = h.stream rs

/-! ## Steps -/

section

variable {inp : Input} {h : Handle} {rs : List OptRequest}

/-- Every outcome leaves `Output rs` behind. -/
def Outcome.Outputs (rs : List OptRequest) (o : Outcome) : Prop :=
  o.All (fun _ => True) (Output rs) (Output rs)

theorem output_dead (hp : h.sent <+: h.stream rs) (e : UInt32) (t : String) :
    Output rs { h with lastError := some (e, t), state := .dead } := hp

theorem output_usesWbuf (hw : h.state.usesWbuf = true) :
    Output rs h ↔ h.sent ++ (h.wbuf ++ h.later) = h.stream rs := by
  have hp : h.pending = h.wbuf ++ h.later := by rw [Handle.pending, if_pos hw]
  rw [← hp]
  unfold Output
  cases hs : h.state <;> simp_all [State.usesWbuf, State.isFresh]

theorem recv_output {k : Handle → Outcome} (hp : h.sent <+: h.stream rs)
    (hmore : ∀ bs, Output rs (h.store bs)) (hdone : ∀ bs, (k (h.store bs)).Outputs rs) :
    (recvThen inp k h).Outputs rs :=
  recvThen_all (output_dead hp) (fun bs _ => hmore bs) fun bs _ => hdone bs

theorem send_output {k : Handle → Outcome} (hw : h.state.usesWbuf = true) (ho : Output rs h)
    (hk : ∀ n, h.sent ++ h.wbuf.take n ++ h.later = h.stream rs →
      (k { h.advance n with wflags := false }).Outputs rs) : (sendThen inp k h).Outputs rs := by
  have ho' := (output_usesWbuf hw).mp ho
  refine sendThen_all (output_dead ?_) (fun n => ?_) fun n hn => hk n ?_
  · rw [← ho']
    exact List.prefix_append _ _
  · refine (output_usesWbuf (h := h.advance n) hw).mpr ?_
    change h.sent ++ h.wbuf.take n ++ (h.wbuf.drop n ++ h.later) = h.stream rs
    rw [List.append_assoc, ← List.append_assoc (h.wbuf.take n), List.take_append_drop]
    exact ho'
  · rw [List.take_of_length_le hn, List.append_assoc]
    exact ho'

/-! ### Sending states -/

/-- The sub-machine of one option goes on to send what comes next. -/
theorem output_next {s : State} (hw : s.usesWbuf = true)
    (ho : h.sent ++ (h.wbuf ++ { h with state := s }.later) = h.stream rs) :
    (goto s h).Outputs rs := (output_usesWbuf (h := { h with state := s }) hw).mpr ho

theorem awaitReply_output {g : OptGroup} (ho : h.sent = h.stream rs) :
    (awaitReply g h).Outputs rs := by
  change h.sent ++ [] = _
  rw [List.append_nil, ho]
  rfl

theorem enterOptSend_output {g : OptGroup} (hs : h.state = .optSend g) (hg : g ≠ .metaContext)
    (hg' : g ≠ .go) (ho : Output rs h) : (enterOptSend inp g h).Outputs rs := by
  refine send_output (by rw [hs]; rfl) ho fun n hn => awaitReply_output ?_
  have hl : h.later = [] := by cases g <;> simp_all [Handle.later]
  rwa [hl, List.append_nil] at hn

theorem enterMetaContextSend_output (hs : h.state = .optSend .metaContext) (ho : Output rs h) :
    (enterMetaContextSend inp h).Outputs rs := by
  refine send_output (by rw [hs]; rfl) ho fun n hn => output_next rfl ?_
  simpa [Handle.stream, Handle.later, hs, counted, Handle.queriesFrom] using hn

theorem enterMetaSendExportnamelen_output (hs : h.state = .metaSendExportnamelen)
    (ho : Output rs h) : (enterMetaSendExportnamelen inp h).Outputs rs := by
  refine send_output (by rw [hs]; rfl) ho fun n hn => output_next rfl ?_
  simpa [Handle.stream, Handle.later, hs, Handle.queriesFrom] using hn

theorem enterMetaSendExportname_output (hs : h.state = .metaSendExportname) (ho : Output rs h) :
    (enterMetaSendExportname inp h).Outputs rs := by
  refine send_output (by rw [hs]; rfl) ho fun n hn => output_next rfl ?_
  simpa [Handle.stream, Handle.later, hs, Handle.queriesFrom] using hn

theorem enterMetaSendNrqueries_output (hs : h.state = .metaSendNrqueries) (ho : Output rs h) :
    (enterMetaSendNrqueries inp h).Outputs rs := by
  refine send_output (by rw [hs]; rfl) ho fun n hn => ?_
  rw [Handle.later, hs] at hn
  exact hn

theorem enterMetaPrepareNextQuery_output (hs : h.state = .metaPrepareNextQuery)
    (ho : Output rs h) : (enterMetaPrepareNextQuery h).Outputs rs := by
  have ho' : h.sent ++ h.queriesFrom h.querynum = h.stream rs := by
    simpa [Output, hs, State.isFresh, Handle.pending, State.usesWbuf, Handle.later] using ho
  unfold enterMetaPrepareNextQuery
  split
  · rename_i hq
    have hnil : h.queriesFrom h.querynum = [] := by
      rw [Handle.queriesFrom, List.drop_eq_nil_of_le (List.getElem?_eq_none_iff.mp hq)]
      rfl
    rw [hnil] at ho'
    exact ho'
  · rename_i query hq
    obtain ⟨hlt, hget⟩ := List.getElem?_eq_some_iff.mp hq
    refine output_next rfl ?_
    rw [Handle.queriesFrom, List.drop_eq_getElem_cons hlt, hget] at ho'
    simpa [Handle.stream, Handle.later, hq, Handle.queriesFrom, counted] using ho'

theorem enterMetaSendQuerylen_output (hs : h.state = .metaSendQuerylen) (ho : Output rs h) :
    (enterMetaSendQuerylen inp h).Outputs rs := by
  refine send_output (by rw [hs]; rfl) ho fun n hn => output_next rfl ?_
  simpa [Handle.stream, Handle.later, hs, Handle.queriesFrom] using hn

theorem enterMetaSendQuery_output (hs : h.state = .metaSendQuery) (ho : Output rs h) :
    (enterMetaSendQuery inp h).Outputs rs := by
  refine send_output (by rw [hs]; rfl) ho fun n hn => ?_
  rw [Handle.later, hs] at hn
  exact hn

theorem enterMetaPrepareForReply_output (hs : h.state = .metaPrepareForReply) (ho : Output rs h) :
    (enterMetaPrepareForReply h).Outputs rs := by
  refine awaitReply_output ?_
  simpa [Output, hs, State.isFresh, Handle.pending, State.usesWbuf, Handle.later] using ho

theorem enterGoSend_output (hs : h.state = .optSend .go) (ho : Output rs h) :
    (enterGoSend inp h).Outputs rs := by
  refine send_output (by rw [hs]; rfl) ho fun n hn => output_next rfl ?_
  simpa [Handle.stream, Handle.later, hs, counted, Handle.infoBytes, Handle.infos] using hn

theorem enterGoSendExportnamelen_output (hs : h.state = .goSendExportnamelen)
    (ho : Output rs h) : (enterGoSendExportnamelen inp h).Outputs rs := by
  refine send_output (by rw [hs]; rfl) ho fun n hn => output_next rfl ?_
  simpa [Handle.stream, Handle.later, hs, Handle.infoBytes, Handle.infos] using hn

theorem enterGoSendExport_output (hs : h.state = .goSendExport) (ho : Output rs h) :
    (enterGoSendExport inp h).Outputs rs := by
  refine send_output (by rw [hs]; rfl) ho fun n hn => output_next rfl ?_
  rw [Handle.later, hs, Handle.length_infos] at hn
  simpa [Handle.stream, Handle.later, Handle.infoBytes, Handle.infos, Handle.nrinfos] using hn

theorem enterGoSendNrinfos_output (hs : h.state = .goSendNrinfos) (ho : Output rs h) :
    (enterGoSendNrinfos inp h).Outputs rs := by
  refine send_output (by rw [hs]; rfl) ho fun n hn => output_next rfl ?_
  simpa [Handle.stream, Handle.later, hs, Handle.infoBytes, Handle.infos] using hn

theorem enterGoSendInfo_output (hs : h.state = .goSendInfo) (ho : Output rs h) :
    (enterGoSendInfo inp h).Outputs rs := by
  refine send_output (by rw [hs]; rfl) ho fun n hn => awaitReply_output ?_
  rwa [Handle.later, hs, List.append_nil] at hn

theorem enterExportNameSend_output (hs : h.state = .exportNameSend) (ho : Output rs h) :
    (enterExportNameSend inp h).Outputs rs := by
  refine send_output (by rw [hs]; rfl) ho fun n hn => output_next rfl ?_
  simpa [Handle.stream, Handle.later, hs] using hn

theorem enterExportNameSendExport_output (hs : h.state = .exportNameSendExport)
    (ho : Output rs h) : (enterExportNameSendExport inp h).Outputs rs := by
  refine send_output (by rw [hs]; rfl) ho fun n hn => ?_
  rw [Handle.later, hs] at hn
  exact hn

theorem enterNewstyleSendOptAbort_output (hs : h.state = .newstyleSendOptAbort)
    (ho : Output rs h) : (enterNewstyleSendOptAbort inp h).Outputs rs := by
  refine send_output (by rw [hs]; rfl) ho fun n hn => ?_
  rw [Handle.later, hs] at hn
  exact hn

theorem enterNewstyleSendCflags_output (hs : h.state = .newstyleSendCflags) (ho : Output rs h) :
    (enterNewstyleSendCflags inp h).Outputs rs := by
  refine send_output (by rw [hs]; rfl) ho fun n hn => ?_
  rw [Handle.later, hs] at hn
  exact ite_all.mpr ⟨fun _ => hn, fun _ => ite_all.mpr ⟨fun _ => hn, fun _ => hn⟩⟩

/-! ### States with nothing to send -/

/-- The states in which everything was sent, wherever they are reached from. -/
def State.isSettled (s : State) : Bool :=
  match s with
  | optStart .metaContext | newstyleStart | metaPrepareNextQuery => false
  | _ => !s.usesWbuf && !s.isFresh

theorem State.settled_spec {s : State} (hs : s.isSettled = true) :
    s.usesWbuf = false ∧ s.isFresh = false := by
  cases s <;> simp_all [isSettled, usesWbuf, isFresh]

theorem Handle.later_settled (hs : h.state.isSettled = true) : h.later = [] := by
  unfold Handle.later
  cases hst : h.state <;> simp_all [State.isSettled, State.usesWbuf, State.isFresh]
  rename_i g
  cases g <;> simp_all

theorem output_settled (hs : h.state.isSettled = true) (ho : h.sent = h.stream rs) :
    Output rs h := by
  have hpend : h.pending = [] := by
    rw [Handle.pending, h.later_settled hs, (State.settled_spec hs).1]
    rfl
  have hsil := (State.settled_spec hs).2
  have happ : h.sent ++ h.pending = h.stream rs := by rw [hpend, List.append_nil, ho]
  unfold Output
  split
  · exact ho ▸ List.prefix_refl _
  · exact ho ▸ List.prefix_refl _
  · exact .inr ho
  · simp_all [State.isSettled]
  · rw [if_neg (by simp [hsil])]
    exact happ

theorem settled_output {s : State} (hs : h.state = s) (hset : s.isSettled = true)
    (h₁ : s ≠ .dead) (h₂ : s ≠ .closed) (h₃ : s ≠ .ready) (ho : Output rs h) :
    h.sent = h.stream rs := by
  subst hs
  have hsil := (State.settled_spec hset).2
  have hpend : h.pending = [] := by
    rw [Handle.pending, h.later_settled hset, (State.settled_spec hset).1]
    rfl
  unfold Output at ho
  split at ho
  · exact absurd ‹_› h₁
  · exact absurd ‹_› h₂
  · exact absurd ‹_› h₃
  · simp_all [State.isSettled]
  · rwa [if_neg (by simp [hsil]), hpend, List.append_nil] at ho

theorem goto_output {s : State} (hset : s.isSettled = true) (ho : h.sent = h.stream rs) :
    (goto s h).Outputs rs := output_settled (h := { h with state := s }) hset ho

theorem die_output {e : UInt32} {t : String} (ho : h.sent = h.stream rs) :
    (die e t h).Outputs rs := goto_output (h := h.setError e t) rfl ho

/-- A state that receives the rest of a reply and then goes on. -/
theorem recvSettled_output {k : Handle → Outcome} (hset : h.state.isSettled = true)
    (ho : h.sent = h.stream rs)
    (hk : ∀ bs, (h.store bs).sent = (h.store bs).stream rs → (k (h.store bs)).Outputs rs) :
    (recvThen inp k h).Outputs rs :=
  recv_output (ho ▸ List.prefix_refl _) (fun bs => output_settled (h := h.store bs) hset ho)
    fun bs => hk bs ho

theorem handleReplyError_output {k : Handle → Outcome} (ho : h.sent = h.stream rs)
    (hk : ∀ e t, (k (h.setError e t)).Outputs rs) : (handleReplyError inp h k).Outputs rs :=
  handleReplyError_all (fun _ _ => die_output ho) (fun _ _ => True.intro) fun _ _ e t => hk e t

theorem enterOptRecvReply_output {g : OptGroup} (hs : h.state = .optRecvReply g)
    (ho : h.sent = h.stream rs) : (enterOptRecvReply inp g h).Outputs rs := by
  refine recvSettled_output (by rw [hs]; rfl) ho fun bs hb => ?_
  split
  · exact die_output hb
  · rename_i h' hp
    rw [(prepareForReplyPayload_ok hp).1]
    exact goto_output rfl hb

theorem enterOptRecvReplyPayload_output {g : OptGroup} (hs : h.state = .optRecvReplyPayload g)
    (ho : h.sent = h.stream rs) : (enterOptRecvReplyPayload inp g h).Outputs rs :=
  recvSettled_output (by rw [hs]; rfl) ho fun _ hb => goto_output rfl hb

theorem enterStarttlsCheckReply_output (ho : h.sent = h.stream rs) :
    (enterStarttlsCheckReply inp h).Outputs rs := by
  unfold enterStarttlsCheckReply
  refine ite_all.mpr ⟨fun _ => ite_all.mpr ⟨fun _ => die_output ho, fun _ => ?_⟩, fun _ => ?_⟩
  · refine ite_all.mpr ⟨fun _ => goto_output ?_ ho, fun _ => die_output ho⟩
    unfold handshakeState
    split <;> rfl
  · refine handleReplyError_output ho fun e t => ite_all.mpr ⟨fun _ => goto_output rfl ho, fun _ => ?_⟩
    refine goto_output ?_ ho
    split <;> rfl

theorem enterTlsHandshake_output (ho : h.sent = h.stream rs) :
    (enterTlsHandshake inp h).Outputs rs := by
  unfold enterTlsHandshake
  split
  · exact die_output ho
  · exact goto_output rfl ho
  · refine goto_output ?_ ho
    unfold handshakeState
    split <;> rfl

theorem enterTlsHandshakeDone_output (ho : h.sent = h.stream rs) :
    (enterTlsHandshakeDone h).Outputs rs := by
  refine goto_output ?_ ho
  split <;> rfl

theorem enterExtendedHeadersCheckReply_output (ho : h.sent = h.stream rs) :
    (enterExtendedHeadersCheckReply inp h).Outputs rs := by
  unfold enterExtendedHeadersCheckReply
  refine ite_all.mpr ⟨fun _ => goto_output ?_ ho, fun _ => handleReplyError_output ho fun e t =>
    goto_output ?_ ho⟩
  · split <;> rfl
  · split <;> rfl

theorem listServer_output (ho : h.sent = h.stream rs) : (listServer inp h).Outputs rs := by
  unfold listServer
  simp only [Outcome.Outputs, ite_all, minus_all, poke_all, fetch_all, implies_true, and_true]
  refine ⟨fun _ => awaitReply_output ho, fun _ _ _ _ => ⟨fun _ => die_output ho, fun _ _ => ?_⟩⟩
  exact ⟨fun _ => die_output ho, fun _ => ⟨fun _ _ => awaitReply_output ho,
    fun _ => ⟨fun _ => die_output ho, fun _ _ _ => awaitReply_output ho⟩⟩⟩

theorem enterListCheckReply_output (ho : h.sent = h.stream rs) :
    (enterListCheckReply inp h).Outputs rs := by
  unfold enterListCheckReply
  refine ite_all.mpr ⟨fun _ => listServer_output ho, fun _ => ite_all.mpr ⟨fun _ => ?_, fun _ => ?_⟩⟩
  · exact goto_output rfl ho
  · exact handleReplyError_output ho fun e t => goto_output rfl ho

theorem metaContextReply_output {o : Opt} (ho : h.sent = h.stream rs) :
    (metaContextReply inp o h).Outputs rs := by
  unfold metaContextReply
  simp only [Outcome.Outputs, ite_all, minus_all, fetch_all, require_all, implies_true, and_true]
  refine ⟨fun _ => goto_output rfl ho, fun _ _ _ _ _ => ⟨fun _ => die_output ho, fun _ => ?_⟩⟩
  exact ⟨fun _ => goto_output rfl ho, fun _ => ⟨fun _ => die_output ho,
    fun _ => goto_output rfl ho⟩⟩

theorem enterMetaContextCheckReply_output (ho : h.sent = h.stream rs) :
    (enterMetaContextCheckReply inp h).Outputs rs := by
  unfold enterMetaContextCheckReply
  refine ite_all.mpr ⟨fun _ => ite_all.mpr ⟨fun _ => goto_output rfl ?_, fun _ => goto_output rfl ?_⟩,
    fun _ => ite_all.mpr ⟨fun _ => metaContextReply_output ho, fun _ => ?_⟩⟩
  · split <;> exact ho
  · split <;> exact ho
  · refine handleReplyError_output ho fun e t => ite_all.mpr
      ⟨fun _ => goto_output rfl ?_, fun _ => goto_output rfl ?_⟩
    · split <;> exact ho
    · split <;> exact ho

theorem goString_output {which : String} {set : Option CString → Handle}
    (ho : h.sent = h.stream rs) (hset : ∀ s, (set s).sent = (set s).stream rs) :
    (goString inp which set h).Outputs rs := by
  unfold goString
  simp only [Outcome.Outputs, ite_all, minus_all, fetch_all, implies_true, and_true]
  exact ⟨fun _ => die_output ho, fun _ _ _ => ⟨fun _ => awaitReply_output (hset _),
    fun _ => die_output (hset _)⟩⟩

theorem goInfo_output (ho : h.sent = h.stream rs) : (goInfo inp h).Outputs rs := by
  unfold goInfo
  refine ite_all.mpr ⟨fun _ => require_all.mpr ⟨fun _ => awaitReply_output ho, fun _ => True.intro⟩,
    fun _ => require_all.mpr ⟨fun _ => fetch_all.mpr ⟨fun _ => ?_, fun _ => True.intro⟩,
      fun _ => True.intro⟩⟩
  refine ite_all.mpr ⟨fun _ => ?_, fun _ => ite_all.mpr ⟨fun _ => ?_, fun _ => ite_all.mpr
    ⟨fun _ => goString_output ho fun _ => ho, fun _ => ite_all.mpr
      ⟨fun _ => goString_output ho fun _ => ho, fun _ => awaitReply_output ho⟩⟩⟩⟩
  · simp only [ite_all, fetch_all, implies_true, and_true]
    refine ⟨fun _ => die_output ho, fun _ _ _ => ?_⟩
    exact setSizeAndFlags_all (fun _ _ => die_output ho) (fun _ _ => True.intro)
      fun v _ => awaitReply_output ho
  · simp only [ite_all, fetch_all, implies_true, and_true]
    refine ⟨fun _ => die_output ho, fun _ _ _ _ => awaitReply_output ?_⟩
    unfold Handle.setBlockSize
    split <;> exact ho

theorem goFinish_output {e : UInt32} (ho : h.sent = h.stream rs) : (goFinish e h).Outputs rs := by
  refine goto_output ?_ ho
  split
  · rfl
  · split <;> rfl

theorem enterGoCheckReply_output (ho : h.sent = h.stream rs) :
    (enterGoCheckReply inp h).Outputs rs := by
  unfold enterGoCheckReply
  refine ite_all.mpr ⟨fun _ => goInfo_output ho, fun _ => ite_all.mpr ⟨fun _ => goto_output rfl ho,
    fun _ => ite_all.mpr ⟨fun _ => goFinish_output ho, fun _ => ?_⟩⟩⟩
  exact handleReplyError_output ho fun e t => require_all.mpr
    ⟨fun _ => goFinish_output ho, fun _ => True.intro⟩

theorem enterExportNameRecvReply_output (hs : h.state = .exportNameRecvReply)
    (ho : h.sent = h.stream rs) : (enterExportNameRecvReply inp h).Outputs rs :=
  recvSettled_output (by rw [hs]; rfl) ho fun _ hb => goto_output rfl hb

theorem enterExportNameCheckReply_output (ho : h.sent = h.stream rs) :
    (enterExportNameCheckReply h).Outputs rs :=
  setSizeAndFlags_all (fun _ _ => die_output ho) (fun _ _ => True.intro)
    fun _ _ => goto_output rfl ho

theorem enterNewstyleSendOptionShutdown_output (hs : h.state = .newstyleSendOptionShutdown)
    (ho : h.sent = h.stream rs) : (enterNewstyleSendOptionShutdown inp h).Outputs rs := by
  refine ite_all.mpr ⟨fun _ => goto_output ?_ ho, fun _ => output_settled (by rw [hs]; rfl) ho⟩
  split <;> rfl

/-- In option mode nothing follows; otherwise no option was asked for. -/
theorem afterStructuredReply_output (h' : Handle)
    (hq : h.cfg.optMode = false → h'.hasQueries = false) (ho : h'.sent = h'.stream rs) :
    (goto (afterStructuredReply h) h').Outputs rs := by
  unfold afterStructuredReply
  split
  · exact goto_output rfl ho
  · rename_i hm
    change h'.sent ++ ([] ++ if h'.hasQueries = true then _ else []) = h'.stream rs
    rw [hq (by simpa using hm)]
    simpa using ho

theorem enterStructuredReplyCheckReply_output (hq : h.cfg.optMode = false → h.hasQueries = false)
    (ho : h.sent = h.stream rs) : (enterStructuredReplyCheckReply inp h).Outputs rs := by
  unfold enterStructuredReplyCheckReply
  refine ite_all.mpr ⟨fun _ => ?_, fun _ => handleReplyError_output ho fun e t => ?_⟩
  · exact afterStructuredReply_output (Handle.completeOption _ 0) hq ho
  · exact afterStructuredReply_output (Handle.completeOption (h.setError e t) _) hq ho

/-! ### Silent states -/

/-- Before `NEWSTYLE.SEND_CFLAGS` nothing is sent, whatever happens. -/
theorem output_silent (hs : h.state.isFresh = true) (ho : h.sent = [] ∧ rs = []) : Output rs h := by
  unfold Output
  cases hst : h.state <;> simp_all [State.isFresh]

theorem silent_output (hs : h.state.isFresh = true) (ho : Output rs h) : h.sent = [] ∧ rs = [] := by
  unfold Output at ho
  cases hst : h.state <;> simp_all [State.isFresh]

theorem goto_silent {s : State} (hs : s.isFresh = true) (ho : h.sent = [] ∧ rs = []) :
    (goto s h).Outputs rs := output_silent (h := { h with state := s }) hs ho

theorem die_silent {e : UInt32} {t : String} (ho : h.sent = [] ∧ rs = []) :
    (die e t h).Outputs rs := by
  change h.sent <+: h.stream rs
  rw [ho.1]
  exact List.nil_prefix

theorem fail_silent (hs : h.state.isFresh = true) (ho : h.sent = [] ∧ rs = []) :
    (Outcome.fail h).Outputs rs := output_silent hs ho

theorem ready_silent (ho : h.sent = [] ∧ rs = []) : (goto .ready h).Outputs rs := .inl ho

theorem recvSilent_output {k : Handle → Outcome} (hs : h.state.isFresh = true)
    (ho : h.sent = [] ∧ rs = []) (hk : ∀ bs, (k (h.store bs)).Outputs rs) :
    (recvThen inp k h).Outputs rs := by
  refine recv_output ?_ (fun bs => output_silent (h := h.store bs) hs ho) hk
  rw [ho.1]
  exact List.nil_prefix

theorem enterConnectStart_output (hs : h.state = .connectStart) (ho : h.sent = [] ∧ rs = []) :
    (enterConnectStart inp h).Outputs rs := by
  simp only [enterConnectStart, Outcome.Outputs, require_all, ite_all, implies_true, and_true]
  exact fun _ => ⟨fun _ => die_silent ho, fun _ => ⟨fun _ => die_silent ho, fun _ =>
    ⟨fun _ => output_silent (by rw [hs]; rfl) ho, fun _ => die_silent ho⟩⟩⟩

theorem enterConnectConnecting_output (ho : h.sent = [] ∧ rs = []) :
    (enterConnectConnecting inp h).Outputs rs := by
  unfold enterConnectConnecting
  split
  · exact die_silent ho
  · exact ite_all.mpr ⟨fun _ => goto_silent rfl ho, fun _ => die_silent ho⟩

theorem enterConnectTcpStart_output (ho : h.sent = [] ∧ rs = []) :
    (enterConnectTcpStart inp h).Outputs rs := by
  unfold enterConnectTcpStart
  split
  · exact fail_silent rfl ho
  · exact goto_silent rfl ho

theorem enterConnectTcpConnect_output (ho : h.sent = [] ∧ rs = []) :
    (enterConnectTcpConnect inp h).Outputs rs := by
  simp only [enterConnectTcpConnect, Outcome.Outputs, require_all, ite_all, implies_true, and_true]
  exact fun _ => ⟨fun _ => fail_silent rfl ho, fun _ => ⟨fun _ => goto_silent rfl ho, fun _ =>
    ⟨fun _ => die_silent ho, fun _ => ⟨fun _ => goto_silent rfl ho, fun _ => goto_silent rfl ho⟩⟩⟩⟩

theorem enterConnectTcpConnecting_output (ho : h.sent = [] ∧ rs = []) :
    (enterConnectTcpConnecting inp h).Outputs rs := by
  unfold enterConnectTcpConnecting
  split
  · exact die_silent ho
  · exact ite_all.mpr ⟨fun _ => goto_silent rfl ho, fun _ => goto_silent rfl ho⟩

theorem enterConnectCommandStart_output (ho : h.sent = [] ∧ rs = []) :
    (enterConnectCommandStart inp h).Outputs rs := by
  simp only [enterConnectCommandStart, Outcome.Outputs, require_all, ite_all, implies_true, and_true]
  exact fun _ => ⟨fun _ => goto_silent rfl ho, fun _ => die_silent ho⟩

theorem enterConnectSaStart_output (ho : h.sent = [] ∧ rs = []) :
    (enterConnectSaStart inp h).Outputs rs := by
  simp only [enterConnectSaStart, Outcome.Outputs, require_all, ite_all, implies_true, and_true]
  exact fun _ => ⟨fun _ => goto_silent rfl ho, fun _ => die_silent ho⟩

theorem enterMagicCheckMagic_output (ho : h.sent = [] ∧ rs = []) :
    (enterMagicCheckMagic h).Outputs rs := by
  unfold enterMagicCheckMagic
  refine ite_all.mpr ⟨fun _ => die_silent ho, fun _ => ite_all.mpr ⟨fun _ => require_all.mpr
    ⟨fun hc => ?_, fun _ => True.intro⟩, fun _ => ite_all.mpr
      ⟨fun _ => goto_silent rfl ho, fun _ => die_silent ho⟩⟩⟩
  have hcur : h.optCurrent = none := by simpa using hc
  change if h.optCurrent = none then h.sent = [] ∧ rs = [] else _
  rwa [if_pos hcur]

theorem enterOldstyleCheck_output (ho : h.sent = [] ∧ rs = []) :
    (enterOldstyleCheck h).Outputs rs := by
  unfold enterOldstyleCheck
  refine ite_all.mpr ⟨fun _ => die_silent ho, fun _ => ite_all.mpr ⟨fun _ => die_silent ho,
    fun _ => ?_⟩⟩
  refine setSizeAndFlags_all (fun e t => ?_) (fun _ _ => True.intro) fun v _ => ready_silent ?_
  · refine output_dead (h := { h with gflags := h.sbuf.be16 24 }) ?_ e t
    exact ho.1.symm ▸ List.nil_prefix
  · exact ho

theorem newstyleGflags_output (ho : h.optCurrent = none → h.sent = [] ∧ rs = []) :
    (newstyleGflags h).Outputs rs :=
  require_all.mpr ⟨fun hc => goto_silent rfl (ho (by simpa using hc)), fun _ => True.intro⟩

theorem metaStart_output
    (ho : h.sent ++ (if h.hasQueries then h.queried.encode else []) = h.stream rs) :
    (goto (.optStart .metaContext) h).Outputs rs := ho

theorem enterNewstyleStart_output (hs : h.state = .newstyleStart) (ho : Output rs h) :
    (enterNewstyleStart h).Outputs rs := by
  have hnone : h.optCurrent = none → h.sent = [] ∧ rs = [] := by
    intro hc
    simpa [Output, hs, hc] using ho
  have hsome : h.optCurrent ≠ none →
      h.sent ++ (if h.hasQueries then h.queried.encode else []) = h.stream rs := by
    intro hc
    simpa [Output, hs, hc, Handle.pending, State.usesWbuf, Handle.later] using ho
  have hplain : h.optCurrent ≠ none → h.hasQueries = false → h.sent = h.stream rs := by
    intro hc hq
    simpa [hq] using hsome hc
  unfold enterNewstyleStart
  refine ite_all.mpr ⟨fun _ => ?_, fun _ => newstyleGflags_output hnone⟩
  split <;> rename_i hc
  case h_1 | h_2 =>
    have hq : h.hasQueries = false := by simp [Handle.hasQueries, hc]
    have hst := hplain (by simp [hc]) hq
    refine ite_all.mpr ⟨fun _ => metaStart_output ?_, fun _ => goto_output rfl hst⟩
    simpa [hq] using hst
  case h_4 =>
    have hst := hplain (by simp [hc]) (by simp [Handle.hasQueries, hc])
    exact ite_all.mpr ⟨fun _ => goto_output rfl hst, fun _ => die_output hst⟩
  case h_5 | h_6 => exact metaStart_output (hsome (by simp [hc]))
  case h_10 => trivial
  case h_11 => exact newstyleGflags_output hnone
  all_goals exact goto_output rfl (hplain (by simp [hc]) (by simp [Handle.hasQueries, hc]))

theorem enterNewstyleCheckGflags_output (ho : h.sent = [] ∧ rs = []) :
    (enterNewstyleCheckGflags h).Outputs rs := by
  unfold enterNewstyleCheckGflags
  refine ite_all.mpr ⟨fun _ => die_silent ho, fun _ => output_next rfl ?_⟩
  simp [Handle.stream, Handle.later, ho]

/-! ### States that start a request -/

/-- What a state leaves behind together with the request it starts. -/
def Begins (rs : List OptRequest) (h h' : Handle) : Prop := Output (rs ++ h.starting h'.state) h'

theorem begins_request {h' : Handle} (r : OptRequest) (hst : h.starts = some (h'.state, r))
    (hw : h'.state.usesWbuf = true) (hsent : h'.sent = h.sent) (hg : h'.gflags = h.gflags)
    (hbuf : h'.wbuf = optionHeader r.opt r.data.length) (hl : h'.later = r.data)
    (ho : h.sent = h.stream rs) : Begins rs h h' := by
  unfold Begins
  rw [Handle.starting, hst]
  simp only [if_true]
  refine (output_usesWbuf hw).mpr ?_
  rw [hsent, hbuf, hl, ho]
  simp [Handle.stream, hg, OptRequest.encode]

theorem begins_other {h' : Handle} (hst : h.starting h'.state = []) (ho : Output rs h') :
    Begins rs h h' := by
  unfold Begins
  rwa [hst, List.append_nil]

/-- The request of an option without data. -/
theorem begins_plain (g : OptGroup) (r : OptRequest) (hst : h.starts = some (.optSend g, r))
    (hg : g ≠ .metaContext) (hg' : g ≠ .go) (hd : r.data = []) (ho : h.sent = h.stream rs) :
    Begins rs h { h.request r.opt 0 with state := .optSend g } := by
  refine begins_request r hst rfl rfl rfl ?_ ?_ ho
  · rw [hd]
    rfl
  · rw [hd]
    cases g <;> simp_all [Handle.later]

theorem begins_goto {s s' : State} {r : OptRequest} (hst : h.starts = some (s', r)) (hne : s ≠ s')
    (ho : (goto s h).Outputs rs) : Begins rs h { h with state := s } := by
  refine begins_other ?_ ho
  rw [Handle.starting, hst]
  simp [hne]

theorem enterStarttlsStart_output (hs : h.state = .optStart .starttls) (ho : h.sent = h.stream rs) :
    (enterStarttlsStart h).All (fun _ => True) (Begins rs h) (Begins rs h) := by
  have hst : h.starts = some (.optSend .starttls, .starttls) := by rw [Handle.starts, hs]
  have hsend := begins_plain .starttls .starttls hst (by decide) (by decide) rfl ho
  simp only [enterStarttlsStart, require_all, ite_all, implies_true, and_true]
  refine fun _ => ⟨fun _ _ => hsend, fun _ => ⟨fun _ => ?_, fun _ _ => hsend⟩⟩
  exact begins_goto hst (by decide) (goto_output rfl ho)

theorem enterExtendedHeadersStart_output (hs : h.state = .optStart .extendedHeaders)
    (ho : h.sent = h.stream rs) :
    (enterExtendedHeadersStart h).All (fun _ => True) (Begins rs h) (Begins rs h) := by
  have hst : h.starts = some (.optSend .extendedHeaders, .extendedHeaders) := by
    rw [Handle.starts, hs]
  have hsend := begins_plain .extendedHeaders .extendedHeaders hst (by decide) (by decide) rfl ho
  simp only [enterExtendedHeadersStart, require_all, ite_all, implies_true, and_true]
  refine fun _ => ⟨fun _ _ => hsend, fun _ _ => ⟨fun _ => ?_, fun _ => hsend⟩⟩
  exact begins_goto hst (by decide) (goto_output rfl ho)

theorem enterStructuredReplyStart_output (hs : h.state = .optStart .structuredReply)
    (hq : h.cfg.optMode = false → h.hasQueries = false) (ho : h.sent = h.stream rs) :
    (enterStructuredReplyStart h).All (fun _ => True) (Begins rs h) (Begins rs h) := by
  have hst : h.starts = some (.optSend .structuredReply, .structuredReply) := by
    rw [Handle.starts, hs]
  have hsend := begins_plain .structuredReply .structuredReply hst (by decide) (by decide) rfl ho
  simp only [enterStructuredReplyStart, require_all, ite_all, implies_true, and_true]
  refine fun _ => ⟨fun _ _ => hsend, fun _ _ => ⟨fun _ => ?_, fun _ => hsend⟩⟩
  refine begins_goto hst ?_ (afterStructuredReply_output h hq ho)
  unfold afterStructuredReply
  split <;> decide

theorem enterListStart_output (hs : h.state = .optStart .list) (ho : h.sent = h.stream rs) :
    (enterListStart h).All (fun _ => True) (Begins rs h) (Begins rs h) := by
  have hst : h.starts = some (.optSend .list, .list) := by rw [Handle.starts, hs]
  have hsend := begins_plain .list .list hst (by decide) (by decide) rfl ho
  simp only [enterListStart, require_all, implies_true, and_true]
  exact fun _ _ _ => hsend

theorem enterNewstylePrepareOptAbort_output (hs : h.state = .newstylePrepareOptAbort)
    (ho : h.sent = h.stream rs) :
    (enterNewstylePrepareOptAbort h).All (fun _ => True) (Begins rs h) (Begins rs h) := by
  have hst : h.starts = some (.newstyleSendOptAbort, .abort) := by rw [Handle.starts, hs]
  simp only [enterNewstylePrepareOptAbort, require_all, implies_true, and_true]
  exact fun _ => begins_request .abort hst rfl rfl rfl rfl rfl ho

theorem enterExportNameStart_output (hs : h.state = .exportNameStart) (ho : h.sent = h.stream rs) :
    (enterExportNameStart h).All (fun _ => True) (Begins rs h) (Begins rs h) := by
  have hst : h.starts = some (.exportNameSend, .exportName h.cfg.exportName) := by
    rw [Handle.starts, hs]
  unfold enterExportNameStart
  dsimp only
  split <;> exact begins_request (.exportName h.cfg.exportName) hst rfl rfl rfl rfl rfl ho

theorem length_infoBytes (infos : List UInt16) :
    (infos.flatMap fun i => toBE 2 i.toNat).length = 2 * infos.length := by
  induction infos with
  | nil => rfl
  | cons i infos ih =>
    simp only [List.flatMap_cons, List.length_append, length_toBE, ih, List.length_cons]
    omega

theorem enterGoStart_output (hs : h.state = .optStart .go)
    (hc : h.optCurrent = none ∨ h.optCurrent = some .go ∨ h.optCurrent = some .info)
    (ho : h.sent = h.stream rs) :
    (enterGoStart h).All (fun _ => True) (Begins rs h) (Begins rs h) := by
  have hst : h.starts = some (.optSend .go,
      .info (h.optCurrent != some .info) h.cfg.exportName h.infos) := by rw [Handle.starts, hs]
  have hopt : (OptRequest.info (h.optCurrent != some .info) h.cfg.exportName h.infos).opt =
      h.optCurrent.getD .go := by
    rcases hc with hc | hc | hc <;> simp [hc, OptRequest.opt]
  have hlen : (OptRequest.info (h.optCurrent != some .info) h.cfg.exportName h.infos).data.length =
      4 + h.cfg.exportName.length + 2 + 2 * h.nrinfos := by
    simp only [OptRequest.data, counted, List.length_append, length_toBE, length_infoBytes,
      h.length_infos]
    omega
  simp only [enterGoStart, require_all, ite_all, implies_true, and_true]
  refine fun _ => ⟨fun _ _ => ?_, fun _ => ⟨fun h₁ _ _ => ?_, fun _ => ?_⟩⟩
  all_goals refine begins_request _ hst rfl rfl rfl ?_ rfl ho
  all_goals rw [hopt, hlen]
  · rfl
  · rw [show h.optCurrent = none from h₁]
    rfl
  · rfl

/-- The copy of a string list is the list when no allocation fails. -/
theorem copyStrings_ok {alloc : Nat → Bool} {i : Nat} {ss : List CString}
    (hok : (copyStrings alloc i ss).2 = true) : (copyStrings alloc i ss).1 = ss := by
  induction ss generalizing i with
  | nil => rfl
  | cons s ss ih =>
    unfold copyStrings at hok ⊢
    split at hok
    · rename_i ha
      rw [if_pos ha]
      exact congrArg _ (ih hok)
    · cases hok

/-- The announced length is that of the data. -/
theorem metaOptlen_eq (set : Bool) (h : Handle) :
    h.metaOptlen = (OptRequest.metaContext set h.cfg.exportName h.querylist).data.length := by
  have hsum : ∀ qs : List CString, (qs.map fun q => 4 + q.length).sum = (qs.flatMap counted).length := by
    intro qs
    induction qs with
    | nil => rfl
    | cons q qs ih =>
      simp only [List.map_cons, List.sum_cons, List.flatMap_cons, List.length_append, ih, counted,
        length_toBE]
  simp only [Handle.metaOptlen, hsum, OptRequest.data, counted, List.length_append, length_toBE]
  omega

/-- `SEND` is entered with the header of the request in the buffer. -/
theorem metaRequest_all (set : Bool) {o : Opt} {P R : Handle → Prop}
    (_ho : o = if set then .setMetaContext else .listMetaContext)
    (hP : ∀ h', h'.state = .optSend .metaContext → h'.sent = h.sent → h'.gflags = h.gflags →
      h'.wbuf = optionHeader o (OptRequest.metaContext set h.cfg.exportName h.querylist).data.length →
      h'.later = (OptRequest.metaContext set h.cfg.exportName h.querylist).data → P h') :
    (metaRequest h o).All (fun _ => True) P R := by
  unfold metaRequest
  rw [metaOptlen_eq set h]
  dsimp only
  refine hP _ rfl ?_ ?_ ?_ ?_
  · split <;> rfl
  · split <;> rfl
  · split <;> rfl
  · split <;> rfl

/-- The request that a call has prepared begins to be sent. -/
theorem metaQueried_output {h' : Handle} {o : Opt} (hs : h.state = .optStart .metaContext)
    (hq : h.hasQueries = true) (ho : Output rs h) (hopt : o = h.queried.opt)
    (h₁ : h'.cfg = h.cfg) (h₂ : h'.querylist = h.querylist) (h₃ : h'.sent = h.sent)
    (h₄ : h'.gflags = h.gflags) :
    (metaRequest h' o).All (fun _ => True) (Begins rs h) (Begins rs h) := by
  have hst : h.starts = none := by simp [Handle.starts, hs, hq]
  have ho' : h.sent ++ h.queried.encode = h.stream rs := by
    simpa [Output, hs, State.isFresh, Handle.pending, State.usesWbuf, Handle.later, hq] using ho
  refine metaRequest_all _ hopt fun h₅ hstate hsent hg hbuf hl => begins_other ?_ ?_
  · rw [Handle.starting, hst]
  · refine (output_usesWbuf (by rw [hstate]; rfl)).mpr ?_
    rw [hsent, hbuf, hl, h₁, h₂, h₃, Handle.stream, hg, h₄, hopt]
    exact ho'

theorem metaAutomatic_output {h' : Handle} (hs : h.state = .optStart .metaContext)
    (hq : h.hasQueries = false) (ho : h.sent = h.stream rs) (h₁ : h'.cfg = h.cfg)
    (h₃ : h'.sent = h.sent) (h₄ : h'.gflags = h.gflags) :
    (metaAutomatic inp h').All (fun _ => True) (Begins rs h) (Begins rs h) := by
  have hst : h.starts = some (.optSend .metaContext,
      .metaContext true h.cfg.exportName h.cfg.requestMetaContexts) := by
    simp [Handle.starts, hs, hq]
  have hoth : ∀ h₂ : Handle, h₂.state.isSettled = true → h₂.sent = h.sent → h₂.gflags = h.gflags →
      Begins rs h h₂ := by
    intro h₂ hset hsent hg
    refine begins_other ?_ (output_settled hset ?_)
    · rw [Handle.starting, hst]
      simp only [ite_eq_right_iff]
      rintro he
      rw [he] at hset
      cases hset
    · rw [hsent, ho, Handle.stream, Handle.stream, hg]
  unfold metaAutomatic
  refine ite_all.mpr ⟨fun _ => ?_, fun _ => ?_⟩
  · refine hoth _ rfl ?_ ?_
    · split <;> exact h₃
    · split <;> exact h₄
  · dsimp only [setQuerylist]
    refine ite_all.mpr ⟨fun hok => ?_, fun _ => ?_⟩
    · rw [if_pos hok]
      refine metaRequest_all true rfl fun h₂ hstate hsent hg hbuf hl => ?_
      rw [copyStrings_ok hok] at hbuf hl
      refine begins_request _ (by rw [hst, hstate]) (by rw [hstate]; rfl) ?_ ?_ ?_ ?_ ho
      · exact hsent.trans h₃
      · exact hg.trans h₄
      · rw [hbuf, h₁]
        rfl
      · rw [hl, h₁]
        rfl
    · refine hoth _ rfl ?_ ?_
      · split <;> exact h₃
      · split <;> exact h₄

theorem enterMetaContextStart_output (hs : h.state = .optStart .metaContext) (ho : Output rs h) :
    (enterMetaContextStart inp h).All (fun _ => True) (Begins rs h) (Begins rs h) := by
  unfold enterMetaContextStart
  refine require_all.mpr ⟨fun _ => ite_all.mpr ⟨fun hc => ?_, fun hc => ite_all.mpr ⟨fun hc' => ?_,
    fun hc' => ?_⟩⟩, fun _ => True.intro⟩
  · have hq : h.hasQueries = true := by simp [Handle.hasQueries, hc]
    have hopt : Opt.listMetaContext = h.queried.opt := by
      simp [Handle.queried, OptRequest.opt, hc]
    exact require_all.mpr ⟨fun _ => require_all.mpr ⟨fun _ =>
      metaQueried_output hs hq ho hopt rfl rfl rfl rfl, fun _ => True.intro⟩, fun _ => True.intro⟩
  · have hq : h.hasQueries = true := by simp [Handle.hasQueries, hc']
    have hopt : Opt.setMetaContext = h.queried.opt := by
      simp [Handle.queried, OptRequest.opt, hc']
    exact require_all.mpr ⟨fun _ => metaQueried_output hs hq ho hopt rfl rfl rfl rfl,
      fun _ => True.intro⟩
  · have hq : h.hasQueries = false := by simp [Handle.hasQueries, hc, hc']
    have hst : h.sent = h.stream rs := by
      simpa [Output, hs, State.isFresh, Handle.pending, State.usesWbuf, Handle.later, hq] using ho
    refine require_all.mpr ⟨fun _ => metaAutomatic_output hs hq hst ?_ ?_ ?_, fun _ => True.intro⟩
    all_goals split <;> rfl

/-! ### One step of the system -/

theorem begins_of_outputs {o : Outcome} (hst : h.starts = none) (ho : o.Outputs rs) :
    o.All (fun _ => True) (Begins rs h) (Begins rs h) := by
  have hb : ∀ h', Output rs h' → Begins rs h h' := by
    intro h' ho'
    refine begins_other ?_ ho'
    rw [Handle.starting, hst]
  exact Outcome.All.mono ho hb hb

theorem RunShape.hasQueries_auto (hS : RunShape h) (hm : h.cfg.optMode = false)
    (hs : h.state = .optStart .structuredReply ∨ h.state = .optCheckReply .structuredReply) :
    h.hasQueries = false := by
  have hcur := hS.shape.current
  have hnone : h.optCurrent = none := by
    rcases hs with hs | hs <;> rw [hs] at hcur <;> rcases hcur with hc | ⟨hm', -⟩
    · exact hc
    · exact absurd (hm'.symm.trans hm) (by decide)
    · exact hc
    · exact absurd (hm'.symm.trans hm) (by decide)
  simp [Handle.hasQueries, hnone]

theorem enterOptStart_output {g : OptGroup} (hS : RunShape h) (hs : h.state = .optStart g)
    (ho : Output rs h) :
    (enterOptStart inp g h).All (fun _ => True) (Begins rs h) (Begins rs h) := by
  have hset : g ≠ .metaContext → h.sent = h.stream rs := by
    intro hg
    refine settled_output hs ?_ (by simp) (by simp) (by simp) ho
    cases g <;> first | rfl | exact absurd rfl hg
  cases g with
  | starttls => exact enterStarttlsStart_output hs (hset (by decide))
  | extendedHeaders => exact enterExtendedHeadersStart_output hs (hset (by decide))
  | structuredReply =>
    exact enterStructuredReplyStart_output hs (fun hm => hS.hasQueries_auto hm (.inl hs))
      (hset (by decide))
  | list => exact enterListStart_output hs (hset (by decide))
  | metaContext => exact enterMetaContextStart_output hs ho
  | go =>
    refine enterGoStart_output hs ?_ (hset (by decide))
    have hcur := hS.shape.current
    rw [hs] at hcur
    rcases hcur with ⟨-, hc⟩ | ⟨-, hc⟩
    · exact .inl hc
    · exact .inr hc

theorem enterOptSendGroup_output {g : OptGroup} (hs : h.state = .optSend g) (ho : Output rs h) :
    (enterOptSendGroup inp g h).Outputs rs := by
  cases g with
  | metaContext => exact enterMetaContextSend_output hs ho
  | go => exact enterGoSend_output hs ho
  | _ => exact enterOptSend_output hs (by decide) (by decide) ho

theorem enterOptCheckReply_output {g : OptGroup} (hS : RunShape h) (hs : h.state = .optCheckReply g)
    (ho : h.sent = h.stream rs) : (enterOptCheckReply inp g h).Outputs rs := by
  cases g with
  | starttls => exact enterStarttlsCheckReply_output ho
  | extendedHeaders => exact enterExtendedHeadersCheckReply_output ho
  | structuredReply =>
    exact enterStructuredReplyCheckReply_output (fun hm => hS.hasQueries_auto hm (.inr hs)) ho
  | list => exact enterListCheckReply_output ho
  | metaContext => exact enterMetaContextCheckReply_output ho
  | go => exact enterGoCheckReply_output ho

theorem abortOption_output (hs : h.state = .dead ∨ h.state = .closed) (ho : Output rs h) :
    Output rs h.abortOption := by
  rcases hs with hs | hs
  all_goals
    have hp : h.sent <+: h.stream rs := by simpa [Output, hs] using ho
    have hs' : h.abortOption.state = _ := hs
    simp only [Output, hs']
    exact hp

/-- Entering a state sends what is pending and starts at most the request that
the state is there for. -/
theorem enter_output (inp : Input) (hS : RunShape h) (ho : Output rs h) :
    (enter inp h).All (fun _ => True) (Begins rs h) (Begins rs h) := by
  have hfresh : h.state.isFresh = true → h.sent = [] ∧ rs = [] := fun hf => silent_output hf ho
  have hset : ∀ {s}, h.state = s → s.isSettled = true → s ≠ .dead → s ≠ .closed → s ≠ .ready →
      h.sent = h.stream rs := fun hs h₁ h₂ h₃ h₄ => settled_output hs h₁ h₂ h₃ h₄ ho
  unfold enter
  split <;> rename_i hs
  case h_24 => exact enterNewstylePrepareOptAbort_output hs (hset hs rfl nofun nofun nofun)
  case h_28 => exact enterOptStart_output hS hs ho
  case h_47 => exact enterExportNameStart_output hs (hset hs rfl nofun nofun nofun)
  all_goals refine begins_of_outputs (by rw [Handle.starts, hs]) ?_
  · exact ho
  · exact ho
  · exact require_all.mpr ⟨fun _ => ho, fun _ => True.intro⟩
  · exact require_all.mpr ⟨fun _ => abortOption_output (.inl hs) ho, fun _ => True.intro⟩
  · exact abortOption_output (.inr hs) ho
  · exact enterConnectStart_output hs (hfresh (by rw [hs]; rfl))
  · exact enterConnectConnecting_output (hfresh (by rw [hs]; rfl))
  · exact enterConnectTcpStart_output (hfresh (by rw [hs]; rfl))
  · exact enterConnectTcpConnect_output (hfresh (by rw [hs]; rfl))
  · exact enterConnectTcpConnecting_output (hfresh (by rw [hs]; rfl))
  · exact goto_silent rfl (hfresh (by rw [hs]; rfl))
  · exact enterConnectCommandStart_output (hfresh (by rw [hs]; rfl))
  · exact enterConnectSaStart_output (hfresh (by rw [hs]; rfl))
  · exact goto_silent rfl (hfresh (by rw [hs]; rfl))
  · have hf : h.state.isFresh = true := by rw [hs]; rfl
    exact recvSilent_output hf (hfresh hf) fun _ => goto_silent rfl (hfresh hf)
  · exact enterMagicCheckMagic_output (hfresh (by rw [hs]; rfl))
  · exact goto_silent rfl (hfresh (by rw [hs]; rfl))
  · have hf : h.state.isFresh = true := by rw [hs]; rfl
    exact recvSilent_output hf (hfresh hf) fun _ => goto_silent rfl (hfresh hf)
  · exact enterOldstyleCheck_output (hfresh (by rw [hs]; rfl))
  · exact enterNewstyleStart_output hs ho
  · have hf : h.state.isFresh = true := by rw [hs]; rfl
    exact recvSilent_output hf (hfresh hf) fun _ => goto_silent rfl (hfresh hf)
  · exact enterNewstyleCheckGflags_output (hfresh (by rw [hs]; rfl))
  · exact enterNewstyleSendCflags_output hs ho
  · exact enterNewstyleSendOptAbort_output hs ho
  · exact enterNewstyleSendOptionShutdown_output hs (hset hs rfl nofun nofun nofun)
  · exact goto_output rfl (hset hs rfl nofun nofun nofun)
  · exact enterOptSendGroup_output hs ho
  · exact enterOptRecvReply_output hs (hset hs rfl nofun nofun nofun)
  · exact enterOptRecvReplyPayload_output hs (hset hs rfl nofun nofun nofun)
  · exact enterOptCheckReply_output hS hs (hset hs rfl nofun nofun nofun)
  · exact enterTlsHandshake_output (hset hs rfl nofun nofun nofun)
  · exact enterTlsHandshake_output (hset hs rfl nofun nofun nofun)
  · exact enterTlsHandshakeDone_output (hset hs rfl nofun nofun nofun)
  · exact enterMetaSendExportnamelen_output hs ho
  · exact enterMetaSendExportname_output hs ho
  · exact enterMetaSendNrqueries_output hs ho
  · exact enterMetaPrepareNextQuery_output hs ho
  · exact enterMetaSendQuerylen_output hs ho
  · exact enterMetaSendQuery_output hs ho
  · exact enterMetaPrepareForReply_output hs ho
  · exact enterGoSendExportnamelen_output hs ho
  · exact enterGoSendExport_output hs ho
  · exact enterGoSendNrinfos_output hs ho
  · exact enterGoSendInfo_output hs ho
  · exact enterExportNameSend_output hs ho
  · exact enterExportNameSendExport_output hs ho
  · exact enterExportNameRecvReply_output hs (hset hs rfl nofun nofun nofun)
  · exact enterExportNameCheckReply_output (hset hs rfl nofun nofun nofun)

/-- A call that does not move the handle out of `START` or `NEGOTIATING`. -/
theorem configured_output {h' : Handle} (hs : h.state.isConfigurable = true)
    (hst : h'.state = h.state) (hsent : h'.sent = h.sent)
    (hg : h.state = .start ∨ h'.gflags = h.gflags) (ho : Output rs h) : Output rs h' := by
  rcases State.isConfigurable_iff.mp hs with hs | hs
  · refine output_silent (by rw [hst, hs]; rfl) ?_
    rw [hsent]
    exact silent_output (by rw [hs]; rfl) ho
  · refine output_settled (by rw [hst, hs]; rfl) ?_
    have hg' : h'.gflags = h.gflags := hg.resolve_left (by simp [hs])
    rw [hsent, Handle.stream, hg']
    exact settled_output hs rfl nofun nofun nofun ho

theorem created_output {h' : Handle} (hs : h.state = .start) (hst : h'.state.isFresh = true)
    (hsent : h'.sent = h.sent) (ho : Output rs h) : Output rs h' := by
  refine output_silent hst ?_
  rw [hsent]
  exact silent_output (by rw [hs]; rfl) ho

theorem callSetter_output (inp : Input) (s : Setter) (ho : Output rs h) :
    (callSetter inp h s).All (fun _ => True) (Output rs) (Output rs) := by
  have herr : ∀ e t, Output rs (h.setError e t) := fun _ _ => ho
  have hcreated : ∀ {h' : Handle}, h.state.isCreated = true → h'.state = h.state → h'.sent = h.sent →
      Output rs h' := by
    intro h' hs hst hsent
    have hs' : h.state = .start := by simpa [State.isCreated] using hs
    exact created_output hs' (by rw [hst, hs']; rfl) hsent ho
  cases s with
  | setTls tls => exact permitted_all herr fun hs => hcreated hs rfl rfl
  | setOptMode b => exact permitted_all herr fun hs => hcreated hs rfl rfl
  | setHandshakeFlags flags =>
    exact permitted_all herr fun hs => submit_ite_all.mpr ⟨fun _ => herr _ _, fun _ =>
      hcreated hs rfl rfl⟩
  | setRequestExtendedHeaders b => exact permitted_all herr fun hs => hcreated hs rfl rfl
  | setRequestStructuredReplies b => exact permitted_all herr fun hs => hcreated hs rfl rfl
  | setExportName name =>
    refine permitted_all herr fun hs => ?_
    unfold setExportName
    exact submit_ite_all.mpr ⟨fun _ => herr _ _, fun _ => submit_ite_all.mpr ⟨fun _ => ho, fun _ =>
      submit_ite_all.mpr ⟨fun _ => herr _ _, fun _ => configured_output hs rfl rfl (.inr rfl) ho⟩⟩⟩
  | addMetaContext name =>
    refine permitted_all herr fun hs => ?_
    unfold addMetaContext
    exact submit_ite_all.mpr ⟨fun _ => herr _ _, fun _ => submit_ite_all.mpr ⟨fun _ => herr _ _, fun _ =>
      submit_ite_all.mpr ⟨fun _ => herr _ _, fun _ => configured_output hs rfl rfl (.inr rfl) ho⟩⟩⟩
  | _ => exact permitted_all herr fun hs => configured_output hs rfl rfl (.inr rfl) ho

theorem notify_output {ev : ExternalEvent} {keep : Bool} (hev : ev = .notifyRead ∨ ev = .notifyWrite)
    (ho : Output rs h) : (Submit.run ev keep h).All (fun _ => True) (Output rs) (Output rs) := by
  refine run_all (fun s hs => ?_) fun _ _ => ho
  have hself : s = h.state → Output rs { h with state := s } := by
    rintro rfl
    exact ho
  rcases hev with rfl | rfl
  · exact hself (externalEvent_notifyRead hs).2
  · obtain ⟨h₁, rfl⟩ | ⟨h₁, rfl⟩ | ⟨-, h₁⟩ := externalEvent_notifyWrite hs
    · exact output_silent rfl (silent_output (h := h) (by rw [h₁]; rfl) ho)
    · exact output_silent rfl (silent_output (h := h) (by rw [h₁]; rfl) ho)
    · exact hself h₁

theorem connect_output {h' : Handle} {ev : ExternalEvent} {keep : Bool} (hs : h.state = .start)
    (hst : h'.state = h.state) (hsent : h'.sent = h.sent)
    (hev : ev ≠ .notifyRead ∧ ev ≠ .notifyWrite) (ho : Output rs h) :
    (Submit.run ev keep h').All (fun _ => True) (Output rs) (Output rs) := by
  refine run_all (fun s he => ?_) fun _ _ => ?_
  · refine created_output hs ?_ hsent ho
    change s.isFresh = true
    rw [hst, hs] at he
    cases ev <;> simp_all [externalEvent] <;> subst he <;> rfl
  · exact created_output hs (by rw [Handle.setError_state, hst, hs]; rfl) hsent ho

theorem ask_output {h' : Handle} {keep : Bool} {qs : List OptRequest} (hs : h.state = .negotiating)
    (hst : h'.state = h.state) (hsent : h'.sent = h.sent) (hg : h'.gflags = h.gflags)
    (hcur : h'.optCurrent ≠ none)
    (hq : (if h'.hasQueries then h'.queried.encode else []) = qs.flatMap OptRequest.encode)
    (ho : Output rs h) :
    (Submit.run .cmdIssue keep h').All (fun _ => True) (Output (rs ++ qs)) (Output rs) := by
  have hall : h.sent = h.stream rs := settled_output hs rfl nofun nofun nofun ho
  refine run_all (fun s he => ?_) fun _ _ => ?_
  · rw [hst, hs] at he
    cases he
    have hlater : { h' with state := .newstyleStart }.later = qs.flatMap OptRequest.encode := hq
    simp only [Output, hcur, if_false, Handle.pending, State.usesWbuf]
    rw [hlater, hsent, hall, Handle.stream, Handle.stream, hg]
    simp
  · refine configured_output (h := h) (by rw [hs]; rfl) hst hsent (.inr hg) ho

theorem queries_output (inp : Input) (set : Bool) {opt : Opt}
    (hopt : opt = if set then .setMetaContext else .listMetaContext)
    (queries : Option (List CString)) (context completion : Closure) (ho : Output rs h) :
    (aioOptMetaContextQueries inp h opt queries context completion).All (fun _ => True)
      (Output (rs ++
        [OptRequest.metaContext set h.cfg.exportName (queries.getD h.cfg.requestMetaContexts)]))
      (Output rs) := by
  have herr : ∀ e t, Output rs (h.setError e t) := fun _ _ => ho
  refine permitted_all herr fun hs => needCallback_all herr fun _ => needFixed_all herr fun _ => ?_
  have hs' : h.state = .negotiating := by simpa [State.isNegotiating] using hs
  dsimp only [setQuerylist]
  refine submit_ite_all.mpr ⟨fun hok => ?_, fun hok => submit_ite_all.mpr ⟨fun _ => ?_,
    fun _ => trivial⟩⟩
  · refine configured_output (h := h) (by rw [hs']; rfl) ?_ ?_ (.inr ?_) ho
    all_goals split <;> rfl
  · have hok' : (copyStrings inp.alloc 0 (queries.getD h.cfg.requestMetaContexts)).2 = true := by
      simpa using hok
    rw [if_pos hok']
    refine ask_output (h := h) hs' rfl rfl rfl (by simp) ?_ ho
    rw [List.flatMap_singleton, if_pos]
    · rw [Handle.queried, hopt]
      change (OptRequest.metaContext _ h.cfg.exportName
        (copyStrings inp.alloc 0 (queries.getD h.cfg.requestMetaContexts)).1).encode = _
      rw [copyStrings_ok hok']
      cases set <;> rfl
    · cases set <;> simp [Handle.hasQueries, hopt]

theorem submit_output (inp : Input) (api : Api) (ho : Output rs h) :
    (submit inp h api).All (fun _ => True) (Output (rs ++ h.queriesOf api)) (Output rs) := by
  have herr : ∀ e t, Output rs (h.setError e t) := fun _ _ => ho
  have hplain : ∀ (opt : Opt) (fn : Option Closure) (completion : Closure),
      opt ≠ .listMetaContext → opt ≠ .setMetaContext → h.state.isNegotiating = true →
      (submitOption h opt fn completion).All (fun _ => True) (Output (rs ++ [])) (Output rs) := by
    intro opt fn completion h₁ h₂ hs
    refine ask_output (h := h) (by simpa [State.isNegotiating] using hs) rfl rfl rfl (by simp) ?_ ho
    simp [Handle.hasQueries, h₁, h₂]
  cases api with
  | set s =>
    simp only [Handle.queriesOf, List.append_nil]
    exact callSetter_output inp s ho
  | aioConnect addr =>
    simp only [Handle.queriesOf, List.append_nil]
    refine permitted_all herr fun hs => ?_
    have hs' : h.state = .start := by simpa [State.isCreated] using hs
    have hrun : ∀ ev keep, ev ≠ .notifyRead ∧ ev ≠ .notifyWrite →
        (Submit.run ev keep h).All (fun _ => True) (Output rs) (Output rs) :=
      fun _ _ hev => connect_output hs' rfl rfl hev ho
    cases addr with
    | sockAddr => exact hrun _ _ ⟨(by simp), (by simp)⟩
    | tcp => exact submit_ite_all.mpr ⟨fun _ => hrun _ _ ⟨(by simp), (by simp)⟩, fun _ => herr _ _⟩
    | command => exact submit_ite_all.mpr ⟨fun _ => hrun _ _ ⟨(by simp), (by simp)⟩, fun _ => herr _ _⟩
    | systemdSocketActivation =>
      exact submit_ite_all.mpr ⟨fun _ => hrun _ _ ⟨(by simp), (by simp)⟩, fun _ => herr _ _⟩
    | socket =>
      exact submit_ite_all.mpr ⟨fun _ => connect_output (h := h) hs' rfl rfl ⟨(by simp), (by simp)⟩ ho,
        fun _ => herr _ _⟩
  | aioOptAbort =>
    refine permitted_all herr fun hs => ask_output (h := h) ?_ rfl rfl rfl (by simp) ?_ ho
    · simpa [State.isNegotiating] using hs
    · simp [Handle.hasQueries, Handle.queriesOf]
  | aioOptGo completion => exact permitted_all herr fun hs => hplain _ _ _ (by simp) (by simp) hs
  | aioOptInfo completion =>
    exact permitted_all herr fun hs => needFixed_all herr fun _ => hplain _ _ _ (by simp) (by simp) hs
  | aioOptStarttls completion =>
    exact permitted_all herr fun hs => needFixed_all herr fun _ => hplain _ _ _ (by simp) (by simp) hs
  | aioOptExtendedHeaders completion =>
    exact permitted_all herr fun hs => needFixed_all herr fun _ => hplain _ _ _ (by simp) (by simp) hs
  | aioOptStructuredReply completion =>
    exact permitted_all herr fun hs => needFixed_all herr fun _ => hplain _ _ _ (by simp) (by simp) hs
  | aioOptList list completion =>
    exact permitted_all herr fun hs => needCallback_all herr fun _ => needFixed_all herr fun _ =>
      submit_ite_all.mpr ⟨fun _ => hplain _ _ _ (by simp) (by simp) hs, fun _ => trivial⟩
  | aioOptListMetaContext queries context completion =>
    exact queries_output inp false rfl queries context completion ho
  | aioOptSetMetaContext queries context completion =>
    exact queries_output inp true rfl queries context completion ho
  | aioNotifyRead =>
    simp only [Handle.queriesOf, List.append_nil]
    exact notify_output (.inl rfl) ho
  | aioNotifyWrite =>
    simp only [Handle.queriesOf, List.append_nil]
    exact notify_output (.inr rfl) ho

/-- A state does not start the request of another one while it stays. -/
theorem Handle.starting_self (h : Handle) : h.starting h.state = [] := by
  unfold Handle.starting
  cases hst : h.starts with
  | none => rfl
  | some p =>
    obtain ⟨s, r⟩ := p
    refine if_neg ?_
    rintro rfl
    unfold Handle.starts at hst
    cases hs : h.state with
    | optStart g => cases g <;> simp_all
    | _ => simp_all

theorem step_output {c c' : Config} {l : Label} (hS : c.Holds Residual RunShape RestShape)
    (ho : Output rs c.h) (hstep : machine.step c l = some c') : Output (rs ++ asked c l) c'.h := by
  obtain ⟨h, ctl⟩ := c
  unfold asked
  rw [hstep]
  cases l with
  | enter inp =>
    cases ctl with
    | idle ret => cases hstep
    | aborted a => cases hstep
    | running keep =>
      cases hstep
      have hall := enter_output inp hS ho
      change Begins rs h (stepEnter inp keep h).h
      unfold stepEnter
      cases he : enter inp h with
      | next h' => rw [he] at hall; exact hall
      | block h' => rw [he] at hall; exact hall
      | fail h' => rw [he] at hall; exact hall
      | abort a => exact begins_other h.starting_self ho
  | call api inp =>
    cases ctl with
    | running keep => cases hstep
    | aborted a => cases hstep
    | idle ret =>
      cases hstep
      have hall := submit_output inp api (h := { h with lastError := inp.lastError }) ho
      simp only [stepCall]
      cases hsub : submit inp { h with lastError := inp.lastError } api with
      | refused h' => rw [hsub] at hall; simpa [afterSubmit] using hall
      | done h' => rw [hsub] at hall; simpa [afterSubmit] using hall
      | abort a =>
        have ho' : Output rs { h with lastError := inp.lastError } := ho
        simpa [afterSubmit] using ho'
      | run ev keep h' =>
        rw [hsub] at hall
        simp only [afterSubmit, startRun]
        cases hev : externalEvent ev h'.state with
        | none => simpa [afterRun] using hall.2 hev einval _
        | some s => exact hall.1 s hev

end

/-! ## Whole runs -/

theorem Output.sent_prefix {rs : List OptRequest} {h : Handle} (ho : Output rs h) :
    h.sent <+: h.stream rs := by
  have hnil : h.sent = [] ∧ rs = [] → h.sent <+: h.stream rs := by
    rintro ⟨he, -⟩
    rw [he]
    exact List.nil_prefix
  have happ : h.sent ++ h.pending = h.stream rs → h.sent <+: h.stream rs := fun he => ⟨_, he⟩
  unfold Output at ho
  split at ho
  · exact ho
  · exact ho
  · rcases ho with ho | ho
    · exact hnil ho
    · exact ho ▸ List.prefix_refl _
  · split at ho
    · exact hnil ho
    · exact happ ho
  · split at ho
    · exact hnil ho
    · exact happ ho

/-- GO and INFO name the export and the infos of the settings. -/
theorem asked_infos {c : Config} {l : Label} {go : Bool} {name : CString} {infos : List UInt16}
    (hm : .info go name infos ∈ asked c l) :
    name = c.h.cfg.exportName ∧ infos = c.h.infos := by
  unfold asked at hm
  split at hm
  · cases hm
  · split at hm
    · unfold Handle.starting at hm
      split at hm
      · rename_i hst
        split at hm
        · rw [List.mem_singleton.mp hm |>.symm] at hst
          unfold Handle.starts at hst
          cases hs : c.h.state with
          | optStart g => cases g <;> simp_all
          | _ => simp_all
        · cases hm
      · cases hm
    · unfold Handle.queriesOf at hm
      split at hm <;> simp at hm
    · cases hm

theorem Handle.length_infos_le (h : Handle) : h.infos.length ≤ 3 := by
  rw [h.length_infos, Handle.nrinfos]
  split <;> split <;> decide

/-- What a run has sent, in terms of the requests it has started. -/
structure Sent (c : Config) (rs : List OptRequest) : Prop where
  shape : c.Holds Residual RunShape RestShape
  output : Output rs c.h
  infos : ∀ go name infos, .info go name infos ∈ rs → infos.length < 2 ^ 16

theorem step_sent {c c' : Config} {l : Label} {rs : List OptRequest} (hc : Sent c rs)
    (hstep : machine.step c l = some c') : Sent c' (rs ++ asked c l) := by
  refine ⟨step_shape c l c' hc.shape hstep, step_output hc.shape hc.output hstep, ?_⟩
  intro go name infos hm
  rcases List.mem_append.mp hm with hm | hm
  · exact hc.infos go name infos hm
  · have := c.h.length_infos_le
    rw [(asked_infos hm).2]
    omega

theorem create_sent (sbuf : Mem) : Sent ⟨.create sbuf, .idle 0⟩ [] :=
  ⟨create_shape sbuf, output_silent rfl ⟨rfl, rfl⟩, fun _ _ _ h => absurd h List.not_mem_nil⟩

theorem run_sent {c₀ c : Config} {ls : List Label} (hi : machine.init c₀)
    (he : machine.exec c₀ ls = some c) : Sent c (machine.collect asked c₀ ls) := by
  obtain ⟨sbuf, rfl⟩ := hi
  exact machine.exec_collect (P := Sent) (fun _ _ _ _ => step_sent) (create_sent sbuf) he

/-- The states in which the client waits for an answer or for the application. -/
def State.isAwaiting : State → Bool
  | negotiating | optRecvReply _ | exportNameRecvReply => true
  | _ => false

theorem State.awaiting_spec {s : State} (h : s.isAwaiting = true) :
    s.isSettled = true ∧ s ≠ .dead ∧ s ≠ .closed ∧ s ≠ .ready := by
  unfold State.isAwaiting at h
  split at h
  · exact ⟨rfl, State.noConfusion, State.noConfusion, State.noConfusion⟩
  · exact ⟨rfl, State.noConfusion, State.noConfusion, State.noConfusion⟩
  · exact ⟨rfl, State.noConfusion, State.noConfusion, State.noConfusion⟩
  · cases h

/-- Whatever the socket takes at a time, the client sends the encoded requests, in
order and completely by the time it waits for an answer, and the option grammar
gives back the requests. GO and INFO ask for the block size and for name and
description as the settings say. -/
theorem option_requests_round_trip {c₀ c : Config} {ls : List Label} (hi : machine.init c₀)
    (he : machine.exec c₀ ls = some c)
    (hlen : ∀ r ∈ machine.collect asked c₀ ls, r.data.length < 2 ^ 32) :
    c.h.sent <+: c.h.stream (machine.collect asked c₀ ls) ∧
      (c.h.state.isAwaiting = true → c.h.sent = c.h.stream (machine.collect asked c₀ ls)) ∧
      parseRequests ((c.h.stream (machine.collect asked c₀ ls)).drop 4) =
        some (machine.collect asked c₀ ls) ∧
      ∀ c₁ l go name infos, .info go name infos ∈ asked c₁ l →
        name = c₁.h.cfg.exportName ∧
          infos = (if c₁.h.cfg.requestBlockSize then [infoBlockSize] else []) ++
            if c₁.h.cfg.fullInfo then [infoName, infoDescription] else [] := by
  have hs := run_sent hi he
  refine ⟨hs.output.sent_prefix, fun ha => ?_, ?_, fun c₁ l go name infos hm => asked_infos hm⟩
  · obtain ⟨hset, hdead, hclosed, hready⟩ := State.awaiting_spec ha
    exact settled_output rfl hset hdead hclosed hready hs.output
  · have hdrop : (c.h.stream (machine.collect asked c₀ ls)).drop 4 =
        (machine.collect asked c₀ ls).flatMap OptRequest.encode := by
      rw [Handle.stream, List.drop_left' (length_toBE 4 _)]
    rw [hdrop]
    exact parseRequests_encode hlen hs.infos

/-- Ask for two metadata contexts through a socket that takes three bytes at a
time. -/
def askTwoContexts : List Label :=
  connectOptMode ++
  Label.call (.aioOptSetMetaContext (some [[97], [98, 99]]) ⟨true, false⟩ .null) .calm ::
    .enter .calm :: .enter .calm ::
    (List.replicate 5 [Label.enter { Input.calm with send := .sent 3 }, .call .aioNotifyWrite .calm]).flatten ++
    List.replicate 12 (Label.enter .calm)

/-- Go on to the export `a`, asking for everything there is to know about it, through
the same socket. -/
def askAllInfos : List Label :=
  connectOptMode ++
  [Label.call (.set (.setRequestMetaContext false)) .calm, .call (.set (.setExportName [97])) .calm,
    .call (.set (.setFullInfo true)) .calm, .call (.aioOptGo .null) .calm] ++
  List.replicate 3 (Label.enter .calm) ++
  (List.replicate 5 [Label.enter { Input.calm with send := .sent 3 }, .call .aioNotifyWrite .calm]).flatten ++
  List.replicate 5 (Label.enter .calm)

theorem option_requests_round_trip_two_contexts :
    (∃ c, machine.exec .created askTwoContexts = some c ∧
      machine.collect asked .created askTwoContexts = [.metaContext true [] [[97], [98, 99]]] ∧
      parseRequests (c.h.sent.drop 4) = some [.metaContext true [] [[97], [98, 99]]]) ∧
    ∃ c, machine.exec .created askAllInfos = some c ∧
      parseRequests (c.h.sent.drop 4) =
        some [.info true [97] [infoBlockSize, infoName, infoDescription]] := by
  refine ⟨?_, ?_⟩
  · have hrun : (machine.exec .created askTwoContexts).map (fun c => c.h.state) =
        some (.optRecvReply .metaContext) := by decide +kernel
    have hreq : machine.collect asked .created askTwoContexts =
        [.metaContext true [] [[97], [98, 99]]] := by decide +kernel
    obtain ⟨c, he, hs⟩ := Option.map_eq_some_iff.mp hrun
    have hlen : ∀ r ∈ machine.collect asked .created askTwoContexts, r.data.length < 2 ^ 32 := by
      rw [hreq]
      decide
    obtain ⟨-, hall, hparse, -⟩ := option_requests_round_trip Config.initial_created he hlen
    refine ⟨c, he, hreq, ?_⟩
    rw [hall (by rw [hs]; rfl), hparse, hreq]
  · have hrun : (machine.exec .created askAllInfos).map (fun c => c.h.state) =
        some (.optRecvReply .go) := by decide +kernel
    have hreq : machine.collect asked .created askAllInfos =
        [.info true [97] [infoBlockSize, infoName, infoDescription]] := by decide +kernel
    obtain ⟨c, he, hs⟩ := Option.map_eq_some_iff.mp hrun
    have hlen : ∀ r ∈ machine.collect asked .created askAllInfos, r.data.length < 2 ^ 32 := by
      rw [hreq]
      decide
    obtain ⟨-, hall, hparse, -⟩ := option_requests_round_trip Config.initial_created he hlen
    refine ⟨c, he, ?_⟩
    rw [hall (by rw [hs]; rfl), hparse, hreq]

end Libnbd.Negotiation
