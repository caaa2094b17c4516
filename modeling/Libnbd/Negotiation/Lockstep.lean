import Libnbd.Negotiation.Output
import Libnbd.Negotiation.Payload

/-!
Two handles in lockstep.

`Alike F h h'` relates two handles that have been given different option replies in the past:
they are in the same state with the same settings and the same negotiated values, but the
rest of their buffers, their callbacks, what they have sent and the metadata contexts of an
exchange that is over may differ. `F` says whether the names of the contexts agree.
`enter_alike` and `call_alike` prove that the same input leads both to the same state again.
-/

namespace Libnbd.Negotiation

open Lib

/-! ## The relation -/

/-- What the getters report, apart from the contexts; no state reads the protocol. -/
def Negotiated.reported (e : Negotiated) : Negotiated :=
  { e with protocol := none, metaContexts := [] }

/-- The same contexts by name. -/
def SameNames (l l' : List (CString × UInt32)) : Prop :=
  ∀ name, name ∈ l.map Prod.fst ↔ name ∈ l'.map Prod.fst

theorem SameNames.refl (l : List (CString × UInt32)) : SameNames l l := fun _ => Iff.rfl

theorem SameNames.isEmpty {l l' : List (CString × UInt32)} (h : SameNames l l') :
    l.isEmpty = l'.isEmpty := by
  cases l with
  | nil =>
    cases l' with
    | nil => rfl
    | cons x l' => simpa using (h x.1).mpr (by simp)
  | cons x l =>
    cases l' with
    | nil => simpa using (h x.1).mp (by simp)
    | cons y l' => rfl

theorem SameNames.snoc {l l' : List (CString × UInt32)} (h : SameNames l l')
    (x : CString × UInt32) : SameNames (l ++ [x]) (l' ++ [x]) := by
  intro name
  simp only [List.map_append, List.mem_append, h name]

/-- The part of a handle that decides, with a reply, what it does next. -/
structure Terms where
  cfg : Settings
  gflags : UInt16
  optCurrent : Option Opt
  exp : Negotiated

def Handle.terms (h : Handle) : Terms where
  cfg := h.cfg
  gflags := h.gflags
  optCurrent := h.optCurrent
  exp := h.exp

structure Agree (F : Prop) (w w' : Terms) : Prop where
  cfg : w'.cfg = w.cfg
  gflags : w'.gflags = w.gflags
  current : w'.optCurrent = w.optCurrent
  exp : w'.exp.reported = w.exp.reported
  names : F → SameNames w.exp.metaContexts w'.exp.metaContexts
  stale : SameNames w.exp.metaContexts w'.exp.metaContexts ∨ w.exp.metaValid = false

/-- Where the part of `sbuf` ends that was received in the current exchange. -/
def Handle.seen (h : Handle) : Nat := h.rbuf.getD optionReplySize

/-- The same has been received in the current exchange. -/
structure SameInput (h h' : Handle) : Prop where
  rbuf : h'.rbuf = h.rbuf
  rlen : h'.rlen = h.rlen
  sbuf : ∀ i < h.seen, h'.sbuf i = h.sbuf i

namespace State

/-- The states that use `h->querylist`, given `h->opt_current`. -/
def usesQueries (cur : Option Opt) : State → Bool
  | newstyleStart | optStart .metaContext =>
    cur == some .listMetaContext || cur == some .setMetaContext
  | optSend .metaContext | metaSendExportnamelen | metaSendExportname | metaSendNrqueries
  | metaPrepareNextQuery | metaSendQuerylen | metaSendQuery => true
  | _ => false

/-- The states that use `h->querynum`. -/
def usesQuerynum : State → Bool
  | metaPrepareNextQuery | metaSendQuerylen | metaSendQuery => true
  | _ => false

/-- The states that come after the client flags. -/
def isLate (s : State) : Bool := !s.isFresh && s != newstyleSendCflags

end State

/-- What has arrived of a header, in the states that receive or interpret it: `seen` bytes,
with `rlen` more to come. -/
def State.Framed (seen rlen : Nat) : State → Prop
  | optRecvReply _ => optionReplySize ≤ seen + rlen
  | optRecvReplyPayload _ | optCheckReply _ => optionReplySize ≤ seen
  | exportNameRecvReply => 10 ≤ seen + rlen
  | exportNameCheckReply => 10 ≤ seen
  | _ => True

/-- The states that receive or interpret a reply. -/
def State.isReplying : State → Bool
  | optRecvReply _ | optRecvReplyPayload _ | optCheckReply _ | exportNameRecvReply
  | exportNameCheckReply => true
  | _ => false

structure Alike (F : Prop) (h h' : Handle) : Prop where
  agree : Agree F h.terms h'.terms
  state : h'.state = h.state
  wbuf : h.state.usesWbuf = true → h'.wbuf = h.wbuf
  framed : h.state.Framed h.seen h.rlen
  input : h.state.isReplying = true → SameInput h h'
  queries : h.state.usesQueries h.optCurrent = true → h'.querylist = h.querylist
  querynum : h.state.usesQuerynum = true → h'.querynum = h.querynum
  late : h.state.isLate = true
  asked : h.state = .newstyleStart → h.optCurrent ≠ none
  asking : h.state.isAsking = true → h.optCurrent ≠ some .listMetaContext →
    SameNames h.exp.metaContexts h'.exp.metaContexts

/-- Two outcomes of the same kind with related handles. If the process dies in one run,
nothing is said. -/
def Outcome.Rel (R : Handle → Handle → Prop) : Outcome → Outcome → Prop
  | .abort _, _ | _, .abort _ => True
  | .next h, .next h' | .block h, .block h' | .fail h, .fail h' => R h h'
  | _, _ => False

/-! ## Agreement -/

section Agreement

variable {F : Prop} {h h' : Handle}

/-- Negotiated values other than the contexts are changed alike. -/
theorem Agree.revise {w w' : Terms} (hA : Agree F w w') {e e' : Negotiated}
    (he : e'.reported = e.reported) (hc : e.metaContexts = w.exp.metaContexts)
    (hc' : e'.metaContexts = w'.exp.metaContexts)
    (hv : SameNames w.exp.metaContexts w'.exp.metaContexts ∨ e.metaValid = false) :
    Agree F { w with exp := e } { w' with exp := e' } := by
  refine ⟨hA.cfg, hA.gflags, hA.current, he, fun hF => ?_, ?_⟩
  · show SameNames e.metaContexts e'.metaContexts
    rw [hc, hc']
    exact hA.names hF
  · show SameNames e.metaContexts e'.metaContexts ∨ _
    rw [hc, hc']
    exact hv

/-- The contexts are replaced by lists with the same names. -/
theorem Agree.contexts {w w' : Terms} (hA : Agree F w w') (G : Prop) {e e' : Negotiated}
    (he : e'.reported = e.reported) (hs : SameNames e.metaContexts e'.metaContexts) :
    Agree G { w with exp := e } { w' with exp := e' } :=
  ⟨hA.cfg, hA.gflags, hA.current, he, fun _ => hs, .inl hs⟩

theorem Agree.isFixed (hA : Agree F h.terms h'.terms) : h'.isFixed = h.isFixed := by
  rw [Handle.isFixed, Handle.isFixed, show h'.gflags = h.gflags from hA.gflags]

/-- A field that is part of what is reported. -/
theorem Agree.field {w w' : Terms} (hA : Agree F w w') {α : Type} (f : Negotiated → α)
    (hf : ∀ e, f e.reported = f e) : f w'.exp = f w.exp := by
  rw [← hf, hA.exp, hf]

theorem Agree.structured (hA : Agree F h.terms h'.terms) :
    h'.exp.structuredReplies = h.exp.structuredReplies := hA.field _ fun _ => rfl

theorem Agree.nothingRequested (hA : Agree F h.terms h'.terms) :
    h'.nothingRequested = h.nothingRequested := by
  rw [Handle.nothingRequested, Handle.nothingRequested, hA.structured,
    show h'.cfg = h.cfg from hA.cfg]

end Agreement

/-! ## Input -/

section Input

variable {h h' : Handle} (hI : SameInput h h')
include hI

theorem SameInput.reads {pos n : Nat} (hle : pos + n ≤ h.seen) :
    h'.sbuf.read pos n = h.sbuf.read pos n :=
  Mem.read_congr fun i _ hi => hI.sbuf i (by omega)

theorem SameInput.be16 (pos : Nat) (hle : pos + 2 ≤ h.seen) : h'.sbuf.be16 pos = h.sbuf.be16 pos := by
  rw [Mem.be16, Mem.be16, hI.reads hle]

theorem SameInput.be32 (pos : Nat) (hle : pos + 4 ≤ h.seen) : h'.sbuf.be32 pos = h.sbuf.be32 pos := by
  rw [Mem.be32, Mem.be32, hI.reads hle]

theorem SameInput.be64 (pos : Nat) (hle : pos + 8 ≤ h.seen) : h'.sbuf.be64 pos = h.sbuf.be64 pos := by
  rw [Mem.be64, Mem.be64, hI.reads hle]

/-- The same byte stored in both buffers. -/
theorem SameInput.poke (pos : Nat) (bs : List UInt8) :
    SameInput { h with sbuf := h.sbuf.write pos bs } { h' with sbuf := h'.sbuf.write pos bs } := by
  refine ⟨hI.rbuf, hI.rlen, fun i hi => ?_⟩
  simp only [Mem.write, hI.sbuf i hi]

/-- The same bytes received. -/
theorem SameInput.store (bs : List UInt8) : SameInput (h.store bs) (h'.store bs) := by
  have hrbuf := hI.rbuf
  refine ⟨?_, ?_, fun i hi => ?_⟩
  · simp only [Handle.store_rbuf, hrbuf]
  · simp only [Handle.store_rlen, hI.rlen]
  · simp only [Handle.store_sbuf, hrbuf, Handle.seen, Handle.store_rbuf] at hi ⊢
    cases hp : h.rbuf with
    | none =>
      rw [hp] at hi
      exact hI.sbuf i (by rw [Handle.seen, hp]; exact hi)
    | some p =>
      rw [hp] at hi
      simp only [Option.map_some, Option.getD_some] at hi
      simp only [Mem.write]
      split
      · rfl
      · refine hI.sbuf i ?_
        rw [Handle.seen, hp, Option.getD_some]
        omega

end Input

/-- Nothing has been received yet. -/
theorem SameInput.none {h h' : Handle} {n : Nat} (hp : h.rbuf = some 0) (hp' : h'.rbuf = some 0)
    (hn : h.rlen = n) (hn' : h'.rlen = n) : SameInput h h' := by
  refine ⟨by rw [hp, hp'], by rw [hn, hn'], fun i hi => ?_⟩
  rw [Handle.seen, hp] at hi
  exact absurd hi (Nat.not_lt_zero i)

/-! ## Rules -/

section Rules

variable {R S : Handle → Handle → Prop} {F : Prop} {inp : Input} {h h' : Handle} {s s' : State}

theorem rel_abort (o : Outcome) (a : Abort) : o.Rel R (.abort a) := by cases o <;> trivial

theorem Outcome.Rel.mono {o o' : Outcome} (ho : o.Rel R o') (hRS : ∀ h h', R h h' → S h h') :
    o.Rel S o' := by
  cases o with
  | abort a => trivial
  | next h =>
    cases o' with
    | next h' => exact hRS h h' ho
    | abort a => trivial
    | block h' => exact ho
    | fail h' => exact ho
  | block h =>
    cases o' with
    | block h' => exact hRS h h' ho
    | abort a => trivial
    | next h' => exact ho
    | fail h' => exact ho
  | fail h =>
    cases o' with
    | fail h' => exact hRS h h' ho
    | abort a => trivial
    | next h' => exact ho
    | block h' => exact ho

theorem require_rel {p p' : Bool} {a a' : Abort} {k k' : Outcome}
    (hk : p = true → p' = true → k.Rel R k') : (require p a k).Rel R (require p' a' k') := by
  cases p with
  | false => trivial
  | true =>
    cases p' with
    | false => exact rel_abort _ _
    | true => exact hk rfl rfl

theorem ite_rel {p p' : Prop} [Decidable p] [Decidable p'] (hp : p' ↔ p) {a a' b b' : Outcome}
    (ha : p → a.Rel R a') (hb : ¬ p → b.Rel R b') :
    (if p then a else b).Rel R (if p' then a' else b') := by
  by_cases h : p
  · rw [if_pos h, if_pos (hp.mpr h)]
    exact ha h
  · rw [if_neg h, if_neg (mt hp.mp h)]
    exact hb h

theorem minus_rel {a b : Nat} {k k' : Nat → Outcome} (hk : ∀ d, (k d).Rel R (k' d)) :
    (minus a b k).Rel R (minus a b k') :=
  ite_rel Iff.rfl (fun _ => hk _) fun _ => trivial

/-! ### Moving to a state -/

/-- The states about which nothing more is known than that the two runs agree. -/
def State.isPlain : State → Bool
  | negotiating | ready | dead | closed | newstylePrepareOptAbort | newstyleSendOptionShutdown
  | newstyleFinished | tlsHandshakeRead | tlsHandshakeWrite | tlsHandshakeDone | exportNameStart =>
    true
  | optStart g => g != .metaContext
  | _ => false

/-- The states that send something other than a request about metadata contexts. -/
def State.isOutgoing : State → Bool
  | optSend g => g != .metaContext
  | newstyleSendOptAbort | goSendExportnamelen | goSendExport | goSendNrinfos | goSendInfo
  | exportNameSend | exportNameSendExport => true
  | _ => false

/-- The states between `SEND` and `RECV_REPLY` of `OPT_META_CONTEXT`. -/
def State.isMetaStep : State → Bool
  | optSend .metaContext | metaSendExportnamelen | metaSendExportname | metaSendNrqueries
  | metaPrepareNextQuery | metaSendQuerylen | metaSendQuery | metaPrepareForReply => true
  | _ => false

theorem State.plain_spec (hs : s.isPlain = true) :
    s.usesWbuf = false ∧ (∀ m n, s.Framed m n) ∧ (∀ cur, s.usesQueries cur = false) ∧
      s.usesQuerynum = false ∧ s.isLate = true ∧ s ≠ .newstyleStart ∧ s.isAsking = false ∧
      s.isReplying = false := by
  cases s with
  | optStart g =>
    cases g <;> simp_all [isPlain, usesWbuf, usesQueries, usesQuerynum, isLate, isFresh, isAsking,
      Framed, isReplying]
  | _ =>
    simp_all [isPlain, usesWbuf, usesQueries, usesQuerynum, isLate, isFresh, isAsking, Framed,
      isReplying]

theorem State.outgoing_spec (hs : s.isOutgoing = true) :
    (∀ m n, s.Framed m n) ∧ (∀ cur, s.usesQueries cur = false) ∧ s.usesQuerynum = false ∧
      s.isLate = true ∧ s ≠ .newstyleStart ∧ s.isAsking = false ∧ s.isReplying = false := by
  cases s with
  | optSend g =>
    cases g <;> simp_all [isOutgoing, usesQueries, usesQuerynum, isLate, isFresh, isAsking, Framed,
      isReplying]
  | _ =>
    simp_all [isOutgoing, usesQueries, usesQuerynum, isLate, isFresh, isAsking, Framed, isReplying]

theorem State.metaStep_spec (hs : s.isMetaStep = true) :
    (∀ m n, s.Framed m n) ∧ s.isLate = true ∧ s ≠ .newstyleStart ∧ s.isReplying = false := by
  cases s with
  | optSend g => cases g <;> simp_all [isMetaStep, isLate, isFresh, Framed, isReplying]
  | _ => simp_all [isMetaStep, isLate, isFresh, Framed, isReplying]

theorem Alike.plain (hA : Agree F h.terms h'.terms) (hs : h.state.isPlain = true)
    (hs' : h'.state = h.state) : Alike F h h' := by
  obtain ⟨h₁, h₂, h₃, h₄, h₅, h₆, h₇, h₈⟩ := State.plain_spec hs
  refine ⟨hA, hs', fun h => ?_, h₂ _ _, fun h => ?_, fun h => ?_, fun h => ?_, h₅,
    fun h => absurd h h₆, fun h => ?_⟩
  · rw [h₁] at h
    cases h
  · rw [h₈] at h
    cases h
  · rw [h₃] at h
    cases h
  · rw [h₄] at h
    cases h
  · rw [h₇] at h
    cases h

theorem goto_plain (hA : Agree F h.terms h'.terms) (hs : s.isPlain = true) (he : s' = s) :
    (goto s h).Rel (Alike F) (goto s' h') := by
  subst he
  exact Alike.plain hA hs rfl

theorem die_alike {e : UInt32} {t : String} (hA : Agree F h.terms h'.terms) :
    (die e t h).Rel (Alike F) (die e t h') := goto_plain hA rfl rfl

/-! What is sent does not change the terms. -/

theorem terms_emit (h : Handle) (bs : List UInt8) (b : Bool) :
    Handle.terms { h.emit bs with wflags := b } = h.terms := by
  unfold Handle.terms
  rfl

theorem terms_request (h : Handle) (opt : Opt) (n : Nat) (b : Bool) :
    Handle.terms { h.request opt n with wflags := b } = h.terms := by
  unfold Handle.terms
  rfl

theorem terms_log (h : Handle) (es : List Event) : (h.log es).terms = h.terms := by
  unfold Handle.terms
  rfl

theorem goto_outgoing (hA : Agree F h.terms h'.terms) (hs : s.isOutgoing = true)
    (hw : h'.wbuf = h.wbuf) : (goto s h).Rel (Alike F) (goto s h') := by
  obtain ⟨h₂, h₃, h₄, h₅, h₆, h₇, h₈⟩ := State.outgoing_spec hs
  refine ⟨hA, rfl, fun _ => hw, h₂ _ _, fun h => ?_, fun h => ?_, fun h => ?_, h₅,
    fun h => absurd h h₆, fun h => ?_⟩
  · rw [h₈] at h
    cases h
  · rw [h₃] at h
    cases h
  · rw [h₄] at h
    cases h
  · rw [h₇] at h
    cases h

theorem goto_meta (hA : Agree F h.terms h'.terms) (hs : s.isMetaStep = true)
    (hw : s.usesWbuf = true → h'.wbuf = h.wbuf)
    (hq : s.usesQueries h.optCurrent = true → h'.querylist = h.querylist)
    (hn : s.usesQuerynum = true → h'.querynum = h.querynum)
    (hask : h.optCurrent ≠ some .listMetaContext →
      SameNames h.exp.metaContexts h'.exp.metaContexts) :
    (goto s h).Rel (Alike F) (goto s h') := by
  obtain ⟨h₂, h₅, h₆, h₈⟩ := State.metaStep_spec hs
  refine ⟨hA, rfl, hw, h₂ _ _, fun h => ?_, hq, hn, h₅, fun h => absurd h h₆, fun _ => hask⟩
  rw [h₈] at h
  cases h

theorem goto_metaStart (hA : Agree F h.terms h'.terms)
    (hq : h.optCurrent = some .listMetaContext ∨ h.optCurrent = some .setMetaContext →
      h'.querylist = h.querylist) :
    (goto (.optStart .metaContext) h).Rel (Alike F) (goto (.optStart .metaContext) h') := by
  refine ⟨hA, rfl, nofun, trivial, nofun, fun h => hq ?_, nofun, rfl, nofun, nofun⟩
  simpa [State.usesQueries] using h

/-- Wait for the header of a reply. -/
theorem awaitReply_alike {g : OptGroup} (hA : Agree F h.terms h'.terms)
    (hask : g = .metaContext → h.optCurrent ≠ some .listMetaContext →
      SameNames h.exp.metaContexts h'.exp.metaContexts) :
    (awaitReply g h).Rel (Alike F) (awaitReply g h') := by
  refine ⟨hA, rfl, nofun, ?_, fun _ => .none rfl rfl rfl rfl, nofun, nofun, rfl, nofun, fun hq => ?_⟩
  · show optionReplySize ≤ 0 + optionReplySize
    omega
  · cases g with
    | metaContext => exact hask rfl
    | _ => cases hq

/-! ### Receiving and sending -/

theorem Alike.store (hL : Alike F h h') {bs : List UInt8} (hle : bs.length ≤ h.rlen) :
    Alike F (h.store bs) (h'.store bs) := by
  refine ⟨hL.agree, hL.state, hL.wbuf, ?_, fun h => (hL.input h).store bs, hL.queries, hL.querynum,
    hL.late, hL.asked, hL.asking⟩
  have hf := hL.framed
  show h.state.Framed (h.store bs).seen (h.rlen - bs.length)
  cases hp : h.rbuf with
  | none =>
    -- what is thrown away was announced by a whole header
    have hseen : (h.store bs).seen = optionReplySize := by simp [Handle.seen, hp]
    have : optionReplySize = 20 := rfl
    rw [hseen]
    cases hs : h.state <;> simp_all [State.Framed]
    omega
  | some p =>
    have hseen : (h.store bs).seen = p + bs.length := by simp [Handle.seen, hp]
    have hseen' : h.seen = p := by simp [Handle.seen, hp]
    rw [hseen]
    rw [hseen'] at hf
    cases hs : h.state <;> simp_all [State.Framed] <;> omega

theorem recvThen_alike {k k' : Handle → Outcome} (hL : Alike F h h')
    (hr : h.state.isReplying = true)
    (hk : ∀ bs, bs.length = h.rlen → (k (h.store bs)).Rel (Alike F) (k' (h'.store bs))) :
    (recvThen inp k h).Rel (Alike F) (recvThen inp k' h') := by
  have hI := hL.input hr
  have hrlen := hI.rlen
  have hwant : h'.recvWant = h.recvWant := by
    rw [Handle.recvWant, Handle.recvWant, hrlen, hI.rbuf]
  unfold recvThen
  refine ite_rel (by rw [hrlen]) (fun hz => ?_) fun hz => ?_
  · have := hk [] (by simpa using hz.symm)
    rwa [Handle.store_nil, Handle.store_nil] at this
  · cases inp.recv with
    | again => exact hL
    | error => exact die_alike hL.agree
    | data bs =>
      simp only [hwant]
      have hle : (bs.take h.recvWant).length ≤ h.rlen := by
        have := h.recvWant_le
        simp only [List.length_take]
        omega
      refine ite_rel Iff.rfl (fun _ => die_alike hL.agree) fun _ => ?_
      refine ite_rel ?_ (fun hz => hk _ ?_) fun _ => hL.store hle
      · simp only [Handle.store_rlen, hrlen]
      · simp only [Handle.store_rlen] at hz
        omega

theorem sendThen_alike {k k' : Handle → Outcome} (hL : Alike F h h') (hw : h.state.usesWbuf = true)
    (hk : ∀ n, (k { h.advance n with wflags := false }).Rel (Alike F)
      (k' { h'.advance n with wflags := false })) :
    (sendThen inp k h).Rel (Alike F) (sendThen inp k' h') := by
  have hwbuf : h'.wbuf = h.wbuf := hL.wbuf hw
  have hmore : ∀ n, Alike F (h.advance n) (h'.advance n) := fun n =>
    ⟨hL.agree, hL.state, fun _ => by simp only [Handle.advance_wbuf, hwbuf], hL.framed,
      fun hr => ⟨(hL.input hr).rbuf, (hL.input hr).rlen, (hL.input hr).sbuf⟩, hL.queries,
      hL.querynum, hL.late, hL.asked, hL.asking⟩
  unfold sendThen
  refine ite_rel (by rw [hwbuf]) (fun _ => ?_) fun _ => ?_
  · have := hk 0
    rwa [Handle.advance_zero, Handle.advance_zero] at this
  · cases inp.send with
    | again => exact hL
    | error => exact die_alike hL.agree
    | sent n => exact ite_rel (by simp only [Handle.advance_wbuf, hwbuf]) (fun _ => hk n) fun _ => hmore n

/-! ### Option replies -/

theorem SameInput.payloadSeen (hI : SameInput h h') : h'.payloadSeen = h.payloadSeen := by
  rw [Handle.payloadSeen, Handle.payloadSeen, hI.rbuf]

theorem fetch_rel {pos n : Nat} {k k' : List UInt8 → Outcome} (hI : SameInput h h')
    (hk : ∀ bs, (k bs).Rel R (k' bs)) : (fetch h pos n k).Rel R (fetch h' pos n k') := by
  unfold fetch
  refine ite_rel (by rw [hI.payloadSeen]) (fun hle => ?_) fun _ => trivial
  have hread : h'.sbuf.read (optionReplySize + pos) n = h.sbuf.read (optionReplySize + pos) n := by
    cases n with
    | zero => rfl
    | succ n =>
      refine hI.reads ?_
      have hseen : h.seen = h.rbuf.getD optionReplySize := rfl
      rw [Handle.payloadSeen] at hle
      omega
  rw [hread]
  exact hk _

theorem poke_rel {pos : Nat} {b : UInt8} {k k' : Handle → Outcome}
    (hk : (k { h with sbuf := h.sbuf.write (optionReplySize + pos) [b] }).Rel R
      (k' { h' with sbuf := h'.sbuf.write (optionReplySize + pos) [b] })) :
    (poke h pos b k).Rel R (poke h' pos b k') :=
  ite_rel Iff.rfl (fun _ => hk) fun _ => trivial

/-- The same header has been received. -/
structure SameHeader (h h' : Handle) : Prop where
  input : SameInput h h'
  whole : optionReplySize ≤ h.seen

section Header

variable (hH : SameHeader h h')
include hH

theorem SameHeader.reply : h'.reply = h.reply :=
  hH.input.be32 12 (Nat.le_trans (by decide) hH.whole)

theorem SameHeader.replylen : h'.replylen = h.replylen :=
  hH.input.be32 16 (Nat.le_trans (by decide) hH.whole)

theorem SameHeader.replyMagic : h'.replyMagic = h.replyMagic :=
  hH.input.be64 0 (Nat.le_trans (by decide) hH.whole)

theorem SameHeader.replyOption : h'.replyOption = h.replyOption :=
  hH.input.be32 8 (Nat.le_trans (by decide) hH.whole)

theorem handleReplyError_alike {k k' : Handle → Outcome} (hA : Agree F h.terms h'.terms)
    (hk : ∀ e t, (k (h.setError e t)).Rel (Alike F) (k' (h'.setError e t))) :
    (handleReplyError inp h k).Rel (Alike F) (handleReplyError inp h' k') := by
  have hreply := hH.reply
  have hlen := hH.replylen
  have herr : h'.replyError = h.replyError := by
    rw [Handle.replyError, Handle.replyError, hreply, show h'.cfg = h.cfg from hA.cfg]
  unfold handleReplyError
  rw [hreply, hlen, herr]
  refine ite_rel Iff.rfl (fun _ => die_alike hA) fun _ => ?_
  refine ite_rel Iff.rfl (fun _ => die_alike hA) fun _ => ?_
  refine ite_rel Iff.rfl (fun _ => die_alike hA) fun _ => ?_
  refine ite_rel Iff.rfl (fun _ => hk _ _) fun _ => ?_
  exact fetch_rel hH.input fun bs => hk _ _

end Header

theorem setSizeAndFlags_alike {exportsize : UInt64} {eflags : UInt16} {k k' : Handle → Outcome}
    (hA : Agree F h.terms h'.terms)
    (hk : ∀ h₁ h₁' : Handle, Agree F h₁.terms h₁'.terms → h₁.cfg = h.cfg →
      h₁.optCurrent = h.optCurrent → (k h₁).Rel (Alike F) (k' h₁')) :
    (setSizeAndFlags h exportsize eflags k).Rel (Alike F)
      (setSizeAndFlags h' exportsize eflags k') := by
  have hflags : h'.usableFlags eflags = h.usableFlags eflags := by
    have heh : h'.exp.extendedHeaders = h.exp.extendedHeaders := hA.field _ fun _ => rfl
    rw [Handle.usableFlags, Handle.usableFlags, hA.structured, heh]
  have hvalid : h'.exp.metaValid = h.exp.metaValid := hA.field _ fun _ => rfl
  have hset : ∀ v, (SameNames h.exp.metaContexts h'.exp.metaContexts ∨ v = false) →
      (k { h with exp := { h.exp with
        exportsize := exportsize, eflags := h.usableFlags eflags, metaValid := v } }).Rel (Alike F)
      (k' { h' with exp := { h'.exp with
        exportsize := exportsize, eflags := h.usableFlags eflags, metaValid := v } }) := by
    intro v hv
    refine hk _ _ (hA.revise ?_ rfl rfl hv) rfl rfl
    exact congrArg (fun e : Negotiated => { e with
      exportsize := exportsize, eflags := h.usableFlags eflags, metaValid := v }) hA.exp
  unfold setSizeAndFlags
  rw [hA.nothingRequested, hflags, hvalid]
  refine ite_rel Iff.rfl (fun _ => die_alike hA) fun _ => ?_
  refine ite_rel Iff.rfl (fun _ => require_rel fun he he' => ?_) fun _ => hset _ hA.stale
  refine hset true (.inl ?_)
  rw [List.isEmpty_iff.mp he, List.isEmpty_iff.mp he']
  exact .refl []

end Rules

/-! ## The states -/

section States

variable {F : Prop} {h h' : Handle} (inp : Input)

theorem Agree.cfg_eq (hA : Agree F h.terms h'.terms) : h'.cfg = h.cfg := hA.cfg

theorem Agree.current_eq (hA : Agree F h.terms h'.terms) : h'.optCurrent = h.optCurrent := hA.current

/-- The option is completed, whatever its callbacks are. -/
theorem complete_alike {s s' : State} {e e' : UInt32} (hA : Agree F h.terms h'.terms)
    (hs : s.isPlain = true) (he : s' = s) :
    (goto s (h.completeOption e)).Rel (Alike F) (goto s' (h'.completeOption e')) :=
  goto_plain (show Agree F (h.completeOption e).terms (h'.completeOption e').terms from hA) hs he

/-- `SEND` of the options without data. -/
theorem request_alike {s : State} (hA : Agree F h.terms h'.terms) (opt : Opt) (n : Nat)
    (hs : s.isOutgoing = true) :
    (goto s (h.request opt n)).Rel (Alike F) (goto s (h'.request opt n)) :=
  goto_outgoing hA hs rfl

theorem enterNewstyleStart_alike (hS : RunShape h) (hL : Alike F h h')
    (hs : h.state = .newstyleStart) : (enterNewstyleStart h).Rel (Alike F) (enterNewstyleStart h') := by
  have hA := hL.agree
  have hne := hL.asked hs
  have hmode : h.cfg.optMode = true := by
    have hc := hS.shape.current
    rw [hs] at hc
    exact (hc.resolve_left hne).1
  have hq := hL.queries
  rw [hs] at hq
  unfold enterNewstyleStart
  rw [hA.cfg_eq, hA.current_eq, hA.isFixed, hmode, if_pos rfl, if_pos rfl]
  cases hcur : h.optCurrent with
  | none => exact absurd hcur hne
  | some opt =>
    rw [hcur] at hq
    have hstart : (goto (.optStart .metaContext) h).Rel (Alike F) (goto (.optStart .metaContext) h') := by
      refine goto_metaStart hA fun hc => hq ?_
      rw [hcur] at hc
      rcases hc with hc | hc <;> cases hc <;> rfl
    cases opt with
    | exportName => trivial
    | go => exact ite_rel Iff.rfl (fun _ => hstart) fun _ => goto_plain hA rfl rfl
    | info => exact ite_rel Iff.rfl (fun _ => hstart) fun _ => goto_plain hA rfl rfl
    | listMetaContext => exact hstart
    | setMetaContext => exact hstart
    | abort => exact ite_rel Iff.rfl (fun _ => goto_plain hA rfl rfl) fun _ => die_alike hA
    | list => exact goto_plain hA rfl rfl
    | starttls => exact goto_plain hA rfl rfl
    | structuredReply => exact goto_plain hA rfl rfl
    | extendedHeaders => exact goto_plain hA rfl rfl

theorem enterNewstylePrepareOptAbort_alike (hL : Alike F h h') :
    (enterNewstylePrepareOptAbort h).Rel (Alike F) (enterNewstylePrepareOptAbort h') :=
  require_rel fun _ _ => request_alike hL.agree _ _ rfl

theorem enterNewstyleSendOptionShutdown_alike (hL : Alike F h h') :
    (enterNewstyleSendOptionShutdown inp h).Rel (Alike F)
      (enterNewstyleSendOptionShutdown inp h') := by
  unfold enterNewstyleSendOptionShutdown
  rw [hL.agree.cfg_eq]
  refine ite_rel Iff.rfl (fun _ => ?_) fun _ => hL
  exact goto_plain hL.agree (by split <;> rfl) rfl

/-! ### Options without data -/

/-- The checks of the header come out alike, and the payload goes to the same place. -/
theorem prepareForReplyPayload_alike (hH : SameHeader h h') (opt : Opt) :
    prepareForReplyPayload h' opt = (prepareForReplyPayload h opt).map fun a =>
      { h' with rbuf := a.rbuf, rlen := a.rlen } := by
  unfold prepareForReplyPayload
  rw [hH.replyMagic, hH.replyOption, hH.reply, hH.replylen]
  dsimp only
  split_ifs <;> rfl

theorem Agree.groupOption (hA : Agree F h.terms h'.terms) (g : OptGroup) :
    h'.groupOption g = h.groupOption g := by
  cases g <;> simp only [Handle.groupOption, hA.current_eq]

theorem enterOptRecvReply_alike {g : OptGroup} (hL : Alike F h h') (hs : h.state = .optRecvReply g) :
    (enterOptRecvReply inp g h).Rel (Alike F) (enterOptRecvReply inp g h') := by
  refine recvThen_alike hL (by rw [hs]; rfl) fun bs hbs => ?_
  have hL' := hL.store (Nat.le_of_eq hbs)
  have hst : (h.store bs).state = .optRecvReply g := hs
  have hA : Agree F (h.store bs).terms (h'.store bs).terms := hL'.agree
  have hH : SameHeader (h.store bs) (h'.store bs) := by
    refine ⟨hL'.input (by rw [hst]; rfl), ?_⟩
    have hf := hL'.framed
    have hz : (h.store bs).rlen = 0 := by
      simp only [Handle.store_rlen]
      omega
    rw [hst, hz] at hf
    exact hf
  rw [hA.groupOption, prepareForReplyPayload_alike hH]
  cases hp : prepareForReplyPayload (h.store bs) ((h.store bs).groupOption g) with
  | error t => exact die_alike hA
  | ok a =>
    obtain ⟨rfl, -⟩ := prepareForReplyPayload_ok hp
    have hplace : ∀ n, (if n ≤ payloadSize then some optionReplySize else none).getD
        optionReplySize = optionReplySize := by
      intro n
      split <;> rfl
    refine ⟨hA, rfl, nofun, ?_, fun _ => ⟨rfl, rfl, fun i hi => ?_⟩, nofun, nofun, rfl, nofun,
      fun hq => ?_⟩
    · exact Nat.le_of_eq (hplace _).symm
    · refine hH.input.sbuf i (Nat.lt_of_lt_of_le hi (Nat.le_trans ?_ hH.whole))
      exact Nat.le_of_eq (hplace _)
    · have := hL'.asking
      rw [hst] at this
      cases g with
      | metaContext => exact this rfl
      | _ => cases hq

theorem enterOptRecvReplyPayload_alike {g : OptGroup} (hL : Alike F h h')
    (hs : h.state = .optRecvReplyPayload g) :
    (enterOptRecvReplyPayload inp g h).Rel (Alike F) (enterOptRecvReplyPayload inp g h') := by
  refine recvThen_alike hL (by rw [hs]; rfl) fun bs hbs => ?_
  have hL' := hL.store (Nat.le_of_eq hbs)
  have hst : (h.store bs).state = .optRecvReplyPayload g := hs
  refine ⟨hL'.agree, rfl, nofun, ?_, fun _ => ?_, nofun, nofun, rfl, nofun, fun hq => ?_⟩
  · have hf := hL'.framed
    rw [hst] at hf
    exact hf
  · have hI := hL'.input (by rw [hst]; rfl)
    exact ⟨hI.rbuf, hI.rlen, hI.sbuf⟩
  · have := hL'.asking
    rw [hst] at this
    cases g with
    | metaContext => exact this rfl
    | _ => cases hq

/-- In `CHECK_REPLY` the whole header is there. -/
theorem Alike.header {g : OptGroup} (hL : Alike F h h') (hs : h.state = .optCheckReply g) :
    SameHeader h h' := by
  have hf := hL.framed
  rw [hs] at hf
  exact ⟨hL.input (by rw [hs]; rfl), hf⟩

theorem enterStarttlsStart_alike (hL : Alike F h h') :
    (enterStarttlsStart h).Rel (Alike F) (enterStarttlsStart h') := by
  have hA := hL.agree
  unfold enterStarttlsStart
  rw [hA.current_eq, hA.cfg_eq]
  refine require_rel fun _ _ => ite_rel Iff.rfl (fun _ => require_rel fun _ _ => ?_) fun _ =>
    ite_rel Iff.rfl (fun _ => ?_) fun _ => require_rel fun _ _ => ?_
  · exact request_alike hA _ _ rfl
  · exact goto_plain hA rfl rfl
  · exact request_alike hA _ _ rfl

theorem handshakeState_isPlain : (handshakeState inp).isPlain = true := by
  unfold handshakeState
  split <;> rfl

/-- What the acknowledgement of STARTTLS leaves is the same in both runs, except for the
contexts. -/
theorem Agree.forgetPlaintext (hA : Agree F h.terms h'.terms) :
    Agree F h.forgetPlaintext.terms h'.forgetPlaintext.terms :=
  hA.revise (congrArg (fun e : Negotiated => { e with
      exportsize := 0, eflags := 0, blockMinimum := 0, blockPreferred := 0, blockMaximum := 0,
      payloadMaximum := 0, canonicalName := none, description := none,
      structuredReplies := false, extendedHeaders := false, metaValid := false }) hA.exp)
    rfl rfl (.inr rfl)

theorem enterStarttlsCheckReply_alike (hL : Alike F h h') (hs : h.state = .optCheckReply .starttls) :
    (enterStarttlsCheckReply inp h).Rel (Alike F) (enterStarttlsCheckReply inp h') := by
  have hA := hL.agree
  have hH := hL.header hs
  have htls : h'.exp.tlsNegotiated = h.exp.tlsNegotiated := hA.field _ fun _ => rfl
  unfold enterStarttlsCheckReply
  rw [hH.reply, htls]
  refine ite_rel Iff.rfl (fun _ => ite_rel Iff.rfl (fun _ => die_alike hA) fun _ =>
    ite_rel Iff.rfl (fun _ => ?_) fun _ => ?_) fun _ => ?_
  · exact goto_plain hA.forgetPlaintext (handshakeState_isPlain inp) rfl
  · exact die_alike hA.forgetPlaintext
  · refine handleReplyError_alike hH hA fun e t => ?_
    have hA : Agree F (h.setError e t).terms (h'.setError e t).terms := hA
    rw [hA.cfg_eq, hA.current_eq]
    refine ite_rel Iff.rfl (fun _ => ?_) fun _ => ?_
    · exact goto_plain hA rfl rfl
    · exact complete_alike hA (by split <;> rfl) rfl

theorem enterTlsHandshake_alike (hL : Alike F h h') :
    (enterTlsHandshake inp h).Rel (Alike F) (enterTlsHandshake inp h') := by
  unfold enterTlsHandshake
  cases inp.handshake with
  | done => exact goto_plain hL.agree rfl rfl
  | again => exact goto_plain hL.agree (handshakeState_isPlain inp) rfl
  | error => exact die_alike hL.agree

theorem enterTlsHandshakeDone_alike (hL : Alike F h h') :
    (enterTlsHandshakeDone h).Rel (Alike F) (enterTlsHandshakeDone h') := by
  have hA : Agree F { h with exp := { h.exp with tlsNegotiated := true } }.terms
      { h' with exp := { h'.exp with tlsNegotiated := true } }.terms :=
    hL.agree.revise
      (congrArg (fun e : Negotiated => { e with tlsNegotiated := true }) hL.agree.exp) rfl rfl
      hL.agree.stale
  refine complete_alike hA (by split <;> rfl) ?_
  exact if_congr (by rw [hA.current_eq]) rfl rfl

theorem enterExtendedHeadersStart_alike (hL : Alike F h h') :
    (enterExtendedHeadersStart h).Rel (Alike F) (enterExtendedHeadersStart h') := by
  have hA := hL.agree
  unfold enterExtendedHeadersStart
  rw [hA.current_eq, hA.cfg_eq]
  refine require_rel fun _ _ => ite_rel Iff.rfl (fun _ => require_rel fun _ _ => ?_) fun _ =>
    require_rel fun _ _ => ite_rel Iff.rfl (fun _ => ?_) fun _ => ?_
  · exact request_alike hA _ _ rfl
  · exact goto_plain hA rfl rfl
  · exact request_alike hA _ _ rfl

theorem enterExtendedHeadersCheckReply_alike (hL : Alike F h h')
    (hs : h.state = .optCheckReply .extendedHeaders) :
    (enterExtendedHeadersCheckReply inp h).Rel (Alike F) (enterExtendedHeadersCheckReply inp h') := by
  have hA := hL.agree
  have hH := hL.header hs
  have hnext : ∀ {a a' : Handle} {e e' : UInt32}, Agree F a.terms a'.terms →
      (goto (if a.optCurrent = some .extendedHeaders then .negotiating
        else .optStart .structuredReply) (a.completeOption e)).Rel (Alike F)
      (goto (if a'.optCurrent = some .extendedHeaders then .negotiating
        else .optStart .structuredReply) (a'.completeOption e')) := by
    intro a a' e e' hA
    rw [hA.current_eq]
    exact complete_alike hA (by split <;> rfl) rfl
  unfold enterExtendedHeadersCheckReply
  rw [hH.reply]
  refine ite_rel Iff.rfl (fun _ => hnext ?_) fun _ =>
    handleReplyError_alike hH hA fun e t => hnext hA
  exact hA.revise (congrArg (fun e : Negotiated => { e with
    extendedHeaders := true, structuredReplies := true }) hA.exp) rfl rfl hA.stale

/-- The option that the application asked for, or the metadata contexts of GO. -/
theorem afterStructuredReply_alike {a a' b b' : Handle} (hA : Agree F a.terms a'.terms)
    (hB : Agree F b.terms b'.terms)
    (hcur : b.optCurrent = none ∨ b.optCurrent = some .structuredReply) :
    (goto (afterStructuredReply a) b).Rel (Alike F) (goto (afterStructuredReply a') b') := by
  unfold afterStructuredReply
  rw [hA.cfg_eq]
  split
  · exact goto_plain hB rfl rfl
  · refine goto_metaStart hB fun hc => ?_
    rcases hcur with hcur | hcur <;> rw [hcur] at hc <;> rcases hc with hc | hc <;> cases hc

theorem structuredReply_current {h : Handle} {s : State} (hS : RunShape h) (hs : h.state = s)
    (hg : s = .optStart .structuredReply ∨ s = .optCheckReply .structuredReply) :
    h.optCurrent = none ∨ h.optCurrent = some .structuredReply := by
  have hc := hS.shape.current
  rw [hs] at hc
  rcases hg with rfl | rfl <;> exact hc.imp_right And.right

theorem enterStructuredReplyStart_alike (hS : RunShape h) (hL : Alike F h h')
    (hs : h.state = .optStart .structuredReply) :
    (enterStructuredReplyStart h).Rel (Alike F) (enterStructuredReplyStart h') := by
  have hA := hL.agree
  have hcur := structuredReply_current hS hs (.inl rfl)
  unfold enterStructuredReplyStart
  rw [hA.current_eq, hA.cfg_eq, hA.structured]
  refine require_rel fun _ _ => ite_rel Iff.rfl (fun _ => require_rel fun _ _ => ?_) fun _ =>
    require_rel fun _ _ => ite_rel Iff.rfl (fun _ => ?_) fun _ => ?_
  · exact request_alike hA _ _ rfl
  · exact afterStructuredReply_alike hA hA hcur
  · exact request_alike hA _ _ rfl

theorem enterStructuredReplyCheckReply_alike (hS : RunShape h) (hL : Alike F h h')
    (hs : h.state = .optCheckReply .structuredReply) :
    (enterStructuredReplyCheckReply inp h).Rel (Alike F) (enterStructuredReplyCheckReply inp h') := by
  have hA := hL.agree
  have hH := hL.header hs
  have hcur := structuredReply_current hS hs (.inr rfl)
  unfold enterStructuredReplyCheckReply
  rw [hH.reply]
  refine ite_rel Iff.rfl (fun _ => ?_) fun _ => handleReplyError_alike hH hA fun e t => ?_
  · have hA' : Agree F { h with exp := { h.exp with structuredReplies := true } }.terms
        { h' with exp := { h'.exp with structuredReplies := true } }.terms :=
      hA.revise (congrArg (fun e : Negotiated => { e with structuredReplies := true }) hA.exp)
        rfl rfl hA.stale
    exact afterStructuredReply_alike hA' hA' hcur
  · exact afterStructuredReply_alike hA hA hcur

/-! ### `OPT_LIST` -/

theorem enterListStart_alike (hL : Alike F h h') :
    (enterListStart h).Rel (Alike F) (enterListStart h') :=
  require_rel fun _ _ => require_rel fun _ _ => require_rel fun _ _ => request_alike hL.agree _ _ rfl

theorem listExport_alike (hA : Agree F h.terms h'.terms) (name description : CString) :
    (listExport h name description).Rel (Alike F) (listExport h' name description) :=
  awaitReply_alike (show Agree F (h.log _).terms (h'.log _).terms from hA) nofun

theorem listServer_alike (hA : Agree F h.terms h'.terms) (hH : SameHeader h h') :
    (listServer inp h).Rel (Alike F) (listServer inp h') := by
  unfold listServer
  rw [hH.replylen]
  refine ite_rel Iff.rfl (fun _ => awaitReply_alike hA nofun) fun _ => minus_rel fun rest =>
    poke_rel ?_
  have hI := hH.input.poke (optionReplySize + (4 + rest)) [0]
  have hA : Agree F { h with sbuf := h.sbuf.write (optionReplySize + (4 + rest)) [0] }.terms
      { h' with sbuf := h'.sbuf.write (optionReplySize + (4 + rest)) [0] }.terms := hA
  refine fetch_rel hI fun bs => ite_rel Iff.rfl (fun _ => die_alike hA) fun _ => minus_rel fun dlen =>
    ite_rel Iff.rfl (fun _ => die_alike hA) fun _ => ite_rel Iff.rfl (fun _ => ?_) fun _ =>
    ite_rel Iff.rfl (fun _ => die_alike hA) fun _ => ?_
  · exact fetch_rel hI fun str => listExport_alike hA _ _
  · exact fetch_rel hI fun name => fetch_rel hI fun description => listExport_alike hA _ _

theorem enterListCheckReply_alike (hL : Alike F h h') (hs : h.state = .optCheckReply .list) :
    (enterListCheckReply inp h).Rel (Alike F) (enterListCheckReply inp h') := by
  have hA := hL.agree
  have hH := hL.header hs
  unfold enterListCheckReply
  rw [hH.reply]
  refine ite_rel Iff.rfl (fun _ => listServer_alike inp hA hH) fun _ =>
    ite_rel Iff.rfl (fun _ => complete_alike hA rfl rfl) fun _ =>
    handleReplyError_alike hH hA fun e t => ?_
  exact complete_alike (show Agree F (h.setError e t).terms (h'.setError e t).terms from hA) rfl rfl

/-! ### `OPT_META_CONTEXT` -/

/-- The states that forget the contexts of an earlier exchange. -/
def Handle.Refreshes (h : Handle) : Prop :=
  h.state = .optStart .metaContext ∧ h.optCurrent ≠ some .listMetaContext ∧
    (h.optCurrent = some .setMetaContext ∨ h.cfg.requestMeta = true)

theorem metaRequest_alike (hA : Agree F h.terms h'.terms) (opt : Opt)
    (hq : h'.querylist = h.querylist)
    (hask : h.optCurrent ≠ some .listMetaContext →
      SameNames h.exp.metaContexts h'.exp.metaContexts) :
    (metaRequest h opt).Rel (Alike F) (metaRequest h' opt) := by
  have hlen : h'.metaOptlen = h.metaOptlen := by
    rw [Handle.metaOptlen, Handle.metaOptlen, hA.cfg_eq, hq]
  unfold metaRequest
  rw [hlen]
  dsimp only
  by_cases ho : opt = .setMetaContext
  · rw [if_pos ho, if_pos ho]
    refine goto_meta ?_ rfl (fun _ => ?_) (fun _ => ?_) of_false_eq_true ?_
    · rw [terms_log, terms_log, terms_request, terms_request]
      exact hA
    · rfl
    · simpa using hq
    · simpa using hask
  · rw [if_neg ho, if_neg ho]
    refine goto_meta ?_ rfl (fun _ => ?_) (fun _ => ?_) of_false_eq_true ?_
    · rw [terms_request, terms_request]
      exact hA
    · rfl
    · simpa using hq
    · simpa using hask

theorem Agree.resetContexts (hA : Agree F h.terms h'.terms) (G : Prop) :
    Agree G h.resetContexts.terms h'.resetContexts.terms :=
  hA.contexts G (congrArg (fun e : Negotiated => { e with metaValid := false }) hA.exp) (.refl [])

theorem setQuerylist_alike (hA : Agree F h.terms h'.terms) (queries : Option (List CString)) :
    (setQuerylist inp h' queries).2 = (setQuerylist inp h queries).2 ∧
    (setQuerylist inp h' queries).1.querylist = (setQuerylist inp h queries).1.querylist := by
  unfold setQuerylist
  rw [hA.cfg_eq]
  refine ⟨rfl, ?_⟩
  dsimp only
  split <;> rfl

theorem setQuerylist_terms (queries : Option (List CString)) :
    (setQuerylist inp h queries).1.terms = h.terms := by
  unfold setQuerylist
  dsimp only
  split <;> rfl

theorem metaAutomatic_alike (hA : Agree F h.terms h'.terms)
    (hnames : h.cfg.requestMeta = true → SameNames h.exp.metaContexts h'.exp.metaContexts) :
    (metaAutomatic inp h).Rel (Alike F) (metaAutomatic inp h') := by
  unfold metaAutomatic
  rw [hA.cfg_eq, hA.structured]
  refine ite_rel Iff.rfl (fun _ => ?_) fun hask => ?_
  · refine goto_plain ?_ rfl rfl
    split <;> exact hA
  · have hmeta : h.cfg.requestMeta = true := by
      simp only [Bool.or_eq_true, not_or, Bool.not_eq_true', Bool.not_eq_false] at hask
      exact hask.1.1
    obtain ⟨hok, hlist⟩ := setQuerylist_alike inp hA none
    have hw := setQuerylist_terms inp (h := h) none
    have hw' := setQuerylist_terms inp (h := h') none
    generalize setQuerylist inp h none = x at hok hlist hw
    generalize setQuerylist inp h' none = x' at hok hlist hw'
    obtain ⟨a, ok⟩ := x
    obtain ⟨a', ok'⟩ := x'
    cases hok
    dsimp only at hlist hw hw' ⊢
    have hA' : Agree F a.terms a'.terms := by
      rw [hw, hw']
      exact hA
    refine ite_rel Iff.rfl (fun _ => metaRequest_alike hA' _ hlist fun _ => ?_) fun _ =>
      goto_plain hA' rfl rfl
    show SameNames a.terms.exp.metaContexts a'.terms.exp.metaContexts
    rw [hw, hw']
    exact hnames hmeta

theorem enterMetaContextStart_alike (hL : Alike F h h') (hs : h.state = .optStart .metaContext) :
    (enterMetaContextStart inp h).Rel (Alike (F ∨ h.Refreshes)) (enterMetaContextStart inp h') := by
  have hA := hL.agree
  have hq := hL.queries
  rw [hs] at hq
  have hstays : ¬ h.Refreshes → Agree (F ∨ h.Refreshes) h.terms h'.terms := fun hn =>
    { hA with names := fun hF => hA.names (hF.resolve_right hn) }
  unfold enterMetaContextStart
  rw [hA.current_eq, hA.cfg_eq]
  refine require_rel fun _ _ => ite_rel Iff.rfl (fun hc => ?_) fun hc => ?_
  · refine require_rel fun _ _ => require_rel fun _ _ => ?_
    exact metaRequest_alike (hstays fun hr => hr.2.1 hc) _ (hq (by rw [hc]; rfl)) fun hne => absurd hc hne
  refine ite_rel Iff.rfl (fun hc' => ?_) fun hc' => ?_
  · refine require_rel fun _ _ => ?_
    exact metaRequest_alike (hA.resetContexts _) _ (hq (by rw [hc']; rfl)) fun _ => .refl []
  · refine require_rel fun _ _ => ?_
    by_cases hm : h.cfg.requestMeta = true
    · simp only [hm, if_true]
      exact metaAutomatic_alike inp (hA.resetContexts _) fun _ => .refl []
    · simp only [hm]
      refine metaAutomatic_alike inp (hstays fun hr => ?_) fun h => absurd h hm
      exact hr.2.2.elim hc' hm

section Sending

variable {s : State} (hL : Alike F h h')

/-- The next number of a request about metadata contexts. -/
theorem sendNumber_alike {n n' : Nat} (hA : Agree F h.terms h'.terms) (hs : s.isMetaStep = true)
    (he : n' = n)
    (hq : s.usesQueries h.optCurrent = true → h'.querylist = h.querylist)
    (hn : s.usesQuerynum = true → h'.querynum = h.querynum)
    (hask : h.optCurrent ≠ some .listMetaContext →
      SameNames h.exp.metaContexts h'.exp.metaContexts) :
    (sendNumber s n h).Rel (Alike F) (sendNumber s n' h') := by
  subst he
  refine goto_meta ?_ hs (fun _ => rfl) ?_ ?_ ?_
  · rw [terms_emit, terms_emit]
    exact hA
  · simpa using hq
  · simpa using hn
  · simpa using hask

include hL

theorem enterMetaContextSend_alike (hs : h.state = .optSend .metaContext) :
    (enterMetaContextSend inp h).Rel (Alike F) (enterMetaContextSend inp h') := by
  refine sendThen_alike hL (by rw [hs]; rfl) fun n => ?_
  refine sendNumber_alike (s := .metaSendExportnamelen) ?_ rfl ?_ (fun _ => ?_) nofun ?_
  · exact hL.agree
  · exact congrArg (fun c : Settings => c.exportName.length) hL.agree.cfg_eq
  · exact hL.queries (by rw [hs]; rfl)
  · exact hL.asking (by rw [hs]; rfl)

theorem enterMetaSendExportnamelen_alike (hs : h.state = .metaSendExportnamelen) :
    (enterMetaSendExportnamelen inp h).Rel (Alike F) (enterMetaSendExportnamelen inp h') := by
  refine sendThen_alike hL (by rw [hs]; rfl) fun n => ?_
  exact goto_meta hL.agree rfl (fun _ => congrArg Settings.exportName hL.agree.cfg_eq)
    (fun _ => hL.queries (by rw [hs]; rfl)) nofun (hL.asking (by rw [hs]; rfl))

theorem enterMetaSendExportname_alike (hs : h.state = .metaSendExportname) :
    (enterMetaSendExportname inp h).Rel (Alike F) (enterMetaSendExportname inp h') := by
  have hq := hL.queries (by rw [hs]; rfl)
  refine sendThen_alike hL (by rw [hs]; rfl) fun n => ?_
  refine sendNumber_alike (s := .metaSendNrqueries) ?_ rfl ?_ (fun _ => hq) nofun ?_
  · exact hL.agree
  · exact congrArg List.length hq
  · exact hL.asking (by rw [hs]; rfl)

theorem enterMetaSendNrqueries_alike (hs : h.state = .metaSendNrqueries) :
    (enterMetaSendNrqueries inp h).Rel (Alike F) (enterMetaSendNrqueries inp h') := by
  refine sendThen_alike hL (by rw [hs]; rfl) fun n => ?_
  exact goto_meta hL.agree rfl nofun (fun _ => hL.queries (by rw [hs]; rfl)) (fun _ => rfl)
    (hL.asking (by rw [hs]; rfl))

theorem enterMetaPrepareNextQuery_alike (hs : h.state = .metaPrepareNextQuery) :
    (enterMetaPrepareNextQuery h).Rel (Alike F) (enterMetaPrepareNextQuery h') := by
  have hq := hL.queries (by rw [hs]; rfl)
  have hn := hL.querynum (by rw [hs]; rfl)
  have hask := hL.asking (by rw [hs]; rfl)
  unfold enterMetaPrepareNextQuery
  rw [hq, hn]
  cases h.querylist[h.querynum]? with
  | none => exact goto_meta hL.agree rfl nofun nofun nofun hask
  | some query => exact sendNumber_alike hL.agree rfl rfl (fun _ => hq) (fun _ => hn) hask

theorem enterMetaSendQuerylen_alike (hs : h.state = .metaSendQuerylen) :
    (enterMetaSendQuerylen inp h).Rel (Alike F) (enterMetaSendQuerylen inp h') := by
  have hq := hL.queries (by rw [hs]; rfl)
  have hn := hL.querynum (by rw [hs]; rfl)
  refine sendThen_alike hL (by rw [hs]; rfl) fun n => ?_
  refine goto_meta hL.agree rfl (fun _ => ?_) (fun _ => hq) (fun _ => hn) (hL.asking (by rw [hs]; rfl))
  show (h'.querylist[h'.querynum]?).getD [] = (h.querylist[h.querynum]?).getD []
  rw [hq, hn]

theorem enterMetaSendQuery_alike (hs : h.state = .metaSendQuery) :
    (enterMetaSendQuery inp h).Rel (Alike F) (enterMetaSendQuery inp h') := by
  refine sendThen_alike hL (by rw [hs]; rfl) fun n => ?_
  exact goto_meta hL.agree rfl nofun (fun _ => hL.queries (by rw [hs]; rfl))
    (fun _ => congrArg (· + 1) (hL.querynum (by rw [hs]; rfl))) (hL.asking (by rw [hs]; rfl))

theorem enterMetaPrepareForReply_alike (hs : h.state = .metaPrepareForReply) :
    (enterMetaPrepareForReply h).Rel (Alike F) (enterMetaPrepareForReply h') :=
  awaitReply_alike hL.agree fun _ => hL.asking (by rw [hs]; rfl)

end Sending

/-- A context that the server has, kept by SET. -/
theorem metaContextReply_alike (hA : Agree F h.terms h'.terms) (hH : SameHeader h h')
    {opt : Opt} (hopt : opt = h.groupOption .metaContext)
    (hask : h.optCurrent ≠ some .listMetaContext →
      SameNames h.exp.metaContexts h'.exp.metaContexts) :
    (metaContextReply inp opt h).Rel (Alike F) (metaContextReply inp opt h') := by
  unfold metaContextReply
  rw [hH.replylen]
  refine ite_rel Iff.rfl (fun _ => ?_) fun _ => ?_
  · exact goto_meta hA rfl of_false_eq_true of_false_eq_true of_false_eq_true hask
  refine require_rel fun _ _ => fetch_rel hH.input fun id => minus_rel fun rest =>
    fetch_rel hH.input fun str =>
    ite_rel Iff.rfl (fun _ => die_alike hA) fun _ => ?_
  dsimp only
  refine ite_rel Iff.rfl (fun _ => ?_) fun ho => ite_rel Iff.rfl (fun _ => ?_) fun _ => ?_
  · exact goto_meta hA rfl of_false_eq_true of_false_eq_true of_false_eq_true hask
  · exact die_alike hA
  · have hne : h.optCurrent ≠ some .listMetaContext := by
      intro hc
      rw [hopt, Handle.groupOption, if_pos hc] at ho
      exact ho rfl
    have hnames := (hask hne).snoc (strndup str, UInt32.ofNat (beNat id))
    refine goto_meta ?_ rfl of_false_eq_true of_false_eq_true of_false_eq_true fun _ => hnames
    exact hA.contexts F hA.exp hnames

theorem metaFinish_alike {e : UInt32} (hA : Agree F h.terms h'.terms) :
    (metaFinish e h).Rel (Alike F) (metaFinish e h') := complete_alike hA rfl rfl

theorem enterMetaContextCheckReply_alike (hL : Alike F h h')
    (hs : h.state = .optCheckReply .metaContext) :
    (enterMetaContextCheckReply inp h).Rel (Alike F) (enterMetaContextCheckReply inp h') := by
  have hA := hL.agree
  have hH := hL.header hs
  have hask := hL.asking (by rw [hs]; rfl)
  have hcur : ∀ opt, h'.optCurrent = some opt ↔ h.optCurrent = some opt := fun opt => by
    rw [hA.current_eq]
  unfold enterMetaContextCheckReply
  rw [hA.groupOption, hH.reply]
  refine ite_rel Iff.rfl (fun _ => ?_) fun _ => ite_rel Iff.rfl
    (fun _ => metaContextReply_alike inp hA hH rfl hask) fun _ =>
    handleReplyError_alike hH hA fun e t => ?_
  · by_cases hc : h.optCurrent = some .listMetaContext
    · have ho : h.groupOption .metaContext = .listMetaContext := if_pos hc
      rw [ho]
      exact ite_rel (hcur _) (fun _ => metaFinish_alike hA) fun _ => goto_plain hA rfl rfl
    · have ho : h.groupOption .metaContext = .setMetaContext := if_neg hc
      rw [ho]
      have hB : Agree F { h with exp := { h.exp with metaValid := true } }.terms
          { h' with exp := { h'.exp with metaValid := true } }.terms :=
        hA.revise (congrArg (fun e : Negotiated => { e with metaValid := true }) hA.exp) rfl rfl
          (.inl (hask hc))
      exact ite_rel (hcur _) (fun _ => metaFinish_alike hB) fun _ => goto_plain hB rfl rfl
  · have hA : Agree F (h.setError e t).terms (h'.setError e t).terms := hA
    by_cases hc : h.optCurrent = some .listMetaContext
    · have ho : h.groupOption .metaContext = .listMetaContext := if_pos hc
      rw [ho]
      exact ite_rel (hcur _) (fun _ => metaFinish_alike hA) fun _ => goto_plain hA rfl rfl
    · have ho : h.groupOption .metaContext = .setMetaContext := if_neg hc
      rw [ho]
      refine ite_rel (hcur _) (fun _ => metaFinish_alike hA) fun _ =>
        goto_plain (hA.revise ?_ rfl rfl (.inl (hask hc))) rfl rfl
      show ({ h'.exp with metaValid := h'.exp.metaContexts.isEmpty } : Negotiated).reported = _
      rw [← (hask hc).isEmpty]
      exact congrArg (fun e : Negotiated => { e with metaValid := h.exp.metaContexts.isEmpty }) hA.exp

/-! ### `OPT_GO` -/

theorem Agree.nrinfos (hA : Agree F h.terms h'.terms) : h'.nrinfos = h.nrinfos := by
  rw [Handle.nrinfos, Handle.nrinfos, hA.cfg_eq]

theorem Agree.infos (hA : Agree F h.terms h'.terms) : h'.infos = h.infos := by
  rw [Handle.infos, Handle.infos, hA.cfg_eq]

theorem Agree.resetSizeAndFlags (hA : Agree F h.terms h'.terms) :
    Agree F h.resetSizeAndFlags.terms h'.resetSizeAndFlags.terms :=
  hA.revise (congrArg (fun e : Negotiated => { e with
      exportsize := 0, eflags := 0, blockMinimum := 0, blockPreferred := 0, blockMaximum := 0,
      payloadMaximum := 0, canonicalName := none, description := none }) hA.exp) rfl rfl hA.stale

theorem goSend_alike (hA : Agree F h.terms h'.terms) :
    (goto (.optSend .go) { h.request (h.optCurrent.getD .go)
        (4 + h.cfg.exportName.length + 2 + 2 * h.nrinfos) with wflags := true }).Rel (Alike F)
      (goto (.optSend .go) { h'.request (h'.optCurrent.getD .go)
        (4 + h'.cfg.exportName.length + 2 + 2 * h'.nrinfos) with wflags := true }) := by
  rw [hA.nrinfos, hA.cfg_eq, hA.current_eq]
  refine goto_outgoing ?_ rfl rfl
  rw [terms_request, terms_request]
  exact hA

theorem enterGoStart_alike (hL : Alike F h h') :
    (enterGoStart h).Rel (Alike F) (enterGoStart h') := by
  have hA := hL.agree.resetSizeAndFlags
  have hcur : h'.resetSizeAndFlags.optCurrent = h.resetSizeAndFlags.optCurrent := hA.current
  unfold enterGoStart
  refine require_rel fun _ _ => ite_rel (by rw [hcur]) (fun _ => require_rel fun _ _ => ?_) fun _ =>
    ite_rel (by rw [hcur]) (fun _ => require_rel fun _ _ => require_rel fun _ _ => ?_) fun _ => ?_
  · exact goSend_alike hA
  · have hA : Agree F { h.resetSizeAndFlags with optCurrent := some .go }.terms
        { h'.resetSizeAndFlags with optCurrent := some .go }.terms := { hA with current := rfl }
    exact goSend_alike hA
  · exact goSend_alike hA

section Sending

variable (hL : Alike F h h')
include hL

theorem enterGoSend_alike (hs : h.state = .optSend .go) :
    (enterGoSend inp h).Rel (Alike F) (enterGoSend inp h') := by
  refine sendThen_alike hL (by rw [hs]; rfl) fun n => ?_
  refine goto_outgoing ?_ rfl ?_
  · rw [terms_emit, terms_emit]
    exact hL.agree
  · exact congrArg (fun c : Settings => toBE 4 c.exportName.length) hL.agree.cfg_eq

theorem enterGoSendExportnamelen_alike (hs : h.state = .goSendExportnamelen) :
    (enterGoSendExportnamelen inp h).Rel (Alike F) (enterGoSendExportnamelen inp h') := by
  refine sendThen_alike hL (by rw [hs]; rfl) fun n => ?_
  exact goto_outgoing hL.agree rfl (congrArg Settings.exportName hL.agree.cfg_eq)

theorem enterGoSendExport_alike (hs : h.state = .goSendExport) :
    (enterGoSendExport inp h).Rel (Alike F) (enterGoSendExport inp h') := by
  refine sendThen_alike hL (by rw [hs]; rfl) fun n => ?_
  exact goto_outgoing hL.agree rfl (congrArg (toBE 2) hL.agree.nrinfos)

theorem enterGoSendNrinfos_alike (hs : h.state = .goSendNrinfos) :
    (enterGoSendNrinfos inp h).Rel (Alike F) (enterGoSendNrinfos inp h') := by
  refine sendThen_alike hL (by rw [hs]; rfl) fun n => ?_
  exact goto_outgoing hL.agree rfl
    (congrArg (List.flatMap fun i : UInt16 => toBE 2 i.toNat) hL.agree.infos)

theorem enterGoSendInfo_alike (hs : h.state = .goSendInfo) :
    (enterGoSendInfo inp h).Rel (Alike F) (enterGoSendInfo inp h') :=
  sendThen_alike hL (by rw [hs]; rfl) fun _ => awaitReply_alike hL.agree nofun

end Sending

theorem goString_alike {which : String} {set set' : Option CString → Handle}
    (hA : Agree F h.terms h'.terms) (hH : SameHeader h h')
    (hset : ∀ x, Agree F (set x).terms (set' x).terms) :
    (goString inp which set h).Rel (Alike F) (goString inp which set' h') := by
  unfold goString
  rw [hH.replylen]
  refine ite_rel Iff.rfl (fun _ => die_alike hA) fun _ => minus_rel fun rest =>
    fetch_rel hH.input fun str => ite_rel Iff.rfl (fun _ => ?_) fun _ => ?_
  · exact awaitReply_alike (hset _) nofun
  · exact die_alike (hset _)

theorem Agree.setBlockSize (hA : Agree F h.terms h'.terms) (min pref max : UInt32) :
    Agree F (h.setBlockSize min pref max).terms (h'.setBlockSize min pref max).terms := by
  unfold Handle.setBlockSize
  split
  · exact hA
  · exact hA.revise (congrArg (fun e : Negotiated => { e with
      blockMinimum := min, blockPreferred := pref, blockMaximum := max }) hA.exp) rfl rfl hA.stale

theorem goInfo_alike (hA : Agree F h.terms h'.terms) (hH : SameHeader h h') :
    (goInfo inp h).Rel (Alike F) (goInfo inp h') := by
  unfold goInfo
  rw [hH.replylen]
  refine ite_rel Iff.rfl (fun _ => require_rel fun _ _ => awaitReply_alike hA nofun) fun _ =>
    require_rel fun _ _ => fetch_rel hH.input fun info => ?_
  refine ite_rel Iff.rfl (fun _ => ite_rel Iff.rfl (fun _ => die_alike hA) fun _ => ?_) fun _ =>
    ite_rel Iff.rfl (fun _ => ite_rel Iff.rfl (fun _ => die_alike hA) fun _ => ?_) fun _ =>
    ite_rel Iff.rfl (fun _ => ?_) fun _ => ite_rel Iff.rfl (fun _ => ?_) fun _ =>
    awaitReply_alike hA nofun
  · refine fetch_rel hH.input fun exportsize => fetch_rel hH.input fun eflags =>
      setSizeAndFlags_alike hA ?_
    exact fun a a' hA' _ _ => awaitReply_alike hA' nofun
  · refine fetch_rel hH.input fun min => fetch_rel hH.input fun pref =>
      fetch_rel hH.input fun max => ?_
    exact awaitReply_alike (hA.setBlockSize _ _ _) nofun
  · refine goString_alike inp hA hH fun x => hA.revise ?_ rfl rfl hA.stale
    exact congrArg (fun e : Negotiated => { e with canonicalName := x }) hA.exp
  · refine goString_alike inp hA hH fun x => hA.revise ?_ rfl rfl hA.stale
    exact congrArg (fun e : Negotiated => { e with description := x }) hA.exp

theorem goFinish_alike {e : UInt32} (hA : Agree F h.terms h'.terms) :
    (goFinish e h).Rel (Alike F) (goFinish e h') := by
  refine complete_alike hA ?_ ?_
  · split
    · rfl
    · split <;> rfl
  · rw [hA.current_eq, hA.cfg_eq]

theorem Agree.setPayload (hA : Agree F h.terms h'.terms) :
    Agree F h.setPayload.terms h'.setPayload.terms :=
  hA.revise (congrArg (fun e : Negotiated => { e with
    payloadMaximum :=
      if e.blockMaximum ≠ 0 then min (UInt32.ofNat maxRequestSize) (max (1024 * 1024) e.blockMaximum)
      else 32 * 1024 * 1024 }) hA.exp) rfl rfl hA.stale

theorem Agree.forgetExport (hA : Agree F h.terms h'.terms) :
    Agree F h.forgetExport.terms h'.forgetExport.terms :=
  hA.revise (congrArg (fun e : Negotiated => { e with
      exportsize := 0, eflags := 0, blockMinimum := 0, blockPreferred := 0, blockMaximum := 0,
      payloadMaximum := 0, canonicalName := none, description := none, metaValid := false }) hA.exp)
    rfl rfl (.inr rfl)

theorem enterGoCheckReply_alike (hL : Alike F h h') (hs : h.state = .optCheckReply .go) :
    (enterGoCheckReply inp h).Rel (Alike F) (enterGoCheckReply inp h') := by
  have hA := hL.agree
  have hH := hL.header hs
  unfold enterGoCheckReply
  rw [hH.reply, hA.current_eq]
  refine ite_rel Iff.rfl (fun _ => goInfo_alike inp hA hH) fun _ =>
    ite_rel Iff.rfl (fun _ => goto_plain hA rfl rfl) fun _ =>
    ite_rel Iff.rfl (fun _ => goFinish_alike hA.setPayload) fun _ =>
    handleReplyError_alike hH hA fun e t => require_rel fun _ _ => ?_
  have hA : Agree F (h.setError e t).terms (h'.setError e t).terms := hA
  exact goFinish_alike hA.forgetExport

/-! ### `OPT_EXPORT_NAME` -/

theorem enterExportNameStart_alike (hL : Alike F h h') :
    (enterExportNameStart h).Rel (Alike F) (enterExportNameStart h') := by
  have hA := hL.agree
  unfold enterExportNameStart
  rw [hA.cfg_eq]
  dsimp only
  refine goto_outgoing ?_ rfl ?_
  · rw [apply_ite Handle.terms, apply_ite Handle.terms, terms_log, terms_log, terms_request,
      terms_request, ite_self, ite_self]
    exact hA
  · rw [apply_ite Handle.wbuf, apply_ite Handle.wbuf, Handle.log_wbuf, Handle.log_wbuf, ite_self,
      ite_self]
    rfl

theorem exportReply_alike {n n' : Nat} (hA : Agree F h.terms h'.terms) (hn : 10 ≤ n) (he : n' = n) :
    (goto .exportNameRecvReply (h.expect 0 n)).Rel (Alike F)
      (goto .exportNameRecvReply (h'.expect 0 n')) := by
  subst he
  refine ⟨hA, rfl, nofun, ?_, fun _ => .none rfl rfl rfl rfl, nofun, nofun, rfl, nofun, nofun⟩
  show 10 ≤ 0 + n'
  omega

section Sending

variable (hL : Alike F h h')
include hL

theorem enterExportNameSend_alike (hs : h.state = .exportNameSend) :
    (enterExportNameSend inp h).Rel (Alike F) (enterExportNameSend inp h') := by
  refine sendThen_alike hL (by rw [hs]; rfl) fun n => ?_
  exact goto_outgoing hL.agree rfl (congrArg Settings.exportName hL.agree.cfg_eq)

theorem enterExportNameSendExport_alike (hs : h.state = .exportNameSendExport) :
    (enterExportNameSendExport inp h).Rel (Alike F) (enterExportNameSendExport inp h') := by
  refine sendThen_alike hL (by rw [hs]; rfl) fun n => ?_
  refine exportReply_alike ?_ ?_ ?_
  · exact hL.agree
  · split <;> omega
  · exact congrArg (fun g : UInt16 => if g &&& flagNoZeroes != 0 then 10 else 134) hL.agree.gflags

theorem enterExportNameRecvReply_alike (hs : h.state = .exportNameRecvReply) :
    (enterExportNameRecvReply inp h).Rel (Alike F) (enterExportNameRecvReply inp h') := by
  refine recvThen_alike hL (by rw [hs]; rfl) fun bs hbs => ?_
  have hL' := hL.store (Nat.le_of_eq hbs)
  have hst : (h.store bs).state = .exportNameRecvReply := hs
  refine ⟨hL'.agree, rfl, nofun, ?_, fun _ => ?_, nofun, nofun, rfl, nofun, nofun⟩
  · have hf := hL'.framed
    have hz : (h.store bs).rlen = 0 := by
      simp only [Handle.store_rlen]
      omega
    rw [hst, hz] at hf
    exact hf
  · have hI := hL'.input (by rw [hst]; rfl)
    exact ⟨hI.rbuf, hI.rlen, hI.sbuf⟩

theorem enterExportNameCheckReply_alike (hs : h.state = .exportNameCheckReply) :
    (enterExportNameCheckReply h).Rel (Alike F) (enterExportNameCheckReply h') := by
  have hA := hL.agree
  have hI := hL.input (by rw [hs]; rfl)
  have hf := hL.framed
  rw [hs] at hf
  have hseen : 10 ≤ h.seen := hf
  unfold enterExportNameCheckReply
  rw [hI.be64 0 (by omega), hI.be16 8 (by omega)]
  exact setSizeAndFlags_alike hA fun a a' hA' _ _ => complete_alike hA'.setPayload rfl rfl

end Sending

/-! ### All states -/

theorem enterDead_alike (hL : Alike F h h') (hs : h.state = .dead) :
    (enterDead h).Rel (Alike F) (enterDead h') :=
  require_rel fun _ _ => @Alike.plain F h.abortOption h'.abortOption hL.agree
    (by rw [show h.abortOption.state = _ from hs]; rfl) hL.state

theorem enterClosed_alike (hL : Alike F h h') (hs : h.state = .closed) :
    (enterClosed h).Rel (Alike F) (enterClosed h') :=
  @Alike.plain F h.abortOption h'.abortOption hL.agree
    (by rw [show h.abortOption.state = _ from hs]; rfl) hL.state

theorem enterOptStart_alike {g : OptGroup} (hS : RunShape h) (hL : Alike F h h')
    (hs : h.state = .optStart g) (hg : g ≠ .metaContext) :
    (enterOptStart inp g h).Rel (Alike F) (enterOptStart inp g h') := by
  cases g with
  | starttls => exact enterStarttlsStart_alike hL
  | extendedHeaders => exact enterExtendedHeadersStart_alike hL
  | structuredReply => exact enterStructuredReplyStart_alike hS hL hs
  | list => exact enterListStart_alike hL
  | metaContext => exact absurd rfl hg
  | go => exact enterGoStart_alike hL

theorem enterOptSend_alike {g : OptGroup} (hL : Alike F h h') (hs : h.state = .optSend g)
    (hg : g ≠ .metaContext) : (enterOptSend inp g h).Rel (Alike F) (enterOptSend inp g h') :=
  sendThen_alike hL (by rw [hs]; rfl) fun _ => awaitReply_alike hL.agree fun h => absurd h hg

theorem enterOptSendGroup_alike {g : OptGroup} (hL : Alike F h h') (hs : h.state = .optSend g) :
    (enterOptSendGroup inp g h).Rel (Alike F) (enterOptSendGroup inp g h') := by
  cases g with
  | metaContext => exact enterMetaContextSend_alike inp hL hs
  | go => exact enterGoSend_alike inp hL hs
  | starttls => exact enterOptSend_alike inp hL hs nofun
  | extendedHeaders => exact enterOptSend_alike inp hL hs nofun
  | structuredReply => exact enterOptSend_alike inp hL hs nofun
  | list => exact enterOptSend_alike inp hL hs nofun

theorem enterOptCheckReply_alike {g : OptGroup} (hS : RunShape h) (hL : Alike F h h')
    (hs : h.state = .optCheckReply g) :
    (enterOptCheckReply inp g h).Rel (Alike F) (enterOptCheckReply inp g h') := by
  cases g with
  | starttls => exact enterStarttlsCheckReply_alike inp hL hs
  | extendedHeaders => exact enterExtendedHeadersCheckReply_alike inp hL hs
  | structuredReply => exact enterStructuredReplyCheckReply_alike inp hS hL hs
  | list => exact enterListCheckReply_alike inp hL hs
  | metaContext => exact enterMetaContextCheckReply_alike inp hL hs
  | go => exact enterGoCheckReply_alike inp hL hs

/-- The states other than `OPT_META_CONTEXT.START`. -/
theorem enter_alike_other (hS : RunShape h) (hL : Alike F h h')
    (hne : h.state ≠ .optStart .metaContext) : (enter inp h).Rel (Alike F) (enter inp h') := by
  have hlate := hL.late
  unfold enter
  rw [hL.state]
  cases hs : h.state with
  | negotiating => exact hL
  | ready => exact require_rel fun _ _ => hL
  | dead => exact enterDead_alike hL hs
  | closed => exact enterClosed_alike hL hs
  | newstyleStart => exact enterNewstyleStart_alike hS hL hs
  | newstylePrepareOptAbort => exact enterNewstylePrepareOptAbort_alike hL
  | newstyleSendOptAbort =>
    exact sendThen_alike hL (by rw [hs]; rfl) fun _ => goto_plain hL.agree rfl rfl
  | newstyleSendOptionShutdown => exact enterNewstyleSendOptionShutdown_alike inp hL
  | newstyleFinished => exact goto_plain hL.agree rfl rfl
  | optStart g => exact enterOptStart_alike inp hS hL hs fun hg => hne (by rw [hs, hg])
  | optSend g => exact enterOptSendGroup_alike inp hL hs
  | optRecvReply g => exact enterOptRecvReply_alike inp hL hs
  | optRecvReplyPayload g => exact enterOptRecvReplyPayload_alike inp hL hs
  | optCheckReply g => exact enterOptCheckReply_alike inp hS hL hs
  | tlsHandshakeRead => exact enterTlsHandshake_alike inp hL
  | tlsHandshakeWrite => exact enterTlsHandshake_alike inp hL
  | tlsHandshakeDone => exact enterTlsHandshakeDone_alike hL
  | metaSendExportnamelen => exact enterMetaSendExportnamelen_alike inp hL hs
  | metaSendExportname => exact enterMetaSendExportname_alike inp hL hs
  | metaSendNrqueries => exact enterMetaSendNrqueries_alike inp hL hs
  | metaPrepareNextQuery => exact enterMetaPrepareNextQuery_alike hL hs
  | metaSendQuerylen => exact enterMetaSendQuerylen_alike inp hL hs
  | metaSendQuery => exact enterMetaSendQuery_alike inp hL hs
  | metaPrepareForReply => exact enterMetaPrepareForReply_alike hL hs
  | goSendExportnamelen => exact enterGoSendExportnamelen_alike inp hL hs
  | goSendExport => exact enterGoSendExport_alike inp hL hs
  | goSendNrinfos => exact enterGoSendNrinfos_alike inp hL hs
  | goSendInfo => exact enterGoSendInfo_alike inp hL hs
  | exportNameStart => exact enterExportNameStart_alike hL
  | exportNameSend => exact enterExportNameSend_alike inp hL hs
  | exportNameSendExport => exact enterExportNameSendExport_alike inp hL hs
  | exportNameRecvReply => exact enterExportNameRecvReply_alike inp hL hs
  | exportNameCheckReply => exact enterExportNameCheckReply_alike hL hs
  | _ =>
    rw [hs] at hlate
    cases hlate

theorem Alike.widen {G : Prop} (hL : Alike F h h') (hG : G → F) : Alike G h h' :=
  { hL with agree := { hL.agree with names := fun g => hL.agree.names (hG g) } }

/-- **One iteration of the run loop.** -/
theorem enter_alike (hS : RunShape h) (hL : Alike F h h') :
    (enter inp h).Rel (Alike (F ∨ h.Refreshes)) (enter inp h') := by
  by_cases hs : h.state = .optStart .metaContext
  · unfold enter
    rw [hL.state, hs]
    exact enterMetaContextStart_alike inp hL hs
  · refine (enter_alike_other inp hS hL hs).mono fun a a' ha => ha.widen fun hF => ?_
    exact hF.resolve_right fun hr => hs hr.1

end States

end Libnbd.Negotiation
