import Libnbd.Negotiation.Callbacks

/-!
How an option call ends.

`Underway` holds from the moment at which an option call is accepted up to the next
call: its completion callback has not been called yet, or it has been called once,
and then the error that it was given tells the state that the handle is in. It is
kept by every state except where the server refuses STARTTLS although TLS is required.
-/

namespace Libnbd.Negotiation

open Lib

/-! ## What a completion callback is told -/

/-- The error that an event gives to the completion callback of option `id`. -/
def Event.tells (id : Nat) : Event → Option UInt32
  | completion i err => if i = id then some err else none
  | _ => none

/-- The errors that the completion callback of option `id` was given. -/
def errorsTold (id : Nat) (trace : List Event) : List UInt32 := trace.filterMap (Event.tells id)

section Told

variable {id : Nat} {t es : List Event}

theorem errorsTold_append (id : Nat) (t es : List Event) :
    errorsTold id (t ++ es) = errorsTold id t ++ errorsTold id es :=
  List.filterMap_append

/-- Events that are no completion of the option. -/
theorem errorsTold_eq_nil (hes : ∀ e ∈ es, e.tells id = none) : errorsTold id es = [] :=
  List.filterMap_eq_nil_iff.mpr hes

theorem errorsTold_silent (hes : ∀ e ∈ es, e.tells id = none) :
    errorsTold id (t ++ es) = errorsTold id t := by
  rw [errorsTold_append, errorsTold_eq_nil hes, List.append_nil]

theorem errorsTold_log {e : Event} (he : e.tells id = none) : errorsTold id (t ++ [e]) = errorsTold id t :=
  errorsTold_silent fun e' he' => by rwa [List.mem_singleton.mp he']

/-- Freeing the closures tells nobody anything. -/
theorem errorsTold_freeOption (h : Handle) (id : Nat) :
    errorsTold id h.freeOption.trace = errorsTold id h.trace := by
  have hfree : ∀ (p : Bool) (e : Event), e.tells id = none →
      ∀ e' ∈ (if p then [e] else []), e'.tells id = none := by
    intro p e he e' he'
    cases p with
    | true => rwa [List.mem_singleton.mp he']
    | false => cases he'
  rw [Handle.freeOption_trace, errorsTold_silent (hfree _ _ rfl), errorsTold_silent (hfree _ _ rfl)]

theorem errorsTold_complete {h : Handle} (hcb : h.optCb.completion.callback = true) (err : UInt32) :
    errorsTold h.optCb.id (h.completeOption err).trace = errorsTold h.optCb.id h.trace ++ [err] := by
  simp only [Handle.completeOption, errorsTold_freeOption, Handle.log_trace, hcb, if_true, errorsTold_append]
  simp [errorsTold, Event.tells]

theorem errorsTold_complete_silent {h : Handle} (hcb : h.optCb.completion.callback = false)
    (id : Nat) (err : UInt32) : errorsTold id (h.completeOption err).trace = errorsTold id h.trace := by
  simp only [Handle.completeOption, errorsTold_freeOption, Handle.log_trace, hcb, Bool.false_eq_true,
    if_false, List.append_nil]

end Told

/-! ## Between acceptance and the next call -/

/-- The options whose synchronous calls say how they end. -/
def Opt.isWaited : Opt → Bool
  | go | info | starttls | extendedHeaders | structuredReply => true
  | _ => false

/-- The states in which an option is in progress, or `DEAD`. -/
def State.isWithin : State → Bool
  | newstyleStart | dead | optStart _ | optSend _ | optRecvReply _ | optRecvReplyPayload _
  | optCheckReply _ | tlsHandshakeRead | tlsHandshakeWrite | tlsHandshakeDone
  | metaSendExportnamelen | metaSendExportname | metaSendNrqueries | metaPrepareNextQuery
  | metaSendQuerylen | metaSendQuery | metaPrepareForReply | goSendExportnamelen | goSendExport
  | goSendNrinfos | goSendInfo | exportNameStart | exportNameSend | exportNameSendExport
  | exportNameRecvReply | exportNameCheckReply => true
  | _ => false

/-- Where option `o` leaves the handle after its completion callback was given `err`. -/
def Ends (o : Opt) (err : UInt32) (s : State) : Prop :=
  (s = .negotiating ∨ s = .dead) ∧ (o = .go → err ≠ 0) ∨
    (s = .newstyleFinished ∨ s = .ready) ∧ err = 0 ∧ (o = .go ∨ o = .info)

/-- Option `o` is in progress as call number `id`. -/
structure Asked (o : Opt) (id : Nat) (h : Handle) : Prop where
  current : h.optCurrent = some o
  mode : h.cfg.optMode = true
  number : h.optCb.id = id
  callback : h.optCb.completion.callback = true
  silent : errorsTold id h.trace = []
  within : h.state.isWithin = true

/-- Option `o` has ended, and its completion callback was called once. -/
structure Answered (o : Opt) (id : Nat) (h : Handle) : Prop where
  freed : h.optCb.completion.callback = false
  ended : ∃ err, errorsTold id h.trace = [err] ∧ Ends o err h.state

def Underway (o : Opt) (id : Nat) (h : Handle) : Prop := Asked o id h ∨ Answered o id h

/-- The server refuses STARTTLS although TLS is required. -/
def RefusesTls (inp : Input) (h : Handle) : Prop :=
  h.state = .optCheckReply .starttls ∧ h.cfg.tls = .require ∧ h.reply ≠ repAck ∧
    repIsErr h.reply = true ∧ h.replylen.toNat ≤ nbdMaxString ∧ inp.alloc 0 = true

instance (inp : Input) (h : Handle) : Decidable (RefusesTls inp h) := inferInstanceAs (Decidable (_ ∧ _))

section Rules

variable {o : Opt} {id : Nat} {h h' : Handle} {inp : Input}

/-- The option goes on. -/
theorem Asked.next (ha : Asked o id h) (hcur : h'.optCurrent = h.optCurrent) (hcfg : h'.cfg = h.cfg)
    (hcb : h'.optCb = h.optCb) (ht : errorsTold id h'.trace = errorsTold id h.trace)
    (hw : h'.state.isWithin = true) : Underway o id h' :=
  .inl ⟨hcur.trans ha.current, hcfg ▸ ha.mode, hcb ▸ ha.number, hcb ▸ ha.callback,
    ht.trans ha.silent, hw⟩

/-- The option ends. -/
theorem Asked.ends {s : State} {err : UInt32} (ha : Asked o id h) (hcb : h'.optCb = h.optCb)
    (ht : errorsTold id h'.trace = errorsTold id h.trace) (he : Ends o err s) :
    Underway o id { h'.completeOption err with state := s } := by
  have hid : h'.optCb.id = id := hcb ▸ ha.number
  have htold : errorsTold id (h'.completeOption err).trace = [err] := by
    rw [← hid, errorsTold_complete (hcb ▸ ha.callback), hid, ht, ha.silent]
    rfl
  exact .inr ⟨rfl, err, htold, he⟩

/-- What entering a state leaves of the option. -/
abbrev Outcome.Goes (out : Outcome) (o : Opt) (id : Nat) : Prop :=
  out.All (fun _ => True) (Underway o id) (Underway o id)

/-- The same option in the same state. -/
theorem Asked.keep (ha : Asked o id h) (hcur : h'.optCurrent = h.optCurrent) (hcfg : h'.cfg = h.cfg)
    (hcb : h'.optCb = h.optCb) (ht : errorsTold id h'.trace = errorsTold id h.trace)
    (hs : h'.state = h.state) : Asked o id h' :=
  ⟨hcur.trans ha.current, hcfg ▸ ha.mode, hcb ▸ ha.number, hcb ▸ ha.callback, ht.trans ha.silent,
    hs ▸ ha.within⟩

theorem Asked.finish {s : State} {err : UInt32} (ha : Asked o id h) (hcb : h'.optCb = h.optCb)
    (ht : errorsTold id h'.trace = errorsTold id h.trace) (he : Ends o err s) :
    (Negotiation.goto s (h'.completeOption err)).Goes o id :=
  ha.ends hcb ht he

theorem Asked.goto {s : State} (ha : Asked o id h) (hcur : h'.optCurrent = h.optCurrent)
    (hcfg : h'.cfg = h.cfg) (hcb : h'.optCb = h.optCb) (ht : errorsTold id h'.trace = errorsTold id h.trace)
    (hw : s.isWithin = true) : (Negotiation.goto s h').Goes o id :=
  ha.next hcur hcfg hcb ht hw

theorem Asked.die (ha : Asked o id h) (e : UInt32) (t : String) : (Negotiation.die e t h).Goes o id :=
  Asked.goto ha rfl rfl rfl rfl rfl

theorem Asked.recv {k : Handle → Outcome} (ha : Asked o id h)
    (hk : ∀ bs, (k (h.store bs)).Goes o id) : (recvThen inp k h).Goes o id :=
  recvThen_all (fun _ _ => ha.next rfl rfl rfl rfl rfl) (fun _ _ => ha.next rfl rfl rfl rfl ha.within)
    fun bs _ => hk bs

theorem Asked.send {k : Handle → Outcome} (ha : Asked o id h)
    (hk : ∀ n, (k { h.advance n with wflags := false }).Goes o id) : (sendThen inp k h).Goes o id :=
  sendThen_all (fun _ _ => ha.next rfl rfl rfl rfl rfl) (fun _ => ha.next rfl rfl rfl rfl ha.within)
    fun n _ => hk n

theorem goes_require {p : Bool} {a : Abort} {k : Outcome} (hk : k.Goes o id) :
    (require p a k).Goes o id :=
  require_all.mpr ⟨fun _ => hk, fun _ => trivial⟩

theorem goes_ite {p : Prop} [Decidable p] {a b : Outcome} (ha : p → a.Goes o id)
    (hb : ¬ p → b.Goes o id) : (if p then a else b).Goes o id :=
  ite_all.mpr ⟨ha, hb⟩

theorem goes_fetch {pos n : Nat} {k : List UInt8 → Outcome} (hk : ∀ bs, (k bs).Goes o id) :
    (fetch h pos n k).Goes o id :=
  fetch_all.mpr ⟨fun _ => hk _, fun _ => trivial⟩

theorem goes_minus {a b : Nat} {k : Nat → Outcome} (hk : ∀ n, (k n).Goes o id) :
    (minus a b k).Goes o id :=
  minus_all.mpr ⟨fun _ => hk _, fun _ => trivial⟩

theorem Asked.replyError {k : Handle → Outcome} (ha : Asked o id h)
    (hk : ∀ e t, (k (h.setError e t)).Goes o id) : (handleReplyError inp h k).Goes o id :=
  handleReplyError_all (fun _ _ => ha.next rfl rfl rfl rfl rfl) (fun _ _ => trivial)
    fun _ _ e t => hk e t

theorem Asked.sizeAndFlags {exportsize : UInt64} {eflags : UInt16} {k : Handle → Outcome}
    (ha : Asked o id h) (hk : ∀ e : Negotiated, (k { h with exp := e }).Goes o id) :
    (setSizeAndFlags h exportsize eflags k).Goes o id :=
  setSizeAndFlags_all (fun _ _ => ha.next rfl rfl rfl rfl rfl) (fun _ _ => trivial) fun _ _ => hk _

end Rules

/-! ## Every state -/

section States

variable {o : Opt} {id : Nat} {h h' : Handle} {inp : Input}

theorem Asked.currentOk (ha : Asked o id h) (hS : RunShape h) {s : State} (hs : h.state = s) :
    CurrentOk true (some o) s := by
  have hc : CurrentOk h.cfg.optMode h.optCurrent h.state := hS.shape.current
  rwa [ha.mode, ha.current, hs] at hc

theorem enterNewstyleStart_goes (ha : Asked o id h) (ho : o.isWaited = true) :
    (enterNewstyleStart h).Goes o id := by
  unfold enterNewstyleStart
  rw [if_pos ha.mode, ha.current]
  have hstart : ∀ s : State, s.isWithin = true → (goto s h).Goes o id :=
    fun s hs => ha.goto rfl rfl rfl rfl hs
  cases o with
  | go => exact goes_ite (fun _ => hstart _ rfl) fun _ => hstart _ rfl
  | info => exact goes_ite (fun _ => hstart _ rfl) fun _ => hstart _ rfl
  | structuredReply => exact hstart _ rfl
  | extendedHeaders => exact hstart _ rfl
  | starttls => exact hstart _ rfl
  | _ => cases ho

theorem metaRequest_goes (ha : Asked o id h) (opt : Opt) : (metaRequest h opt).Goes o id := by
  unfold metaRequest
  refine ha.goto ?_ ?_ ?_ ?_ rfl
  · split <;> rfl
  · split <;> rfl
  · split <;> rfl
  · split
    · exact errorsTold_log rfl
    · rfl

theorem metaAutomatic_goes (ha : Asked o id h) : (metaAutomatic inp h).Goes o id := by
  unfold metaAutomatic
  refine goes_ite (fun _ => ?_) fun _ => ?_
  · split
    · exact ha.goto rfl rfl rfl (errorsTold_log rfl) rfl
    · exact ha.goto rfl rfl rfl rfl rfl
  · have hview := (setQuerylist_view inp h none).1
    generalize setQuerylist inp h none = q at hview ⊢
    obtain ⟨h₁, ok⟩ := q
    have ha₁ : Asked o id h₁ :=
      ha.keep (congrArg View.optCurrent hview) (congrArg View.cfg hview)
        (congrArg View.optCb hview) (congrArg (fun v => errorsTold id v.trace) hview)
        (congrArg View.state hview)
    exact goes_ite (fun _ => metaRequest_goes ha₁ _) fun _ => ha₁.goto rfl rfl rfl rfl rfl

theorem enterOptStart_goes {g : OptGroup} (ha : Asked o id h) (ho : o.isWaited = true)
    (hg : CurrentOk true (some o) (.optStart g)) : (enterOptStart inp g h).Goes o id := by
  cases g with
  | starttls =>
    have hc : o = .starttls := by simpa [CurrentOk, GroupOk] using hg
    refine goes_require (goes_ite (fun _ => goes_require (ha.goto rfl rfl rfl rfl rfl)) fun hne => ?_)
    exact absurd (hc ▸ ha.current) hne
  | extendedHeaders =>
    have hc : o = .extendedHeaders := by simpa [CurrentOk, GroupOk] using hg
    refine goes_require (goes_ite (fun _ => goes_require (ha.goto rfl rfl rfl rfl rfl)) fun hne => ?_)
    exact absurd (hc ▸ ha.current) hne
  | structuredReply =>
    have hc : o = .structuredReply := by simpa [CurrentOk, GroupOk] using hg
    refine goes_require (goes_ite (fun _ => goes_require (ha.goto rfl rfl rfl rfl rfl)) fun hne => ?_)
    exact absurd (hc ▸ ha.current) hne
  | list =>
    obtain rfl : o = .list := by simpa [CurrentOk, GroupOk] using hg
    cases ho
  | metaContext =>
    have hlist : h.optCurrent ≠ some .listMetaContext := by
      rw [ha.current]
      rintro ⟨⟩
      cases ho
    have hset : h.optCurrent ≠ some .setMetaContext := by
      rw [ha.current]
      rintro ⟨⟩
      cases ho
    refine goes_require (goes_ite (fun hl => absurd hl hlist) fun _ =>
      goes_ite (fun hl => absurd hl hset) fun _ => goes_require ?_)
    split
    · have hreset : Asked o id h.resetContexts := ha.keep rfl rfl rfl rfl rfl
      exact metaAutomatic_goes hreset
    · exact metaAutomatic_goes ha
  | go =>
    have hne : h.optCurrent ≠ none := by
      rw [ha.current]
      simp
    exact goes_require (goes_ite (fun _ => goes_require (ha.goto rfl rfl rfl rfl rfl)) fun _ =>
      goes_ite (fun hn => absurd hn hne) fun _ => ha.goto rfl rfl rfl rfl rfl)

theorem enterOptSendGroup_goes (ha : Asked o id h) (g : OptGroup) :
    (enterOptSendGroup inp g h).Goes o id := by
  cases g with
  | metaContext =>
    show (enterMetaContextSend inp h).Goes o id
    exact ha.send fun _ => ha.goto rfl rfl rfl rfl rfl
  | go =>
    show (enterGoSend inp h).Goes o id
    exact ha.send fun _ => ha.goto rfl rfl rfl rfl rfl
  | _ => exact ha.send fun _ => ha.goto rfl rfl rfl rfl rfl

theorem enterOptRecvReply_goes (ha : Asked o id h) (g : OptGroup) :
    (enterOptRecvReply inp g h).Goes o id := by
  refine ha.recv fun bs => ?_
  split
  · exact ha.goto rfl rfl rfl rfl rfl
  · rename_i h₁ hp
    obtain ⟨rfl, -⟩ := prepareForReplyPayload_ok hp
    exact ha.goto rfl rfl rfl rfl rfl

theorem enterStarttlsCheckReply_goes (ha : Asked .starttls id h)
    (hs : h.state = .optCheckReply .starttls) (hr : ¬ RefusesTls inp h) :
    (enterStarttlsCheckReply inp h).Goes .starttls id := by
  unfold enterStarttlsCheckReply
  refine goes_ite (fun _ => goes_ite (fun _ => ha.die _ _) fun _ => goes_ite (fun _ => ?_) fun _ => ?_)
    fun hack => ?_
  · refine ha.goto rfl rfl rfl (errorsTold_log rfl) ?_
    unfold handshakeState
    split <;> rfl
  · have hack : Asked .starttls id (h.forgetPlaintext.log [.tlsAck]) :=
      ha.keep rfl rfl rfl (errorsTold_log rfl) rfl
    exact hack.die _ _
  · have hk : ∀ e t, repIsErr h.reply = true → h.replylen.toNat ≤ nbdMaxString → inp.alloc 0 = true →
        Outcome.Goes (if (h.setError e t).cfg.tls = .require then
          goto .newstylePrepareOptAbort ((h.setError e t).setError enotsup
            "handshake: server refused TLS, but handle TLS setting is 'require' (2)")
        else
          goto (if (h.setError e t).optCurrent = some .starttls then .negotiating
            else .optStart .extendedHeaders)
            ((h.setError e t).completeOption
              (if (h.setError e t).reply = repErrInvalid then einval else enotsup))) .starttls id := by
      intro e t herr hlen halloc
      refine goes_ite (fun htls => absurd ⟨hs, htls, hack, herr, hlen, halloc⟩ hr) fun _ => ?_
      refine ha.finish rfl rfl ?_
      rw [if_pos (show (h.setError e t).optCurrent = some .starttls from ha.current)]
      exact .inl ⟨.inl rfl, by simp⟩
    unfold handleReplyError
    refine goes_ite (fun _ => ha.die _ _) fun herr => goes_ite (fun _ => ha.die _ _) fun hlen =>
      goes_ite (fun _ => ha.die _ _) fun halloc => ?_
    have hk' := fun e t => hk e t (by simpa using herr) (by omega) (by simpa using halloc)
    exact goes_ite (fun _ => hk' _ _) fun _ => goes_fetch fun _ => hk' _ _

theorem metaContextReply_goes (ha : Asked o id h) (opt : Opt) :
    (metaContextReply inp opt h).Goes o id := by
  have hlog : ∀ (p : Bool) (i : Nat) (name : CString),
      errorsTold id (h.trace ++ if p then [Event.context i name] else []) = errorsTold id h.trace := by
    intro p i name
    cases p with
    | true => exact errorsTold_log rfl
    | false =>
      rw [show (if false = true then [Event.context i name] else []) = [] from rfl, List.append_nil]
  unfold metaContextReply
  have hnext : (goto .metaPrepareForReply h).Goes o id := ha.goto rfl rfl rfl rfl rfl
  refine goes_ite (fun _ => hnext) fun _ => goes_require <| goes_fetch fun idBytes =>
    goes_minus fun rest => goes_fetch fun str => goes_ite (fun _ => ha.die _ _) fun _ =>
      goes_ite (fun _ => ?_) fun _ => goes_ite (fun _ => ?_) fun _ => ?_
  · exact ha.goto rfl rfl rfl (hlog _ _ _) rfl
  · exact ha.goto rfl rfl rfl (hlog _ _ _) rfl
  · exact ha.goto rfl rfl rfl ((errorsTold_log rfl).trans (hlog _ _ _)) rfl

theorem enterMetaContextCheckReply_goes (ha : Asked o id h) (ho : o.isWaited = true) :
    (enterMetaContextCheckReply inp h).Goes o id := by
  have hne : some o ≠ some (h.groupOption .metaContext) := by
    simp only [Handle.groupOption]
    split
    · rintro ⟨⟩
      cases ho
    · rintro ⟨⟩
      cases ho
  unfold enterMetaContextCheckReply
  refine goes_ite (fun _ => ?_) fun _ => goes_ite (fun _ => metaContextReply_goes ha _) fun _ =>
    ha.replyError fun e t => ?_
  · have hmeta : Asked o id { h with exp := { h.exp with metaValid := true } } :=
      ha.keep rfl rfl rfl rfl rfl
    have hnext : Asked o id (if h.groupOption .metaContext = .setMetaContext then
        ({ h with exp := { h.exp with metaValid := true } } : Handle).log [.metaAck] else h) := by
      split
      · exact hmeta.keep rfl rfl rfl (errorsTold_log rfl) rfl
      · exact ha
    refine goes_ite (fun hc => absurd (hnext.current.symm.trans hc) hne) fun _ => ?_
    exact hnext.goto rfl rfl rfl rfl rfl
  · have hnext : Asked o id (if h.groupOption .metaContext = .setMetaContext then
        (h.setError e t).log [.metaRefused] else h.setError e t) := by
      split
      · exact ha.keep rfl rfl rfl (errorsTold_log rfl) rfl
      · exact ha.keep rfl rfl rfl rfl rfl
    refine goes_ite (fun hc => absurd (hnext.current.symm.trans hc) hne) fun _ => ?_
    refine hnext.goto ?_ ?_ ?_ ?_ rfl
    · split <;> rfl
    · split <;> rfl
    · split <;> rfl
    · split <;> rfl

theorem goString_goes {which : String} {set : Option CString → Handle} (ha : Asked o id h)
    (hset : ∀ s, ∃ e : Negotiated, set s = { h with exp := e }) :
    (goString inp which set h).Goes o id := by
  have hkeep : ∀ s, Asked o id (set s) := by
    intro s
    obtain ⟨e, he⟩ := hset s
    rw [he]
    exact ha.keep rfl rfl rfl rfl rfl
  unfold goString
  refine goes_ite (fun _ => ha.die _ _) fun _ => goes_minus fun rest => goes_fetch fun str =>
    goes_ite (fun _ => ?_) fun _ => (hkeep none).die _ _
  exact (hkeep _).goto rfl rfl rfl rfl rfl

theorem goInfo_goes (ha : Asked o id h) : (goInfo inp h).Goes o id := by
  have hawait : (awaitReply .go h).Goes o id := ha.goto rfl rfl rfl rfl rfl
  unfold goInfo
  refine goes_ite (fun _ => goes_require hawait) fun _ => goes_require <| goes_fetch fun info =>
    goes_ite (fun _ => ?_) fun _ => goes_ite (fun _ => ?_) fun _ => goes_ite (fun _ => ?_) fun _ =>
    goes_ite (fun _ => ?_) fun _ => hawait
  · refine goes_ite (fun _ => ha.die _ _) fun _ => goes_fetch fun exportsize =>
      goes_fetch fun eflags => ha.sizeAndFlags fun e => ?_
    exact ha.goto rfl rfl rfl rfl rfl
  · refine goes_ite (fun _ => ha.die _ _) fun _ => goes_fetch fun min => goes_fetch fun pref =>
      goes_fetch fun max => ?_
    unfold Handle.setBlockSize
    split
    · exact ha.goto rfl rfl rfl rfl rfl
    · exact ha.goto rfl rfl rfl rfl rfl
  · exact goString_goes ha fun s => ⟨_, rfl⟩
  · exact goString_goes ha fun s => ⟨_, rfl⟩

/-- GO ends in `READY` when it is agreed to, and else back in `NEGOTIATING`. -/
theorem goFinish_goes (ha : Asked o id h) (ho : o = .go ∨ o = .info) (err : UInt32)
    (hcur : h'.optCurrent = h.optCurrent) (hcfg : h'.cfg = h.cfg) (hcb : h'.optCb = h.optCb)
    (ht : errorsTold id h'.trace = errorsTold id h.trace) : (goFinish err h').Goes o id := by
  refine ha.finish hcb ht ?_
  split
  · rename_i hdone
    exact .inr ⟨.inl rfl, hdone.1, ho⟩
  · rename_i hdone
    rw [if_pos (hcfg ▸ ha.mode)]
    refine .inl ⟨.inl rfl, ?_⟩
    rintro rfl herr
    exact hdone ⟨herr, hcur.trans ha.current⟩

theorem enterGoCheckReply_goes (ha : Asked o id h) (ho : o = .go ∨ o = .info) :
    (enterGoCheckReply inp h).Goes o id := by
  unfold enterGoCheckReply
  refine goes_ite (fun _ => goInfo_goes ha) fun _ => goes_ite (fun _ => ?_) fun _ =>
    goes_ite (fun _ => ?_) fun _ => ha.replyError fun e t => goes_require ?_
  · exact ha.goto rfl rfl rfl rfl rfl
  · exact goFinish_goes ha ho 0 rfl rfl rfl rfl
  · exact goFinish_goes ha ho _ rfl rfl rfl (errorsTold_log rfl)

theorem enterOptCheckReply_goes {g : OptGroup} (ha : Asked o id h) (ho : o.isWaited = true)
    (hs : h.state = .optCheckReply g) (hg : CurrentOk true (some o) (.optCheckReply g))
    (hr : ¬ RefusesTls inp h) : (enterOptCheckReply inp g h).Goes o id := by
  cases g with
  | starttls =>
    obtain rfl : o = .starttls := by simpa [CurrentOk, GroupOk] using hg
    exact enterStarttlsCheckReply_goes ha hs hr
  | extendedHeaders =>
    obtain rfl : o = .extendedHeaders := by simpa [CurrentOk, GroupOk] using hg
    refine goes_ite (fun _ => ?_) fun _ => ha.replyError fun e t => ?_
    · refine ha.finish rfl rfl ?_
      rw [if_pos ha.current]
      exact .inl ⟨.inl rfl, by simp⟩
    · refine ha.finish rfl rfl ?_
      rw [if_pos (show (h.setError e t).optCurrent = _ from ha.current)]
      exact .inl ⟨.inl rfl, by simp⟩
  | structuredReply =>
    obtain rfl : o = .structuredReply := by simpa [CurrentOk, GroupOk] using hg
    have hends : ∀ (h₁ : Handle) (err : UInt32), h₁.cfg = h.cfg →
        Ends .structuredReply err (afterStructuredReply h₁) := by
      intro h₁ err hcfg
      unfold afterStructuredReply
      rw [if_pos (hcfg ▸ ha.mode)]
      exact .inl ⟨.inl rfl, by simp⟩
    refine goes_ite (fun _ => ?_) fun _ => ha.replyError fun e t => ?_
    · exact ha.finish rfl rfl (hends _ _ rfl)
    · exact ha.finish rfl rfl (hends _ _ rfl)
  | list =>
    obtain rfl : o = .list := by simpa [CurrentOk, GroupOk] using hg
    cases ho
  | metaContext => exact enterMetaContextCheckReply_goes ha ho
  | go =>
    exact enterGoCheckReply_goes ha (by simpa [CurrentOk, GroupOk] using hg)

theorem enterTlsHandshake_goes (ha : Asked o id h) : (enterTlsHandshake inp h).Goes o id := by
  unfold enterTlsHandshake
  split
  · exact ha.die _ _
  · exact ha.goto rfl rfl rfl rfl rfl
  · refine ha.goto rfl rfl rfl rfl ?_
    unfold handshakeState
    split <;> rfl

/-- The completion callback is told why the handle dies. -/
theorem Asked.dies (ha : Asked o id h) (hs : h.state = .dead) : Underway o id h.abortOption := by
  have herr : orErr h.getErrno enotconn ≠ 0 := by
    rw [Ne, orErr_eq_zero]
    rintro ⟨-, hne⟩
    cases hne
  have hends : Ends o (orErr h.getErrno enotconn) h.state := .inl ⟨.inr hs, fun _ => herr⟩
  have hid : h.optCb.id = id := ha.number
  refine .inr ⟨rfl, orErr h.getErrno enotconn, ?_, hends⟩
  show errorsTold id (h.completeOption _).trace = _
  rw [← hid, errorsTold_complete ha.callback, hid, ha.silent]
  rfl

theorem Asked.enter (ha : Asked o id h) (hS : RunShape h) (ho : o.isWaited = true)
    (hr : ¬ RefusesTls inp h) : (Negotiation.enter inp h).Goes o id := by
  have hok : ∀ {s}, h.state = s → CurrentOk true (some o) s := fun hs => ha.currentOk hS hs
  have hw := ha.within
  unfold Negotiation.enter
  cases hs : h.state with
  | newstyleStart => exact enterNewstyleStart_goes ha ho
  | dead => exact goes_require (ha.dies hs)
  | optStart g => exact enterOptStart_goes ha ho (hok hs)
  | optSend g => exact enterOptSendGroup_goes ha g
  | optRecvReply g => exact enterOptRecvReply_goes ha g
  | optRecvReplyPayload g => exact ha.recv fun _ => ha.goto rfl rfl rfl rfl rfl
  | optCheckReply g => exact enterOptCheckReply_goes ha ho hs (hok hs) hr
  | tlsHandshakeRead => exact enterTlsHandshake_goes ha
  | tlsHandshakeWrite => exact enterTlsHandshake_goes ha
  | tlsHandshakeDone =>
    obtain rfl : o = .starttls := by simpa [CurrentOk, GroupOk] using hok hs
    refine ha.finish rfl rfl ?_
    rw [if_pos (show _ = _ from ha.current)]
    exact .inl ⟨.inl rfl, by simp⟩
  | metaSendExportnamelen => exact ha.send fun _ => ha.goto rfl rfl rfl rfl rfl
  | metaSendExportname => exact ha.send fun _ => ha.goto rfl rfl rfl rfl rfl
  | metaSendNrqueries => exact ha.send fun _ => ha.goto rfl rfl rfl rfl rfl
  | metaPrepareNextQuery =>
    show (enterMetaPrepareNextQuery h).Goes o id
    unfold enterMetaPrepareNextQuery
    split
    · exact ha.goto rfl rfl rfl rfl rfl
    · exact ha.goto rfl rfl rfl rfl rfl
  | metaSendQuerylen => exact ha.send fun _ => ha.goto rfl rfl rfl rfl rfl
  | metaSendQuery => exact ha.send fun _ => ha.goto rfl rfl rfl rfl rfl
  | metaPrepareForReply => exact ha.goto rfl rfl rfl rfl rfl
  | goSendExportnamelen => exact ha.send fun _ => ha.goto rfl rfl rfl rfl rfl
  | goSendExport => exact ha.send fun _ => ha.goto rfl rfl rfl rfl rfl
  | goSendNrinfos => exact ha.send fun _ => ha.goto rfl rfl rfl rfl rfl
  | goSendInfo => exact ha.send fun _ => ha.goto rfl rfl rfl rfl rfl
  | exportNameStart =>
    show (enterExportNameStart h).Goes o id
    unfold enterExportNameStart
    dsimp only
    split
    · exact ha.goto rfl rfl rfl rfl rfl
    · exact ha.goto rfl rfl rfl (errorsTold_log rfl) rfl
  | exportNameSend => exact ha.send fun _ => ha.goto rfl rfl rfl rfl rfl
  | exportNameSendExport => exact ha.send fun _ => ha.goto rfl rfl rfl rfl rfl
  | exportNameRecvReply => exact ha.recv fun _ => ha.goto rfl rfl rfl rfl rfl
  | exportNameCheckReply =>
    have hgo : o = .go ∨ o = .info := by simpa [CurrentOk] using hok hs
    exact ha.sizeAndFlags fun e => ha.finish rfl rfl (.inr ⟨.inl rfl, rfl, hgo⟩)
  | _ =>
    rw [hs] at hw
    cases hw

/-- What happens after the end of an option does not concern it. -/
theorem Answered.enter (ha : Answered o id h) : (Negotiation.enter inp h).Goes o id := by
  obtain ⟨hfree, err, htold, hends⟩ := ha
  have hstay : Underway o id h := .inr ⟨hfree, err, htold, hends⟩
  unfold Negotiation.enter
  have hstate := hends
  obtain ⟨hs | hs, hgo⟩ | ⟨hs | hs, herr⟩ := hstate
  · rw [hs]
    exact hstay
  · rw [hs]
    refine goes_require ?_
    refine .inr ⟨rfl, err, ?_, hends⟩
    exact (errorsTold_complete_silent hfree id _).trans htold
  · rw [hs]
    exact .inr ⟨hfree, err, htold, .inr ⟨.inr rfl, herr⟩⟩
  · rw [hs]
    exact goes_require hstay

/-- **Step.** -/
theorem enter_underway (hu : Underway o id h) (hS : RunShape h) (ho : o.isWaited = true)
    (hr : ¬ RefusesTls inp h) : (Negotiation.enter inp h).Goes o id := by
  obtain ha | ha := hu
  · exact ha.enter hS ho hr
  · exact ha.enter

end States

/-! ## Calls -/

section Calls

variable {o : Opt} {id : Nat} {h : Handle} {inp : Input}

/-- `go_complete` stores the error in a variable of the caller. -/
def goComplete : Closure := ⟨true, false⟩

/-- The asynchronous call that the synchronous call of an option starts. -/
def waitedCall : Opt → Option Api
  | .go => some (.aioOptGo goComplete)
  | .info => some (.aioOptInfo goComplete)
  | .starttls => some (.aioOptStarttls goComplete)
  | .extendedHeaders => some (.aioOptExtendedHeaders goComplete)
  | .structuredReply => some (.aioOptStructuredReply goComplete)
  | _ => none

/-- Such a call is refused, or asks for the option. -/
theorem submit_waited (inp : Input) (h : Handle) {api : Api} (ha : waitedCall o = some api) :
    o.isWaited = true ∧ ((∃ h', submit inp h api = .refused h') ∨
      h.state = .negotiating ∧ submit inp h api = submitOption h o none goComplete) := by
  have hplain : ∀ opt, (∃ h', plainOption h opt goComplete = .refused h') ∨
      h.state = .negotiating ∧ plainOption h opt goComplete = submitOption h opt none goComplete := by
    intro opt
    unfold plainOption permitted
    split
    · rename_i hs
      exact .inr ⟨by simpa [State.isNegotiating] using hs, rfl⟩
    · exact .inl ⟨_, rfl⟩
  have hfixed : ∀ opt, (∃ h', fixedOption h opt goComplete = .refused h') ∨
      h.state = .negotiating ∧ fixedOption h opt goComplete = submitOption h opt none goComplete := by
    intro opt
    unfold fixedOption permitted needFixed
    split
    · rename_i hs
      split
      · exact .inr ⟨by simpa [State.isNegotiating] using hs, rfl⟩
      · exact .inl ⟨_, rfl⟩
    · exact .inl ⟨_, rfl⟩
  cases o with
  | go =>
    cases ha
    exact ⟨rfl, hplain .go⟩
  | info =>
    cases ha
    exact ⟨rfl, hfixed .info⟩
  | starttls =>
    cases ha
    exact ⟨rfl, hfixed .starttls⟩
  | extendedHeaders =>
    cases ha
    exact ⟨rfl, hfixed .extendedHeaders⟩
  | structuredReply =>
    cases ha
    exact ⟨rfl, hfixed .structuredReply⟩
  | _ => cases ha

/-- Nobody has been told anything about an option before it is accepted. -/
theorem errorsTold_nextId (ht : Tracked h.view) : errorsTold h.nextId h.trace = [] := by
  refine errorsTold_eq_nil fun e he => ?_
  cases e with
  | completion i err =>
    have hlt : i < h.nextId := ht.known _ he i rfl
    exact if_neg (Nat.ne_of_lt hlt)
  | _ => rfl

/-- The option is in progress once its call is accepted. -/
theorem submitOption_underway (hR : RestShape h) (ht : Tracked h.view) (hs : h.state = .negotiating) :
    (submitOption h o none goComplete).All (fun _ => True) (Underway o h.nextId) fun _ => True := by
  have hmode : CurrentOk h.core.cfg.optMode h.core.optCurrent .negotiating := hs ▸ hR.shape.current
  refine ⟨fun s he => ?_, fun _ _ _ => trivial⟩
  obtain rfl : s = .newstyleStart := by
    have he' : externalEvent .cmdIssue h.state = some s := he
    rw [hs] at he'
    exact (Option.some.inj he').symm
  exact .inl ⟨rfl, hmode.1, rfl, rfl, (errorsTold_log rfl).trans (errorsTold_nextId ht), rfl⟩

theorem Underway.setError (hu : Underway o id h) (lastError : Option (UInt32 × String)) :
    Underway o id { h with lastError := lastError } := by
  obtain ha | ⟨hfree, err, htold, hends⟩ := hu
  · exact .inl (ha.keep rfl rfl rfl rfl rfl)
  · exact .inr ⟨hfree, err, htold, hends⟩

/-- A notification lets the option go on where it is. -/
theorem notify_underway {ev : ExternalEvent} (hu : Underway o id h)
    (hev : ev = .notifyRead ∨ ev = .notifyWrite) (keep : Bool) :
    (Submit.run ev keep h).All (fun _ => True) (Underway o id) (Underway o id) := by
  refine ⟨fun s he => ?_, fun _ e t => hu.setError _⟩
  have hsame : s = h.state := by
    obtain rfl | rfl := hev
    · exact (externalEvent_notifyRead he).2
    · have hnot : h.state ≠ .connectStart ∧ h.state ≠ .connectTcpConnect := by
        obtain ha | ⟨-, err, -, hends⟩ := hu
        · have hw := ha.within
          constructor <;> intro hs <;> rw [hs] at hw <;> cases hw
        · obtain ⟨hs | hs, -⟩ | ⟨hs | hs, -⟩ := hends <;> rw [hs] <;> decide
      obtain ⟨hs, -⟩ | ⟨hs, -⟩ | ⟨-, hs⟩ := externalEvent_notifyWrite he
      · exact absurd hs hnot.1
      · exact absurd hs hnot.2
      · exact hs
  subst hsame
  exact hu

end Calls

end Libnbd.Negotiation
