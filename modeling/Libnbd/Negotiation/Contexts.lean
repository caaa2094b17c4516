import Libnbd.Negotiation.Effect

/-!
Which metadata contexts a handle may rely on.

`standing` reads off the trace what became of the most recent
`NBD_OPT_SET_META_CONTEXT` exchange: a STARTTLS acknowledgement, a new export name
or a failed GO or INFO makes it void. `Valid` ties `h->meta_valid` and
`h->meta_contexts` to it. `h->meta_valid` is never stale, but
`nbd_can_meta_context` does not always look at it.
-/

namespace Libnbd.Negotiation

open Lib

/-! ## The standing of an exchange -/

inductive Standing where
  | void
  | asking (exportName : CString) (contexts : List (CString × UInt32))
  | acked (exportName : CString) (contexts : List (CString × UInt32))
  | refused (exportName : CString)
  | skipped (exportName : CString)
  deriving DecidableEq, Repr

def Standing.step : Standing → Event → Standing
  | _, .metaRequest exportName => .asking exportName []
  | .asking exportName contexts, .metaContext name id =>
    .asking exportName (contexts ++ [(name, id)])
  | .asking exportName contexts, .metaAck => .acked exportName contexts
  | .asking exportName _, .metaRefused => .refused exportName
  | _, .metaSkipped exportName => .skipped exportName
  | _, .tlsAck => .void
  | _, .rename _ => .void
  | _, .goFailed => .void
  | s, _ => s

def standing (trace : List Event) : Standing := trace.foldl Standing.step .void

/-- The events that say nothing about metadata contexts. -/
def Event.isCallback : Event → Bool
  | accept .. | list .. | context .. | completion .. | freeFn _ | freeCompletion _ => true
  | _ => false

theorem standing_append (t es : List Event) :
    standing (t ++ es) = es.foldl Standing.step (standing t) :=
  List.foldl_append

theorem Standing.step_callback (s : Standing) {e : Event} (he : e.isCallback = true) :
    s.step e = s := by
  cases e <;> cases s <;> first | rfl | cases he

theorem standing_callbacks (t : List Event) {es : List Event} (hes : ∀ e ∈ es, e.isCallback = true) :
    standing (t ++ es) = standing t := by
  rw [standing_append]
  induction es generalizing t with
  | nil => rfl
  | cons e es ih =>
    rw [List.foldl_cons, Standing.step_callback _ (hes e List.mem_cons_self)]
    exact ih t fun e' he' => hes e' (List.mem_cons_of_mem _ he')

/-! ## Validity -/

/-- The list of contexts is what the most recent exchange for this export left:
the acknowledged contexts, or nothing if it was refused or skipped. -/
def Sound (trace : List Event) (exportName : CString) (contexts : List (CString × UInt32)) : Prop :=
  standing trace = .acked exportName contexts ∨
    contexts = [] ∧ (standing trace = .refused exportName ∨ standing trace = .skipped exportName)

structure Valid (v : View) : Prop where
  sound : v.metaValid = true → Sound v.trace v.cfg.exportName v.metaContexts
  asking : v.state.isAsking = true → v.optCurrent ≠ some .listMetaContext →
    standing v.trace = .asking v.cfg.exportName v.metaContexts ∧ v.metaValid = false
  describing : v.state.inDescription = true → v.nothingRequested = true →
    standing v.trace = .skipped v.cfg.exportName
  naming : v.state = .exportNameStart → v.fixed = true → v.nothingRequested = true →
    standing v.trace = .skipped v.cfg.exportName

variable {v v₁ : View} {h : Handle} {s : State}

theorem State.neutral_spec (hs : s.isNeutral = true) :
    s.isAsking = false ∧ s.inDescription = false ∧ s.inPayload = false ∧ s ≠ .exportNameStart := by
  simpa [State.isNeutral, and_assoc] using hs

theorem State.keeps_spec {s' : State} (hk : s.Keeps s' = true) :
    (s'.isAsking = true → s.isAsking = true) ∧ (s'.inDescription = true → s.inDescription = true) ∧
      s' ≠ .exportNameStart := by
  simp only [State.Keeps, Bool.and_eq_true, Bool.or_eq_true, Bool.not_eq_true', bne_iff_ne] at hk
  obtain ⟨⟨⟨ha, hd⟩, -⟩, hne⟩ := hk
  refine ⟨fun h => ha.resolve_left ?_, fun h => hd.resolve_left ?_, hne⟩
  · rw [h]
    simp
  · rw [h]
    simp

theorem State.not_asking_of_inDescription (hd : s.inDescription = true) : s.isAsking = false := by
  cases s with
  | optSend g => cases g <;> first | rfl | cases hd
  | optRecvReply g => cases g <;> first | rfl | cases hd
  | optRecvReplyPayload g => cases g <;> first | rfl | cases hd
  | optCheckReply g => cases g <;> first | rfl | cases hd
  | _ => first | rfl | cases hd

/-- In a neutral state only `h->meta_valid` matters. -/
theorem Valid.of_neutral (hs : v.state.isNeutral = true)
    (hv : v.metaValid = true → Sound v.trace v.cfg.exportName v.metaContexts) : Valid v := by
  obtain ⟨ha, hd, -, hn⟩ := State.neutral_spec hs
  refine ⟨hv, fun h => ?_, fun h => ?_, fun h => absurd h hn⟩
  · rw [ha] at h
    cases h
  · rw [hd] at h
    cases h

/-- A change of state within one exchange or description. -/
theorem Valid.keeps (hv : Valid v) (hk : v.state.Keeps s = true) : Valid { v with state := s } := by
  obtain ⟨ha, hd, hn⟩ := State.keeps_spec hk
  exact ⟨hv.sound, fun h => hv.asking (ha h), fun h => hv.describing (hd h), fun h => absurd h hn⟩

/-- Where a context exchange is not LIST, it is a SET exchange in progress. -/
theorem Valid.inSet (hv : Valid v) (hc : v.state = .optCheckReply .metaContext)
    (ho : v.optCurrent ≠ some .listMetaContext) :
    standing v.trace = .asking v.cfg.exportName v.metaContexts ∧ v.metaValid = false :=
  hv.asking (by rw [hc]; rfl) ho

/-- An automatic exchange was asked for something. -/
theorem requested_of_shape (hS : RunShape h) (hc : h.state = .optCheckReply .metaContext)
    (ho : h.optCurrent ≠ some .listMetaContext) (ho' : h.optCurrent ≠ some .setMetaContext) :
    h.view.nothingRequested = false := by
  have h₁ := hS.shape
  rw [hc] at h₁
  have hcur : h.cfg.optMode = false ∧ h.optCurrent = none ∨
      h.cfg.optMode = true ∧ (h.optCurrent = some .go ∨ h.optCurrent = some .info ∨
        h.optCurrent = some .listMetaContext ∨ h.optCurrent = some .setMetaContext) := h₁.current
  refine h₁.asking rfl ?_
  show h.freesFn = false
  rcases hcur with ⟨-, hn⟩ | ⟨-, hn | hn | hn | hn⟩
  · simp [Handle.freesFn, hn]
  · simp [Handle.freesFn, hn]
  · simp [Handle.freesFn, hn]
  · exact absurd hn ho
  · exact absurd hn ho'

/-- What a change leaves behind is valid in the state it leads to. -/
theorem change_valid (hS : RunShape h) (hv : Valid h.view) (hc : Change h.view s v₁) :
    Valid { v₁ with state := s } := by
  have hgo : ∀ v₂ : View, v₂.nothingRequested = false →
      (v₂.metaValid = true → Sound v₂.trace v₂.cfg.exportName v₂.metaContexts) →
      Valid { v₂ with state := .optStart .go } := by
    intro v₂ hn hs
    refine ⟨hs, nofun, fun _ hr => ?_, nofun⟩
    rw [show View.nothingRequested { v₂ with state := .optStart .go } = v₂.nothingRequested from rfl,
      hn] at hr
    cases hr
  cases hc with
  | move _ hs => exact hv.keeps hs
  | listing hl => exact ⟨hv.sound, fun _ ho => absurd hl ho, nofun, nofun⟩
  | exportName hf =>
    refine ⟨hv.sound, nofun, nofun, fun _ hf' => ?_⟩
    exact absurd (hf.symm.trans hf') nofun
  | fallback hd => exact ⟨hv.sound, nofun, nofun, fun _ _ => hv.describing (by rw [hd]; rfl)⟩
  | named hd hf => exact ⟨hv.sound, nofun, fun _ => hv.naming hd hf, nofun⟩
  | unasked hn => exact hgo _ hn hv.sound
  | gflags fixed _ hs => exact .of_neutral hs hv.sound
  | described fixed valid _ hd hs hval =>
    obtain ⟨ha, hd', hn⟩ := State.keeps_spec hs
    have hna : ¬ s.isAsking = true := by
      intro hask
      have := ha hask
      rw [State.not_asking_of_inDescription hd] at this
      cases this
    refine ⟨fun hvalid => ?_, fun h => absurd h hna, fun h => hv.describing (hd' h), fun h => absurd h hn⟩
    rcases hval with rfl | ⟨-, hnr, hnil⟩
    · exact hv.sound hvalid
    · exact .inr ⟨hnil, .inr (hv.describing hd hnr)⟩
  | structured b _ hs => exact .of_neutral hs hv.sound
  | tlsAck _ hs => exact .of_neutral hs nofun
  | skipped _ hs hp _ hst =>
    have hstand : standing (h.trace ++ [Event.metaSkipped h.cfg.exportName]) =
        .skipped h.cfg.exportName := by
      rw [standing_append]
      cases standing h.trace <;> rfl
    have hnil : h.exp.metaContexts = [] := by
      rcases hst with hst | hst
      · have hst' : h.state = .oldstyleStart := hst
        exact hS.shape.contexts (.inl (by rw [hst']; rfl))
      · exact hS.shape.contexts (.inr (.inl hst))
    refine ⟨fun _ => .inr ⟨hnil, .inr hstand⟩, fun h' => ?_, fun _ _ => hstand, fun h' => ?_⟩
    · have hask : s.isAsking = true := h'
      rw [hp] at hask
      cases hask
    · cases h'
      cases hs
  | reset _ hs => exact .of_neutral hs nofun
  | resetSkipped =>
    have hstand : standing (h.trace ++ [Event.metaSkipped h.cfg.exportName]) =
        .skipped h.cfg.exportName := by
      rw [standing_append]
      cases standing h.trace <;> rfl
    exact ⟨nofun, nofun, fun _ _ => hstand, nofun⟩
  | requested =>
    have hstand : standing (h.trace ++ [Event.metaRequest h.cfg.exportName]) =
        .asking h.cfg.exportName [] := by
      rw [standing_append]
      cases standing h.trace <;> rfl
    exact ⟨nofun, fun _ _ => ⟨hstand, rfl⟩, nofun, nofun⟩
  | acked _ hs hc ho =>
    have hstand : standing (h.trace ++ [Event.metaAck]) = .acked h.cfg.exportName h.exp.metaContexts := by
      rw [standing_append, show standing h.trace = _ from (hv.inSet hc ho).1]
      rfl
    rcases hs with hs | ⟨rfl, ho'⟩
    · exact .of_neutral hs fun _ => .inl hstand
    · exact hgo _ (requested_of_shape hS hc ho ho') fun _ => .inl hstand
  | refused _ hs hc ho =>
    refine .of_neutral hs fun hvalid => ?_
    have hvalid' : h.view.metaValid = true := hvalid
    rw [(hv.inSet hc ho).2] at hvalid'
    cases hvalid'
  | passedOver hc ho ho' =>
    have hstand : standing (h.trace ++ [Event.metaRefused]) = .refused h.cfg.exportName := by
      rw [standing_append, show standing h.trace = _ from (hv.inSet hc ho).1]
      rfl
    exact hgo _ (requested_of_shape hS hc ho ho') fun hvalid =>
      .inr ⟨List.isEmpty_iff.mp hvalid, .inl hstand⟩
  | goFailed _ hs => exact .of_neutral hs nofun
  | current hd hn =>
    exact ⟨hv.sound, nofun, fun _ => hv.describing (by rw [hd]; rfl), nofun⟩

theorem View.complete_callbacks (v : View) (err : UInt32) :
    ∃ es, (∀ e ∈ es, Event.isCallback e = true) ∧ (v.complete err).trace = v.trace ++ es := by
  refine ⟨(if v.optCb.completion.callback then [Event.completion v.optCb.id err] else []) ++
      ((if v.freesFn && v.optCb.fn.free then [Event.freeFn v.optCb.id] else []) ++
      (if v.optCb.completion.free then [Event.freeCompletion v.optCb.id] else [])), ?_, ?_⟩
  · intro e he
    simp only [List.mem_append] at he
    rcases he with he | he | he <;> split at he <;> simp_all [Event.isCallback]
  · simp only [View.complete, List.append_assoc]

/-- Callbacks do not matter. -/
theorem Valid.log {es : List Event} (hv : Valid v) (hes : ∀ e ∈ es, e.isCallback = true) :
    Valid (v.log es) := by
  have hstand : standing (v.log es).trace = standing v.trace := standing_callbacks _ hes
  refine ⟨fun h => ?_, fun h ho => ?_, fun h hn => ?_, fun h hf hn => ?_⟩
  · simp only [Sound, hstand]
    exact hv.sound h
  · rw [hstand]
    exact hv.asking h ho
  · rw [hstand]
    exact hv.describing h hn
  · rw [hstand]
    exact hv.naming h hf hn

theorem effect_valid (hS : RunShape h) (hv : Valid h.view) (he : Effect h.view v) : Valid v := by
  cases he with
  | change s v₁ hc => exact change_valid hS hv hc
  | complete err s v₁ hc hs =>
    have h₁ := (change_valid hS hv hc).sound
    obtain ⟨es, hes, htr⟩ := v₁.complete_callbacks err
    refine .of_neutral hs fun hvalid => ?_
    have := h₁ hvalid
    simp only [Sound, htr, standing_callbacks _ hes]
    exact this
  | list name description hl =>
    refine (hv.log ?_).keeps ?_
    · intro e he
      split at he
      · cases List.mem_singleton.mp he
        rfl
      · cases he
    · show h.view.state.Keeps _ = true
      rw [hl]
      rfl
  | context name s hc hs =>
    refine (hv.log ?_).keeps ?_
    · intro e he
      split at he
      · cases List.mem_singleton.mp he
        rfl
      · cases he
    · show h.view.state.Keeps _ = true
      rw [hc]
      rcases hs with rfl | rfl <;> rfl
  | kept name id hc ho =>
    obtain ⟨hstand, hvalid⟩ := hv.inSet hc ho
    refine ⟨fun h' => ?_, fun _ _ => ⟨?_, hvalid⟩, nofun, nofun⟩
    · rw [show View.metaValid _ = false from hvalid] at h'
      cases h'
    · have hcb : standing (h.trace ++
          (if h.optCb.fn.callback then [Event.context h.optCb.id name] else [])) =
          .asking h.cfg.exportName h.exp.metaContexts := by
        rw [standing_callbacks, show standing h.trace = _ from hstand]
        · rfl
        · intro e he
          split at he
          · cases List.mem_singleton.mp he
            rfl
          · cases he
      show standing (_ ++ [Event.metaContext name id]) = _
      rw [standing_append]
      exact congrArg (fun s => Standing.step s (.metaContext name id)) hcb

theorem call_valid (hv : Valid h.view) (hc : CallEffect h.view v) : Valid v := by
  have hneutral : ∀ s : State, s.isConfigurable = true → s.isNeutral = true := by
    intro s hs
    rcases State.isConfigurable_iff.mp hs with rfl | rfl <;> rfl
  cases hc with
  | same => exact hv
  | configure cfg fixed hs hn =>
    refine .of_neutral (hneutral _ hs) fun h' => ?_
    show Sound _ cfg.exportName _
    rw [hn]
    exact hv.sound h'
  | rename name hs => exact .of_neutral (hneutral _ hs) nofun
  | accept opt fn completion hs =>
    refine .of_neutral (by rw [show View.state _ = _ from hs]; rfl) fun h' => ?_
    have := hv.sound h'
    simp only [Sound] at this ⊢
    rw [standing_callbacks]
    · exact this
    · intro e he
      cases List.mem_singleton.mp he
      rfl
  | abort hs => exact .of_neutral (by rw [show View.state _ = _ from hs]; rfl) hv.sound

theorem reachable_valid {c : Config} (hc : machine.Reachable c) : Valid c.h.view := by
  refine reachable_view (I := Valid) (fun h v hS hv he => effect_valid hS hv he)
    (fun h v _ hv he => call_valid hv he) (fun v s hv hs => ?_) ?_ hc
  · rcases hs with hs | rfl
    · exact .of_neutral hs hv.sound
    · exact hv
  · intro sbuf
    exact .of_neutral rfl nofun

/-! ## The most recent successful exchange -/

/-- The SET exchange in progress and the last one that was acknowledged; both
are void after a STARTTLS acknowledgement, a new name or a failed GO or INFO. -/
structure Ledger where
  current : Option (CString × List (CString × UInt32))
  success : Option (CString × List (CString × UInt32))
  deriving DecidableEq, Repr

def Ledger.step (l : Ledger) : Event → Ledger
  | .metaRequest exportName => { l with current := some (exportName, []) }
  | .metaContext name id =>
    { l with current := l.current.map fun p => (p.1, p.2 ++ [(name, id)]) }
  | .metaAck => { current := none, success := l.current.or l.success }
  | .metaRefused | .metaSkipped _ => { l with current := none }
  | .tlsAck | .rename _ | .goFailed => { current := none, success := none }
  | _ => l

/-- The export name and the contexts of the most recent successful
`NBD_OPT_SET_META_CONTEXT` exchange that nothing has made void since. -/
def lastSuccess (trace : List Event) : Option (CString × List (CString × UInt32)) :=
  (trace.foldl Ledger.step ⟨none, none⟩).success

/-- The standing of the most recent exchange is in the ledger. -/
structure Agrees (s : Standing) (l : Ledger) : Prop where
  asking : ∀ n cs, s = .asking n cs ↔ l.current = some (n, cs)
  acked : ∀ n cs, s = .acked n cs → l.success = some (n, cs)

theorem Agrees.current_none {s : Standing} {l : Ledger} (ha : Agrees s l)
    (hs : ∀ n cs, s ≠ .asking n cs) : l.current = none := by
  cases hl : l.current with
  | none => rfl
  | some p => exact absurd ((ha.asking p.1 p.2).mpr hl) (hs _ _)

theorem Agrees.step {s : Standing} {l : Ledger} (ha : Agrees s l) (e : Event) :
    Agrees (s.step e) (l.step e) := by
  cases s with
  | asking n cs =>
    have hcur : l.current = some (n, cs) := (ha.asking n cs).mp rfl
    cases e <;> constructor <;> simp_all [Standing.step, Ledger.step]
  | acked n cs =>
    have hcur : l.current = none := ha.current_none nofun
    have hsuc : l.success = some (n, cs) := ha.acked n cs rfl
    cases e <;> constructor <;> simp_all [Standing.step, Ledger.step]
  | _ =>
    have hcur : l.current = none := ha.current_none nofun
    cases e <;> constructor <;> simp_all [Standing.step, Ledger.step]

theorem lastSuccess_of_acked {trace : List Event} {n : CString} {cs : List (CString × UInt32)}
    (hs : standing trace = .acked n cs) : lastSuccess trace = some (n, cs) := by
  have hfold : ∀ (es : List Event) (s : Standing) (l : Ledger), Agrees s l →
      Agrees (es.foldl Standing.step s) (es.foldl Ledger.step l) := by
    intro es
    induction es with
    | nil => exact fun _ _ h => h
    | cons e es ih => exact fun s l h => ih _ _ (h.step e)
  exact (hfold trace .void ⟨none, none⟩ ⟨by simp, nofun⟩).acked n cs hs

/-! ## `nbd_can_meta_context` -/

/-- The most recent successful exchange for the current export returned `name`. -/
def Returned (h : Handle) (name : CString) : Prop :=
  ∃ contexts, lastSuccess h.trace = some (h.cfg.exportName, contexts) ∧
    name ∈ contexts.map Prod.fst

/-- A stale list is consulted only if nothing is requested, nothing is valid and
there is something in it. -/
def Handle.ListCurrent (h : Handle) : Prop :=
  h.cfg.requestMetaContexts ≠ [] ∨ h.exp.metaValid = true ∨ h.exp.metaContexts = []

/-- A later exchange that was not acknowledged returned nothing new. -/
def Handle.RepeatsSuccess (h : Handle) : Prop :=
  ∃ contexts, lastSuccess h.trace = some (h.cfg.exportName, contexts) ∧
    ∀ name ∈ h.exp.metaContexts.map Prod.fst, name ∈ contexts.map Prod.fst

theorem canMetaContext_eq_one {h : Handle} {name : CString} :
    h.canMetaContext name = 1 ↔ (h.cfg.requestMetaContexts = [] ∨ h.exp.metaValid = true) ∧
      name ∈ h.exp.metaContexts.map Prod.fst := by
  unfold Handle.canMetaContext
  split
  · rename_i hcond
    simp only [Bool.and_eq_true, Bool.not_eq_true', List.isEmpty_eq_false_iff] at hcond
    simp [hcond.1, hcond.2]
  · rename_i hcond
    have hor : h.cfg.requestMetaContexts = [] ∨ h.exp.metaValid = true := by
      by_contra hne
      push Not at hne
      exact hcond (by simp [hne.1, hne.2])
    split
    · rename_i hm
      exact ⟨fun _ => ⟨hor, hm⟩, fun _ => rfl⟩
    · rename_i hm
      exact ⟨nofun, fun h => absurd h.2 hm⟩

theorem returned_of_current {h : Handle} (hv : Valid h.view) (hcur : h.ListCurrent)
    {name : CString} (hone : h.canMetaContext name = 1) : Returned h name := by
  obtain ⟨hor, hm⟩ := canMetaContext_eq_one.mp hone
  have hne : h.exp.metaContexts ≠ [] := by
    intro hnil
    rw [hnil] at hm
    cases hm
  have hvalid : h.exp.metaValid = true := by
    rcases hcur with hreq | hvalid | hnil
    · exact hor.resolve_left hreq
    · exact hvalid
    · exact absurd hnil hne
  rcases hv.sound hvalid with hacked | ⟨hnil, -⟩
  · exact ⟨_, lastSuccess_of_acked hacked, hm⟩
  · exact absurd hnil hne

/-- The answer 1 is true of every name exactly if the list is current, or happens
to repeat the successful exchange. -/
theorem returned_iff_current {h : Handle} (hv : Valid h.view) :
    (∀ name, h.canMetaContext name = 1 → Returned h name) ↔
      h.ListCurrent ∨ h.RepeatsSuccess := by
  constructor
  · intro hall
    by_cases hcur : h.ListCurrent
    · exact .inl hcur
    right
    simp only [Handle.ListCurrent, not_or, not_not] at hcur
    obtain ⟨hreq, -, hne⟩ := hcur
    have hret : ∀ name ∈ h.exp.metaContexts.map Prod.fst, Returned h name :=
      fun name hm => hall name (canMetaContext_eq_one.mpr ⟨.inl hreq, hm⟩)
    obtain ⟨p, rest, hlist⟩ := List.exists_cons_of_ne_nil hne
    obtain ⟨contexts, hs, -⟩ := hret p.1 (by rw [hlist]; exact List.mem_cons_self)
    refine ⟨contexts, hs, fun name hm => ?_⟩
    obtain ⟨contexts', hs', hm'⟩ := hret name hm
    rw [hs] at hs'
    cases hs'
    exact hm'
  · rintro (hcur | ⟨contexts, hs, hsub⟩) name hone
    · exact returned_of_current hv hcur hone
    · exact ⟨contexts, hs, hsub name (canMetaContext_eq_one.mp hone).2⟩

end Libnbd.Negotiation
