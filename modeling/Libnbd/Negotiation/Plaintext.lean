import Libnbd.Negotiation.Lockstep
import Libnbd.Negotiation.Tls
import Libnbd.Session

/-!
What was negotiated in plaintext is forgotten when the server accepts STARTTLS.

Two runs with the same API calls, in which the server has answered the options before
STARTTLS in different ways, are in lockstep from the acknowledgement on. They report the same
export, with one exception: the metadata contexts of a plaintext exchange stay in the list,
and `nbd_can_meta_context` looks at it if no context is requested.
-/

namespace Libnbd.Negotiation

open Lib

variable {F : Prop} {h h' : Handle} (inp : Input)

/-! ## Calls -/

/-- Two calls that end alike. -/
def Submit.Rel (R : Handle → Handle → Prop) : Submit → Submit → Prop
  | .abort _, _ | _, .abort _ => True
  | .refused h, .refused h' | .done h, .done h' => R h h'
  | .run ev _ h, .run ev' _ h' => ev' = ev ∧ h'.state = h.state ∧
      (∀ s, externalEvent ev h.state = some s → R { h with state := s } { h' with state := s }) ∧
      (externalEvent ev h.state = none → ∀ e t, R (h.setError e t) (h'.setError e t))
  | _, _ => False

theorem submit_rel_abort {R : Handle → Handle → Prop} (o : Submit) (a : Abort) :
    o.Rel R (.abort a) := by cases o <;> trivial

theorem submit_ite_rel {R : Handle → Handle → Prop} {p p' : Prop} [Decidable p] [Decidable p']
    (hp : p' ↔ p) {a a' b b' : Submit} (ha : p → a.Rel R a') (hb : ¬ p → b.Rel R b') :
    (if p then a else b).Rel R (if p' then a' else b') := by
  by_cases h : p
  · rw [if_pos h, if_pos (hp.mpr h)]
    exact ha h
  · rw [if_neg h, if_neg (mt hp.mp h)]
    exact hb h

/-- The error of the calling thread is not part of the relation. -/
theorem Alike.withError (hL : Alike F h h') (e e' : Option (UInt32 × String)) :
    Alike F { h with lastError := e } { h' with lastError := e' } :=
  ⟨hL.agree, hL.state, hL.wbuf, hL.framed,
    fun hr => ⟨(hL.input hr).rbuf, (hL.input hr).rlen, (hL.input hr).sbuf⟩, hL.queries, hL.querynum,
    hL.late, hL.asked, hL.asking⟩

theorem permitted_alike {p : State → Bool} {k k' : Submit} (hL : Alike F h h')
    (hk : p h.state = true → k.Rel (Alike F) k') :
    (permitted p h k).Rel (Alike F) (permitted p h' k') := by
  unfold permitted
  rw [hL.state]
  exact submit_ite_rel Iff.rfl hk fun _ => hL.withError _ _

theorem needFixed_alike {k k' : Submit} (hL : Alike F h h') (hk : k.Rel (Alike F) k') :
    (needFixed h k).Rel (Alike F) (needFixed h' k') :=
  submit_ite_rel (by rw [hL.agree.isFixed]) (fun _ => hk) fun _ => hL.withError _ _

theorem needCallback_alike {k k' : Submit} {fn : Closure} (hL : Alike F h h')
    (hk : k.Rel (Alike F) k') : (needCallback fn h k).Rel (Alike F) (needCallback fn h' k') :=
  submit_ite_rel Iff.rfl (fun _ => hL.withError _ _) fun _ => hk

/-- A late state is not that of a new handle. -/
theorem Alike.not_created (hL : Alike F h h') : h.state.isCreated = false := by
  have hlate := hL.late
  cases hs : h.state <;> simp_all [State.isCreated, State.isLate, State.isFresh]

theorem Alike.negotiating (hL : Alike F h h') (hs : h.state.isConfigurable = true) :
    h.state = .negotiating := by
  simp only [State.isConfigurable, hL.not_created, Bool.false_or, State.isNegotiating,
    beq_iff_eq] at hs
  exact hs

/-- The same change to the settings. -/
theorem settings_alike (hL : Alike F h h') (hs : h.state.isConfigurable = true)
    (f : Settings → Settings) :
    Alike F { h with cfg := f h.cfg } { h' with cfg := f h'.cfg } := by
  have hA := hL.agree
  refine Alike.plain ?_ ?_ hL.state
  · exact { hA with cfg := congrArg f hA.cfg }
  · show h.state.isPlain = true
    rw [hL.negotiating hs]
    rfl

theorem setExportName_alike (hL : Alike F h h') (hs : h.state.isConfigurable = true)
    (name : CString) : (setExportName inp h name).Rel (Alike F) (setExportName inp h' name) := by
  refine submit_ite_rel Iff.rfl (fun _ => hL.withError _ _) fun _ =>
    submit_ite_rel (by rw [hL.agree.cfg_eq]) (fun _ => hL) fun _ =>
    submit_ite_rel Iff.rfl (fun _ => hL.withError _ _) fun _ => ?_
  have hL := settings_alike hL hs fun c => { c with exportName := name }
  refine Alike.plain ?_ ?_ hL.state
  · refine hL.agree.revise ?_ rfl rfl (.inr rfl)
    exact congrArg (fun e : Negotiated => { e with
      exportsize := 0, eflags := 0, blockMinimum := 0, blockPreferred := 0, blockMaximum := 0,
      payloadMaximum := 0, canonicalName := none, description := none, metaValid := false })
      hL.agree.exp
  · show h.state.isPlain = true
    rw [Alike.negotiating hL hs]
    rfl

theorem addMetaContext_alike (hL : Alike F h h') (hs : h.state.isConfigurable = true)
    (name : CString) : (addMetaContext inp h name).Rel (Alike F) (addMetaContext inp h' name) := by
  refine submit_ite_rel Iff.rfl (fun _ => hL.withError _ _) fun _ =>
    submit_ite_rel Iff.rfl (fun _ => hL.withError _ _) fun _ =>
    submit_ite_rel Iff.rfl (fun _ => hL.withError _ _) fun _ => ?_
  exact settings_alike hL hs fun c =>
    { c with requestMetaContexts := c.requestMetaContexts ++ [name] }

theorem callSetter_alike (hL : Alike F h h') (s : Setter) :
    (callSetter inp h s).Rel (Alike F) (callSetter inp h' s) := by
  have hnew : ∀ {k k' : Submit}, (permitted State.isCreated h k).Rel (Alike F)
      (permitted State.isCreated h' k') := fun {k k'} =>
    permitted_alike hL fun hs => by rw [hL.not_created] at hs; cases hs
  cases s with
  | setTls tls => exact hnew
  | setOptMode b => exact hnew
  | setHandshakeFlags flags => exact hnew
  | setRequestExtendedHeaders b => exact hnew
  | setRequestStructuredReplies b => exact hnew
  | setRequestMetaContext b =>
    exact permitted_alike hL fun hs => settings_alike hL hs fun c => { c with requestMeta := b }
  | setRequestBlockSize b =>
    exact permitted_alike hL fun hs => settings_alike hL hs fun c => { c with requestBlockSize := b }
  | setFullInfo b =>
    exact permitted_alike hL fun hs => settings_alike hL hs fun c => { c with fullInfo := b }
  | setExportName name => exact permitted_alike hL fun hs => setExportName_alike inp hL hs name
  | addMetaContext name => exact permitted_alike hL fun hs => addMetaContext_alike inp hL hs name
  | clearMetaContexts =>
    exact permitted_alike hL fun hs =>
      settings_alike hL hs fun c => { c with requestMetaContexts := [] }

/-- An option call starts the state machine with the same option. -/
theorem run_option_alike {a a' : Handle} {keep keep' : Bool} (hA : Agree F a.terms a'.terms)
    (hs : a.state = .negotiating) (hs' : a'.state = .negotiating) (hcur : a.optCurrent ≠ none)
    (hq : a.optCurrent = some .listMetaContext ∨ a.optCurrent = some .setMetaContext →
      a'.querylist = a.querylist) :
    (Submit.run .cmdIssue keep a).Rel (Alike F) (.run .cmdIssue keep' a') := by
  refine ⟨rfl, by rw [hs, hs'], fun s he => ?_, fun he => ?_⟩
  · rw [hs] at he
    cases he
    refine ⟨hA, rfl, nofun, trivial, nofun, fun h => hq ?_, nofun, rfl, fun _ => hcur, nofun⟩
    simpa [State.usesQueries] using h
  · rw [hs] at he
    cases he

theorem submitOption_alike {a a' : Handle} (hA : Agree F a.terms a'.terms)
    (hs : a.state = .negotiating) (hs' : a'.state = .negotiating) (opt : Opt) (fn : Option Closure)
    (completion : Closure)
    (hq : opt = .listMetaContext ∨ opt = .setMetaContext → a'.querylist = a.querylist) :
    (submitOption a opt fn completion).Rel (Alike F) (submitOption a' opt fn completion) := by
  refine run_option_alike ?_ hs hs' nofun fun h => hq (h.imp Option.some.inj Option.some.inj)
  exact { hA with current := rfl }

theorem negotiating_spec {s : State} (hs : s.isNegotiating = true) : s = .negotiating := by
  simpa [State.isNegotiating] using hs

theorem plainOption_alike (hL : Alike F h h') (opt : Opt) (completion : Closure)
    (ho : opt ≠ .listMetaContext ∧ opt ≠ .setMetaContext) :
    (plainOption h opt completion).Rel (Alike F) (plainOption h' opt completion) := by
  refine permitted_alike hL fun hs => ?_
  have hs := negotiating_spec hs
  exact submitOption_alike hL.agree hs (hL.state.trans hs) _ _ _ fun h =>
    h.elim (absurd · ho.1) (absurd · ho.2)

theorem fixedOption_alike (hL : Alike F h h') (opt : Opt) (completion : Closure)
    (ho : opt ≠ .listMetaContext ∧ opt ≠ .setMetaContext) :
    (fixedOption h opt completion).Rel (Alike F) (fixedOption h' opt completion) := by
  refine permitted_alike hL fun hs => needFixed_alike hL ?_
  have hs := negotiating_spec hs
  exact submitOption_alike hL.agree hs (hL.state.trans hs) _ _ _ fun h =>
    h.elim (absurd · ho.1) (absurd · ho.2)

/-- If another callback is in the way, the process dies. -/
theorem queue_alike {c c' : Bool} {o o' : Submit} {a a' : Abort} (ho : o.Rel (Alike F) o') :
    (if c then o else .abort a).Rel (Alike F) (if c' then o' else .abort a') := by
  cases c with
  | false => trivial
  | true =>
    cases c' with
    | false => exact submit_rel_abort _ _
    | true => exact ho

theorem aioOptList_alike (hL : Alike F h h') (list completion : Closure) :
    (aioOptList h list completion).Rel (Alike F) (aioOptList h' list completion) := by
  refine permitted_alike hL fun hs => needCallback_alike hL <| needFixed_alike hL <| queue_alike ?_
  have hs := negotiating_spec hs
  exact submitOption_alike hL.agree hs (hL.state.trans hs) _ _ _ nofun

theorem setQuerylist_state (queries : Option (List CString)) :
    (setQuerylist inp h queries).1.state = h.state := by
  unfold setQuerylist
  dsimp only
  split <;> rfl

theorem aioOptMetaContextQueries_alike (hL : Alike F h h') (opt : Opt)
    (queries : Option (List CString)) (context completion : Closure) :
    (aioOptMetaContextQueries inp h opt queries context completion).Rel (Alike F)
      (aioOptMetaContextQueries inp h' opt queries context completion) := by
  refine permitted_alike hL fun hs => needCallback_alike hL <| needFixed_alike hL ?_
  have hs := negotiating_spec hs
  obtain ⟨hok, hlist⟩ := setQuerylist_alike inp hL.agree queries
  have hw := setQuerylist_terms inp (h := h) queries
  have hw' := setQuerylist_terms inp (h := h') queries
  have hst := setQuerylist_state inp (h := h) queries
  have hst' := setQuerylist_state inp (h := h') queries
  generalize setQuerylist inp h queries = x at hok hlist hw hst
  generalize setQuerylist inp h' queries = x' at hok hlist hw' hst'
  obtain ⟨a, ok⟩ := x
  obtain ⟨a', ok'⟩ := x'
  cases hok
  dsimp only at hlist hw hw' hst hst' ⊢
  rw [hs] at hst
  rw [hL.state, hs] at hst'
  have hA' : Agree F a.terms a'.terms := by
    rw [hw, hw']
    exact hL.agree
  refine submit_ite_rel Iff.rfl (fun _ => ?_) fun _ => queue_alike ?_
  · exact Alike.plain hA' (by rw [hst]; rfl) (by rw [hst, hst'])
  · exact submitOption_alike hA' hst hst' _ _ _ fun _ => hlist

theorem notify_alike {ev : ExternalEvent} {keep keep' : Bool} (hL : Alike F h h')
    (hev : ∀ s, externalEvent ev h.state = some s → s = h.state) :
    (Submit.run ev keep h).Rel (Alike F) (.run ev keep' h') := by
  refine ⟨rfl, hL.state, fun s he => ?_, fun _ _ _ => hL.withError _ _⟩
  cases hev s he
  exact ⟨hL.agree, rfl, hL.wbuf, hL.framed,
    fun hr => ⟨(hL.input hr).rbuf, (hL.input hr).rlen, (hL.input hr).sbuf⟩, hL.queries, hL.querynum,
    hL.late, hL.asked, hL.asking⟩

theorem submit_alike (hL : Alike F h h') (api : Api) :
    (submit inp h api).Rel (Alike F) (submit inp h' api) := by
  cases api with
  | set s => exact callSetter_alike inp hL s
  | aioConnect addr =>
    refine permitted_alike hL fun hs => ?_
    rw [hL.not_created] at hs
    cases hs
  | aioOptGo completion => exact plainOption_alike hL _ _ ⟨nofun, nofun⟩
  | aioOptInfo completion => exact fixedOption_alike hL _ _ ⟨nofun, nofun⟩
  | aioOptAbort =>
    refine permitted_alike hL fun hs => ?_
    have hs := negotiating_spec hs
    have hA : Agree F { h with optCurrent := some .abort }.terms
        { h' with optCurrent := some .abort }.terms := { hL.agree with current := rfl }
    refine run_option_alike hA hs (hL.state.trans hs) nofun ?_
    rintro (h | h) <;> cases h
  | aioOptStarttls completion => exact fixedOption_alike hL _ _ ⟨nofun, nofun⟩
  | aioOptExtendedHeaders completion => exact fixedOption_alike hL _ _ ⟨nofun, nofun⟩
  | aioOptStructuredReply completion => exact fixedOption_alike hL _ _ ⟨nofun, nofun⟩
  | aioOptList list completion => exact aioOptList_alike hL _ _
  | aioOptListMetaContext queries context completion =>
    exact aioOptMetaContextQueries_alike inp hL _ _ _ _
  | aioOptSetMetaContext queries context completion =>
    exact aioOptMetaContextQueries_alike inp hL _ _ _ _
  | aioNotifyRead =>
    exact notify_alike hL fun s he => (externalEvent_notifyRead he).2
  | aioNotifyWrite =>
    refine notify_alike hL fun s he => ?_
    have hlate := hL.late
    rcases externalEvent_notifyWrite he with ⟨hs, -⟩ | ⟨hs, -⟩ | ⟨-, rfl⟩
    · rw [hs] at hlate
      cases hlate
    · rw [hs] at hlate
      cases hlate
    · rfl

/-! ## Runs -/

/-- Both runs are at the same point, unless the process has died in one of them. -/
def Config.InStep (F : Prop) (c c' : Config) : Prop :=
  match c.ctl, c'.ctl with
  | .aborted _, _ | _, .aborted _ => True
  | .running _, .running _ | .idle _, .idle _ => Alike F c.h c'.h
  | _, _ => False

/-- The step forgets the contexts of an earlier exchange. -/
def Config.Refreshes (c : Config) : Label → Prop
  | .enter _ => c.h.Refreshes
  | .call _ _ => False

/-- Some step of the run forgets the contexts of an earlier exchange. -/
def Refreshed (c : Config) (ls : List Label) : Prop :=
  ¬ machine.Meets (fun c l => ¬ c.Refreshes l) c ls

theorem refreshed_cons {c c' : Config} {l : Label} {ls : List Label}
    (hs : machine.step c l = some c') : Refreshed c (l :: ls) ↔ c.Refreshes l ∨ Refreshed c' ls := by
  simp only [Refreshed, System.Meets, hs, Option.some.injEq, forall_eq']
  tauto

theorem inStep_aborted {c c' : Config} (a : Abort) (hc : c'.ctl = .aborted a) : c.InStep F c' := by
  unfold Config.InStep
  rw [hc]
  cases c.ctl <;> trivial

theorem stepEnter_inStep {keep keep' : Bool} (ho : (enter inp h).Rel (Alike F) (enter inp h')) :
    (stepEnter inp keep h).InStep F (stepEnter inp keep' h') := by
  unfold stepEnter
  cases he : enter inp h with
  | abort a => trivial
  | next a =>
    rw [he] at ho
    cases he' : enter inp h' with
    | abort b => exact inStep_aborted b rfl
    | next b => rw [he'] at ho; exact ho
    | block b => rw [he'] at ho; exact ho.elim
    | fail b => rw [he'] at ho; exact ho.elim
  | block a =>
    rw [he] at ho
    cases he' : enter inp h' with
    | abort b => exact inStep_aborted b rfl
    | next b => rw [he'] at ho; exact ho.elim
    | block b => rw [he'] at ho; exact ho
    | fail b => rw [he'] at ho; exact ho.elim
  | fail a =>
    rw [he] at ho
    cases he' : enter inp h' with
    | abort b => exact inStep_aborted b rfl
    | next b => rw [he'] at ho; exact ho.elim
    | block b => rw [he'] at ho; exact ho.elim
    | fail b => rw [he'] at ho; exact ho

theorem startRun_inStep {ev ev' : ExternalEvent} {keep keep' : Bool}
    (hr : (Submit.run ev keep h).Rel (Alike F) (.run ev' keep' h')) :
    (startRun ev keep h).InStep F (startRun ev' keep' h') := by
  obtain ⟨rfl, hs, hsome, hnone⟩ := hr
  unfold startRun
  rw [hs]
  cases he : externalEvent ev' h.state with
  | none => exact hnone he _ _
  | some s => exact hsome s he

theorem afterSubmit_inStep {a a' : Handle} {o o' : Submit} (ho : o.Rel (Alike F) o') :
    (afterSubmit a o).InStep F (afterSubmit a' o') := by
  cases o with
  | abort x => trivial
  | refused x =>
    cases o' with
    | abort y => exact inStep_aborted y rfl
    | refused y => exact ho
    | done y => exact ho.elim
    | run ev keep y => exact ho.elim
  | done x =>
    cases o' with
    | abort y => exact inStep_aborted y rfl
    | refused y => exact ho.elim
    | done y => exact ho
    | run ev keep y => exact ho.elim
  | run ev keep x =>
    cases o' with
    | abort y => exact inStep_aborted y rfl
    | refused y => exact ho.elim
    | done y => exact ho.elim
    | run ev' keep' y => exact startRun_inStep ho

/-- **Step.** -/
theorem step_inStep {c c' d d' : Config} {l : Label} (hS : c.Holds Residual RunShape RestShape)
    (hc : c.InStep F c') (hd : machine.step c l = some d) (hd' : machine.step c' l = some d') :
    d.InStep (F ∨ c.Refreshes l) d' := by
  obtain ⟨h, ctl⟩ := c
  obtain ⟨h', ctl'⟩ := c'
  cases l with
  | enter inp =>
    cases ctl with
    | running keep =>
      cases ctl' with
      | running keep' =>
        cases hd
        cases hd'
        exact stepEnter_inStep inp (enter_alike inp hS hc)
      | idle r => cases hd'
      | aborted a => cases hd'
    | idle r => cases hd
    | aborted a => cases hd
  | call api inp =>
    cases ctl with
    | idle r =>
      cases ctl' with
      | idle r' =>
        cases hd
        cases hd'
        have hL : Alike (F ∨ False) h h' := Alike.widen hc (Or.resolve_right · id)
        exact afterSubmit_inStep (submit_alike inp (hL.withError _ _) api)
      | running keep' => cases hd'
      | aborted a => cases hd'
    | running keep => cases hd
    | aborted a => cases hd

/-- **Run.** -/
theorem exec_inStep {c c' d d' : Config} {ls : List Label} (hc : machine.Reachable c)
    (hL : c.InStep F c') (hd : machine.exec c ls = some d) (hd' : machine.exec c' ls = some d') :
    d.InStep (F ∨ Refreshed c ls) d' := by
  induction ls generalizing c c' F with
  | nil =>
    cases hd
    cases hd'
    have : ¬ Refreshed d [] := fun h => h trivial
    simpa only [this, or_false] using hL
  | cons l ls ih =>
    obtain ⟨e, he, hrest⟩ := Option.bind_eq_some_iff.mp hd
    obtain ⟨e', he', hrest'⟩ := Option.bind_eq_some_iff.mp hd'
    have hstep := step_inStep (reachable_shape hc) hL he he'
    have := ih (System.Reachable.step _ hc he) hstep hrest hrest'
    simpa only [refreshed_cons he, or_assoc] using this

/-! ## The API calls of a run -/

def Api.isNotify : Api → Bool
  | .aioNotifyRead | .aioNotifyWrite => true
  | _ => false

def Submit.accepted : Submit → Bool
  | .refused _ | .abort _ => false
  | _ => true

/-- The calls that the application makes, notifications apart, each with whether it is
accepted. -/
def Config.calls (c : Config) : Label → List (Api × Bool)
  | .enter _ => []
  | .call api inp =>
    if api.isNotify then []
    else [(api, (submit inp { c.h with lastError := inp.lastError } api).accepted)]

/-- What an accepted call sets. -/
def Settings.set (s : Settings) : Setter → Settings
  | .setTls tls => { s with tls := tls }
  | .setOptMode b => { s with optMode := b }
  | .setHandshakeFlags _ => s
  | .setRequestExtendedHeaders b => { s with requestEh := b }
  | .setRequestStructuredReplies b => { s with requestSr := b }
  | .setRequestMetaContext b => { s with requestMeta := b }
  | .setRequestBlockSize b => { s with requestBlockSize := b }
  | .setFullInfo b => { s with fullInfo := b }
  | .setExportName name => { s with exportName := name }
  | .addMetaContext name => { s with requestMetaContexts := s.requestMetaContexts ++ [name] }
  | .clearMetaContexts => { s with requestMetaContexts := [] }

/-- The option that a call asks for. -/
def Api.option : Api → Option Opt
  | .aioOptGo _ => some .go
  | .aioOptInfo _ => some .info
  | .aioOptAbort => some .abort
  | .aioOptStarttls _ => some .starttls
  | .aioOptExtendedHeaders _ => some .extendedHeaders
  | .aioOptStructuredReply _ => some .structuredReply
  | .aioOptList _ _ => some .list
  | .aioOptListMetaContext _ _ _ => some .listMetaContext
  | .aioOptSetMetaContext _ _ _ => some .setMetaContext
  | _ => none

/-- The settings and the last option, after one more call. -/
def told (x : Settings × Option Opt) : Api × Bool → Settings × Option Opt
  | (api, true) =>
    (match api with
      | .set s => x.1.set s
      | _ => x.1, api.option.or x.2)
  | (_, false) => x

/-- The settings and the last option, after all calls. -/
def toldAll (calls : List (Api × Bool)) : Settings × Option Opt :=
  calls.foldl told ((Handle.create fun _ => 0).cfg, none)

/-- The calls that are accepted. -/
def acceptedCalls (calls : List (Api × Bool)) : List (Api × Bool) := calls.filter (·.2)

/-- A refused call asks for nothing. -/
theorem toldAll_acceptedCalls (calls : List (Api × Bool)) : toldAll (acceptedCalls calls) = toldAll calls := by
  unfold toldAll acceptedCalls
  rw [List.foldl_filter]
  congr 1
  funext x call
  obtain ⟨api, ok⟩ := call
  cases ok <;> rfl

/-- What a call leaves, given whether it was accepted. -/
def Submit.Leaves (P : Bool → Handle → Prop) : Submit → Prop
  | .refused h => P false h
  | .done h | .run _ _ h => P true h
  | .abort _ => True

/-- The settings and the option after a call. -/
def Leaving (h : Handle) (api : Api) (ok : Bool) (h' : Handle) : Prop :=
  (h'.cfg, h'.optCurrent) = told (h.cfg, h.optCurrent) (api, ok)

theorem leaves_ite {P : Bool → Handle → Prop} {p : Prop} [Decidable p] {a b : Submit}
    (ha : a.Leaves P) (hb : b.Leaves P) : (if p then a else b).Leaves P := by
  split
  · exact ha
  · exact hb

theorem leaves_permitted {p : State → Bool} {api : Api} {k : Submit} (hk : k.Leaves (Leaving h api)) :
    (permitted p h k).Leaves (Leaving h api) := leaves_ite hk rfl

theorem callSetter_leaves (s : Setter) : (callSetter inp h s).Leaves (Leaving h (.set s)) := by
  cases s with
  | setHandshakeFlags flags => exact leaves_permitted (leaves_ite rfl rfl)
  | setExportName name =>
    refine leaves_permitted ?_
    unfold setExportName
    split
    · rfl
    · split
      · next hname =>
        show (h.cfg, h.optCurrent) = ({ h.cfg with exportName := name }, h.optCurrent)
        rw [hname]
      · exact leaves_ite rfl rfl
  | addMetaContext name => exact leaves_permitted (leaves_ite rfl (leaves_ite rfl (leaves_ite rfl rfl)))
  | _ => exact leaves_permitted rfl

theorem setQuerylist_leaves (queries : Option (List CString)) :
    (setQuerylist inp h queries).1.cfg = h.cfg ∧
      (setQuerylist inp h queries).1.optCurrent = h.optCurrent := by
  have := setQuerylist_terms inp (h := h) queries
  exact ⟨congrArg Terms.cfg this, congrArg Terms.optCurrent this⟩

theorem aioOptMetaContextQueries_leaves (api : Api) (opt : Opt) (queries : Option (List CString))
    (context completion : Closure) (ho : api.option = some opt) (hs : ∀ s, api ≠ .set s) :
    (aioOptMetaContextQueries inp h opt queries context completion).Leaves (Leaving h api) := by
  obtain ⟨hcfg, hcur⟩ := setQuerylist_leaves inp (h := h) queries
  have htold : told (h.cfg, h.optCurrent) (api, true) = (h.cfg, some opt) := by
    cases api <;> simp_all [told, Api.option]
  refine leaves_permitted (leaves_ite rfl (leaves_ite (leaves_ite ?_ (leaves_ite ?_ trivial)) rfl))
  · exact Prod.ext hcfg hcur
  · show (_, _) = told _ _
    rw [htold]
    exact congrArg (·, some opt) hcfg

theorem submit_leaves (api : Api) (hn : api.isNotify = false) :
    (submit inp h api).Leaves (Leaving h api) := by
  cases api with
  | set s => exact callSetter_leaves inp s
  | aioConnect addr =>
    refine leaves_permitted ?_
    cases addr with
    | sockAddr => rfl
    | _ => exact leaves_ite rfl rfl
  | aioOptGo completion => exact leaves_permitted rfl
  | aioOptInfo completion => exact leaves_permitted (leaves_ite rfl rfl)
  | aioOptAbort => exact leaves_permitted rfl
  | aioOptStarttls completion => exact leaves_permitted (leaves_ite rfl rfl)
  | aioOptExtendedHeaders completion => exact leaves_permitted (leaves_ite rfl rfl)
  | aioOptStructuredReply completion => exact leaves_permitted (leaves_ite rfl rfl)
  | aioOptList list completion =>
    exact leaves_permitted (leaves_ite rfl (leaves_ite (leaves_ite rfl trivial) rfl))
  | aioOptListMetaContext queries context completion =>
    exact aioOptMetaContextQueries_leaves inp _ _ _ _ _ rfl nofun
  | aioOptSetMetaContext queries context completion =>
    exact aioOptMetaContextQueries_leaves inp _ _ _ _ _ rfl nofun
  | aioNotifyRead => cases hn
  | aioNotifyWrite => cases hn

/-- The settings and the option of a handle are what was asked for. Without option mode the
handle itself asks for GO. -/
structure Obeys (calls : List (Api × Bool)) (h : Handle) : Prop where
  cfg : h.cfg = (toldAll calls).1
  current : h.optCurrent = (toldAll calls).2 ∨ h.cfg.optMode = false ∧ h.optCurrent ≠ none

theorem Effect.current_eq {v v' : View} (he : Effect v v') :
    v'.optCurrent = v.optCurrent ∨
      v.state = .optStart .go ∧ v.optCurrent = none ∧ v'.optCurrent ≠ none := by
  cases he with
  | change s v₁ hc =>
    cases hc with
    | current hd hn => exact .inr ⟨hd, hn, nofun⟩
    | _ => exact .inl rfl
  | complete err s v₁ hc hs =>
    cases hc with
    | current hd hn => exact .inr ⟨hd, hn, nofun⟩
    | _ => exact .inl rfl
  | _ => exact .inl rfl

theorem Obeys.effect {calls : List (Api × Bool)} (ho : Obeys calls h) (hS : RunShape h)
    (he : Leads h h') : Obeys calls h' := by
  have hcfg : h'.cfg = h.cfg := he.cfg_eq
  refine ⟨hcfg.trans ho.cfg, ?_⟩
  rcases he.current_eq with hc | ⟨hs, hn, hc⟩
  · have hc : h'.optCurrent = h.optCurrent := hc
    rw [hc, hcfg]
    exact ho.current
  · have hcur := hS.shape.current
    rw [show h.state = _ from hs] at hcur
    refine .inr ⟨?_, hc⟩
    rw [hcfg]
    rcases hcur with hcur | ⟨-, hcur | hcur⟩
    · exact hcur.1
    · rw [show h.core.optCurrent = none from hn] at hcur
      cases hcur
    · rw [show h.core.optCurrent = none from hn] at hcur
      cases hcur

/-- Option mode is chosen on a new handle only, and no option is in progress there. -/
theorem Obeys.told {calls : List (Api × Bool)} {api : Api} {ok : Bool} (ho : Obeys calls h)
    (hl : Leaving h api ok h')
    (hmode : ok = true → h.optCurrent ≠ none → ∀ b, api ≠ .set (.setOptMode b)) :
    Obeys (calls ++ [(api, ok)]) h' := by
  have hall : toldAll (calls ++ [(api, ok)]) = Negotiation.told (toldAll calls) (api, ok) := by
    simp only [toldAll, List.foldl_append, List.foldl_cons, List.foldl_nil]
  have hcfg := congrArg Prod.fst hl
  have hcur := congrArg Prod.snd hl
  dsimp only at hcfg hcur
  cases ok with
  | false =>
    refine ⟨?_, ?_⟩
    · rw [hcfg, hall]
      exact ho.cfg
    · rw [hcfg, hcur, hall]
      exact ho.current
  | true =>
    refine ⟨?_, ?_⟩
    · rw [hcfg, hall]
      cases api <;> simp only [Negotiation.told, ho.cfg]
    · rw [hcfg, hcur, hall]
      rcases ho.current with hc | ⟨hm, hc⟩
      · left
        simp only [Negotiation.told, hc]
      · cases api with
        | set s =>
          refine .inr ⟨?_, hc⟩
          have hne := hmode rfl hc
          cases s with
          | setOptMode b => exact absurd rfl (hne b)
          | _ => exact hm
        | aioConnect addr => exact .inr ⟨hm, hc⟩
        | aioNotifyRead => exact .inr ⟨hm, hc⟩
        | aioNotifyWrite => exact .inr ⟨hm, hc⟩
        | _ => exact .inl rfl

theorem Obeys.congr {calls : List (Api × Bool)} (ho : Obeys calls h) (hcfg : h'.cfg = h.cfg)
    (hcur : h'.optCurrent = h.optCurrent) : Obeys calls h' := by
  refine ⟨hcfg.trans ho.cfg, ?_⟩
  rw [hcfg, hcur]
  exact ho.current

theorem startRun_obeys {calls : List (Api × Bool)} {ev : ExternalEvent} {keep : Bool}
    (ho : Obeys calls h) : Obeys calls (startRun ev keep h).h := by
  unfold startRun
  split
  · exact ho.congr rfl rfl
  · exact ho.congr rfl rfl

theorem setOptMode_current {b : Bool} (hS : RestShape h)
    (ha : (submit inp h (.set (.setOptMode b))).accepted = true) : h.optCurrent = none := by
  have hs : h.state.isCreated = true := by
    by_contra hne
    simp only [submit, callSetter, permitted, hne, Submit.accepted] at ha
    cases ha
  have hstart : h.state = .start := by simpa [State.isCreated] using hs
  have hcur := hS.shape.current
  rw [hstart] at hcur
  exact hcur

theorem call_obeys {calls : List (Api × Bool)} (hS : RestShape h) (ho : Obeys calls h) (api : Api)
    (hn : api.isNotify = false) :
    Obeys (calls ++ [(api, (submit inp h api).accepted)]) (afterSubmit h (submit inp h api)).h := by
  have hl := submit_leaves inp (h := h) api hn
  have hmode : (submit inp h api).accepted = true → h.optCurrent ≠ none →
      ∀ b, api ≠ .set (.setOptMode b) := by
    rintro ha hc b rfl
    exact hc (setOptMode_current inp hS ha)
  cases hsub : submit inp h api with
  | refused a =>
    rw [hsub] at hl
    exact ho.told hl nofun
  | done a =>
    rw [hsub] at hl hmode
    exact ho.told hl hmode
  | run ev keep a =>
    rw [hsub] at hl hmode
    exact startRun_obeys (ho.told hl hmode)
  | abort a =>
    have hl : Leaving h api false h := rfl
    exact ho.told hl nofun

theorem step_obeys {c c' : Config} {l : Label} {calls : List (Api × Bool)}
    (hS : c.Holds Residual RunShape RestShape) (ho : Obeys calls c.h)
    (hs : machine.step c l = some c') : Obeys (calls ++ c.calls l) c'.h := by
  obtain ⟨h, ctl⟩ := c
  cases l with
  | enter inp =>
    cases ctl with
    | running keep =>
      cases hs
      rw [show Config.calls _ _ = [] from rfl, List.append_nil]
      have he := @enter_effect inp h
      unfold stepEnter
      cases hent : enter inp h with
      | abort a => exact ho
      | next a => rw [hent] at he; exact ho.effect hS he
      | block a => rw [hent] at he; exact ho.effect hS he
      | fail a => rw [hent] at he; exact ho.effect hS he
    | idle r => cases hs
    | aborted a => cases hs
  | call api inp =>
    cases ctl with
    | idle r =>
      cases hs
      have hS : RestShape { h with lastError := inp.lastError } := ⟨hS.shape, hS.ended, hS.start, hS.connecting⟩
      have ho : Obeys calls { h with lastError := inp.lastError } := ho.congr rfl rfl
      cases hn : api.isNotify with
      | false =>
        simp only [Config.calls, hn, Bool.false_eq_true, if_false]
        exact call_obeys inp hS ho api hn
      | true =>
        simp only [Config.calls, hn, if_true, List.append_nil]
        cases api with
        | aioNotifyRead => exact startRun_obeys ho
        | aioNotifyWrite => exact startRun_obeys ho
        | _ => cases hn
    | running keep => cases hs
    | aborted a => cases hs

/-- The settings after a run are those that its calls have asked for. -/
theorem exec_obeys {c₀ c : Config} {ls : List Label} (hi : machine.init c₀)
    (he : machine.exec c₀ ls = some c) : Obeys (machine.collect Config.calls c₀ ls) c.h := by
  have hinit : c₀.Holds Residual RunShape RestShape ∧ Obeys [] c₀.h := by
    obtain ⟨sbuf, rfl⟩ := hi
    exact ⟨create_shape sbuf, rfl, .inl rfl⟩
  have hend := machine.exec_collect (f := Config.calls)
    (P := fun c calls => c.Holds Residual RunShape RestShape ∧ Obeys calls c.h)
    (fun s l s' xs h hs => ⟨step_shape s l s' h.1 hs, step_obeys h.1 h.2 hs⟩) hinit he
  exact hend.2

/-! ## STARTTLS -/

/-- The server has accepted STARTTLS, and the reply is about to be acted on. -/
structure Config.Acked (c : Config) : Prop where
  running : ∃ keep, c.ctl = .running keep
  state : c.h.state = .optCheckReply .starttls
  reply : c.h.reply = repAck
  first : c.h.exp.tlsNegotiated = false

theorem forgetPlaintext_agree (hcfg : h'.cfg = h.cfg) (hflags : h'.gflags = h.gflags)
    (hcur : h'.optCurrent = h.optCurrent) (htls : h.exp.tlsNegotiated = false)
    (htls' : h'.exp.tlsNegotiated = false) :
    Agree (SameNames h.exp.metaContexts h'.exp.metaContexts) h.forgetPlaintext.terms
      h'.forgetPlaintext.terms := by
  refine ⟨hcfg, hflags, hcur, ?_, id, .inr rfl⟩
  simp only [Handle.terms, Handle.forgetPlaintext, Handle.resetSizeAndFlags, Negotiated.reported,
    htls, htls']

theorem acked_alike (hs : h.state = .optCheckReply .starttls) (hs' : h'.state = h.state)
    (hr : h.reply = repAck) (hr' : h'.reply = repAck) (hcfg : h'.cfg = h.cfg)
    (hflags : h'.gflags = h.gflags) (hcur : h'.optCurrent = h.optCurrent)
    (htls : h.exp.tlsNegotiated = false) (htls' : h'.exp.tlsNegotiated = false) :
    (enter inp h).Rel (Alike (SameNames h.exp.metaContexts h'.exp.metaContexts)) (enter inp h') := by
  have hA := forgetPlaintext_agree hcfg hflags hcur htls htls'
  unfold enter
  rw [hs', hs]
  show (enterStarttlsCheckReply inp h).Rel _ (enterStarttlsCheckReply inp h')
  unfold enterStarttlsCheckReply
  rw [if_pos hr, if_pos hr', htls, htls', if_neg Bool.false_ne_true,
    if_neg Bool.false_ne_true]
  refine ite_rel Iff.rfl (fun _ => ?_) fun _ => ?_
  · exact goto_plain hA (handshakeState_isPlain inp) rfl
  · exact die_alike hA

/-- From the acknowledgement on, the two runs are in lockstep. -/
theorem acked_inStep {c₀ c₀' c c' d d' : Config} {p p' ls : List Label} (hi : machine.init c₀)
    (hi' : machine.init c₀') (hp : machine.exec c₀ p = some c) (hp' : machine.exec c₀' p' = some c')
    (ha : c.Acked) (ha' : c'.Acked)
    (hcalls : acceptedCalls (machine.collect Config.calls c₀' p') =
      acceptedCalls (machine.collect Config.calls c₀ p))
    (hflags : c'.h.gflags = c.h.gflags) (hne : ls ≠ []) (hd : machine.exec c ls = some d)
    (hd' : machine.exec c' ls = some d') :
    d.InStep (SameNames c.h.exp.metaContexts c'.h.exp.metaContexts ∨ Refreshed c ls) d' := by
  have ho := exec_obeys hi hp
  have ho' := exec_obeys hi' hp'
  have htold : toldAll (machine.collect Config.calls c₀' p') =
      toldAll (machine.collect Config.calls c₀ p) := by
    rw [← toldAll_acceptedCalls, hcalls, toldAll_acceptedCalls]
  have hreach : machine.Reachable c := ⟨c₀, p, hi, hp⟩
  have hcfg : c'.h.cfg = c.h.cfg := by rw [ho'.cfg, htold, ho.cfg]
  -- the automatic STARTTLS has no option, another one is that of the last call
  have hcur : ∀ {c : Config} {calls : List (Api × Bool)}, machine.Reachable c → c.Acked →
      Obeys calls c.h → c.h.optCurrent = (toldAll calls).2 := by
    intro c calls hc ha ho
    obtain ⟨keep, hk⟩ := ha.running
    have hS := reachable_shape hc
    unfold Config.Holds at hS
    rw [hk] at hS
    have hcur := hS.shape.current
    rw [ha.state] at hcur
    rcases ho.current with h | ⟨hm, hn⟩
    · exact h
    · rcases hcur with hcur | ⟨hmode, -⟩
      · exact absurd hcur hn
      · rw [show c.h.core.cfg.optMode = false from hm] at hmode
        cases hmode
  have hsame : c'.h.optCurrent = c.h.optCurrent := by
    rw [hcur ⟨c₀', p', hi', hp'⟩ ha' ho', htold, hcur hreach ha ho]
  cases ls with
  | nil => exact absurd rfl hne
  | cons l ls =>
    obtain ⟨e, he, hrest⟩ := Option.bind_eq_some_iff.mp hd
    obtain ⟨e', he', hrest'⟩ := Option.bind_eq_some_iff.mp hd'
    obtain ⟨h, ctl⟩ := c
    obtain ⟨h', ctl'⟩ := c'
    obtain ⟨keep, rfl⟩ : ∃ keep, ctl = .running keep := ha.running
    obtain ⟨keep', rfl⟩ : ∃ keep, ctl' = .running keep := ha'.running
    cases l with
    | call api inp => cases he
    | enter inp =>
      have hlater := System.Reachable.step _ hreach he
      have hstay : ¬ Config.Refreshes ⟨h, .running keep⟩ (.enter inp) := fun hr => by
        have := ha.state.symm.trans hr.1
        cases this
      cases he
      cases he'
      have hL : (stepEnter inp keep h).InStep _ (stepEnter inp keep' h') := stepEnter_inStep inp
        (acked_alike inp ha.state (ha'.state.trans ha.state.symm) ha.reply ha'.reply hcfg hflags hsame
          ha.first ha'.first)
      have hend := exec_inStep hlater hL hrest hrest'
      rw [refreshed_cons (show machine.step _ _ = some (stepEnter inp keep h) from rfl)]
      simpa only [hstay, false_or] using hend

/-- The same export is reported. -/
structure SameReports (h h' : Handle) : Prop where
  size : h'.getSize = h.getSize
  flags : ∀ flag, h'.getFlag flag = h.getFlag flag
  blockSize : ∀ type, h'.getBlockSize type = h.getBlockSize type
  canonicalName : h'.getCanonicalExportName = h.getCanonicalExportName
  description : h'.getExportDescription = h.getExportDescription
  structuredReplies : h'.exp.structuredReplies = h.exp.structuredReplies
  extendedHeaders : h'.exp.extendedHeaders = h.exp.extendedHeaders

theorem Agree.reports (hA : Agree F h.terms h'.terms) : SameReports h h' := by
  have hflags : h'.exp.eflags = h.exp.eflags := hA.field _ fun _ => rfl
  have hsize : h'.exp.exportsize = h.exp.exportsize := hA.field _ fun _ => rfl
  have hname : h'.exp.canonicalName = h.exp.canonicalName := hA.field _ fun _ => rfl
  have hdesc : h'.exp.description = h.exp.description := hA.field _ fun _ => rfl
  have hblocks : (h'.exp.blockMinimum, h'.exp.blockPreferred, h'.exp.blockMaximum,
      h'.exp.payloadMaximum) = (h.exp.blockMinimum, h.exp.blockPreferred, h.exp.blockMaximum,
      h.exp.payloadMaximum) :=
    hA.field (fun e => (e.blockMinimum, e.blockPreferred, e.blockMaximum, e.payloadMaximum))
      fun _ => rfl
  simp only [Prod.mk.injEq] at hblocks
  obtain ⟨hmin, hpref, hmax, hpayload⟩ := hblocks
  refine ⟨?_, fun flag => ?_, fun type => ?_, ?_, ?_, hA.field _ fun _ => rfl, hA.field _ fun _ => rfl⟩
  · simp only [Handle.getSize, hflags, hsize]
  · simp only [Handle.getFlag, hflags]
  · simp only [Handle.getBlockSize, hflags, hmin, hpref, hmax, hpayload]
  · simp only [Handle.getCanonicalExportName, hflags, hname]
  · simp only [Handle.getExportDescription, hflags, hdesc]

/-- The contexts are reported alike if their names agree, or if none of them counts. -/
theorem Agree.canMetaContext (hA : Agree F h.terms h'.terms)
    (hF : F ∨ h.cfg.requestMetaContexts ≠ []) (name : CString) :
    h'.canMetaContext name = h.canMetaContext name := by
  have hvalid : h'.exp.metaValid = h.exp.metaValid := hA.field _ fun _ => rfl
  by_cases hn : SameNames h.exp.metaContexts h'.exp.metaContexts
  · simp only [Handle.canMetaContext, hA.cfg_eq, hvalid, ← hn name]
  · have hreq : h.cfg.requestMetaContexts ≠ [] := hF.resolve_left fun f => hn (hA.names f)
    have hstale : h.exp.metaValid = false := hA.stale.resolve_left hn
    simp only [Handle.canMetaContext, hA.cfg_eq, hvalid, hstale]
    simp [List.isEmpty_eq_false_iff.mpr hreq]

end Libnbd.Negotiation

namespace Libnbd.Session

open Lib Negotiation

/-- No call is running. -/
def rests : Session → Bool
  | negotiating ⟨_, .idle _⟩ | connected _ ⟨_, .idle _⟩ => true
  | _ => false

/-- When no call is running, negotiation has not been aborted. -/
theorem exec_rests {c : Negotiation.Config} {q : List Label} {s : Session}
    (hc : Negotiation.machine.Reachable c) (hq : system.exec (negotiating c) q = some s)
    (hr : s.rests = true) :
    ∃ ctl, Negotiation.machine.exec c (negotiationOf q) = some ⟨s.handle, ctl⟩ ∧
      (∀ a, ctl ≠ .aborted a) ∧ ((∃ keep, c.ctl = .running keep) → negotiationOf q = [] →
        s.handle.state = .ready) := by
  obtain ⟨ctl, hx, hneg, hcon⟩ := exec_negotiation hc hq
  cases s with
  | negotiating d =>
    obtain ⟨h, k⟩ := d
    obtain rfl : ctl = k := hneg _ rfl
    cases ctl with
    | idle r =>
      refine ⟨_, hx, nofun, ?_⟩
      rintro ⟨keep, hk⟩ hnil
      rw [hnil] at hx
      cases hx
      cases hk
    | running keep => cases hr
    | aborted a => cases hr
  | connected n d =>
    obtain ⟨hready, keep, rfl⟩ := hcon n d rfl
    exact ⟨_, hx, nofun, fun _ _ => hready⟩

/-- **No plaintext influence.** Two runs that accept the same calls, on the same global flags,
and both have STARTTLS acknowledged. Whatever the same steps lead to from there on, the same export is
reported, and so are the metadata contexts if the two runs have the same ones at the
acknowledgement, or some are requested, or an exchange about them has begun since then. -/
theorem starttls_forgets_plaintext {c₀ c₀' c c' : Negotiation.Config}
    {p p' : List Negotiation.Label} {q : List Label} {s s' : Session}
    (hi : Negotiation.machine.init c₀) (hi' : Negotiation.machine.init c₀')
    (hp : Negotiation.machine.exec c₀ p = some c) (hp' : Negotiation.machine.exec c₀' p' = some c')
    (ha : c.Acked) (ha' : c'.Acked)
    (hcalls : acceptedCalls (Negotiation.machine.collect Negotiation.Config.calls c₀' p') =
      acceptedCalls (Negotiation.machine.collect Negotiation.Config.calls c₀ p))
    (hflags : c'.h.gflags = c.h.gflags) (hq : system.exec (negotiating c) q = some s)
    (hq' : system.exec (negotiating c') q = some s') (hr : s.rests = true) (hr' : s'.rests = true) :
    SameReports s.handle s'.handle ∧
      (SameNames c.h.exp.metaContexts c'.h.exp.metaContexts ∨
          s.handle.cfg.requestMetaContexts ≠ [] ∨ Refreshed c (negotiationOf q) →
        ∀ name, s'.handle.canMetaContext name = s.handle.canMetaContext name) := by
  obtain ⟨ctl, hx, hctl, hstuck⟩ := exec_rests ⟨c₀, p, hi, hp⟩ hq hr
  obtain ⟨ctl', hx', hctl', -⟩ := exec_rests ⟨c₀', p', hi', hp'⟩ hq' hr'
  have hne : negotiationOf q ≠ [] := by
    intro hnil
    have hready := hstuck ha.running hnil
    rw [hnil] at hx
    cases hx
    have := ha.state.symm.trans hready
    cases this
  have hstep := acked_inStep hi hi' hp hp' ha ha' hcalls hflags hne hx hx'
  have hL : Alike (SameNames c.h.exp.metaContexts c'.h.exp.metaContexts ∨
      Refreshed c (negotiationOf q)) s.handle s'.handle := by
    cases ctl with
    | aborted a => exact absurd rfl (hctl a)
    | idle r =>
      cases ctl' with
      | aborted a => exact absurd rfl (hctl' a)
      | idle r' => exact hstep
      | running keep => exact hstep.elim
    | running keep =>
      cases ctl' with
      | aborted a => exact absurd rfl (hctl' a)
      | idle r' => exact hstep.elim
      | running keep' => exact hstep
  refine ⟨hL.agree.reports, fun hF => hL.agree.canMetaContext ?_⟩
  rcases hF with hF | hF | hF
  · exact .inl (.inl hF)
  · exact .inr hF
  · exact .inl (.inr hF)

/-- Ask for STARTTLS, up to its acknowledgement. -/
def askTls : List Negotiation.Label :=
  Negotiation.Label.call (.aioOptStarttls .null) .calm :: List.replicate 3 (.enter .calm) ++
    (exchange .starttls repAck []).take 2

/-- Ask for structured replies, which the server does not have. -/
def refuseStructured : List Negotiation.Label :=
  Negotiation.Label.call (.aioOptStructuredReply .null) .calm :: List.replicate 3 (.enter .calm) ++
    exchange .structuredReply repErrUnsup [] ++ [Negotiation.Label.enter .calm]

/-- Ask for the metadata context `a`, which the server does not have. -/
def setNoContext : List Negotiation.Label :=
  Negotiation.Label.call (.aioOptSetMetaContext (some [[97]]) ⟨true, false⟩ .null) .calm ::
    List.replicate 11 (.enter .calm) ++
  exchange .setMetaContext repAck [] ++ [Negotiation.Label.enter .calm]

/-- The handshake, as far as `NEGOTIATING`. -/
def shake : List Label := List.replicate 4 (.negotiate (.enter .calm))

/-- `Acked`, for a run that ignores its own result. -/
def atAck (c : Negotiation.Config) : Bool :=
  c.ctl == .running false && c.h.state == .optCheckReply .starttls && c.h.reply == repAck &&
    !c.h.exp.tlsNegotiated

theorem acked_of_atAck {c : Negotiation.Config} (hc : atAck c = true) : c.Acked := by
  simp only [atAck, Bool.and_eq_true, beq_iff_eq, Bool.not_eq_true'] at hc
  exact ⟨⟨_, hc.1.1.1⟩, hc.1.1.2, hc.1.2, hc.2⟩

theorem starttls_forgets_structured :
    ∃ c c' s s', Negotiation.machine.exec .created (connectOptMode ++ agreeStructured ++ askTls) =
        some c ∧ Negotiation.machine.exec .created (connectOptMode ++ refuseStructured ++ askTls) =
        some c' ∧ c.h.exp.structuredReplies = true ∧ c'.h.exp.structuredReplies = false ∧
      system.exec (negotiating c) shake = some s ∧ system.exec (negotiating c') shake = some s' ∧
      s.handle.exp.tlsNegotiated = true ∧ SameReports s.handle s'.handle ∧
      ∀ name, s'.handle.canMetaContext name = s.handle.canMetaContext name := by
  have hrun : (Negotiation.machine.exec .created (connectOptMode ++ agreeStructured ++ askTls)).map
      (fun c => (atAck c && c.h.exp.metaContexts.isEmpty, c.h.exp.structuredReplies, c.h.gflags,
        (system.exec (negotiating c) shake).map fun s => s.rests && s.handle.exp.tlsNegotiated)) =
      some (true, true, 3, some true) := by
    decide +kernel
  have hrun' : (Negotiation.machine.exec .created (connectOptMode ++ refuseStructured ++ askTls)).map
      (fun c => (atAck c && c.h.exp.metaContexts.isEmpty, c.h.exp.structuredReplies, c.h.gflags,
        (system.exec (negotiating c) shake).map fun s => s.rests && s.handle.exp.tlsNegotiated)) =
      some (true, false, 3, some true) := by
    decide +kernel
  obtain ⟨c, hc, hx⟩ := Option.map_eq_some_iff.mp hrun
  obtain ⟨c', hc', hx'⟩ := Option.map_eq_some_iff.mp hrun'
  simp only [Prod.mk.injEq, Option.map_eq_some_iff, Bool.and_eq_true] at hx hx'
  obtain ⟨⟨hack, hnames⟩, hsr, hflags, s, hs, hrest, htls⟩ := hx
  obtain ⟨⟨hack', hnames'⟩, hsr', hflags', s', hs', hrest', -⟩ := hx'
  have hall := starttls_forgets_plaintext Config.initial_created Config.initial_created hc hc'
    (acked_of_atAck hack) (acked_of_atAck hack') (by decide +kernel) (hflags'.trans hflags.symm) hs hs'
    hrest hrest'
  refine ⟨c, c', s, s', hc, hc', hsr, hsr', hs, hs', htls, hall.1, hall.2 (.inl fun name => ?_)⟩
  rw [List.isEmpty_iff.mp hnames, List.isEmpty_iff.mp hnames']

/-- A context that the server has offered in plaintext is reported after STARTTLS. -/
theorem plaintext_context_survives :
    ¬ ∀ (c₀ c₀' c c' : Negotiation.Config) (p p' : List Negotiation.Label) (q : List Label)
      (s s' : Session), Negotiation.machine.init c₀ → Negotiation.machine.init c₀' →
      Negotiation.machine.exec c₀ p = some c → Negotiation.machine.exec c₀' p' = some c' →
      c.Acked → c'.Acked →
      Negotiation.machine.collect Negotiation.Config.calls c₀' p' =
        Negotiation.machine.collect Negotiation.Config.calls c₀ p →
      c'.h.gflags = c.h.gflags → system.exec (negotiating c) q = some s →
      system.exec (negotiating c') q = some s' → s.rests = true → s'.rests = true →
      ∀ name, s'.handle.canMetaContext name = s.handle.canMetaContext name := by
  intro hall
  have hrun : (Negotiation.machine.exec .created
      (connectOptMode ++ agreeStructured ++ setOneContext ++ askTls)).map
      (fun c => (atAck c, c.h.gflags,
        (system.exec (negotiating c) shake).map fun s => (s.rests, s.handle.canMetaContext [97]))) =
      some (true, 3, some (true, 1)) := by
    decide +kernel
  have hrun' : (Negotiation.machine.exec .created
      (connectOptMode ++ agreeStructured ++ setNoContext ++ askTls)).map
      (fun c => (atAck c, c.h.gflags,
        (system.exec (negotiating c) shake).map fun s => (s.rests, s.handle.canMetaContext [97]))) =
      some (true, 3, some (true, 0)) := by
    decide +kernel
  obtain ⟨c, hc, hx⟩ := Option.map_eq_some_iff.mp hrun
  obtain ⟨c', hc', hx'⟩ := Option.map_eq_some_iff.mp hrun'
  simp only [Prod.mk.injEq, Option.map_eq_some_iff] at hx hx'
  obtain ⟨hack, hflags, s, hs, hrest, hcan⟩ := hx
  obtain ⟨hack', hflags', s', hs', hrest', hcan'⟩ := hx'
  have hsame := hall _ _ _ _ _ _ _ _ _ Config.initial_created Config.initial_created hc hc'
    (acked_of_atAck hack) (acked_of_atAck hack') (by decide +kernel) (hflags'.trans hflags.symm) hs hs'
    hrest hrest' [97]
  rw [hcan, hcan'] at hsame
  cases hsame

end Libnbd.Session
