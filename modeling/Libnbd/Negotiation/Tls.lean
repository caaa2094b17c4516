import Libnbd.Negotiation.Output
import Libnbd.Negotiation.Payload
import Libnbd.Negotiation.Revision

/-!
TLS: how the handshake goes on, and what is sent in plaintext.

`waits_iff` is about the two handshake states. `Guarded` is the invariant of a
handle that requires TLS and does not have it yet: which states it can be in and
which options it can have asked for. `run_closes` is about what becomes of a
connection to a server that refuses.
-/

namespace Libnbd.Negotiation

open Lib

/-! ## The handshake -/

/-- `TLS_HANDSHAKE_READ` and `TLS_HANDSHAKE_WRITE`. -/
def State.isHandshake (s : State) : Bool := s == .tlsHandshakeRead || s == .tlsHandshakeWrite

/-- The step calls `gnutls_handshake`. -/
def Config.shakes (c : Config) : Label → Bool
  | .enter _ => c.h.state.isHandshake
  | .call _ _ => false

/-- The step calls `gnutls_handshake`, which needs the socket to become ready. -/
def Config.wantsSocket (c : Config) : Label → Bool
  | .enter inp => c.h.state.isHandshake && inp.handshake == .again
  | .call _ _ => false

/-- The run loop has returned to its caller. -/
def Config.returned (c : Config) : Bool :=
  match c.ctl with
  | .idle _ => true
  | _ => false

/-- After a step that wants the socket the run loop returns, in the state that
waits for what is wanted. -/
def Waits (c : Config) (l : Label) : Prop :=
  c.wantsSocket l = true → ∀ inp c', l = .enter inp → machine.step c l = some c' →
    c'.returned = true ∧ c'.h.state = handshakeState inp

theorem enterTlsHandshake_again {inp : Input} {h : Handle} (hs : h.state.isHandshake = true)
    (ha : inp.handshake = .again) : enter inp h = .next { h with state := handshakeState inp } := by
  have hs' : h.state = .tlsHandshakeRead ∨ h.state = .tlsHandshakeWrite := by
    simpa [State.isHandshake] using hs
  rcases hs' with hs' | hs' <;> simp [enter, hs', enterTlsHandshake, ha, goto]

theorem handshakeState_isHandshake (inp : Input) : (handshakeState inp).isHandshake = true := by
  unfold handshakeState
  split <;> rfl

/-- A step that wants the socket leads to the state that waits for it, but the run
loop goes on, and its next iteration calls `gnutls_handshake` again. -/
theorem wantsSocket_goes_on {c : Config} {inp : Input} {c' : Config}
    (hw : c.wantsSocket (.enter inp) = true) (hstep : machine.step c (.enter inp) = some c') :
    c'.returned = false ∧ c'.h.state = handshakeState inp ∧
      ∀ l c'', machine.step c' l = some c'' → c'.shakes l = true := by
  obtain ⟨h, ctl⟩ := c
  simp only [Config.wantsSocket, Bool.and_eq_true, beq_iff_eq] at hw
  cases ctl with
  | idle ret => cases hstep
  | aborted a => cases hstep
  | running keep =>
    cases hstep
    rw [stepEnter, enterTlsHandshake_again hw.1 hw.2]
    refine ⟨rfl, rfl, fun l c'' hl => ?_⟩
    cases l with
    | enter inp' => exact handshakeState_isHandshake inp
    | call api inp' => cases hl

theorem waits_iff {c c' : Config} {l : Label} (hstep : machine.step c l = some c') :
    Waits c l ↔ c.wantsSocket l = false := by
  constructor
  · intro hw
    by_contra hwant
    rw [Bool.not_eq_false] at hwant
    cases l with
    | call api inp => cases hwant
    | enter inp =>
      have hgo := (wantsSocket_goes_on hwant hstep).1
      have hret := (hw hwant inp c' rfl hstep).1
      rw [hgo] at hret
      cases hret
  · intro hn hwant
    rw [hn] at hwant
    cases hwant

/-- As long as the handshake wants the socket, the run loop calls it again. -/
theorem handshake_spins {h : Handle} {keep : Bool} (hs : h.state.isHandshake = true)
    {inps : List Input} (ha : ∀ inp ∈ inps, inp.handshake = .again) :
    ∃ h', machine.exec ⟨h, .running keep⟩ (inps.map .enter) = some ⟨h', .running keep⟩ ∧
      h'.state.isHandshake = true := by
  induction inps generalizing h with
  | nil => exact ⟨h, rfl, hs⟩
  | cons inp inps ih =>
    have hnext := enterTlsHandshake_again hs (ha inp List.mem_cons_self)
    obtain ⟨h', he, hs'⟩ := ih (h := { h with state := handshakeState inp })
      (handshakeState_isHandshake inp) fun inp' hm => ha inp' (List.mem_cons_of_mem _ hm)
    refine ⟨h', ?_, hs'⟩
    change (machine.step ⟨h, .running keep⟩ (.enter inp)).bind _ = _
    change (some (stepEnter inp keep h)).bind _ = _
    rw [stepEnter, hnext]
    exact he

/-- The run loop returns whenever the handshake wants the socket exactly in the runs
in which the handshake never does; in the others it calls the handshake again and
again, however long the socket keeps it waiting. -/
theorem handshake_waits_iff {c₀ c : Config} {ls : List Label} (hi : machine.init c₀)
    (he : machine.exec c₀ ls = some c) :
    (machine.Meets Waits c₀ ls ↔ machine.Meets (fun c l => c.wantsSocket l = false) c₀ ls) ∧
      ∀ keep, c.h.state.isHandshake = true → c.ctl = .running keep →
        ∀ inps : List Input, (∀ inp ∈ inps, inp.handshake = .again) →
          ∃ c', machine.exec c₀ (ls ++ inps.map .enter) = some c' ∧ c'.returned = false := by
  refine ⟨machine.meets_congr (fun c l c' => waits_iff) he, fun keep hs hctl inps ha => ?_⟩
  obtain ⟨h, ctl⟩ := c
  cases hctl
  obtain ⟨h', he', -⟩ := handshake_spins hs ha
  refine ⟨⟨h', .running keep⟩, ?_, rfl⟩
  rw [machine.exec_append, he]
  exact he'

/-- Ask for TLS in option mode and let the server agree. -/
def startTls : List Label :=
  connectOptMode ++ Label.call (.aioOptStarttls .null) .calm :: List.replicate 3 (.enter .calm) ++
    exchange .starttls repAck []

/-- The handshake completes at once. -/
theorem handshake_waits_at_once :
    ∃ c, machine.exec .created (startTls ++ [Label.enter .calm]) = some c ∧
      c.h.state = .tlsHandshakeDone ∧ machine.Meets Waits .created (startTls ++ [Label.enter .calm]) := by
  have hrun : (machine.exec .created (startTls ++ [Label.enter .calm])).map (fun c => c.h.state) =
      some .tlsHandshakeDone := by decide +kernel
  obtain ⟨c, he, hs⟩ := Option.map_eq_some_iff.mp hrun
  refine ⟨c, he, hs, (handshake_waits_iff Config.initial_created he).1.mpr ?_⟩
  exact machine.meets_of_check (by decide +kernel)

/-- The handshake wants to read, and is called again. -/
theorem handshake_does_not_wait :
    ¬ ∀ (ls : List Label) (c : Config), machine.exec .created ls = some c →
      machine.Meets Waits .created ls := by
  intro hall
  have hrun : (machine.exec .created
      (startTls ++ [Label.enter { Input.calm with handshake := .again }])).map (fun c => c.h.state) =
      some .tlsHandshakeRead := by decide +kernel
  obtain ⟨c, he, -⟩ := Option.map_eq_some_iff.mp hrun
  have hmeets := (machine.meets_congr (fun c l c' => waits_iff) he).mp (hall _ c he)
  exact absurd (machine.check_of_meets hmeets) (by decide +kernel)

/-! ## A handle that requires TLS -/

/-- The states in which TLS may still be missing. -/
def State.isGuarded : State → Bool
  | newstyleStart | newstyleSendCflags | optStart .starttls | optSend .starttls
  | optRecvReply .starttls | optRecvReplyPayload .starttls | optCheckReply .starttls
  | tlsHandshakeRead | tlsHandshakeWrite | tlsHandshakeDone | newstylePrepareOptAbort
  | newstyleSendOptAbort | newstyleSendOptionShutdown | dead | closed => true
  | s => s.isFresh

/-- Where a handle without TLS is. -/
structure Guard (h : Handle) : Prop where
  state : h.state.isGuarded = true
  current : h.state = .newstyleStart → h.optCurrent = none
  fixed : h.state = .newstyleSendCflags → h.isFixed = true

/-- A handle that requires TLS has it, or is on its way there. -/
def Guarded (h : Handle) : Prop :=
  h.cfg.tls = .require → h.exp.tlsNegotiated = false → Guard h

section

variable {inp : Input} {h h' : Handle} {s : State}

theorem guard_of_state (hs : h.state.isGuarded = true) (h₁ : h.state ≠ .newstyleStart)
    (h₂ : h.state ≠ .newstyleSendCflags) : Guard h :=
  ⟨hs, fun h => absurd h h₁, fun h => absurd h h₂⟩

theorem goto_guard (hs : s.isGuarded = true) (h₁ : s ≠ .newstyleStart)
    (h₂ : s ≠ .newstyleSendCflags) : (goto s h).All (fun _ => True) Guard Guard :=
  guard_of_state (h := { h with state := s }) hs h₁ h₂

theorem die_guard {e : UInt32} {t : String} : (die e t h).All (fun _ => True) Guard Guard :=
  goto_guard rfl nofun nofun

theorem recv_guard {k : Handle → Outcome} (hg : Guard h)
    (hk : ∀ bs, (k (h.store bs)).All (fun _ => True) Guard Guard) :
    (recvThen inp k h).All (fun _ => True) Guard Guard :=
  recvThen_all (fun _ _ => guard_of_state rfl nofun nofun)
    (fun _ _ => ⟨hg.state, hg.current, hg.fixed⟩) fun bs _ => hk bs

theorem send_guard {k : Handle → Outcome} (hg : Guard h)
    (hk : ∀ n, (k { h.advance n with wflags := false }).All (fun _ => True) Guard Guard) :
    (sendThen inp k h).All (fun _ => True) Guard Guard :=
  sendThen_all (fun _ _ => guard_of_state rfl nofun nofun)
    (fun _ => ⟨hg.state, hg.current, hg.fixed⟩) fun n _ => hk n

theorem newstyleGflags_guard : (newstyleGflags h).All (fun _ => True) Guard Guard :=
  require_all.mpr ⟨fun _ => goto_guard rfl nofun nofun, fun _ => True.intro⟩

theorem enterNewstyleStart_guard (hc : h.optCurrent = none) :
    (enterNewstyleStart h).All (fun _ => True) Guard Guard := by
  unfold enterNewstyleStart
  rw [hc]
  exact ite_all.mpr ⟨fun _ => newstyleGflags_guard, fun _ => newstyleGflags_guard⟩

theorem enterMagicCheckMagic_guard : (enterMagicCheckMagic h).All (fun _ => True) Guard Guard := by
  unfold enterMagicCheckMagic
  refine ite_all.mpr ⟨fun _ => die_guard, fun _ => ite_all.mpr ⟨fun _ => require_all.mpr
    ⟨fun hc => ⟨rfl, fun _ => by simpa using hc, nofun⟩, fun _ => True.intro⟩, fun _ => ite_all.mpr
      ⟨fun _ => goto_guard rfl nofun nofun, fun _ => die_guard⟩⟩⟩

theorem enterNewstyleCheckGflags_guard (ht : h.cfg.tls = .require) :
    (enterNewstyleCheckGflags h).All (fun _ => True) Guard Guard := by
  unfold enterNewstyleCheckGflags
  refine ite_all.mpr ⟨fun _ => die_guard, fun hf => ⟨rfl, nofun, fun _ => ?_⟩⟩
  simpa [ht, Handle.isFixed] using hf

theorem enterNewstyleSendCflags_guard (hg : Guard h) (hs : h.state = .newstyleSendCflags) :
    (enterNewstyleSendCflags inp h).All (fun _ => True) Guard Guard :=
  send_guard hg fun _ => ite_all.mpr ⟨fun _ => goto_guard rfl nofun nofun,
    fun hf => absurd (hg.fixed hs) hf⟩

theorem enterStarttlsStart_guard (ht : h.cfg.tls = .require) :
    (enterStarttlsStart h).All (fun _ => True) Guard Guard := by
  simp only [enterStarttlsStart, require_all, ite_all, implies_true, and_true]
  exact fun _ => ⟨fun _ _ => goto_guard rfl (by simp) (by simp), fun _ =>
    ⟨fun hd => absurd (ht.symm.trans hd) (by simp), fun _ _ => goto_guard rfl (by simp) (by simp)⟩⟩

theorem handshakeState_guard : (goto (handshakeState inp) h).All (fun _ => True) Guard Guard := by
  unfold handshakeState
  split <;> exact goto_guard rfl nofun nofun

theorem enterStarttlsCheckReply_guard (ht : h.cfg.tls = .require) :
    (enterStarttlsCheckReply inp h).All (fun _ => True) Guard Guard := by
  unfold enterStarttlsCheckReply
  refine ite_all.mpr ⟨fun _ => ite_all.mpr ⟨fun _ => die_guard, fun _ => ite_all.mpr
    ⟨fun _ => handshakeState_guard, fun _ => die_guard⟩⟩, fun _ => ?_⟩
  exact handleReplyError_all (fun _ _ => die_guard) (fun _ _ => True.intro) fun _ _ e t =>
    ite_all.mpr ⟨fun _ => goto_guard rfl nofun nofun, fun hn => absurd ht hn⟩

theorem enterOldstyleCheck_guard (ht : h.cfg.tls = .require) :
    (enterOldstyleCheck h).All (fun _ => True) Guard Guard := by
  unfold enterOldstyleCheck
  rw [if_pos ht]
  exact die_guard

theorem enterConnectTcpConnect_guard : (enterConnectTcpConnect inp h).All (fun _ => True) Guard Guard := by
  simp only [enterConnectTcpConnect, require_all, ite_all, implies_true, and_true]
  exact fun _ => ⟨fun _ => guard_of_state rfl (by simp) (by simp), fun _ => ⟨fun _ => goto_guard rfl (by simp) (by simp),
    fun _ => ⟨fun _ => die_guard, fun _ => ⟨fun _ => goto_guard rfl (by simp) (by simp), fun _ =>
      goto_guard rfl (by simp) (by simp)⟩⟩⟩⟩

theorem enterConnectStart_guard (hg : Guard h) :
    (enterConnectStart inp h).All (fun _ => True) Guard Guard := by
  simp only [enterConnectStart, require_all, ite_all, implies_true, and_true]
  exact fun _ => ⟨fun _ => die_guard, fun _ => ⟨fun _ => die_guard, fun _ =>
    ⟨fun _ => ⟨hg.state, hg.current, hg.fixed⟩, fun _ => die_guard⟩⟩⟩

theorem enterOptGroup_guard {g : OptGroup} (ht : h.cfg.tls = .require) (hg : Guard h)
    (hs : h.state = .optStart g ∨ h.state = .optSend g ∨ h.state = .optRecvReply g ∨
      h.state = .optRecvReplyPayload g ∨ h.state = .optCheckReply g) :
    (enter inp h).All (fun _ => True) Guard Guard := by
  have hstarttls : g = .starttls := by
    have hst := hg.state
    rcases hs with hs | hs | hs | hs | hs <;> rw [hs] at hst <;> cases g <;>
      simp_all [State.isGuarded, State.isFresh]
  subst hstarttls
  unfold enter
  rcases hs with hs | hs | hs | hs | hs <;> rw [hs]
  · exact enterStarttlsStart_guard ht
  · exact send_guard hg fun _ => goto_guard rfl (by simp) (by simp)
  · refine recv_guard hg fun bs => ?_
    split
    · exact die_guard
    · rename_i h' hp
      exact goto_guard rfl (by simp) (by simp)
  · exact recv_guard hg fun bs => goto_guard rfl (by simp) (by simp)
  · exact enterStarttlsCheckReply_guard ht

/-- A handle without TLS stays guarded until the handshake is done. -/
theorem enter_guard (inp : Input) (ht : h.cfg.tls = .require) (hg : Guard h)
    (hs : h.state ≠ .tlsHandshakeDone) : (enter inp h).All (fun _ => True) Guard Guard := by
  have hstay : ∀ h' : Handle, h'.state = h.state → h'.optCurrent = h.optCurrent →
      h'.gflags = h.gflags → Guard h' := by
    intro h' h₁ h₂ h₃
    refine ⟨h₁ ▸ hg.state, fun h₄ => h₂ ▸ hg.current (h₁ ▸ h₄), fun h₄ => ?_⟩
    rw [Handle.isFixed, h₃]
    exact hg.fixed (h₁ ▸ h₄)
  have hst := hg.state
  cases hcase : h.state with
  | optStart g => exact enterOptGroup_guard ht hg (.inl hcase)
  | optSend g => exact enterOptGroup_guard ht hg (.inr (.inl hcase))
  | optRecvReply g => exact enterOptGroup_guard ht hg (.inr (.inr (.inl hcase)))
  | optRecvReplyPayload g => exact enterOptGroup_guard ht hg (.inr (.inr (.inr (.inl hcase))))
  | optCheckReply g => exact enterOptGroup_guard ht hg (.inr (.inr (.inr (.inr hcase))))
  | tlsHandshakeDone => exact absurd hcase hs
  | start => rw [enter, hcase]; exact hg
  | dead =>
    rw [enter, hcase]
    exact require_all.mpr ⟨fun _ => hstay _ rfl rfl rfl, fun _ => True.intro⟩
  | closed => rw [enter, hcase]; exact hstay _ rfl rfl rfl
  | connectStart => rw [enter, hcase]; exact enterConnectStart_guard hg
  | connectConnecting =>
    rw [enter, hcase]
    simp only [enterConnectConnecting]
    split
    · exact die_guard
    · exact ite_all.mpr ⟨fun _ => goto_guard rfl (by simp) (by simp), fun _ => die_guard⟩
  | connectTcpStart =>
    rw [enter, hcase]
    simp only [enterConnectTcpStart]
    split
    · exact guard_of_state rfl (by simp) (by simp)
    · exact goto_guard rfl (by simp) (by simp)
  | connectTcpConnect => rw [enter, hcase]; exact enterConnectTcpConnect_guard
  | connectTcpConnecting =>
    rw [enter, hcase]
    simp only [enterConnectTcpConnecting]
    split
    · exact die_guard
    · exact ite_all.mpr ⟨fun _ => goto_guard rfl (by simp) (by simp), fun _ => goto_guard rfl (by simp) (by simp)⟩
  | connectTcpNextAddress => rw [enter, hcase]; exact goto_guard rfl (by simp) (by simp)
  | connectCommandStart =>
    rw [enter, hcase]
    exact require_all.mpr ⟨fun _ => ite_all.mpr ⟨fun _ => goto_guard rfl (by simp) (by simp),
      fun _ => die_guard⟩, fun _ => True.intro⟩
  | connectSaStart =>
    rw [enter, hcase]
    exact require_all.mpr ⟨fun _ => ite_all.mpr ⟨fun _ => goto_guard rfl (by simp) (by simp),
      fun _ => die_guard⟩, fun _ => True.intro⟩
  | magicStart => rw [enter, hcase]; exact goto_guard rfl (by simp) (by simp)
  | magicRecvMagic => rw [enter, hcase]; exact recv_guard hg fun _ => goto_guard rfl (by simp) (by simp)
  | magicCheckMagic => rw [enter, hcase]; exact enterMagicCheckMagic_guard
  | oldstyleStart => rw [enter, hcase]; exact goto_guard rfl (by simp) (by simp)
  | oldstyleRecvRemaining =>
    rw [enter, hcase]
    exact recv_guard hg fun _ => goto_guard rfl (by simp) (by simp)
  | oldstyleCheck => rw [enter, hcase]; exact enterOldstyleCheck_guard ht
  | newstyleStart => rw [enter, hcase]; exact enterNewstyleStart_guard (hg.current hcase)
  | newstyleRecvGflags => rw [enter, hcase]; exact recv_guard hg fun _ => goto_guard rfl (by simp) (by simp)
  | newstyleCheckGflags => rw [enter, hcase]; exact enterNewstyleCheckGflags_guard ht
  | newstyleSendCflags => rw [enter, hcase]; exact enterNewstyleSendCflags_guard hg hcase
  | newstylePrepareOptAbort =>
    rw [enter, hcase]
    exact require_all.mpr ⟨fun _ => goto_guard rfl (by simp) (by simp), fun _ => True.intro⟩
  | newstyleSendOptAbort => rw [enter, hcase]; exact send_guard hg fun _ => goto_guard rfl (by simp) (by simp)
  | newstyleSendOptionShutdown =>
    rw [enter, hcase]
    refine ite_all.mpr ⟨fun _ => ?_, fun _ => hg⟩
    split <;> exact goto_guard rfl (by simp) (by simp)
  | tlsHandshakeRead | tlsHandshakeWrite =>
    rw [enter, hcase]
    simp only [enterTlsHandshake]
    split
    · exact die_guard
    · exact goto_guard rfl (by simp) (by simp)
    · exact handshakeState_guard
  | _ =>
    rw [hcase] at hst
    cases hst

/-! ### One step of the system -/

theorem Change.cfg_eq {v v' : View} {s : State} (hc : Change v s v') : v'.cfg = v.cfg := by
  cases hc <;> rfl

theorem Effect.cfg_eq {v v' : View} (he : Effect v v') : v'.cfg = v.cfg := by
  cases he with
  | change s v₁ hc => exact hc.cfg_eq
  | complete err s v₁ hc hs => exact hc.cfg_eq
  | list name description hl => rfl
  | context name s hc hs => rfl
  | kept name id hc ho => rfl

/-- TLS is not lost again. -/
theorem Revises.tls_kept (hr : Revises h h') (hn : h'.exp.tlsNegotiated = false) :
    h.exp.tlsNegotiated = false := by
  have hn' : h'.facts.tlsNegotiated = false := hn
  change h.facts.tlsNegotiated = false
  unfold Revises at hr
  generalize h'.facts = f at hr hn'
  generalize h'.state = s at hr
  cases hr <;> first | exact hn' | cases hn'

theorem enter_guarded (inp : Input) (hg : Guarded h) :
    (enter inp h).All (fun _ => True) Guarded Guarded := by
  by_cases hd : h.state = .tlsHandshakeDone
  · rw [enter, hd]
    intro _ hn
    cases hn
  · have he := enter_effect inp (h := h)
    have hr := enter_revises inp h
    have hguard : h.cfg.tls = .require → h.exp.tlsNegotiated = false →
        (enter inp h).All (fun _ => True) Guard Guard :=
      fun ht hn => enter_guard inp ht (hg ht hn) hd
    have hback : ∀ h', Leads h h' → Revises h h' → h'.cfg.tls = .require →
        h'.exp.tlsNegotiated = false → (enter inp h).All (fun _ => True) Guard Guard := by
      intro h' hl hr ht hn
      have hcfg : h'.cfg = h.cfg := Effect.cfg_eq hl
      exact hguard (hcfg ▸ ht) (hr.tls_kept hn)
    cases ho : enter inp h with
    | abort a => trivial
    | next h' | block h' | fail h' =>
      rw [ho] at he hr hback
      exact fun ht hn => hback h' he hr ht hn

theorem guard_start (hs : h.state = .start) : Guard h :=
  guard_of_state (by rw [hs]; rfl) (by rw [hs]; nofun) (by rw [hs]; nofun)

/-- In `NEGOTIATING` there is nothing to guard. -/
theorem guarded_negotiating (hg : Guarded h) (hs : h.state = .negotiating) :
    ¬ (h.cfg.tls = .require ∧ h.exp.tlsNegotiated = false) := by
  rintro ⟨ht, hn⟩
  have := (hg ht hn).state
  rw [hs] at this
  cases this

/-- Setters leave the handle where it was; only in `START` may they choose TLS. -/
theorem configured_guarded (hg : Guarded h) (hs : h.state.isConfigurable = true)
    (h₁ : h'.state = h.state) (h₂ : h.state = .negotiating → h'.cfg.tls = h.cfg.tls)
    (h₃ : h'.exp.tlsNegotiated = h.exp.tlsNegotiated) : Guarded h' := by
  intro ht hn
  rcases State.isConfigurable_iff.mp hs with hs | hs
  · exact guard_start (h₁.trans hs)
  · exact absurd ⟨(h₂ hs).symm.trans ht, h₃.symm.trans hn⟩ (guarded_negotiating hg hs)

theorem callSetter_guarded (inp : Input) (s : Setter) (hg : Guarded h) :
    (callSetter inp h s).All (fun _ => True) Guarded Guarded := by
  have herr : ∀ e t, Guarded (h.setError e t) := fun _ _ ht hn =>
    ⟨(hg ht hn).state, (hg ht hn).current, (hg ht hn).fixed⟩
  have hcreated : ∀ {h' : Handle}, h.state.isCreated = true → h'.state = h.state → Guarded h' := by
    intro h' hs hst _ _
    exact guard_start (hst.trans (by simpa [State.isCreated] using hs))
  cases s with
  | setTls tls => exact permitted_all herr fun hs => hcreated hs rfl
  | setOptMode b => exact permitted_all herr fun hs => hcreated hs rfl
  | setHandshakeFlags flags =>
    exact permitted_all herr fun hs => submit_ite_all.mpr ⟨fun _ => herr _ _, fun _ => hcreated hs rfl⟩
  | setRequestExtendedHeaders b => exact permitted_all herr fun hs => hcreated hs rfl
  | setRequestStructuredReplies b => exact permitted_all herr fun hs => hcreated hs rfl
  | setExportName name =>
    refine permitted_all herr fun hs => ?_
    unfold setExportName
    exact submit_ite_all.mpr ⟨fun _ => herr _ _, fun _ => submit_ite_all.mpr ⟨fun _ => hg, fun _ =>
      submit_ite_all.mpr ⟨fun _ => herr _ _, fun _ => configured_guarded hg hs rfl (fun _ => rfl) rfl⟩⟩⟩
  | addMetaContext name =>
    refine permitted_all herr fun hs => ?_
    unfold addMetaContext
    exact submit_ite_all.mpr ⟨fun _ => herr _ _, fun _ => submit_ite_all.mpr ⟨fun _ => herr _ _, fun _ =>
      submit_ite_all.mpr ⟨fun _ => herr _ _, fun _ => configured_guarded hg hs rfl (fun _ => rfl) rfl⟩⟩⟩
  | _ => exact permitted_all herr fun hs => configured_guarded hg hs rfl (fun _ => rfl) rfl

/-- An option is asked for only where there is nothing to guard. -/
theorem ask_guarded {ev : ExternalEvent} {keep : Bool} (hg : Guarded h)
    (hs : h.state.isNegotiating = true) (h₂ : h'.cfg = h.cfg)
    (h₃ : h'.exp.tlsNegotiated = h.exp.tlsNegotiated) :
    (Submit.run ev keep h').All (fun _ => True) Guarded Guarded := by
  have hneg := guarded_negotiating hg (by simpa [State.isNegotiating] using hs)
  exact run_all (fun _ _ ht hn => absurd ⟨h₂ ▸ ht, h₃ ▸ hn⟩ hneg)
    fun _ _ ht hn => absurd ⟨h₂ ▸ ht, h₃ ▸ hn⟩ hneg

theorem connect_guarded {ev : ExternalEvent} {keep : Bool} (hs : h.state = .start) :
    (Submit.run ev keep h).All (fun _ => True) Guarded Guarded := by
  refine run_all (fun s he _ _ => ?_) fun _ _ _ _ => guard_start hs
  rw [hs] at he
  cases ev <;> simp_all [externalEvent, State.isReceiving, State.isSending] <;> subst he <;>
    exact guard_of_state rfl (by simp) (by simp)

theorem notify_guarded {ev : ExternalEvent} {keep : Bool} (hg : Guarded h)
    (hev : ev = .notifyRead ∨ ev = .notifyWrite) :
    (Submit.run ev keep h).All (fun _ => True) Guarded Guarded := by
  refine run_all (fun s he ht hn => ?_) fun _ _ ht hn =>
    ⟨(hg ht hn).state, (hg ht hn).current, (hg ht hn).fixed⟩
  have hself : s = h.state → Guard { h with state := s } := by
    rintro rfl
    exact ⟨(hg ht hn).state, (hg ht hn).current, (hg ht hn).fixed⟩
  rcases hev with rfl | rfl
  · exact hself (externalEvent_notifyRead he).2
  · obtain ⟨-, rfl⟩ | ⟨-, rfl⟩ | ⟨-, h₁⟩ := externalEvent_notifyWrite he
    · exact guard_of_state rfl nofun nofun
    · exact guard_of_state rfl nofun nofun
    · exact hself h₁

theorem submit_guarded (inp : Input) (api : Api) (hg : Guarded h) :
    (submit inp h api).All (fun _ => True) Guarded Guarded := by
  have herr : ∀ e t, Guarded (h.setError e t) := fun _ _ ht hn =>
    ⟨(hg ht hn).state, (hg ht hn).current, (hg ht hn).fixed⟩
  have hfixed : ∀ opt completion, (fixedOption h opt completion).All (fun _ => True) Guarded Guarded :=
    fun _ _ => permitted_all herr fun hs => needFixed_all herr fun _ => ask_guarded hg hs rfl rfl
  have hmeta : ∀ opt queries context completion,
      (aioOptMetaContextQueries inp h opt queries context completion).All (fun _ => True)
        Guarded Guarded := by
    intro opt queries context completion
    have hq : (setQuerylist inp h queries).1.cfg = h.cfg ∧
        (setQuerylist inp h queries).1.exp.tlsNegotiated = h.exp.tlsNegotiated := by
      simp only [setQuerylist]
      split <;> exact ⟨rfl, rfl⟩
    refine permitted_all herr fun hs => needCallback_all herr fun _ => needFixed_all herr fun _ => ?_
    have hneg := guarded_negotiating hg (by simpa [State.isNegotiating] using hs)
    exact submit_ite_all.mpr ⟨fun _ ht hn => absurd ⟨hq.1 ▸ ht, hq.2 ▸ hn⟩ hneg, fun _ =>
      submit_ite_all.mpr ⟨fun _ => ask_guarded hg hs hq.1 hq.2, fun _ => trivial⟩⟩
  cases api with
  | set s => exact callSetter_guarded inp s hg
  | aioConnect addr =>
    refine permitted_all herr fun hs => ?_
    have hs' : h.state = .start := by simpa [State.isCreated] using hs
    cases addr with
    | sockAddr => exact connect_guarded hs'
    | tcp => exact submit_ite_all.mpr ⟨fun _ => connect_guarded hs', fun _ => herr _ _⟩
    | command => exact submit_ite_all.mpr ⟨fun _ => connect_guarded hs', fun _ => herr _ _⟩
    | systemdSocketActivation =>
      exact submit_ite_all.mpr ⟨fun _ => connect_guarded hs', fun _ => herr _ _⟩
    | socket => exact submit_ite_all.mpr ⟨fun _ => connect_guarded hs', fun _ => herr _ _⟩
  | aioOptGo completion => exact permitted_all herr fun hs => ask_guarded hg hs rfl rfl
  | aioOptInfo completion => exact hfixed _ _
  | aioOptAbort => exact permitted_all herr fun hs => ask_guarded hg hs rfl rfl
  | aioOptStarttls completion => exact hfixed _ _
  | aioOptExtendedHeaders completion => exact hfixed _ _
  | aioOptStructuredReply completion => exact hfixed _ _
  | aioOptList list completion =>
    exact permitted_all herr fun hs => needCallback_all herr fun _ => needFixed_all herr fun _ =>
      submit_ite_all.mpr ⟨fun _ => ask_guarded hg hs rfl rfl, fun _ => trivial⟩
  | aioOptListMetaContext queries context completion => exact hmeta _ _ _ _
  | aioOptSetMetaContext queries context completion => exact hmeta _ _ _ _
  | aioNotifyRead => exact notify_guarded hg (.inl rfl)
  | aioNotifyWrite => exact notify_guarded hg (.inr rfl)

theorem step_guarded {c c' : Config} {l : Label} (hg : Guarded c.h)
    (hstep : machine.step c l = some c') : Guarded c'.h := by
  obtain ⟨h, ctl⟩ := c
  cases l with
  | enter inp =>
    cases ctl with
    | idle ret => cases hstep
    | aborted a => cases hstep
    | running keep =>
      cases hstep
      have hall := enter_guarded inp hg
      simp only [stepEnter]
      cases he : enter inp h with
      | abort a => exact hg
      | next h' | block h' | fail h' => rw [he] at hall; exact hall
  | call api inp =>
    cases ctl with
    | running keep => cases hstep
    | aborted a => cases hstep
    | idle ret =>
      cases hstep
      have hg' : Guarded { h with lastError := inp.lastError } := fun ht hn =>
        ⟨(hg ht hn).state, (hg ht hn).current, (hg ht hn).fixed⟩
      have hall := submit_guarded inp api hg'
      simp only [stepCall]
      cases hsub : submit inp { h with lastError := inp.lastError } api with
      | refused h' => rw [hsub] at hall; exact hall
      | done h' => rw [hsub] at hall; exact hall
      | abort a => exact hg'
      | run ev keep h' =>
        rw [hsub] at hall
        simp only [afterSubmit, startRun]
        cases hev : externalEvent ev h'.state with
        | none => exact hall.2 hev einval _
        | some s => exact hall.1 s hev

/-! ### The options asked for without TLS -/

/-- A guarded state starts no other option. -/
theorem starting_guarded (hs : h.state.isGuarded = true) {r : OptRequest}
    (hr : r ∈ h.starting s) : r = .starttls ∨ r = .abort := by
  unfold Handle.starting at hr
  split at hr
  · rename_i s' r' hst
    split at hr
    · rw [List.mem_singleton] at hr
      subst hr
      unfold Handle.starts at hst
      cases hcase : h.state with
      | optStart g => cases g <;> simp_all [State.isGuarded, State.isFresh]
      | _ => simp_all [State.isGuarded, State.isFresh]
    · cases hr
  · cases hr

/-- What a call in `NEGOTIATING` leads to. -/
theorem submit_negotiating (inp : Input) (api : Api) (hs : h.state = .negotiating) :
    (submit inp h api).All (fun _ => True)
      (fun h' => h'.state = .newstyleStart ∧ h'.optCurrent ≠ none)
      (fun h' => h'.state = .negotiating) := by
  have hrefuse : ∀ e t, (h.setError e t).state = .negotiating := fun _ _ => hs
  have hask : ∀ {h' : Handle} {keep : Bool}, h'.state = h.state → h'.optCurrent ≠ none →
      (Submit.run .cmdIssue keep h').All (fun _ => True)
        (fun h' => h'.state = .newstyleStart ∧ h'.optCurrent ≠ none)
        (fun h' => h'.state = .negotiating) := by
    intro h' keep hst hc
    refine run_all (fun s he => ?_) fun _ _ => hst.trans hs
    rw [hst, hs] at he
    cases he
    exact ⟨rfl, hc⟩
  have hnotify : ∀ {ev : ExternalEvent} {keep : Bool}, ev = .notifyRead ∨ ev = .notifyWrite →
      (Submit.run ev keep h).All (fun _ => True)
        (fun h' => h'.state = .newstyleStart ∧ h'.optCurrent ≠ none)
        (fun h' => h'.state = .negotiating) := by
    intro ev keep hev
    refine run_all (fun s he => ?_) fun _ _ => hs
    rw [hs] at he
    rcases hev with rfl | rfl <;> cases he
  have hmeta : ∀ opt queries context completion,
      (aioOptMetaContextQueries inp h opt queries context completion).All (fun _ => True)
        (fun h' => h'.state = .newstyleStart ∧ h'.optCurrent ≠ none)
        (fun h' => h'.state = .negotiating) := by
    intro opt queries context completion
    have hq : (setQuerylist inp h queries).1.state = h.state := by
      simp only [setQuerylist]
      split <;> rfl
    exact permitted_all hrefuse fun _ => needCallback_all hrefuse fun _ => needFixed_all hrefuse fun _ =>
      submit_ite_all.mpr ⟨fun _ => hq.trans hs, fun _ => submit_ite_all.mpr ⟨fun _ => hask hq (by simp),
        fun _ => trivial⟩⟩
  cases api with
  | set s =>
    cases s with
    | setHandshakeFlags flags =>
      exact permitted_all hrefuse fun _ => submit_ite_all.mpr ⟨fun _ => hs, fun _ => hs⟩
    | setExportName name =>
      refine permitted_all hrefuse fun _ => ?_
      unfold setExportName
      exact submit_ite_all.mpr ⟨fun _ => hs, fun _ => submit_ite_all.mpr ⟨fun _ => hs, fun _ =>
        submit_ite_all.mpr ⟨fun _ => hs, fun _ => hs⟩⟩⟩
    | addMetaContext name =>
      refine permitted_all hrefuse fun _ => ?_
      unfold addMetaContext
      exact submit_ite_all.mpr ⟨fun _ => hs, fun _ => submit_ite_all.mpr ⟨fun _ => hs, fun _ =>
        submit_ite_all.mpr ⟨fun _ => hs, fun _ => hs⟩⟩⟩
    | _ => exact permitted_all hrefuse fun _ => hs
  | aioConnect addr =>
    refine permitted_all hrefuse fun hc => ?_
    rw [hs] at hc
    cases hc
  | aioOptGo completion => exact permitted_all hrefuse fun _ => hask rfl (by simp)
  | aioOptInfo completion =>
    exact permitted_all hrefuse fun _ => needFixed_all hrefuse fun _ => hask rfl (by simp)
  | aioOptAbort => exact permitted_all hrefuse fun _ => hask rfl (by simp)
  | aioOptStarttls completion =>
    exact permitted_all hrefuse fun _ => needFixed_all hrefuse fun _ => hask rfl (by simp)
  | aioOptExtendedHeaders completion =>
    exact permitted_all hrefuse fun _ => needFixed_all hrefuse fun _ => hask rfl (by simp)
  | aioOptStructuredReply completion =>
    exact permitted_all hrefuse fun _ => needFixed_all hrefuse fun _ => hask rfl (by simp)
  | aioOptList list completion =>
    exact permitted_all hrefuse fun _ => needCallback_all hrefuse fun _ => needFixed_all hrefuse fun _ =>
      submit_ite_all.mpr ⟨fun _ => hask rfl (by simp), fun _ => trivial⟩
  | aioOptListMetaContext queries context completion => exact hmeta _ _ _ _
  | aioOptSetMetaContext queries context completion => exact hmeta _ _ _ _
  | aioNotifyRead => exact hnotify (.inl rfl)
  | aioNotifyWrite => exact hnotify (.inr rfl)

/-- Only in `NEGOTIATING` does a call ask for metadata contexts. -/
theorem asked_call {c : Config} {api : Api} {inp : Input} (hs : c.h.state ≠ .negotiating) :
    asked c (.call api inp) = [] := by
  obtain ⟨h, ctl⟩ := c
  cases ctl with
  | running keep => rfl
  | aborted a => rfl
  | idle ret =>
    have hq : ∀ (opt : Opt) (queries : Option (List CString)) (context completion : Closure),
        aioOptMetaContextQueries inp { h with lastError := inp.lastError } opt queries context
          completion = .refused ({ h with lastError := inp.lastError }.setError
            (if h.state.isCreated then enotconn else einval) "invalid state") := by
      intro opt queries context completion
      have : State.isNegotiating h.state = false := by simpa [State.isNegotiating] using hs
      simp [aioOptMetaContextQueries, permitted, this]
    cases api with
    | aioOptListMetaContext queries context completion =>
      simp only [asked, machine, step, stepCall, submit, hq, afterSubmit]
    | aioOptSetMetaContext queries context completion =>
      simp only [asked, machine, step, stepCall, submit, hq, afterSubmit]
    | _ =>
      simp only [asked, machine, step]
      generalize (stepCall inp _ h).ctl = ctl
      cases ctl <;> rfl

/-- The options that a run has asked for. -/
structure Secured (c : Config) (rs : List OptRequest) : Prop where
  sent : Sent c rs
  guarded : Guarded c.h
  plain : c.h.cfg.tls = .require → c.h.exp.tlsNegotiated = false →
    ∀ r ∈ rs, r = .starttls ∨ r = .abort

/-- What a call in any other state leaves alone. -/
theorem CallEffect.cfg_eq {v v' : View} (hc : CallEffect v v') (h₁ : v.state ≠ .start)
    (h₂ : v.state ≠ .negotiating) : v'.cfg = v.cfg := by
  have hconf : v.state.isConfigurable ≠ true := by
    intro h
    rcases State.isConfigurable_iff.mp h with h | h
    · exact h₁ h
    · exact h₂ h
  cases hc with
  | configure cfg fixed hs hn => exact absurd hs hconf
  | rename name hs => exact absurd hs hconf
  | _ => rfl

/-- A step of the run loop keeps the settings, and TLS. -/
theorem enter_back {c c' : Config} {inp : Input} (hstep : machine.step c (.enter inp) = some c') :
    c'.h.cfg = c.h.cfg ∧ (c'.h.exp.tlsNegotiated = false → c.h.exp.tlsNegotiated = false) := by
  obtain ⟨h, ctl⟩ := c
  cases ctl with
  | idle ret => cases hstep
  | aborted a => cases hstep
  | running keep =>
    cases hstep
    have he := enter_effect inp (h := h)
    have hr := enter_revises inp h
    simp only [stepEnter]
    cases ho : enter inp h with
    | abort a => exact ⟨rfl, id⟩
    | next h' | block h' | fail h' =>
      rw [ho] at he hr
      exact ⟨Effect.cfg_eq he, hr.tls_kept⟩

/-- Outside `START` and `NEGOTIATING` a call keeps the settings, and TLS. -/
theorem call_back {c c' : Config} {api : Api} {inp : Input}
    (hstep : machine.step c (.call api inp) = some c') (h₁ : c.h.state ≠ .start)
    (h₂ : c.h.state ≠ .negotiating) :
    c'.h.cfg = c.h.cfg ∧ (c'.h.exp.tlsNegotiated = false → c.h.exp.tlsNegotiated = false) := by
  refine ⟨?_, ?_⟩
  · obtain ⟨h, ctl⟩ := c
    cases ctl with
    | running keep => cases hstep
    | aborted a => cases hstep
    | idle ret =>
      cases hstep
      have he : (submit inp { h with lastError := inp.lastError } api).Effects
          { h with lastError := inp.lastError } := submit_effect inp api
      simp only [stepCall]
      cases ho : submit inp { h with lastError := inp.lastError } api with
      | refused h' => rw [ho] at he; exact CallEffect.cfg_eq he h₁ h₂
      | done h' => rw [ho] at he; exact CallEffect.cfg_eq he h₁ h₂
      | abort a => rfl
      | run ev keep h' =>
        rw [ho] at he
        simp only [afterSubmit, startRun]
        cases hev : externalEvent ev h'.state with
        | none => exact CallEffect.cfg_eq (he.2 hev 0 "") h₁ h₂
        | some s =>
          obtain ⟨v, hc, hv⟩ := (he.1 s hev).effect
          have hcfg : h'.cfg = v.cfg := congrArg View.cfg hv
          exact hcfg.trans (hc.cfg_eq h₁ h₂)
  · intro hn
    have hr : CallRevises c.h c'.h := step_revises hstep
    have hn' : c'.h.facts.tlsNegotiated = false := hn
    change c.h.facts.tlsNegotiated = false
    unfold CallRevises at hr
    generalize c'.h.facts = f at hr hn'
    generalize c'.h.state = s at hr
    cases hr <;> exact hn'

/-- A call in `NEGOTIATING` leads to a state that is not guarded. -/
theorem call_negotiating {c c' : Config} {api : Api} {inp : Input}
    (hstep : machine.step c (.call api inp) = some c') (hs : c.h.state = .negotiating) :
    ¬ Guard c'.h := by
  have hneg : ∀ {h' : Handle}, h'.state = .negotiating → ¬ Guard h' := by
    intro h' hs hg
    have := hg.state
    rw [hs] at this
    cases this
  obtain ⟨h, ctl⟩ := c
  cases ctl with
  | running keep => cases hstep
  | aborted a => cases hstep
  | idle ret =>
    cases hstep
    have hall := submit_negotiating (h := { h with lastError := inp.lastError }) inp api hs
    simp only [stepCall]
    cases ho : submit inp { h with lastError := inp.lastError } api with
    | refused h' => rw [ho] at hall; exact hneg hall
    | done h' => rw [ho] at hall; exact hneg hall
    | abort a => exact hneg hs
    | run ev keep h' =>
      rw [ho] at hall
      simp only [afterSubmit, startRun]
      cases hev : externalEvent ev h'.state with
      | none => exact hneg (hall.2 hev 0 "")
      | some s =>
        obtain ⟨h₁, h₂⟩ := hall.1 s hev
        exact fun hg => h₂ (hg.current h₁)

/-- **Step.** -/
theorem step_secured {c c' : Config} {l : Label} {rs : List OptRequest} (hc : Secured c rs)
    (hstep : machine.step c l = some c') : Secured c' (rs ++ asked c l) := by
  have hg := step_guarded hc.guarded hstep
  refine ⟨step_sent hc.sent hstep, hg, fun ht hn r hr => ?_⟩
  cases l with
  | enter inp =>
    obtain ⟨hcfg, hback⟩ := enter_back hstep
    have ht' : c.h.cfg.tls = .require := hcfg ▸ ht
    rcases List.mem_append.mp hr with hr | hr
    · exact hc.plain ht' (hback hn) r hr
    · have hasked : asked c (.enter inp) = c.h.starting c'.h.state := by
        unfold asked
        rw [hstep]
      rw [hasked] at hr
      exact starting_guarded (hc.guarded ht' (hback hn)).state hr
  | call api inp =>
    by_cases hneg : c.h.state = .negotiating
    · exact absurd (hg ht hn) (call_negotiating hstep hneg)
    · rw [asked_call hneg, List.append_nil] at hr
      by_cases hstart : c.h.state = .start
      · have hnil := (silent_output (by rw [hstart]; rfl) hc.sent.output).2
        rw [hnil] at hr
        cases hr
      · obtain ⟨hcfg, hback⟩ := call_back hstep hstart hneg
        exact hc.plain (hcfg ▸ ht) (hback hn) r hr

/-- **Run.** -/
theorem run_secured {c₀ c : Config} {ls : List Label} (hi : machine.init c₀)
    (he : machine.exec c₀ ls = some c) : Secured c (machine.collect asked c₀ ls) := by
  obtain ⟨sbuf, rfl⟩ := hi
  exact machine.exec_collect (P := Secured) (fun _ _ _ _ => step_secured)
    ⟨create_sent sbuf, nofun, fun _ _ _ h => absurd h List.not_mem_nil⟩ he

/-! ## A server without TLS -/

/-- The states that end a connection. -/
def State.isClosing : State → Bool
  | newstylePrepareOptAbort | newstyleSendOptAbort | newstyleSendOptionShutdown | closed | dead => true
  | _ => false

/-- How many states are left before `CLOSED` or `DEAD`. -/
def State.closingRank : State → Nat
  | newstylePrepareOptAbort => 3
  | newstyleSendOptAbort => 2
  | newstyleSendOptionShutdown => 1
  | _ => 0

theorem State.closed_or_dead {s : State} (hs : s.isClosing = true) (hr : s.closingRank = 0) :
    s = .closed ∨ s = .dead := by
  cases s <;> simp_all [State.isClosing, State.closingRank]

theorem State.closingRank_le (s : State) : s.closingRank ≤ 3 := by
  cases s <;> simp [State.closingRank]

/-- The step finds that the server refuses TLS or cannot do it. -/
def Config.refuses (c : Config) : Label → Bool
  | .enter inp =>
    match c.h.state with
    | .oldstyleCheck => true
    | .newstyleCheckGflags => (c.h.gflags &&& c.h.sbuf.be16 0) &&& flagFixedNewstyle == 0
    | .optCheckReply .starttls => c.h.reply != repAck
    | .tlsHandshakeRead | .tlsHandshakeWrite => inp.handshake == .error
    | _ => false
  | .call _ _ => false

/-- One if a step of the run loop ends the connection without being held up by the
socket. -/
def Config.unblocked (c : Config) : Label → Nat
  | .enter inp =>
    match c.h.state with
    | .newstylePrepareOptAbort => 1
    | .newstyleSendOptAbort =>
      match inp.send with
      | .again => if c.h.wbuf = [] then 1 else 0
      | .error => 1
      | .sent n => if c.h.wbuf.length ≤ n then 1 else 0
    | .newstyleSendOptionShutdown => if inp.shutWrites then 1 else 0
    | _ => 0
  | .call _ _ => 0

/-- The state machine goes on to end the connection, one state nearer. -/
def Closes (h : Handle) (n : Nat) (h' : Handle) : Prop :=
  h'.state.isClosing = true ∧ h'.state.closingRank + n ≤ h.state.closingRank

theorem Outcome.All.mono_abort {A B : Abort → Prop} {P R : Handle → Prop} {o : Outcome}
    (ho : o.All A P R) (hAB : ∀ a, A a → B a) : o.All B P R := by
  cases o with
  | abort a => exact hAB a ho
  | next h' | block h' | fail h' => exact ho

theorem enterNewstyleSendOptAbort_closes {keep : Bool} (hs : h.state = .newstyleSendOptAbort) :
    (enterNewstyleSendOptAbort inp h).All (fun _ => False)
      (Closes h (Config.unblocked ⟨h, .running keep⟩ (.enter inp)))
      (Closes h (Config.unblocked ⟨h, .running keep⟩ (.enter inp))) := by
  have hend : ∀ (h' : Handle) (n : Nat), n ≤ 1 → h'.state = .newstyleSendOptionShutdown ∨
      h'.state = .dead → Closes h n h' := by
    intro h' n hn hst
    unfold Closes
    rw [hs]
    rcases hst with hst | hst <;> rw [hst]
    · exact ⟨rfl, by simp only [State.closingRank]; omega⟩
    · exact ⟨rfl, by simp only [State.closingRank]; omega⟩
  have hstay : ∀ h' : Handle, h'.state = h.state → Closes h 0 h' := by
    intro h' hst
    unfold Closes
    rw [hst, hs]
    exact ⟨rfl, Nat.le_refl _⟩
  have hle : Config.unblocked ⟨h, .running keep⟩ (.enter inp) ≤ 1 := by
    simp only [Config.unblocked, hs]
    split
    · split <;> omega
    · omega
    · split <;> omega
  unfold enterNewstyleSendOptAbort sendThen
  split
  · exact hend _ _ hle (.inl rfl)
  · rename_i hne
    split
    · rename_i hsend
      have hzero : Config.unblocked ⟨h, .running keep⟩ (.enter inp) = 0 := by
        simp [Config.unblocked, hs, hsend, hne]
      rw [hzero]
      exact hstay h rfl
    · exact hend _ _ hle (.inr rfl)
    · rename_i n hsend
      dsimp only
      split
      · exact hend _ _ hle (.inl rfl)
      · rename_i hdrop
        have hzero : Config.unblocked ⟨h, .running keep⟩ (.enter inp) = 0 := by
          have : ¬ h.wbuf.length ≤ n := fun hl => hdrop (List.drop_eq_nil_of_le hl)
          simp [Config.unblocked, hs, hsend, this]
        rw [hzero]
        exact hstay _ rfl

theorem enter_closes {keep : Bool} (inp : Input) (hS : RunShape h) (hc : h.state.isClosing = true) :
    Closes h (Config.unblocked ⟨h, .running keep⟩ (.enter inp)) (stepEnter inp keep h).h := by
  have hlast : ∀ h' : Handle, h'.state = h.state → h.state = .dead ∨ h.state = .closed →
      Closes h (Config.unblocked ⟨h, .running keep⟩ (.enter inp)) h' := by
    intro h' hst hs
    unfold Closes Config.unblocked
    rw [hst]
    rcases hs with hs | hs <;> simp [hs, State.isClosing]
  have hall : (enter inp h).All (fun _ => h.state = .dead)
      (Closes h (Config.unblocked ⟨h, .running keep⟩ (.enter inp)))
      (Closes h (Config.unblocked ⟨h, .running keep⟩ (.enter inp))) := by
    cases hs : h.state with
    | newstylePrepareOptAbort =>
      have hf : h.isFixed = true := hS.shape.fixed (by rw [hs]; rfl)
      rw [enter, hs]
      refine require_all.mpr ⟨fun _ => ?_, fun hn => absurd (hf.symm.trans hn) (by decide)⟩
      simp only [goto_all, Closes, Config.unblocked, hs]
      exact ⟨rfl, Nat.le_refl _⟩
    | newstyleSendOptAbort =>
      rw [enter, hs]
      exact (enterNewstyleSendOptAbort_closes hs).mono_abort nofun
    | newstyleSendOptionShutdown =>
      rw [enter, hs]
      unfold enterNewstyleSendOptionShutdown
      refine ite_all.mpr ⟨fun hw => ?_, fun hw => ?_⟩
      · simp only [goto_all, Closes, Config.unblocked, hs, hw]
        split <;> exact ⟨rfl, Nat.le_refl _⟩
      · simp only [block_all, Closes, Config.unblocked, hs, hw]
        exact ⟨rfl, Nat.le_refl _⟩
    | dead =>
      rw [enter, hs]
      exact require_all.mpr ⟨fun _ => hlast _ rfl (.inl hs), fun _ => rfl⟩
    | closed =>
      rw [enter, hs]
      exact hlast _ rfl (.inr hs)
    | _ => rw [hs] at hc; cases hc
  unfold stepEnter
  cases ho : enter inp h with
  | next h' | block h' | fail h' => rw [ho] at hall; exact hall
  | abort a =>
    rw [ho] at hall
    exact hlast h rfl (.inl hall)

theorem externalEvent_closing {ev : ExternalEvent} {s s' : State} (hs : s.isClosing = true)
    (he : externalEvent ev s = some s') : s' = s := by
  cases s <;> cases ev <;> simp_all [externalEvent, State.isClosing, State.isReceiving,
    State.isSending]

/-- No call leads out of a state that ends the connection. -/
theorem submit_closing (inp : Input) (api : Api) (hc : h.state.isClosing = true) :
    (submit inp h api).All (fun _ => False) (fun h' => h'.state = h.state)
      (fun h' => h'.state = h.state) := by
  have hrefuse : ∀ e t, (h.setError e t).state = h.state := fun _ _ => rfl
  have hcreated : h.state.isCreated = true → False := by
    intro hs
    have hs' : h.state = .start := by simpa [State.isCreated] using hs
    rw [hs'] at hc
    cases hc
  have hneg : h.state.isNegotiating = true → False := by
    intro hs
    have hs' : h.state = .negotiating := by simpa [State.isNegotiating] using hs
    rw [hs'] at hc
    cases hc
  have hconf : h.state.isConfigurable = true → False := by
    intro hs
    rcases State.isConfigurable_iff.mp hs with hs | hs
    · rw [hs] at hc; cases hc
    · rw [hs] at hc; cases hc
  have hnotify : ∀ {ev : ExternalEvent} {keep : Bool}, (Submit.run ev keep h).All (fun _ => False)
      (fun h' => h'.state = h.state) (fun h' => h'.state = h.state) :=
    run_all (fun s he => externalEvent_closing hc he) hrefuse
  cases api with
  | set s =>
    cases s with
    | setTls tls => exact permitted_all hrefuse fun hs => (hcreated hs).elim
    | setOptMode b => exact permitted_all hrefuse fun hs => (hcreated hs).elim
    | setHandshakeFlags flags => exact permitted_all hrefuse fun hs => (hcreated hs).elim
    | setRequestExtendedHeaders b => exact permitted_all hrefuse fun hs => (hcreated hs).elim
    | setRequestStructuredReplies b => exact permitted_all hrefuse fun hs => (hcreated hs).elim
    | _ => exact permitted_all hrefuse fun hs => (hconf hs).elim
  | aioConnect addr => exact permitted_all hrefuse fun hs => (hcreated hs).elim
  | aioNotifyRead => exact hnotify
  | aioNotifyWrite => exact hnotify
  | _ => exact permitted_all hrefuse fun hs => (hneg hs).elim

theorem call_closing {c c' : Config} {api : Api} {inp : Input} (hc : c.h.state.isClosing = true)
    (hstep : machine.step c (.call api inp) = some c') : c'.h.state = c.h.state := by
  obtain ⟨h, ctl⟩ := c
  cases ctl with
  | running keep => cases hstep
  | aborted a => cases hstep
  | idle ret =>
    cases hstep
    have hall := submit_closing (h := { h with lastError := inp.lastError }) inp api hc
    simp only [stepCall]
    cases ho : submit inp { h with lastError := inp.lastError } api with
    | refused h' => rw [ho] at hall; exact hall
    | done h' => rw [ho] at hall; exact hall
    | abort a => rfl
    | run ev keep h' =>
      rw [ho] at hall
      simp only [afterSubmit, startRun]
      cases hev : externalEvent ev h'.state with
      | none => exact hall.2 hev 0 ""
      | some s => exact hall.1 s hev

/-- **Step.** -/
theorem step_closes {c c' : Config} {l : Label} (hS : c.Holds Residual RunShape RestShape)
    (hc : c.h.state.isClosing = true) (hstep : machine.step c l = some c') :
    Closes c.h (c.unblocked l) c'.h := by
  obtain ⟨h, ctl⟩ := c
  cases l with
  | call api inp =>
    have hst := call_closing hc hstep
    exact ⟨hst ▸ hc, Nat.le_of_eq (congrArg State.closingRank hst)⟩
  | enter inp =>
    cases ctl with
    | idle ret => cases hstep
    | aborted a => cases hstep
    | running keep =>
      cases hstep
      exact enter_closes inp hS hc

/-- **Run.** A connection that is being closed goes on to `CLOSED` or `DEAD`: each step
that the socket does not hold up brings it one state nearer. -/
theorem run_closes {c c' : Config} {ls : List Label} (hr : machine.Reachable c)
    (hc : c.h.state.isClosing = true) (he : machine.exec c ls = some c') :
    Closes c.h (machine.total Config.unblocked c ls) c'.h := by
  have hall := machine.exec_total (f := Config.unblocked) (P := fun c₁ n =>
    c₁.Holds Residual RunShape RestShape ∧ Closes c.h n c₁.h) (n := 0)
    (fun c₁ l c₂ n hP hstep => by
      have hcl := step_closes hP.1 hP.2.1 hstep
      have hle := hP.2.2
      have hle' := hcl.2
      exact ⟨step_shape _ _ _ hP.1 hstep, hcl.1, by omega⟩)
    ⟨reachable_shape hr, hc, Nat.le_refl _⟩ he
  rw [Nat.zero_add] at hall
  exact hall.2

theorem die_closing {e : UInt32} {t : String} : (die e t h).All (fun _ => False)
    (fun h' => h'.state.isClosing = true) (fun h' => h'.state.isClosing = true) :=
  die_all.mpr rfl

theorem enterStarttlsCheckReply_refuses (ht : h.cfg.tls = .require) (hr : Received h)
    (hs : h.state = .optCheckReply .starttls) (hn : h.reply ≠ repAck) :
    (enterStarttlsCheckReply inp h).All (fun _ => False)
      (fun h' => h'.state.isClosing = true) (fun h' => h'.state.isClosing = true) := by
  unfold enterStarttlsCheckReply
  rw [if_neg hn]
  refine handleReplyError_all (fun _ _ => rfl) (fun hle hlt => ?_) fun _ _ e t => ?_
  · have hseen := hr.payloadSeen hs
    have : nbdMaxString ≤ payloadSize := by decide
    rw [if_pos (by omega)] at hseen
    omega
  · exact ite_all.mpr ⟨fun _ => goto_all.mpr rfl, fun hne => absurd ht hne⟩

theorem enterTlsHandshake_refuses (he : inp.handshake = .error) :
    (enterTlsHandshake inp h).All (fun _ => False)
      (fun h' => h'.state.isClosing = true) (fun h' => h'.state.isClosing = true) := by
  unfold enterTlsHandshake
  rw [he]
  exact die_closing

theorem enter_refuses {keep : Bool} (ht : h.cfg.tls = .require) (hr : Received h)
    (hrefuse : Config.refuses ⟨h, .running keep⟩ (.enter inp) = true) :
    (enter inp h).All (fun _ => False)
      (fun h' => h'.state.isClosing = true) (fun h' => h'.state.isClosing = true) := by
  cases hs : h.state with
  | oldstyleCheck =>
    rw [enter, hs]
    simp only [enterOldstyleCheck, ht]
    exact die_closing
  | newstyleCheckGflags =>
    have hfixed : (h.gflags &&& h.sbuf.be16 0) &&& flagFixedNewstyle = 0 := by
      simpa [Config.refuses, hs] using hrefuse
    rw [enter, hs]
    refine ite_all.mpr ⟨fun _ => die_closing, fun hne => absurd ?_ hne⟩
    simp [Handle.isFixed, hfixed, ht]
  | optCheckReply g =>
    cases g with
    | starttls =>
      have hn : h.reply ≠ repAck := by simpa [Config.refuses, hs] using hrefuse
      rw [enter, hs]
      exact enterStarttlsCheckReply_refuses ht hr hs hn
    | _ => simp [Config.refuses, hs] at hrefuse
  | tlsHandshakeRead =>
    rw [enter, hs]
    exact enterTlsHandshake_refuses (by simpa [Config.refuses, hs] using hrefuse)
  | tlsHandshakeWrite =>
    rw [enter, hs]
    exact enterTlsHandshake_refuses (by simpa [Config.refuses, hs] using hrefuse)
  | _ => simp [Config.refuses, hs] at hrefuse

/-- A server that refuses TLS or cannot do it. -/
theorem step_refuses {c c' : Config} {l : Label} (hr : machine.Reachable c)
    (ht : c.h.cfg.tls = .require) (hrefuse : c.refuses l = true)
    (hstep : machine.step c l = some c') : c'.h.state.isClosing = true := by
  obtain ⟨h, ctl⟩ := c
  cases l with
  | call api inp => cases hrefuse
  | enter inp =>
    cases ctl with
    | idle ret => cases hstep
    | aborted a => cases hstep
    | running keep =>
      cases hstep
      have hrec : Received h := reachable_received hr
      have hall := enter_refuses ht hrec hrefuse
      unfold stepEnter
      cases ho : enter inp h with
      | next h' | block h' | fail h' => rw [ho] at hall; exact hall
      | abort a => rw [ho] at hall; exact hall.elim

end

end Libnbd.Negotiation
