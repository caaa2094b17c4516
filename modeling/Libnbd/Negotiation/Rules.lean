import Libnbd.Negotiation.Run

/-!
Rules for reasoning about what one state leaves behind.

`o.All A P R` says that the handle left behind by `o` satisfies `P` where the run
loop goes on and `R` where it ends, because the machine blocks or fails, and that
`A` holds of the reason if the process dies. There is one rule for each way a
state's code is put together; `reachable_all` lifts an invariant of the states'
code and of the API calls to the transition system.
-/

namespace Libnbd.Negotiation

open Lib

/-- A premise that a test of a fixed state passes, when it does not. -/
theorem of_false_eq_true {p : Prop} (h : false = true) : p :=
  absurd h Bool.false_ne_true

/-- The handle that an outcome leaves behind satisfies `P` if the run loop goes
on and `R` if it ends, and the process dies only for reasons in `A`. -/
def Outcome.All (A : Abort → Prop) (P R : Handle → Prop) : Outcome → Prop
  | .next h => P h
  | .block h | .fail h => R h
  | .abort a => A a

variable {A : Abort → Prop} {P R : Handle → Prop} {inp : Input} {h : Handle}

theorem Outcome.All.mono {Q S : Handle → Prop} {o : Outcome} (ho : o.All A P R)
    (hPQ : ∀ h, P h → Q h) (hRS : ∀ h, R h → S h) : o.All A Q S := by
  cases o with
  | abort a => exact ho
  | next h' => exact hPQ _ ho
  | block h' => exact hRS _ ho
  | fail h' => exact hRS _ ho

@[simp] theorem block_all : (Outcome.block h).All A P R ↔ R h := Iff.rfl

@[simp] theorem fail_all : (Outcome.fail h).All A P R ↔ R h := Iff.rfl

@[simp] theorem abort_all {a : Abort} : (Outcome.abort a).All A P R ↔ A a := Iff.rfl

@[simp] theorem goto_all {s : State} : (goto s h).All A P R ↔ P { h with state := s } := Iff.rfl

@[simp] theorem die_all {e : UInt32} {t : String} :
    (die e t h).All A P R ↔ P { h with lastError := some (e, t), state := .dead } := Iff.rfl

@[simp] theorem require_all {p : Bool} {a : Abort} {k : Outcome} :
    (require p a k).All A P R ↔ (p = true → k.All A P R) ∧ (p = false → A a) := by
  cases p <;> simp [require]

@[simp] theorem ite_all {p : Prop} [Decidable p] {a b : Outcome} :
    (if p then a else b).All A P R ↔ (p → a.All A P R) ∧ (¬ p → b.All A P R) := by
  split <;> simp_all

/-! ## Receiving and sending -/

@[simp] theorem Handle.store_nil (h : Handle) : h.store [] = h := by
  cases hr : h.rbuf with
  | none =>
    simp only [Handle.store, hr, Option.map_none, List.length_nil, Nat.add_zero, Nat.sub_zero]
    rw [← hr]
  | some p =>
    simp only [Handle.store, hr, Option.map_some, List.length_nil, Nat.add_zero, Nat.sub_zero,
      Mem.write_nil]
    rw [← hr]

@[simp] theorem Handle.advance_zero (h : Handle) : h.advance 0 = h := by simp [Handle.advance]

theorem Handle.recvWant_le (h : Handle) : h.recvWant ≤ h.rlen := by
  unfold Handle.recvWant
  split
  · exact Nat.min_le_left _ _
  · exact Nat.le_refl _

theorem recvThen_all {done : Handle → Outcome}
    (hdead : ∀ e t, P { h with lastError := some (e, t), state := .dead })
    (hmore : ∀ bs, bs.length ≤ h.rlen → R (h.store bs))
    (hdone : ∀ bs, bs.length = h.rlen → (done (h.store bs)).All A P R) :
    (recvThen inp done h).All A P R := by
  unfold recvThen
  split
  · rename_i hz
    have := hdone [] (by simpa using hz.symm)
    rwa [Handle.store_nil] at this
  · split
    · have := hmore [] (Nat.zero_le _)
      rwa [Handle.store_nil] at this
    · exact hdead _ _
    · rename_i bs _
      have hle : (bs.take h.recvWant).length ≤ h.rlen := by
        have := h.recvWant_le
        simp only [List.length_take]
        omega
      dsimp only
      split
      · exact hdead _ _
      · split
        · rename_i hz
          refine hdone _ ?_
          simp only [Handle.store] at hz
          omega
        · exact hmore _ hle

theorem sendThen_all {done : Handle → Outcome}
    (hdead : ∀ e t, P { h with lastError := some (e, t), state := .dead })
    (hmore : ∀ n, R (h.advance n))
    (hdone : ∀ n, h.wbuf.length ≤ n → (done { h.advance n with wflags := false }).All A P R) :
    (sendThen inp done h).All A P R := by
  unfold sendThen
  split
  · rename_i hz
    have := hdone 0 (by simp [hz])
    rwa [Handle.advance_zero] at this
  · split
    · have := hmore 0
      rwa [Handle.advance_zero] at this
    · exact hdead _ _
    · rename_i n _
      dsimp only
      split
      · rename_i hz
        exact hdone n (List.drop_eq_nil_iff.mp hz)
      · exact hmore n

/-! ## Option replies -/

@[simp] theorem fetch_all {pos n : Nat} {k : List UInt8 → Outcome} :
    (fetch h pos n k).All A P R ↔
      (pos + n ≤ h.payloadSeen → (k (h.sbuf.read (optionReplySize + pos) n)).All A P R) ∧
      (h.payloadSeen < pos + n → A .payloadOverread) := by
  simp [fetch]

@[simp] theorem poke_all {pos : Nat} {b : UInt8} {k : Handle → Outcome} :
    (poke h pos b k).All A P R ↔ (pos < payloadSize →
      (k { h with sbuf := h.sbuf.write (optionReplySize + pos) [b] }).All A P R) ∧
      (payloadSize ≤ pos → A .payloadOverwrite) := by
  simp [poke]

@[simp] theorem minus_all {a b : Nat} {k : Nat → Outcome} :
    (minus a b k).All A P R ↔ (b ≤ a → (k (a - b)).All A P R) ∧ (a < b → A .lengthUnderflow) := by
  simp [minus]

theorem handleReplyError_all {k : Handle → Outcome}
    (hdead : ∀ e t, P { h with lastError := some (e, t), state := .dead })
    (hread : h.replylen.toNat ≤ nbdMaxString → h.payloadSeen < h.replylen.toNat →
      A .payloadOverread)
    (hk : repIsErr h.reply = true → h.replylen.toNat ≤ nbdMaxString →
      ∀ e t, (k (h.setError e t)).All A P R) :
    (handleReplyError inp h k).All A P R := by
  unfold handleReplyError
  refine ite_all.mpr ⟨fun _ => hdead _ _, fun hr => ?_⟩
  refine ite_all.mpr ⟨fun _ => hdead _ _, fun hl => ?_⟩
  refine ite_all.mpr ⟨fun _ => hdead _ _, fun _ => ?_⟩
  have hr' : repIsErr h.reply = true := by simpa using hr
  dsimp only
  refine ite_all.mpr ⟨fun _ => hk hr' (by omega) _ _, fun _ => ?_⟩
  exact fetch_all.mpr ⟨fun _ => hk hr' (by omega) _ _, fun hs => hread (by omega) (by omega)⟩

theorem setSizeAndFlags_all {exportsize : UInt64} {eflags : UInt16} {k : Handle → Outcome}
    (hdead : ∀ e t, P { h with lastError := some (e, t), state := .dead })
    (habort : h.nothingRequested = true → h.exp.metaContexts ≠ [] → A .setSizeContexts)
    (hk : ∀ v, (v = h.exp.metaValid ∧ h.nothingRequested = false ∨
        v = true ∧ h.nothingRequested = true ∧ h.exp.metaContexts = []) →
      (k { h with exp := { h.exp with
        exportsize := exportsize, eflags := h.usableFlags eflags, metaValid := v } }).All A P R) :
    (setSizeAndFlags h exportsize eflags k).All A P R := by
  unfold setSizeAndFlags
  refine ite_all.mpr ⟨fun _ => hdead _ _, fun _ => ?_⟩
  dsimp only
  refine ite_all.mpr ⟨fun hn => require_all.mpr ⟨fun he => hk _ ?_, fun he => habort hn ?_⟩,
    fun hn => hk _ ?_⟩
  · exact .inr ⟨rfl, hn, List.isEmpty_iff.mp he⟩
  · rintro he'
    simp [he'] at he
  · exact .inl ⟨rfl, by simpa using hn⟩

theorem prepareForReplyPayload_ok {opt : Opt} {h' : Handle}
    (hp : prepareForReplyPayload h opt = .ok h') :
    h' = { h with
      rbuf := if h.replylen.toNat ≤ payloadSize then some optionReplySize else none
      rlen := h.replylen.toNat } ∧
    (h.reply = repAck → h.replylen.toNat = 0) ∧
    (h.reply = repInfo → 2 ≤ h.replylen.toNat) ∧
    (h.reply = repMetaContext → 4 < h.replylen.toNat ∧ h.replylen.toNat ≤ contextSize) := by
  unfold prepareForReplyPayload at hp
  dsimp only at hp
  split at hp
  · cases hp
  · split at hp
    · cases hp
    · split at hp
      · cases hp
      · split at hp
        · cases hp
        · split at hp
          · cases hp
          · rename_i h₁ h₂ h₃ _
            cases hp
            refine ⟨rfl, fun he => ?_, fun he => ?_, fun he => ?_⟩
            · by_contra hne
              exact h₁ ⟨he, hne⟩
            · by_contra hne
              exact h₂ ⟨he, by omega⟩
            · by_contra hne
              exact h₃ ⟨he, by omega⟩

/-! ## External events -/

theorem externalEvent_notifyRead {s s' : State} (he : externalEvent .notifyRead s = some s') :
    s.isReceiving = true ∧ s' = s := by
  cases s <;> simp_all [externalEvent, State.isReceiving]

theorem externalEvent_notifyWrite {s s' : State} (he : externalEvent .notifyWrite s = some s') :
    s = .connectStart ∧ s' = .connectConnecting ∨
      s = .connectTcpConnect ∧ s' = .connectTcpConnecting ∨ s.isSending = true ∧ s' = s := by
  cases s <;> simp_all [externalEvent, State.isSending]

/-! ## Steps of the system -/

/-- The handle that a call leaves behind satisfies `R`; where the state machine
runs, the handle it starts from satisfies `P`. -/
def Submit.All (A : Abort → Prop) (P R : Handle → Prop) : Submit → Prop
  | .refused h | .done h => R h
  | .run ev _ h => (∀ s, externalEvent ev h.state = some s → P { h with state := s }) ∧
      (externalEvent ev h.state = none → ∀ e t, R (h.setError e t))
  | .abort a => A a

theorem Submit.All.mono {Q S : Handle → Prop} {o : Submit} (ho : o.All A P R)
    (hPQ : ∀ h, P h → Q h) (hRS : ∀ h, R h → S h) : o.All A Q S := by
  cases o with
  | refused h' => exact hRS _ ho
  | done h' => exact hRS _ ho
  | run ev keep h' => exact ⟨fun s hs => hPQ _ (ho.1 s hs), fun hn e t => hRS _ (ho.2 hn e t)⟩
  | abort a => exact ho

theorem Submit.All.and {Q S : Handle → Prop} {o : Submit} (ho : o.All A P R) (ho' : o.All A Q S) :
    o.All A (fun h => P h ∧ Q h) fun h => R h ∧ S h := by
  cases o with
  | refused h' => exact ⟨ho, ho'⟩
  | done h' => exact ⟨ho, ho'⟩
  | run ev keep h' =>
    exact ⟨fun s hs => ⟨ho.1 s hs, ho'.1 s hs⟩, fun hn e t => ⟨ho.2 hn e t, ho'.2 hn e t⟩⟩
  | abort a => exact ho

@[simp] theorem refused_all : (Submit.refused h).All A P R ↔ R h := Iff.rfl

@[simp] theorem done_all : (Submit.done h).All A P R ↔ R h := Iff.rfl

@[simp] theorem submit_abort_all {a : Abort} : (Submit.abort a).All A P R ↔ A a := Iff.rfl

@[simp] theorem submit_ite_all {p : Prop} [Decidable p] {a b : Submit} :
    (if p then a else b).All A P R ↔ (p → a.All A P R) ∧ (¬ p → b.All A P R) := by
  split <;> simp_all

/-- Whatever the state machine starts from or a refused event leaves behind. -/
theorem run_all {ev : ExternalEvent} {keep : Bool} (hP : ∀ s, externalEvent ev h.state = some s →
    P { h with state := s }) (hR : ∀ e t, R (h.setError e t)) : (Submit.run ev keep h).All A P R :=
  ⟨hP, fun _ e t => hR e t⟩

theorem permitted_all {p : State → Bool} {k : Submit} (hR : ∀ e t, R (h.setError e t))
    (hk : p h.state = true → k.All A P R) : (permitted p h k).All A P R := by
  unfold permitted
  exact submit_ite_all.mpr ⟨hk, fun _ => hR _ _⟩

theorem needFixed_all {k : Submit} (hR : ∀ e t, R (h.setError e t))
    (hk : h.isFixed = true → k.All A P R) : (needFixed h k).All A P R := by
  unfold needFixed
  exact submit_ite_all.mpr ⟨hk, fun _ => hR _ _⟩

theorem needCallback_all {fn : Closure} {k : Submit} (hR : ∀ e t, R (h.setError e t))
    (hk : fn.isNull = false → k.All A P R) : (needCallback fn h k).All A P R := by
  unfold needCallback
  exact submit_ite_all.mpr ⟨fun _ => hR _ _, fun hn => hk (eq_false_of_ne_true hn)⟩

/-- `P` while a call is running, `R` between calls, `A` for the end of the process. -/
def Config.Holds (A : Abort → Prop) (P R : Handle → Prop) (c : Config) : Prop :=
  match c.ctl with
  | .running _ => P c.h
  | .idle _ => R c.h
  | .aborted a => A a

theorem stepEnter_holds {keep : Bool} (ho : (enter inp h).All A P R) :
    (stepEnter inp keep h).Holds A P R := by
  unfold stepEnter
  cases he : enter inp h with
  | abort a => rw [he] at ho; exact ho
  | next h' => rw [he] at ho; exact ho
  | block h' => rw [he] at ho; exact ho
  | fail h' => rw [he] at ho; exact ho

theorem startRun_holds {ev : ExternalEvent} {keep : Bool}
    (hs : (Submit.run ev keep h).All A P R) : (startRun ev keep h).Holds A P R := by
  unfold startRun
  cases he : externalEvent ev h.state with
  | none => exact hs.2 he _ _
  | some s => exact hs.1 s he

theorem afterSubmit_holds {o : Submit} (hs : o.All A P R) : (afterSubmit h o).Holds A P R := by
  cases o with
  | refused h' => exact hs
  | done h' => exact hs
  | run ev keep h' => exact startRun_holds hs
  | abort a => exact hs

/-- One step of the system, given what the states' code and the calls keep. -/
theorem step_holds (henter : ∀ inp h, P h → (enter inp h).All A P R)
    (hcall : ∀ inp h api, R h → (submit inp { h with lastError := inp.lastError } api).All A P R)
    (c : Config) (l : Label) (c' : Config) (hc : c.Holds A P R) (hstep : machine.step c l = some c') :
    c'.Holds A P R := by
  obtain ⟨h, ctl⟩ := c
  cases l with
  | enter inp =>
    cases ctl with
    | running keep =>
      cases hstep
      exact stepEnter_holds (henter inp h hc)
    | idle ret => cases hstep
    | aborted a => cases hstep
  | call api inp =>
    cases ctl with
    | idle ret =>
      cases hstep
      exact afterSubmit_holds (hcall inp h api hc)
    | running keep => cases hstep
    | aborted a => cases hstep

/-- An invariant of the states' code and of the calls is one of the system. -/
theorem reachable_all (hcreate : ∀ sbuf, R (.create sbuf))
    (henter : ∀ inp h, P h → (enter inp h).All A P R)
    (hcall : ∀ inp h api, R h → (submit inp { h with lastError := inp.lastError } api).All A P R)
    {c : Config} (hc : machine.Reachable c) : c.Holds A P R := by
  refine machine.reachable_invariant ?_ (step_holds henter hcall) hc
  rintro c ⟨sbuf, rfl⟩
  exact hcreate sbuf

end Libnbd.Negotiation
