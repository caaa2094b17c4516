import Libnbd.Extents
import Libnbd.Negotiation.Contexts

/-!
A handle over its whole life: negotiation, then transmission.

The two machines share the handle. When negotiation enters `READY`, the machine
of the transmission phase takes over with what was negotiated, in the middle of
the same run of the loop; the negotiated part of the handle is not written any
more.
-/

namespace Libnbd

open Lib

/-- What the transmission phase uses of the negotiated values. -/
def Negotiation.Negotiated.toExport (e : Negotiation.Negotiated) : Export where
  exportsize := e.exportsize
  eflags := e.eflags
  blockMinimum := e.blockMinimum
  payloadMaximum := e.payloadMaximum
  extendedHeaders := e.extendedHeaders
  structuredReplies := e.structuredReplies
  metaValid := e.metaValid
  metaContexts := e.metaContexts

/-- What the transmission phase finds besides: settings that negotiation does not
read, and whatever the buffers and the memory of the application contain. -/
structure Setting where
  strict : UInt32
  preadInitialize : Bool
  hdr : Mem
  payload : Mem
  mem : Mem

/-- A handle that is connecting or negotiating, or has come to `READY`. -/
inductive Session where
  | negotiating (c : Negotiation.Config)
  | connected (n : Negotiation.Handle) (c : Config)

namespace Session

inductive Label where
  | negotiate (l : Negotiation.Label)
  | handover (pending : Bool) (s : Setting)
  | transmit (l : Libnbd.Label)

def entered (n : Negotiation.Handle) (s : Setting) : Handle :=
  .connected n.exp.toExport s.strict s.preadInitialize s.hdr s.payload s.mem

/-- `READY`, entered from negotiation: go on to `REPLY.START` if there are bytes
from the server already, or return from the run loop. -/
def enterReady (pending : Bool) (n : Negotiation.Handle) (s : Setting) : Session :=
  if !n.sock then .negotiating ⟨n, .aborted .readySock⟩
  else if pending then
    .connected n ⟨{ entered n s with state := .replyStart, lastError := n.lastError },
      .running .notify⟩
  else .connected n ⟨entered n s, .idle 0⟩

/-- Inside the run loop of negotiation, in `READY`. -/
def atReady (c : Negotiation.Config) : Bool :=
  c.h.state == .ready && match c.ctl with
    | .running _ => true
    | _ => false

def step : Session → Label → Option Session
  | negotiating c, .negotiate l =>
    if atReady c then none else (Negotiation.step c l).map .negotiating
  | negotiating c, .handover pending s => if atReady c then some (enterReady pending c.h s) else none
  | connected n c, .transmit l => (Libnbd.step c l).map (.connected n)
  | _, _ => none

/-- A handle from its creation on. -/
def system : System Session Label where
  init := fun s => ∃ c, Negotiation.Initial c ∧ s = .negotiating c
  step := step

/-- The negotiated part of the handle; the fields that the transmission phase
uses are those of its own handle. -/
def handle : Session → Negotiation.Handle
  | negotiating c => c.h
  | connected n c => { n with exp := { n.exp with
      exportsize := c.h.exp.exportsize
      eflags := c.h.exp.eflags
      blockMinimum := c.h.exp.blockMinimum
      payloadMaximum := c.h.exp.payloadMaximum
      extendedHeaders := c.h.exp.extendedHeaders
      structuredReplies := c.h.exp.structuredReplies
      metaValid := c.h.exp.metaValid
      metaContexts := c.h.exp.metaContexts } }

/-- The two machines are each in a reachable state, and they agree about the
export. -/
def Coupled : Session → Prop
  | negotiating c => Negotiation.machine.Reachable c
  | connected n c => (∃ ctl, Negotiation.machine.Reachable ⟨n, ctl⟩) ∧ machine.Reachable c ∧
      c.h.exp = n.exp.toExport

theorem initial_entered (n : Negotiation.Handle) (s : Setting) :
    machine.init ⟨entered n s, .idle 0⟩ := ⟨_, _, _, _, _, _, rfl⟩

/-- The run that goes on in `REPLY.START` is that of a read notification. -/
theorem reachable_pending (n : Negotiation.Handle) (s : Setting) :
    machine.Reachable ⟨{ entered n s with state := .replyStart, lastError := n.lastError },
      .running .notify⟩ :=
  ⟨_, [.call .aioNotifyRead { Input.calm with lastError := n.lastError }], initial_entered n s, rfl⟩

theorem enterReady_coupled {n : Negotiation.Handle} {ctl : Negotiation.Control}
    (hn : Negotiation.machine.Reachable ⟨n, ctl⟩) (hsock : n.sock = true) (pending : Bool)
    (s : Setting) : (enterReady pending n s).Coupled := by
  unfold enterReady
  rw [if_neg (by simp [hsock])]
  split
  · exact ⟨⟨ctl, hn⟩, reachable_pending n s, rfl⟩
  · exact ⟨⟨ctl, hn⟩, ⟨_, [], initial_entered n s, rfl⟩, rfl⟩

/-- **Step.** -/
theorem step_coupled {s s' : Session} {l : Label} (hs : s.Coupled) (h : step s l = some s') :
    s'.Coupled := by
  cases s with
  | negotiating c =>
    have hc : Negotiation.machine.Reachable c := hs
    cases l with
    | negotiate l =>
      simp only [step] at h
      split at h
      · cases h
      · obtain ⟨c', hc', rfl⟩ := Option.map_eq_some_iff.mp h
        exact System.Reachable.step _ hc hc'
    | handover pending start =>
      simp only [step] at h
      split at h
      · rename_i hat
        cases h
        obtain ⟨n, ctl⟩ := c
        simp only [atReady, Bool.and_eq_true, beq_iff_eq] at hat
        refine enterReady_coupled hc ?_ pending start
        have hS := Negotiation.reachable_shape hc
        cases ctl with
        | running keep =>
          have hR : Negotiation.RunShape n := hS
          exact hR.shape.sock (by rw [hat.1]; rfl)
        | _ => cases hat.2
      · cases h
    | transmit l => cases h
  | connected n c =>
    cases l with
    | negotiate l => cases h
    | handover pending start => cases h
    | transmit l =>
      obtain ⟨c', hc', rfl⟩ := Option.map_eq_some_iff.mp h
      obtain ⟨hn, hc, hexp⟩ := hs
      refine ⟨hn, System.Reachable.step _ hc hc', ?_⟩
      rcases reachable_good hc with hcl | hg
      · cases l <;> simp [Libnbd.step, hcl] at hc'
      · rw [(step_names hg.sound hc').exp, hexp]

theorem reachable_coupled {s : Session} (hs : system.Reachable s) : s.Coupled := by
  refine system.reachable_invariant ?_ (fun s l s' => step_coupled) hs
  rintro s ⟨c, hc, rfl⟩
  exact ⟨c, [], hc, rfl⟩

/-- The transmission phase leaves the negotiated part of the handle alone. -/
theorem Coupled.handle_eq {n : Negotiation.Handle} {c : Config}
    (hs : (connected n c).Coupled) : (connected n c).handle = n := by
  obtain ⟨-, -, hexp⟩ := hs
  simp only [handle, hexp, Negotiation.Negotiated.toExport]

theorem Coupled.valid {s : Session} (hs : s.Coupled) : Negotiation.Valid s.handle.view := by
  cases s with
  | negotiating c => exact Negotiation.reachable_valid hs
  | connected n c =>
    obtain ⟨ctl, hn⟩ := hs.1
    rw [hs.handle_eq]
    exact Negotiation.reachable_valid hn

/-! ## The negotiation of a run -/

/-- The steps of a run that belong to negotiation. -/
def negotiationOf (ls : List Label) : List Negotiation.Label :=
  ls.filterMap fun
    | .negotiate l => some l
    | _ => none

/-- Once connected, a run consists of steps of the transmission phase. -/
theorem exec_connected {n : Negotiation.Handle} {c : Config} {ls : List Label} {s : Session}
    (he : system.exec (connected n c) ls = some s) :
    negotiationOf ls = [] ∧ ∃ c', s = connected n c' := by
  induction ls generalizing c with
  | nil =>
    cases he
    exact ⟨rfl, c, rfl⟩
  | cons l ls ih =>
    obtain ⟨t, ht, hrest⟩ := Option.bind_eq_some_iff.mp he
    cases l with
    | negotiate l => cases ht
    | handover pending start => cases ht
    | transmit l =>
      obtain ⟨c', -, rfl⟩ := Option.map_eq_some_iff.mp ht
      exact ih hrest

/-- Negotiation ends in `READY` when the transmission phase takes over. -/
theorem enterReady_connected {n : Negotiation.Handle} {ctl : Negotiation.Control}
    (hn : Negotiation.machine.Reachable ⟨n, ctl⟩) (hat : atReady ⟨n, ctl⟩ = true) (pending : Bool)
    (s : Setting) : n.state = .ready ∧ (∃ keep, ctl = .running keep) ∧
      ∃ c, enterReady pending n s = connected n c := by
  simp only [atReady, Bool.and_eq_true, beq_iff_eq] at hat
  have hS := Negotiation.reachable_shape hn
  cases ctl with
  | running keep =>
    have hR : Negotiation.RunShape n := hS
    have hsock : n.sock = true := hR.shape.sock (by rw [hat.1]; rfl)
    refine ⟨hat.1, ⟨keep, rfl⟩, ?_⟩
    unfold enterReady
    rw [if_neg (by simp [hsock])]
    split <;> exact ⟨_, rfl⟩
  | _ => cases hat.2

/-- The negotiation of a run is a run of the negotiating machine; it has come to
`READY` if the transmission phase has begun. -/
theorem exec_negotiation {c₀ : Negotiation.Config} {ls : List Label} {s : Session}
    (hc : Negotiation.machine.Reachable c₀) (he : system.exec (negotiating c₀) ls = some s) :
    ∃ ctl, Negotiation.machine.exec c₀ (negotiationOf ls) = some ⟨s.handle, ctl⟩ ∧
      (∀ c, s = negotiating c → ctl = c.ctl) ∧
      ∀ n c, s = connected n c → s.handle.state = .ready ∧ ∃ keep, ctl = .running keep := by
  induction ls generalizing c₀ with
  | nil =>
    cases he
    refine ⟨c₀.ctl, rfl, ?_, ?_⟩
    · rintro c ⟨⟩
      rfl
    · intro n c h
      cases h
  | cons l ls ih =>
    obtain ⟨t, ht, hrest⟩ := Option.bind_eq_some_iff.mp he
    cases l with
    | transmit l => simp [system, step] at ht
    | negotiate l =>
      simp only [system, step] at ht
      split at ht
      · cases ht
      · obtain ⟨c', hc', rfl⟩ := Option.map_eq_some_iff.mp ht
        obtain ⟨ctl, hx, hends⟩ := ih (System.Reachable.step _ hc hc') hrest
        refine ⟨ctl, ?_, hends⟩
        change (Negotiation.step c₀ l).bind _ = _
        rw [hc']
        exact hx
    | handover pending start =>
      have ht' : step (negotiating c₀) (.handover pending start) = some t := ht
      have hc' : (negotiating c₀).Coupled := hc
      have hcoup : s.Coupled := system.exec_invariant (fun _ _ _ h _ hs => step_coupled h hs)
        (step_coupled hc' ht') (system.meets_true t ls) hrest
      simp only [system, step] at ht
      split at ht
      · rename_i hat
        cases ht
        obtain ⟨n, ctl⟩ := c₀
        obtain ⟨hst, hkeep, c, hcon⟩ := enterReady_connected hc hat pending start
        rw [hcon] at hrest
        obtain ⟨hnil, c', rfl⟩ := exec_connected hrest
        rw [hcoup.handle_eq]
        have hnil' : negotiationOf (.handover pending start :: ls) = [] := hnil
        refine ⟨ctl, by rw [hnil']; rfl, ?_, fun _ _ _ => ⟨hst, hkeep⟩⟩
        intro c h
        cases h
      · cases ht

/-! ## Metadata contexts -/

/-- The step from `s` to `s'` gives extent callbacks only names of the list in
`s`, each with the id in the chunk. -/
def NamesExtents : Session → Session → Prop
  | connected _ c, connected _ c' => ∃ es, c'.h.trace = c.h.trace ++ es ∧
      ∀ e ∈ es, ∀ name, e.extentName = some name →
        c.h.exp.metaValid = true ∧ (name, c'.h.rx.payload.be32 0) ∈ c.h.exp.metaContexts
  | negotiating _, connected _ c => c.h.trace = []
  | _, _ => True

theorem step_namesExtents {s s' : Session} {l : Label} (hs : s.Coupled)
    (h : step s l = some s') : NamesExtents s s' := by
  cases s with
  | negotiating c =>
    cases l with
    | negotiate l =>
      simp only [step] at h
      split at h
      · cases h
      · obtain ⟨c', -, rfl⟩ := Option.map_eq_some_iff.mp h
        trivial
    | handover pending start =>
      simp only [step] at h
      split at h
      · cases h
        unfold enterReady
        split
        · trivial
        · split <;> rfl
      · cases h
    | transmit l => cases h
  | connected n c =>
    cases l with
    | negotiate l => cases h
    | handover pending start => cases h
    | transmit l =>
      obtain ⟨c', hc', rfl⟩ := Option.map_eq_some_iff.mp h
      rcases reachable_good hs.2.1 with hcl | hg
      · cases l <;> simp [Libnbd.step, hcl] at hc'
      · exact (step_names hg.sound hc').named

/-- **Validity of the contexts.** Whenever `h->meta_valid` is set, the list is
that of the most recent exchange for this export, and extent callbacks are given
names from it. -/
theorem meta_contexts_valid {s : Session} (hs : system.Reachable s) :
    (s.handle.exp.metaValid = true → Negotiation.Sound s.handle.trace s.handle.cfg.exportName
      s.handle.exp.metaContexts) ∧
    ∀ l s', system.step s l = some s' → NamesExtents s s' := by
  have hc := reachable_coupled hs
  exact ⟨hc.valid.sound, fun l s' h => step_namesExtents hc h⟩

/-- Negotiate one context and come to `READY`. -/
def connectWithContext : List Label :=
  (Negotiation.connectOptMode ++ Negotiation.agreeStructured ++ Negotiation.setOneContext ++
    Negotiation.goOn).map Label.negotiate ++
  [Label.handover false ⟨strictMask, false, fun _ => 0, fun _ => 0, fun _ => 0⟩]

theorem initial_created : system.init (.negotiating .created) :=
  ⟨_, Negotiation.Config.initial_created, rfl⟩

theorem meta_contexts_valid_one :
    ∃ s, system.exec (.negotiating .created) connectWithContext = some s ∧
      s.handle.exp.metaContexts = [([97], 7)] ∧
      Negotiation.Sound s.handle.trace s.handle.cfg.exportName s.handle.exp.metaContexts := by
  have hrun : (system.exec (.negotiating .created) connectWithContext).map (fun s =>
      (s.handle.exp.metaValid, s.handle.exp.metaContexts)) = some (true, [([97], 7)]) := by
    decide +kernel
  obtain ⟨s, hs, hp⟩ := Option.map_eq_some_iff.mp hrun
  simp only [Prod.mk.injEq] at hp
  exact ⟨s, hs, hp.2, (meta_contexts_valid ⟨_, _, initial_created, hs⟩).1 hp.1⟩

/-- **`nbd_can_meta_context`** is right about every name exactly if it looks at a
list that is current or happens to repeat the last successful exchange. -/
theorem can_meta_context_truthful_iff {s : Session} (hs : system.Reachable s) :
    (∀ name, s.handle.canMetaContext name = 1 → Negotiation.Returned s.handle name) ↔
      s.handle.ListCurrent ∨ s.handle.RepeatsSuccess :=
  Negotiation.returned_iff_current (reachable_coupled hs).valid

theorem can_meta_context_truthful_one :
    ∃ s, system.exec (.negotiating .created) connectWithContext = some s ∧
      s.handle.canMetaContext [97] = 1 ∧
      ∀ name, s.handle.canMetaContext name = 1 → Negotiation.Returned s.handle name := by
  have hrun : (system.exec (.negotiating .created) connectWithContext).map (fun s =>
      (s.handle.exp.metaValid, s.handle.canMetaContext [97])) = some (true, 1) := by
    decide +kernel
  obtain ⟨s, hs, hp⟩ := Option.map_eq_some_iff.mp hrun
  simp only [Prod.mk.injEq] at hp
  exact ⟨s, hs, hp.2, (can_meta_context_truthful_iff ⟨_, _, initial_created, hs⟩).mpr
    (.inl (.inr (.inl hp.1)))⟩

/-- Negotiate one context, then ask for another export. -/
def renameAfterContext : List Label :=
  (Negotiation.connectOptMode ++ Negotiation.agreeStructured ++ Negotiation.setOneContext ++
    [Negotiation.Label.call (.set (.setExportName [98])) .calm]).map Label.negotiate

/-- The old context is still reported for the new name. -/
theorem stale_context_reported :
    ¬ ∀ s, system.Reachable s → ∀ name, s.handle.canMetaContext name = 1 →
      Negotiation.Returned s.handle name := by
  intro hall
  have hrun : (system.exec (.negotiating .created) renameAfterContext).map (fun s =>
      (s.handle.canMetaContext [97], (Negotiation.lastSuccess s.handle.trace).isNone)) =
      some (1, true) := by
    decide +kernel
  obtain ⟨s, hs, hp⟩ := Option.map_eq_some_iff.mp hrun
  simp only [Prod.mk.injEq] at hp
  obtain ⟨contexts, hc, -⟩ := hall s ⟨_, _, initial_created, hs⟩ [97] hp.1
  rw [Option.isNone_iff_eq_none.mp hp.2] at hc
  cases hc

end Session

end Libnbd
