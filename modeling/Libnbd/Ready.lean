import Libnbd.Session
import Libnbd.Negotiation.Revision

/-!
What is known about the export once the handle is `READY`.

`reports` records the export descriptions the server sends, and where GO starts
over. `Known` says what the negotiated values have to do with the last one;
one case for each kind of `Revision` shows that every step keeps it.
-/

namespace Libnbd.Negotiation

open Lib

/-- The description that the server gives at one step; `none` where GO starts and
what was known is forgotten. -/
def reports (c : Config) : Label → List (Option (UInt64 × UInt16))
  | .enter _ =>
    if c.h.state = .optStart .go then [none]
    else
      match c.h.described with
      | some d => [some d]
      | none => []
  | .call _ _ => []

/-- The description that stands after `rs`. -/
def lastReport (rs : List (Option (UInt64 × UInt16))) : Option (UInt64 × UInt16) := rs.getLast?.join

/-- Block sizes that a server may ask for, or none. -/
def Facts.BlocksOk (f : Facts) : Prop :=
  f.blockMinimum = 0 ∧ f.blockPreferred = 0 ∧ f.blockMaximum = 0 ∨
    (∃ k, f.blockMinimum.toNat = 2 ^ k) ∧ f.blockMinimum.toNat ≤ 64 * 1024 ∧
      (∃ k, f.blockPreferred.toNat = 2 ^ k) ∧ 512 ≤ f.blockPreferred.toNat ∧
      f.blockMinimum.toNat ≤ f.blockPreferred.toNat ∧
      f.blockPreferred.toNat ≤ f.blockMaximum.toNat ∧
      (f.blockMinimum.toNat ∣ f.blockMaximum.toNat ∨ f.blockMaximum = 0xffffffff)

/-- The largest payload is between 1 and 64 MiB. -/
def Facts.PayloadOk (f : Facts) : Prop :=
  2 ^ 20 ≤ f.payloadMaximum.toNat ∧ f.payloadMaximum.toNat ≤ 2 ^ 26

/-- `NBD_FLAG_SEND_DF` only with structured replies. -/
def Facts.DfOk (f : Facts) : Prop := f.eflags &&& flagSendDf ≠ 0 → f.structuredReplies = true

/-- The size and flags are those of the description, or nothing is known. -/
def Facts.From (f : Facts) : Option (UInt64 × UInt16) → Prop
  | some (exportsize, eflags) => f.exportsize = exportsize ∧ f.eflags = f.usableFlags eflags
  | none => f.exportsize = 0 ∧ f.eflags = 0

theorem Facts.From.of_eq {f g : Facts} {d : Option (UInt64 × UInt16)} (hf : f.From d)
    (h₁ : g.exportsize = f.exportsize) (h₂ : g.eflags = f.eflags)
    (h₃ : g.structuredReplies = f.structuredReplies)
    (h₄ : g.extendedHeaders = f.extendedHeaders) : g.From d := by
  cases d with
  | none => exact ⟨h₁.trans hf.1, h₂.trans hf.2⟩
  | some d =>
    have hu : g.usableFlags d.2 = f.usableFlags d.2 := by
      simp only [Facts.usableFlags, h₃, h₄]
    exact ⟨h₁.trans hf.1, (h₂.trans hf.2).trans hu.symm⟩

/-! ## One revision -/

theorem isPowerOfTwo_of_and {x : UInt32} (h₀ : x ≠ 0) (h : x &&& (x - 1) = 0) :
    ∃ k, x.toNat = 2 ^ k := by
  have hne : x.toNat ≠ 0 := fun h => h₀ (UInt32.toNat_inj.mp h)
  have hsub : (x - 1).toNat = x.toNat - 1 :=
    UInt32.toNat_sub_of_le _ _ (UInt32.le_iff_toNat_le.mpr (by simpa using Nat.one_le_iff_ne_zero.mpr hne))
  have hand := congrArg UInt32.toNat h
  rw [UInt32.toNat_and, hsub] at hand
  exact (Nat.and_sub_one_eq_zero_iff_isPowerOfTwo hne).mp hand

theorem blocksOk_of_good {f : Facts} {min pref max : UInt32}
    (hb : Handle.badBlockSize min pref max = false) : (f.blocks min pref max).BlocksOk := by
  simp only [Handle.badBlockSize, Bool.or_eq_false_iff, beq_eq_false_iff_ne, decide_eq_false_iff_not,
    bne_eq_false_iff_eq, Bool.and_eq_false_iff] at hb
  obtain ⟨⟨⟨⟨⟨⟨⟨h₀, h₁⟩, h₂⟩, h₃⟩, h₄⟩, h₅⟩, h₆⟩, h₇⟩ := hb
  have hpref : pref ≠ 0 := by
    rintro rfl
    exact h₃ (by decide)
  refine .inr ⟨isPowerOfTwo_of_and h₀ h₅, ?_, isPowerOfTwo_of_and hpref h₆, ?_, ?_, ?_, ?_⟩
  · simpa [Facts.blocks, UInt32.lt_iff_toNat_lt] using h₁
  · simpa [Facts.blocks, UInt32.lt_iff_toNat_lt] using h₃
  · simpa [Facts.blocks, UInt32.lt_iff_toNat_lt] using h₂
  · simpa [Facts.blocks, UInt32.lt_iff_toNat_lt] using h₄
  · rcases h₇ with h₇ | h₇
    · exact .inr h₇
    · refine .inl (Nat.dvd_of_mod_eq_zero ?_)
      have := congrArg UInt32.toNat h₇
      simpa [Facts.blocks] using this

theorem payload_payloadOk (f : Facts) : f.payload.PayloadOk := by
  simp only [Facts.PayloadOk, Facts.payload]
  split
  · have hmin : ∀ a b : UInt32, (min a b).toNat = min a.toNat b.toNat := by
      intro a b
      change (if a ≤ b then a else b).toNat = _
      split <;> rename_i h <;> rw [UInt32.le_iff_toNat_le] at h <;> omega
    have hmax : ∀ a b : UInt32, (max a b).toNat = max a.toNat b.toNat := by
      intro a b
      change (if a ≤ b then b else a).toNat = _
      split <;> rename_i h <;> rw [UInt32.le_iff_toNat_le] at h <;> omega
    have h₁ : (UInt32.ofNat maxRequestSize).toNat = 2 ^ 26 := by decide
    have h₂ : (1024 * 1024 : UInt32).toNat = 2 ^ 20 := by decide
    rw [hmin, hmax, h₁, h₂]
    omega
  · decide

theorem and_and_df {x m : UInt16} (h : x &&& flagSendDf = 0) : x &&& m &&& flagSendDf = 0 := by
  rw [UInt16.and_assoc, UInt16.and_comm m, ← UInt16.and_assoc, h, UInt16.zero_and]

theorem usableFlags_df (f : Facts) (eflags : UInt16) (hs : f.structuredReplies = false) :
    f.usableFlags eflags &&& flagSendDf = 0 := by
  have hdrop : ∀ (p : Bool) (x m : UInt16), x &&& flagSendDf = 0 →
      (if p then x &&& m else x) &&& flagSendDf = 0 := by
    intro p x m hx
    split
    · exact and_and_df hx
    · exact hx
  unfold Facts.usableFlags
  refine hdrop _ _ _ (hdrop _ _ _ ?_)
  split
  · rw [UInt16.and_assoc, UInt16.not_and_self, UInt16.and_zero]
  · rename_i hp
    simpa [hs] using hp

/-! ## The invariant -/

/-- What the values have to do with the descriptions `rs`. -/
structure Known (h : Handle) (rs : List (Option (UInt64 × UInt16))) : Prop where
  blocks : h.facts.BlocksOk
  df : h.facts.DfOk
  described : h.state.stage ≠ 0 → h.facts.From (lastReport rs)
  payload : h.state.stage = 2 → h.facts.PayloadOk

theorem reset_blocksOk (f : Facts) : f.reset.BlocksOk := .inl ⟨rfl, rfl, rfl⟩

theorem reset_dfOk (f : Facts) : f.reset.DfOk := by
  intro h
  exact absurd (UInt16.zero_and) h

theorem describe_dfOk (f : Facts) (exportsize : UInt64) (eflags : UInt16) :
    (f.describe exportsize eflags).DfOk := by
  intro h
  by_contra hs
  exact h (usableFlags_df f eflags (by simpa [Facts.describe] using hs))

variable {h h' : Handle} {rs : List (Option (UInt64 × UInt16))} {inp : Input}

theorem reports_none {ctl : Control} (hd : h.described = none) (hs : h.state ≠ .optStart .go) :
    reports ⟨h, ctl⟩ (.enter inp) = [] := by
  simp [reports, hd, hs]

theorem reports_some {ctl : Control} {d : UInt64 × UInt16} (hd : h.described = some d) :
    lastReport (rs ++ reports ⟨h, ctl⟩ (.enter inp)) = some d := by
  have hs : h.state ≠ .optStart .go := by
    intro hs
    rw [Handle.described, hs] at hd
    cases hd
  simp [reports, hd, hs, lastReport]

theorem reports_start {ctl : Control} (hs : h.state = .optStart .go) :
    lastReport (rs ++ reports ⟨h, ctl⟩ (.enter inp)) = none := by
  simp [reports, hs, lastReport]

/-- **Step.** One case for each kind of revision. -/
theorem Revises.known {ctl : Control} (hr : Revises h h') (hi : Known h rs) :
    Known h' (rs ++ reports ⟨h, ctl⟩ (.enter inp)) := by
  unfold Revises at hr
  generalize hf : h'.facts = f at hr
  generalize hst : h'.state = s at hr
  have hzero : s.stage = 0 → f.BlocksOk → f.DfOk →
      Known h' (rs ++ reports ⟨h, ctl⟩ (.enter inp)) := by
    intro hs hb hdf
    subst hst hf
    exact ⟨hb, hdf, fun h₁ => absurd hs h₁, fun h₁ => absurd (hs.symm.trans h₁) (by decide)⟩
  have hpart : f.BlocksOk → f.DfOk → (s.stage ≠ 0 →
      f.From (lastReport (rs ++ reports ⟨h, ctl⟩ (.enter inp)))) → (s.stage = 2 → f.PayloadOk) →
      Known h' (rs ++ reports ⟨h, ctl⟩ (.enter inp)) := by
    intro h₁ h₂ h₃ h₄
    subst hst hf
    exact ⟨h₁, h₂, h₃, h₄⟩
  cases hr with
  | same s hs =>
    rcases hs with hs | ⟨hs, hd⟩
    · exact hzero hs hi.blocks hi.df
    · by_cases hgo : h.state = .optStart .go
      · exact hzero (by rw [hs, hgo]; rfl) hi.blocks hi.df
      · rw [reports_none hd hgo, List.append_nil] at hpart ⊢
        exact hpart hi.blocks hi.df (fun h₁ => hi.described (hs ▸ h₁)) fun h₁ => hi.payload (hs ▸ h₁)
  | start hs =>
    refine hpart (reset_blocksOk _) (reset_dfOk _) (fun _ => ?_) nofun
    rw [reports_start hs]
    exact ⟨rfl, rfl⟩
  | described exportsize eflags hs hd =>
    refine hpart hi.blocks (describe_dfOk _ _ _) (fun _ => ?_) nofun
    rw [reports_some hd]
    exact ⟨rfl, rfl⟩
  | blocks min pref max hs hd hb =>
    refine hpart (blocksOk_of_good hb) hi.df (fun _ => ?_) nofun
    rw [reports_none hd (by rw [hs]; nofun), List.append_nil]
    exact (hi.described (by rw [hs]; nofun)).of_eq rfl rfl rfl rfl
  | agreed s hs hd =>
    refine hpart hi.blocks hi.df (fun _ => ?_) fun _ => payload_payloadOk _
    rw [reports_none hd (by rw [hs]; nofun), List.append_nil]
    exact (hi.described (by rw [hs]; nofun)).of_eq rfl rfl rfl rfl
  | failed s hs => exact hzero hs (reset_blocksOk _) (reset_dfOk _)
  | named exportsize eflags hs hd =>
    refine hpart hi.blocks (describe_dfOk h.facts exportsize eflags) (fun _ => ?_)
      fun _ => payload_payloadOk _
    rw [reports_some hd]
    exact ⟨rfl, rfl⟩
  | oldstyle exportsize eflags hs hd =>
    refine hpart hi.blocks (describe_dfOk h.facts exportsize eflags) (fun _ => ?_)
      fun _ => payload_payloadOk _
    rw [reports_some hd]
    exact ⟨rfl, rfl⟩
  | plaintext s hs =>
    exact hzero hs (reset_blocksOk h.facts) fun h₁ => absurd UInt16.zero_and h₁
  | tls s hs => exact hzero hs hi.blocks hi.df
  | extended s hs => exact hzero hs hi.blocks fun _ => rfl
  | structured s hs => exact hzero hs hi.blocks fun _ => rfl

theorem CallRevises.known (hr : CallRevises h h') (hi : Known h rs) : Known h' rs := by
  unfold CallRevises at hr
  generalize hf : h'.facts = f at hr
  generalize hst : h'.state = s at hr
  cases hr with
  | same s hs =>
    rcases hs with hs | hs
    · exact ⟨hf ▸ hi.blocks, hf ▸ hi.df, fun h₁ => absurd (hst ▸ hs) h₁, fun h₁ => by
        rw [hst, hs] at h₁
        cases h₁⟩
    · refine ⟨hf ▸ hi.blocks, hf ▸ hi.df, fun h₁ => ?_, fun h₁ => ?_⟩
      · rw [hf]
        exact hi.described (by rwa [← hs, ← hst])
      · rw [hf]
        exact hi.payload (by rwa [← hs, ← hst])
  | renamed hs =>
    refine ⟨hf ▸ reset_blocksOk _, hf ▸ reset_dfOk _, fun h₁ => absurd (hst ▸ hs) h₁, fun h₁ => ?_⟩
    rw [hst, hs] at h₁
    cases h₁

theorem step_known {c c' : Config} {l : Label} (hi : Known c.h rs)
    (hstep : machine.step c l = some c') : (∃ a, c'.ctl = .aborted a) ∨
      Known c'.h (rs ++ reports c l) := by
  have hr := step_revises hstep
  cases l with
  | enter inp =>
    rcases hr with hr | ⟨-, ha⟩
    · exact .inr (hr.known hi)
    · exact .inl ha
  | call api inp =>
    refine .inr ?_
    rw [show reports c (.call api inp) = [] from rfl, List.append_nil]
    exact CallRevises.known hr hi

/-- **Run.** -/
theorem run_known {c₀ c : Config} {ls : List Label} (hi : machine.init c₀)
    (he : machine.exec c₀ ls = some c) : (∃ a, c.ctl = .aborted a) ∨
      Known c.h (machine.collect reports c₀ ls) := by
  obtain ⟨sbuf, rfl⟩ := hi
  have h₀ : (∃ a, (⟨.create sbuf, .idle 0⟩ : Config).ctl = .aborted a) ∨ Known (.create sbuf) [] :=
    .inr ⟨.inl ⟨rfl, rfl, rfl⟩, fun h₁ => absurd UInt16.zero_and h₁, fun h₁ => absurd rfl h₁, nofun⟩
  refine machine.exec_collect (P := fun c rs => (∃ a, c.ctl = .aborted a) ∨ Known c.h rs) ?_ h₀ he
  intro c l c' rs hc hstep
  rcases hc with ⟨a, ha⟩ | hc
  · obtain ⟨h, ctl⟩ := c
    cases ha
    cases l <;> cases hstep
  · exact step_known hc hstep

end Libnbd.Negotiation

namespace Libnbd.Session

open Lib Negotiation

/-! ## The handle in `READY` -/

/-- What an application may rely on once the handle is `READY`: the size and flags
are those of the export description `d`, the getters can be used, and the limits
are sane. -/
structure Negotiated (h : Negotiation.Handle) (d : Option (UInt64 × UInt16)) : Prop where
  described : ∃ exportsize eflags, d = some (exportsize, eflags) ∧ h.exp.exportsize = exportsize ∧
    h.exp.eflags = h.facts.usableFlags eflags
  flags : h.exp.eflags ≠ 0
  payload : h.facts.PayloadOk
  blocks : h.facts.BlocksOk
  df : h.facts.DfOk

/-- The handle is in `READY` or in the transmission phase. -/
def isReady : Session → Bool
  | negotiating c => c.h.state == .ready && match c.ctl with
    | .aborted _ => false
    | _ => true
  | connected _ _ => true

/-- The handle that has come to `READY` has what an application may rely on exactly
if the server described the export in the exchange that led there, with flags that
the client has a use for. -/
theorem ready_negotiated_iff {c₀ : Negotiation.Config} {ls : List Label} {s : Session}
    (hi : Negotiation.machine.init c₀) (he : system.exec (negotiating c₀) ls = some s)
    (hr : s.isReady = true) :
    Negotiated s.handle (lastReport (Negotiation.machine.collect reports c₀ (negotiationOf ls))) ↔
      ∃ exportsize eflags,
        lastReport (Negotiation.machine.collect reports c₀ (negotiationOf ls)) =
          some (exportsize, eflags) ∧ s.handle.facts.usableFlags eflags ≠ 0 := by
  obtain ⟨ctl, hx, hneg, hcon⟩ := exec_negotiation ⟨c₀, [], hi, rfl⟩ he
  have hstate : s.handle.state = .ready ∧ ∀ a, ctl ≠ .aborted a := by
    cases s with
    | negotiating c =>
      simp only [isReady, Bool.and_eq_true, beq_iff_eq] at hr
      refine ⟨hr.1, ?_⟩
      rintro a rfl
      have hctl := hneg c rfl
      rw [← hctl] at hr
      cases hr.2
    | connected n c =>
      obtain ⟨hst, keep, rfl⟩ := hcon n c rfl
      exact ⟨hst, nofun⟩
  have hk : Known s.handle (Negotiation.machine.collect reports c₀ (negotiationOf ls)) :=
    (run_known hi hx).resolve_left fun ⟨a, ha⟩ => hstate.2 a ha
  have hstage : s.handle.state.stage = 2 := by rw [hstate.1]; rfl
  have hfrom := hk.described (by rw [hstage]; nofun)
  constructor
  · intro hn
    obtain ⟨exportsize, eflags, hd, -, hu⟩ := hn.described
    exact ⟨exportsize, eflags, hd, hu ▸ hn.flags⟩
  · rintro ⟨exportsize, eflags, hd, hu⟩
    rw [hd] at hfrom ⊢
    have hflags : s.handle.exp.eflags = s.handle.facts.usableFlags eflags := hfrom.2
    exact ⟨⟨exportsize, eflags, rfl, hfrom.1, hflags⟩, hflags ▸ hu, hk.payload hstage, hk.blocks, hk.df⟩

/-- Connect, and let GO be agreed to after an export of 4096 bytes was described. -/
def goDescribed : List Label :=
  (Negotiation.connectOptMode ++ Negotiation.goOn).map Label.negotiate ++
    [Label.handover false ⟨0, true, fun _ => 0, fun _ => 0, fun _ => 0⟩]

theorem ready_negotiated_described :
    ∃ s, system.exec (.negotiating .created) goDescribed = some s ∧ s.isReady = true ∧
      Negotiated s.handle (some (4096, 1)) := by
  have hrun : (system.exec (.negotiating .created) goDescribed).map (fun s =>
      (s.isReady, s.handle.facts.usableFlags 1)) = some (true, 1) := by decide +kernel
  have hrep : lastReport (Negotiation.machine.collect reports .created (negotiationOf goDescribed)) =
      some (4096, 1) := by decide +kernel
  obtain ⟨s, hs, hp⟩ := Option.map_eq_some_iff.mp hrun
  simp only [Prod.mk.injEq] at hp
  refine ⟨s, hs, hp.1, ?_⟩
  have hn := (ready_negotiated_iff Negotiation.Config.initial_created hs hp.1).mpr
    ⟨4096, 1, hrep, by rw [hp.2]; decide⟩
  rwa [hrep] at hn

/-- Connect, and let GO be agreed to without any description. -/
def goUndescribed : List Label :=
  (Negotiation.connectOptMode ++ [Negotiation.Label.call (.aioOptGo .null) .calm] ++
    List.replicate 8 (Negotiation.Label.enter .calm) ++ Negotiation.exchange .go repAck [] ++
    [Negotiation.Label.enter .calm]).map Label.negotiate ++
    [Label.handover false ⟨0, true, fun _ => 0, fun _ => 0, fun _ => 0⟩]

/-- Such a handle is `READY` with nothing known about the export. -/
theorem ready_without_description :
    ¬ ∀ (ls : List Label) (s : Session), system.exec (.negotiating .created) ls = some s →
      s.isReady = true → Negotiated s.handle
        (lastReport (Negotiation.machine.collect reports .created (negotiationOf ls))) := by
  intro hall
  have hrun : (system.exec (.negotiating .created) goUndescribed).map (fun s =>
      (s.isReady, s.handle.exp.eflags)) = some (true, 0) := by decide +kernel
  obtain ⟨s, hs, hp⟩ := Option.map_eq_some_iff.mp hrun
  simp only [Prod.mk.injEq] at hp
  exact (hall _ s hs hp.1).flags hp.2

end Libnbd.Session
