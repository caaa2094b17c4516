import Libnbd.Agreement

/-!
Synchronisation with the reply stream.

Between the header of a chunk and the next reply header the machine has to
consume as many bytes as the header announced. What it is going to read is
`owed`, and every step of a chunk that is paused, resumed, skipped or handled
pays what it owed (`Post.paid`). So the only question is whether the amount
owed at `CHUNK_REPLY.START` is the length of the header: it is zero for every
chunk that jumps to `resync` before `payload_left` is set.
-/

namespace Libnbd

open Lib

/-- A reply whose header is complete is being handled. -/
def InReply (h : Handle) : Prop := h.alive ∧ h.logical.isMid = true

/-- From `c` on, until the reply is over, `n` bytes are consumed, unless the
handle becomes `DEAD`. -/
def Consumes (c : Config) (n : Nat) : Prop :=
  ∀ ls c', machine.Meets (fun c _ => InReply c.h) c ls → machine.exec c ls = some c' →
    ¬ InReply c'.h → c'.h.state ≠ .dead → c'.h.bytesReceived = c.h.bytesReceived + n

/-- The chunk is for a command in flight and gets as far as the `switch` on its
type. -/
def chunkLookedAt (h : Handle) : Bool :=
  match h.replyRef with
  | .live cmd => chunkExpected h cmd
  | _ => false

/-- The chunk is too long, or empty, or looked at, or `FINISH_COMMAND` is going
to fail its assertion. -/
def ChunkInSync (h : Handle) : Prop :=
  maxRequestSize + 8 < h.replyLength ∨ h.replyLength = 0 ∨ chunkLookedAt h = true ∨
    (h.rx.replyCmd = none ∧ h.lookupReply ≠ none)

instance (h : Handle) : Decidable (ChunkInSync h) :=
  inferInstanceAs (Decidable (_ ∨ _ ∨ _ ∨ _))

instance (h : Handle) : Decidable (InReply h) :=
  inferInstanceAs (Decidable ((_ ∧ _) ∧ _))

/-! ## A chunk pays what it owes -/

theorem owed_of_not_isMid {h : Handle} {s : State} (hs : s.isMid = false) : owed h s = 0 := by
  cases s <;> first | exact (Bool.false_ne_true hs.symm).elim | rfl

theorem owed_keep {h h' : Handle} {s : State} (hs : s.isPayload = true) (hrx : h'.rx = h.rx) :
    owed h' s = owed h s := by
  have hty : h'.replyType = h.replyType := by rw [Handle.replyType, hrx]; rfl
  cases s <;> first
    | exact (Bool.false_ne_true hs).elim
    | simp only [owed, hrx, hty]

/-- Inside the chunk, `n` bytes after the start of the stream are accounted for. -/
structure Paying (n : Nat) (h : Handle) : Prop where
  notClosed : h.state ≠ .closed
  sum : h.alive → h.bytesReceived + owed h h.logical = n
  where_ : h.alive → h.logical.isMid = true →
    h.logical.isChunk = true ∨ h.logical = .replyFinishCommand

theorem RxInv.isPayload_of_mid {h : Handle} (hr : RxInv h) (hm : h.logical.isMid = true)
    (hs : h.state.isMid = false) : h.rx.replyState.isPayload = true := by
  refine (hr.saved fun he => ?_).1
  rw [Handle.logical_of_not_isMid hs, he] at hm
  cases hm

/-- A step that leaves a paused chunk alone. -/
theorem Paying.keep {n : Nat} {h h' : Handle} (hp : Paying n h) (hr : RxInv h) (hin : InReply h)
    (hs : h.state.isMid = false) (hs' : h'.state.isMid = false) (hc : h'.state ≠ .closed)
    (hrx : h'.rx = h.rx) (hb : h'.bytesReceived = h.bytesReceived) : Paying n h' := by
  have hpay := hr.isPayload_of_mid hin.2 hs
  have hlog : h'.logical = h.logical := by
    rw [Handle.logical_of_not_isMid hs, Handle.logical_of_not_isMid hs', hrx]
  refine ⟨hc, fun _ => ?_, fun _ _ => ?_⟩
  · rw [hlog, hb]
    rw [Handle.logical_of_not_isMid hs, owed_keep hpay hrx]
    rw [← Handle.logical_of_not_isMid hs]
    exact hp.sum hin.1
  · rw [hlog]
    exact hp.where_ hin.1 hin.2

theorem enter_paying (inp : Input) {n : Nat} {h : Handle} (hp : Paying n h) (hr : RxInv h)
    (hin : InReply h) (hinv : h.book.Inv) (ht : Tails h) : (enter inp h).All (Paying n) := by
  rcases h.state.kinds with hs | hs | hs | hs | hs
  · have hnf : h.logical ≠ .replyFinishCommand := by
      intro hf
      by_cases hm : h.state.isMid = true
      · rw [Handle.logical_of_isMid hm] at hf
        rw [hf] at hs
        cases hs
      · have := hr.isPayload_of_mid hin.2 (by simpa using hm)
        rw [← Handle.logical_of_not_isMid (h := h) (by simpa using hm), hf] at this
        cases this
    have hch := (hp.where_ hin.1 hin.2).resolve_right hnf
    refine (enter_post inp hr hs).mono fun h' hpost => ⟨hpost.notClosed hin.2, fun ha => ?_,
      fun ha hm => ?_⟩
    · rw [hpost.paid hch ha]
      exact hp.sum hin.1
    · rcases hpost.stays hch ha with h₁ | h₁ | h₁
      · exact .inl h₁
      · exact .inr h₁
      · rw [h₁] at hm
        cases hm
  · have hb : h.state.isMid = false := by
      cases hst : h.state <;> simp_all [State.isSending, State.isMid]
    refine (enter_sends inp hs).mono fun h' hq => ?_
    refine hp.keep hr hin hb (not_isMid_of_not_isBusy hq.busy) hq.notClosed ?_ ?_
    · rw [hq.eq]
    · rw [hq.eq]
  · simp only [enter, hs, enterIssueFinish]
    apply require_all
    intro _
    split
    · trivial
    · apply require_all
      intro _
      exact hp.keep hr hin (by rw [hs]; rfl) rfl (by simp) rfl rfl
  · have hat := hr.at (by rw [hs]; rfl)
    rw [hs] at hat
    simp only [enter, hs]
    refine (finishCommand_rx inp hinv ht hat).mono fun h' hq => ?_
    obtain ⟨-, hlog, ha, hb⟩ := hq
    refine ⟨ha.2, fun _ => ?_, fun _ hm => ?_⟩
    · have := hp.sum hin.1
      rw [hat.logical rfl] at this
      rw [hlog, hb]
      exact this
    · rw [hlog] at hm
      cases hm
  · obtain ⟨h₁, h₂⟩ := hin.1
    tauto

theorem step_paying {n : Nat} {c c' : Config} {l : Label} (hg : Good c) (hp : Paying n c.h)
    (hin : InReply c.h) (h : step c l = some c') : Paying n c'.h := by
  obtain ⟨inp, k, -, -, rfl⟩ | ⟨api, inp, r, rfl, hctl, rfl⟩ := step_cases h
  · exact stepEnter_all k (enter_paying inp hp hg.rx hin hg.sound.inv hg.sound.tails) hp
      fun _ _ hq => ⟨hq.notClosed, hq.sum, hq.where_⟩
  · have hb := hg.between r hctl
    have hm := not_isMid_of_not_isBusy hb
    by_cases hclose : api = .close
    · subst hclose
      exact hp.keep hg.rx hin hm hm hin.1.2 rfl rfl
    · have hf := apiCall_frame inp { c.h with lastError := inp.lastError } api hclose
      refine hp.keep hg.rx hin hm (not_isMid_of_not_isBusy (hf.busy hb)) ?_ hf.rx hf.bytesReceived
      rcases hf.state with hs | ⟨ev, hs⟩
      · rw [hs]
        exact hin.1.2
      · intro hcl
        rw [hcl] at hs
        cases ev <;> cases hst : c.h.state <;> simp [externalEvent, hst] at hs

/-- A chunk that owes `n` bytes consumes `n` bytes. -/
theorem consumes_of_owed {c : Config} (hg : Good c) (hs : c.h.state = .chunkStart) {n : Nat}
    (ho : owed c.h .chunkStart = n) : Consumes c n := by
  have hlog : c.h.logical = .chunkStart := by
    rw [Handle.logical_of_isMid (by rw [hs]; rfl), hs]
  have hstart : Paying (c.h.bytesReceived + n) c.h := by
    refine ⟨by rw [hs]; exact nofun, fun _ => ?_, fun _ _ => ?_⟩
    · rw [hlog, ho]
    · rw [hlog]
      exact .inl rfl
  intro ls c' hm he hout hd
  obtain ⟨hpay, -⟩ : Paying (c.h.bytesReceived + n) c'.h ∧ (c'.ctl = .closed ∨ Good c') := by
    refine machine.exec_invariant
      (P := fun c' => Paying (c.h.bytesReceived + n) c'.h ∧ (c'.ctl = .closed ∨ Good c'))
      ?_ ⟨hstart, .inr hg⟩ hm he
    intro d l d' hd hin hstep
    rcases hd with ⟨hpay, hd | hd⟩
    · cases l <;> simp [machine, step, hd] at hstep
    · exact ⟨step_paying hd hpay hin hstep, step_good hd hstep⟩
  have ha : c'.h.alive := ⟨hd, hpay.notClosed⟩
  have hnm : c'.h.logical.isMid = false := by
    by_contra hne
    exact hout ⟨ha, by simpa using hne⟩
  have := hpay.sum ha
  rwa [owed_of_not_isMid hnm] at this

theorem replyRef_null {h : Handle} (hr : h.replyRef = .null) : h.rx.replyCmd = none := by
  unfold Handle.replyRef at hr
  split at hr
  · assumption
  · split at hr <;> cases hr

theorem replyRef_ne_dangling {h : Handle} (hr : RxInv h) (ha : h.alive) :
    h.replyRef ≠ .dangling := by
  intro hd
  unfold Handle.replyRef at hd
  split at hd
  · cases hd
  · rename_i k hk
    split at hd
    · rename_i hf
      exact absurd ((hr.cmd ha).inFlight k hk).2 (findCmd_eq_none.mp hf)
    · cases hd

/-! ## A chunk that is skipped before its length is noted -/

/-- The reply can end without a byte being received. -/
def EndsForFree (c : Config) : Prop :=
  ∃ ls c', machine.Meets (fun c _ => InReply c.h) c ls ∧ machine.exec c ls = some c' ∧
    ¬ InReply c'.h ∧ c'.h.state ≠ .dead ∧ c'.h.bytesReceived = c.h.bytesReceived

theorem EndsForFree.not_consumes {c : Config} (he : EndsForFree c) {n : Nat} (hn : n ≠ 0) :
    ¬ Consumes c n := by
  intro hc
  obtain ⟨ls, c', hm, hx, hout, hd, hb⟩ := he
  have := hc ls c' hm hx hout hd
  omega

theorem EndsForFree.of_enter {h h' : Handle} {k : After} (hin : InReply h)
    (hx : enter .calm h = .next h') (hb : h'.bytesReceived = h.bytesReceived)
    (he : EndsForFree ⟨h', .running k⟩) : EndsForFree ⟨h, .running k⟩ := by
  obtain ⟨ls, c', hm, hrun, hout, hd, hb'⟩ := he
  have hstep : machine.step ⟨h, .running k⟩ (.enter .calm) = some ⟨h', .running k⟩ := by
    simp only [machine, step, stepEnter, hx]
  refine ⟨.enter .calm :: ls, c', ⟨hin, fun s hs => ?_⟩, ?_, hout, hd, hb'.trans hb⟩
  · rw [hstep] at hs
    cases hs
    exact hm
  · rw [machine.exec_cons, hstep]
    exact hrun

theorem Good.enter {h h' : Handle} {k : After} (hg : Good ⟨h, .running k⟩) {inp : Input}
    (hx : Libnbd.enter inp h = .next h') : Good ⟨h', .running k⟩ := by
  have hstep : step ⟨h, .running k⟩ (.enter inp) = some ⟨h', .running k⟩ := by
    simp only [step, stepEnter, hx]
  exact (step_good hg hstep).resolve_left (by simp)

theorem inReply_of_isMid {h : Handle} (hm : h.state.isMid = true) : InReply h :=
  ⟨alive_of_isMid hm, by rwa [Handle.logical_of_isMid hm]⟩

theorem not_inReply {h : Handle} (hs : h.logical = .start) : ¬ InReply h := by
  rintro ⟨-, hm⟩
  rw [hs] at hm
  cases hm

theorem endsForFree_finishCommand {h : Handle} {k : After} (hg : Good ⟨h, .running k⟩)
    (hs : h.state = .replyFinishCommand) (hlook : h.rx.replyCmd = h.lookupReply) :
    EndsForFree ⟨h, .running k⟩ := by
  have hmid : h.state.isMid = true := by rw [hs]; rfl
  have hat := hg.rx.at hmid
  simp only [hs] at hat
  obtain ⟨h', hx, -⟩ := finishCommand_next .calm hg.sound.inv hg.sound.tails (alive_of_isMid hmid)
    hg.slack hlook
  have hrx := finishCommand_rx .calm hg.sound.inv hg.sound.tails hat
  rw [hx] at hrx
  obtain ⟨-, hlog, ha, hb⟩ := hrx
  have hx' : enter .calm h = .next h' := by
    simp only [enter, hs]
    exact hx
  exact .of_enter (inReply_of_isMid hmid) hx' hb
    ⟨[], _, trivial, rfl, not_inReply hlog, ha.1, rfl⟩

theorem endsForFree_chunkFinish {h : Handle} {k : After} (hg : Good ⟨h, .running k⟩)
    (hs : h.state = .chunkFinish) {n : Nat} (hn : h.rx.replyCmd = some n) :
    EndsForFree ⟨h, .running k⟩ := by
  have hmid : h.state.isMid = true := by rw [hs]; rfl
  have hat := hg.rx.at hmid
  simp only [hs] at hat
  have hx : enter .calm h = if h.replyFlags &&& replyFlagDone ≠ 0 then goto .replyFinishCommand h
      else goto .ready { h with rx := { h.rx with replyCmd := none } } := by
    have hz : (h.rx.payloadLeft == 0) = true := beq_iff_eq.mpr hat.layout.1
    simp only [enter, hs, enterChunkFinish, require, hz, if_true]
  by_cases hdone : h.replyFlags &&& replyFlagDone ≠ 0
  · rw [if_pos hdone] at hx
    have hlook := (hg.rx.lookup_some (alive_of_isMid hmid) hn).symm
    exact .of_enter (inReply_of_isMid hmid) hx rfl
      (endsForFree_finishCommand (hg.enter hx) rfl (hn.trans hlook))
  · rw [if_neg hdone] at hx
    exact .of_enter (inReply_of_isMid hmid) hx rfl ⟨[], _, trivial, rfl, not_inReply hat.replyState,
      (by simp), rfl⟩

/-- `RESYNC` with nothing to skip. -/
theorem enter_resync_empty (inp : Input) {h : Handle} (hs : h.state = .chunkResync)
    (hb : h.rx.rbuf = .null) (hz : h.rx.rlen = 0) : enter inp h = resyncDone h := by
  simp [enter, hs, enterChunkResync, require, hb, recvThen, recvIntoRbuf, hz]

theorem endsForFree_resync {h : Handle} {k : After} (hg : Good ⟨h, .running k⟩)
    (hs : h.state = .chunkResync) (hz : h.rx.rlen = 0)
    (hlook : h.rx.replyCmd = none → h.lookupReply = none) : EndsForFree ⟨h, .running k⟩ := by
  have hmid : h.state.isMid = true := by rw [hs]; rfl
  have hat := hg.rx.at hmid
  simp only [hs] at hat
  have hx := enter_resync_empty .calm hs hat.layout.2 hz
  unfold resyncDone at hx
  cases href : h.replyRef with
  | dangling => exact absurd href (replyRef_ne_dangling hg.rx (alive_of_isMid hmid))
  | null =>
    simp only [href] at hx
    have hnone := replyRef_null href
    exact .of_enter (inReply_of_isMid hmid) hx rfl
      (endsForFree_finishCommand (hg.enter hx) rfl (hnone.trans (hlook hnone).symm))
  | live cmd =>
    simp only [href] at hx
    exact .of_enter (inReply_of_isMid hmid) hx rfl
      (endsForFree_chunkFinish (hg.enter hx) rfl (replyRef_live href).1)

theorem endsForFree_of_not_inSync {h : Handle} {k : After} (hg : Good ⟨h, .running k⟩)
    (hs : h.state = .chunkStart) (hsync : ¬ ChunkInSync h) : EndsForFree ⟨h, .running k⟩ := by
  have hmid : h.state.isMid = true := by rw [hs]; rfl
  have hat := hg.rx.at hmid
  simp only [hs] at hat
  simp only [ChunkInSync, not_or, not_and] at hsync
  obtain ⟨hmax, -, hexp, hlook⟩ := hsync
  have hx : enter .calm h = resync h := by
    simp only [enter, hs, enterChunkStart, if_neg hmax]
    cases href : h.replyRef with
    | dangling => exact absurd href (replyRef_ne_dangling hg.rx (alive_of_isMid hmid))
    | null => rfl
    | live cmd =>
      simp only [chunkLookedAt, href] at hexp
      simp [hexp]
  refine .of_enter (inReply_of_isMid hmid) hx rfl
    (endsForFree_resync (hg.enter hx) rfl hat.layout.1 fun hn => ?_)
  by_contra hne
  exact hlook hn hne

/-! ## Chunks that never end -/

theorem consumes_of_tooLong {h : Handle} {k : After} (hs : h.state = .chunkStart)
    (hmax : maxRequestSize + 8 < h.replyLength) (n : Nat) : Consumes ⟨h, .running k⟩ n := by
  intro ls c' hm he hout hd
  cases ls with
  | nil =>
    cases he
    exact absurd (inReply_of_isMid (by rw [hs]; rfl)) hout
  | cons l ls =>
    obtain ⟨c₁, hstep, hrest⟩ := Option.bind_eq_some_iff.mp he
    have hdead : c₁.h.state = .dead := by
      obtain ⟨inp, k', -, -, rfl⟩ | ⟨api, inp, r, rfl, hctl, rfl⟩ :=
        step_cases (c := ⟨h, .running k⟩) hstep
      · simp only [stepEnter, enter, hs, enterChunkStart, if_pos hmax]
        rfl
      · cases hctl
    cases ls with
    | nil =>
      cases hrest
      exact absurd hdead hd
    | cons l' ls => exact absurd hdead (hm.2 c₁ hstep).1.1.1

/-- The reply is going to fail the assertion of `FINISH_COMMAND`: no command was
found, but by now there is one. -/
structure Doomed (c : Config) : Prop where
  ctl : ∀ r, c.ctl ≠ .idle r
  cmd : c.h.rx.replyCmd = none
  lookup : c.h.lookupReply ≠ none
  at_ : (c.h.state = .chunkStart ∧ c.h.replyLength ≤ maxRequestSize + 8 ∧ c.h.rx.payloadLeft = 0) ∨
    (c.h.state = .chunkResync ∧ c.h.rx.rbuf = .null ∧ c.h.rx.rlen = 0) ∨
    c.h.state = .replyFinishCommand

theorem step_doomed {c c' : Config} {l : Label} (hc : Doomed c) (h : step c l = some c') :
    Doomed c' := by
  have href : c.h.replyRef = .null := by
    unfold Handle.replyRef
    rw [hc.cmd]
  obtain ⟨inp, k, -, -, rfl⟩ | ⟨api, inp, r, rfl, hctl, rfl⟩ := step_cases h
  · rcases hc.at_ with ⟨hs, hmax, hz⟩ | ⟨hs, hb, hz⟩ | hs
    · have hx : enter inp c.h = resync c.h := by
        simp only [enter, hs, enterChunkStart, href, if_neg (Nat.not_lt.mpr hmax)]
      simp only [stepEnter, hx, resync, goto]
      exact ⟨(by simp), hc.cmd, hc.lookup, .inr (.inl ⟨rfl, rfl, hz⟩)⟩
    · have hx := enter_resync_empty inp hs hb hz
      simp only [resyncDone, href] at hx
      simp only [stepEnter, hx, goto]
      exact ⟨(by simp), hc.cmd, hc.lookup, .inr (.inr rfl)⟩
    · have hne : (c.h.rx.replyCmd == c.h.lookupReply) = false := by
        rw [hc.cmd]
        exact beq_eq_false_iff_ne.mpr hc.lookup.symm
      have hx : enter inp c.h = .abort .finishLookup := by
        simp [enter, hs, enterReplyFinishCommand, require, hne]
      simp only [stepEnter, hx]
      exact ⟨(by simp), hc.cmd, hc.lookup, .inr (.inr hs)⟩
  · exact absurd hctl (hc.ctl r)

theorem Doomed.inReply {c : Config} (hc : Doomed c) : InReply c.h := by
  refine inReply_of_isMid ?_
  rcases hc.at_ with ⟨hs, -⟩ | ⟨hs, -⟩ | hs <;> rw [hs] <;> rfl

theorem Doomed.consumes {c : Config} (hc : Doomed c) (n : Nat) : Consumes c n := by
  intro ls c' hm he hout _
  have := machine.exec_invariant (P := Doomed) (fun _ _ _ hc _ hstep => step_doomed hc hstep)
    hc hm he
  exact absurd this.inReply hout

/-- **Stream synchronisation.** In every reachable state, a chunk whose header
has been read consumes the length in its header (or kills the connection) if
and only if it is too long, empty or looked at, or ends in a failed assertion. -/
theorem chunk_consumes_length_iff {c : Config} {k : After} (h : machine.Reachable c)
    (hrun : c.ctl = .running k) (hs : c.h.state = .chunkStart) :
    Consumes c c.h.replyLength ↔ ChunkInSync c.h := by
  obtain ⟨h₀, ctl⟩ := c
  simp only at hrun hs ⊢
  subst hrun
  have hg := (reachable_good h).resolve_left (by simp)
  have hat := hg.rx.at (h := h₀) (by rw [hs]; rfl)
  rw [hs] at hat
  constructor
  · intro hc
    by_contra hsync
    refine (endsForFree_of_not_inSync hg hs hsync).not_consumes ?_ hc
    intro hz
    exact hsync (.inr (.inl hz))
  · rintro (hmax | hz | hexp | ⟨hcmd, hlook⟩)
    · exact consumes_of_tooLong hs hmax _
    · refine consumes_of_owed hg hs ?_
      rw [hz]
      simp only [owed]
      split
      · split
        · exact hz
        · exact hat.layout.1
      · exact hat.layout.1
    · refine consumes_of_owed hg hs ?_
      unfold chunkLookedAt at hexp
      split at hexp
      · rename_i cmd href
        simp only [owed, href, hexp, if_true]
      · cases hexp
    · by_cases hmax : maxRequestSize + 8 < h₀.replyLength
      · exact consumes_of_tooLong hs hmax _
      · have hdoomed : Doomed ⟨h₀, .running k⟩ :=
          ⟨(by simp), hcmd, hlook, .inl ⟨hs, Nat.not_lt.mp hmax, hat.layout.1⟩⟩
        exact hdoomed.consumes _

/-- A read of eight bytes and the header of its data chunk. -/
def dataChunk : List Label :=
  Label.call (.command (.aioPread 4096 8 0 .null 0)) .calm :: List.replicate 5 (.enter .calm) ++
  [Label.call .aioNotifyRead .calm,
   .enter { Input.calm with
     recv := .data [0x66, 0x8e, 0x33, 0xef, 0, 1, 0, 1, 0, 0, 0, 0, 0, 0, 0, 1] },
   .enter .calm, .enter .calm,
   .enter { Input.calm with recv := .data [0, 0, 0, 16] }]

theorem data_chunk_consumes :
    ∃ c, machine.exec (.ofExport .structured) dataChunk = some c ∧ c.h.state = .chunkStart ∧
      Consumes c 16 := by
  have hrun : (machine.exec (.ofExport .structured) dataChunk).map (fun c =>
      (c.ctl, c.h.state, c.h.replyLength, decide (ChunkInSync c.h))) =
      some (.running .notify, .chunkStart, 16, true) := by decide +kernel
  obtain ⟨c, hc, hp⟩ := Option.map_eq_some_iff.mp hrun
  simp only [Prod.mk.injEq, decide_eq_true_eq] at hp
  obtain ⟨hctl, hs, hlen, hsync⟩ := hp
  have := (chunk_consumes_length_iff ⟨_, _, Config.initial_ofExport _, hc⟩ hctl hs).mpr hsync
  exact ⟨c, hc, hs, by rwa [hlen] at this⟩

/-- The header of a chunk of eight bytes for a cookie that was never used. -/
def strayChunk : List Label :=
  [.call .aioNotifyRead .calm,
   .enter { Input.calm with
     recv := .data [0x66, 0x8e, 0x33, 0xef, 0, 1, 0, 0, 0, 0, 0, 0, 0, 0, 0, 99] },
   .enter .calm, .enter .calm,
   .enter { Input.calm with recv := .data [0, 0, 0, 8] }]

/-- The payload of the stray chunk is left in the stream. -/
theorem stray_chunk_left_in_stream :
    ¬ ∀ c k, machine.Reachable c → c.ctl = .running k → c.h.state = .chunkStart →
      Consumes c c.h.replyLength := by
  intro hall
  have hrun : (machine.exec (.ofExport .structured) strayChunk).map (fun c =>
      ((c.ctl, c.h.state, c.h.replyLength, c.h.bytesReceived),
        machine.check (fun c _ => decide (InReply c.h)) c (List.replicate 3 (.enter .calm)),
        (machine.exec c (List.replicate 3 (.enter .calm))).map fun c' =>
          (c'.h.bytesReceived, c'.h.state, decide (InReply c'.h)))) =
      some ((.running .notify, .chunkStart, 8, 20), true, some (20, .ready, false)) := by
    decide +kernel
  obtain ⟨c, hc, hp⟩ := Option.map_eq_some_iff.mp hrun
  simp only [Prod.mk.injEq] at hp
  obtain ⟨⟨hctl, hs, hlen, hb⟩, hmeets, hend⟩ := hp
  obtain ⟨c', hc', hp'⟩ := Option.map_eq_some_iff.mp hend
  simp only [Prod.mk.injEq, decide_eq_false_iff_not] at hp'
  have := hall c .notify ⟨_, _, Config.initial_ofExport _, hc⟩ hctl hs _ c'
    (machine.meets_of_check hmeets) hc' hp'.2.2 (by rw [hp'.2.1]; exact nofun)
  omega

end Libnbd
