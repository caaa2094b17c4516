import Libnbd.Reachable

/-!
Where replies to reads are stored.

`structured_reply_in_bounds` compares wrapping 64 bit sums. `inBounds_iff`
restates it over the natural numbers and `contained_iff` says for which commands
it only accepts chunks inside the command: the sum `offset + length` of a chunk
wraps for the last 4 GiB of the address space. Every store of the reply engine
goes through this check, or is a simple reply to the whole command.
-/

namespace Libnbd

open Lib

/-! ## The bounds check -/

/-- The check of `structured_reply_in_bounds`, over the natural numbers. -/
theorem inBounds_iff (offset : UInt64) (length : UInt32) (cmd : Command) :
    structuredReplyInBounds offset length cmd = true ↔
      cmd.offset.toNat ≤ offset.toNat ∧
        offset.toNat < (cmd.offset.toNat + cmd.count.toNat) % 2 ^ 64 ∧
        (offset.toNat + length.toNat) % 2 ^ 64 ≤ (cmd.offset.toNat + cmd.count.toNat) % 2 ^ 64 := by
  have hlen : length.toUInt64.toNat = length.toNat := UInt32.toNat_toUInt64 length
  simp only [structuredReplyInBounds, Bool.not_eq_true', Bool.or_eq_false_iff, decide_eq_false_iff_not,
    UInt64.lt_iff_toNat_lt, UInt64.le_iff_toNat_le, UInt64.toNat_add, hlen, Nat.not_lt, Nat.not_le,
    and_assoc]

/-- The check accepts only chunks inside the command. -/
def Command.Contained (cmd : Command) : Prop :=
  ∀ offset length, structuredReplyInBounds offset length cmd = true →
    cmd.offset.toNat ≤ offset.toNat ∧
      offset.toNat + length.toNat ≤ cmd.offset.toNat + cmd.count.toNat

/-- The command is empty, ends before the last 4 GiB of the 64 bit address
space, or ends behind it. -/
def Command.ClearOfEnd (cmd : Command) : Prop :=
  cmd.count = 0 ∨ cmd.offset.toNat + cmd.count.toNat ≤ 2 ^ 64 - 2 ^ 32 + 1 ∨
    2 ^ 64 ≤ cmd.offset.toNat + cmd.count.toNat

instance (cmd : Command) : Decidable cmd.ClearOfEnd :=
  inferInstanceAs (Decidable (_ ∨ _ ∨ _))

theorem contained_of_clearOfEnd {cmd : Command} (h : cmd.ClearOfEnd) : cmd.Contained := by
  intro offset length hin
  obtain ⟨h₁, h₂, h₃⟩ := (inBounds_iff offset length cmd).mp hin
  refine ⟨h₁, ?_⟩
  have hoff := cmd.offset.toNat_lt
  have hcount := cmd.count.toNat_lt
  have hlen := length.toNat_lt
  rcases h with hz | hlow | hhigh
  · -- nothing lies between the offset and itself
    have hz' : cmd.count.toNat = 0 := by rw [hz]; rfl
    rw [hz', Nat.add_zero, Nat.mod_eq_of_lt hoff] at h₂
    omega
  · -- neither sum wraps
    rw [Nat.mod_eq_of_lt (a := cmd.offset.toNat + cmd.count.toNat) (by omega)] at h₂ h₃
    rw [Nat.mod_eq_of_lt (by omega)] at h₃
    exact h₃
  · -- the end of the command wraps to before its start
    have hwrap : (cmd.offset.toNat + cmd.count.toNat) % 2 ^ 64 =
        cmd.offset.toNat + cmd.count.toNat - 2 ^ 64 := by omega
    omega

/-- The check fails for a one byte chunk at the end of the command, if its
length is large enough to wrap. -/
theorem not_contained {cmd : Command} (h : ¬ cmd.ClearOfEnd) : ¬ cmd.Contained := by
  simp only [Command.ClearOfEnd, not_or, Nat.not_le] at h
  obtain ⟨hne, hlow, hhigh⟩ := h
  have hpos : 0 < cmd.count.toNat := by
    rcases Nat.eq_zero_or_pos cmd.count.toNat with hz | hp
    · exact absurd (UInt64.toNat_inj.mp hz) hne
    · exact hp
  have hcount := cmd.count.toNat_lt
  intro hc
  have hlast : (UInt64.ofNat (cmd.offset.toNat + cmd.count.toNat - 1)).toNat =
      cmd.offset.toNat + cmd.count.toNat - 1 := UInt64.toNat_ofNat_of_lt' (by simp [UInt64.size]; omega)
  have hlong : (0xffffffff : UInt32).toNat = 2 ^ 32 - 1 := rfl
  have hin : structuredReplyInBounds (UInt64.ofNat (cmd.offset.toNat + cmd.count.toNat - 1))
      0xffffffff cmd = true := by
    rw [inBounds_iff, hlast, hlong]
    omega
  obtain ⟨-, h₂⟩ := hc _ _ hin
  rw [hlast, hlong] at h₂
  omega

theorem contained_iff (cmd : Command) : cmd.Contained ↔ cmd.ClearOfEnd :=
  ⟨fun hc => by_contra fun h => not_contained h hc, contained_of_clearOfEnd⟩

/-! ## One step -/

/-- The stored range is in the buffer of the command. -/
def Store.Within (st : Store) (cmd : Command) : Prop :=
  cmd.buf ≤ st.addr ∧ st.addr + st.len ≤ cmd.buf + cmd.count.toNat

/-- The store is for a read in flight. -/
def ForRead (cmds : List Command) (st : Store) : Prop :=
  ∃ cmd ∈ cmds, cmd.type = .read ∧ st.cookie = some cmd.cookie ∧ (cmd.Contained → st.Within cmd)

/-- What a step stores is for reads in flight. -/
def Fills (h h' : Handle) : Prop :=
  ∃ new, h'.stores = h.stores ++ new ∧ ∀ st ∈ new, ForRead h.q.cmdsInFlight st

theorem Fills.of_eq {h h' : Handle} (he : h'.stores = h.stores) : Fills h h' :=
  ⟨[], by rw [he, List.append_nil], by simp⟩

theorem Fills.trans {h h₁ h₂ : Handle} (h₁₂ : Fills h h₁) (hq : h₁.q = h.q)
    (h₂₃ : Fills h₁ h₂) : Fills h h₂ := by
  obtain ⟨n₁, e₁, f₁⟩ := h₁₂
  obtain ⟨n₂, e₂, f₂⟩ := h₂₃
  refine ⟨n₁ ++ n₂, by rw [e₂, e₁, List.append_assoc], fun st hst => ?_⟩
  rcases List.mem_append.mp hst with hst | hst
  · exact f₁ st hst
  · have := f₂ st hst
    rwa [hq] at this

/-- A chunk accepted by the check ends inside the buffer. -/
theorem chunk_within {cmd : Command} {offset : UInt64} {length : UInt32}
    (hin : structuredReplyInBounds offset length cmd = true) (hc : cmd.Contained) :
    (offset - cmd.offset).toNat + length.toNat ≤ cmd.count.toNat := by
  obtain ⟨h₁, h₂⟩ := hc offset length hin
  rw [UInt64.toNat_sub_of_le _ _ (UInt64.le_iff_toNat_le.mpr h₁)]
  omega

/-- Payload states receive into the caller's memory only for reads. -/
theorem received_fills {s : State} {h h' : Handle} (hl : Layout h s) (hs : s.isPayload = true)
    (hr : Received h h') : Fills h h' := by
  cases hr with
  | nothing => exact .of_eq rfl
  | data bs hne hle =>
    have hnew : (h.store bs).stores = h.stores ++ h.rx.rbuf.storeRange h.rx.replyCmd bs.length := rfl
    have hnone : (∀ a, h.rx.rbuf ≠ .user a) → Fills h (h.store bs) := by
      intro hb
      refine .of_eq ?_
      rw [hnew]
      cases hrb : h.rx.rbuf with
      | user a => exact absurd hrb (hb a)
      | _ => simp [Rbuf.storeRange]
    cases s <;> first | exact (Bool.false_ne_true hs).elim | skip
    case simpleRecvReadPayload =>
      obtain ⟨-, cmd, hmem, hk, ht, a, ha, hlo, hhi⟩ := hl
      refine ⟨_, hnew, fun st hst => ⟨cmd, hmem, ht, ?_⟩⟩
      simp only [ha, Rbuf.storeRange, List.mem_singleton] at hst
      subst hst
      exact ⟨hk, fun _ => ⟨hlo, by simp only; omega⟩⟩
    case chunkRecvOffsetDataData =>
      obtain ⟨hmax, k, hk, cmd, hmem, hck, ht, a, ha, hlo, hhi, hin⟩ := hl
      refine ⟨_, hnew, fun st hst => ⟨cmd, hmem, ht, ?_⟩⟩
      simp only [ha, Rbuf.storeRange, List.mem_singleton] at hst
      subst hst
      refine ⟨by rw [hck]; exact hk, fun hc => ?_⟩
      have hfit := chunk_within hin hc
      have hlen : (UInt32.ofNat h.rx.payloadLeft).toNat = h.rx.payloadLeft :=
        UInt32.toNat_ofNat_of_lt' (by simp only [maxRequestSize] at hmax; simp [UInt32.size]; omega)
      rw [hlen] at hfit
      exact ⟨by simp only; omega, by simp only; omega⟩
    all_goals
      apply hnone
      intro a ha
      simp_all [Layout, Handle.payloadAt]

theorem recvThen_fills {inp : Input} {done : Handle → Outcome} {h : Handle} {s : State}
    (ha : At s h) (hs : s.isPayload = true)
    (hdone : ∀ h', (done h').All (Fills h')) : (recvThen inp done h).All (Fills h) := by
  apply recvThen_all
  · intro e
    exact .of_eq rfl
  · intro h' hr _ _
    exact (received_fills ha.layout hs hr).trans (received_same hr).2.2.2.2.1 (.of_eq rfl)
  · intro h' hr _
    exact (hdone h').mono fun _ hf =>
      (received_fills ha.layout hs hr).trans (received_same hr).2.2.2.2.1 hf

theorem recvOffsetHoleDone_fills (inp : Input) (h : Handle) :
    (recvOffsetHoleDone inp h).All (Fills h) := by
  unfold recvOffsetHoleDone
  split
  · trivial
  · trivial
  · rename_i cmd hl
    obtain ⟨hk, hf⟩ := replyRef_live hl
    apply require_all
    intro hread
    have htype : cmd.type = .read := by
      simp only [Bool.and_eq_true, beq_iff_eq] at hread
      exact hread.2
    simp only
    split
    · rename_i hin
      refine ⟨_, rfl, fun st hst => ?_⟩
      split at hst
      · cases hst
      · rw [List.mem_singleton] at hst
        subst hst
        refine ⟨cmd, (findCmd_mem hf).1, htype, hk, fun hc => ?_⟩
        have hfit := chunk_within hin hc
        exact ⟨by simp only; omega, by simp only; omega⟩
    · exact .of_eq rfl

/-! The other states store nothing. -/

theorem simpleReadPayloadDone_fills (inp : Input) (h : Handle) :
    (simpleReadPayloadDone inp h).All (Fills h) := by
  unfold simpleReadPayloadDone
  split
  · trivial
  · trivial
  · exact .of_eq rfl

theorem enterSimpleStart_fills (h : Handle) : (enterSimpleStart h).All (Fills h) := by
  unfold enterSimpleStart
  split
  · trivial
  · split <;> exact .of_eq rfl
  · simp only
    split <;> exact .of_eq rfl

theorem chunkStartType_fills (h : Handle) (cmd : Command) :
    (chunkStartType h cmd).All (Fills h) := by
  unfold chunkStartType chunkStartBlockStatus
  simp only
  split
  · split <;> exact .of_eq rfl
  · split
    · split <;> exact .of_eq rfl
    · split
      · split <;> exact .of_eq rfl
      · split
        · split
          · exact .of_eq rfl
          · exact require_all fun _ => .of_eq rfl
        · split
          · split <;> exact .of_eq rfl
          · exact .of_eq rfl

theorem enterChunkStart_fills (h : Handle) : (enterChunkStart h).All (Fills h) := by
  unfold enterChunkStart
  split
  · exact .of_eq rfl
  · split
    · trivial
    · exact .of_eq rfl
    · rename_i cmd _
      split
      · exact chunkStartType_fills _ cmd
      · exact .of_eq rfl

theorem recvErrorDone_fills (h : Handle) : (recvErrorDone h).All (Fills h) := by
  unfold recvErrorDone
  simp only
  apply require_all
  intro _
  split
  · trivial
  · trivial
  · split <;> exact .of_eq rfl

theorem recvErrorTailDone_fills (inp : Input) (h : Handle) :
    (recvErrorTailDone inp h).All (Fills h) := by
  unfold recvErrorTailDone
  split
  · trivial
  · trivial
  · exact .of_eq rfl

theorem recvOffsetDataDone_fills (h : Handle) : (recvOffsetDataDone h).All (Fills h) := by
  unfold recvOffsetDataDone
  split
  · trivial
  · trivial
  · apply require_all
    intro _
    simp only
    split <;> exact .of_eq rfl

theorem recvOffsetDataDataDone_fills (inp : Input) (h : Handle) :
    (recvOffsetDataDataDone inp h).All (Fills h) := by
  unfold recvOffsetDataDataDone
  split
  · trivial
  · trivial
  · exact .of_eq rfl

theorem recvBsHeaderDone_fills (inp : Input) (h : Handle) :
    (recvBsHeaderDone inp h).All (Fills h) := by
  unfold recvBsHeaderDone
  split
  · trivial
  · trivial
  · refine require_all fun _ => require_all fun _ => require_all fun _ => require_all fun _ => ?_
    split
    · exact .of_eq rfl
    · exact ite_all (fun _ => .of_eq rfl) fun _ => .of_eq rfl

theorem recvBsEntriesDone_fills (inp : Input) (h : Handle) :
    (recvBsEntriesDone inp h).All (Fills h) := by
  unfold recvBsEntriesDone
  split
  · trivial
  · trivial
  · refine require_all fun _ => require_all fun _ => ?_
    split
    · trivial
    · refine require_all fun _ => require_all fun _ => ?_
      split
      · exact .of_eq rfl
      · split
        · trivial
        · exact .of_eq rfl

theorem resyncDone_fills (h : Handle) : (resyncDone h).All (Fills h) := by
  unfold resyncDone
  split
  · trivial
  · exact .of_eq rfl
  · exact .of_eq rfl

/-- The header states receive into the header. -/
theorem enterReplyStart_fills (inp : Input) (h : Handle) :
    (enterReplyStart inp h).All (Fills h) := by
  unfold enterReplyStart
  split
  · split
    · exact require_all fun _ => .of_eq rfl
    · exact .of_eq rfl
  · apply require_all
    intro _
    split
    · exact .of_eq rfl
    · exact .of_eq rfl
    · simp only
      split
      · exact .of_eq rfl
      · exact .of_eq (List.append_nil _)

theorem enterReplyRecvReply_fills {inp : Input} {h : Handle} (hr : RxInv h)
    (hst : h.state = .replyRecvReply) : (enterReplyRecvReply inp h).All (Fills h) := by
  obtain ⟨-, -, -, hl⟩ := hr.between (by rw [hst]; rfl) (by rw [hst]; rfl)
  obtain ⟨p, hp, -⟩ : h.hdrAt := by
    have := hl.2
    rwa [hst] at this
  have hsame : ∀ h', Received h h' → h'.stores = h.stores := by
    intro h' hrec
    cases hrec with
    | nothing => rfl
    | data bs _ _ => simp [Handle.store, hp, Rbuf.storeRange]
  unfold enterReplyRecvReply
  obtain ⟨e, he⟩ | ⟨h', hrec, -, he⟩ | ⟨h', hrec, -, he⟩ := recvIntoRbuf_cases inp h
  · rw [he]
    exact .of_eq rfl
  · rw [he]
    simp only
    split <;> exact .of_eq (hsame h' hrec)
  · rw [he]
    exact .of_eq (hsame h' hrec)

theorem enterReplyCheckReplyMagic_fills (h : Handle) :
    (enterReplyCheckReplyMagic h).All (Fills h) := by
  unfold enterReplyCheckReplyMagic
  simp only
  split
  · split <;> exact .of_eq rfl
  · split
    · split
      · exact .of_eq rfl
      · exact require_all fun _ => .of_eq rfl
    · split
      · split <;> exact .of_eq rfl
      · exact .of_eq rfl

theorem receiving_fills {inp : Input} {h : Handle} (hr : RxInv h)
    (hs : h.state.isReceiving = true) : (enter inp h).All (Fills h) := by
  have hat : h.state.isMid = true → At h.state h := hr.at
  unfold enter
  cases hst : h.state <;> simp only [hst, State.isReceiving, Bool.false_eq_true] at hs hat ⊢
  case replyStart => exact enterReplyStart_fills inp h
  case replyRecvReply => exact enterReplyRecvReply_fills hr hst
  case replyCheckReplyMagic => exact enterReplyCheckReplyMagic_fills h
  case replyRecvStructuredRemaining =>
    exact recvThen_fills (hat rfl) rfl fun h' => .of_eq rfl
  case simpleStart => exact enterSimpleStart_fills h
  case simpleRecvReadPayload =>
    exact recvThen_fills (hat rfl) rfl (simpleReadPayloadDone_fills inp)
  case chunkStart => exact enterChunkStart_fills h
  case chunkRecvError => exact recvThen_fills (hat rfl) rfl recvErrorDone_fills
  case chunkRecvErrorMessage => exact recvThen_fills (hat rfl) rfl fun h' => .of_eq rfl
  case chunkRecvErrorTail => exact recvThen_fills (hat rfl) rfl (recvErrorTailDone_fills inp)
  case chunkRecvOffsetData => exact recvThen_fills (hat rfl) rfl recvOffsetDataDone_fills
  case chunkRecvOffsetDataData =>
    exact recvThen_fills (hat rfl) rfl (recvOffsetDataDataDone_fills inp)
  case chunkRecvOffsetHole => exact recvThen_fills (hat rfl) rfl (recvOffsetHoleDone_fills inp)
  case chunkRecvBsHeader => exact recvThen_fills (hat rfl) rfl (recvBsHeaderDone_fills inp)
  case chunkRecvBsEntries => exact recvThen_fills (hat rfl) rfl (recvBsEntriesDone_fills inp)
  case chunkResync => exact require_all fun _ => recvThen_fills (hat rfl) rfl resyncDone_fills
  case chunkFinish =>
    refine require_all fun _ => ?_
    split <;> exact .of_eq rfl

theorem enter_fills (inp : Input) {h : Handle} (hr : RxInv h) (hinv : h.book.Inv) (ht : Tails h) :
    (enter inp h).All (Fills h) := by
  rcases h.state.kinds with hs | hs | hs | hs | hs
  · exact receiving_fills hr hs
  · refine (enter_sends inp hs).mono fun h' hq => .of_eq ?_
    rw [hq.eq]
  · simp only [enter, hs, enterIssueFinish]
    apply require_all
    intro _
    split
    · trivial
    · exact require_all fun _ => .of_eq rfl
  · simp only [enter, hs]
    cases hf : Handle.findCmd h.replyCookie h.q.cmdsInFlight with
    | none =>
      unfold enterReplyFinishCommand
      simp only [hf]
      exact require_all fun _ => .of_eq rfl
    | some cmd =>
      obtain ⟨h', hfin, heq⟩ :=
        finishCommand_ok inp hinv ht (alive_of_isMid (by rw [hs]; rfl)) hf
      rw [heq]
      refine require_all fun _ => require_all fun _ => .of_eq ?_
      change h'.stores = h.stores
      rw [hfin.frame]
      rfl
  · obtain ⟨-, -, h', -, -, hok, hdo, -, -, -, -⟩ := abortAll_ok inp hinv ht
    have hsame : Fills h h' := .of_eq (by rw [hdo])
    rcases hs with hs | hs
    · simp only [enter, hs, enterDead, hok]
      exact require_all fun _ => hsame
    · simp only [enter, hs, enterClosed, hok]
      exact hsame

/-! ## Whole runs -/

/-- The store is for an accepted read and, if the check can be trusted with it,
in its buffer. -/
def StoredFor (trace : List Event) (st : Store) : Prop :=
  ∃ cmd, Event.accept cmd ∈ trace ∧ cmd.type = .read ∧ st.cookie = some cmd.cookie ∧
    (cmd.ClearOfEnd → st.Within cmd)

theorem StoredFor.append {trace : List Event} {st : Store} (hs : StoredFor trace st)
    (es : List Event) : StoredFor (trace ++ es) st := by
  obtain ⟨cmd, hacc, hrest⟩ := hs
  exact ⟨cmd, List.mem_append_left _ hacc, hrest⟩

/-- A read in flight was accepted. -/
theorem ForRead.storedFor {h : Handle} (hinv : h.book.Inv) {st : Store}
    (hf : ForRead h.q.cmdsInFlight st) : StoredFor h.trace st := by
  obtain ⟨cmd, hmem, htype, hk, hin⟩ := hf
  have hcmd : cmd ∈ h.book.commands := by
    simp only [Book.commands, Handle.book, List.mem_append]
    exact .inl (.inr hmem)
  obtain ⟨c₀, hacc, hfrom⟩ := hinv.origin cmd hcmd
  rw [hfrom] at htype hk hin
  refine ⟨c₀, hacc, htype, hk, fun hclear => ?_⟩
  exact hin (contained_of_clearOfEnd hclear)

theorem step_storedFor {c c' : Config} {l : Label} (hg : Good c)
    (hs : ∀ st ∈ c.h.stores, StoredFor c.h.trace st) (h : step c l = some c') :
    ∀ st ∈ c'.h.stores, StoredFor c'.h.trace st := by
  obtain ⟨es, htr⟩ := step_trace_append hg.sound h
  have hold : ∀ st ∈ c.h.stores, StoredFor c'.h.trace st := by
    intro st hst
    rw [htr]
    exact (hs st hst).append es
  obtain ⟨inp, k, -, -, rfl⟩ | ⟨api, inp, r, rfl, hctl, rfl⟩ := step_cases h
  · have hfill : Fills c.h (stepEnter inp k c.h).h :=
      stepEnter_all k (enter_fills inp hg.rx hg.sound.inv hg.sound.tails) (.of_eq rfl)
        fun _ _ hf => hf
    obtain ⟨new, he, hnew⟩ := hfill
    intro st hst
    rw [he] at hst
    rcases List.mem_append.mp hst with hst | hst
    · exact hold st hst
    · rw [htr]
      exact ((hnew st hst).storedFor hg.sound.inv).append es
  · intro st hst
    apply hold
    by_cases hclose : api = .close
    · subst hclose
      exact hst
    · rwa [(apiCall_frame inp { c.h with lastError := inp.lastError } api hclose).stores] at hst

/-- **Read-buffer containment.** For every accepted read, the bounds check accepts
only chunks inside it if and only if the read is clear of the end of the address
space; and every range stored by replies is in the buffer of such a read. -/
theorem read_contained_iff {c : Config} (h : machine.Reachable c) :
    (∀ cmd, Event.accept cmd ∈ c.h.trace → cmd.type = .read →
      (cmd.Contained ↔ cmd.ClearOfEnd)) ∧
    (∀ st ∈ c.h.stores, ∃ cmd, Event.accept cmd ∈ c.h.trace ∧ cmd.type = .read ∧
      st.cookie = some cmd.cookie ∧ (cmd.ClearOfEnd → st.Within cmd)) := by
  refine ⟨fun cmd _ _ => contained_iff cmd, ?_⟩
  have key : (∀ st ∈ c.h.stores, StoredFor c.h.trace st) ∧ (c.ctl = .closed ∨ Good c) := by
    refine machine.reachable_invariant
      (P := fun c => (∀ st ∈ c.h.stores, StoredFor c.h.trace st) ∧ (c.ctl = .closed ∨ Good c))
      ?_ ?_ h
    · intro c hc
      refine ⟨?_, .inr (initial_good hc)⟩
      obtain ⟨exp, strict, pi, hdr, payload, mem, rfl⟩ := hc
      exact fun st hst => absurd hst List.not_mem_nil
    · intro c l c' hc hstep
      rcases hc with ⟨hs, hc | hg⟩
      · cases l <;> simp [machine, step, hc] at hstep
      · exact ⟨step_storedFor hg hs hstep, step_good hg hstep⟩
  exact key.1

/-- Read `count` bytes at `offset`; the reply is one chunk with this header and
payload. -/
def readChunk (count offset : UInt64) (header payload : List UInt8) : List Label :=
  Label.call (.command (.aioPread 4096 count offset .null 0)) .calm ::
    List.replicate 5 (.enter .calm) ++
  [Label.call .aioNotifyRead .calm, .enter { Input.calm with recv := .data (header.take 16) },
   .enter .calm, .enter .calm, .enter { Input.calm with recv := .data (header.drop 16) },
   .enter .calm, .enter { Input.calm with recv := .data payload }]

/-- Eight bytes are read at offset 0 and arrive in one data chunk. -/
def readData : List Label :=
  readChunk 8 0 [0x66, 0x8e, 0x33, 0xef, 0, 1, 0, 1, 0, 0, 0, 0, 0, 0, 0, 1, 0, 0, 0, 16]
    [0, 0, 0, 0, 0, 0, 0, 0] ++ [Label.enter { Input.calm with recv := .data [1, 2, 3, 4, 5, 6, 7, 8] }]

theorem data_chunk_contained :
    ∃ c, machine.exec (.ofExport .structured) readData = some c ∧
      c.h.stores = [⟨some 1, 4096, 8⟩] ∧
      ∀ st ∈ c.h.stores, ∃ cmd, Event.accept cmd ∈ c.h.trace ∧ st.cookie = some cmd.cookie ∧
        st.Within cmd := by
  have hrun : (machine.exec (.ofExport .structured) readData).map (fun c =>
      (c.h.stores, (accepted c.h.trace).all fun cmd => decide cmd.ClearOfEnd)) =
      some ([⟨some 1, 4096, 8⟩], true) := by decide +kernel
  obtain ⟨c, hc, hp⟩ := Option.map_eq_some_iff.mp hrun
  simp only [Prod.mk.injEq, List.all_eq_true, decide_eq_true_eq] at hp
  refine ⟨c, hc, hp.1, fun st hst => ?_⟩
  obtain ⟨cmd, hacc, -, hk, hin⟩ :=
    (read_contained_iff ⟨_, _, Config.initial_ofExport _, hc⟩).2 st hst
  exact ⟨cmd, hacc, hk, hin (hp.2 cmd (mem_accepted.mpr hacc))⟩

/-- The largest export there is. -/
def Export.largest : Export := { Export.structured with exportsize := 0xffffffffffffffff }

/-- Fifty bytes are read close to the end; the server answers with a hole of 200
bytes that starts inside them. -/
def readHole : List Label :=
  readChunk 50 0xffffffffffffff9c
    [0x66, 0x8e, 0x33, 0xef, 0, 1, 0, 2, 0, 0, 0, 0, 0, 0, 0, 1, 0, 0, 0, 12]
    [0xff, 0xff, 0xff, 0xff, 0xff, 0xff, 0xff, 0xc4, 0, 0, 0, 200]

/-- The hole is accepted and zeroes 190 bytes behind the buffer. -/
theorem hole_overruns_buffer :
    ¬ ∀ c, machine.Reachable c →
      (∀ cmd, Event.accept cmd ∈ c.h.trace → cmd.type = .read → cmd.Contained) ∧
      (∀ st ∈ c.h.stores, ∃ cmd, Event.accept cmd ∈ c.h.trace ∧ st.cookie = some cmd.cookie ∧
        st.Within cmd) := by
  intro hall
  have hrun : (machine.exec (.ofExport .largest) readHole).map (fun c =>
      (c.h.stores, (accepted c.h.trace).map fun cmd => (cmd.buf, cmd.count.toNat))) =
      some ([⟨some 1, 4136, 200⟩], [(4096, 50)]) := by decide +kernel
  obtain ⟨c, hc, hp⟩ := Option.map_eq_some_iff.mp hrun
  simp only [Prod.mk.injEq] at hp
  obtain ⟨-, hstores⟩ := hall c ⟨_, _, Config.initial_ofExport _, hc⟩
  obtain ⟨cmd, hacc, -, hlo, hhi⟩ := hstores ⟨some 1, 4136, 200⟩ (by rw [hp.1]; simp)
  have hmem : (cmd.buf, cmd.count.toNat) ∈ [(4096, 50)] := by
    rw [← hp.2]
    exact List.mem_map_of_mem (f := fun cmd : Command => (cmd.buf, cmd.count.toNat))
      (mem_accepted.mpr hacc)
  simp only [List.mem_singleton, Prod.mk.injEq] at hmem
  simp only [hmem.1, hmem.2] at hhi
  omega

end Libnbd
