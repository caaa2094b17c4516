import Libnbd.Reachable
import Libnbd.Lib.Reader

/-!
Fragmentation of the reply stream.

A reply may arrive in pieces of any size, with the machine blocking, saving the
reply state and resuming it through `READY` and `REPLY.START` in between.
`parser` is a machine that reads the same stream byte by byte and never blocks:
it works on handles in normal form, where a saved state is resumed, an empty
header is prepared, and a dead handle keeps nothing of the receiving side. Every
step of the real machine is a path of `parser` that reads the bytes the step
received, so the bytes alone decide where a run ends.
-/

namespace Libnbd

open Lib

/-! ## Schedules -/

/-- The callbacks and the allocator of a run. -/
structure World where
  alloc : Nat → Bool
  callback : Event → CbResult

/-- An input of this world in which nothing arrives. -/
def World.input (w : World) : Input where
  recv := .again
  send := .again
  shutWrites := true
  pending := false
  lastError := none
  alloc := w.alloc
  callback := w.callback

/-- The socket has no error and does not come to its end. -/
structure Input.Serves (inp : Input) (w : World) : Prop where
  alloc : inp.alloc = w.alloc
  callback : inp.callback = w.callback
  recv : inp.recv = .again ∨ ∃ bs, bs ≠ [] ∧ inp.recv = .data bs

/-- The labels of a run that handles replies. -/
def Label.Serves (w : World) : Label → Prop
  | .enter inp => inp.Serves w
  | .call api _ => api = .aioNotifyRead

/-- The bytes that the code of the current state takes from the socket. -/
def received (inp : Input) (h : Handle) : List UInt8 :=
  match inp.recv with
  | .data bs =>
    if h.state = .replyStart then if h.rx.rlen = 0 then bs.take h.replyHeaderSize else []
    else if h.state = .replyRecvReply ∨ h.state.isPayload = true then bs.take h.recvWant
    else []
  | _ => []

def taken (c : Config) : Label → List UInt8
  | .enter inp => received inp c.h
  | .call _ _ => []

/-- The bytes that a run takes from the socket. -/
def consumed (c : Config) : List Label → List UInt8
  | [] => []
  | l :: ls => taken c l ++ ((machine.step c l).map fun c' => consumed c' ls).getD []

/-- A run that cuts `bytes` into pieces and ends, outside of a call, when they
have been consumed or the handle is `DEAD`. -/
structure Schedule (w : World) (bytes : List UInt8) (c : Config) (ls : List Label) (c' : Config) :
    Prop where
  serves : ∀ l ∈ ls, l.Serves w
  run : machine.exec c ls = some c'
  pieces : consumed c ls <+: bytes
  returned : ∃ r, c'.ctl = .idle r
  ended : consumed c ls = bytes ∨ c'.h.state = .dead

/-! ## Normal form -/

namespace Handle

/-- Without the fields that record how the bytes were cut. -/
def forget (h : Handle) : Handle := { h with bytesReceived := 0, lastError := none, stores := [] }

/-- The handle in the state that will receive the next byte. -/
def resumed (h : Handle) : Handle :=
  if h.rx.rlen = 0 then { h.prepareReply with state := .replyRecvReply }
  else if h.rx.replyState = .start then { h with state := .replyRecvReply }
  else { h with state := h.rx.replyState, rx := { h.rx with replyState := .start } }

/-- What matters of a dead handle. -/
def shroud (h : Handle) : Handle :=
  { h with
    state := .dead
    rx :=
      { rbuf := .null, rlen := 0, hdr := fun _ => 0, payload := fun _ => 0, payloadLeft := 0,
        bsCount := 0, bsRaw := none, replyCmd := none, replyState := .start }
    bytesReceived := 0
    chunksReceived := 0
    lastError := none
    stores := [] }

end Handle

/-- A dead handle after its commands have been aborted. -/
def buried (w : World) (h : Handle) : Handle :=
  match abortAll w.input h.shroud with
  | .ok h' => h'
  | .error _ => h.shroud

def normal (w : World) (h : Handle) : Handle :=
  match h.state with
  | .dead => buried w h
  | .ready | .replyStart => h.resumed.forget
  | .replyRecvReply | .replyCheckReplyMagic => if shortMagicBad h then buried w h else h.forget
  | _ => h.forget

/-- The next thing that happens to the handle is the arrival of a byte. -/
def Hungry (h : Handle) : Prop :=
  (h.state = .replyRecvReply ∨ h.state.isPayload = true) ∧ h.rx.rlen ≠ 0

instance (h : Handle) : Decidable (Hungry h) := inferInstanceAs (Decidable ((_ ∨ _) ∧ _))

def Outcome.normal (w : World) : Outcome → Option Handle
  | .next h => some (Libnbd.normal w h)
  | _ => none

/-- The parser of replies. Its states are handles in normal form. -/
def parser (w : World) : Reader Handle UInt8 where
  next h := if h.state = .dead ∨ Hungry h then none else (enter w.input h).normal w
  read h b :=
    if h.state = .dead then some h
    else if Hungry h then some (normal w (h.store [b])) else none

/-! ## The forgotten fields do not matter -/

section Forget

variable (h : Handle)

@[simp] theorem forget_state : h.forget.state = h.state := rfl
@[simp] theorem forget_rx : h.forget.rx = h.rx := rfl
@[simp] theorem forget_exp : h.forget.exp = h.exp := rfl
@[simp] theorem forget_q : h.forget.q = h.q := rfl
@[simp] theorem forget_mem : h.forget.mem = h.mem := rfl
@[simp] theorem forget_trace : h.forget.trace = h.trace := rfl
@[simp] theorem forget_replyRef : h.forget.replyRef = h.replyRef := rfl
@[simp] theorem forget_lookupReply : h.forget.lookupReply = h.lookupReply := rfl
@[simp] theorem forget_replyMagic : h.forget.replyMagic = h.replyMagic := rfl
@[simp] theorem forget_replyError : h.forget.replyError = h.replyError := rfl
@[simp] theorem forget_replyFlags : h.forget.replyFlags = h.replyFlags := rfl
@[simp] theorem forget_replyType : h.forget.replyType = h.replyType := rfl
@[simp] theorem forget_replyLength : h.forget.replyLength = h.replyLength := rfl
@[simp] theorem forget_replyCookie : h.forget.replyCookie = h.replyCookie := rfl
@[simp] theorem forget_shortMagicBad : shortMagicBad h.forget = shortMagicBad h := rfl
@[simp] theorem forget_shroud : h.forget.shroud = h.shroud := rfl
@[simp] theorem forget_forget : h.forget.forget = h.forget := rfl
@[simp] theorem forget_chunkOffset : h.forget.chunkOffset = h.chunkOffset := rfl
@[simp] theorem forget_setCmd (cmd : Command) : (h.forget.setCmd cmd) = (h.setCmd cmd).forget := rfl
@[simp] theorem forget_chunkExpected (cmd : Command) :
    chunkExpected h.forget cmd = chunkExpected h cmd := rfl

end Forget

def Outcome.forget : Outcome → Outcome
  | .next h => .next h.forget
  | .block h => .block h.forget
  | .fail h => .fail h.forget
  | .abort a => .abort a

/-- A piece of code to which the forgotten fields do not matter. -/
def Blind (f : Handle → Outcome) : Prop := ∀ h, (f h.forget).forget = (f h).forget

theorem require_forget {p : Bool} {a : Abort} {k k' : Outcome} (hk : k.forget = k'.forget) :
    (require p a k).forget = (require p a k').forget := by
  unfold require
  split
  · exact hk
  · rfl

theorem ite_forget {p : Prop} [Decidable p] {a a' b b' : Outcome} (ha : a.forget = a'.forget)
    (hb : b.forget = b'.forget) :
    (if p then a else b).forget = (if p then a' else b').forget := by
  split
  · exact ha
  · exact hb

theorem enterReplyCheckReplyMagic_blind : Blind enterReplyCheckReplyMagic := by
  intro h
  refine ite_forget (ite_forget rfl rfl) (ite_forget (ite_forget rfl (require_forget rfl)) ?_)
  exact ite_forget (ite_forget rfl rfl) rfl

theorem enterSimpleStart_blind : Blind enterSimpleStart := by
  intro h
  simp only [enterSimpleStart, forget_replyRef]
  cases h.replyRef with
  | dangling => rfl
  | null => exact ite_forget rfl rfl
  | live cmd => exact ite_forget rfl rfl

theorem simpleReadPayloadDone_blind (inp : Input) : Blind (simpleReadPayloadDone inp) := by
  intro h
  simp only [simpleReadPayloadDone, forget_replyRef]
  cases h.replyRef <;> rfl

theorem chunkStartBlockStatus_blind (cmd : Command) : Blind (chunkStartBlockStatus · cmd) := by
  intro h
  exact ite_forget rfl (require_forget rfl)

theorem chunkStartType_blind (cmd : Command) : Blind (chunkStartType · cmd) := by
  intro h
  refine ite_forget (ite_forget rfl rfl) (ite_forget (ite_forget rfl rfl) ?_)
  refine ite_forget (ite_forget rfl rfl) (ite_forget (chunkStartBlockStatus_blind cmd h) ?_)
  exact ite_forget (ite_forget rfl rfl) rfl

theorem enterChunkStart_blind : Blind enterChunkStart := by
  intro h
  refine ite_forget rfl ?_
  rw [forget_replyRef]
  cases h.replyRef with
  | dangling => rfl
  | null => rfl
  | live cmd =>
    exact ite_forget (chunkStartType_blind cmd { h with rx := { h.rx with payloadLeft := h.replyLength } })
      rfl

theorem recvErrorDone_blind : Blind recvErrorDone := by
  intro h
  refine require_forget ?_
  have hr : ∀ (h : Handle) (n : Nat),
      ({ h with rx := { h.rx with payloadLeft := n } } : Handle).replyRef = h.replyRef :=
    fun _ _ => rfl
  rw [hr h.forget, hr h, forget_replyRef]
  cases h.replyRef with
  | dangling => rfl
  | null => rfl
  | live cmd => exact ite_forget rfl rfl

theorem recvErrorMessageDone_blind : Blind recvErrorMessageDone := fun _ => rfl

theorem recvErrorTailDone_blind (inp : Input) : Blind (recvErrorTailDone inp) := by
  intro h
  simp only [recvErrorTailDone, forget_replyRef]
  cases h.replyRef <;> rfl

theorem recvOffsetDataDone_blind : Blind recvOffsetDataDone := by
  intro h
  simp only [recvOffsetDataDone, forget_replyRef]
  cases h.replyRef with
  | dangling => rfl
  | null => rfl
  | live cmd => exact require_forget (ite_forget rfl rfl)

theorem recvOffsetDataDataDone_blind (inp : Input) : Blind (recvOffsetDataDataDone inp) := by
  intro h
  simp only [recvOffsetDataDataDone, forget_replyRef]
  cases h.replyRef <;> rfl

theorem recvOffsetHoleDone_blind (inp : Input) : Blind (recvOffsetHoleDone inp) := by
  intro h
  simp only [recvOffsetHoleDone, forget_replyRef]
  cases h.replyRef with
  | dangling => rfl
  | null => rfl
  | live cmd => exact require_forget (ite_forget rfl rfl)

theorem recvBsHeaderDone_blind (inp : Input) : Blind (recvBsHeaderDone inp) := by
  intro h
  simp only [recvBsHeaderDone, forget_replyRef]
  cases h.replyRef with
  | dangling => rfl
  | null => rfl
  | live cmd =>
    refine require_forget (require_forget (require_forget (require_forget ?_)))
    exact ite_forget rfl (ite_forget rfl rfl)

theorem recvBsEntriesDone_blind (inp : Input) : Blind (recvBsEntriesDone inp) := by
  intro h
  simp only [recvBsEntriesDone, forget_replyRef]
  cases h.replyRef with
  | dangling => rfl
  | null => rfl
  | live cmd =>
    refine require_forget (require_forget ?_)
    simp only [forget_rx, forget_exp]
    cases h.rx.bsRaw with
    | none => rfl
    | some raw =>
      refine require_forget (require_forget ?_)
      cases h.exp.metaContexts.find? fun m => m.2 == h.rx.payload.be32 0 with
      | none => rfl
      | some m =>
        have hp : cookParams h.forget cmd = cookParams h cmd := rfl
        simp only [hp, forget_replyType]
        cases cookEntries (cookParams h cmd) 0 0 cmd.error
            (bsDescriptors h.replyType raw h.rx.bsCount) <;> rfl

theorem resyncDone_blind : Blind resyncDone := by
  intro h
  simp only [resyncDone, forget_replyRef]
  cases h.replyRef <;> rfl

theorem enterChunkFinish_blind : Blind enterChunkFinish := by
  intro h
  exact require_forget (ite_forget rfl rfl)

/-! ## Completing commands looks at the queues and the trace only -/

theorem settle_forget (h : Handle) (cmd : Command) (retire : Bool) :
    h.forget.settle cmd retire = (h.settle cmd retire).map Handle.forget := by
  unfold Handle.settle
  split
  · rfl
  · simp only [Handle.pushDone, forget_q]
    cases h.q.cmdsDoneTail with
    | none =>
      by_cases hd : h.q.cmdsDone = []
      · exact (if_pos hd).trans (by rw [if_pos hd]; rfl)
      · exact (if_neg hd).trans (by rw [if_neg hd]; rfl)
    | some t =>
      simp only
      cases linkAfter Command.cookie t cmd h.q.cmdsDone <;> rfl

theorem settle_shroud (h : Handle) (cmd : Command) (retire : Bool) :
    h.shroud.settle cmd retire = (h.settle cmd retire).map Handle.shroud := by
  have hq : h.shroud.q = h.q := rfl
  unfold Handle.settle
  split
  · rfl
  · simp only [Handle.pushDone, hq]
    cases h.q.cmdsDoneTail with
    | none =>
      by_cases hd : h.q.cmdsDone = []
      · exact (if_pos hd).trans (by rw [if_pos hd]; rfl)
      · exact (if_neg hd).trans (by rw [if_neg hd]; rfl)
    | some t =>
      simp only
      cases linkAfter Command.cookie t cmd h.q.cmdsDone <;> rfl

theorem abortCommands_shroud (inp : Input) (cmds : List Command) (h : Handle) :
    abortCommands inp h.shroud cmds = (abortCommands inp h cmds).map Handle.shroud := by
  induction cmds generalizing h with
  | nil => rfl
  | cons cmd cmds ih =>
    have hlog : ∀ es, h.shroud.log es = (h.log es).shroud := fun _ => rfl
    have hone : abortCommand inp h.shroud cmd = (abortCommand inp h cmd).map Handle.shroud := by
      unfold abortCommand
      split
      · rfl
      · simp only [hlog, settle_shroud]
    simp only [abortCommands, hone]
    cases abortCommand inp h cmd with
    | error a => rfl
    | ok h' => exact ih h'

theorem abortAll_shroud (inp : Input) (h : Handle) :
    abortAll inp h.shroud = (abortAll inp h).map Handle.shroud := by
  have hq : ∀ (h : Handle) (q : Queues), { h.shroud with q := q } = ({ h with q := q } : Handle).shroud :=
    fun _ _ => rfl
  have hq' : ∀ h : Handle, h.shroud.q = h.q := fun _ => rfl
  simp only [abortAll, hq', hq, abortCommands_shroud]
  cases abortCommands inp { h with q := { h.q with cmdsToIssue := [] } } h.q.cmdsToIssue with
  | error a => rfl
  | ok h₁ =>
    simp only [Except.map, hq', hq, abortCommands_shroud]
    cases abortCommands inp { h₁ with q := { h₁.q with cmdsInFlight := [] } }
      h₁.q.cmdsInFlight <;> rfl

/-- What `FINISH_COMMAND` does once the command is settled. -/
def settledOutcome : Except Abort Handle → Outcome
  | .error a => .abort a
  | .ok h => require (decide (0 ≤ h.q.inFlight)) .inFlightNegative <| goto .ready h

theorem enterReplyFinishCommand_blind (inp : Input) : Blind (enterReplyFinishCommand inp) := by
  intro h
  refine require_forget ?_
  rw [forget_replyCookie, forget_q]
  cases Handle.findCmd h.replyCookie h.q.cmdsInFlight with
  | none => rfl
  | some cmd =>
    have hset : ∀ (h : Handle) (cmd : Command) (retire : Bool),
        (settledOutcome (h.forget.settle cmd retire)).forget =
          (settledOutcome (h.settle cmd retire)).forget := by
      intro h cmd retire
      rw [settle_forget]
      cases h.settle cmd retire with
      | error a => rfl
      | ok h' => exact require_forget rfl
    refine ite_forget rfl ?_
    obtain ⟨es, cmd', retire⟩ := notifyCompletion inp cmd cmd.error
    exact hset (Handle.log (Handle.unlink { h with rx := { h.rx with replyCmd := none } } cmd.cookie)
      (es ++ [Event.finish cmd.cookie])) cmd' retire

/-! ## Receiving byte by byte -/

theorem store_nil (h : Handle) : (h.store []).forget = h.forget := by
  obtain ⟨state, exp, strict, pi, dr, sock, rx, tx, q, bs, cs, br, cr, le, mem, stores, trace⟩ := h
  obtain ⟨rbuf, rlen, hdr, payload, left, count, raw, cmd, st⟩ := rx
  cases rbuf <;> simp [Handle.store, Handle.forget, Rbuf.advance, Rbuf.storeHdr, Rbuf.storePayload,
    Rbuf.storeRaw, Rbuf.storeUser]

theorem store_append (h : Handle) (xs ys : List UInt8) :
    ((h.store xs).store ys).forget = (h.store (xs ++ ys)).forget := by
  obtain ⟨state, exp, strict, pi, dr, sock, rx, tx, q, bs, cs, br, cr, le, mem, stores, trace⟩ := h
  obtain ⟨rbuf, rlen, hdr, payload, left, count, raw, cmd, st⟩ := rx
  cases rbuf <;> simp [Handle.store, Handle.forget, Rbuf.advance, Rbuf.storeHdr, Rbuf.storePayload,
    Rbuf.storeRaw, Rbuf.storeUser, Mem.write_append, Nat.add_assoc, Nat.sub_sub, Function.comp_def]

theorem store_forget (h : Handle) (xs : List UInt8) :
    (h.forget.store xs).forget = (h.store xs).forget := rfl

theorem shortMagicBad_iff {h : Handle} : shortMagicBad h = true ↔
    h.exp.extendedHeaders = true ∧ (∃ p, h.rx.rbuf = .hdr p ∧ 4 ≤ p) ∧
      h.replyMagic ≠ nbdExtendedReplyMagic := by
  unfold shortMagicBad
  cases h.rx.rbuf <;> simp [and_assoc]

/-- A bad magic number stays bad. -/
theorem shortMagicBad_store {h : Handle} (hb : shortMagicBad h = true) (xs : List UInt8) :
    shortMagicBad (h.store xs) = true ∧ (h.store xs).shroud = h.shroud := by
  obtain ⟨hext, ⟨p, hp, h4⟩, hm⟩ := shortMagicBad_iff.mp hb
  refine ⟨shortMagicBad_iff.mpr ⟨hext, ⟨p + xs.length, ?_, by omega⟩, ?_⟩, ?_⟩
  · simp only [Handle.store, hp, Rbuf.advance]
  · simp only [Handle.replyMagic, Handle.store, hp, Rbuf.storeHdr] at hm ⊢
    rwa [Mem.be32_write _ _ (by omega)]
  · simp only [Handle.shroud, Handle.store, hp, Rbuf.storeUser]

/-! ## Normal forms -/

theorem resumed_empty {h : Handle} (hz : h.rx.rlen = 0) :
    h.resumed = { h.prepareReply with state := .replyRecvReply } := if_pos hz

theorem resumed_header {h : Handle} (hz : h.rx.rlen ≠ 0) (hs : h.rx.replyState = .start) :
    h.resumed = { h with state := .replyRecvReply } := (if_neg hz).trans (if_pos hs)

theorem resumed_saved {h : Handle} (hz : h.rx.rlen ≠ 0) (hs : h.rx.replyState ≠ .start) :
    h.resumed = { h with state := h.rx.replyState, rx := { h.rx with replyState := .start } } :=
  (if_neg hz).trans (if_neg hs)

theorem resumed_forget (h : Handle) : h.forget.resumed.forget = h.resumed.forget := by
  by_cases hz : h.rx.rlen = 0
  · rw [resumed_empty hz, resumed_empty (h := h.forget) hz]
    rfl
  · by_cases hs : h.rx.replyState = .start
    · rw [resumed_header hz hs, resumed_header (h := h.forget) hz hs]
      rfl
    · rw [resumed_saved hz hs, resumed_saved (h := h.forget) hz hs]
      rfl

theorem normal_forget (w : World) (h : Handle) : normal w h.forget = normal w h := by
  unfold normal buried
  rw [forget_state, forget_shroud, forget_shortMagicBad, resumed_forget]
  rfl

theorem normal_congr {w : World} {h h' : Handle} (he : h.forget = h'.forget) :
    normal w h = normal w h' := by
  rw [← normal_forget, he, normal_forget]

theorem Outcome.normal_congr {w : World} {o o' : Outcome} (he : o.forget = o'.forget) :
    o.normal w = o'.normal w := by
  cases o <;> cases o' <;> simp only [Outcome.forget, Outcome.next.injEq, reduceCtorEq] at he
  case next.next => simp only [Outcome.normal, Libnbd.normal_congr he]
  all_goals rfl

theorem normal_of_isMid {w : World} {h : Handle} (hm : h.state.isMid = true) :
    normal w h = h.forget := by
  unfold normal
  cases hs : h.state <;> simp_all [State.isMid]

theorem buried_state (w : World) (h : Handle) : (buried w h).state = .dead := by
  unfold buried
  split
  · rename_i h' hok
    rw [abortAll_shroud] at hok
    cases hab : abortAll w.input h with
    | error a => rw [hab] at hok; cases hok
    | ok h₁ =>
      rw [hab] at hok
      cases hok
      rfl
  · rfl

theorem parser_buried (w : World) (h : Handle) (xs : List UInt8) :
    (parser w).Path (buried w h) xs (buried w h) := by
  refine .absorb ?_ (fun x => ?_) xs
  · simp only [Reader.Waiting, parser, buried_state, true_or, if_true]
  · simp only [parser, buried_state, if_true]

/-- Bytes that arrive where they are expected. -/
theorem path_store {w : World} {h : Handle}
    (hs : h.state = .replyRecvReply ∨ h.state.isPayload = true) {xs : List UInt8}
    (hlen : xs.length ≤ h.rx.rlen) : (parser w).Path (normal w h) xs (normal w (h.store xs)) := by
  induction xs generalizing h with
  | nil =>
    rw [normal_congr (store_nil h)]
    exact .nil _
  | cons b xs ih =>
    rw [List.length_cons] at hlen
    have hlen' : (h.store [b]).rx.rlen = h.rx.rlen - 1 := rfl
    -- the reader takes the byte unless the magic number is known to be bad
    have hstep : normal w h = h.forget →
        (parser w).Path (normal w h) (b :: xs) (normal w (h.store (b :: xs))) := by
      intro hn
      have hd : h.state ≠ .dead := by
        rintro hd
        rw [hd] at hs
        rcases hs with hs | hs <;> cases hs
      have hhungry : Hungry h.forget := ⟨hs, by rw [forget_rx]; omega⟩
      have hrest := ih (h := h.store [b]) hs (by omega)
      rw [normal_congr (store_append h [b] xs)] at hrest
      rw [hn]
      refine .read ?_ ?_ hrest
      · simp only [Reader.Waiting, parser, hhungry, or_true, if_true]
      · simp only [parser, forget_state, if_neg hd, if_pos hhungry]
        rw [← normal_forget, store_forget, normal_forget]
    rcases hs with hr | hp
    · by_cases hbad : shortMagicBad h = true
      · obtain ⟨hbad', hsh⟩ := shortMagicBad_store hbad (b :: xs)
        have h₁ : normal w h = buried w h := by
          simp only [normal, hr, if_pos hbad]
        have h₂ : normal w (h.store (b :: xs)) = buried w h := by
          have hst : (h.store (b :: xs)).state = .replyRecvReply := hr
          simp only [normal, hst, if_pos hbad', buried, hsh]
        rw [h₁, h₂]
        exact parser_buried w h _
      · exact hstep (by simp only [normal, hr, if_neg hbad])
    · exact hstep (normal_of_isMid (State.isMid_of_isPayload hp))

/-! ## One state of the machine -/

/-- What a payload state does once its bytes are there. -/
def payloadDone (inp : Input) : State → Handle → Outcome
  | .replyRecvStructuredRemaining => goto .chunkStart
  | .simpleRecvReadPayload => simpleReadPayloadDone inp
  | .chunkRecvError => recvErrorDone
  | .chunkRecvErrorMessage => recvErrorMessageDone
  | .chunkRecvErrorTail => recvErrorTailDone inp
  | .chunkRecvOffsetData => recvOffsetDataDone
  | .chunkRecvOffsetDataData => recvOffsetDataDataDone inp
  | .chunkRecvOffsetHole => recvOffsetHoleDone inp
  | .chunkRecvBsHeader => recvBsHeaderDone inp
  | .chunkRecvBsEntries => recvBsEntriesDone inp
  | _ => resyncDone

theorem payloadDone_blind (inp : Input) (s : State) : Blind (payloadDone inp s) := by
  unfold payloadDone
  cases s
  case replyRecvStructuredRemaining => exact fun _ => rfl
  case simpleRecvReadPayload => exact simpleReadPayloadDone_blind inp
  case chunkRecvError => exact recvErrorDone_blind
  case chunkRecvErrorMessage => exact recvErrorMessageDone_blind
  case chunkRecvErrorTail => exact recvErrorTailDone_blind inp
  case chunkRecvOffsetData => exact recvOffsetDataDone_blind
  case chunkRecvOffsetDataData => exact recvOffsetDataDataDone_blind inp
  case chunkRecvOffsetHole => exact recvOffsetHoleDone_blind inp
  case chunkRecvBsHeader => exact recvBsHeaderDone_blind inp
  case chunkRecvBsEntries => exact recvBsEntriesDone_blind inp
  all_goals exact resyncDone_blind

theorem enter_payload (inp : Input) {h : Handle} (hs : h.state.isPayload = true)
    (hn : h.state = .chunkResync → h.rx.rbuf = .null) :
    enter inp h = recvThen inp (payloadDone inp h.state) h := by
  unfold enter
  cases hst : h.state <;> simp only [hst, State.isPayload, Bool.false_eq_true] at hs ⊢
  case chunkResync =>
    unfold enterChunkResync
    rw [hn hst]
    rfl
  all_goals rfl

theorem enter_payload_done (inp : Input) {h : Handle} (hs : h.state.isPayload = true)
    (hn : h.state = .chunkResync → h.rx.rbuf = .null) (hz : h.rx.rlen = 0) :
    enter inp h = payloadDone inp h.state h := by
  rw [enter_payload inp hs hn, recvThen, recvIntoRbuf, if_pos hz]

section Serves

variable {w : World} {inp : Input}

theorem Input.Serves.payloadDone (hs : inp.Serves w) (s : State) :
    payloadDone inp s = Libnbd.payloadDone w.input s := by
  obtain ⟨recv, send, shut, pending, alloc, callback⟩ := inp
  obtain ⟨rfl, rfl, -⟩ := hs
  cases s <;> rfl

theorem Input.Serves.finishCommand (hs : inp.Serves w) (h : Handle) :
    enterReplyFinishCommand inp h = enterReplyFinishCommand w.input h := by
  obtain ⟨recv, send, shut, pending, alloc, callback⟩ := inp
  obtain ⟨rfl, rfl, -⟩ := hs
  rfl

theorem Input.Serves.abortAll (hs : inp.Serves w) (h : Handle) :
    abortAll inp h = Libnbd.abortAll w.input h := by
  have hone : ∀ h cmd, abortCommand inp h cmd = abortCommand w.input h cmd := by
    obtain ⟨recv, send, shut, pending, alloc, callback⟩ := inp
    obtain ⟨rfl, rfl, -⟩ := hs
    exact fun _ _ => rfl
  have hall : ∀ cmds h, abortCommands inp h cmds = abortCommands w.input h cmds := by
    intro cmds
    induction cmds with
    | nil => exact fun _ => rfl
    | cons cmd cmds ih =>
      intro h
      simp only [abortCommands, hone, ih]
  simp only [Libnbd.abortAll, hall]

/-- One `recv` of a receiving state. -/
theorem Input.Serves.recvIntoRbuf (hs : inp.Serves w) {h : Handle}
    (hst : h.state = .replyRecvReply ∨ h.state.isPayload = true) :
    ∃ h', h'.forget = (h.store (received inp h)).forget ∧
      (received inp h).length ≤ h.rx.rlen ∧
      (h'.rx.rlen ≠ 0 ∧ recvIntoRbuf inp h = .more h' ∨
        h'.rx.rlen = 0 ∧ recvIntoRbuf inp h = .done h') := by
  have hne : h.state ≠ .replyStart := by
    intro he
    rw [he] at hst
    rcases hst with hst | hst <;> cases hst
  have hnothing : received inp h = [] →
      h.forget = (h.store (received inp h)).forget ∧ (received inp h).length ≤ h.rx.rlen := by
    intro he
    rw [he]
    exact ⟨(store_nil h).symm, Nat.zero_le _⟩
  unfold Libnbd.recvIntoRbuf
  rcases hs.recv with hr | ⟨bs, hbs, hr⟩
  · obtain ⟨h₁, h₂⟩ := hnothing (by simp only [received, hr])
    refine ⟨h, h₁, h₂, ?_⟩
    by_cases hz : h.rx.rlen = 0
    · exact .inr ⟨hz, by rw [if_pos hz]⟩
    · exact .inl ⟨hz, by rw [if_neg hz, hr]⟩
  · have hrec : received inp h = bs.take h.recvWant := by
      simp only [received, hr, if_neg hne, if_pos hst]
    by_cases hz : h.rx.rlen = 0
    · have hw : h.recvWant = 0 := Nat.le_zero.mp (hz ▸ h.recvWant_le)
      obtain ⟨h₁, h₂⟩ := hnothing (by rw [hrec, hw, List.take_zero])
      exact ⟨h, h₁, h₂, .inr ⟨hz, by rw [if_pos hz]⟩⟩
    · have hw : h.recvWant ≠ 0 := by
        unfold Handle.recvWant
        have : 0 < bufsiz := by decide
        split <;> omega
      have hgot : bs.take h.recvWant ≠ [] := by
        simp only [ne_eq, List.take_eq_nil_iff, not_or]
        exact ⟨hw, hbs⟩
      refine ⟨h.store (bs.take h.recvWant), by rw [hrec], ?_, ?_⟩
      · rw [hrec]
        exact take_recvWant_le h bs
      · rw [if_neg hz, hr]
        simp only [if_neg hgot]
        by_cases hz' : (h.store (bs.take h.recvWant)).rx.rlen = 0
        · exact .inr ⟨hz', by rw [if_pos hz']⟩
        · exact .inl ⟨hz', by rw [if_neg hz']⟩

end Serves

/-- A step that needs no input. -/
theorem path_next {w : World} {h : Handle} (hn : normal w h = h.forget) (hd : h.state ≠ .dead)
    (hh : ¬ Hungry h) (hb : (enter w.input h.forget).forget = (enter w.input h).forget)
    (hstop : (enter w.input h).Stops fun _ => False) :
    (enter w.input h).All fun h' => (parser w).Path (normal w h) [] (normal w h') := by
  have hnext : (parser w).next h.forget = (enter w.input h).normal w := by
    have : ¬ (h.forget.state = .dead ∨ Hungry h.forget) := by
      rintro (hs | hs)
      · exact hd hs
      · exact hh hs
    simp only [parser, if_neg this]
    exact Outcome.normal_congr hb
  rw [hn]
  cases ho : enter w.input h with
  | abort a => trivial
  | next h' =>
    rw [ho] at hnext
    exact .one_next hnext
  | block h' | fail h' =>
    rw [ho] at hstop
    exact hstop.elim

section Paths

variable {w : World} {inp : Input} {h : Handle}

theorem of_forget_store {h' : Handle} {xs : List UInt8} (he : h'.forget = (h.store xs).forget) :
    h'.state = h.state ∧ h'.rx = (h.store xs).rx := by
  have h₁ : h'.forget.state = (h.store xs).forget.state := by rw [he]
  have h₂ : h'.forget.rx = (h.store xs).forget.rx := by rw [he]
  exact ⟨h₁, h₂⟩

theorem State.isReceiving_of_isPayload {s : State} (h : s.isPayload = true) :
    s.isReceiving = true := by
  cases s <;> simp_all [State.isPayload, State.isReceiving]

theorem finishCommand_stops (inp : Input) (h : Handle) (P : Handle → Prop) :
    (enterReplyFinishCommand inp h).Stops P := by
  apply require_stops
  split
  · trivial
  · split
    · trivial
    · simp only
      split
      · trivial
      · exact require_stops trivial

/-- `CHECK_REPLY_MAGIC` and the states that only look at the handle. -/
theorem path_silent (hs : inp.Serves w) (hst : h.state = .replyCheckReplyMagic ∧ shortMagicBad h = false ∨
    h.state = .simpleStart ∨ h.state = .chunkStart ∨ h.state = .chunkFinish ∨
    h.state = .replyFinishCommand) :
    (enter inp h).All fun h' => (parser w).Path (normal w h) [] (normal w h') := by
  have hin : enter inp h = enter w.input h := by
    rcases hst with ⟨hst, -⟩ | hst | hst | hst | hst <;> simp only [enter, hst]
    exact hs.finishCommand h
  rw [hin]
  apply path_next
  · rcases hst with ⟨hst, hb⟩ | hst | hst | hst | hst <;> simp [normal, hst]
    simp [hb]
  · rcases hst with ⟨hst, -⟩ | hst | hst | hst | hst <;> rw [hst] <;> simp
  · rintro ⟨hr, -⟩
    rcases hst with ⟨hst, -⟩ | hst | hst | hst | hst <;> rw [hst] at hr <;>
      simp [State.isPayload] at hr
  · rcases hst with ⟨hst, -⟩ | hst | hst | hst | hst <;> simp only [enter, forget_state, hst]
    · exact enterReplyCheckReplyMagic_blind h
    · exact enterSimpleStart_blind h
    · exact enterChunkStart_blind h
    · exact enterChunkFinish_blind h
    · exact enterReplyFinishCommand_blind _ h
  · rcases hst with ⟨hst, -⟩ | hst | hst | hst | hst
    case inr.inr.inr.inr =>
      simp only [enter, hst]
      exact finishCommand_stops _ _ _
    all_goals exact receiving_stops (by rw [hst]; rfl) (by rw [hst]; simp) _

/-- The states that receive a payload. -/
theorem path_payload (hs : inp.Serves w) (hst : h.state.isPayload = true)
    (hn : h.state = .chunkResync → h.rx.rbuf = .null) :
    (enter inp h).All fun h' => (parser w).Path (normal w h) (received inp h) (normal w h') := by
  obtain ⟨h', he, hlen, hcode⟩ := hs.recvIntoRbuf (.inr hst)
  obtain ⟨hst', hrx⟩ := of_forget_store he
  have hp := path_store (w := w) (.inr hst) hlen
  rw [← normal_congr he] at hp
  have hpay : h'.state.isPayload = true := by rw [hst']; exact hst
  have hnorm : normal w h' = h'.forget := normal_of_isMid (State.isMid_of_isPayload hpay)
  rw [enter_payload inp hst hn, recvThen]
  rcases hcode with ⟨hz, hcode⟩ | ⟨hz, hcode⟩
  · -- the state is saved, and resumed in normal form
    rw [hcode]
    refine require_all fun _ => require_all fun hr => require_all fun hne => ?_
    have hr : h'.rx.replyState = .start := by simpa using hr
    have hne : h'.state ≠ .start := by simpa using hne
    have hsaved : normal w { h' with state := .ready, rx := { h'.rx with replyState := h'.state } } =
        h'.forget := by
      have := resumed_saved (h := { h' with state := .ready, rx := { h'.rx with replyState := h'.state } })
        hz hne
      simp only [normal, this]
      rw [← hr]
    show (parser w).Path _ _ (normal w { h' with state := .ready, rx := { h'.rx with replyState := h'.state } })
    rw [hsaved, ← hnorm]
    exact hp
  · rw [hcode, hs.payloadDone, ← hst']
    have hn' : h'.state = .chunkResync → h'.rx.rbuf = .null := by
      intro hr
      rw [hrx]
      simp only [Handle.store, hn (hst' ▸ hr), Rbuf.advance]
    have hdone : ∀ inp, enter inp h' = payloadDone inp h'.state h' := fun inp =>
      enter_payload_done inp hpay hn' hz
    have hnext := path_next (w := w) hnorm
      (by intro hd; rw [hd] at hpay; cases hpay) (fun hh => hh.2 hz) ?_ ?_
    · simp only [← hdone]
      refine hnext.mono fun h'' hp' => ?_
      have := hp.append hp'
      rwa [List.append_nil] at this
    · rw [hdone]
      have hdone' : enter w.input h'.forget = payloadDone w.input h'.state h'.forget :=
        enter_payload_done w.input (h := h'.forget) hpay hn' hz
      rw [hdone']
      exact payloadDone_blind _ _ h'
    · exact receiving_stops (State.isReceiving_of_isPayload hpay)
        (by intro hd; rw [hd] at hpay; cases hpay) _

/-- `RECV_REPLY`. -/
theorem path_header (hs : inp.Serves w) (hst : h.state = .replyRecvReply)
    (hrs : h.rx.replyState = .start) :
    (enter inp h).All fun h' => (parser w).Path (normal w h) (received inp h) (normal w h') := by
  obtain ⟨h', he, hlen, hcode⟩ := hs.recvIntoRbuf (.inl hst)
  obtain ⟨hst', hrx⟩ := of_forget_store he
  have hst' : h'.state = .replyRecvReply := hst'.trans hst
  have hrs' : h'.rx.replyState = .start := by rw [hrx]; exact hrs
  have hp := path_store (w := w) (.inl hst) hlen
  rw [← normal_congr he] at hp
  simp only [enter, hst, enterReplyRecvReply]
  rcases hcode with ⟨hz, hcode⟩ | ⟨hz, hcode⟩
  · rw [hcode]
    simp only
    split
    · rename_i hbad
      have h₁ : normal w h' = buried w h' := by simp only [normal, hst', if_pos hbad]
      rw [h₁] at hp
      exact hp
    · rename_i hbad
      have h₁ : normal w h' = h'.forget := by simp only [normal, hst', if_neg hbad]
      have h₂ : normal w { h' with state := .ready } = h'.forget := by
        have := resumed_header (h := { h' with state := .ready }) hz hrs'
        simp only [normal, this]
        rw [← hst']
      rw [h₁, ← h₂] at hp
      exact hp
  · rw [hcode]
    show (parser w).Path _ _ (normal w { h' with state := .replyCheckReplyMagic })
    by_cases hbad : shortMagicBad h' = true
    · have h₁ : normal w h' = buried w h' := by simp only [normal, hst', if_pos hbad]
      have hbad' : shortMagicBad { h' with state := .replyCheckReplyMagic } = true := hbad
      have h₂ : normal w { h' with state := .replyCheckReplyMagic } = buried w h' := by
        simp only [normal, if_pos hbad']
        rfl
      rw [h₂, ← h₁]
      exact hp
    · have h₁ : normal w h' = h'.forget := by simp only [normal, hst', if_neg hbad]
      have hdone : ∀ h₀ : Handle, h₀.state = .replyRecvReply → h₀.rx.rlen = 0 →
          enter w.input h₀ = goto .replyCheckReplyMagic h₀ := by
        intro h₀ hs₀ hz₀
        simp only [enter, hs₀, enterReplyRecvReply, recvIntoRbuf, if_pos hz₀]
      have hnext := path_next (w := w) h₁ (by rw [hst']; simp) (fun hh => hh.2 hz) ?_ ?_
      · rw [hdone h' hst' hz] at hnext
        have := hp.append hnext
        rwa [List.append_nil] at this
      · rw [hdone h' hst' hz, hdone h'.forget hst' hz]
        rfl
      · rw [hdone h' hst' hz]
        trivial

/-- `REPLY.START`. -/
theorem path_start (hs : inp.Serves w) (hst : h.state = .replyStart) (hr : RxInv h) :
    (enter inp h).All fun h' => (parser w).Path (normal w h) (received inp h) (normal w h') ∧
      h'.state ≠ .closed := by
  have hn : normal w h = h.resumed.forget := by simp only [normal, hst]
  have halive : h.alive := by simp [Handle.alive, hst]
  simp only [enter, hst, enterReplyStart]
  split
  · rename_i hpos
    have hz : h.rx.rlen ≠ 0 := by omega
    have hrec : received inp h = [] := by
      unfold received
      split
      · rw [if_pos hst, if_neg hz]
      · rfl
    rw [hrec, hn]
    split
    · rename_i hne
      refine require_all fun _ => ?_
      obtain ⟨hp, -, -⟩ := hr.saved hne
      have hm := State.isMid_of_isPayload hp
      refine ⟨?_, fun hc => ?_⟩
      · rw [resumed_saved hz hne]
        show (parser w).Path _ _ (normal w { h with state := h.rx.replyState
                                                    rx := { h.rx with replyState := .start } })
        rw [normal_of_isMid hm]
        exact .nil _
      · rw [show h.rx.replyState = .closed from hc] at hm
        cases hm
    · rename_i hs₀
      have hrs : h.rx.replyState = .start := by simpa using hs₀
      have hl := hr.layout halive
      rw [Handle.logical_of_not_isMid (by rw [hst]; rfl), hrs] at hl
      have hseen := (layout_start_between (by rw [hst]; rfl) hl halive).resolve_left hz
      refine ⟨?_, (by simp)⟩
      rw [resumed_header hz hrs]
      have hb : ¬ shortMagicBad { h with state := .replyRecvReply } = true := by
        rw [show shortMagicBad { h with state := .replyRecvReply } = shortMagicBad h from rfl, hseen.2]
        simp
      show (parser w).Path _ _ (normal w { h with state := .replyRecvReply })
      simp only [normal, if_neg hb]
      exact .nil _
  · rename_i hpos
    have hz : h.rx.rlen = 0 := by omega
    refine require_all fun _ => ?_
    -- an empty header waits for its first byte
    have hprep : normal w { h.prepareReply with state := .replyRecvReply } = normal w h := by
      have hb : ¬ shortMagicBad { h.prepareReply with state := .replyRecvReply } = true := by
        simp [shortMagicBad, Handle.prepareReply]
      rw [hn, resumed_empty hz]
      simp only [normal, if_neg hb]
    rcases hs.recv with hrecv | ⟨bs, hbs, hrecv⟩
    · have hrec : received inp h = [] := by simp only [received, hrecv]
      have hblock : normal w h.prepareReply = normal w h := by
        have hsize : h.prepareReply.rx.rlen ≠ 0 := by
          simp only [Handle.prepareReply, Handle.replyHeaderSize]
          split <;> decide
        have hrs : h.prepareReply.rx.replyState = .start := by
          by_contra hne
          exact (hr.saved hne).2.1 hz
        have hst' : h.prepareReply.state = .replyStart := hst
        rw [hn, resumed_empty hz]
        simp only [normal, hst', resumed_header hsize hrs]
      rw [hrecv, hrec]
      refine ⟨?_, ?_⟩
      · show (parser w).Path _ _ (normal w h.prepareReply)
        rw [hblock]
        exact .nil _
      · show h.prepareReply.state ≠ .closed
        rw [show h.prepareReply.state = .replyStart from hst]
        simp
    · have hrec : received inp h = bs.take h.replyHeaderSize := by
        simp only [received, hrecv, if_pos hst, if_pos hz]
      have hgot : bs.take h.replyHeaderSize ≠ [] := by
        simp only [ne_eq, List.take_eq_nil_iff, not_or]
        refine ⟨?_, hbs⟩
        unfold Handle.replyHeaderSize
        split <;> decide
      rw [hrecv, hrec]
      simp only [if_neg hgot]
      refine ⟨?_, (by simp)⟩
      rw [← hprep]
      refine path_store (h := { h.prepareReply with state := .replyRecvReply }) (.inl rfl) ?_
      exact (List.length_take_le _ _)

theorem abortAll_again (inp : Input) {h : Handle} (h₁ : h.q.cmdsToIssue = [])
    (h₂ : h.q.cmdsInFlight = []) (h₃ : h.q.inFlight = 0) (h₄ : h.sock = false) :
    abortAll inp h = .ok h := by
  obtain ⟨state, exp, strict, pi, dr, sock, rx, tx, q, bs, cs, br, cr, le, mem, stores, trace⟩ := h
  obtain ⟨toIssue, tail, flying, done, doneTail, n, u⟩ := q
  simp only at h₁ h₂ h₃ h₄
  subst h₁ h₂ h₃ h₄
  rfl

theorem normal_dead (hd : h.state = .dead) : normal w h = buried w h := by
  simp only [normal, hd]

/-- `DEAD`: aborting the commands once more changes nothing. -/
theorem path_dead (hs : inp.Serves w) (hst : h.state = .dead) (hinv : h.book.Inv) (ht : Tails h) :
    (enter inp h).All fun h' => (parser w).Path (normal w h) (received inp h) (normal w h') ∧
      h'.state = .dead ∧ h'.q.cmdsToIssue = [] ∧ h'.q.cmdsInFlight = [] ∧ h'.q.inFlight = 0 ∧
      h'.sock = false := by
  have hrec : received inp h = [] := by
    unfold received
    split
    · simp [hst, State.isPayload]
    · rfl
  obtain ⟨-, -, h', -, -, hok, hdo, -, -, -, -⟩ := abortAll_ok inp hinv ht
  have hq : h'.state = .dead ∧ h'.q.cmdsToIssue = [] ∧ h'.q.cmdsInFlight = [] ∧ h'.q.inFlight = 0 ∧
      h'.sock = false := by
    rw [hdo]
    exact ⟨hst, rfl, rfl, rfl, rfl⟩
  simp only [enter, hst, enterDead, hok]
  refine require_all fun _ => ⟨?_, hq⟩
  have h₁ : normal w h = h'.shroud := by
    rw [normal_dead hst, buried, abortAll_shroud, ← hs.abortAll, hok]
    rfl
  have h₂ : normal w h' = h'.shroud := by
    rw [normal_dead hq.1, buried, abortAll_shroud, abortAll_again _ hq.2.1 hq.2.2.1 hq.2.2.2.1
      hq.2.2.2.2]
    rfl
  rw [h₁, h₂, hrec]
  exact .nil _

/-- `CHECK_REPLY_MAGIC`, when the magic number is known to be bad. -/
theorem path_badMagic (hst : h.state = .replyCheckReplyMagic) (hbad : shortMagicBad h = true) :
    (enter inp h).All fun h' => (parser w).Path (normal w h) [] (normal w h') := by
  obtain ⟨hext, -, hm⟩ := shortMagicBad_iff.mp hbad
  have hn : normal w h = buried w h := by simp only [normal, hst, if_pos hbad]
  have hdead : (goto .dead (h.setError 0 "invalid or unexpected reply magic")).All fun h' =>
      (parser w).Path (normal w h) [] (normal w h') := by
    rw [hn]
    exact .nil _
  simp only [enter, hst, enterReplyCheckReplyMagic, hext, if_true, if_neg hm]
  split
  · exact hdead
  · split
    · exact hdead
    · exact hdead

theorem checkReplyMagic_not_closed (h : Handle) :
    (enterReplyCheckReplyMagic h).All fun h' => h'.state ≠ .closed := by
  unfold enterReplyCheckReplyMagic
  refine ite_all (fun _ => ite_all (fun _ => nofun) fun _ => nofun) fun _ => ?_
  refine ite_all (fun _ => ite_all (fun _ => nofun) fun _ => require_all fun _ => nofun) fun _ => ?_
  exact ite_all (fun _ => ite_all (fun _ => nofun) fun _ => nofun) fun _ => nofun

end Paths

/-! ## Whole runs -/

theorem finishCommand_ready (inp : Input) (h : Handle) :
    (enterReplyFinishCommand inp h).All fun h' =>
      h'.state = .ready ∧ h'.q.cmdsToIssue = h.q.cmdsToIssue := by
  refine require_all fun _ => ?_
  split
  · exact ⟨rfl, rfl⟩
  · split
    · trivial
    · simp only
      split
      · trivial
      · rename_i h' hset
        refine require_all fun _ => ⟨rfl, ?_⟩
        have hdo := settle_doneOnly hset
        show h'.q.cmdsToIssue = _
        rw [hdo]
        rfl

/-- What a step leaves behind. -/
structure ServePost (w : World) (xs : List UInt8) (h h' : Handle) : Prop where
  path : (parser w).Path (normal w h) xs (normal w h')
  queue : h'.q.cmdsToIssue = []
  state : h'.state.isReplying = true
  notClosed : h'.state ≠ .closed

/-- Nothing is left to abort. -/
def Ended (h : Handle) : Prop :=
  h.q.cmdsInFlight = [] ∧ h.q.inFlight = 0 ∧ h.sock = false

/-- A run that handles replies, between two steps. -/
structure Serving (c : Config) : Prop where
  good : Good c
  queue : c.h.q.cmdsToIssue = []
  state : c.h.state.isReplying = true
  notClosed : c.h.state ≠ .closed
  ctl : c.ctl = .running .notify ∨ ∃ r, c.ctl = .idle r
  ended : ∀ r, c.ctl = .idle r → c.h.state = .dead → Ended c.h

theorem receiving_serves {w : World} {inp : Input} {h : Handle} (hs : inp.Serves w) (hr : RxInv h)
    (hq : h.q.cmdsToIssue = []) (hst : h.state.isReceiving = true) :
    (enter inp h).All (ServePost w (received inp h) h) := by
  have hpost := enter_post inp hr hst
  have hquiet := enter_quiet inp hst
  have halive : h.alive := by
    constructor <;> (intro hd; rw [hd] at hst; cases hst)
  -- the bytes received, and no end of file
  have hpath : (enter inp h).All fun h' =>
      (parser w).Path (normal w h) (received inp h) (normal w h') ∧ h'.state ≠ .closed := by
    by_cases hstart : h.state = .replyStart
    · exact path_start hs hstart hr
    have hnothing : h.state ≠ .replyRecvReply → h.state.isPayload = false → received inp h = [] := by
      intro h₁ h₂
      unfold received
      split
      · simp [hstart, h₁, h₂]
      · rfl
    have hmid : h.state.isMid = true → (enter inp h).All fun h' => h'.state ≠ .closed := fun hm =>
      hpost.mono fun _ hp => hp.notClosed (by rw [Handle.logical_of_isMid hm]; exact hm)
    have hboth : ∀ {P : Handle → Prop}, (enter inp h).All P →
        ((enter inp h).All fun h' => h'.state ≠ .closed) →
        (enter inp h).All fun h' => P h' ∧ h'.state ≠ .closed := by
      intro P h₁ h₂
      cases ho : enter inp h with
      | abort a => trivial
      | next h' | block h' | fail h' =>
        rw [ho] at h₁ h₂
        exact ⟨h₁, h₂⟩
    cases hk : h.state.isPayload with
    | true =>
      refine hboth (path_payload hs hk fun hres => ?_) (hmid (State.isMid_of_isPayload hk))
      have hat := hr.at (State.isMid_of_isPayload hk)
      rw [hres] at hat
      exact hat.layout.2
    | false =>
      by_cases hreply : h.state = .replyRecvReply
      · refine hboth (path_header hs hreply (hr.between (by rw [hreply]; rfl) (by rw [hreply]; rfl)).1) ?_
        simp only [enter, hreply, enterReplyRecvReply]
        split
        · rintro ⟨⟩
        · split <;> rintro ⟨⟩
        · rintro ⟨⟩
      rw [hnothing hreply hk]
      by_cases hcheck : h.state = .replyCheckReplyMagic
      · refine hboth ?_ ?_
        · cases hbad : shortMagicBad h with
          | true => exact path_badMagic hcheck hbad
          | false => exact path_silent hs (.inl ⟨hcheck, hbad⟩)
        · simp only [enter, hcheck]
          exact checkReplyMagic_not_closed h
      · have hrest : h.state = .simpleStart ∨ h.state = .chunkStart ∨ h.state = .chunkFinish := by
          cases hs₀ : h.state <;> simp_all [State.isReceiving, State.isPayload]
        refine hboth (path_silent hs ?_) (hmid ?_)
        · rcases hrest with h₁ | h₁ | h₁
          · exact .inr (.inl h₁)
          · exact .inr (.inr (.inl h₁))
          · exact .inr (.inr (.inr (.inl h₁)))
        · rcases hrest with h₁ | h₁ | h₁ <;> rw [h₁] <;> rfl
  cases ho : enter inp h with
  | abort a => trivial
  | next h' | block h' | fail h' =>
    rw [ho] at hpost hquiet hpath
    exact ⟨hpath.1, by rw [hquiet.q]; exact hq, hpost.side, hpath.2⟩

theorem enter_serves {w : World} {inp : Input} {h : Handle} (hs : inp.Serves w) (hr : RxInv h)
    (hinv : h.book.Inv) (ht : Tails h) (hq : h.q.cmdsToIssue = []) (hst : h.state.isReplying = true)
    (hcl : h.state ≠ .closed) :
    (enter inp h).All (ServePost w (received inp h) h) ∧
      (enter inp h).Stops fun h' => h'.state = .dead → Ended h' := by
  have hnothing : h.state.isReceiving = false → received inp h = [] := by
    intro h₀
    unfold received
    split
    · have h₁ : h.state ≠ .replyStart := by intro he; rw [he] at h₀; cases h₀
      have h₂ : ¬ (h.state = .replyRecvReply ∨ h.state.isPayload = true) := by
        rintro (he | he)
        · rw [he] at h₀
          cases h₀
        · rw [State.isReceiving_of_isPayload he] at h₀
          cases h₀
      rw [if_neg h₁, if_neg h₂]
    · rfl
  by_cases hrecv : h.state.isReceiving = true
  · refine ⟨receiving_serves hs hr hq hrecv, ?_⟩
    by_cases hstart : h.state = .replyStart
    · simp only [enter, hstart, enterReplyStart]
      split
      · split
        · exact require_stops trivial
        · trivial
      · refine require_stops ?_
        split
        · intro hd
          have : h.state = .dead := hd
          rw [hstart] at this
          cases this
        · trivial
        · split <;> trivial
    · exact receiving_stops hrecv hstart _
  · rw [hnothing (by simpa using hrecv)]
    cases hs₀ : h.state <;> simp only [hs₀, State.isReplying, State.isReceiving, Bool.false_eq_true,
      not_true_eq_false] at hst hrecv
    case closed => exact absurd hs₀ hcl
    case ready =>
      have hn : normal w { h with state := .replyStart } = normal w h := by
        simp only [normal, hs₀]
        rfl
      simp only [enter, hs₀, enterReady, if_neg (not_not.mpr hq)]
      constructor
      · refine require_all fun _ => ite_all (fun _ => ?_) fun _ => ?_
        · refine ⟨?_, hq, rfl, (by simp)⟩
          rw [hn]
          exact .nil _
        · exact ⟨.nil _, hq, by rw [hs₀]; rfl, hcl⟩
      · refine require_stops (ite_stops trivial ?_)
        intro hd
        rw [hs₀] at hd
        cases hd
    case dead =>
      have hp := path_dead hs hs₀ hinv ht
      rw [hnothing (by rw [hs₀]; rfl)] at hp
      refine ⟨hp.mono fun h' hp => ⟨hp.1, hp.2.2.1, by rw [hp.2.1]; rfl, by rw [hp.2.1]; simp⟩,
        All.stops (hp.mono fun h' hp _ => hp.2.2.2)⟩
    case replyFinishCommand =>
      have hp := path_silent (w := w) hs (.inr (.inr (.inr (.inr hs₀))))
      have hready := finishCommand_ready inp h
      have hstop := finishCommand_stops inp h fun h' => h'.state = .dead → Ended h'
      simp only [enter, hs₀] at hp ⊢
      refine ⟨?_, hstop⟩
      cases ho : enterReplyFinishCommand inp h with
      | abort a => trivial
      | next h' | block h' | fail h' =>
        rw [ho] at hp hready
        exact ⟨hp, hready.2.trans hq, by rw [hready.1]; rfl, by rw [hready.1]; simp⟩

theorem startRun_notifyRead {h : Handle} (hs : h.state.isReplying = true) :
    (h.state = .ready ∨ h.state = .replyStart) ∧
      startRun .notifyRead .notify h = ⟨{ h with state := .replyStart }, .running .notify⟩ ∨
    ∃ e, startRun .notifyRead .notify h = ⟨{ h with lastError := e }, .idle (-1)⟩ := by
  have hev : (h.state = .ready ∨ h.state = .replyStart) ∧
      externalEvent .notifyRead h.state = some .replyStart ∨
      externalEvent .notifyRead h.state = none := by
    cases hst : h.state <;> simp_all [State.isReplying, State.isReceiving, externalEvent]
  unfold startRun
  rcases hev with ⟨hst, hev⟩ | hev
  · rw [hev]
    exact .inl ⟨hst, rfl⟩
  · rw [hev]
    exact .inr ⟨_, rfl⟩

/-- A step of the machine is a path of the parser. -/
theorem step_serves {w : World} {c c' : Config} {l : Label} (hc : Serving c) (hl : l.Serves w)
    (h : step c l = some c') :
    (∃ a, c'.ctl = .aborted a) ∨
      Serving c' ∧ (parser w).Path (normal w c.h) (taken c l) (normal w c'.h) := by
  by_cases hclosed : c'.ctl = .closed
  · obtain ⟨inp, k, -, -, rfl⟩ | ⟨api, inp, r, rfl, hctl, rfl⟩ := step_cases h
    · obtain ⟨h', -, he⟩ | ⟨h', d, r, -, he⟩ | ⟨a, -, he⟩ := stepEnter_cases inp k c.h <;>
        rw [he] at hclosed <;> cases hclosed
    · cases hl
      obtain ⟨-, he⟩ | ⟨e, he⟩ := startRun_notifyRead (h := { c.h with lastError := inp.lastError }) hc.state <;>
        simp only [apiCall, he] at hclosed <;> cases hclosed
  have hgood := (step_good hc.good h).resolve_left hclosed
  obtain ⟨inp, k, rfl, hctl, rfl⟩ | ⟨api, inp, r, rfl, hctl, rfl⟩ := step_cases h
  · have hk : k = .notify := by
      rcases hc.ctl with hn | ⟨r, hn⟩ <;> rw [hn] at hctl <;> cases hctl
      rfl
    subst hk
    obtain ⟨hall, hstop⟩ := enter_serves hl hc.good.rx hc.good.sound.inv hc.good.sound.tails hc.queue
      hc.state hc.notClosed
    unfold stepEnter at hgood ⊢
    cases ho : enter inp c.h with
    | abort a => exact .inl ⟨a, rfl⟩
    | next h' =>
      rw [ho] at hall hgood
      exact .inr ⟨⟨hgood, hall.queue, hall.state, hall.notClosed, .inl rfl, (by simp)⟩, hall.path⟩
    | block h' | fail h' =>
      rw [ho] at hall hgood hstop
      exact .inr ⟨⟨hgood, hall.queue, hall.state, hall.notClosed, .inr ⟨_, rfl⟩,
        fun _ _ hd => hstop hd⟩, hall.path⟩
  · cases hl
    have hfor : normal w { c.h with lastError := inp.lastError } = normal w c.h := normal_congr rfl
    right
    obtain ⟨hs, he⟩ | ⟨e, he⟩ := startRun_notifyRead (h := { c.h with lastError := inp.lastError }) hc.state
    · simp only [apiCall, he] at hgood ⊢
      refine ⟨⟨hgood, hc.queue, rfl, (by simp), .inl rfl, (by simp)⟩, ?_⟩
      have hn : normal w { c.h with lastError := inp.lastError, state := .replyStart } = normal w c.h := by
        rw [← hfor]
        rcases hs with hs | hs <;> simp only at hs <;> simp only [normal, hs]
        rfl
      show (parser w).Path (normal w c.h) [] (normal w { c.h with lastError := inp.lastError, state := .replyStart })
      rw [hn]
      exact .nil _
    · simp only [apiCall, he] at hgood ⊢
      refine ⟨⟨hgood, hc.queue, hc.state, hc.notClosed, .inr ⟨_, rfl⟩,
        fun _ _ hd => hc.ended r hctl hd⟩, ?_⟩
      show (parser w).Path (normal w c.h) [] (normal w { c.h with lastError := e })
      have hn : normal w { c.h with lastError := e } = normal w c.h := normal_congr rfl
      rw [hn]
      exact .nil _

theorem run_serves {w : World} {ls : List Label} {c c' : Config} (hc : Serving c)
    (hl : ∀ l ∈ ls, l.Serves w) (h : machine.exec c ls = some c') :
    (∃ a, c'.ctl = .aborted a) ∨
      Serving c' ∧ (parser w).Path (normal w c.h) (consumed c ls) (normal w c'.h) := by
  induction ls generalizing c with
  | nil =>
    cases h
    exact .inr ⟨hc, .nil _⟩
  | cons l ls ih =>
    obtain ⟨c₁, hstep, hrest⟩ := Option.bind_eq_some_iff.mp h
    have hcons : consumed c (l :: ls) = taken c l ++ consumed c₁ ls := by
      simp only [consumed, hstep, Option.map_some, Option.getD_some]
    rcases step_serves hc (hl l List.mem_cons_self) hstep with ⟨a, ha⟩ | ⟨hc₁, hp⟩
    · -- an aborted process takes no further step
      cases ls with
      | nil =>
        cases hrest
        exact .inl ⟨a, ha⟩
      | cons m ms =>
        obtain ⟨c₂, hstep₂, -⟩ := Option.bind_eq_some_iff.mp hrest
        cases m <;> simp [machine, step, ha] at hstep₂
    · rcases ih hc₁ (fun m hm => hl m (List.mem_cons_of_mem _ hm)) hrest with hab | ⟨hc', hp'⟩
      · exact .inl hab
      · rw [hcons]
        exact .inr ⟨hc', hp.append hp'⟩

/-! ## The end of a run -/

theorem Serving.idle_state {c : Config} {r : Int} (hc : Serving c) (hctl : c.ctl = .idle r) :
    c.h.state = .ready ∨ c.h.state = .replyStart ∨ c.h.state = .dead := by
  have hb := hc.good.between r hctl
  have hs := hc.state
  have hcl := hc.notClosed
  cases hst : c.h.state <;>
    simp_all [State.isReplying, State.isReceiving, State.isBusy, State.isMid]

/-- A handle outside of a call waits for the next byte, or is dead for good. -/
theorem Serving.waiting {c : Config} {r : Int} (hc : Serving c) (hctl : c.ctl = .idle r)
    (w : World) : (parser w).Waiting (normal w c.h) := by
  have hlive : c.h.state = .ready ∨ c.h.state = .replyStart → Hungry c.h.resumed := by
    intro hs
    have halive : c.h.alive := by
      rcases hs with hs | hs <;> simp [Handle.alive, hs]
    by_cases hz : c.h.rx.rlen = 0
    · rw [resumed_empty hz]
      refine ⟨.inl rfl, ?_⟩
      simp only [Handle.prepareReply, Handle.replyHeaderSize]
      split <;> decide
    · by_cases hrs : c.h.rx.replyState = .start
      · rw [resumed_header hz hrs]
        exact ⟨.inl rfl, hz⟩
      · rw [resumed_saved hz hrs]
        exact ⟨.inr (hc.good.rx.saved hrs).1, hz⟩
  have hwait : (c.h.state = .ready ∨ c.h.state = .replyStart) →
      (parser w).Waiting c.h.resumed.forget := by
    intro hs
    have hh : Hungry c.h.resumed.forget := hlive hs
    simp only [Reader.Waiting, parser, if_pos (Or.inr hh)]
  rcases hc.idle_state hctl with hs | hs | hs
  · simpa only [normal, hs] using hwait (.inl hs)
  · simpa only [normal, hs] using hwait (.inr hs)
  · rw [normal_dead hs]
    simp only [Reader.Waiting, parser, buried_state, true_or, if_true]

/-- What the two runs of a comparison are compared by. -/
structure Outlook where
  trace : List Event
  mem : Mem
  inFlight : List Command
  done : List Command
  dead : Bool

def Handle.outlook (h : Handle) : Outlook where
  trace := h.trace
  mem := h.mem
  inFlight := h.q.cmdsInFlight
  done := h.q.cmdsDone
  dead := h.state == .dead

theorem resumed_outlook {c : Config} {r : Int} (hc : Serving c) (hctl : c.ctl = .idle r)
    (w : World) : (normal w c.h).outlook = c.h.outlook := by
  have hlive : c.h.state = .ready ∨ c.h.state = .replyStart →
      c.h.resumed.forget.outlook = c.h.outlook := by
    intro hs
    have hd : (c.h.state == .dead) = false := by
      rcases hs with hs | hs <;> rw [hs] <;> rfl
    by_cases hz : c.h.rx.rlen = 0
    · rw [resumed_empty hz]
      simp only [Handle.outlook, hd]
      rfl
    · by_cases hrs : c.h.rx.replyState = .start
      · rw [resumed_header hz hrs]
        simp only [Handle.outlook, hd]
        rfl
      · have hp := (hc.good.rx.saved hrs).1
        have hd' : (c.h.rx.replyState == .dead) = false := by
          cases hst : c.h.rx.replyState <;> simp_all [State.isPayload]
        rw [resumed_saved hz hrs]
        simp only [Handle.outlook, hd, Handle.forget, hd']
  rcases hc.idle_state hctl with hs | hs | hs
  · simpa only [normal, hs] using hlive (.inl hs)
  · simpa only [normal, hs] using hlive (.inr hs)
  · obtain ⟨h₁, h₂, h₃⟩ := hc.ended r hctl hs
    rw [normal_dead hs, buried, abortAll_shroud, abortAll_again _ hc.queue h₁ h₂ h₃]
    simp only [Handle.outlook, hs]
    rfl

/-- However the run was cut into pieces, the parser has read all of the bytes. -/
theorem Schedule.path {w : World} {bytes : List UInt8} {c c' : Config} {ls : List Label}
    (hs : Schedule w bytes c ls c') (hc : Serving c) :
    (parser w).Path (normal w c.h) bytes (normal w c'.h) ∧ Serving c' := by
  obtain ⟨r, hret⟩ := hs.returned
  have hrun := run_serves hc hs.serves hs.run
  rw [hret] at hrun
  obtain ⟨hc', hp⟩ := hrun.resolve_left nofun
  refine ⟨?_, hc'⟩
  rcases hs.ended with heq | hd
  · rw [← heq]
    exact hp
  · obtain ⟨rest, hrest⟩ := hs.pieces
    rw [normal_dead hd] at hp ⊢
    rw [← hrest]
    exact hp.append (parser_buried w c'.h rest)

/-- **Fragmentation independence.** -/
theorem fragmentation_independent {w : World} {bytes : List UInt8} {c c₁ c₂ : Config} {r : Int}
    {ls₁ ls₂ : List Label} (h : machine.Reachable c) (hctl : c.ctl = .idle r)
    (hready : c.h.state = .ready) (h₁ : Schedule w bytes c ls₁ c₁)
    (h₂ : Schedule w bytes c ls₂ c₂) : c₁.h.outlook = c₂.h.outlook := by
  have hgood : Good c := (reachable_good h).resolve_left (by rw [hctl]; exact nofun)
  have hc : Serving c := by
    refine ⟨hgood, hgood.sound.idle r hctl hready, by rw [hready]; rfl, by rw [hready]; exact nofun,
      .inr ⟨r, hctl⟩, fun _ _ hd => ?_⟩
    rw [hready] at hd
    cases hd
  obtain ⟨hp₁, hs₁⟩ := h₁.path hc
  obtain ⟨hp₂, hs₂⟩ := h₂.path hc
  obtain ⟨r₁, hr₁⟩ := h₁.returned
  obtain ⟨r₂, hr₂⟩ := h₂.returned
  rw [← resumed_outlook hs₁ hr₁ w, ← resumed_outlook hs₂ hr₂ w,
    hp₁.unique hp₂ (hs₁.waiting hr₁ w) (hs₂.waiting hr₂ w)]

/-- The world in which allocations and callbacks succeed. -/
def World.calm : World := ⟨Input.calm.alloc, Input.calm.callback⟩

/-- One `enter` for each piece of the stream, or for `EAGAIN`. -/
def pieces (ps : List (Option (List UInt8))) : List Label :=
  .call .aioNotifyRead .calm :: ps.map fun
    | none => .enter .calm
    | some bs => .enter { Input.calm with recv := .data bs }

theorem pieces_serve {ps : List (Option (List UInt8))} (h : some [] ∉ ps) :
    ∀ l ∈ pieces ps, l.Serves .calm := by
  intro l hl
  rcases List.mem_cons.mp hl with rfl | hl
  · rfl
  · obtain ⟨p, hp, rfl⟩ := List.mem_map.mp hl
    cases p with
    | none => exact ⟨rfl, rfl, .inl rfl⟩
    | some bs =>
      refine ⟨rfl, rfl, .inr ⟨bs, ?_, rfl⟩⟩
      rintro rfl
      exact h hp

/-- A read of four bytes that has been sent. -/
def sentRead : List Label :=
  .call (.command (.aioPread 4096 4 0 .null 0)) .calm :: List.replicate 5 (.enter .calm)

/-- The answer to it. -/
def readReply : List UInt8 :=
  [0x67, 0x44, 0x66, 0x98, 0, 0, 0, 0, 0, 0, 0, 0, 0, 0, 0, 1, 9, 8, 7, 6]

/-- The answer in two pieces, and in five with the machine blocking in between. -/
def readWhole : List Label :=
  pieces [some readReply, none, none, none, some [9, 8, 7, 6], none, none]

def readCut : List Label :=
  pieces [some [0x67], some [0x44, 0x66], none] ++
  pieces [none, some (readReply.drop 3), none, none, some [9], none] ++
  pieces [none, some [8, 7, 6], none, none]

theorem read_reply_cut :
    ∃ c c₁ c₂, machine.exec .calm sentRead = some c ∧ machine.exec c readWhole = some c₁ ∧
      machine.exec c readCut = some c₂ ∧ c₂.h.q.cmdsDone.length = 1 ∧
      c₁.h.outlook = c₂.h.outlook := by
  have hrun : ((machine.exec .calm sentRead).bind fun c => (machine.exec c readWhole).bind fun c₁ =>
      (machine.exec c readCut).map fun c₂ => ((c.ctl, c.h.state), (c₁.ctl, consumed c readWhole),
        (c₂.ctl, consumed c readCut), c₂.h.q.cmdsDone.length)) =
      some ((.idle 1, .ready), (.idle 0, readReply), (.idle 0, readReply), 1) := by decide +kernel
  obtain ⟨c, hc, hrun⟩ := Option.bind_eq_some_iff.mp hrun
  obtain ⟨c₁, hc₁, hrun⟩ := Option.bind_eq_some_iff.mp hrun
  obtain ⟨c₂, hc₂, hp⟩ := Option.map_eq_some_iff.mp hrun
  simp only [Prod.mk.injEq] at hp
  obtain ⟨⟨hctl, hready⟩, ⟨hctl₁, hcons₁⟩, ⟨hctl₂, hcons₂⟩, hdone⟩ := hp
  have hwhole : Schedule .calm readReply c readWhole c₁ := by
    refine ⟨pieces_serve (by decide), hc₁, ?_, ⟨_, hctl₁⟩, .inl hcons₁⟩
    simp only [hcons₁, List.prefix_refl]
  have hcut : Schedule .calm readReply c readCut c₂ := by
    refine ⟨fun l hl => ?_, hc₂, ?_, ⟨_, hctl₂⟩, .inl hcons₂⟩
    · simp only [readCut, List.mem_append] at hl
      rcases hl with (hl | hl) | hl <;> exact pieces_serve (by decide) l hl
    · simp only [hcons₂, List.prefix_refl]
  exact ⟨c, c₁, c₂, hc, hc₁, hc₂, hdone, fragmentation_independent ⟨_, _, Config.initial_calm, hc⟩
    hctl hready hwhole hcut⟩

end Libnbd
