import Libnbd.Run
import Mathlib.Data.List.Forall2

/-!
What the states of the reply engine leave alone.

`Quiet inp h h'` says that a step from `h` to `h'` is silent for the queues: it
changes no queue but for `error` and `dataSeen` of commands in flight, never
clears an error, sends nothing, calls nothing but chunk and extent callbacks of
commands in flight, and keeps in mind when one of them failed. Every state of the groups `REPLY`,
`SIMPLE_REPLY` and `CHUNK_REPLY` except `FINISH_COMMAND` is quiet
(`enter_quiet`); the rest of the machine is `FINISH_COMMAND`, the group
`ISSUE_COMMAND` and the two final states.
-/

namespace Libnbd

open Lib

/-! ## Kinds of states -/

namespace State

/-- The states of the reply engine but for `FINISH_COMMAND`. -/
def isReceiving : State → Bool
  | .replyStart | .replyRecvReply | .replyCheckReplyMagic | .replyRecvStructuredRemaining
  | .simpleStart | .simpleRecvReadPayload
  | .chunkStart | .chunkRecvError | .chunkRecvErrorMessage | .chunkRecvErrorTail
  | .chunkRecvOffsetData | .chunkRecvOffsetDataData | .chunkRecvOffsetHole
  | .chunkRecvBsHeader | .chunkRecvBsEntries | .chunkResync | .chunkFinish => true
  | _ => false

/-- `READY` and the states of `ISSUE_COMMAND` but for `FINISH`. -/
def isSending : State → Bool
  | .start | .ready | .issueStart | .issueSendRequest | .issuePauseSendRequest
  | .issuePrepareWritePayload | .issueSendWritePayload | .issuePauseWritePayload
  | .issueSendWriteShutdown | .issuePauseWriteShutdown => true
  | _ => false

/-- The states that a run without commands to issue goes through. -/
def isReplying : State → Bool
  | .ready | .dead | .closed | .replyFinishCommand => true
  | s => s.isReceiving

/-- The reply states behind `CHECK_REPLY_MAGIC`: a reply is being handled. -/
def isMid : State → Bool
  | replyRecvStructuredRemaining | replyFinishCommand | simpleStart | simpleRecvReadPayload
  | chunkStart | chunkRecvError | chunkRecvErrorMessage | chunkRecvErrorTail
  | chunkRecvOffsetData | chunkRecvOffsetDataData | chunkRecvOffsetHole
  | chunkRecvBsHeader | chunkRecvBsEntries | chunkResync | chunkFinish => true
  | _ => false

/-- The states in which no other reply may be saved. -/
def isBusy : State → Bool
  | replyRecvReply | replyCheckReplyMagic => true
  | s => s.isMid

end State

theorem not_isMid_of_not_isBusy {s : State} (h : s.isBusy = false) : s.isMid = false := by
  unfold State.isBusy at h
  split at h
  · cases h
  · cases h
  · exact h

/-! ## Outcomes -/

/-- The handle that an outcome leaves behind satisfies `P`. -/
def Outcome.All (P : Handle → Prop) : Outcome → Prop
  | .next h | .block h | .fail h => P h
  | .abort _ => True

theorem Outcome.All.mono {P Q : Handle → Prop} {o : Outcome} (h : o.All P)
    (hPQ : ∀ h, P h → Q h) : o.All Q := by
  cases o with
  | abort a => trivial
  | next h' => exact hPQ _ h
  | block h' => exact hPQ _ h
  | fail h' => exact hPQ _ h

theorem require_all {p : Bool} {a : Abort} {k : Outcome} {P : Handle → Prop}
    (hk : p = true → k.All P) : (require p a k).All P := by
  unfold require
  split
  · exact hk (by assumption)
  · trivial

theorem ite_all {p : Prop} [Decidable p] {a b : Outcome} {P : Handle → Prop}
    (ha : p → a.All P) (hb : ¬ p → b.All P) : (if p then a else b).All P := by
  split
  · exact ha (by assumption)
  · exact hb (by assumption)

theorem goto_all {s : State} {h : Handle} {P : Handle → Prop} (hP : P { h with state := s }) :
    (goto s h).All P := hP

/-! ## Receiving -/

/-- `h'` is `h` after at most one `recv` that returned data. -/
inductive Received (h : Handle) : Handle → Prop
  | nothing : Received h h
  | data (bs : List UInt8) (hne : bs ≠ []) (hle : bs.length ≤ h.rx.rlen) : Received h (h.store bs)

theorem Handle.recvWant_le (h : Handle) : h.recvWant ≤ h.rx.rlen := by
  unfold Handle.recvWant
  split
  · exact Nat.min_le_left _ _
  · exact Nat.le_refl _

theorem take_recvWant_le (h : Handle) (bs : List UInt8) :
    (bs.take h.recvWant).length ≤ h.rx.rlen := by
  have := h.recvWant_le
  simp only [List.length_take]
  omega

theorem recvIntoRbuf_cases (inp : Input) (h : Handle) :
    (∃ e, recvIntoRbuf inp h = .fail { h with lastError := e }) ∨
    (∃ h', Received h h' ∧ h'.rx.rlen ≠ 0 ∧ recvIntoRbuf inp h = .more h') ∨
    (∃ h', Received h h' ∧ h'.rx.rlen = 0 ∧ recvIntoRbuf inp h = .done h') := by
  unfold recvIntoRbuf
  split
  · exact .inr (.inr ⟨h, .nothing, by assumption, rfl⟩)
  · split
    · exact .inr (.inl ⟨h, .nothing, by assumption, rfl⟩)
    · exact .inl ⟨_, rfl⟩
    · rename_i bs _
      by_cases hnil : bs.take h.recvWant = []
      · exact .inl ⟨_, by simp only [if_pos hnil]; rfl⟩
      · have hr := Received.data (h := h) _ hnil (take_recvWant_le h bs)
        simp only [if_neg hnil]
        by_cases hz : (h.store (bs.take h.recvWant)).rx.rlen = 0
        · exact .inr (.inr ⟨_, hr, hz, by simp only [if_pos hz]⟩)
        · exact .inr (.inl ⟨_, hr, hz, by simp only [if_neg hz]⟩)

/-- Rule for the payload states. -/
theorem recvThen_all {inp : Input} {done : Handle → Outcome} {h : Handle} {P : Handle → Prop}
    (hfail : ∀ e, P { h with lastError := e, state := .dead })
    (hmore : ∀ h', Received h h' → h'.rx.rlen ≠ 0 → h'.rx.replyState = .start →
      P { h' with state := .ready, rx := { h'.rx with replyState := h'.state } })
    (hdone : ∀ h', Received h h' → h'.rx.rlen = 0 → (done h').All P) :
    (recvThen inp done h).All P := by
  unfold recvThen
  obtain ⟨e, he⟩ | ⟨h', hr, hlen, he⟩ | ⟨h', hr, hlen, he⟩ := recvIntoRbuf_cases inp h
  · rw [he]
    exact hfail e
  · rw [he]
    apply require_all
    intro _
    apply require_all
    intro hs
    apply require_all
    intro _
    exact hmore h' hr hlen (by simpa using hs)
  · rw [he]
    exact hdone h' hr hlen

/-! ## Quiet steps -/

/-- Same command; an error that was set stays set. -/
def Command.Touched (c c' : Command) : Prop :=
  c' = { c with error := c'.error, dataSeen := c'.dataSeen } ∧ (c.error ≠ 0 → c'.error ≠ 0)

theorem Command.Touched.refl (c : Command) : c.Touched c := ⟨rfl, id⟩

theorem Command.Touched.trans {a b c : Command} (hab : a.Touched b) (hbc : b.Touched c) :
    a.Touched c := by
  refine ⟨?_, hbc.2 ∘ hab.2⟩
  rw [hbc.1, hab.1]

theorem Command.Touched.cookie {c c' : Command} (h : c.Touched c') : c'.cookie = c.cookie := by
  rw [h.1]

/-- The command a chunk or extent callback belongs to. -/
def Event.midOf : Event → Option Nat
  | chunk k .. => some k
  | extent k .. => some k
  | _ => none

structure Quiet (inp : Input) (h h' : Handle) : Prop where
  q : h'.q = { h.q with cmdsInFlight := h'.q.cmdsInFlight }
  cmds : List.Forall₂ Command.Touched h.q.cmdsInFlight h'.q.cmdsInFlight
  tx : h'.tx = h.tx
  exp : h'.exp = h.exp
  disconnectRequest : h'.disconnectRequest = h.disconnectRequest
  trace : ∃ es, h'.trace = h.trace ++ es ∧
    (∀ e ∈ es, ∃ c ∈ h.q.cmdsInFlight, e.midOf = some c.cookie) ∧
    ∀ e ∈ es, (inp.callback e).ret = -1 →
      ∃ c ∈ h'.q.cmdsInFlight, e.midOf = some c.cookie ∧ c.error ≠ 0

theorem forall₂_touched_refl (l : List Command) : List.Forall₂ Command.Touched l l :=
  List.forall₂_same.mpr fun c _ => .refl c

theorem map_cookie_of_touched {l l' : List Command} (h : List.Forall₂ Command.Touched l l') :
    l'.map Command.cookie = l.map Command.cookie := by
  induction h with
  | nil => rfl
  | cons hc _ ih => simp only [List.map_cons, hc.cookie, ih]

theorem findCmd_cons (k : Nat) (c : Command) (cs : List Command) :
    Handle.findCmd k (c :: cs) = if c.cookie = k then some c else Handle.findCmd k cs := by
  by_cases h : c.cookie = k <;> simp [Handle.findCmd, h]

theorem forall₂_touched_setFirst {l : List Command} {c cmd : Command}
    (hf : Handle.findCmd cmd.cookie l = some c) (ht : c.Touched cmd) :
    List.Forall₂ Command.Touched l (Handle.setFirst cmd l) := by
  induction l with
  | nil => cases hf
  | cons d ds ih =>
    rw [findCmd_cons] at hf
    unfold Handle.setFirst
    split at hf
    · cases hf
      rw [if_pos (by assumption)]
      exact .cons ht (forall₂_touched_refl ds)
    · rw [if_neg (by assumption)]
      exact .cons (.refl d) (ih hf)

theorem mem_setFirst {cmd c : Command} {l : List Command}
    (hf : Handle.findCmd cmd.cookie l = some c) : cmd ∈ Handle.setFirst cmd l := by
  induction l with
  | nil => cases hf
  | cons d ds ih =>
    rw [findCmd_cons] at hf
    unfold Handle.setFirst
    split at hf
    · rename_i hk
      rw [if_pos hk]
      exact List.mem_cons_self
    · rename_i hk
      rw [if_neg hk]
      exact List.mem_cons_of_mem _ (ih hf)

theorem exists_touched {cs ds : List Command} (h : List.Forall₂ Command.Touched cs ds)
    {c : Command} (hc : c ∈ cs) : ∃ d ∈ ds, c.Touched d := by
  induction h with
  | nil => cases hc
  | cons hcd _ ih =>
    rcases List.mem_cons.mp hc with rfl | hc
    · exact ⟨_, List.mem_cons_self, hcd⟩
    · obtain ⟨d, hd, ht⟩ := ih hc
      exact ⟨d, List.mem_cons_of_mem _ hd, ht⟩

variable {inp : Input}

namespace Quiet

variable {h h₁ h₂ : Handle}

theorem refl (h : Handle) : Quiet inp h h :=
  ⟨rfl, forall₂_touched_refl _, rfl, rfl, rfl, [], by simp, by simp, by simp⟩

theorem trans (h₁₂ : Quiet inp h h₁) (h₂₃ : Quiet inp h₁ h₂) : Quiet inp h h₂ where
  q := by rw [h₂₃.q, h₁₂.q]
  cmds := by
    have hc := h₁₂.cmds
    have hc' := h₂₃.cmds
    revert hc hc'
    generalize h.q.cmdsInFlight = a
    generalize h₁.q.cmdsInFlight = b
    generalize h₂.q.cmdsInFlight = c
    intro hab hbc
    induction hab generalizing c with
    | nil => cases hbc; exact .nil
    | cons hxy _ ih =>
      cases hbc with
      | cons hyz hrest => exact .cons (hxy.trans hyz) (ih _ hrest)
  tx := h₂₃.tx.trans h₁₂.tx
  exp := h₂₃.exp.trans h₁₂.exp
  disconnectRequest := h₂₃.disconnectRequest.trans h₁₂.disconnectRequest
  trace := by
    obtain ⟨es, he, hes, hfail⟩ := h₁₂.trace
    obtain ⟨fs, hf, hfs, hfail'⟩ := h₂₃.trace
    refine ⟨es ++ fs, by rw [hf, he, List.append_assoc], fun e hm => ?_, fun e hm hr => ?_⟩
    · rcases List.mem_append.mp hm with hm | hm
      · exact hes e hm
      · obtain ⟨c, hc, hk⟩ := hfs e hm
        have hmem : c.cookie ∈ h.q.cmdsInFlight.map Command.cookie := by
          rw [← map_cookie_of_touched h₁₂.cmds]
          exact List.mem_map_of_mem hc
        obtain ⟨d, hd, hdc⟩ := List.mem_map.mp hmem
        exact ⟨d, hd, by rw [hk, hdc]⟩
    · rcases List.mem_append.mp hm with hm | hm
      · obtain ⟨c, hc, hk, hne⟩ := hfail e hm hr
        obtain ⟨d, hd, ht⟩ := exists_touched h₂₃.cmds hc
        exact ⟨d, hd, by rw [hk, ht.cookie], ht.2 hne⟩
      · exact hfail' e hm hr

theorem cookies (hq : Quiet inp h h₁) :
    h₁.q.cmdsInFlight.map Command.cookie = h.q.cmdsInFlight.map Command.cookie :=
  map_cookie_of_touched hq.cmds

theorem store (h : Handle) (bs : List UInt8) : Quiet inp h (h.store bs) :=
  ⟨rfl, forall₂_touched_refl _, rfl, rfl, rfl, [], by simp [Handle.store], by simp, by simp⟩

theorem received (hr : Received h h₁) : Quiet inp h h₁ := by
  cases hr with
  | nothing => exact refl h
  | data bs _ _ => exact store h bs

theorem setCmd {c cmd : Command} (hf : Handle.findCmd cmd.cookie h.q.cmdsInFlight = some c)
    (ht : c.Touched cmd) : Quiet inp h (h.setCmd cmd) :=
  ⟨rfl, forall₂_touched_setFirst hf ht, rfl, rfl, rfl, [], by simp [Handle.setCmd], by simp,
    by simp⟩

/-- Fields that `Quiet` does not mention may change. -/
theorem congr (hq : Quiet inp h h₁) (e₁ : h₂.q = h₁.q) (e₂ : h₂.tx = h₁.tx) (e₃ : h₂.exp = h₁.exp)
    (e₄ : h₂.disconnectRequest = h₁.disconnectRequest) (e₅ : h₂.trace = h₁.trace) :
    Quiet inp h h₂ := by
  obtain ⟨a, b, c, d, e, f⟩ := hq
  constructor
  · rw [e₁]; exact a
  · rw [e₁]; exact b
  · rw [e₂]; exact c
  · rw [e₃]; exact d
  · rw [e₄]; exact e
  · rw [e₅, e₁]; exact f

end Quiet

theorem findCmd_mem {k : Nat} {l : List Command} {c : Command} (h : Handle.findCmd k l = some c) :
    c ∈ l ∧ c.cookie = k := by
  refine ⟨List.mem_of_find?_eq_some h, ?_⟩
  simpa using List.find?_some h

theorem findCmd_eq_none {k : Nat} {l : List Command} :
    Handle.findCmd k l = none ↔ k ∉ l.map Command.cookie := by
  simp [Handle.findCmd, List.find?_eq_none]

theorem replyRef_live {h : Handle} {cmd : Command} (hl : h.replyRef = .live cmd) :
    h.rx.replyCmd = some cmd.cookie ∧ Handle.findCmd cmd.cookie h.q.cmdsInFlight = some cmd := by
  unfold Handle.replyRef at hl
  split at hl
  · cases hl
  · rename_i k hk
    split at hl
    · cases hl
    · rename_i c hc
      cases hl
      obtain ⟨hm, rfl⟩ := findCmd_mem hc
      exact ⟨hk, hc⟩

theorem callCallback_mem {inp : Input} {c : Closure} {e e' : Event} {err : UInt32}
    (h : e' ∈ (callCallback inp c e err).1) : e' = e := by
  unfold callCallback at h
  split at h <;> simp_all

/-! ## The reply states are quiet -/

/-- Only fields that `Quiet` does not mention differ. -/
theorem Quiet.of_eq {h h' : Handle} (e₁ : h'.q = h.q) (e₂ : h'.tx = h.tx) (e₃ : h'.exp = h.exp)
    (e₄ : h'.disconnectRequest = h.disconnectRequest) (e₅ : h'.trace = h.trace) : Quiet inp h h' :=
  (Quiet.refl h).congr e₁ e₂ e₃ e₄ e₅

theorem touched_error (c : Command) {e : UInt32} (he : c.error ≠ 0 → e ≠ 0) :
    c.Touched { c with error := e } := ⟨rfl, he⟩

theorem touched_orErr (c : Command) (e : UInt32) : c.Touched { c with error := orErr c.error e } :=
  touched_error c fun h => by rwa [orErr_of_ne e h]

theorem touched_see (c : Command) (n : UInt32) : c.Touched (c.see n) := by
  unfold Command.see
  split
  · exact ⟨rfl, id⟩
  · exact .refl c

/-- A quiet step for the command of the reply: callbacks, then a new error. -/
theorem Quiet.ofCmd {h h' : Handle} {c cmd : Command} {es : List Event}
    (e₁ : h'.q = (h.setCmd cmd).q) (e₂ : h'.tx = h.tx) (e₃ : h'.exp = h.exp)
    (e₄ : h'.disconnectRequest = h.disconnectRequest) (e₅ : h'.trace = h.trace ++ es)
    (hf : Handle.findCmd cmd.cookie h.q.cmdsInFlight = some c) (ht : c.Touched cmd)
    (hes : ∀ e ∈ es, e.midOf = some cmd.cookie)
    (hfail : ∀ e ∈ es, (inp.callback e).ret = -1 → cmd.error ≠ 0) : Quiet inp h h' where
  q := by rw [e₁]; rfl
  cmds := by rw [e₁]; exact forall₂_touched_setFirst hf ht
  tx := e₂
  exp := e₃
  disconnectRequest := e₄
  trace := by
    refine ⟨es, e₅, fun e he => ⟨c, (findCmd_mem hf).1, ?_⟩, fun e he hr => ⟨cmd, ?_, hes e he, ?_⟩⟩
    · rw [hes e he, (findCmd_mem hf).2]
    · rw [e₁]
      exact mem_setFirst hf
    · exact hfail e he hr

theorem Quiet.ofCmd' {h h' : Handle} {c cmd : Command}
    (e₁ : h'.q = (h.setCmd cmd).q) (e₂ : h'.tx = h.tx) (e₃ : h'.exp = h.exp)
    (e₄ : h'.disconnectRequest = h.disconnectRequest) (e₅ : h'.trace = h.trace)
    (hf : Handle.findCmd cmd.cookie h.q.cmdsInFlight = some c) (ht : c.Touched cmd) :
    Quiet inp h h' :=
  (Quiet.setCmd hf ht).congr e₁ e₂ e₃ e₄ e₅

theorem callback_mid {inp : Input} {c : Closure} {e : Event} {err : UInt32} {k : Nat}
    (he : e.midOf = some k) : ∀ e' ∈ (callCallback inp c e err).1, e'.midOf = some k := by
  intro e' he'
  rw [callCallback_mem he', he]

/-- The return value is the one of the call that was made. -/
theorem callCallback_ret {inp : Input} {c : Closure} {e e' : Event} {err : UInt32}
    (h : e' ∈ (callCallback inp c e err).1) :
    (callCallback inp c e err).2.1 = (inp.callback e').ret := by
  have he := callCallback_mem h
  subst he
  unfold callCallback at h ⊢
  split at h
  · rename_i hc
    rw [if_pos hc]
  · cases h

/-- Nothing has to be kept in mind when the callback did not fail. -/
theorem callback_succeeds {inp : Input} {c : Closure} {e : Event} {err : UInt32} {P : Prop}
    (h : (callCallback inp c e err).2.1 ≠ -1) :
    ∀ e' ∈ (callCallback inp c e err).1, (inp.callback e').ret = -1 → P := by
  intro e' he' hr
  rw [callCallback_ret he'] at h
  exact absurd hr h

theorem orErr_eproto_ne (e : UInt32) : orErr e eproto ≠ 0 := by
  rw [Ne, orErr_eq_zero]
  exact fun h => absurd h.2 (by decide)

theorem callbackError_ne (old err : UInt32) : callbackError old err ≠ 0 := by
  rw [callbackError, Ne, orErr_eq_zero]
  exact fun h => orErr_eproto_ne _ h.2

theorem callChunk_quiet {inp : Input} {h : Handle} {c cmd : Command} {e : Event}
    (hf : Handle.findCmd cmd.cookie h.q.cmdsInFlight = some c) (ht : c.Touched cmd)
    (he : e.midOf = some cmd.cookie) : Quiet inp h (callChunk inp h cmd e) := by
  unfold callChunk
  simp only
  split
  · exact .ofCmd rfl rfl rfl rfl rfl hf (ht.trans (touched_orErr cmd _)) (callback_mid he)
      fun _ _ _ => callbackError_ne _ _
  · rename_i hret
    exact .ofCmd rfl rfl rfl rfl rfl hf ht (callback_mid he) (callback_succeeds hret)

theorem resync_quiet (h : Handle) : (resync h).All (Quiet inp h) := .of_eq rfl rfl rfl rfl rfl

theorem saved_quiet {h h' : Handle} (hr : Received h h') :
    Quiet inp h { h' with state := .ready, rx := { h'.rx with replyState := h'.state } } :=
  (Quiet.received hr).congr rfl rfl rfl rfl rfl

theorem recvThen_quiet {inp : Input} {done : Handle → Outcome} {h : Handle}
    (hdone : ∀ h', (done h').All (Quiet inp h')) : (recvThen inp done h).All (Quiet inp h) := by
  apply recvThen_all
  · intro e
    exact .of_eq rfl rfl rfl rfl rfl
  · intro h' hr _ _
    exact saved_quiet hr
  · intro h' hr _
    exact (hdone h').mono fun _ hq => (Quiet.received hr).trans hq

theorem enterReplyStart_quiet (inp : Input) (h : Handle) : (enterReplyStart inp h).All (Quiet inp h) := by
  unfold enterReplyStart
  split
  · split
    · exact require_all fun _ => .of_eq rfl rfl rfl rfl rfl
    · exact .of_eq rfl rfl rfl rfl rfl
  · apply require_all
    intro _
    split
    · exact .of_eq rfl rfl rfl rfl rfl
    · exact .of_eq rfl rfl rfl rfl rfl
    · simp only
      split
      · exact .of_eq rfl rfl rfl rfl rfl
      · exact .of_eq rfl rfl rfl rfl rfl

theorem enterReplyRecvReply_quiet (inp : Input) (h : Handle) :
    (enterReplyRecvReply inp h).All (Quiet inp h) := by
  unfold enterReplyRecvReply
  obtain ⟨e, he⟩ | ⟨h', hr, -, he⟩ | ⟨h', hr, -, he⟩ := recvIntoRbuf_cases inp h
  · rw [he]
    exact .of_eq rfl rfl rfl rfl rfl
  · rw [he]
    simp only
    split <;> exact (Quiet.received hr).congr rfl rfl rfl rfl rfl
  · rw [he]
    exact (Quiet.received hr).congr rfl rfl rfl rfl rfl

theorem enterReplyCheckReplyMagic_quiet (h : Handle) :
    (enterReplyCheckReplyMagic h).All (Quiet inp h) := by
  unfold enterReplyCheckReplyMagic
  simp only
  split
  · split <;> exact .of_eq rfl rfl rfl rfl rfl
  · split
    · split
      · exact .of_eq rfl rfl rfl rfl rfl
      · exact require_all fun _ => .of_eq rfl rfl rfl rfl rfl
    · split
      · split <;> exact .of_eq rfl rfl rfl rfl rfl
      · exact .of_eq rfl rfl rfl rfl rfl

theorem enterSimpleStart_quiet (h : Handle) : (enterSimpleStart h).All (Quiet inp h) := by
  unfold enterSimpleStart
  split
  · trivial
  · split <;> exact .of_eq rfl rfl rfl rfl rfl
  · rename_i cmd hl
    obtain ⟨-, hf⟩ := replyRef_live hl
    simp only
    have he : cmd.error ≠ 0 → orErr (if cmd.type = .read ∧ h.exp.structuredReplies = true
        then orErr cmd.error eproto else cmd.error) (errnoOfNbdError h.replyError) ≠ 0 := by
      intro hne
      split <;> simp [hne]
    split
    · exact .ofCmd' rfl rfl rfl rfl rfl hf ⟨rfl, he⟩
    · exact .ofCmd' rfl rfl rfl rfl rfl hf ⟨rfl, he⟩

theorem simpleReadPayloadDone_quiet (inp : Input) (h : Handle) :
    (simpleReadPayloadDone inp h).All (Quiet inp h) := by
  unfold simpleReadPayloadDone
  split
  · trivial
  · trivial
  · rename_i cmd hl
    obtain ⟨-, hf⟩ := replyRef_live hl
    simp only
    split
    · exact .ofCmd rfl rfl rfl rfl rfl hf ⟨rfl, fun _ => orErr_eproto_ne _⟩ (callback_mid rfl)
        fun _ _ _ => orErr_eproto_ne _
    · rename_i hret
      exact .ofCmd rfl rfl rfl rfl rfl hf (.refl cmd) (callback_mid rfl) (callback_succeeds hret)

theorem chunkStartBlockStatus_quiet {h : Handle} {cmd : Command}
    (hf : Handle.findCmd cmd.cookie h.q.cmdsInFlight = some cmd) :
    (chunkStartBlockStatus h cmd).All (Quiet inp h) := by
  unfold chunkStartBlockStatus
  split
  · exact resync_quiet h
  · apply require_all
    intro _
    split
    · exact .ofCmd' rfl rfl rfl rfl rfl hf (touched_orErr cmd _)
    · exact .ofCmd' rfl rfl rfl rfl rfl hf (.refl cmd)

theorem chunkStartType_quiet {h : Handle} {cmd : Command}
    (hf : Handle.findCmd cmd.cookie h.q.cmdsInFlight = some cmd) :
    (chunkStartType h cmd).All (Quiet inp h) := by
  unfold chunkStartType
  simp only
  split
  · split <;> exact .of_eq rfl rfl rfl rfl rfl
  · split
    · split <;> exact .of_eq rfl rfl rfl rfl rfl
    · split
      · split <;> exact .of_eq rfl rfl rfl rfl rfl
      · split
        · exact chunkStartBlockStatus_quiet hf
        · split
          · split <;> exact .of_eq rfl rfl rfl rfl rfl
          · exact .of_eq rfl rfl rfl rfl rfl

theorem enterChunkStart_quiet (h : Handle) : (enterChunkStart h).All (Quiet inp h) := by
  unfold enterChunkStart
  split
  · exact .of_eq rfl rfl rfl rfl rfl
  · split
    · trivial
    · exact resync_quiet h
    · rename_i cmd hl
      obtain ⟨-, hf⟩ := replyRef_live hl
      split
      · have hset : Quiet inp h { h with rx := { h.rx with payloadLeft := h.replyLength } } :=
          .of_eq rfl rfl rfl rfl rfl
        exact (chunkStartType_quiet (by exact hf)).mono fun _ hq => hset.trans hq
      · exact resync_quiet h

theorem recvErrorDone_quiet (h : Handle) : (recvErrorDone h).All (Quiet inp h) := by
  unfold recvErrorDone
  simp only
  apply require_all
  intro _
  split
  · trivial
  · trivial
  · rename_i cmd hl
    obtain ⟨-, hf⟩ := replyRef_live hl
    split
    · exact .ofCmd' rfl rfl rfl rfl rfl (by exact hf) (touched_orErr cmd _)
    · exact .of_eq rfl rfl rfl rfl rfl

theorem recvErrorTailDone_quiet (inp : Input) (h : Handle) :
    (recvErrorTailDone inp h).All (Quiet inp h) := by
  unfold recvErrorTailDone
  split
  · trivial
  · trivial
  · rename_i cmd hl
    obtain ⟨-, hf⟩ := replyRef_live hl
    simp only
    have hne : ∀ e, orErr e (orErr (errnoOfNbdError h.chunkErrorError) eproto) ≠ 0 :=
      fun _ hz => orErr_eproto_ne _ (orErr_eq_zero.mp hz).2
    refine .ofCmd rfl rfl rfl rfl rfl hf (touched_error cmd fun _ => hne _) ?_ fun _ _ _ => hne _
    split
    · exact callback_mid rfl
    · simp

theorem recvOffsetDataDone_quiet (h : Handle) : (recvOffsetDataDone h).All (Quiet inp h) := by
  unfold recvOffsetDataDone
  split
  · trivial
  · trivial
  · rename_i cmd hl
    obtain ⟨-, hf⟩ := replyRef_live hl
    apply require_all
    intro _
    simp only
    split
    · have ht := touched_see cmd (UInt32.ofNat h.rx.payloadLeft)
      exact .ofCmd' rfl rfl rfl rfl rfl (by rw [ht.cookie]; exact hf) ht
    · exact .of_eq rfl rfl rfl rfl rfl

theorem recvOffsetDataDataDone_quiet (inp : Input) (h : Handle) :
    (recvOffsetDataDataDone inp h).All (Quiet inp h) := by
  unfold recvOffsetDataDataDone
  split
  · trivial
  · trivial
  · rename_i cmd hl
    obtain ⟨-, hf⟩ := replyRef_live hl
    exact (callChunk_quiet hf (.refl cmd) rfl).congr rfl rfl rfl rfl rfl

theorem recvOffsetHoleDone_quiet (inp : Input) (h : Handle) :
    (recvOffsetHoleDone inp h).All (Quiet inp h) := by
  unfold recvOffsetHoleDone
  split
  · trivial
  · trivial
  · rename_i cmd hl
    obtain ⟨-, hf⟩ := replyRef_live hl
    apply require_all
    intro _
    simp only
    split
    · have ht := touched_see cmd (h.rx.payload.be32 8)
      have hz : Quiet inp h (h.zeroHole (cmd.see (h.rx.payload.be32 8))
          (cmd.buf + (h.chunkOffset - cmd.offset).toNat) (h.rx.payload.be32 8).toNat) :=
        .of_eq rfl rfl rfl rfl rfl
      exact (hz.trans (callChunk_quiet (by rw [ht.cookie]; exact hf) ht rfl)).congr
        rfl rfl rfl rfl rfl
    · exact .of_eq rfl rfl rfl rfl rfl

theorem recvBsHeaderDone_quiet (inp : Input) (h : Handle) :
    (recvBsHeaderDone inp h).All (Quiet inp h) := by
  unfold recvBsHeaderDone
  split
  · trivial
  · trivial
  · apply require_all
    intro _
    apply require_all
    intro _
    apply require_all
    intro _
    apply require_all
    intro _
    split
    · exact .of_eq rfl rfl rfl rfl rfl
    · apply ite_all
      · intro _
        exact .of_eq rfl rfl rfl rfl rfl
      · intro _
        exact .of_eq rfl rfl rfl rfl rfl

/-- The error an iteration of the loop leaves behind. -/
def Cooked.error : Cooked → Option UInt32
  | fail => none
  | stop e => some e
  | entry _ _ e _ => some e

theorem ite_orErr_ne {p : Prop} [Decidable p] {e : UInt32} (e' : UInt32) (he : e ≠ 0) :
    (if p then orErr e e' else e) ≠ 0 := by
  split
  · rwa [orErr_of_ne e' he]
  · exact he

theorem cookEntry_error {p : CookParams} {i : Nat} {total len flags : UInt64} {error e : UInt32}
    (hne : error ≠ 0) (h : (cookEntry p i total error len flags).error = some e) : e ≠ 0 := by
  unfold cookEntry at h
  split at h
  · cases h
    exact hne
  · unfold cookClip at h
    split at h
    · cases h
    · unfold cookFinish at h
      split at h
      · cases h
        exact ite_orErr_ne _ (ite_orErr_ne _ hne)
      · split at h
        · cases h
        · cases h
          exact ite_orErr_ne _ (ite_orErr_ne _ (ite_orErr_ne _ hne))

/-- Cooking never clears the error of the command. -/
theorem cookEntries_error {p : CookParams} {l r : List (UInt64 × UInt64)} {i : Nat}
    {total : UInt64} {error error' : UInt32} (hne : error ≠ 0)
    (h : cookEntries p i total error l = some (r, error')) : error' ≠ 0 := by
  induction l generalizing i total error r error' with
  | nil =>
    cases h
    exact hne
  | cons d rest ih =>
    unfold cookEntries at h
    split at h
    · cases h
    · rename_i e hc
      cases h
      exact cookEntry_error hne (by rw [hc]; rfl)
    · rename_i len flags e hc
      cases h
      exact cookEntry_error hne (by rw [hc]; rfl)
    · rename_i len flags e hc
      obtain ⟨⟨r', e'⟩, hr, hrest⟩ := Option.map_eq_some_iff.mp h
      cases hrest
      exact ih (cookEntry_error hne (by rw [hc]; rfl)) hr

theorem recvBsEntriesDone_quiet (inp : Input) (h : Handle) :
    (recvBsEntriesDone inp h).All (Quiet inp h) := by
  unfold recvBsEntriesDone
  split
  · trivial
  · trivial
  · rename_i cmd hl
    obtain ⟨-, hf⟩ := replyRef_live hl
    apply require_all
    intro _
    apply require_all
    intro _
    split
    · trivial
    · apply require_all
      intro _
      apply require_all
      intro _
      split
      · exact .of_eq rfl rfl rfl rfl rfl
      · split
        · trivial
        · rename_i entries error hcook
          have hne : cmd.error ≠ 0 → error ≠ 0 := fun hne => cookEntries_error hne hcook
          simp only
          split
          · exact .ofCmd rfl rfl rfl rfl rfl hf (touched_error cmd fun _ => callbackError_ne _ _)
              (callback_mid rfl) fun _ _ _ => callbackError_ne _ _
          · rename_i hret
            exact .ofCmd rfl rfl rfl rfl rfl hf (touched_error cmd hne) (callback_mid rfl)
              (callback_succeeds hret)

theorem resyncDone_quiet (h : Handle) : (resyncDone h).All (Quiet inp h) := by
  unfold resyncDone
  split
  · trivial
  · exact .of_eq rfl rfl rfl rfl rfl
  · rename_i cmd hl
    obtain ⟨-, hf⟩ := replyRef_live hl
    exact .ofCmd' rfl rfl rfl rfl rfl hf (touched_orErr cmd _)

theorem enterChunkFinish_quiet (h : Handle) : (enterChunkFinish h).All (Quiet inp h) := by
  apply require_all
  intro _
  split <;> exact .of_eq rfl rfl rfl rfl rfl

theorem enter_quiet (inp : Input) {h : Handle} (hs : h.state.isReceiving = true) :
    (enter inp h).All (Quiet inp h) := by
  unfold enter
  cases hst : h.state <;> simp only [hst, State.isReceiving, Bool.false_eq_true] at hs ⊢
  case replyStart => exact enterReplyStart_quiet inp h
  case replyRecvReply => exact enterReplyRecvReply_quiet inp h
  case replyCheckReplyMagic => exact enterReplyCheckReplyMagic_quiet h
  case replyRecvStructuredRemaining => exact recvThen_quiet fun h' => .of_eq rfl rfl rfl rfl rfl
  case simpleStart => exact enterSimpleStart_quiet h
  case simpleRecvReadPayload => exact recvThen_quiet (simpleReadPayloadDone_quiet inp)
  case chunkStart => exact enterChunkStart_quiet h
  case chunkRecvError => exact recvThen_quiet recvErrorDone_quiet
  case chunkRecvErrorMessage => exact recvThen_quiet fun h' => .of_eq rfl rfl rfl rfl rfl
  case chunkRecvErrorTail => exact recvThen_quiet (recvErrorTailDone_quiet inp)
  case chunkRecvOffsetData => exact recvThen_quiet recvOffsetDataDone_quiet
  case chunkRecvOffsetDataData => exact recvThen_quiet (recvOffsetDataDataDone_quiet inp)
  case chunkRecvOffsetHole => exact recvThen_quiet (recvOffsetHoleDone_quiet inp)
  case chunkRecvBsHeader => exact recvThen_quiet (recvBsHeaderDone_quiet inp)
  case chunkRecvBsEntries => exact recvThen_quiet (recvBsEntriesDone_quiet inp)
  case chunkResync => exact require_all fun _ => recvThen_quiet resyncDone_quiet
  case chunkFinish => exact enterChunkFinish_quiet h

/-! ## The sending states -/

/-- A step of the sending side, to a state that is not in the middle of a reply. -/
structure Sends (h h' : Handle) : Prop where
  eq : h' = { h with
    state := h'.state, tx := h'.tx, bytesSent := h'.bytesSent, chunksSent := h'.chunksSent
    lastError := h'.lastError }
  busy : h'.state.isBusy = false
  notClosed : h'.state ≠ .closed

theorem sendFromWbuf_cases (inp : Input) (h : Handle) :
    sendFromWbuf inp h = .overrun ∨
    (∃ e, sendFromWbuf inp h = .fail { h with lastError := e }) ∨
    (∃ tx n, sendFromWbuf inp h = .more { h with tx := tx, bytesSent := n }) ∨
    (∃ tx n, sendFromWbuf inp h = .done { h with tx := tx, bytesSent := n }) := by
  unfold sendFromWbuf
  split
  · exact .inr (.inr (.inr ⟨_, _, rfl⟩))
  · split
    · exact .inl rfl
    · split
      · exact .inr (.inr (.inl ⟨_, _, rfl⟩))
      · exact .inr (.inl ⟨_, rfl⟩)
      · simp only
        split
        · exact .inr (.inr (.inr ⟨_, _, rfl⟩))
        · exact .inr (.inr (.inl ⟨_, _, rfl⟩))

theorem enterSend_sends {inp : Input} {s : State} {h : Handle} (hs : s.isBusy = false)
    (hsc : s ≠ .closed) (hb : h.state.isBusy = false) (hc : h.state ≠ .closed) :
    (enterSend inp s h).All (Sends h) := by
  unfold enterSend
  obtain he | ⟨e, he⟩ | ⟨tx, n, he⟩ | ⟨tx, n, he⟩ := sendFromWbuf_cases inp h
  · rw [he]
    trivial
  · rw [he]
    exact ⟨rfl, rfl, nofun⟩
  · rw [he]
    exact ⟨rfl, hb, hc⟩
  · rw [he]
    exact ⟨rfl, hs, hsc⟩

theorem issueRequest_sends (h : Handle) (cmd : Command) (rest : List Command) :
    (issueRequest h cmd rest).All (Sends h) := require_all fun _ => ⟨rfl, rfl, nofun⟩

theorem enterPause_sends (b : Bool) (h : Handle) : (enterPause b h).All (Sends h) :=
  require_all fun _ => require_all fun _ => ⟨rfl, rfl, nofun⟩

theorem enter_sends (inp : Input) {h : Handle} (hs : h.state.isSending = true) :
    (enter inp h).All (Sends h) := by
  have hb : h.state.isBusy = false := by
    cases hst : h.state <;> simp_all [State.isSending, State.isBusy, State.isMid]
  have hc : h.state ≠ .closed := by
    intro hst
    rw [hst] at hs
    cases hs
  unfold enter
  cases hst : h.state <;> simp only [hst, State.isSending, Bool.false_eq_true] at hs ⊢
  case start => exact ⟨rfl, hb, hc⟩
  case ready =>
    unfold enterReady
    split
    · exact ⟨rfl, rfl, nofun⟩
    · apply require_all
      intro _
      split
      · exact ⟨rfl, rfl, nofun⟩
      · exact ⟨rfl, hb, hc⟩
  case issueStart =>
    unfold enterIssueStart
    split
    · trivial
    · split
      · exact issueRequest_sends h _ _
      · split
        · split <;> exact ⟨rfl, rfl, nofun⟩
        · exact issueRequest_sends h _ _
  case issueSendRequest => exact enterSend_sends rfl nofun hb hc
  case issuePauseSendRequest => exact enterPause_sends _ h
  case issuePrepareWritePayload =>
    unfold enterIssuePrepareWritePayload
    split
    · trivial
    · apply require_all
      intro _
      split
      · exact ⟨rfl, rfl, nofun⟩
      · split <;> exact ⟨rfl, rfl, nofun⟩
  case issueSendWritePayload => exact enterSend_sends rfl nofun hb hc
  case issuePauseWritePayload => exact enterPause_sends _ h
  case issueSendWriteShutdown =>
    unfold enterIssueSendWriteShutdown
    split
    · exact ⟨rfl, rfl, nofun⟩
    · exact ⟨rfl, hb, hc⟩
  case issuePauseWriteShutdown => exact require_all fun _ => ⟨rfl, rfl, nofun⟩

/-- Every state is receiving, sending, one of the two that move commands, or
final. -/
theorem State.kinds (s : State) :
    s.isReceiving = true ∨ s.isSending = true ∨ s = .issueFinish ∨ s = .replyFinishCommand ∨
      s = .dead ∨ s = .closed := by
  cases s <;> simp [State.isReceiving, State.isSending]

end Libnbd
