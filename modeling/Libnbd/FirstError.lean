import Libnbd.Channels
import Libnbd.Coverage

/-!
The first error of a command.

A reply can run into several errors: the server's, a violation of the protocol, a
callback that fails. `cmd->error` is to keep the first of them until the completion
callback is told. The assignments guard it one by one (`if (cmd->error == 0)`), but
the chunk callback of a simple reply is not among them.
-/

namespace Libnbd

open Lib

/-! ## Errors that stay -/

/-- The same command, and its error if it had one. -/
def Command.Steady (c d : Command) : Prop := d.cookie = c.cookie ∧ (c.error ≠ 0 → d.error = c.error)

theorem Command.Steady.refl (c : Command) : c.Steady c := ⟨rfl, fun _ => rfl⟩

theorem steady_orErr (c : Command) (e : UInt32) : c.Steady { c with error := orErr c.error e } :=
  ⟨rfl, orErr_of_ne e⟩

theorem Command.see_steady (c : Command) (n : UInt32) : c.Steady (c.see n) := by
  unfold Command.see
  split
  · exact ⟨rfl, fun _ => rfl⟩
  · exact .refl c

theorem Command.Steady.trans {a b c : Command} (hab : a.Steady b) (hbc : b.Steady c) : a.Steady c :=
  ⟨hbc.1.trans hab.1, fun hne => by
    have hb := hab.2 hne
    rw [hbc.2 (by rwa [hb]), hb]⟩

/-- Errors in flight stay. -/
def SteadyInFlight (h h' : Handle) : Prop :=
  ∀ d ∈ h'.q.cmdsInFlight, ∃ c ∈ h.q.cmdsInFlight, c.Steady d

theorem SteadyInFlight.of_subset {h h' : Handle}
    (hq : ∀ d ∈ h'.q.cmdsInFlight, d ∈ h.q.cmdsInFlight) : SteadyInFlight h h' :=
  fun d hd => ⟨d, hq d hd, .refl d⟩

theorem SteadyInFlight.same {h h' : Handle} (hq : h'.q.cmdsInFlight = h.q.cmdsInFlight) :
    SteadyInFlight h h' := .of_subset fun _ hd => hq ▸ hd

theorem SteadyInFlight.setCmd {h₁ h' : Handle} (h : Handle) {cmd d : Command}
    (hl : h.replyRef = .live cmd) (hk : cmd.Steady d) (hq : h₁.q = h.q)
    (hq' : h'.q = (h₁.setCmd d).q) : SteadyInFlight h h' := by
  intro e he
  rw [hq'] at he
  simp only [Handle.setCmd, hq] at he
  rcases mem_of_mem_setFirst he with rfl | he
  · exact ⟨cmd, (findCmd_mem (replyRef_live hl).2).1, hk⟩
  · exact ⟨e, he, .refl e⟩

theorem SteadyInFlight.setError {h₁ h' : Handle} (h : Handle) {cmd : Command}
    (hl : h.replyRef = .live cmd) (e : UInt32) (he : cmd.error ≠ 0 → e = cmd.error) (hq : h₁.q = h.q)
    (hq' : h'.q = (h₁.setCmd { cmd with error := e }).q) : SteadyInFlight h h' :=
  .setCmd h hl (d := { cmd with error := e }) ⟨rfl, he⟩ hq hq'

theorem SteadyInFlight.received {h h₁ h' : Handle} (hr : Received h h₁)
    (hk : SteadyInFlight h₁ h') : SteadyInFlight h h' := by
  unfold SteadyInFlight at *
  rwa [(received_same hr).2.2.2.2.1] at hk

theorem recvThen_steady {inp : Input} {h : Handle} {done : Handle → Outcome}
    (hd : ∀ h', recvIntoRbuf inp h = .done h' → (done h').All (SteadyInFlight h')) :
    (recvThen inp done h).All (SteadyInFlight h) := by
  unfold recvThen
  obtain ⟨e, he⟩ | ⟨h', hr, hlen, he⟩ | ⟨h', hr, hlen, he⟩ := recvIntoRbuf_cases inp h
  · rw [he]
    exact .same rfl
  · rw [he]
    exact require_all fun _ => require_all fun _ => require_all fun _ => .received hr (.same rfl)
  · rw [he]
    exact (hd h' he).mono fun _ hk => .received hr hk

/-! ## The replies -/

/-- The chunk callback of a simple reply fails and its error takes the place of an
earlier one. -/
def Overwrites (inp : Input) (h : Handle) : Bool :=
  match h.state, recvIntoRbuf inp h with
  | .simpleRecvReadPayload, .done h' =>
    match h'.replyRef with
    | .live cmd =>
      let (_, ret, err) := callCallback inp cmd.fn
        (.chunk cmd.cookie (h'.mem.read cmd.buf cmd.count.toNat) cmd.offset .data cmd.error) cmd.error
      cmd.error != 0 && ret == -1 && orErr err eproto != cmd.error
    | _ => false
  | _, _ => false

section Replies

variable (inp : Input) (h : Handle)

theorem enterReplyStart_steady : (enterReplyStart inp h).All (SteadyInFlight h) := by
  unfold enterReplyStart
  split
  · split
    · exact require_all fun _ => .same rfl
    · exact .same rfl
  · refine require_all fun _ => ?_
    split
    · exact .same rfl
    · exact .same rfl
    · simp only
      split <;> exact .same rfl

theorem enterReplyRecvReply_steady : (enterReplyRecvReply inp h).All (SteadyInFlight h) := by
  unfold enterReplyRecvReply
  obtain ⟨e, he⟩ | ⟨h', hrec, -, he⟩ | ⟨h', hrec, -, he⟩ := recvIntoRbuf_cases inp h
  · rw [he]
    exact .same rfl
  · rw [he]
    simp only
    split <;> exact .received hrec (.same rfl)
  · rw [he]
    exact .received hrec (.same rfl)

theorem enterReplyCheckReplyMagic_steady :
    (enterReplyCheckReplyMagic h).All (SteadyInFlight h) := by
  unfold enterReplyCheckReplyMagic
  simp only
  split
  · split <;> exact .same rfl
  · split
    · split
      · exact .same rfl
      · exact require_all fun _ => .same rfl
    · split
      · split <;> exact .same rfl
      · exact .same rfl

theorem enterSimpleStart_steady : (enterSimpleStart h).All (SteadyInFlight h) := by
  unfold enterSimpleStart
  split
  · trivial
  · split <;> exact .same rfl
  · rename_i cmd hl
    have hk : cmd.error ≠ 0 → orErr (if cmd.type = .read ∧ h.exp.structuredReplies = true
        then orErr cmd.error eproto else cmd.error) (errnoOfNbdError h.replyError) = cmd.error := by
      intro hne
      rw [orErr_of_ne eproto hne, ite_self, orErr_of_ne _ hne]
    simp only
    generalize orErr (if cmd.type = .read ∧ h.exp.structuredReplies = true
        then orErr cmd.error eproto else cmd.error) (errnoOfNbdError h.replyError) = e at hk ⊢
    split
    · exact .setCmd h hl (d := { cmd with error := e, dataSeen := cmd.dataSeen + cmd.count.toUInt32 })
        ⟨rfl, hk⟩ rfl rfl
    · exact .setError h hl e hk rfl rfl

/-- The one assignment without a guard. -/
theorem simpleReadPayload_steady (hs : h.state = .simpleRecvReadPayload)
    (ho : Overwrites inp h = false) :
    (enterSimpleRecvReadPayload inp h).All (SteadyInFlight h) := by
  refine recvThen_steady fun h' hr => ?_
  unfold simpleReadPayloadDone
  split
  · trivial
  · trivial
  · rename_i cmd hl
    simp only [Overwrites, hs, hr, hl] at ho
    simp only
    split
    · rename_i hret
      refine .setError h' hl _ (fun hne => ?_) rfl rfl
      simpa [hne, hret] using ho
    · exact .setCmd h' hl (.refl cmd) rfl rfl

theorem enterChunkStart_steady : (enterChunkStart h).All (SteadyInFlight h) := by
  unfold enterChunkStart
  split
  · exact .same rfl
  · split
    · trivial
    · exact .same rfl
    · rename_i cmd hl
      split
      · unfold chunkStartType
        simp only
        split
        · split <;> exact .same rfl
        · split
          · split <;> exact .same rfl
          · split
            · split <;> exact .same rfl
            · split
              · unfold chunkStartBlockStatus
                split
                · exact .same rfl
                · refine require_all fun _ => .setCmd h hl ?_ rfl rfl
                  split
                  · exact steady_orErr cmd _
                  · exact .refl cmd
              · split
                · split <;> exact .same rfl
                · exact .same rfl
      · exact .same rfl

theorem recvErrorDone_steady : (recvErrorDone h).All (SteadyInFlight h) := by
  unfold recvErrorDone
  simp only
  refine require_all fun _ => ?_
  split
  · trivial
  · trivial
  · rename_i cmd hl
    split
    · exact .setCmd { h with rx := _ } hl (steady_orErr cmd _) rfl rfl
    · exact .same rfl

theorem recvErrorTailDone_steady : (recvErrorTailDone inp h).All (SteadyInFlight h) := by
  unfold recvErrorTailDone
  split
  · trivial
  · trivial
  · rename_i cmd hl
    refine .setError h hl _ (fun hne => ?_) rfl rfl
    rw [orErr_of_ne _ hne, ite_self, orErr_of_ne _ hne]

theorem callChunk_steady {cmd : Command} (hl : h.replyRef = .live cmd) {cmd₁ : Command}
    (hk : cmd.Steady cmd₁) {h₁ h' : Handle} (e : Event) (hq : h₁.q = h.q)
    (hq' : h'.q = (callChunk inp h₁ cmd₁ e).q) : SteadyInFlight h h' := by
  refine .setCmd h hl ?_ hq hq'
  split
  · exact hk.trans (steady_orErr cmd₁ _)
  · exact hk

theorem recvOffsetDataDone_steady : (recvOffsetDataDone h).All (SteadyInFlight h) := by
  unfold recvOffsetDataDone
  split
  · trivial
  · trivial
  · rename_i cmd hl
    refine require_all fun _ => ?_
    simp only
    split
    · exact .setCmd h hl (cmd.see_steady _) rfl rfl
    · exact .same rfl

theorem recvOffsetDataDataDone_steady :
    (recvOffsetDataDataDone inp h).All (SteadyInFlight h) := by
  unfold recvOffsetDataDataDone
  split
  · trivial
  · trivial
  · rename_i cmd hl
    exact callChunk_steady inp h hl (.refl cmd) _ rfl rfl

theorem recvOffsetHoleDone_steady : (recvOffsetHoleDone inp h).All (SteadyInFlight h) := by
  unfold recvOffsetHoleDone
  split
  · trivial
  · trivial
  · rename_i cmd hl
    refine require_all fun _ => ?_
    simp only
    split
    · exact callChunk_steady inp h hl (cmd.see_steady _) _ rfl rfl
    · exact .same rfl

theorem recvBsHeaderDone_steady : (recvBsHeaderDone inp h).All (SteadyInFlight h) := by
  unfold recvBsHeaderDone
  split
  · trivial
  · trivial
  · refine require_all fun _ => require_all fun _ => require_all fun _ => require_all fun _ => ?_
    split
    · exact .same rfl
    · exact ite_all (fun _ => .same rfl) fun _ => .same rfl

/-- One iteration of the loop over the descriptors keeps an error. -/
theorem cookEntry_steady (p : CookParams) (i : Nat) (total len flags : UInt64) {error : UInt32}
    (hne : error ≠ 0) :
    cookEntry p i total error len flags = .fail ∨ cookEntry p i total error len flags = .stop error ∨
      ∃ l f last, cookEntry p i total error len flags = .entry l f error last := by
  unfold cookEntry cookClip cookFinish
  simp only [orErr_of_ne _ hne, ite_self]
  split_ifs <;> simp

theorem cookEntries_steady {p : CookParams} {l r : List (UInt64 × UInt64)} {i : Nat} {total : UInt64}
    {error e : UInt32} (hne : error ≠ 0) (hc : cookEntries p i total error l = some (r, e)) :
    e = error := by
  induction l generalizing i total r with
  | nil =>
    cases hc
    rfl
  | cons d ds ih =>
    unfold cookEntries at hc
    rcases cookEntry_steady p i total d.1 d.2 hne with
      he | he | ⟨len, flags, last, he⟩
    · rw [he] at hc
      cases hc
    · rw [he] at hc
      cases hc
      rfl
    · rw [he] at hc
      cases last with
      | true =>
        cases hc
        rfl
      | false =>
        obtain ⟨⟨r', e'⟩, hr, heq⟩ := Option.map_eq_some_iff.mp hc
        cases heq
        exact ih hr

theorem recvBsEntriesDone_steady : (recvBsEntriesDone inp h).All (SteadyInFlight h) := by
  unfold recvBsEntriesDone
  split
  · trivial
  · trivial
  · rename_i cmd hl
    refine require_all fun _ => require_all fun _ => ?_
    split
    · trivial
    · refine require_all fun _ => require_all fun _ => ?_
      split
      · exact .same rfl
      · split
        · trivial
        · rename_i hcook
          refine .setError h hl _ (fun hne => ?_) rfl rfl
          have herr := cookEntries_steady hne hcook
          subst herr
          split
          · exact orErr_of_ne _ hne
          · rfl

theorem resyncDone_steady : (resyncDone h).All (SteadyInFlight h) := by
  unfold resyncDone
  split
  · trivial
  · exact .same rfl
  · rename_i cmd hl
    exact .setCmd h hl (steady_orErr cmd _) rfl rfl

/-- **Step**, for the states that receive. -/
theorem receiving_steady (hs : h.state.isReceiving = true) (ho : Overwrites inp h = false) :
    (enter inp h).All (SteadyInFlight h) := by
  unfold enter
  cases hst : h.state <;>
    simp only [hst, State.isReceiving, Bool.false_eq_true] at hs ⊢
  case replyStart => exact enterReplyStart_steady inp h
  case replyRecvReply => exact enterReplyRecvReply_steady inp h
  case replyCheckReplyMagic => exact enterReplyCheckReplyMagic_steady h
  case replyRecvStructuredRemaining => exact recvThen_steady fun _ _ => .same rfl
  case simpleStart => exact enterSimpleStart_steady h
  case simpleRecvReadPayload => exact simpleReadPayload_steady inp h hst ho
  case chunkStart => exact enterChunkStart_steady h
  case chunkRecvError => exact recvThen_steady fun h' _ => recvErrorDone_steady h'
  case chunkRecvErrorMessage => exact recvThen_steady fun _ _ => .same rfl
  case chunkRecvErrorTail => exact recvThen_steady fun h' _ => recvErrorTailDone_steady inp h'
  case chunkRecvOffsetData => exact recvThen_steady fun h' _ => recvOffsetDataDone_steady h'
  case chunkRecvOffsetDataData => exact recvThen_steady fun h' _ => recvOffsetDataDataDone_steady inp h'
  case chunkRecvOffsetHole => exact recvThen_steady fun h' _ => recvOffsetHoleDone_steady inp h'
  case chunkRecvBsHeader => exact recvThen_steady fun h' _ => recvBsHeaderDone_steady inp h'
  case chunkRecvBsEntries => exact recvThen_steady fun h' _ => recvBsEntriesDone_steady inp h'
  case chunkResync =>
    exact require_all fun _ => recvThen_steady fun h' _ => resyncDone_steady h'
  case chunkFinish =>
    refine require_all fun _ => ?_
    split <;> exact .same rfl

end Replies

/-! ## Steps -/

/-- What `nbd_close` aside can happen to the commands in flight: they are completed,
or keep their errors; commands that have been sent come in. -/
theorem enter_steady (inp : Input) {h : Handle} (hinv : h.book.Inv) (ht : Tails h)
    (ho : Overwrites inp h = false) :
    (enter inp h).All fun h' => ∀ d ∈ h'.q.cmdsInFlight,
      d ∈ h.q.cmdsToIssue ∨ ∃ c ∈ h.q.cmdsInFlight, c.Steady d := by
  have hsame : ∀ {h' : Handle}, h'.q.cmdsInFlight = h.q.cmdsInFlight → ∀ d ∈ h'.q.cmdsInFlight,
      d ∈ h.q.cmdsToIssue ∨ ∃ c ∈ h.q.cmdsInFlight, c.Steady d :=
    fun hq d hd => .inr (SteadyInFlight.same hq d hd)
  rcases h.state.kinds with hs | hs | hs | hs | hs | hs
  · exact (receiving_steady inp h hs ho).mono fun h' hk d hd => .inr (hk d hd)
  · exact (enter_sends inp hs).mono fun h' hq => hsame (by rw [hq.eq])
  · simp only [enter, hs, enterIssueFinish]
    refine require_all fun _ => ?_
    split
    · trivial
    · rename_i cmd rest hq
      refine require_all fun _ => ?_
      intro d hd
      rcases List.mem_cons.mp hd with rfl | hd
      · exact .inl (by rw [hq]; exact List.mem_cons_self)
      · exact .inr ⟨d, hd, .refl d⟩
  · simp only [enter, hs]
    cases hf : Handle.findCmd h.replyCookie h.q.cmdsInFlight with
    | none =>
      unfold enterReplyFinishCommand
      simp only [hf]
      exact require_all fun _ => hsame rfl
    | some cmd =>
      have halive : h.alive := by
        constructor <;> (intro he; rw [hs] at he; cases he)
      obtain ⟨h', hfin, heq⟩ := finishCommand_ok inp hinv ht halive hf
      rw [heq]
      refine require_all fun _ => require_all fun _ => ?_
      obtain ⟨pre, post, cmd', retire, hl, -, hb⟩ := hfin.book
      have hfl : h'.q.cmdsInFlight = pre ++ post := congrArg Book.inFlight hb
      intro d hd
      refine .inr ⟨d, ?_, .refl d⟩
      rw [hl]
      have hd' : d ∈ pre ++ post := hfl ▸ hd
      simp only [List.mem_append, List.mem_cons] at hd' ⊢
      tauto
  · obtain ⟨-, -, h', -, -, hok, hdo, -⟩ := abortAll_ok inp hinv ht
    simp only [enter, hs, enterDead, hok]
    refine require_all fun _ d hd => ?_
    have hnil : h'.q.cmdsInFlight = [] := by rw [hdo]
    exact absurd (hnil ▸ hd) List.not_mem_nil
  · obtain ⟨-, -, h', -, -, hok, hdo, -⟩ := abortAll_ok inp hinv ht
    simp only [enter, hs, enterClosed, hok]
    intro d hd
    have hnil : h'.q.cmdsInFlight = [] := by rw [hdo]
    exact absurd (hnil ▸ hd) List.not_mem_nil

/-- A step in which no chunk callback of a simple reply overwrites an error. -/
def KeepsFirst (c : Config) : Label → Prop
  | .enter inp => Overwrites inp c.h = false
  | .call .. => True

instance (c : Config) (l : Label) : Decidable (KeepsFirst c l) :=
  match l with
  | .enter inp => inferInstanceAs (Decidable (Overwrites inp c.h = false))
  | .call .. => .isTrue trivial

theorem step_steady {c c' : Config} {l : Label} (hs : Sound c) (hk : KeepsFirst c l)
    (h : step c l = some c') : ∀ d ∈ c'.h.q.cmdsInFlight,
      d ∈ c.h.q.cmdsToIssue ∨ ∃ e ∈ c.h.q.cmdsInFlight, e.Steady d := by
  obtain ⟨inp, after, rfl, -, rfl⟩ | ⟨api, inp, r, rfl, -, rfl⟩ := step_cases h
  · exact stepEnter_all after (enter_steady inp hs.inv hs.tails hk)
      (fun d hd => .inr ⟨d, hd, .refl d⟩) fun _ _ hp => hp
  · by_cases hclose : api = .close
    · subst hclose
      exact fun d hd => absurd hd List.not_mem_nil
    · have hq := (apiCall_frame inp { c.h with lastError := inp.lastError } api hclose).inFlight
      exact fun d hd => .inr ⟨d, hq ▸ hd, .refl d⟩

theorem enterCompletes_error {h : Handle} {p : Command × UInt32} (hp : p ∈ enterCompletes h) :
    p.2 = p.1.error ∨ p.2 = orErr p.1.error enotconn := by
  unfold enterCompletes at hp
  split at hp
  · simp only [Option.mem_toList, Option.map_eq_some_iff] at hp
    obtain ⟨cmd, -, rfl⟩ := hp
    exact .inl rfl
  · obtain ⟨cmd, -, rfl⟩ := List.mem_map.mp hp
    exact .inr rfl
  · obtain ⟨cmd, -, rfl⟩ := List.mem_map.mp hp
    exact .inr rfl
  · cases hp

theorem callCompletes_error {h : Handle} {api : Api} {p : Command × UInt32}
    (hp : p ∈ callCompletes h api) : p.2 = orErr p.1.error enotconn := by
  cases api with
  | shutdown flags =>
    simp only [callCompletes] at hp
    split at hp
    · obtain ⟨cmd, -, rfl⟩ := List.mem_map.mp hp
      rfl
    · cases hp
  | _ => cases hp

/-- A completion callback is told the error of a pending command. -/
theorem step_reports {c c' : Config} {l : Label} (hg : Good c) (h : step c l = some c')
    (hcl : c'.ctl ≠ .closed) : ∃ es, c'.h.trace = c.h.trace ++ es ∧
      ∀ k err, Event.completion k err ∈ es → ∃ d ∈ c.h.q.cmdsToIssue ++ c.h.q.cmdsInFlight,
        d.cookie = k ∧ (d.error ≠ 0 → err = d.error) := by
  have htold : ∀ {d : Command} {err : UInt32}, err = d.error ∨ err = orErr d.error enotconn →
      d.error ≠ 0 → err = d.error := by
    intro d err he hne
    rcases he with rfl | rfl
    · rfl
    · exact orErr_of_ne _ hne
  have hnone : ∃ es, c.h.trace = c.h.trace ++ es ∧
      ∀ k err, Event.completion k err ∈ es → ∃ d ∈ c.h.q.cmdsToIssue ++ c.h.q.cmdsInFlight,
        d.cookie = k ∧ (d.error ≠ 0 → err = d.error) :=
    ⟨[], (List.append_nil _).symm, fun _ _ he => absurd he List.not_mem_nil⟩
  obtain ⟨inp, after, rfl, -, rfl⟩ | ⟨api, inp, r, rfl, -, rfl⟩ := step_cases h
  · by_cases hna : ∀ a, (stepEnter inp after c.h).ctl ≠ .aborted a
    · obtain ⟨es, htr, hes, -⟩ := (stepEnter_completes hg.sound.inv hg.sound.tails hna).events
      refine ⟨es, htr, fun k err he => ?_⟩
      obtain ⟨p, hp, -, hk, rfl⟩ := (hes k err).mp he
      exact ⟨p.1, enterCompletes_mem hp, hk, htold (enterCompletes_error hp)⟩
    · obtain ⟨h', -, he⟩ | ⟨h', d, r, -, he⟩ | ⟨b, -, he⟩ := stepEnter_cases inp after c.h
      · exact absurd (fun a => by rw [he]; nofun) hna
      · exact absurd (fun a => by rw [he]; nofun) hna
      · rw [he]
        exact hnone
  · have hclose : api ≠ .close := by
      rintro rfl
      exact hcl rfl
    have ht : Tails { c.h with lastError := inp.lastError } :=
      ⟨hg.sound.tails.toIssue, hg.sound.tails.done⟩
    cases hsub : submission inp { c.h with lastError := inp.lastError } api with
    | none =>
      obtain ⟨es, htr, hes⟩ := (apiCall_no_submission hclose hsub).trace
      refine ⟨es, htr, fun k err he => ?_⟩
      exact absurd (hes _ he) (by simp [Event.isRetirement])
    | some s =>
      obtain ⟨k, he⟩ := apiCall_submission hsub
      rw [he]
      by_cases hna : ∀ a, s ≠ .abort a
      · obtain ⟨es, htr, hes, -⟩ := (afterSubmit_completes _ k hna
          (submission_completes (h := { c.h with lastError := inp.lastError }) hg.sound.inv ht
            hsub)).events
        refine ⟨es, htr, fun k err he => ?_⟩
        obtain ⟨p, hp, -, hk, rfl⟩ := (hes k err).mp he
        refine ⟨p.1, List.mem_append_left _ (callCompletes_mem hp), hk, htold (.inr ?_)⟩
        exact callCompletes_error hp
      · obtain ⟨a, rfl⟩ : ∃ a, s = .abort a := by
          simpa using hna
        exact hnone

/-! ## Runs -/

/-- What the completion callback of the command `k` was told. -/
def told? (k : Nat) (trace : List Event) : Option UInt32 :=
  trace.findSome? fun
    | .completion k' err => if k' = k then some err else none
    | _ => none

theorem told_mem {k : Nat} {trace : List Event} {err : UInt32} (ht : told? k trace = some err) :
    Event.completion k err ∈ trace := by
  obtain ⟨e, he, hsome⟩ := List.exists_of_findSome?_eq_some ht
  cases e <;> simp at hsome
  obtain ⟨rfl, rfl⟩ := hsome
  exact he

theorem not_told {k : Nat} {trace : List Event} (ht : told? k trace = none) (err : UInt32) :
    Event.completion k err ∉ trace := by
  intro he
  have := List.findSome?_eq_none_iff.mp ht _ he
  simp at this

/-- The command `k` has been sent and has got the error `e`, and its callback has been
told no other error. -/
structure Holds (k : Nat) (e : UInt32) (h : Handle) : Prop where
  known : k < h.q.unique
  sent : ∀ d ∈ h.q.cmdsToIssue, d.cookie ≠ k
  error : ∀ d ∈ h.q.cmdsInFlight, d.cookie = k → d.error = e
  told : ∀ err, told? k h.trace = some err → err = e

/-- A command that has been sent is not queued again. -/
theorem sent_steps {k : Nat} {b b' : Book} (h : BookSteps b b')
    (hb : k < b.unique ∧ ∀ d ∈ b.toIssue, d.cookie ≠ k) :
    k < b'.unique ∧ ∀ d ∈ b'.toIssue, d.cookie ≠ k := by
  refine BookSteps.invariant (P := fun b => k < b.unique ∧ ∀ d ∈ b.toIssue, d.cookie ≠ k) ?_ h hb
  rintro b b' ⟨hk, hd⟩ hstep
  cases hstep with
  | touch | reject | retire => exact ⟨hk, hd⟩
  | accept hck =>
    refine ⟨Nat.lt_succ_of_lt hk, fun d hmem => ?_⟩
    rcases List.mem_append.mp hmem with hmem | hmem
    · exact hd d hmem
    · rw [List.mem_singleton.mp hmem, hck]
      exact Nat.ne_of_gt hk
  | issue hq => exact ⟨hk, fun d hmem => hd d (by rw [hq]; exact List.mem_cons_of_mem _ hmem)⟩
  | finish hq hs =>
    unfold Book.settle
    split <;> exact ⟨hk, hd⟩
  | @abort pre post _ _ _ _ hq hs =>
    have hsub : ∀ d ∈ pre ++ post, d.cookie ≠ k := fun d hmem => hd d (by
      rw [hq]
      simp only [List.mem_append, List.mem_cons] at hmem ⊢
      tauto)
    unfold Book.settle
    split <;> exact ⟨hk, hsub⟩

theorem Holds.step {k : Nat} {e : UInt32} {c c' : Config} {l : Label} (hk : Holds k e c.h)
    (he : e ≠ 0) (hg : Good c) (hf : KeepsFirst c l) (h : step c l = some c')
    (hcl : c'.ctl ≠ .closed) : Holds k e c'.h := by
  have hr := (step_refines hg.sound h).resolve_left hcl
  obtain ⟨hknown, hsent⟩ := sent_steps hr.steps ⟨hk.known, hk.sent⟩
  refine ⟨hknown, hsent, fun d hd hck => ?_, fun err ht => ?_⟩
  · rcases step_steady hg.sound hf h d hd with hq | ⟨c₀, hmem, hcookie, herr⟩
    · exact absurd hck (hk.sent d hq)
    · have h₀ := hk.error c₀ hmem (hcookie.symm.trans hck)
      rw [herr (by rwa [h₀]), h₀]
  · obtain ⟨es, htr, hes⟩ := step_reports hg h hcl
    rw [htr, told?, List.findSome?_append, Option.or_eq_some_iff] at ht
    rcases ht with ht | ⟨-, ht⟩
    · exact hk.told err ht
    · obtain ⟨d, hd, hck, herr⟩ := hes k err (told_mem ht)
      rcases List.mem_append.mp hd with hd | hd
      · exact absurd hck (hk.sent d hd)
      · have h₀ := hk.error d hd hck
        rw [herr (by rwa [h₀]), h₀]

/-- `nbd_close` tells the commands in flight. Those that are done have been told. -/
theorem Holds.close {k : Nat} {e : UInt32} {h : Handle} (inp : Input) (hk : Holds k e h)
    (he : e ≠ 0) (hl : Life h.book) : Holds k e (close inp h) := by
  refine ⟨hk.known, fun _ hd => absurd hd List.not_mem_nil, fun _ hd => absurd hd List.not_mem_nil,
    fun err ht => ?_⟩
  simp only [Libnbd.close, Handle.log, told?, List.findSome?_append, Option.or_eq_some_iff] at ht
  rcases ht with ht | ⟨hnone, (ht | ⟨-, ht⟩) | ⟨-, ht⟩⟩
  · exact hk.told err ht
  · obtain ⟨d, hd, -, hck, -⟩ := completion_mem_freeCmdList.mp (told_mem ht)
    exact absurd hck (hk.sent d hd)
  · obtain ⟨d, hd, -, hck, rfl⟩ := completion_mem_freeCmdList.mp (told_mem ht)
    rw [hk.error d hd hck]
    exact orErr_of_ne _ he
  · obtain ⟨d, hd, hcb, rfl, -⟩ := completion_mem_freeCmdList.mp (told_mem ht)
    obtain ⟨mids, err', -, hcalls⟩ := hl.done d hd
    have hmem : Event.completion d.cookie err' ∈ calls d.cookie h.trace := by
      rw [show calls d.cookie h.trace = _ from hcalls]
      simp [completionEvents, hcb]
    exact absurd (List.mem_filter.mp hmem).1 (not_told hnone err')

/-- **Step.** -/
theorem holds_step {k : Nat} {e : UInt32} {c c' : Config} {l : Label} (he : e ≠ 0)
    (hc : machine.Reachable c) (hk : Holds k e c.h) (hf : KeepsFirst c l)
    (h : machine.step c l = some c') : Holds k e c'.h := by
  have hopen : c.ctl ≠ .closed := by
    intro hcl
    cases l <;> simp [machine, step, hcl] at h
  by_cases hcl : c'.ctl = .closed
  · obtain ⟨inp, rfl⟩ := close_of_closed h hcl
    have hlife := ((reachable_life hc).resolve_left hopen).2
    exact Holds.close inp (h := { c.h with lastError := inp.lastError })
      ⟨hk.known, hk.sent, hk.error, hk.told⟩ he hlife
  · exact hk.step he ((reachable_good hc).resolve_left hopen) hf h hcl

/-- A closed handle has no commands. -/
theorem closed_empty {c : Config} (hc : machine.Reachable c) (hcl : c.ctl = .closed) :
    c.h.q.cmdsInFlight = [] := by
  refine machine.reachable_invariant (P := fun c => c.ctl = .closed → c.h.q.cmdsInFlight = [])
    ?_ ?_ hc hcl
  · rintro _ ⟨_, _, _, _, _, _, rfl⟩ h
    cases h
  · intro c l c' _ hstep hcl
    obtain ⟨inp, rfl⟩ := close_of_closed hstep hcl
    rfl

/-- **The first error wins**: in every run whose simple replies do not overwrite errors,
a command in flight that has got an error keeps it, whatever the replies bring, and its
completion callback is told that error. -/
theorem first_error_wins {c c' : Config} {cmd : Command} {ls : List Label}
    (hc : machine.Reachable c) (hcmd : cmd ∈ c.h.q.cmdsInFlight) (hne : cmd.error ≠ 0)
    (hm : machine.Meets KeepsFirst c ls) (he : machine.exec c ls = some c') :
    (∀ d ∈ c'.h.q.cmdsInFlight, d.cookie = cmd.cookie → d.error = cmd.error) ∧
      ∀ err, told? cmd.cookie c'.h.trace = some err → err = cmd.error := by
  obtain ⟨hs, hlife⟩ := (reachable_life hc).resolve_left fun hcl =>
    List.ne_nil_of_mem hcmd (closed_empty hc hcl)
  have hmem : cmd ∈ c.h.book.toIssue ++ c.h.book.inFlight := List.mem_append_right _ hcmd
  have hin : cmd ∈ c.h.book.commands := List.mem_append_left _ hmem
  have hstart : Holds cmd.cookie cmd.error c.h := by
    refine ⟨?_, fun d hd hck => ?_, fun d hd hck => ?_, fun err ht => ?_⟩
    · have hacc := ((hs.inv.mem_commands_iff cmd.cookie).mp (List.mem_map_of_mem hin)).1
      exact (hs.inv.range _ hacc).2
    · have hnd := hs.inv.nodup
      rw [Book.cookies, Book.commands, List.map_append, List.map_append] at hnd
      exact (List.nodup_append.mp (List.nodup_append.mp hnd).1).2.2 _ (List.mem_map_of_mem hd) _
        (List.mem_map_of_mem hcmd) hck
    · rw [List.inj_on_of_nodup_map hs.inv.nodup
        (List.mem_append_left _ (List.mem_append_right _ hd)) hin hck]
    · exact absurd (told_mem ht) (not_completed_of_pending hlife hmem err)
  have hrun := machine.exec_invariant (P := fun c => machine.Reachable c ∧ Holds cmd.cookie cmd.error c.h)
    (fun c l c' hp hf hstep => ⟨System.Reachable.step machine hp.1 hstep,
      holds_step hne hp.1 hp.2 hf hstep⟩) ⟨hc, hstart⟩ hm he
  exact ⟨hrun.2.error, hrun.2.told⟩

/-- A read with a chunk callback is answered by a simple reply although structured
replies have been negotiated. -/
def simpleForStructured : List Label :=
  Label.call (.command (.aioPreadStructured 4096 8 0 ⟨true, false⟩ ⟨true, false⟩ 0)) .calm ::
    List.replicate 5 (.enter .calm) ++
  [Label.call .aioNotifyRead .calm,
   .enter { Input.calm with
     recv := .data [0x67, 0x44, 0x66, 0x98, 0, 0, 0, 0, 0, 0, 0, 0, 0, 0, 0, 1] },
   .enter .calm, .enter .calm, .enter .calm]

/-- The payload, with what the callback makes of it, and the end of the command. -/
def simplePayload (r : CbResult) : List Label :=
  [.enter { Input.calm with recv := .data [1, 2, 3, 4, 5, 6, 7, 8], callback := fun _ => r },
   .enter .calm]

theorem first_error_wins_simple :
    ∃ c c', machine.exec (.ofExport .structured) simpleForStructured = some c ∧
      machine.exec c (simplePayload ⟨0, 0⟩) = some c' ∧ told? 1 c'.h.trace = some eproto ∧
      ∀ err, told? 1 c'.h.trace = some err → err = eproto := by
  have hrun : (machine.exec (.ofExport .structured) simpleForStructured).map (fun c =>
      (c.h.q.cmdsInFlight.map (fun d => (d.cookie, d.error)),
        (machine.exec c (simplePayload ⟨0, 0⟩)).map (fun c' => told? 1 c'.h.trace),
        machine.check (fun c l => decide (KeepsFirst c l)) c (simplePayload ⟨0, 0⟩))) =
      some ([(1, eproto)], some (some eproto), true) := by decide +kernel
  obtain ⟨c, hc, hp⟩ := Option.map_eq_some_iff.mp hrun
  simp only [Prod.mk.injEq] at hp
  obtain ⟨hcmds, hrest, hcheck⟩ := hp
  obtain ⟨c', hc', htold⟩ := Option.map_eq_some_iff.mp hrest
  obtain ⟨cmd, hq, hd⟩ := List.map_eq_singleton_iff.mp hcmds
  simp only [Prod.mk.injEq] at hd
  obtain ⟨hck, herr⟩ := hd
  have hfirst := (first_error_wins ⟨_, _, Config.initial_ofExport _, hc⟩
    (by rw [hq]; exact List.mem_singleton_self cmd) (by rw [herr]; decide)
    (machine.meets_of_check hcheck) hc').2
  rw [hck, herr] at hfirst
  exact ⟨c, c', hc, hc', htold, hfirst⟩

/-- The callback of the simple reply fails with `EINVAL`, and `EPROTO` is gone. -/
theorem simple_reply_overwrites :
    ¬ ∀ c c' cmd ls, machine.Reachable c → cmd ∈ c.h.q.cmdsInFlight → cmd.error ≠ 0 →
      machine.exec c ls = some c' →
      (∀ d ∈ c'.h.q.cmdsInFlight, d.cookie = cmd.cookie → d.error = cmd.error) ∧
        ∀ err, told? cmd.cookie c'.h.trace = some err → err = cmd.error := by
  intro hall
  have hrun : (machine.exec (.ofExport .structured) simpleForStructured).map (fun c =>
      (c.h.q.cmdsInFlight.map (fun d => (d.cookie, d.error)),
        (machine.exec c (simplePayload ⟨-1, einval⟩)).map (fun c' => told? 1 c'.h.trace))) =
      some ([(1, eproto)], some (some einval)) := by decide +kernel
  obtain ⟨c, hc, hp⟩ := Option.map_eq_some_iff.mp hrun
  simp only [Prod.mk.injEq] at hp
  obtain ⟨hcmds, hrest⟩ := hp
  obtain ⟨c', hc', htold⟩ := Option.map_eq_some_iff.mp hrest
  obtain ⟨cmd, hq, hd⟩ := List.map_eq_singleton_iff.mp hcmds
  simp only [Prod.mk.injEq] at hd
  obtain ⟨hck, herr⟩ := hd
  have hfirst := (hall c c' cmd _ ⟨_, _, Config.initial_ofExport _, hc⟩
    (by rw [hq]; exact List.mem_singleton_self cmd) (by rw [herr]; decide) hc').2 einval
    (by rw [hck]; exact htold)
  rw [herr] at hfirst
  exact absurd hfirst (by decide)

end Libnbd
