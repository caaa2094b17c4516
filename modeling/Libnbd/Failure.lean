import Libnbd.Sync

/-!
No silent success.

A command is spoiled when the server sends an error or something that is not
allowed for it, when one of its callbacks fails, or when the connection is lost
before it is done. From then on it has failed (its `error` is set), or it is
going to: the error chunk being received or the chunk being skipped is going to
set it, or the final state is going to abort the command. `Book.Failed` is kept
by every move of a command; the rest is about the few states in between.
-/

namespace Libnbd

open Lib Relation

/-! ## Commands that have failed -/

/-- No event reports the command as successful. -/
def Clean (k : Nat) (es : List Event) : Prop :=
  (∀ err, Event.completion k err ∈ es → err ≠ 0) ∧ ∀ r, Event.completed k r ∈ es → r = -1

theorem Clean.nil (k : Nat) : Clean k [] := ⟨by simp, by simp⟩

theorem Clean.append {k : Nat} {es fs : List Event} (he : Clean k es) (hf : Clean k fs) :
    Clean k (es ++ fs) := by
  constructor
  · intro err hm
    exact (List.mem_append.mp hm).elim (he.1 err) (hf.1 err)
  · intro r hm
    exact (List.mem_append.mp hm).elim (he.2 r) (hf.2 r)

theorem clean_retireAndFree (k : Nat) (cmd : Command) : Clean k (retireAndFreeCommand cmd) := by
  unfold retireAndFreeCommand
  constructor <;> (intro x hm; simp only [List.mem_append, List.mem_singleton] at hm; aesop)

theorem clean_completionEvents {k : Nat} {cmd : Command} {err : UInt32}
    (h : cmd.cookie = k → err ≠ 0) : Clean k (completionEvents cmd err) := by
  unfold completionEvents
  split
  · refine ⟨fun e hm => ?_, by simp⟩
    simp only [List.mem_singleton, Event.completion.injEq] at hm
    rw [hm.2]
    exact h hm.1.symm
  · exact .nil k

theorem clean_finish (k n : Nat) : Clean k [.finish n] := ⟨by simp, by simp⟩

/-- What is logged when a command is finished or aborted. -/
theorem clean_settled {k : Nat} {cmd : Command} {err : UInt32} (retire : Bool)
    (h : cmd.cookie = k → err ≠ 0) :
    Clean k (completionEvents cmd err ++ [Event.finish cmd.cookie] ++
      if retire then retireAndFreeCommand cmd else []) := by
  refine ((clean_completionEvents h).append (clean_finish k _)).append ?_
  split
  · exact clean_retireAndFree k cmd
  · exact .nil k

theorem completedError_ne {cmd : Command} (h : cmd.error ≠ 0) : completedError cmd ≠ 0 := by
  unfold completedError
  rw [if_neg fun hx => h hx.2.2]
  exact h

namespace Book

/-- The command has failed, wherever it is. -/
structure Failed (k : Nat) (b : Book) : Prop where
  known : k < b.unique
  error : ∀ c ∈ b.commands, c.cookie = k → c.error ≠ 0

/-- The command is not done. -/
def Pending (k : Nat) (b : Book) : Prop := k ∈ (b.toIssue ++ b.inFlight).map Command.cookie

/-- The part of `Failed` that finishing or aborting a command has to show. -/
theorem Failed.settle {k : Nat} {b : Book} {cmd cmd' : Command} {err : UInt32} {retire : Bool}
    (hf : b.Failed k) (b₀ : Book) (hu : b₀.unique = b.unique) (hsub : ∀ c ∈ b₀.commands, c ∈ b.commands)
    (hcmd : cmd ∈ b.commands) (hs : Settled cmd cmd' err retire) :
    (b₀.settle cmd cmd' err retire).Failed k ∧
      Clean k (completionEvents cmd err ++ [Event.finish cmd.cookie] ++
        if retire then retireAndFreeCommand cmd else []) := by
  have hne : cmd.cookie = k → err ≠ 0 ∧ cmd'.error ≠ 0 := fun hk => hs.error (hf.error cmd hcmd hk)
  refine ⟨⟨by rw [Book.settle, hu]; exact hf.known, fun c hc hk => ?_⟩, ?_⟩
  · have hmem : c ∈ b₀.commands ∨ c = cmd' := by
      simp only [Book.settle, commands, List.mem_append] at hc ⊢
      cases retire with
      | true => exact .inl hc
      | false =>
        simp only [Bool.false_eq_true, if_false, List.mem_append, List.mem_singleton] at hc
        tauto
    rcases hmem with hmem | rfl
    · exact hf.error c (hsub c hmem) hk
    · rw [hs.same] at hk
      exact (hne hk).2
  · exact clean_settled retire fun hk => (hne hk).1

end Book

/-! ## Replies that are going to fail the command -/

/-- The states of a chunk that end with an error set, or the connection lost. -/
def State.isFailing : State → Bool
  | chunkRecvError | chunkRecvErrorMessage | chunkRecvErrorTail | chunkResync => true
  | _ => false

/-- After a step: the command has failed, or it is going to. -/
def FailsCmd (k : Nat) (h : Handle) : Prop :=
  (∃ c ∈ h.q.cmdsInFlight, c.cookie = k ∧ c.error ≠ 0) ∨
    (h.alive ∧ h.logical.isFailing = true ∧ h.rx.replyCmd = some k) ∨
    (¬ h.alive ∧ k ∈ h.q.cmdsInFlight.map Command.cookie)

theorem State.isMid_of_isFailing {s : State} (h : s.isFailing = true) : s.isMid = true := by
  cases s <;> simp_all [State.isFailing, State.isMid]

theorem FailsCmd.goto {k : Nat} {h : Handle} {s : State} (hs : s.isFailing = true)
    (hk : h.rx.replyCmd = some k) : (goto s h).All (FailsCmd k) := by
  refine .inr (.inl ⟨alive_of_isMid (State.isMid_of_isFailing hs), ?_, hk⟩)
  rwa [Handle.logical_of_isMid (State.isMid_of_isFailing hs)]

theorem FailsCmd.dead {k : Nat} {h : Handle} (hd : h.state = .dead)
    (hk : k ∈ h.q.cmdsInFlight.map Command.cookie) : FailsCmd k h :=
  .inr (.inr ⟨fun ha => ha.1 hd, hk⟩)

theorem replyRef_cookie {h : Handle} {cmd : Command} {k : Nat} (hl : h.replyRef = .live cmd)
    (hk : h.rx.replyCmd = some k) : cmd.cookie = k := by
  have := (replyRef_live hl).1
  rw [hk] at this
  exact (Option.some.inj this).symm

/-- The command of the reply gets an error. -/
theorem FailsCmd.setCmd {k : Nat} {h h' : Handle} {cmd : Command} {e : UInt32}
    (hl : h.replyRef = .live cmd) (hk : h.rx.replyCmd = some k)
    (hq : h'.q = (h.setCmd { cmd with error := e }).q) (hne : e ≠ 0) : FailsCmd k h' := by
  have hck : cmd.cookie = k := replyRef_cookie hl hk
  refine .inl ⟨{ cmd with error := e }, ?_, hck, hne⟩
  rw [hq]
  exact mem_setFirst (c := cmd) (replyRef_live hl).2

/-- What aborting commands reports and leaves in `cmds_done`. -/
structure Aborts (k : Nat) (h h' : Handle) : Prop where
  trace : ∃ es, h'.trace = h.trace ++ es ∧ Clean k es
  done : ∀ c ∈ h'.q.cmdsDone, c ∈ h.q.cmdsDone ∨ c.error ≠ 0

theorem Aborts.trans {k : Nat} {h h₁ h₂ : Handle} (a : Aborts k h h₁) (b : Aborts k h₁ h₂) :
    Aborts k h h₂ := by
  obtain ⟨es, he, hes⟩ := a.trace
  obtain ⟨fs, hf, hfs⟩ := b.trace
  refine ⟨⟨es ++ fs, by rw [hf, he, List.append_assoc], hes.append hfs⟩, fun c hc => ?_⟩
  rcases b.done c hc with hc | hc
  · exact a.done c hc
  · exact .inr hc

/-- From here on the command is not reported as successful. -/
inductive Tainted (k : Nat) (c : Config) : Prop
  | ended (ho : c.ctl = .closed ∨ ∃ a, c.ctl = .aborted a)
  | failed (hg : Good c) (hf : c.h.book.Failed k)
  | failing (hg : Good c) (ha : c.h.alive) (hf : c.h.logical.isFailing = true)
      (hk : c.h.rx.replyCmd = some k)
  | lost (hg : Good c) (ha : ¬ c.h.alive) (hrun : ∃ a, c.ctl = .running a)
      (hp : c.h.book.Pending k)

theorem FailsCmd.inFlight {k : Nat} {h : Handle} (hf : FailsCmd k h) (hr : RxInv h) :
    k ∈ h.q.cmdsInFlight.map Command.cookie := by
  rcases hf with ⟨c, hc, rfl, -⟩ | ⟨ha, -, hk⟩ | ⟨-, hk⟩
  · exact List.mem_map_of_mem hc
  · exact ((hr.cmd ha).inFlight k hk).2
  · exact hk

theorem aioCommandCompleted_ret {h h' : Handle} {cookie : UInt64} {r : Int}
    (hne : ∀ c ∈ h.q.cmdsDone, c.cookie = cookie.toNat → c.error ≠ 0)
    (hok : aioCommandCompleted h cookie = .ok (h', r)) : r ≠ 1 := by
  unfold aioCommandCompleted at hok
  split at hok
  · cases hok
    exact nofun
  · split at hok
    · cases hok
      exact nofun
    · rename_i cmd hf
      obtain ⟨hmem, hck⟩ := findCmd_mem hf
      have herr := completedError_ne (hne cmd hmem hck)
      split at hok
      · cases hok
      · split at hok
        · cases hok
        · have hr := congrArg Prod.snd (Except.ok.inj hok)
          simp only [if_neg herr] at hr
          rw [← hr]
          exact nofun

/-- `nbd_aio_command_completed` does not return 1 for the command. -/
theorem Tainted.completed {k : Nat} {c c' : Config} (ht : Tainted k c) {cookie : UInt64}
    (hk : cookie.toNat = k) {inp : Input} {r : Int}
    (h : step c (.call (.aioCommandCompleted cookie) inp) = some c') (hr : c'.ctl = .idle r) :
    r ≠ 1 := by
  have hfin : (∀ d ∈ c.h.q.cmdsDone, d.cookie = k → d.error ≠ 0) → r ≠ 1 := by
    intro hne
    obtain ⟨inp', a, hl, -, -⟩ | ⟨api, inp', r', hl, -, rfl⟩ := step_cases h
    · cases hl
    · cases hl
      simp only [apiCall] at hr
      split at hr
      · cases hr
      · rename_i h' r₁ hok
        cases hr
        exact aioCommandCompleted_ret (by rw [hk]; exact hne) hok
  cases ht with
  | ended ho => rcases ho with ho | ⟨a, ho⟩ <;> simp [step, ho] at h
  | failed hg hf =>
    refine hfin fun d hd => hf.error d ?_
    simp only [Book.commands, Handle.book, List.mem_append]
    exact .inr hd
  | failing hg ha hf hcmd =>
    refine hfin fun d hd hdk => ?_
    -- a command in flight is not done
    have hmem := ((hg.rx.cmd ha).inFlight k hcmd).2
    have hnd := hg.sound.inv.nodup
    simp only [Book.cookies, Book.commands, Handle.book, List.map_append] at hnd
    exact absurd hdk.symm ((List.nodup_append.mp hnd).2.2 k (List.mem_append_right _ hmem) d.cookie
      (List.mem_map_of_mem hd))
  | lost hg ha hrun hp =>
    obtain ⟨a, hrun⟩ := hrun
    simp [step, hrun] at h

end Libnbd
