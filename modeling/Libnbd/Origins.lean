import Libnbd.Extents
import Libnbd.Shutdown

/-!
Where the commands of a handle come from.

A command on one of the lists is one that an API call made, except for its error
and its count of data seen. `reachable_origin` says so of every reachable state,
so that what the checks of the calls guarantee can be used wherever the machine
handles a command.
-/

namespace Libnbd

open Lib

/-- `cmd` was made by a call on a handle with the negotiated values `exp`. -/
def Submitted (exp : Export) (cmd : Command) : Prop :=
  (∃ inp h call, h.exp = exp ∧ Call.Makes inp h call cmd) ∨
    ∃ h flags, h.exp = exp ∧ cmd = (discRequest flags).command h

/-- The same command, whatever has happened to it since. -/
def Command.SameAs (a cmd : Command) : Prop :=
  cmd = { a with error := cmd.error, dataSeen := cmd.dataSeen }

theorem Command.Touched.sameAs {c c' : Command} (h : c.Touched c') : c.SameAs c' := h.1

theorem Command.SameAs.trans {a b c : Command} (hab : a.SameAs b) (hbc : b.SameAs c) :
    a.SameAs c := by
  unfold SameAs at *
  rw [hbc, hab]

/-! ## The lists -/

/-- Every command on the lists was accepted. -/
def Book.Descends (b : Book) : Prop :=
  ∀ cmd ∈ b.commands, ∃ a ∈ accepted b.trace, a.SameAs cmd

theorem Book.Descends.mono {b b' : Book} (hb : b.Descends)
    (htr : ∃ es, b'.trace = b.trace ++ es)
    (hc : ∀ cmd ∈ b'.commands, ∃ d ∈ b.commands, d.SameAs cmd) : b'.Descends := by
  obtain ⟨es, htr⟩ := htr
  intro cmd hmem
  obtain ⟨d, hd, hdc⟩ := hc cmd hmem
  obtain ⟨a, ha, had⟩ := hb d hd
  refine ⟨a, ?_, had.trans hdc⟩
  rw [htr, accepted_append]
  exact List.mem_append_left _ ha

theorem Settled.sameAs {cmd cmd' : Command} {err : UInt32} {retire : Bool}
    (hs : Settled cmd cmd' err retire) : cmd.SameAs cmd' := by
  unfold Command.SameAs
  rw [hs.same]

theorem exists_sameAs {cs ds : List Command} (h : List.Forall₂ Command.Touched cs ds)
    {d : Command} (hd : d ∈ ds) : ∃ c ∈ cs, c.SameAs d := by
  induction h with
  | nil => cases hd
  | cons hcd _ ih =>
    rcases List.mem_cons.mp hd with rfl | hd
    · exact ⟨_, List.mem_cons_self, hcd.sameAs⟩
    · obtain ⟨c, hc, hs⟩ := ih hd
      exact ⟨c, List.mem_cons_of_mem _ hc, hs⟩

/-- Completing a command keeps it or drops it. -/
theorem mem_settle {b : Book} {cmd cmd' d : Command} {err : UInt32} {retire : Bool}
    (hd : d ∈ (b.settle cmd cmd' err retire).commands) : d ∈ b.commands ∨ d = cmd' := by
  simp only [Book.settle, Book.commands, List.mem_append] at hd ⊢
  rcases hd with (hd | hd) | hd
  · exact .inl (.inl (.inl hd))
  · exact .inl (.inl (.inr hd))
  · split at hd
    · exact .inl (.inr hd)
    · rcases List.mem_append.mp hd with hd | hd
      · exact .inl (.inr hd)
      · exact .inr (List.mem_singleton.mp hd)

theorem Book.Descends.step {b b' : Book} (hb : b.Descends) (h : BookStep b b') : b'.Descends := by
  have hself : ∀ {cmd : Command}, cmd ∈ b.commands → ∃ d ∈ b.commands, d.SameAs cmd :=
    fun hmem => ⟨_, hmem, rfl⟩
  cases h with
  | touch ht hes =>
    refine hb.mono ⟨_, rfl⟩ fun cmd hmem => ?_
    simp only [Book.commands, List.mem_append] at hmem
    rcases hmem with (hmem | hmem) | hmem
    · exact hself (by simp [Book.commands, hmem])
    · obtain ⟨c, hc, hs⟩ := exists_sameAs ht hmem
      exact ⟨c, by simp [Book.commands, hc], hs⟩
    · exact hself (by simp [Book.commands, hmem])
  | reject hes => exact hb.mono ⟨_, rfl⟩ fun cmd hmem => hself hmem
  | accept hk hc =>
    rename_i cmd₀
    intro cmd hmem
    simp only [accepted_append]
    simp only [Book.commands, List.mem_append, List.mem_singleton] at hmem
    by_cases hnew : cmd = cmd₀
    · subst hnew
      exact ⟨cmd, List.mem_append_right _ (by simp [accepted]), rfl⟩
    · obtain ⟨a, ha, hs⟩ := hb cmd (by
        simp only [Book.commands, List.mem_append]
        tauto)
      exact ⟨a, List.mem_append_left _ ha, hs⟩
  | issue hq =>
    refine hb.mono ⟨_, rfl⟩ fun cmd hmem => hself ?_
    simp only [Book.commands, List.mem_append, List.mem_cons, hq] at hmem ⊢
    tauto
  | finish hq hs =>
    refine hb.mono ⟨_, rfl⟩ fun d hmem => ?_
    rcases mem_settle hmem with hmem | rfl
    · refine hself ?_
      simp only [Book.commands, List.mem_append, List.mem_cons, hq] at hmem ⊢
      tauto
    · exact ⟨_, by simp [Book.commands, hq], hs.sameAs⟩
  | abort hq hs =>
    refine hb.mono ⟨_, rfl⟩ fun d hmem => ?_
    rcases mem_settle hmem with hmem | rfl
    · refine hself ?_
      simp only [Book.commands, List.mem_append, List.mem_cons, hq] at hmem ⊢
      tauto
    · exact ⟨_, by simp [Book.commands, hq], hs.sameAs⟩
  | retire hq =>
    refine hb.mono ⟨_, rfl⟩ fun d hmem => hself ?_
    simp only [Book.commands, List.mem_append, List.mem_cons, hq] at hmem ⊢
    tauto

/-! ## Calls -/

theorem afterSubmit_trace {h h' : Handle} {k : After} {run : Bool} :
    (afterSubmit h k (.accepted h' run)).h.trace = h'.trace := by
  cases run with
  | false => cases k <;> rfl
  | true =>
    simp only [afterSubmit, startRun]
    split
    · rfl
    · cases k <;> rfl

theorem afterSubmit_accepts {h : Handle} {k : After} {s : Submit} {P : Command → Prop}
    (ha : s.AcceptsOnce h P) : accepted (afterSubmit h k s).h.trace = accepted h.trace ∨
      ∃ cmd, P cmd ∧ accepted (afterSubmit h k s).h.trace = accepted h.trace ++ [cmd] := by
  cases s with
  | refused h' | rejected h' => exact .inl ha.1
  | abort a => exact .inl rfl
  | accepted h' run =>
    rw [afterSubmit_trace]
    rcases ha.2 with ⟨-, hacc⟩ | ⟨-, new, hnew, hacc⟩
    · exact .inl hacc
    · exact .inr ⟨new, hnew, hacc⟩

theorem afterSubmit_accepted {h : Handle} {k : After} {s : Submit} {P : Command → Prop}
    (ha : s.AcceptsOnce h P) {cmd : Command}
    (hmem : cmd ∈ accepted (afterSubmit h k s).h.trace) : cmd ∈ accepted h.trace ∨ P cmd := by
  rcases afterSubmit_accepts (k := k) ha with hacc | ⟨new, hnew, hacc⟩
  · rw [hacc] at hmem
    exact .inl hmem
  · rw [hacc] at hmem
    rcases List.mem_append.mp hmem with hmem | hmem
    · exact .inl hmem
    · rw [List.mem_singleton.mp hmem]
      exact .inr hnew

/-- A command that a call has accepted is the one that its submission made. -/
theorem afterSubmit_made {h : Handle} {k : After} {s : Submit} {P : Command → Prop}
    (ha : s.AcceptsOnce h P) {cmd : Command}
    (hacc : accepted (afterSubmit h k s).h.trace = accepted h.trace ++ [cmd]) : P cmd := by
  rcases afterSubmit_accepts (k := k) ha with heq | ⟨new, hnew, heq⟩
  · rw [heq] at hacc
    simp at hacc
  · rw [heq] at hacc
    obtain rfl : new = cmd := by simpa using hacc
    exact hnew

theorem Submit.AcceptsOnce.mono {h : Handle} {P Q : Command → Prop} {s : Submit}
    (ha : s.AcceptsOnce h P) (hPQ : ∀ cmd, P cmd → Q cmd) : s.AcceptsOnce h Q := by
  cases s with
  | refused h' | rejected h' => exact ha
  | accepted h' run => exact ⟨ha.1, ha.2.imp id fun ⟨hd, cmd, hp, hacc⟩ => ⟨hd, cmd, hPQ cmd hp, hacc⟩⟩
  | abort a => trivial

/-- `cmd` is the `NBD_CMD_DISC` of `nbd_aio_disconnect` or `nbd_shutdown`. -/
def Disconnects (h : Handle) (cmd : Command) : Prop :=
  ∃ h₁ flags, h₁.exp = h.exp ∧ cmd = (discRequest flags).command h₁ ∧
    (h.isStrict strictFlags = true → flags = 0)

theorem disc_acceptsOnce {inp : Input} {h : Handle} {s : Submit} {flags : UInt32}
    (hs : s = aioDisconnect inp h flags ∨ s = shutdown inp h flags) (hinv : h.book.Inv)
    (ht : Tails h) (hi : Idle h) : s.AcceptsOnce h (Disconnects h) := by
  have hcommon : ∀ {h₁ : Handle} (f : UInt32), h₁.exp = h.exp →
      (h.isStrict strictFlags = true → f = 0) → h₁.book.Inv → Tails h₁ → Idle h₁ →
      h₁.state.isConnected = true →
      (commandCommon inp h₁ (discRequest f)).AcceptsOnce h₁ (Disconnects h) := by
    intro h₁ f hexp hf hinv₁ ht₁ hi₁ hconn
    have ha := commandCommon_acceptsOnce inp (r := discRequest f) hinv₁ ht₁ hconn hi₁
    generalize commandCommon inp h₁ (discRequest f) = t at ha ⊢
    cases t with
    | refused h' | rejected h' => exact ha
    | accepted h' run =>
      exact ⟨ha.1, ha.2.imp id fun ⟨hd, cmd, ⟨_, he⟩, hacc⟩ =>
        ⟨hd, cmd, ⟨h₁, f, hexp, he, hf⟩, hacc⟩⟩
    | abort a => trivial
  rcases hs with rfl | rfl
  · unfold aioDisconnect
    split
    · exact ⟨rfl, rfl⟩
    · rename_i hconn
      split
      · exact ⟨rfl, rfl⟩
      · rename_i hflags
        refine hcommon flags rfl (fun hstrict => ?_) hinv ht hi (by simpa using hconn)
        simpa [hstrict] using hflags
  · unfold shutdown
    split
    · exact ⟨rfl, rfl⟩
    · rename_i hconn
      split
      · exact ⟨rfl, rfl⟩
      · split
        · trivial
        · rename_i h₁ hok
          obtain ⟨hs, hd, hacc, hinv₁, ht₁, hi₁⟩ := abandon_first hinv ht hi hok
          have hexp : h₁.exp = h.exp := by
            split at hok
            · unfold abandonPending at hok
              split at hok
              · rw [abortCommands_doneOnly hok]
              · split at hok
                · cases hok
                · rw [abortCommands_doneOnly hok]
            · cases hok
              rfl
          split
          · rename_i hdisc
            exact ⟨hd, .inl ⟨hd ▸ hdisc, hacc⟩⟩
          · have ha := hcommon 0 hexp (fun _ => rfl) hinv₁ ht₁ hi₁ (by rw [hs]; simpa using hconn)
            generalize commandCommon inp h₁ (discRequest 0) = t at ha ⊢
            cases t with
            | refused h' | rejected h' => exact ⟨ha.1.trans hacc, ha.2.trans hd⟩
            | accepted h' run =>
              refine ⟨ha.1.trans hd, ?_⟩
              rw [← hd, ← hacc]
              exact ha.2
            | abort a => trivial

theorem disc_submitted {inp : Input} {h : Handle} {s : Submit} {flags : UInt32}
    (hs : s = aioDisconnect inp h flags ∨ s = shutdown inp h flags) (hinv : h.book.Inv)
    (ht : Tails h) (hi : Idle h) : s.AcceptsOnce h (Submitted h.exp) :=
  (disc_acceptsOnce hs hinv ht hi).mono fun _ ⟨h₁, f, hexp, hcmd, _⟩ => .inr ⟨h₁, f, hexp, hcmd⟩

theorem sanitize_exp (h : Handle) (call : Call) : (sanitize h call).exp = h.exp := by
  obtain ⟨m, hm⟩ := sanitize_eq h call
  rw [hm]

/-- A call accepts only commands that it made. -/
theorem apiCall_submitted {inp : Input} {h : Handle} {api : Api} (hinv : h.book.Inv) (ht : Tails h)
    (hi : Idle h) (hclose : api ≠ .close) {cmd : Command}
    (hmem : cmd ∈ accepted (apiCall inp h api).h.trace) :
    cmd ∈ accepted h.trace ∨ Submitted h.exp cmd := by
  cases api with
  | command call =>
    refine (afterSubmit_accepted (submit_acceptsOnce call hinv ht hi) hmem).imp id fun hm => ?_
    exact .inl ⟨inp, _, call, sanitize_exp h call, hm⟩
  | aioDisconnect flags => exact afterSubmit_accepted (disc_submitted (.inl rfl) hinv ht hi) hmem
  | shutdown flags => exact afterSubmit_accepted (disc_submitted (.inr rfl) hinv ht hi) hmem
  | close => exact absurd rfl hclose
  | aioNotifyRead | aioNotifyWrite | setStrictMode | setPreadInitialize | aioCommandCompleted =>
    rw [(no_submission_disc hclose rfl).2] at hmem
    exact .inl hmem

/-! ## Runs -/

/-- Every accepted command was made by a call, and every command was accepted. -/
structure Origin (c : Config) : Prop where
  good : Good c
  submitted : ∀ cmd ∈ accepted c.h.trace, Submitted c.h.exp cmd
  descends : c.h.book.Descends

theorem step_origin {c c' : Config} {l : Label} (ho : Origin c) (h : step c l = some c') :
    c'.ctl = .closed ∨ Origin c' := by
  by_cases hcl : c'.ctl = .closed
  · exact .inl hcl
  right
  have hs := ho.good.sound
  have hr := (step_refines hs h).resolve_left hcl
  have hexp : c'.h.exp = c.h.exp := (step_names hs h).exp
  refine ⟨(step_good ho.good h).resolve_left hcl, fun cmd hmem => ?_,
    hr.steps.invariant (fun _ _ hb hstep => hb.step hstep) ho.descends⟩
  rw [hexp]
  obtain ⟨inp, k, rfl, hctl, rfl⟩ | ⟨api, inp, r, rfl, hctl, rfl⟩ := step_cases h
  · have hacc : accepted (stepEnter inp k c.h).h.trace = accepted c.h.trace := by
      refine stepEnter_all (P := fun h' => accepted h'.trace = accepted c.h.trace) k
        ((enter_proceeds inp hs.inv hs.tails).mono fun _ hp => hp.accepted) rfl fun _ _ hp => hp
    rw [hacc] at hmem
    exact ho.submitted cmd hmem
  · have hclose : api ≠ .close := by
      rintro rfl
      exact hcl rfl
    have ht : Tails { c.h with lastError := inp.lastError } := ⟨hs.tails.toIssue, hs.tails.done⟩
    rcases apiCall_submitted (h := { c.h with lastError := inp.lastError }) hs.inv ht
      (hs.idle r hctl) hclose hmem with hmem | hm
    · exact ho.submitted cmd hmem
    · exact hm

theorem reachable_origin {c : Config} (hc : machine.Reachable c) : c.ctl = .closed ∨ Origin c := by
  refine machine.reachable_invariant (P := fun c => c.ctl = .closed ∨ Origin c) ?_ ?_ hc
  · intro c₀ hi
    refine .inr ⟨initial_good hi, ?_, ?_⟩ <;> obtain ⟨exp, strict, pi, hdr, payload, mem, rfl⟩ := hi
    · exact fun _ hmem => absurd hmem List.not_mem_nil
    · exact fun _ hmem => absurd hmem List.not_mem_nil
  · rintro c l c' (hcl | ho) hstep
    · cases l <;> simp [machine, step, hcl] at hstep
    · exact step_origin ho hstep

/-- The call that made a command on one of the lists. -/
theorem Origin.made {c : Config} (ho : Origin c) {cmd : Command} (hmem : cmd ∈ c.h.book.commands) :
    ∃ a, Submitted c.h.exp a ∧ a.SameAs cmd := by
  obtain ⟨a, ha, hs⟩ := ho.descends cmd hmem
  exact ⟨a, ho.submitted a ha, hs⟩

end Libnbd
