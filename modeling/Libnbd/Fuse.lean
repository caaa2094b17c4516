import Libnbd.Lib.System

/-!
nbdfuse: the count of commands in flight.

`fuse/operations.c` runs any number of FUSE threads, which submit commands, and
one operations thread per connection, which polls while `in_flight` is not zero.
A command goes through the phases of `CHECK_NBD_ASYNC_ERROR`; libnbd calls
`completion_callback` from whichever thread is inside the handle. The count is
incremented only after the submission, so it lags behind by the threads that are
in between (`accounts`).
-/

namespace Libnbd.Fuse

open Lib

/-- Where the FUSE thread of a command is: it has picked a connection, is inside
`nbd_aio_*`, has got the cookie, has incremented `in_flight`, or is done. -/
inductive Phase where
  | chosen
  | calling
  | returned
  | waiting
  | finished
  deriving DecidableEq, Repr

/-- One use of `CHECK_NBD_ASYNC_ERROR`, with its `struct completion`. -/
structure Op where
  thread : Nat
  conn : Nat
  phase : Phase
  completed : Bool
  deriving DecidableEq, Repr

/-- Where an operations thread is: waiting for work, at the inner loop, or inside
`nbd_poll`. -/
inductive Poller where
  | sleeping
  | dispatching
  | polling
  deriving DecidableEq, Repr

inductive Status where
  | running
  /-- `nbd_poll` has failed. -/
  | exited
  /-- The assertion of `completion_callback` has failed. -/
  | aborted
  deriving DecidableEq, Repr

structure State where
  /-- `nbd.len` -/
  len : Nat
  /-- The counter of `next_thread`. -/
  n : Nat
  ops : List Op
  inFlight : Nat → Nat
  poller : Nat → Poller
  status : Status

/-- `next_thread` -/
def nextThread (len n : Nat) : Nat := if len = 1 then 0 else n % (len - 1)

/-- The handle's lock is held: by a thread inside `nbd_aio_*`, or by the
operations thread inside `nbd_poll`. -/
def State.locked (s : State) (i : Nat) : Bool :=
  s.poller i == .polling || s.ops.any fun op => op.conn == i && op.phase == .calling

/-- The command has been given to libnbd. -/
def Op.submitted (op : Op) : Bool :=
  match op.phase with
  | .calling | .returned | .waiting => true
  | _ => false

/-- The thread is between submitting and incrementing. -/
def Op.between (op : Op) : Bool :=
  match op.phase with
  | .calling | .returned => true
  | _ => false

/-- The atomic steps. `j` is the position of a command in `ops`, `i` a connection. -/
inductive Label where
  | choose (thread : Nat)
  | submit (j : Nat)
  | refuse (j : Nat)
  | return_ (j : Nat)
  | increment (j : Nat)
  | complete (j : Nat)
  | finish (j : Nat)
  | wake (i : Nat)
  | poll (i : Nat)
  | pollDone (i : Nat)
  | pollFails (i : Nat)
  deriving DecidableEq, Repr

def State.setOp (s : State) (j : Nat) (op : Op) : State := { s with ops := s.ops.set j op }

def State.setPoller (s : State) (i : Nat) (p : Poller) : State :=
  { s with poller := fun k => if k = i then p else s.poller k }

def State.setInFlight (s : State) (i n : Nat) : State :=
  { s with inFlight := fun k => if k = i then n else s.inFlight k }

/-- `completion_callback` -/
def completionCallback (s : State) (j : Nat) (op : Op) : State :=
  if s.inFlight op.conn ≥ 1 then
    (s.setOp j { op with completed := true }).setInFlight op.conn (s.inFlight op.conn - 1)
  else { s.setOp j { op with completed := true } with status := .aborted }

/-- One step on a command. -/
def stepOp (s : State) (j : Nat) (op : Op) : Label → Option State
  | .submit _ =>
    if op.phase = .chosen ∧ s.locked op.conn = false then
      some (s.setOp j { op with phase := .calling })
    else none
  | .refuse _ =>
    if op.phase = .chosen ∧ s.locked op.conn = false then
      some (s.setOp j { op with phase := .finished })
    else none
  | .return_ _ =>
    if op.phase = .calling then some (s.setOp j { op with phase := .returned }) else none
  | .increment _ =>
    if op.phase = .returned then
      some ((s.setOp j { op with phase := .waiting }).setInFlight op.conn (s.inFlight op.conn + 1))
    else none
  | .complete _ =>
    if op.submitted = true ∧ op.completed = false ∧ s.locked op.conn = true then
      some (completionCallback s j op)
    else none
  | .finish _ =>
    if op.phase = .waiting ∧ op.completed = true ∧ s.locked op.conn = false then
      some (s.setOp j { op with phase := .finished })
    else none
  | _ => none

/-- One step of an operations thread. -/
def stepPoller (s : State) (i : Nat) : Label → Option State
  | .wake _ =>
    if s.poller i = .sleeping ∧ s.inFlight i ≠ 0 then some (s.setPoller i .dispatching) else none
  | .poll _ =>
    if s.poller i = .dispatching then
      if s.inFlight i > 0 then
        if s.locked i = false then some (s.setPoller i .polling) else none
      else some (s.setPoller i .sleeping)
    else none
  | .pollDone _ =>
    if s.poller i = .polling then some (s.setPoller i .dispatching) else none
  | .pollFails _ => if s.poller i = .polling then some { s with status := .exited } else none
  | _ => none

def step (s : State) (l : Label) : Option State :=
  if s.status ≠ .running then none
  else
    match l with
    | .choose t =>
      if s.ops.all fun op => op.thread != t || op.phase == .finished then
        some { s with n := s.n + 1, ops := s.ops ++ [⟨t, nextThread s.len s.n, .chosen, false⟩] }
      else none
    | .submit j | .refuse j | .return_ j | .increment j | .complete j | .finish j =>
      match s.ops[j]? with
      | none => none
      | some op => stepOp s j op l
    | .wake i | .poll i | .pollDone i | .pollFails i => if i < s.len then stepPoller s i l else none

/-- nbdfuse with `len` connections, before the first operation. -/
def initial (len : Nat) : State := ⟨len, 0, [], fun _ => 0, fun _ => .sleeping, .running⟩

def system : System State Label where
  init s := ∃ len, 0 < len ∧ s = initial len
  step := step

/-- Commands of a connection that are submitted and not completed. -/
def State.pending (s : State) (i : Nat) : Nat :=
  s.ops.countP fun op => op.conn == i && (op.submitted && !op.completed)

/-- Threads between submitting to a connection and incrementing its count. -/
def State.lagging (s : State) (i : Nat) : Nat :=
  s.ops.countP fun op => op.conn == i && op.between

/-! ## Counting -/

/-- Replacing one element. -/
theorem countP_replace {α : Type} (p : α → Bool) {l : List α} {j : Nat} {a b : α}
    (hj : l[j]? = some a) :
    (l.set j b).countP p + (p a).toNat = l.countP p + (p b).toNat := by
  obtain ⟨hlt, hget⟩ := List.getElem?_eq_some_iff.mp hj
  rw [List.countP_set hlt, hget]
  have hpos : p a = true → 0 < l.countP p := fun ha =>
    List.countP_pos_iff.mpr ⟨a, List.mem_of_getElem? hj, ha⟩
  cases ha : p a with
  | false => cases p b <;> simp
  | true =>
    have := hpos ha
    cases p b <;> simp <;> omega

section Counts

variable {s : State} {j : Nat} {op : Op} (op' : Op) (hj : s.ops[j]? = some op)

include hj

/-- What one command contributes to a count. -/
theorem pending_setOp (i : Nat) :
    (s.setOp j op').pending i + (op.conn == i && (op.submitted && !op.completed)).toNat =
      s.pending i + (op'.conn == i && (op'.submitted && !op'.completed)).toNat :=
  countP_replace (fun op : Op => op.conn == i && (op.submitted && !op.completed)) hj

theorem lagging_setOp (i : Nat) :
    (s.setOp j op').lagging i + (op.conn == i && op.between).toNat =
      s.lagging i + (op'.conn == i && op'.between).toNat :=
  countP_replace (fun op : Op => op.conn == i && op.between) hj

end Counts

/-! ## The invariant -/

/-- **Accounting.** The count and the threads that are about to increment it make
up the commands that are submitted and not completed. -/
def Accounts (s : State) : Prop := ∀ i, s.inFlight i + s.lagging i = s.pending i

/-- A command is completed only when its connection has more commands that are
submitted and not completed than threads on the way to incrementing the count. -/
def Timely (s : State) : Label → Prop
  | .complete j => ∀ op, s.ops[j]? = some op → s.lagging op.conn < s.pending op.conn
  | _ => True

instance (s : State) (l : Label) : Decidable (Timely s l) :=
  match l with
  | .complete j =>
    match h : s.ops[j]? with
    | none => .isTrue fun op hop => by rw [h] at hop; cases hop
    | some op =>
      if hlt : s.lagging op.conn < s.pending op.conn then
        .isTrue fun op' hop => by rw [h] at hop; cases hop; exact hlt
      else .isFalse fun ht => hlt (ht op h)
  | .choose _ | .submit _ | .refuse _ | .return_ _ | .increment _ | .finish _ | .wake _ | .poll _
  | .pollDone _ | .pollFails _ => .isTrue trivial

/-- Commands change, counts do not. -/
theorem Accounts.setOp {s : State} {j : Nat} {op op' : Op} (ha : Accounts s)
    (hj : s.ops[j]? = some op) (hc : op'.conn = op.conn) (hb : op'.between = op.between)
    (hs : (op'.submitted && !op'.completed) = (op.submitted && !op.completed)) :
    Accounts (s.setOp j op') := by
  intro i
  have h₁ := pending_setOp op' hj i
  have h₂ := lagging_setOp op' hj i
  rw [hc, hs] at h₁
  rw [hc, hb] at h₂
  have := ha i
  show s.inFlight i + _ = _
  omega

/-- The callback finds a positive count exactly if the completion is timely. -/
theorem callback_timely_iff {s : State} {j : Nat} {op : Op} (ha : Accounts s)
    (hr : s.status = .running) :
    (completionCallback s j op).status ≠ .aborted ↔ s.lagging op.conn < s.pending op.conn := by
  have hacc := ha op.conn
  unfold completionCallback
  split
  · refine ⟨fun _ => by omega, fun _ => ?_⟩
    show s.status ≠ .aborted
    rw [hr]
    nofun
  · exact ⟨fun hne => absurd rfl hne, fun hlt => by omega⟩

theorem completionCallback_accounts {s : State} {j : Nat} {op : Op} (ha : Accounts s)
    (hj : s.ops[j]? = some op) (hsub : op.submitted = true) (hcomp : op.completed = false)
    (hlt : s.lagging op.conn < s.pending op.conn) : Accounts (completionCallback s j op) := by
  have hacc := ha op.conn
  unfold completionCallback
  rw [if_pos (by omega)]
  intro i
  have h₁ := pending_setOp { op with completed := true } hj i
  have h₂ := lagging_setOp { op with completed := true } hj i
  have hi := ha i
  have hsame : Op.between { op with completed := true } = op.between := rfl
  simp only [hsub, hcomp, Bool.not_false, Bool.not_true, Bool.and_true, Bool.and_false,
    Bool.toNat_false] at h₁
  simp only [hsame] at h₂
  show (if i = op.conn then s.inFlight op.conn - 1 else s.inFlight i) +
    (s.setOp j { op with completed := true }).lagging i =
    (s.setOp j { op with completed := true }).pending i
  by_cases hconn : i = op.conn
  · subst hconn
    rw [beq_self_eq_true, Bool.toNat_true] at h₁
    rw [if_pos rfl]
    omega
  · have hne : (op.conn == i) = false := by simpa using fun h => hconn h.symm
    rw [hne, Bool.toNat_false] at h₁
    rw [if_neg hconn]
    omega

/-- A command is submitted: one more is pending, and one more thread lags. -/
theorem submit_accounts {s : State} {j : Nat} {op : Op} (ha : Accounts s)
    (hj : s.ops[j]? = some op) (hp : op.phase = .chosen) (hc : op.completed = false) :
    Accounts (s.setOp j { op with phase := .calling }) := by
  obtain ⟨t, conn, phase, completed⟩ := op
  cases hp
  cases hc
  intro i
  have h₁ := pending_setOp ⟨t, conn, .calling, false⟩ hj i
  have h₂ := lagging_setOp ⟨t, conn, .calling, false⟩ hj i
  have hi := ha i
  simp only [Op.submitted, Bool.and_false, Bool.not_false, Bool.and_true, Bool.toNat_false] at h₁
  simp only [Op.between, Bool.and_false, Bool.and_true, Bool.toNat_false] at h₂
  show s.inFlight i + (s.setOp j ⟨t, conn, .calling, false⟩).lagging i =
    (s.setOp j ⟨t, conn, .calling, false⟩).pending i
  omega

/-- The count is incremented: one thread less lags. -/
theorem increment_accounts {s : State} {j : Nat} {op : Op} (ha : Accounts s)
    (hj : s.ops[j]? = some op) (hp : op.phase = .returned) :
    Accounts ((s.setOp j { op with phase := .waiting }).setInFlight op.conn
      (s.inFlight op.conn + 1)) := by
  intro i
  have h₁ := pending_setOp { op with phase := .waiting } hj i
  have h₂ := lagging_setOp { op with phase := .waiting } hj i
  have hi := ha i
  simp only [Op.submitted, hp] at h₁
  simp only [Op.between, hp, Bool.and_false, Bool.and_true, Bool.toNat_false] at h₂
  show (if i = op.conn then s.inFlight op.conn + 1 else s.inFlight i) +
    (s.setOp j { op with phase := .waiting }).lagging i =
    (s.setOp j { op with phase := .waiting }).pending i
  by_cases hconn : i = op.conn
  · subst hconn
    rw [beq_self_eq_true, Bool.toNat_true] at h₂
    rw [if_pos rfl]
    omega
  · have hne : (op.conn == i) = false := by simpa using fun h => hconn h.symm
    rw [hne, Bool.toNat_false] at h₂
    rw [if_neg hconn]
    omega

/-- A command that is not submitted is not completed. -/
def Fresh (s : State) : Prop := ∀ op ∈ s.ops, op.phase = .chosen → op.completed = false

theorem Fresh.setOp {s : State} {j : Nat} {op : Op} (hf : Fresh s) (hp : op.phase ≠ .chosen) :
    Fresh (s.setOp j op) := by
  intro op' hmem hp'
  rcases List.mem_or_eq_of_mem_set hmem with hmem | rfl
  · exact hf op' hmem hp'
  · exact absurd hp' hp

structure Inv (s : State) : Prop where
  accounts : Accounts s
  fresh : Fresh s
  notAborted : s.status ≠ .aborted

theorem stepOp_inv {s s' : State} {j : Nat} {op : Op} {l : Label} (hi : Inv s)
    (hj : s.ops[j]? = some op) (hr : s.status = .running)
    (ht : ∀ j', l = .complete j' → s.lagging op.conn < s.pending op.conn)
    (h : stepOp s j op l = some s') : Inv s' := by
  have hna : ∀ {s'' : State}, s''.status = s.status → s''.status ≠ .aborted := by
    intro s'' he
    rw [he, hr]
    nofun
  have hmem := List.mem_of_getElem? hj
  cases l with
  | submit _ =>
    simp only [stepOp] at h
    split at h
    · rename_i hp
      cases h
      exact ⟨submit_accounts hi.accounts hj hp.1 (hi.fresh op hmem hp.1), hi.fresh.setOp nofun,
        hna rfl⟩
    · cases h
  | refuse _ =>
    simp only [stepOp] at h
    split at h
    · rename_i hp
      cases h
      refine ⟨hi.accounts.setOp hj rfl ?_ ?_, hi.fresh.setOp nofun, hna rfl⟩
      · simp only [Op.between, hp.1]
      · simp only [Op.submitted, hp.1]
    · cases h
  | return_ _ =>
    simp only [stepOp] at h
    split at h
    · rename_i hp
      cases h
      refine ⟨hi.accounts.setOp hj rfl ?_ ?_, hi.fresh.setOp nofun, hna rfl⟩
      · simp only [Op.between, hp]
      · simp only [Op.submitted, hp]
    · cases h
  | increment _ =>
    simp only [stepOp] at h
    split at h
    · rename_i hp
      cases h
      exact ⟨increment_accounts hi.accounts hj hp, hi.fresh.setOp nofun, hna rfl⟩
    · cases h
  | complete j' =>
    simp only [stepOp] at h
    split at h
    · rename_i hp
      cases h
      have hlt := ht j' rfl
      have hne : op.phase ≠ .chosen := by
        intro heq
        simp [Op.submitted, heq] at hp
      refine ⟨completionCallback_accounts hi.accounts hj hp.1 hp.2.1 hlt, ?_,
        (callback_timely_iff hi.accounts hr).mpr hlt⟩
      unfold completionCallback
      split
      · exact hi.fresh.setOp hne
      · exact hi.fresh.setOp hne
    · cases h
  | finish _ =>
    simp only [stepOp] at h
    split at h
    · rename_i hp
      cases h
      refine ⟨hi.accounts.setOp hj rfl ?_ ?_, hi.fresh.setOp nofun, hna rfl⟩
      · simp only [Op.between, hp.1]
      · simp only [Op.submitted, hp.1, hp.2.1, Bool.not_true, Bool.and_false]
    · cases h
  | choose _ | wake _ | poll _ | pollDone _ | pollFails _ => cases h

/-- An operations thread changes no count. -/
theorem stepPoller_inv {s s' : State} {i : Nat} {l : Label} (hi : Inv s)
    (h : stepPoller s i l = some s') : Inv s' := by
  have hsame : ∀ p, Inv (s.setPoller i p) := fun p => ⟨hi.accounts, hi.fresh, hi.notAborted⟩
  cases l with
  | wake _ | pollDone _ =>
    simp only [stepPoller] at h
    split at h
    · cases h
      exact hsame _
    · cases h
  | poll _ =>
    simp only [stepPoller] at h
    split at h
    · split at h
      · split at h
        · cases h
          exact hsame _
        · cases h
      · cases h
        exact hsame _
    · cases h
  | pollFails _ =>
    simp only [stepPoller] at h
    split at h
    · cases h
      exact ⟨hi.accounts, hi.fresh, nofun⟩
    · cases h
  | choose _ | submit _ | refuse _ | return_ _ | increment _ | complete _ | finish _ => cases h

/-- **Step.** -/
theorem step_inv {s s' : State} {l : Label} (hi : Inv s) (ht : Timely s l)
    (h : step s l = some s') : Inv s' := by
  unfold step at h
  split at h
  · cases h
  · rename_i hr
    simp only [ne_eq, not_not] at hr
    have hop : ∀ {j : Nat}, (match s.ops[j]? with
        | none => none
        | some op => stepOp s j op l) = some s' →
        (∀ j' op, l = .complete j' → s.ops[j]? = some op → s.lagging op.conn < s.pending op.conn) →
        Inv s' := by
      intro j h ht
      split at h
      · cases h
      · rename_i op hj
        exact stepOp_inv hi hj hr (fun j' hl => ht j' op hl hj) h
    cases l with
    | choose t =>
      simp only at h
      split at h
      · cases h
        refine ⟨fun i => ?_, fun op hmem hp => ?_, hi.notAborted⟩
        · have := hi.accounts i
          simpa [State.pending, State.lagging, Op.submitted, Op.between] using this
        · rcases List.mem_append.mp hmem with hmem | hmem
          · exact hi.fresh op hmem hp
          · rw [List.mem_singleton.mp hmem]
      · cases h
    | submit j | refuse j | return_ j | increment j | finish j => exact hop h nofun
    | complete j =>
      refine hop h fun j' op hl hj => ht op hj
    | wake i | poll i | pollDone i | pollFails i =>
      simp only at h
      split at h
      · exact stepPoller_inv hi h
      · cases h

theorem initial_inv {s : State} (h : system.init s) : Inv s := by
  obtain ⟨len, -, rfl⟩ := h
  exact ⟨fun _ => rfl, fun _ hm => absurd hm List.not_mem_nil, nofun⟩

theorem reachable_inv {s : State} (h : system.ReachableBy Timely s) : Inv s :=
  system.reachableBy_invariant (fun _ => initial_inv)
    (fun _ _ _ hi ht hstep => step_inv hi ht hstep) h

/-- **In-flight accounting**, in every run whose completions are timely; and the
assertion of `completion_callback` fails exactly at a completion that is not. -/
theorem in_flight_accounts {s : State} (h : system.ReachableBy Timely s) :
    s.status ≠ .aborted ∧
    (∀ i, s.lagging i = 0 → s.inFlight i = s.pending i) ∧
    ∀ l s', system.step s l = some s' → (s'.status ≠ .aborted ↔ Timely s l) := by
  have hi := reachable_inv h
  refine ⟨hi.notAborted, fun i hz => ?_, fun l s' hstep => ⟨fun hna => ?_, fun ht => ?_⟩⟩
  · have := hi.accounts i
    omega
  · cases l with
    | complete j =>
      intro op hj
      simp only [system, step] at hstep
      split at hstep
      · cases hstep
      · rename_i hr
        rw [hj] at hstep
        simp only [stepOp] at hstep
        split at hstep
        · cases hstep
          exact (callback_timely_iff hi.accounts (by simpa using hr)).mp hna
        · cases hstep
    | _ => trivial
  · exact (step_inv hi ht hstep).notAborted

/-- One command, completed by the operations thread after its thread has
incremented the count. -/
def oneCommand : List Label :=
  [.choose 7, .submit 0, .return_ 0, .increment 0, .wake 0, .poll 0, .complete 0]

theorem in_flight_accounts_one :
    ∃ s, system.exec (initial 1) oneCommand = some s ∧ s.status ≠ .aborted ∧
      s.inFlight 0 = s.pending 0 := by
  have hrun : (system.exec (initial 1) oneCommand).map (fun s => s.lagging 0) = some 0 := by decide
  obtain ⟨s, hs, hz⟩ := Option.map_eq_some_iff.mp hrun
  have hmeets : system.Meets Timely (initial 1) oneCommand :=
    system.meets_of_check (by decide)
  obtain ⟨hna, hacc, -⟩ := in_flight_accounts ⟨_, _, ⟨1, by decide, rfl⟩, hmeets, hs⟩
  exact ⟨s, hs, hna, hacc 0 hz⟩

/-- The connection dies while a command is submitted. -/
def diesInSubmission : List Label := [.choose 7, .submit 0, .complete 0]

theorem completed_in_submission :
    ¬ ∀ s, system.Reachable s →
      s.status ≠ .aborted ∧ ∀ i, s.lagging i = 0 → s.inFlight i = s.pending i := by
  intro hall
  have hrun : (system.exec (initial 1) diesInSubmission).map (fun s => s.status) =
      some .aborted := by decide
  obtain ⟨s, hs, hst⟩ := Option.map_eq_some_iff.mp hrun
  exact (hall s ⟨_, _, ⟨1, by decide, rfl⟩, hs⟩).1 hst

end Libnbd.Fuse
