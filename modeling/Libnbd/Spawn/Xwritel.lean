import Libnbd.Handle

/-!
`xwritel` (`lib/utils.c`), with which the child of a fork reports its errors.

At most 16 strings are gathered in an array, and `writev` is called until all of it is
written. `pos` is the first element that is not finished; what `writev` has taken is
subtracted from the elements from there on, which may end inside one of them. The function
is cut into its loop heads and bodies; `env` is how the calls of `writev` end.
-/

namespace Libnbd.Xwritel

/-- How one call of `writev` ends. -/
inductive Writev where
  | wrote (n : Nat)
  | failed (errno : UInt32)
  deriving DecidableEq, Repr

def eintr : UInt32 := 4
def eagain : UInt32 := 11

/-- The errors after which `writev` is called again. -/
def isInterruption (errno : UInt32) : Bool := errno == eintr || errno == eagain

/-- Where the function stands: at the head of the outer loop, before `writev`, or before the
body of the loop that consumes what was written. `overrun` is an access to an element of the
array that was not filled. -/
inductive Pc where
  | loop
  | write
  | consume (written : Nat)
  | returned
  | overrun
  deriving DecidableEq, Repr

/-- `iovec` is the filled part of the array, each element with the bytes that it still
describes; `calls` and `out` are the calls of `writev` so far and what they have written. -/
structure State where
  pc : Pc
  iovec : List CString
  pos : Nat
  calls : Nat
  out : List UInt8
  deriving DecidableEq, Repr

/-- The elements that the arguments fill, with `room` for that many. -/
def fill : Nat → List CString → List CString
  | 0, _ => []
  | _, [] => []
  | room + 1, arg :: args => arg :: fill room args

def start (args : List CString) : State where
  pc := .loop
  iovec := fill 16 args
  pos := 0
  calls := 0
  out := []

/-- What the call of `writev` number `i` does with these elements. -/
abbrev Env := Nat → List CString → Writev

def step (env : Env) (s : State) : State :=
  match s.pc with
  | .loop =>
    if s.pos < s.iovec.length then
      match s.iovec[s.pos]? with
      | none => { s with pc := .overrun }
      | some v => if v.length = 0 then { s with pos := s.pos + 1 } else { s with pc := .write }
    else { s with pc := .returned }
  | .write =>
    let s' := { s with calls := s.calls + 1 }
    match env s.calls (s.iovec.drop s.pos) with
    | .wrote n =>
      { s' with pc := .consume n, out := s.out ++ ((s.iovec.drop s.pos).flatten).take n }
    | .failed errno => if isInterruption errno then s' else { s' with pc := .returned }
  | .consume written =>
    match s.iovec[s.pos]? with
    | none => { s with pc := .overrun }
    | some v =>
      let advance := min written v.length
      let v := v.drop advance
      let written := written - advance
      { s with
        iovec := s.iovec.set s.pos v
        pos := if v.length = 0 then s.pos + 1 else s.pos
        pc := if 0 < written then .consume written else .loop }
  | .returned | .overrun => s

/-- The state after `k` steps. -/
def run (env : Env) (args : List CString) : Nat → State
  | 0 => start args
  | k + 1 => step env (run env args k)

/-! ## What is left to write -/

/-- The elements from `pos` on. -/
def State.rest (s : State) : List CString := s.iovec.drop s.pos

/-- `writev` is interrupted, or writes something and no more than it is given. -/
def Progresses (env : Env) : Prop :=
  ∀ i vs, 0 < vs.flatten.length → (∃ errno, env i vs = .failed errno ∧ isInterruption errno = true) ∨
    ∃ n, env i vs = .wrote n ∧ 0 < n ∧ n ≤ vs.flatten.length

theorem fill_eq (room : Nat) (args : List CString) : fill room args = args.take room := by
  induction room generalizing args with
  | zero => rfl
  | succ room ih =>
    cases args with
    | nil => rfl
    | cons arg args => rw [fill, List.take_succ_cons, ih]

variable {env : Env} {s : State} {all : List UInt8} {filled : Nat}

theorem State.rest_eq {v : CString} (hv : s.iovec[s.pos]? = some v) :
    s.rest = v :: s.iovec.drop (s.pos + 1) := by
  obtain ⟨h, rfl⟩ := List.getElem?_eq_some_iff.mp hv
  exact List.drop_eq_getElem_cons h

/-- After an element has been consumed up to `v`, the rest begins with `v` or behind it. -/
theorem rest_consumed {iovec : List CString} {pos : Nat} (h : pos < iovec.length) (v : CString) :
    (iovec.set pos v).drop (if v.length = 0 then pos + 1 else pos) =
      if v.length = 0 then iovec.drop (pos + 1) else v :: iovec.drop (pos + 1) := by
  split
  · exact List.drop_set_of_lt (by omega)
  · rw [List.drop_eq_getElem_cons (by simpa using h), List.getElem_set_self,
      List.drop_set_of_lt (by omega)]

theorem flatten_consumed {iovec : List CString} {pos : Nat} (h : pos < iovec.length) (v : CString) :
    ((iovec.set pos v).drop (if v.length = 0 then pos + 1 else pos)).flatten =
      v ++ (iovec.drop (pos + 1)).flatten := by
  rw [rest_consumed h]
  split
  · rename_i hv
    rw [List.length_eq_zero_iff.mp hv, List.nil_append]
  · rfl

/-- What is written and what is left, at each place. -/
def Balanced (all : List UInt8) (s : State) : Prop :=
  match s.pc with
  | .loop => s.out ++ s.rest.flatten = all
  | .write => s.out ++ s.rest.flatten = all ∧ 0 < s.rest.flatten.length
  | .consume written => 0 < written ∧ written ≤ s.rest.flatten.length ∧
      s.out ++ s.rest.flatten.drop written = all
  | .returned => s.out = all
  | .overrun => False

theorem balanced_starts (h : Balanced all s) : s.out <+: all := by
  unfold Balanced at h
  split at h
  · exact ⟨_, h⟩
  · exact ⟨_, h.1⟩
  · exact ⟨_, h.2.2⟩
  · exact ⟨[], by rw [h, List.append_nil]⟩
  · exact h.elim

structure Inv (all : List UInt8) (filled : Nat) (s : State) : Prop where
  length : s.iovec.length = filled
  pos : s.pos ≤ filled
  balanced : Balanced all s

theorem start_inv (args : List CString) :
    Inv (args.take 16).flatten (args.take 16).length (start args) where
  length := by rw [start, fill_eq]
  pos := Nat.zero_le _
  balanced := by
    show [] ++ (List.drop 0 (fill 16 args)).flatten = _
    rw [fill_eq]
    rfl

/-! ## One step -/

theorem step_loop (hi : Inv all filled s) (hpc : s.pc = .loop) : Inv all filled (step env s) := by
  have hb : s.out ++ s.rest.flatten = all := by simpa [Balanced, hpc] using hi.balanced
  simp only [step, hpc]
  by_cases hlt : s.pos < s.iovec.length
  · rw [if_pos hlt, List.getElem?_eq_getElem hlt]
    have hrest := State.rest_eq (List.getElem?_eq_getElem hlt)
    dsimp only
    by_cases hv : s.iovec[s.pos].length = 0
    · rw [if_pos hv]
      refine ⟨hi.length, by have := hi.length; show s.pos + 1 ≤ filled; omega, ?_⟩
      -- an empty element adds nothing
      rw [hrest, List.flatten_cons, List.length_eq_zero_iff.mp hv, List.nil_append] at hb
      exact hb
    · rw [if_neg hv]
      refine ⟨hi.length, hi.pos, hb, ?_⟩
      show 0 < s.rest.flatten.length
      rw [hrest, List.flatten_cons, List.length_append]
      omega
  · rw [if_neg hlt]
    refine ⟨hi.length, hi.pos, ?_⟩
    rw [State.rest, List.drop_eq_nil_iff.mpr (by omega)] at hb
    simpa [Balanced] using hb

theorem step_write (hw : Progresses env) (hi : Inv all filled s) (hpc : s.pc = .write) :
    Inv all filled (step env s) := by
  have hb : s.out ++ s.rest.flatten = all ∧ 0 < s.rest.flatten.length := by
    simpa [Balanced, hpc] using hi.balanced
  simp only [step, hpc]
  rcases hw s.calls s.rest hb.2 with ⟨errno, he, hint⟩ | ⟨n, he, hpos, hle⟩
  · rw [show s.iovec.drop s.pos = s.rest from rfl, he]
    simp only [hint, if_true]
    exact ⟨hi.length, hi.pos, by simpa [Balanced, hpc, State.rest] using hb⟩
  · rw [show s.iovec.drop s.pos = s.rest from rfl, he]
    refine ⟨hi.length, hi.pos, hpos, hle, ?_⟩
    show (s.out ++ s.rest.flatten.take n) ++ s.rest.flatten.drop n = all
    rw [List.append_assoc, List.take_append_drop]
    exact hb.1

/-- While something is left to consume, `pos` is in the filled part. -/
theorem pos_lt {written : Nat} (hpos : 0 < written) (hle : written ≤ s.rest.flatten.length) :
    s.pos < s.iovec.length := by
  by_contra hge
  rw [State.rest, List.drop_eq_nil_iff.mpr (by omega)] at hle
  exact absurd hpos (by simpa using hle)

theorem step_consume {written : Nat} (hi : Inv all filled s) (hpc : s.pc = .consume written) :
    Inv all filled (step env s) := by
  have hb : 0 < written ∧ written ≤ s.rest.flatten.length ∧
      s.out ++ s.rest.flatten.drop written = all := by
    simpa [Balanced, hpc] using hi.balanced
  obtain ⟨hpos, hle, hout⟩ := hb
  have hlt := pos_lt hpos hle
  have hv := List.getElem?_eq_getElem hlt
  rw [State.rest_eq hv, List.flatten_cons] at hle hout
  rw [List.length_append] at hle
  simp only [step, hpc, hv]
  generalize s.iovec[s.pos] = v at hle hout
  have hrest := flatten_consumed hlt (v.drop (min written v.length))
  refine ⟨?_, ?_, ?_⟩
  · rw [List.length_set]
    exact hi.length
  · have := hi.length
    dsimp only
    split
    · omega
    · omega
  · by_cases hin : written ≤ v.length
    · -- `writev` ended inside this element or at its end
      rw [if_neg (by omega)]
      show s.out ++ List.flatten (List.drop _ _) = all
      rw [hrest, Nat.min_eq_left hin, ← List.drop_append_of_le_length hin]
      exact hout
    · -- it went on behind it
      have hmin : min written v.length = v.length := by omega
      rw [hmin, List.drop_length] at hrest
      rw [hmin, List.drop_length, if_pos (by omega)]
      refine ⟨by omega, ?_, ?_⟩
      · show _ ≤ (List.flatten (List.drop _ _)).length
        rw [hrest, List.nil_append]
        omega
      · show s.out ++ (List.flatten (List.drop _ _)).drop _ = all
        have hdrop : v.drop written = [] := List.drop_eq_nil_of_le (by omega)
        rw [hrest, List.nil_append, ← hout, List.drop_append, hdrop, List.nil_append]

theorem step_inv (hw : Progresses env) (hi : Inv all filled s) : Inv all filled (step env s) := by
  cases hpc : s.pc with
  | loop => exact step_loop hi hpc
  | write => exact step_write hw hi hpc
  | consume written => exact step_consume hi hpc
  | returned => simpa only [step, hpc] using hi
  | overrun => simpa only [step, hpc] using hi

theorem run_inv (hw : Progresses env) (args : List CString) (k : Nat) :
    Inv (args.take 16).flatten (args.take 16).length (run env args k) := by
  induction k with
  | zero => exact start_inv args
  | succ k ih => exact step_inv hw ih

/-! ## Termination -/

/-- The bytes and the elements that are left. -/
def weight (vs : List CString) : Nat := vs.flatten.length + vs.length

theorem weight_cons (v : CString) (vs : List CString) :
    weight (v :: vs) = v.length + weight vs + 1 := by
  simp only [weight, List.flatten_cons, List.length_append, List.length_cons]
  omega

/-- Consuming some of an element, or passing an empty one, leaves less. -/
theorem weight_consumed {iovec : List CString} {pos written : Nat} (h : pos < iovec.length)
    (hpos : 0 < written) (v : CString) :
    weight ((iovec.set pos (v.drop (min written v.length))).drop
      (if (v.drop (min written v.length)).length = 0 then pos + 1 else pos)) <
      weight (v :: iovec.drop (pos + 1)) := by
  rw [rest_consumed h, weight_cons]
  split
  · omega
  · rename_i hne
    rw [weight_cons]
    rw [List.length_drop] at hne ⊢
    omega

/-- What is still to be done if nothing is interrupted any more: every element and every byte
is dealt with once, with up to two steps in front of it. -/
def State.work (s : State) : Nat :=
  match s.pc with
  | .loop => 3 * weight s.rest + 2
  | .write => 3 * weight s.rest + 1
  | .consume _ => 3 * weight s.rest
  | .returned | .overrun => 0

/-- From call number `N` on, `writev` is not interrupted. -/
def CalmFrom (env : Env) (N : Nat) : Prop :=
  ∀ i vs errno, N ≤ i → env i vs = .failed errno → isInterruption errno = false

/-- An interruption costs a call, every other step makes the work less. -/
theorem step_work {N : Nat} (hw : Progresses env) (hN : CalmFrom env N) (hi : Inv all filled s)
    (hpc : s.pc ≠ .returned) :
    (step env s).work < s.work ∧ s.calls ≤ (step env s).calls ∨
      (step env s).work = s.work ∧ s.calls < N ∧ (step env s).calls = s.calls + 1 := by
  have hb := hi.balanced
  unfold Balanced at hb
  cases hp : s.pc with
  | loop =>
    left
    simp only [step, hp]
    by_cases hlt : s.pos < s.iovec.length
    · rw [if_pos hlt, List.getElem?_eq_getElem hlt]
      have hrest := State.rest_eq (List.getElem?_eq_getElem hlt)
      dsimp only
      split
      · refine ⟨?_, Nat.le_refl _⟩
        simp only [State.work, hp, hrest, weight_cons]
        simp only [State.rest]
        omega
      · refine ⟨?_, Nat.le_refl _⟩
        simp only [State.work, hp, State.rest]
        omega
    · rw [if_neg hlt]
      refine ⟨?_, Nat.le_refl _⟩
      simp only [State.work, hp]
      omega
  | write =>
    rw [hp] at hb
    simp only [step, hp]
    rcases hw s.calls s.rest hb.2 with ⟨errno, he, hint⟩ | ⟨n, he, -, -⟩
    · right
      have hlt : s.calls < N := by
        by_contra hge
        rw [hN s.calls s.rest errno (by omega) he] at hint
        cases hint
      rw [show s.iovec.drop s.pos = s.rest from rfl, he]
      dsimp only
      rw [if_pos hint]
      exact ⟨by simp only [State.work, hp, State.rest], hlt, rfl⟩
    · left
      rw [show s.iovec.drop s.pos = s.rest from rfl, he]
      refine ⟨?_, Nat.le_succ _⟩
      simp only [State.work, hp, State.rest]
      omega
  | consume written =>
    left
    rw [hp] at hb
    obtain ⟨hpos, hle, -⟩ := hb
    have hlt := pos_lt hpos hle
    have hv := List.getElem?_eq_getElem hlt
    have hless := weight_consumed hlt hpos s.iovec[s.pos]
    rw [← State.rest_eq hv] at hless
    simp only [step, hp, hv]
    refine ⟨?_, Nat.le_refl _⟩
    rw [show s.work = 3 * weight s.rest by simp only [State.work, hp]]
    split
    · simp only [State.work]
      exact Nat.mul_lt_mul_of_pos_left hless (by omega)
    · simp only [State.work]
      refine Nat.lt_of_lt_of_le ?_ (Nat.mul_le_mul_left 3 (Nat.succ_le_of_lt hless))
      simp only [State.rest]
      omega
  | returned => exact absurd hp hpc
  | overrun =>
    rw [hp] at hb
    exact hb.elim

/-- `xwritel` returns if it is interrupted finitely often. -/
theorem step_returns {N : Nat} (hw : Progresses env) (hN : CalmFrom env N) (args : List CString)
    (m : Nat) : ∀ k, (run env args k).work * (N + 1) + (N - (run env args k).calls) ≤ m →
      ∃ k', (run env args k').pc = .returned := by
  induction m with
  | zero =>
    intro k hm
    by_contra hne
    have hgo : (run env args k).pc ≠ .returned := fun h => hne ⟨k, h⟩
    rcases step_work hw hN (run_inv hw args k) hgo with ⟨h, -⟩ | ⟨-, h, -⟩
    · have : 0 < (run env args k).work * (N + 1) := Nat.mul_pos (by omega) (by omega)
      omega
    · omega
  | succ m ih =>
    intro k hm
    by_cases hpc : (run env args k).pc = .returned
    · exact ⟨k, hpc⟩
    · refine ih (k + 1) ?_
      show (step env (run env args k)).work * (N + 1) + (N - (step env (run env args k)).calls) ≤ m
      rcases step_work hw hN (run_inv hw args k) hpc with ⟨h, hc⟩ | ⟨h, hlt, hc⟩
      · have := Nat.mul_le_mul_right (N + 1) (Nat.succ_le_of_lt h)
        rw [Nat.succ_mul] at this
        omega
      · rw [h, hc]
        omega

/-- **`xwritel` writes everything once.** As long as `writev` is only interrupted or makes
progress, `pos` stays in the filled part of the array, and what is written is the beginning of
the first 16 strings, all of them when the function returns. It returns if it is interrupted
finitely often. -/
theorem xwritel_writes_once {env : Env} (hw : Progresses env) (args : List CString) :
    (∀ k, (run env args k).pos ≤ (args.take 16).length ∧ (run env args k).pc ≠ .overrun ∧
      (run env args k).out <+: (args.take 16).flatten ∧
      ((run env args k).pc = .returned → (run env args k).out = (args.take 16).flatten)) ∧
    ∀ N, CalmFrom env N → ∃ k, (run env args k).pc = .returned := by
  refine ⟨fun k => ?_, fun N hN => step_returns hw hN args _ 0 (Nat.le_refl _)⟩
  have hi := run_inv hw args k
  have hb := hi.balanced
  refine ⟨hi.pos, ?_, balanced_starts hb, ?_⟩
  · intro hpc
    rw [Balanced, hpc] at hb
    exact hb
  · intro hpc
    rw [Balanced, hpc] at hb
    exact hb

/-- Interrupted, one byte, interrupted again, and then everything at once. -/
def stutter : Env
  | 0, _ => .failed eintr
  | 1, _ => .wrote 1
  | 2, _ => .failed eagain
  | _, vs => .wrote vs.flatten.length

theorem xwritel_writes_once_stutter :
    ∃ k, (run stutter [[97, 98], [], [99]] k).pc = .returned ∧
      (run stutter [[97, 98], [], [99]] k).out = [97, 98, 99] := by
  have hw : Progresses stutter := by
    intro i vs hvs
    match i with
    | 0 => exact .inl ⟨eintr, rfl, rfl⟩
    | 1 => exact .inr ⟨1, rfl, Nat.one_pos, hvs⟩
    | 2 => exact .inl ⟨eagain, rfl, rfl⟩
    | _ + 3 => exact .inr ⟨_, rfl, hvs, Nat.le_refl _⟩
  have hN : CalmFrom stutter 3 := by
    intro i vs errno hi he
    obtain ⟨j, rfl⟩ := Nat.exists_eq_add_of_le' hi
    cases he
  obtain ⟨hall, hends⟩ := xwritel_writes_once hw [[97, 98], [], [99]]
  obtain ⟨k, hk⟩ := hends 3 hN
  exact ⟨k, hk, (hall k).2.2.2 hk⟩

end Libnbd.Xwritel
