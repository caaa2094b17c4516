import Mathlib.Logic.Basic

/-!
Programs over a state that others may change between any two of their accesses.

A program is a tree of single loads and stores; `next` makes one access and `run` all of
them. As long as nobody else changes the state, `run` says the same before and after each
access, which is why a program that is left alone acts as if it were atomic.
-/

namespace Lib

universe u v w

/-- A program over the state `σ` with result `α`, or an early end with `ε`. -/
inductive Prog (σ : Type u) (ε : Type v) (α : Type w) where
  | ret (a : α)
  | stop (e : ε)
  | load (k : σ → Prog σ ε α)
  | store (f : σ → σ) (p : Prog σ ε α)

namespace Prog

variable {σ : Type u} {ε : Type v} {α : Type w}

/-- All accesses at once. -/
def run : Prog σ ε α → σ → Except ε (α × σ)
  | ret a, s => .ok (a, s)
  | stop e, _ => .error e
  | load k, s => (k s).run s
  | store f p, s => p.run (f s)

/-- One access. -/
def next : Prog σ ε α → σ → Option (Prog σ ε α × σ)
  | ret _, _ => none
  | stop _, _ => none
  | load k, s => some (k s, s)
  | store f p, s => some (p, f s)

/-- The early end that has been reached. -/
def error? : Prog σ ε α → Option ε
  | stop e => some e
  | _ => none

/-- How many accesses there are, if nobody else changes the state. -/
def accesses : Prog σ ε α → σ → Nat
  | ret _, _ => 0
  | stop _, _ => 0
  | load k, s => (k s).accesses s + 1
  | store f p, s => p.accesses (f s) + 1

@[simp] theorem run_ret (a : α) (s : σ) : (ret a : Prog σ ε α).run s = .ok (a, s) := rfl

@[simp] theorem run_stop (e : ε) (s : σ) : (stop e : Prog σ ε α).run s = .error e := rfl

@[simp] theorem run_load (k : σ → Prog σ ε α) (s : σ) : (load k).run s = (k s).run s := rfl

@[simp] theorem run_store (f : σ → σ) (p : Prog σ ε α) (s : σ) : (store f p).run s = p.run (f s) := rfl

/-- Every result that the program can have satisfies `P`, and every early end `Q`, whatever
others do to the state. -/
def All (P : α → Prop) (Q : ε → Prop) : Prog σ ε α → Prop
  | ret a => P a
  | stop e => Q e
  | load k => ∀ s, (k s).All P Q
  | store _ p => p.All P Q

variable {p p' : Prog σ ε α} {s s' : σ} {P : α → Prop} {Q : ε → Prop}

theorem All.run_ok (h : p.All P Q) {x : α × σ} (hr : p.run s = .ok x) : P x.1 := by
  induction p generalizing s with
  | ret a =>
    cases hr
    exact h
  | stop e => cases hr
  | load k ih => exact ih s (h s) hr
  | store f p ih => exact ih h hr

theorem All.run_error (h : p.All P Q) {e : ε} (hr : p.run s = .error e) : Q e := by
  induction p generalizing s with
  | ret a => cases hr
  | stop e =>
    cases hr
    exact h
  | load k ih => exact ih s (h s) hr
  | store f p ih => exact ih h hr

/-- **Left alone**, a program keeps its outcome. -/
theorem run_next (h : p.next s = some (p', s')) : p'.run s' = p.run s := by
  cases p with
  | ret a => cases h
  | stop e => cases h
  | load k =>
    cases h
    rfl
  | store f p =>
    cases h
    rfl

theorem accesses_next (h : p.next s = some (p', s')) : p.accesses s = p'.accesses s' + 1 := by
  cases p with
  | ret a => cases h
  | stop e => cases h
  | load k =>
    cases h
    rfl
  | store f p =>
    cases h
    rfl

/-- A program that runs to its end has not been stopped. -/
theorem error?_of_run {x : α × σ} (h : p.run s = .ok x) : p.error? = none := by
  cases p with
  | stop e => cases h
  | _ => rfl

end Prog

end Lib
