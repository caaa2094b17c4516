import Mathlib.Algebra.Order.Ring.Nat
import Mathlib.Data.List.Basic

/-!
Deterministic machines that read a stream.

In every state the machine goes on by itself (`next`), or reads one symbol
(`read`), or is stuck. `Path s xs t` leads from `s` to `t` by reading `xs`. Two
paths that read the same symbols and end where the machine waits for input end
in the same state (`Path.unique`): how the stream was cut does not matter.
-/

namespace Lib

universe u v

structure Reader (σ : Type u) (α : Type v) where
  next : σ → Option σ
  read : σ → α → Option σ

namespace Reader

variable {σ : Type u} {α : Type v} {R : Reader σ α}

/-- Nothing happens without another symbol. -/
def Waiting (R : Reader σ α) (s : σ) : Prop := R.next s = none

variable (R) in
inductive Path : σ → List α → σ → Prop
  | nil (s : σ) : Path s [] s
  | next {s t u : σ} {xs : List α} (h : R.next s = some t) (p : Path t xs u) : Path s xs u
  | read {s t u : σ} {x : α} {xs : List α} (hw : R.Waiting s) (h : R.read s x = some t)
      (p : Path t xs u) : Path s (x :: xs) u

namespace Path

theorem append {s t u : σ} {xs ys : List α} (p : R.Path s xs t) (q : R.Path t ys u) :
    R.Path s (xs ++ ys) u := by
  induction p with
  | nil s => exact q
  | next h _ ih => exact .next h (ih q)
  | read hw h _ ih => exact .read hw h (ih q)

theorem one_next {s t : σ} (h : R.next s = some t) : R.Path s [] t := .next h (.nil t)

/-- A state that ignores its input. -/
theorem absorb {s : σ} (hw : R.Waiting s) (h : ∀ x, R.read s x = some s) (xs : List α) :
    R.Path s xs s := by
  induction xs with
  | nil => exact .nil s
  | cons x xs ih => exact .read hw (h x) ih

theorem unique {s t u : σ} {xs : List α} (p : R.Path s xs t) (q : R.Path s xs u)
    (ht : R.Waiting t) (hu : R.Waiting u) : t = u := by
  induction p with
  | nil s =>
    cases q with
    | nil => rfl
    | next h _ => rw [ht] at h; cases h
  | next h _ ih =>
    cases q with
    | nil => rw [hu] at h; cases h
    | next h' q =>
      rw [h] at h'
      cases h'
      exact ih q ht
    | read hw' => rw [hw'] at h; cases h
  | read hw h _ ih =>
    cases q with
    | next h' => rw [hw] at h'; cases h'
    | read _ h' q =>
      rw [h] at h'
      cases h'
      exact ih q ht

end Path

end Reader

end Lib
