import Mathlib.Algebra.Order.Ring.Nat
import Mathlib.Data.List.Basic

/-!
Singly linked queues with a tail pointer.

A queue is the list of its nodes and the key of the node the tail pointer
points to. Linking a node behind the tail follows the pointer, so a stale tail
would cut the list and a dangling one is an error; under `TailOk` it is plain
list append (`linkAfter_of_tailOk`).
-/

namespace Lib

universe u

variable {α : Type u} (key : α → Nat)

/-- `t->next = x`: everything behind the node with key `t` is cut off. -/
def linkAfter (t : Nat) (x : α) : List α → Option (List α)
  | [] => none
  | y :: ys => if key y = t then some [y, x] else (linkAfter t x ys).map (y :: ·)

/-- Linking behind the tail keeps the first node. -/
theorem linkAfter_head {t : Nat} {x y : α} {ys l : List α}
    (h : linkAfter key t x (y :: ys) = some l) : ∃ rest, l = y :: rest := by
  unfold linkAfter at h
  split at h
  · exact ⟨[x], (Option.some.inj h).symm⟩
  · obtain ⟨rest, -, rfl⟩ := Option.map_eq_some_iff.mp h
    exact ⟨rest, rfl⟩

/-- Nothing but the linked node is new. -/
theorem mem_linkAfter {t : Nat} {x y : α} {l l' : List α} (h : linkAfter key t x l = some l')
    (hy : y ∈ l') : y ∈ l ∨ y = x := by
  induction l generalizing l' with
  | nil => cases h
  | cons z zs ih =>
    unfold linkAfter at h
    split at h
    · cases h
      simp only [List.mem_cons, List.not_mem_nil, or_false] at hy ⊢
      tauto
    · obtain ⟨l₁, h₁, rfl⟩ := Option.map_eq_some_iff.mp h
      rcases List.mem_cons.mp hy with rfl | hy
      · exact .inl List.mem_cons_self
      · exact (ih h₁ hy).imp_left (List.mem_cons_of_mem _)

/-- The tail pointer points to the last node, or is null on an empty queue. -/
def TailOk (items : List α) (tail : Option Nat) : Prop :=
  tail = items.getLast?.map key

theorem tailOk_nil : TailOk key ([] : List α) none := rfl

theorem tailOk_append (items : List α) (x : α) : TailOk key (items ++ [x]) (some (key x)) := by
  simp [TailOk]

theorem TailOk.eq_none {items : List α} {tail : Option Nat} (h : TailOk key items tail) :
    tail = none ↔ items = [] := by
  simp [TailOk] at h
  simp [h]

theorem linkAfter_of_tailOk {items : List α} {t : Nat} (x : α)
    (hnd : (items.map key).Nodup) (h : TailOk key items (some t)) :
    linkAfter key t x items = some (items ++ [x]) := by
  induction items with
  | nil => simp [TailOk] at h
  | cons y ys ih =>
    cases ys with
    | nil =>
      simp only [TailOk, List.getLast?_singleton, Option.map_some, Option.some.injEq] at h
      simp [linkAfter, h]
    | cons z zs =>
      have ht : TailOk key (z :: zs) (some t) := by
        simpa only [TailOk, List.getLast?_cons_cons] using h
      have hmem : t ∈ (z :: zs).map key := by
        obtain ⟨a, ha, rfl⟩ := Option.map_eq_some_iff.mp ht.symm
        exact List.mem_map_of_mem (List.mem_of_getLast? ha)
      have hne : key y ≠ t := by
        rintro rfl
        exact (List.nodup_cons.mp hnd).1 hmem
      simp only [linkAfter, if_neg hne] at ih ⊢
      rw [ih (List.nodup_cons.mp hnd).2 ht]
      rfl

end Lib
