import Mathlib.Algebra.Order.Ring.Nat
import Mathlib.Data.List.Basic

/-!
Lists of pieces that tile a range: each starts where the one before it ends, and
none is empty. Counted by the pieces that hold it, every position of the range is
covered once.
-/

namespace Lib

variable {α : Type*} {off len : α → Nat} {a b c : Nat} {x : α} {xs ys : List α}

/-- The pieces of the list tile `[a, b)`. -/
def Tiles (off len : α → Nat) (a b : Nat) : List α → Prop
  | [] => a = b
  | x :: xs => off x = a ∧ 0 < len x ∧ Tiles off len (a + len x) b xs

theorem Tiles.le (h : Tiles off len a b xs) : a ≤ b := by
  induction xs generalizing a with
  | nil => exact Nat.le_of_eq h
  | cons x xs ih => exact Nat.le_trans (Nat.le_add_right _ _) (ih h.2.2)

theorem Tiles.append (hx : Tiles off len a b xs) (hy : Tiles off len b c ys) :
    Tiles off len a c (xs ++ ys) := by
  induction xs generalizing a with
  | nil =>
    cases hx
    exact hy
  | cons x xs ih => exact ⟨hx.1, hx.2.1, ih hx.2.2⟩

theorem tiles_singleton (h₁ : off x = a) (h₂ : 0 < len x) (h₃ : a + len x = b) :
    Tiles off len a b [x] := ⟨h₁, h₂, h₃⟩

/-- One more piece at the end. -/
theorem Tiles.snoc (hx : Tiles off len a b xs) (h₁ : off x = b) (h₂ : 0 < len x)
    (h₃ : b + len x = c) : Tiles off len a c (xs ++ [x]) := hx.append (tiles_singleton h₁ h₂ h₃)

/-- The last piece can be cut off. -/
theorem Tiles.of_snoc (h : Tiles off len a c (xs ++ [x])) :
    Tiles off len a (off x) xs ∧ 0 < len x ∧ off x + len x = c := by
  induction xs generalizing a with
  | nil =>
    obtain ⟨rfl, hpos, hend⟩ := h
    exact ⟨rfl, hpos, hend⟩
  | cons y ys ih =>
    obtain ⟨hy, hpos, hrest⟩ := h
    obtain ⟨h₁, h₂, h₃⟩ := ih hrest
    exact ⟨⟨hy, hpos, h₁⟩, h₂, h₃⟩

/-- Every piece lies inside the range. -/
theorem Tiles.mem_range (h : Tiles off len a b xs) (hx : x ∈ xs) : a ≤ off x ∧ off x + len x ≤ b := by
  induction xs generalizing a with
  | nil => cases hx
  | cons y ys ih =>
    obtain ⟨rfl, -, hrest⟩ := h
    rcases List.mem_cons.mp hx with rfl | hx
    · exact ⟨Nat.le_refl _, hrest.le⟩
    · obtain ⟨h₁, h₂⟩ := ih hrest hx
      exact ⟨Nat.le_trans (Nat.le_add_right _ _) h₁, h₂⟩

/-! ## Covering -/

variable {q : Nat}

/-- Whether `q` lies in `[a, a + n)`, as a number. -/
def covers (q a n : Nat) : Nat := if a ≤ q ∧ q < a + n then 1 else 0

@[simp] theorem covers_zero (q a : Nat) : covers q a 0 = 0 := by
  unfold covers
  rw [if_neg (by omega)]

/-- A range can be cut anywhere. -/
theorem covers_add (q a m n : Nat) : covers q a (m + n) = covers q a m + covers q (a + m) n := by
  unfold covers
  split <;> split <;> split <;> omega

theorem covers_split {m n : Nat} (h : m ≤ n) (q a : Nat) :
    covers q a n = covers q a m + covers q (a + m) (n - m) := by
  rw [← covers_add, Nat.add_sub_cancel' h]

theorem Tiles.covers (h : Tiles off len a b xs) (q : Nat) :
    (xs.map fun x => covers q (off x) (len x)).sum = Lib.covers q a (b - a) := by
  induction xs generalizing a with
  | nil =>
    cases h
    simp
  | cons x xs ih =>
    obtain ⟨rfl, -, hrest⟩ := h
    have hle := hrest.le
    rw [List.map_cons, List.sum_cons, ih hrest, ← covers_add]
    congr 1
    omega

end Lib
