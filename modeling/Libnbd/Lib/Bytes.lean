import Mathlib.Algebra.Order.Ring.Nat
import Mathlib.Data.List.GetD

/-!
Byte memory and big-endian fields.

A buffer is a function from positions to bytes: a store changes a range and
nothing else, and a store of `xs ++ ys` is the store of `xs` followed by the
store of `ys` right behind it (`write_append`), which is all that receiving a
field in pieces relies on.
-/

namespace Lib

/-- Byte-addressed memory. -/
abbrev Mem := Nat → UInt8

namespace Mem

/-- Store `bs` at `pos`. -/
def write (m : Mem) (pos : Nat) (bs : List UInt8) : Mem := fun a =>
  if pos ≤ a ∧ a < pos + bs.length then bs.getD (a - pos) 0 else m a

/-- Store `n` copies of `b` at `pos`. -/
def fill (m : Mem) (pos n : Nat) (b : UInt8) : Mem := fun a =>
  if pos ≤ a ∧ a < pos + n then b else m a

/-- The `n` bytes at `pos`. -/
def read (m : Mem) (pos n : Nat) : List UInt8 := (List.range n).map fun i => m (pos + i)

@[simp] theorem write_nil (m : Mem) (pos : Nat) : m.write pos [] = m := by
  funext a
  have : ¬ (pos ≤ a ∧ a < pos + ([] : List UInt8).length) := by simp
  simp only [write, if_neg this]

theorem write_append (m : Mem) (pos : Nat) (xs ys : List UInt8) :
    m.write pos (xs ++ ys) = (m.write pos xs).write (pos + xs.length) ys := by
  funext a
  simp only [write, List.length_append]
  by_cases hx : pos ≤ a ∧ a < pos + xs.length
  · have h1 : pos ≤ a ∧ a < pos + (xs.length + ys.length) := by omega
    have h2 : ¬ (pos + xs.length ≤ a ∧ a < pos + xs.length + ys.length) := by omega
    rw [if_pos h1, if_neg h2, if_pos hx, List.getD_append _ _ _ _ (by omega)]
  · by_cases hy : pos + xs.length ≤ a ∧ a < pos + xs.length + ys.length
    · have h1 : pos ≤ a ∧ a < pos + (xs.length + ys.length) := by omega
      rw [if_pos h1, if_pos hy, List.getD_append_right _ _ _ _ (by omega)]
      congr 1
      omega
    · have h1 : ¬ (pos ≤ a ∧ a < pos + (xs.length + ys.length)) := by omega
      rw [if_neg h1, if_neg hy, if_neg hx]

theorem write_of_lt (m : Mem) {pos a : Nat} (bs : List UInt8) (h : a < pos) :
    m.write pos bs a = m a := by
  have : ¬ (pos ≤ a ∧ a < pos + bs.length) := by omega
  simp only [write, if_neg this]

@[simp] theorem length_read (m : Mem) (pos n : Nat) : (m.read pos n).length = n := by
  simp [read]

theorem read_add (m : Mem) (pos k n : Nat) :
    m.read pos (k + n) = m.read pos k ++ m.read (pos + k) n := by
  simp only [read, List.range_add, List.map_append, List.map_map, Nat.add_assoc, Function.comp_def]

theorem read_congr {m m' : Mem} {pos n : Nat} (h : ∀ a, pos ≤ a → a < pos + n → m a = m' a) :
    m.read pos n = m'.read pos n := by
  apply List.map_congr_left
  intro i hi
  have := List.mem_range.mp hi
  exact h _ (by omega) (by omega)

/-- A field that ends before the store is not touched by it. -/
theorem read_write_of_le (m : Mem) {pos n at_ : Nat} (bs : List UInt8) (h : pos + n ≤ at_) :
    (m.write at_ bs).read pos n = m.read pos n :=
  read_congr fun _ _ ha => m.write_of_lt bs (by omega)

end Mem

/-! ## Big-endian integers -/

/-- Big-endian value of a byte string. -/
def beNat (bs : List UInt8) : Nat := bs.foldl (fun acc b => acc * 256 + b.toNat) 0

/-- `width` bytes of `n`, most significant first, dropping what does not fit. -/
def toBE : Nat → Nat → List UInt8
  | 0, _ => []
  | width + 1, n => toBE width (n / 256) ++ [UInt8.ofNat (n % 256)]

@[simp] theorem length_toBE (width n : Nat) : (toBE width n).length = width := by
  induction width generalizing n with
  | zero => rfl
  | succ width ih => simp [toBE, ih]

def Mem.be16 (m : Mem) (pos : Nat) : UInt16 := UInt16.ofNat (beNat (m.read pos 2))
def Mem.be32 (m : Mem) (pos : Nat) : UInt32 := UInt32.ofNat (beNat (m.read pos 4))
def Mem.be64 (m : Mem) (pos : Nat) : UInt64 := UInt64.ofNat (beNat (m.read pos 8))

theorem Mem.be32_write (m : Mem) {pos at_ : Nat} (bs : List UInt8) (h : pos + 4 ≤ at_) :
    (m.write at_ bs).be32 pos = m.be32 pos := by
  simp only [be32, m.read_write_of_le bs h]

theorem Mem.be64_write (m : Mem) {pos at_ : Nat} (bs : List UInt8) (h : pos + 8 ≤ at_) :
    (m.write at_ bs).be64 pos = m.be64 pos := by
  simp only [be64, m.read_write_of_le bs h]

end Lib
