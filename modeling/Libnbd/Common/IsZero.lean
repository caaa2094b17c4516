import Libnbd.Copy.Split
import Libnbd.Lib.Bytes

/-!
`is_zero` (`common/include/iszero.h`).

The first 16 bytes are tested one by one, and the rest by comparing the buffer with
itself, 16 bytes further on. Each byte is compared with one that is already known to be
zero, so by induction along the buffer all of them are.
-/

namespace Libnbd.Common

open Lib

/-! ## The code -/

/-- `memcmp`: the difference of the first two bytes that differ. -/
def memcmp (p q : Mem) : Nat → Int
  | 0 => 0
  | n + 1 =>
    if p 0 = q 0 then memcmp (fun i => p (i + 1)) (fun i => q (i + 1)) n
    else ((p 0).toNat : Int) - (q 0).toNat

/-- The loop of `is_zero` with `n` iterations to go. -/
def firstBytes (buffer : Mem) (i : Nat) : Nat → Bool
  | 0 => true
  | n + 1 => if buffer i ≠ 0 then false else firstBytes buffer (i + 1) n

def isZero (buffer : Mem) (size : Nat) : Bool :=
  let limit := if size < 16 then size else 16
  if !firstBytes buffer 0 limit then false
  else if size ≠ limit then memcmp buffer (fun i => buffer (16 + i)) (size - 16) == 0
  else true

/-! ## What it tests -/

theorem memcmp_eq_zero_iff (p q : Mem) (n : Nat) : memcmp p q n = 0 ↔ ∀ i < n, p i = q i := by
  induction n generalizing p q with
  | zero => simp [memcmp]
  | succ n ih =>
    unfold memcmp
    by_cases h : p 0 = q 0
    · rw [if_pos h, ih]
      constructor
      · intro hall i hi
        cases i with
        | zero => exact h
        | succ i => exact hall i (by omega)
      · intro hall i hi
        exact hall (i + 1) (by omega)
    · rw [if_neg h]
      have hne : (p 0).toNat ≠ (q 0).toNat := fun he => h (UInt8.toNat_inj.mp he)
      constructor
      · intro hd
        omega
      · intro hall
        exact absurd (hall 0 (by omega)) h

theorem firstBytes_iff (buffer : Mem) (i n : Nat) :
    firstBytes buffer i n = true ↔ ∀ j < n, buffer (i + j) = 0 := by
  induction n generalizing i with
  | zero => simp [firstBytes]
  | succ n ih =>
    unfold firstBytes
    by_cases h : buffer i = 0
    · rw [if_neg (by simp [h]), ih]
      constructor
      · intro hall j hj
        cases j with
        | zero => exact h
        | succ j => simpa [Nat.add_assoc, Nat.add_comm 1] using hall j (by omega)
      · intro hall j hj
        simpa [Nat.add_assoc, Nat.add_comm 1] using hall (j + 1) (by omega)
    · rw [if_pos h]
      constructor
      · nofun
      · intro hall
        exact absurd (hall 0 (by omega)) h

/-- A buffer that starts with `k` zeroes and repeats itself after `k` bytes is zero. -/
theorem zero_of_shift {buffer : Mem} {k n : Nat} (hk : 0 < k) (hfirst : ∀ i < k, buffer i = 0)
    (hshift : ∀ i < n, buffer i = buffer (k + i)) : ∀ i < k + n, buffer i = 0 := by
  intro i
  induction i using Nat.strongRecOn with
  | ind i ih =>
    intro hi
    by_cases hlt : i < k
    · exact hfirst i hlt
    · -- the byte `k` positions before is zero already
      have hprev := ih (i - k) (by omega) (by omega)
      rw [hshift (i - k) (by omega), show k + (i - k) = i by omega] at hprev
      exact hprev

/-- The comparison, once the first bytes are known to be zero. -/
theorem memcmp_shift_iff {buffer : Mem} {size : Nat} (hsize : 16 ≤ size)
    (hfirst : ∀ i < 16, buffer i = 0) :
    memcmp buffer (fun i => buffer (16 + i)) (size - 16) = 0 ↔ ∀ i < size, buffer i = 0 := by
  rw [memcmp_eq_zero_iff]
  constructor
  · intro hshift i hi
    exact zero_of_shift (by omega) hfirst hshift i (by omega)
  · intro hall i hi
    rw [hall i (by omega), hall (16 + i) (by omega)]

theorem isZero_iff (buffer : Mem) (size : Nat) :
    isZero buffer size = true ↔ ∀ i < size, buffer i = 0 := by
  have hfirst := firstBytes_iff buffer 0
  simp only [Nat.zero_add] at hfirst
  unfold isZero
  by_cases hsmall : size < 16
  · simp only [if_pos hsmall, ne_eq, not_true_eq_false, if_false]
    cases hf : firstBytes buffer 0 size with
    | true => simpa using (hfirst size).mp hf
    | false =>
      constructor
      · nofun
      · intro hall
        rw [(hfirst size).mpr hall] at hf
        cases hf
  · simp only [if_neg hsmall]
    cases hf : firstBytes buffer 0 16 with
    | true =>
      have hzero := (hfirst 16).mp hf
      by_cases hsize : size = 16
      · simpa [hsize] using hzero
      · simpa [hsize] using memcmp_shift_iff (by omega) hzero
    | false =>
      constructor
      · nofun
      · intro hall
        rw [(hfirst 16).mpr fun i hi => hall i (by omega)] at hf
        cases hf

/-- **`is_zero` is exact**, and so is its comparison after the first 16 bytes. -/
theorem is_zero_exact (buffer : Mem) (size : Nat) :
    (isZero buffer size = true ↔ ∀ i < size, buffer i = 0) ∧
      (16 ≤ size → (∀ i < 16, buffer i = 0) →
        (memcmp buffer (fun i => buffer (16 + i)) (size - 16) = 0 ↔ ∀ i < size, buffer i = 0)) :=
  ⟨isZero_iff buffer size, memcmp_shift_iff⟩

end Libnbd.Common
