import Mathlib.Algebra.Order.Ring.Nat

/-!
Checked arithmetic on `size_t` (`common/include/checked-overflow.h`), with the compiler's
built-in functions and with the inline functions that stand in for them. Both give the low
bits of the result and whether the result was too large; the two are proved equal.
-/

namespace Libnbd.Common

/-- The integer types of the platform: `size_t` has `bits` bits and is not wider than
`uintmax_t`. `addBuiltin` and `mulBuiltin` are `HAVE_DECL___BUILTIN_ADD_OVERFLOW` and
`HAVE_DECL___BUILTIN_MUL_OVERFLOW`. -/
structure Abi where
  bits : Nat
  bits_le : bits ≤ 64
  addBuiltin : Bool
  mulBuiltin : Bool

namespace Abi

variable (t : Abi)

/-- `SIZE_MAX`. -/
def sizeMax : Nat := 2 ^ t.bits - 1

/-- Conversion to `size_t`. -/
def toSize (n : Nat) : Nat := n % 2 ^ t.bits

theorem toSize_le (n : Nat) : t.toSize n ≤ t.sizeMax :=
  Nat.le_sub_one_of_lt (Nat.mod_lt n (Nat.two_pow_pos t.bits))

theorem toSize_eq {n : Nat} (h : n ≤ t.sizeMax) : t.toSize n = n :=
  Nat.mod_eq_of_lt (by have := Nat.two_pow_pos t.bits; unfold sizeMax at h; omega)

theorem sizeMax_lt : t.sizeMax < 2 ^ 64 := by
  have hle : 2 ^ t.bits ≤ 2 ^ 64 := Nat.pow_le_pow_right (by omega) t.bits_le
  unfold sizeMax
  omega

theorem toNat_ofNat {n : Nat} (h : n ≤ t.sizeMax) : (UInt64.ofNat n).toNat = n :=
  UInt64.toNat_ofNat_of_lt (Nat.lt_of_le_of_lt h t.sizeMax_lt)

end Abi

/-- `check_add_overflow`, with the sum that it stores. -/
def checkAddOverflow (a b max : UInt64) : Bool × UInt64 :=
  let r := a + b
  let inRange := decide (a ≤ 0xffffffffffffffff - b) && decide (r ≤ max)
  (!inRange, r)

/-- `check_mul_overflow`, with the product that it stores. -/
def checkMulOverflow (a b max : UInt64) : Bool × UInt64 :=
  let r := a * b
  let inRange := b == 0 || (decide (a ≤ 0xffffffffffffffff / b) && decide (r ≤ max))
  (!inRange, r)

/-- `ADD_OVERFLOW` of three `size_t`s. -/
def addOverflow (t : Abi) (a b : Nat) : Bool × Nat :=
  if t.addBuiltin then (decide (t.sizeMax < a + b), t.toSize (a + b))
  else
    let (overflow, tmp) :=
      checkAddOverflow (UInt64.ofNat a) (UInt64.ofNat b) (UInt64.ofNat t.sizeMax)
    (overflow, t.toSize tmp.toNat)

/-- `MUL_OVERFLOW` of three `size_t`s. -/
def mulOverflow (t : Abi) (a b : Nat) : Bool × Nat :=
  if t.mulBuiltin then (decide (t.sizeMax < a * b), t.toSize (a * b))
  else
    let (overflow, tmp) :=
      checkMulOverflow (UInt64.ofNat a) (UInt64.ofNat b) (UInt64.ofNat t.sizeMax)
    (overflow, t.toSize tmp.toNat)

/-! ## Both implementations are exact -/

theorem checkAddOverflow_exact (a b max : UInt64) :
    (checkAddOverflow a b max).1 = decide (max.toNat < a.toNat + b.toNat) := by
  have ha := a.toNat_lt
  have hb := b.toNat_lt
  have hm := max.toNat_lt
  have hsub : ((0xffffffffffffffff : UInt64) - b).toNat = 2 ^ 64 - 1 - b.toNat := by
    rw [UInt64.toNat_sub_of_le _ _ (UInt64.le_iff_toNat_le.mpr (by
      show b.toNat ≤ 2 ^ 64 - 1; omega))]
    rfl
  have hsum : (a + b).toNat = (a.toNat + b.toNat) % 2 ^ 64 := UInt64.toNat_add a b
  simp only [checkAddOverflow, UInt64.le_iff_toNat_le, hsub, hsum]
  by_cases hfit : a.toNat + b.toNat < 2 ^ 64
  · rw [Nat.mod_eq_of_lt hfit]
    have h₁ : a.toNat ≤ 2 ^ 64 - 1 - b.toNat := by omega
    simp only [h₁, decide_true, Bool.true_and, ← Nat.not_le, decide_not]
  · have h₁ : ¬ a.toNat ≤ 2 ^ 64 - 1 - b.toNat := by omega
    have h₂ : max.toNat < a.toNat + b.toNat := by omega
    simp only [h₁, h₂, decide_false, decide_true, Bool.false_and, Bool.not_false]

theorem checkMulOverflow_exact (a b max : UInt64) :
    (checkMulOverflow a b max).1 = decide (max.toNat < a.toNat * b.toNat) := by
  have hm := max.toNat_lt
  by_cases hb : b = 0
  · simp [checkMulOverflow, hb]
  have hpos : 0 < b.toNat := Nat.pos_of_ne_zero fun h => hb (UInt64.toNat_inj.mp h)
  have hdiv : ((0xffffffffffffffff : UInt64) / b).toNat = (2 ^ 64 - 1) / b.toNat := by
    rw [UInt64.toNat_div]; rfl
  have hprod : (a * b).toNat = (a.toNat * b.toNat) % 2 ^ 64 := UInt64.toNat_mul a b
  have hbeq : (b == 0) = false := by simpa using hb
  simp only [checkMulOverflow, UInt64.le_iff_toNat_le, hdiv, hprod, hbeq,
    Nat.le_div_iff_mul_le hpos, Bool.false_or]
  by_cases hfit : a.toNat * b.toNat < 2 ^ 64
  · rw [Nat.mod_eq_of_lt hfit]
    have h₁ : a.toNat * b.toNat ≤ 2 ^ 64 - 1 := by omega
    simp only [h₁, decide_true, Bool.true_and, ← Nat.not_le, decide_not]
  · have h₁ : ¬ a.toNat * b.toNat ≤ 2 ^ 64 - 1 := by omega
    have h₂ : max.toNat < a.toNat * b.toNat := by omega
    simp only [h₁, h₂, decide_false, decide_true, Bool.false_and, Bool.not_false]

section

variable (t : Abi) {a b : Nat}

theorem addOverflow_eq (ha : a ≤ t.sizeMax) (hb : b ≤ t.sizeMax) :
    addOverflow t a b = (decide (t.sizeMax < a + b), t.toSize (a + b)) := by
  unfold addOverflow
  split
  · rfl
  have hlow : (a + b) % 2 ^ 64 % 2 ^ t.bits = (a + b) % 2 ^ t.bits :=
    Nat.mod_mod_of_dvd _ (Nat.pow_dvd_pow 2 t.bits_le)
  refine Prod.ext ?_ ?_
  · simp only [checkAddOverflow_exact, t.toNat_ofNat ha, t.toNat_ofNat hb,
      t.toNat_ofNat (Nat.le_refl _)]
  · simp only [checkAddOverflow, Abi.toSize, UInt64.toNat_add, t.toNat_ofNat ha,
      t.toNat_ofNat hb, hlow]

theorem mulOverflow_eq (ha : a ≤ t.sizeMax) (hb : b ≤ t.sizeMax) :
    mulOverflow t a b = (decide (t.sizeMax < a * b), t.toSize (a * b)) := by
  unfold mulOverflow
  split
  · rfl
  have hlow : a * b % 2 ^ 64 % 2 ^ t.bits = a * b % 2 ^ t.bits :=
    Nat.mod_mod_of_dvd _ (Nat.pow_dvd_pow 2 t.bits_le)
  refine Prod.ext ?_ ?_
  · simp only [checkMulOverflow_exact, t.toNat_ofNat ha, t.toNat_ofNat hb,
      t.toNat_ofNat (Nat.le_refl _)]
  · simp only [checkMulOverflow, Abi.toSize, UInt64.toNat_mul, t.toNat_ofNat ha,
      t.toNat_ofNat hb, hlow]

end

end Libnbd.Common
