import Mathlib.Algebra.Order.Ring.Nat
import Mathlib.Data.List.TakeWhile
import Mathlib.Tactic.Common

/-!
Decimal numbers in byte strings: the digits that `printf` writes, and the numeral
that `strtol` and `scanf` find at the start of a text.
-/

namespace Lib

def isSpace (c : UInt8) : Bool := c == 0x20 || (decide (0x09 ≤ c) && decide (c ≤ 0x0d))

def isDigit (c : UInt8) : Bool := decide (0x30 ≤ c) && decide (c ≤ 0x39)

/-- The number that a row of digits stands for. -/
def digitsValue (ds : List UInt8) : Nat := ds.foldl (fun v c => 10 * v + (c.toNat - 0x30)) 0

/-- The digits of a number. -/
def decimal (n : Nat) : List UInt8 :=
  (if n < 10 then [] else decimal (n / 10)) ++ [UInt8.ofNat (0x30 + n % 10)]

/-- A numeral, and the text behind it. -/
structure Numeral where
  negative : Bool
  digits : List UInt8
  rest : List UInt8
  deriving DecidableEq, Repr

def Numeral.value (n : Numeral) : Int :=
  if n.negative then -(digitsValue n.digits) else digitsValue n.digits

/-- A sign, if there is one. -/
def scanSign (s : List UInt8) : Bool × List UInt8 :=
  match s with
  | [] => (false, [])
  | c :: t => if c = 0x2d then (true, t) else if c = 0x2b then (false, t) else (false, s)

/-- White space, a sign and at least one digit. -/
def scanNumeral (s : List UInt8) : Option Numeral :=
  let (negative, s) := scanSign (s.dropWhile isSpace)
  if s.takeWhile isDigit = [] then none
  else some ⟨negative, s.takeWhile isDigit, s.dropWhile isDigit⟩

/-! ## Digits -/

theorem digitsValue_append_singleton (ds : List UInt8) (c : UInt8) :
    digitsValue (ds ++ [c]) = 10 * digitsValue ds + (c.toNat - 0x30) := by
  simp [digitsValue]

theorem toNat_digit (d : Nat) (h : d < 10) : (UInt8.ofNat (0x30 + d)).toNat = 0x30 + d := by
  rw [UInt8.toNat_ofNat']
  omega

theorem isDigit_digit (d : Nat) (h : d < 10) : isDigit (UInt8.ofNat (0x30 + d)) = true := by
  simp only [isDigit, Bool.and_eq_true, decide_eq_true_eq, UInt8.le_iff_toNat_le, toNat_digit d h]
  constructor
  · exact Nat.le_add_right _ _
  · change 0x30 + d ≤ 0x39
    omega

theorem decimal_ne_nil (n : Nat) : decimal n ≠ [] := by
  rw [decimal]
  simp

theorem isDigit_of_mem_decimal {n : Nat} {c : UInt8} (h : c ∈ decimal n) : isDigit c = true := by
  rw [decimal, List.mem_append, List.mem_singleton] at h
  rcases h with h | rfl
  · split at h
    · cases h
    · exact isDigit_of_mem_decimal h
  · exact isDigit_digit _ (Nat.mod_lt _ (by decide))

theorem digitsValue_decimal (n : Nat) : digitsValue (decimal n) = n := by
  rw [decimal, digitsValue_append_singleton, toNat_digit _ (Nat.mod_lt _ (by decide))]
  split
  · have : digitsValue [] = 0 := rfl
    omega
  · rw [digitsValue_decimal (n / 10)]
    omega

theorem length_decimal_le {n k : Nat} (h : n < 10 ^ (k + 1)) : (decimal n).length ≤ k + 1 := by
  induction k generalizing n with
  | zero =>
    rw [decimal, if_pos (by simpa using h)]
    simp
  | succ k ih =>
    rw [decimal, List.length_append, List.length_singleton]
    split
    · simp
    · have := ih (n := n / 10) (by rw [Nat.pow_succ] at h; omega)
      omega

/-! ## Scanning -/

theorem scanSign_of_isDigit {c : UInt8} {s : List UInt8} (h : isDigit c = true) :
    scanSign (c :: s) = (false, c :: s) := by
  have hminus : c ≠ 0x2d := by
    rintro rfl
    cases h
  have hplus : c ≠ 0x2b := by
    rintro rfl
    cases h
  simp only [scanSign, hminus, hplus, if_false]

theorem not_isSpace_of_isDigit {c : UInt8} (h : isDigit c = true) : isSpace c = false := by
  simp only [isDigit, isSpace, Bool.and_eq_true, decide_eq_true_eq, Bool.or_eq_false_iff,
    Bool.and_eq_false_iff, decide_eq_false_iff_not, beq_eq_false_iff_ne] at h ⊢
  obtain ⟨hlo, -⟩ := h
  rw [UInt8.le_iff_toNat_le] at hlo
  change 0x30 ≤ c.toNat at hlo
  refine ⟨?_, .inr ?_⟩
  · rintro rfl
    exact absurd hlo (by decide)
  · rw [UInt8.le_iff_toNat_le]
    change ¬ c.toNat ≤ 0x0d
    omega

theorem scanSign_spec (s : List UInt8) :
    ∃ sign, s = sign ++ (scanSign s).2 ∧
      (sign = [0x2d] ∧ (scanSign s).1 = true ∨
        (sign = [] ∨ sign = [0x2b]) ∧ (scanSign s).1 = false) := by
  unfold scanSign
  split
  · exact ⟨[], rfl, .inr ⟨.inl rfl, rfl⟩⟩
  · split
    · rename_i hc
      exact ⟨[0x2d], by rw [hc]; rfl, .inl ⟨rfl, rfl⟩⟩
    split
    · rename_i hc
      exact ⟨[0x2b], by rw [hc]; rfl, .inr ⟨.inr rfl, rfl⟩⟩
    · exact ⟨[], rfl, .inr ⟨.inl rfl, rfl⟩⟩

/-- A numeral that was found stands in the text. -/
theorem scanNumeral_some {s : List UInt8} {n : Numeral} (h : scanNumeral s = some n) :
    ∃ spaces sign, s = spaces ++ sign ++ n.digits ++ n.rest ∧
      (∀ c ∈ spaces, isSpace c = true) ∧
      (sign = [0x2d] ∧ n.negative = true ∨ (sign = [] ∨ sign = [0x2b]) ∧ n.negative = false) ∧
      n.digits ≠ [] ∧ ∀ c ∈ n.digits, isDigit c = true := by
  obtain ⟨sign, hsign, hneg⟩ := scanSign_spec (s.dropWhile isSpace)
  unfold scanNumeral at h
  dsimp only at h
  split at h
  · cases h
  rename_i hne
  cases h
  refine ⟨s.takeWhile isSpace, sign, ?_, fun c hc => List.mem_takeWhile_imp hc, hneg, hne,
    fun c hc => List.mem_takeWhile_imp hc⟩
  rw [List.append_assoc _ _ (List.dropWhile _ _), List.takeWhile_append_dropWhile,
    List.append_assoc, ← hsign, List.takeWhile_append_dropWhile]

/-- A number that was printed is found again. -/
theorem scanNumeral_decimal (n : Nat) {rest : List UInt8} (h : ∀ c ∈ rest.head?, isDigit c = false) :
    scanNumeral (decimal n ++ rest) = some ⟨false, decimal n, rest⟩ := by
  obtain ⟨c, ds, hds⟩ := List.exists_cons_of_ne_nil (decimal_ne_nil n)
  have hc : isDigit c = true := isDigit_of_mem_decimal (n := n) (by rw [hds]; exact List.mem_cons_self)
  have hsp : (decimal n ++ rest).dropWhile isSpace = decimal n ++ rest := by
    rw [hds, List.cons_append, List.dropWhile_cons_of_neg (by simp [not_isSpace_of_isDigit hc])]
  have hsign : scanSign (decimal n ++ rest) = (false, decimal n ++ rest) := by
    rw [hds, List.cons_append, scanSign_of_isDigit hc]
  have hall : ∀ c ∈ decimal n, isDigit c = true := fun c hc => isDigit_of_mem_decimal hc
  have htake : (decimal n ++ rest).takeWhile isDigit = decimal n := by
    rw [List.takeWhile_append_of_pos hall]
    cases rest with
    | nil => simp
    | cons d rest => rw [List.takeWhile_cons_of_neg (by simp [h d (by simp)]), List.append_nil]
  have hdrop : (decimal n ++ rest).dropWhile isDigit = rest := by
    rw [List.dropWhile_append_of_pos hall]
    cases rest with
    | nil => simp
    | cons d rest => rw [List.dropWhile_cons_of_neg (by simp [h d (by simp)])]
  unfold scanNumeral
  rw [hsp, hsign]
  simp only [htake, hdrop, decimal_ne_nil, if_false]

end Lib
