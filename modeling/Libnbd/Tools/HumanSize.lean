import Libnbd.Lib.Decimal
import Libnbd.Uri.Queries
import Mathlib.Tactic.IntervalCases

/-!
Sizes with a suffix (`common/include/human-size.h`): the parser that the tools use for
their options, and the printer.

The printer divides by 1024 as long as nothing is lost, the parser multiplies by the
unit it finds and refuses what does not fit into 63 bits. The buffer of the printer is
the caller's; its length is `HUMAN_SIZE_LONGEST`.
-/

namespace Libnbd.Tools

open Lib
open Uri (str)

def sizeLimit : Nat := 2 ^ 63 - 1

/-! ## Parsing -/

/-- The value that `strtoimax` returns, which is cut to the limits of its type. -/
def saturate (v : Int) : Int := max (-2 ^ 63) (min v (2 ^ 63 - 1))

/-- The units. The powers of 1024 fall through to the smaller ones. -/
def suffixScale (c : UInt8) : Option Nat :=
  if c = 0x65 ∨ c = 0x45 then some (1024 * 1024 * 1024 * 1024 * 1024 * 1024)
  else if c = 0x70 ∨ c = 0x50 then some (1024 * 1024 * 1024 * 1024 * 1024)
  else if c = 0x74 ∨ c = 0x54 then some (1024 * 1024 * 1024 * 1024)
  else if c = 0x67 ∨ c = 0x47 then some (1024 * 1024 * 1024)
  else if c = 0x6d ∨ c = 0x4d then some (1024 * 1024)
  else if c = 0x6b ∨ c = 0x4b then some 1024
  else if c = 0x62 ∨ c = 0x42 then some 1
  else if c = 0x73 ∨ c = 0x53 then some 512
  else none

/-- The multiplication, in 64 bits. -/
def scaleSize (s : CString) (size scale : Nat) : Except (String × CString) Nat :=
  if sizeLimit / scale < size then .error ("could not parse size: size * scale overflows", s)
  else .ok (size * scale % 2 ^ 64)

/-- `human_size_parse`; an error comes with the part of the string it is about. -/
def humanSizeParse (s : CString) : Except (String × CString) Nat :=
  match scanNumeral s with
  | none => .error ("could not parse size string", s)
  | some n =>
    let size := saturate n.value
    if size < 0 then .error ("size cannot be negative", s)
    else if size ≠ n.value then .error ("size exceeds maximum value", s)
    else
      match n.rest with
      | [] => scaleSize s size.toNat 1
      | c :: more =>
        match suffixScale c with
        | none => .error ("could not parse size: unknown suffix", n.rest)
        | some scale =>
          if more ≠ [] then .error ("could not parse size: unknown suffix", n.rest)
          else scaleSize s size.toNat scale

/-! ## Printing -/

/-- The loop; `none` is for an index in front of `ext`. -/
def shrink (bytes : UInt64) : Nat → Option (UInt64 × Nat)
  | 0 => if bytes ≠ 0 ∧ bytes &&& 1023 = 0 then none else some (bytes, 0)
  | i + 1 =>
    if bytes ≠ 0 ∧ bytes &&& 1023 = 0 then shrink (bytes >>> 10) i else some (bytes, i + 1)

/-- `%.1s` of `&ext[i]`, where `ext` is `"EPTGMK"`. -/
def extension (i : Nat) : CString := ((str "EPTGMK").drop i).take 1

def humanSizeLongest : Nat := 64

/-- `human_size`: the text and the flag that it was abbreviated. -/
def humanSize (bytes : UInt64) : Option (CString × Bool) :=
  (shrink bytes 6).map fun r =>
    ((decimal r.1.toNat ++ extension r.2).take (humanSizeLongest - 1), extension r.2 != [])

/-! ## What a size string means -/

/-- The multipliers. -/
def multipliers : List (CString × Nat) :=
  [(str "", 1), (str "b", 1), (str "B", 1), (str "s", 512), (str "S", 512),
   (str "k", 2 ^ 10), (str "K", 2 ^ 10), (str "m", 2 ^ 20), (str "M", 2 ^ 20),
   (str "g", 2 ^ 30), (str "G", 2 ^ 30), (str "t", 2 ^ 40), (str "T", 2 ^ 40),
   (str "p", 2 ^ 50), (str "P", 2 ^ 50), (str "e", 2 ^ 60), (str "E", 2 ^ 60)]

/-- The string is white space, a number and a suffix, and stands for `value`. -/
def Denotes (s : CString) (value : Int) : Prop :=
  ∃ spaces sign digits suffix scale, s = spaces ++ sign ++ digits ++ suffix ∧
    (∀ c ∈ spaces, isSpace c = true) ∧ (sign = [] ∨ sign = str "+" ∨ sign = str "-") ∧
    digits ≠ [] ∧ (∀ c ∈ digits, isDigit c = true) ∧ (suffix, scale) ∈ multipliers ∧
    value = (if sign = str "-" then -(digitsValue digits : Int) else digitsValue digits) * scale

/-! ## The parser is exact -/

theorem suffixScale_mem {c : UInt8} {scale : Nat} (h : suffixScale c = some scale) :
    ([c], scale) ∈ multipliers := by
  unfold suffixScale at h
  repeat' split at h
  all_goals cases h
  all_goals
    rename_i hc
    rcases hc with rfl | rfl <;> decide

theorem suffixScale_pos {c : UInt8} {scale : Nat} (h : suffixScale c = some scale) :
    0 < scale := by
  have hall : ∀ p ∈ multipliers, 0 < p.2 := by decide
  exact hall _ (suffixScale_mem h)

theorem scaleSize_ok {s : CString} {size scale n : Nat} (hpos : 0 < scale)
    (h : scaleSize s size scale = .ok n) : n = size * scale ∧ n ≤ sizeLimit := by
  unfold scaleSize at h
  split at h
  · cases h
  rename_i hle
  have hfit : size * scale ≤ sizeLimit :=
    (Nat.le_div_iff_mul_le hpos).mp (Nat.le_of_not_lt hle)
  cases h
  have hmod : size * scale % 2 ^ 64 = size * scale := by
    apply Nat.mod_eq_of_lt
    unfold sizeLimit at hfit
    omega
  rw [hmod]
  exact ⟨rfl, hfit⟩

theorem scaleSize_of_le {s : CString} {size scale : Nat} (hpos : 0 < scale)
    (hfit : size * scale ≤ sizeLimit) : scaleSize s size scale = .ok (size * scale) := by
  have hle := (Nat.le_div_iff_mul_le hpos).mpr hfit
  unfold scaleSize
  rw [if_neg (by omega), Nat.mod_eq_of_lt]
  unfold sizeLimit at hfit
  omega

/-- A size that is accepted is what the string stands for. -/
theorem humanSizeParse_exact {s : CString} {n : Nat} (h : humanSizeParse s = .ok n) :
    Denotes s n ∧ n ≤ sizeLimit := by
  unfold humanSizeParse at h
  split at h
  · cases h
  rename_i num hnum
  obtain ⟨spaces, sign, hs, hspaces, hsign, hdigits, hall⟩ := scanNumeral_some hnum
  dsimp only at h
  split at h
  · cases h
  rename_i hnonneg
  split at h
  · cases h
  rename_i hrange
  have hvalue : saturate num.value = num.value := not_not.mp hrange
  rw [hvalue] at h hnonneg
  -- the scale is that of the suffix
  obtain ⟨suffix, scale, hrest, hmem, hpos, hscale⟩ :
      ∃ suffix scale, num.rest = suffix ∧ (suffix, scale) ∈ multipliers ∧ 0 < scale ∧
        scaleSize s num.value.toNat scale = .ok n := by
    split at h
    · rename_i hrest
      exact ⟨[], 1, hrest, by decide, by decide, h⟩
    · rename_i c more hrest
      split at h
      · cases h
      rename_i scale hscale
      split at h
      · cases h
      rename_i hmore
      have hnil : more = [] := not_not.mp hmore
      rw [hnil] at hrest
      exact ⟨[c], scale, hrest, suffixScale_mem hscale, suffixScale_pos hscale, h⟩
  obtain ⟨hn, hle⟩ := scaleSize_ok hpos hscale
  rw [hrest] at hs
  refine ⟨⟨spaces, sign, num.digits, suffix, scale, hs, hspaces, ?_, hdigits, hall, hmem, ?_⟩, hle⟩
  · rcases hsign with ⟨rfl, -⟩ | ⟨rfl | rfl, -⟩
    · exact .inr (.inr rfl)
    · exact .inl rfl
    · exact .inr (.inl rfl)
  · have hcast : ((num.value.toNat : Nat) : Int) = num.value := Int.toNat_of_nonneg (by omega)
    rw [hn, Int.natCast_mul, hcast]
    congr 1
    unfold Numeral.value
    rcases hsign with ⟨rfl, hneg⟩ | ⟨rfl | rfl, hneg⟩
    · rw [hneg]
      rfl
    · rw [hneg]
      rfl
    · rw [hneg]
      rfl

/-! ## The printer is inverted -/

theorem toNat_shiftRight_ten (bytes : UInt64) : (bytes >>> 10).toNat = bytes.toNat / 1024 := by
  rw [UInt64.toNat_shiftRight, Nat.shiftRight_eq_div_pow]
  rfl

theorem and_1023_eq_zero {bytes : UInt64} : bytes &&& 1023 = 0 ↔ bytes.toNat % 1024 = 0 := by
  have hand : (bytes &&& 1023).toNat = bytes.toNat % 1024 := by
    rw [UInt64.toNat_and]
    exact Nat.and_two_pow_sub_one_eq_mod bytes.toNat 10
  rw [← hand]
  exact UInt64.toNat_inj.symm

/-- The loop stops inside `ext`, and nothing is lost. -/
theorem shrink_spec {bytes : UInt64} {i : Nat} (hi : i ≤ 6)
    (hfit : bytes.toNat * 1024 ^ (6 - i) < 2 ^ 64) :
    ∃ v j, shrink bytes i = some (v, j) ∧ j ≤ i ∧
      v.toNat * 1024 ^ (6 - j) = bytes.toNat * 1024 ^ (6 - i) := by
  induction i generalizing bytes with
  | zero =>
    refine ⟨bytes, 0, ?_, Nat.le_refl _, rfl⟩
    rw [shrink, if_neg]
    rintro ⟨hne, hmod⟩
    rw [and_1023_eq_zero] at hmod
    have : bytes.toNat ≠ 0 := fun h => hne (UInt64.toNat_inj.mp h)
    omega
  | succ i ih =>
    rw [shrink]
    split
    · rename_i hcond
      have hmod := and_1023_eq_zero.mp hcond.2
      have hpow : 1024 ^ (6 - i) = 1024 * 1024 ^ (6 - (i + 1)) := by
        rw [show 6 - i = 6 - (i + 1) + 1 by omega, Nat.pow_succ, Nat.mul_comm]
      have heq : (bytes >>> 10).toNat * 1024 ^ (6 - i) = bytes.toNat * 1024 ^ (6 - (i + 1)) := by
        rw [toNat_shiftRight_ten, hpow, ← Nat.mul_assoc]
        congr 1
        omega
      obtain ⟨v, j, hrun, hj, hv⟩ := @ih (bytes >>> 10) (by omega) (by rw [heq]; exact hfit)
      exact ⟨v, j, hrun, by omega, hv.trans heq⟩
    · exact ⟨bytes, i + 1, rfl, Nat.le_refl _, rfl⟩

/-- The suffix that is printed is that of the unit. -/
theorem extension_cases {j : Nat} (hj : j ≤ 6) :
    extension j = [] ∧ j = 6 ∨
      ∃ c, extension j = [c] ∧ isDigit c = false ∧ suffixScale c = some (1024 ^ (6 - j)) := by
  interval_cases j
  · exact .inr ⟨0x45, by decide, by decide, by decide⟩
  · exact .inr ⟨0x50, by decide, by decide, by decide⟩
  · exact .inr ⟨0x54, by decide, by decide, by decide⟩
  · exact .inr ⟨0x47, by decide, by decide, by decide⟩
  · exact .inr ⟨0x4d, by decide, by decide, by decide⟩
  · exact .inr ⟨0x4b, by decide, by decide, by decide⟩
  · exact .inl ⟨by decide, rfl⟩

/-- A number with one of the suffixes is parsed. -/
theorem humanSizeParse_decimal {v j : Nat} (hj : j ≤ 6) (hfit : v * 1024 ^ (6 - j) ≤ sizeLimit) :
    humanSizeParse (decimal v ++ extension j) = .ok (v * 1024 ^ (6 - j)) := by
  have hpos : 0 < 1024 ^ (6 - j) := Nat.pow_pos (by decide)
  have hv : v ≤ sizeLimit := Nat.le_trans (Nat.le_mul_of_pos_right v hpos) hfit
  have hhead : ∀ c ∈ (extension j).head?, isDigit c = false := by
    rcases extension_cases hj with ⟨h, -⟩ | ⟨c, h, hc, -⟩
    · simp [h]
    · simpa [h] using hc
  have hvalue : Numeral.value ⟨false, decimal v, extension j⟩ = v := by
    simp [Numeral.value, digitsValue_decimal]
  have hsat : saturate v = v := by
    unfold saturate
    unfold sizeLimit at hv
    omega
  unfold humanSizeParse
  rw [scanNumeral_decimal v hhead]
  simp only [hvalue, hsat, ne_eq, not_true_eq_false, if_false, Int.toNat_natCast]
  rw [if_neg (by omega)]
  rcases extension_cases hj with ⟨h, rfl⟩ | ⟨c, h, -, hscale⟩
  · rw [h]
    exact scaleSize_of_le (by decide) hfit
  · simp only [h, hscale, not_true_eq_false, if_false]
    exact scaleSize_of_le hpos hfit

/-- **Sizes are exact.** What is printed for a size is parsed as that size, and a string
that is parsed stands for the size, which is at most `INT64_MAX`. -/
theorem human_size_exact (b : UInt64) (hb : b.toNat ≤ sizeLimit) (s : CString) :
    (∃ text human, humanSize b = some (text, human) ∧ humanSizeParse text = .ok b.toNat) ∧
      ((∃ e, humanSizeParse s = .error e) ∨
        ∃ n, humanSizeParse s = .ok n ∧ Denotes s n ∧ n ≤ sizeLimit) := by
  constructor
  · obtain ⟨v, j, hrun, hj, hv⟩ := @shrink_spec b 6 (Nat.le_refl _) (by simpa using b.toNat_lt)
    rw [Nat.sub_self, Nat.pow_zero, Nat.mul_one] at hv
    have hlen : (decimal v.toNat ++ extension j).length ≤ humanSizeLongest - 1 := by
      have hdec : (decimal v.toNat).length ≤ 19 + 1 := by
        apply length_decimal_le
        have := v.toNat_lt
        omega
      have hext : (extension j).length ≤ 1 := List.length_take_le _ _
      rw [List.length_append]
      unfold humanSizeLongest
      omega
    refine ⟨decimal v.toNat ++ extension j, extension j != [], ?_, ?_⟩
    · simp only [humanSize, hrun, Option.map_some, List.take_of_length_le hlen]
    · rw [humanSizeParse_decimal hj (by rw [hv]; exact hb), hv]
  · cases h : humanSizeParse s with
    | error e => exact .inl ⟨e, rfl⟩
    | ok n => exact .inr ⟨n, rfl, humanSizeParse_exact h⟩

theorem human_size_exact_mebibyte :
    (∃ text human, humanSize 1048576 = some (text, human) ∧
      humanSizeParse text = .ok 1048576) ∧
    humanSize 1048576 = some (str "1M", true) ∧
    humanSizeParse (str " 8191p") = .ok (8191 * 2 ^ 50) ∧ Denotes (str " 8191p") (8191 * 2 ^ 50) := by
  have hparse : humanSizeParse (str " 8191p") = .ok (8191 * 2 ^ 50) := by decide +kernel
  obtain ⟨hround, ⟨e, he⟩ | ⟨n, hn, hden, -⟩⟩ :=
    human_size_exact 1048576 (by decide) (str " 8191p")
  · rw [hparse] at he
    cases he
  · rw [hparse] at hn
    cases hn
    exact ⟨hround, by decide +kernel, hparse, hden⟩

end Libnbd.Tools
