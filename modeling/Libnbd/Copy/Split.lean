import Libnbd.Copy.Sizes
import Libnbd.Lib.Tiling

/-!
How nbdcopy splits a finished read into data and zeroes (`finished_read` in
`copy/multi-thread-copying.c`).

The buffer is not written to again while it is being split, so the subcommands that will
be made, and their order, are known as soon as the read has finished.
-/

namespace Libnbd.Copy

open Lib

/-- `ROUND_UP` of a `uint64_t`. -/
def roundUp (i n : Nat) : Nat := (i + n - 1) &&& (2 ^ 64 - n)

/-- `is_zero (data + start, size)`. -/
def isZero (data : List UInt8) (start size : Nat) : Bool :=
  ((data.drop start).take size).all (· == 0)

/-- A part of a command, to be written or to be zeroed. -/
structure Part where
  offset : Nat
  len : Nat
  zero : Bool
  deriving DecidableEq, Repr

/-- The part from `a` to `b`, if any. -/
def partBetween (a b : Nat) (zero : Bool) : List Part :=
  if b - a > 0 then [⟨a, b - a, zero⟩] else []

section Loop

variable (data : List UInt8) (start stop sparseSize : Nat)

/-- The loop over whole blocks, and the two parts after it. It ends before the fuel does
if that exceeds the bytes left. -/
def splitLoop : Nat → Nat → Bool → Nat → List Part
  | 0, _, _, _ => []
  | fuel + 1, lastOffset, lastIsZero, i =>
    if i + sparseSize ≤ stop then
      if isZero data (i - start) sparseSize then
        if !lastIsZero then
          partBetween lastOffset i false ++ splitLoop fuel i true (i + sparseSize)
        else splitLoop fuel lastOffset lastIsZero (i + sparseSize)
      else
        if lastIsZero then
          partBetween lastOffset i true ++ splitLoop fuel i false (i + sparseSize)
        else splitLoop fuel lastOffset lastIsZero (i + sparseSize)
    else
      -- up to `i`, then the unaligned tail
      partBetween lastOffset i lastIsZero ++ partBetween i stop false

/-- The subcommands of a read of `[start, stop)`, in the order in which they are made. -/
def splitParts : List Part :=
  splitLoop data start stop sparseSize (stop - start + 1) start false
    (min (roundUp start sparseSize) stop)

end Loop

/-! ## The parts -/

/-- The bytes of a range. -/
def bytesOf (src : Nat → UInt8) (offset len : Nat) : List UInt8 :=
  (List.range len).map fun i => src (offset + i)

@[simp] theorem bytesOf_length (src : Nat → UInt8) (offset len : Nat) :
    (bytesOf src offset len).length = len := by
  simp [bytesOf]

/-- A slice of the bytes of a range. -/
theorem bytesOf_slice (src : Nat → UInt8) {offset len base n : Nat} (h : base + n ≤ len) :
    ((bytesOf src offset len).drop base).take n = bytesOf src (offset + base) n := by
  refine List.ext_getElem (by simp; omega) fun i h₁ h₂ => ?_
  simp [bytesOf, Nat.add_assoc]

/-- The test of one block of a read of `[start, stop)`. -/
theorem isZero_block (src : Nat → UInt8) {start stop i n : Nat} (hi : start ≤ i)
    (hin : i + n ≤ stop) :
    isZero (bytesOf src start (stop - start)) (i - start) n = true ↔
      ∀ q, i ≤ q → q < i + n → src q = 0 := by
  rw [isZero, bytesOf_slice src (by omega), List.all_eq_true, show start + (i - start) = i by omega]
  constructor
  · intro hall q hlo hhi
    have hmem : src q ∈ bytesOf src i n := by
      refine List.mem_map.mpr ⟨q - i, by simp; omega, ?_⟩
      rw [show i + (q - i) = q by omega]
    simpa using hall (src q) hmem
  · intro hall b hb
    obtain ⟨k, hk, rfl⟩ := List.mem_map.mp hb
    have := List.mem_range.mp hk
    simp [hall (i + k) (by omega) (by omega)]

/-- The mask of `ROUND_UP` clears the low bits and nothing else. -/
theorem and_mask {x k : Nat} (hk : k ≤ 64) (hx : x < 2 ^ 64) :
    x &&& (2 ^ 64 - 2 ^ k) = 2 ^ k * (x / 2 ^ k) := by
  have hmask : 2 ^ 64 - 2 ^ k = 2 ^ k * (2 ^ (64 - k) - 1) := by
    rw [Nat.mul_sub, ← Nat.pow_add, Nat.add_sub_cancel' hk, Nat.mul_one]
  have hdiv : (x &&& (2 ^ 64 - 2 ^ k)) / 2 ^ k = x / 2 ^ k := by
    rw [Nat.and_div_two_pow, hmask, Nat.mul_div_cancel_left _ (Nat.two_pow_pos k),
      Nat.and_two_pow_sub_one_eq_mod, Nat.mod_eq_of_lt]
    rw [Nat.div_lt_iff_lt_mul (Nat.two_pow_pos k), ← Nat.pow_add, Nat.sub_add_cancel hk]
    exact hx
  have hmod : (x &&& (2 ^ 64 - 2 ^ k)) % 2 ^ k = 0 := by
    rw [Nat.and_mod_two_pow, hmask, Nat.mul_mod_right, Nat.and_zero]
  rw [← Nat.div_add_mod (x &&& (2 ^ 64 - 2 ^ k)) (2 ^ k), hdiv, hmod, Nat.add_zero]

theorem le_roundUp {i n : Nat} (hn : isPowerOf2 n = true) (hn' : n ≤ uintMax) (hi : i < 2 ^ 63) :
    i ≤ roundUp i n := by
  obtain ⟨k, rfl⟩ := isPowerOf2_iff.mp hn
  have hk : k < 32 := by
    refine (Nat.pow_lt_pow_iff_right (by decide : 1 < 2)).mp ?_
    simp only [uintMax] at hn'
    omega
  have hmod := Nat.mod_lt (i + 2 ^ k - 1) (Nat.two_pow_pos k)
  have hdiv := Nat.div_add_mod (i + 2 ^ k - 1) (2 ^ k)
  have hround : roundUp i (2 ^ k) = 2 ^ k * ((i + 2 ^ k - 1) / 2 ^ k) := by
    simp only [uintMax] at hn'
    exact and_mask (by omega) (by omega)
  omega

theorem partBetween_tiles {a b c : Nat} {ps : List Part} (zero : Bool) (h : a ≤ b)
    (hps : Tiles Part.offset Part.len b c ps) :
    Tiles Part.offset Part.len a c (partBetween a b zero ++ ps) := by
  unfold partBetween
  split
  · next hpos =>
    refine ⟨rfl, hpos, ?_⟩
    rwa [show a + (b - a) = b by omega]
  · next hpos =>
    obtain rfl : a = b := by omega
    exact hps

section Loop

variable {data : List UInt8} {start stop sparseSize : Nat}

theorem splitLoop_tiles (hs : 0 < sparseSize) {fuel lastOffset i : Nat} (lastIsZero : Bool)
    (hfuel : stop - i < fuel) (hlast : lastOffset ≤ i) (hi : i ≤ stop) :
    Tiles Part.offset Part.len lastOffset stop
      (splitLoop data start stop sparseSize fuel lastOffset lastIsZero i) := by
  induction fuel generalizing lastOffset lastIsZero i with
  | zero => omega
  | succ fuel ih =>
    unfold splitLoop
    split
    · split
      · split
        · exact partBetween_tiles _ hlast (ih _ (by omega) (by omega) (by omega))
        · exact ih _ (by omega) (by omega) (by omega)
      · split
        · exact partBetween_tiles _ hlast (ih _ (by omega) (by omega) (by omega))
        · exact ih _ (by omega) (by omega) (by omega)
    · refine partBetween_tiles _ hlast ?_
      rw [← List.append_nil (partBetween i stop false)]
      exact partBetween_tiles _ hi rfl

end Loop

section Zero

variable {src : Nat → UInt8} {start stop sparseSize : Nat}

/-- The source is zero throughout the part, if it is to be zeroed. -/
def Part.Sound (src : Nat → UInt8) (p : Part) : Prop :=
  p.zero = true → ∀ q, p.offset ≤ q → q < p.offset + p.len → src q = 0

theorem partBetween_sound {a b : Nat} {zero : Bool}
    (h : zero = true → ∀ q, a ≤ q → q < b → src q = 0) {p : Part} (hp : p ∈ partBetween a b zero) :
    p.Sound src := by
  unfold partBetween at hp
  split at hp
  · obtain rfl := List.mem_singleton.mp hp
    intro hz q hlo hhi
    simp only at hlo hhi
    exact h hz q hlo (by omega)
  · cases hp

/-- The invariant is that the open range has only zeroes so far, if it is taken for zero. -/
theorem splitLoop_sound {fuel lastOffset i : Nat} {lastIsZero : Bool} (hstart : start ≤ i)
    (hopen : lastIsZero = true → ∀ q, lastOffset ≤ q → q < i → src q = 0) :
    ∀ p ∈ splitLoop (bytesOf src start (stop - start)) start stop sparseSize fuel lastOffset
      lastIsZero i, p.Sound src := by
  induction fuel generalizing lastOffset i lastIsZero with
  | zero =>
    intro p hp
    cases hp
  | succ fuel ih =>
    unfold splitLoop
    split
    · next hin =>
      have hblock := isZero_block src hstart hin
      split
      · next hz =>
        have hzero := hblock.mp hz
        split
        · intro p hp
          rcases List.mem_append.mp hp with hp | hp
          · exact partBetween_sound (fun h => by cases h) hp
          · exact ih (by omega) (fun _ => hzero) p hp
        · next hlast =>
          refine ih (by omega) fun h q hlo hhi => ?_
          by_cases hq : q < i
          · exact hopen h q hlo hq
          · exact hzero q (by omega) hhi
      · split
        · next hlast =>
          intro p hp
          rcases List.mem_append.mp hp with hp | hp
          · exact partBetween_sound (fun _ => hopen hlast) hp
          · exact ih (by omega) (fun h => by cases h) p hp
        · next hlast => exact ih (by omega) fun h => absurd h hlast
    · intro p hp
      rcases List.mem_append.mp hp with hp | hp
      · exact partBetween_sound hopen hp
      · exact partBetween_sound (fun h => by cases h) hp

/-- The parts tile the read, and those to be zeroed are zero. -/
theorem splitParts_tiles (data : List UInt8) (hs : isPowerOf2 sparseSize = true)
    (hs' : sparseSize ≤ uintMax) (hstop : start ≤ stop) (hmax : stop < 2 ^ 63) :
    Tiles Part.offset Part.len start stop (splitParts data start stop sparseSize) := by
  have hround := le_roundUp hs hs' (Nat.lt_of_le_of_lt hstop hmax)
  exact splitLoop_tiles (pos_of_isPowerOf2 hs) _ (by omega) (by omega) (by omega)

theorem splitParts_sound (hs : isPowerOf2 sparseSize = true) (hs' : sparseSize ≤ uintMax)
    (hstop : start ≤ stop) (hmax : stop < 2 ^ 63) :
    ∀ p ∈ splitParts (bytesOf src start (stop - start)) start stop sparseSize, p.Sound src := by
  have hround := le_roundUp hs hs' (Nat.lt_of_le_of_lt hstop hmax)
  exact splitLoop_sound (by omega) fun h => by cases h

end Zero

end Libnbd.Copy
