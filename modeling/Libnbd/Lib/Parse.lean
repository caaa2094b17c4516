import Libnbd.Lib.Bytes
import Mathlib.Data.List.Induction
import Mathlib.Tactic.Ring

/-!
Parsers of byte strings, for stating what an encoding means.

`Reads p bs a` says that `p` takes exactly `bs` from the front of any input and
returns `a`. The rules compose: an encoder that concatenates fields is inverted by
the parser that reads them in the same order (`Reads.bind`), and a sequence of
messages by the parser that reads messages until nothing is left (`parseList_reads`).
-/

namespace Lib

theorem beNat_append (bs cs : List UInt8) :
    beNat (bs ++ cs) = beNat bs * 256 ^ cs.length + beNat cs := by
  induction cs using List.reverseRecOn with
  | nil => simp [beNat]
  | append_singleton cs b ih =>
    simp only [beNat, List.foldl_append, List.foldl_cons, List.foldl_nil, List.length_append,
      List.length_cons, List.length_nil] at ih ⊢
    rw [ih, Nat.pow_succ]
    ring

/-- What a field of `width` bytes holds of a number. -/
theorem beNat_toBE_mod (width n : Nat) : beNat (toBE width n) = n % 256 ^ width := by
  induction width generalizing n with
  | zero =>
    rw [Nat.pow_zero, Nat.mod_one]
    rfl
  | succ width ih =>
    have hlow : beNat [UInt8.ofNat (n % 256)] = n % 256 := by
      simp [beNat]
    rw [toBE, beNat_append, ih, hlow, Nat.pow_succ, Nat.mul_comm (256 ^ width), Nat.mod_mul]
    simp only [List.length_cons, List.length_nil]
    omega

theorem beNat_toBE {width n : Nat} (h : n < 256 ^ width) : beNat (toBE width n) = n := by
  rw [beNat_toBE_mod, Nat.mod_eq_of_lt h]

/-- Take a value from the front of the input. -/
abbrev Parser := StateT (List UInt8) Option

namespace Parser

variable {α β : Type}

/-- The next `n` bytes. -/
def bytes (n : Nat) : Parser (List UInt8) := fun s =>
  if n ≤ s.length then some (s.take n, s.drop n) else none

/-- A big-endian number of `width` bytes. -/
def number (width : Nat) : Parser Nat := do
  let bs ← bytes width
  pure (beNat bs)

/-- `n` items. -/
def times (p : Parser α) : Nat → Parser (List α)
  | 0 => pure []
  | n + 1 => do
    let x ← p
    let xs ← times p n
    pure (x :: xs)

/-- Parse the whole input. -/
def whole (p : Parser α) (s : List UInt8) : Option α :=
  match p s with
  | some (a, []) => some a
  | _ => none

/-- Items until nothing is left, at most `fuel` of them. -/
def parseList (p : Parser α) : Nat → List UInt8 → Option (List α)
  | 0, s => if s = [] then some [] else none
  | fuel + 1, s =>
    if s = [] then some []
    else (p s).bind fun r => (parseList p fuel r.2).map (r.1 :: ·)

/-- `p` takes exactly `bs` and returns `a`. -/
def Reads (p : Parser α) (bs : List UInt8) (a : α) : Prop :=
  ∀ rest, p (bs ++ rest) = some (a, rest)

theorem Reads.pure (a : α) : Reads (Pure.pure a) [] a := fun _ => rfl

theorem Reads.bind {p : Parser α} {f : α → Parser β} {bs cs : List UInt8} {a : α} {b : β}
    (hp : Reads p bs a) (hf : Reads (f a) cs b) : Reads (p >>= f) (bs ++ cs) b := by
  intro rest
  have hp' := hp (cs ++ rest)
  rw [List.append_assoc]
  change (p (bs ++ (cs ++ rest))).bind (fun r => f r.1 r.2) = _
  rw [hp']
  exact hf rest

theorem reads_bytes (bs : List UInt8) : Reads (bytes bs.length) bs bs := by
  intro rest
  simp [bytes]

theorem reads_number_mod (width n : Nat) :
    Reads (number width) (toBE width n) (n % 256 ^ width) := by
  have hb := reads_bytes (toBE width n)
  rw [length_toBE] at hb
  have := hb.bind (f := fun bs => Pure.pure (beNat bs)) (.pure _)
  rwa [List.append_nil, beNat_toBE_mod] at this

theorem reads_number (width : Nat) {n : Nat} (h : n < 256 ^ width) :
    Reads (number width) (toBE width n) n := by
  have := reads_number_mod width n
  rwa [Nat.mod_eq_of_lt h] at this

theorem reads_times {p : Parser α} {enc : α → List UInt8} (xs : List α)
    (hp : ∀ x ∈ xs, Reads p (enc x) x) : Reads (times p xs.length) (xs.flatMap enc) xs := by
  induction xs with
  | nil => exact .pure []
  | cons x xs ih =>
    have hx := hp x List.mem_cons_self
    have hxs := ih fun y hy => hp y (List.mem_cons_of_mem _ hy)
    have := hx.bind (f := fun x => times p xs.length >>= fun xs => Pure.pure (x :: xs))
      (hxs.bind (.pure (x :: xs)))
    simpa [times] using this

theorem Reads.whole {p : Parser α} {bs : List UInt8} {a : α} (hp : Reads p bs a) :
    p.whole bs = some a := by
  have := hp []
  rw [List.append_nil] at this
  simp [Parser.whole, this]

/-- A sequence of messages, none of them empty, is read back. -/
theorem parseList_reads {p : Parser α} {enc : α → List UInt8} (xs : List α)
    (hp : ∀ x ∈ xs, Reads p (enc x) x) (hne : ∀ x ∈ xs, enc x ≠ []) {fuel : Nat}
    (hf : xs.length ≤ fuel) : parseList p fuel (xs.flatMap enc) = some xs := by
  induction xs generalizing fuel with
  | nil => cases fuel <;> rfl
  | cons x xs ih =>
    cases fuel with
    | zero => simp at hf
    | succ fuel =>
      have hx := hp x List.mem_cons_self (xs.flatMap enc)
      have hxs := ih (fun y hy => hp y (List.mem_cons_of_mem _ hy))
        (fun y hy => hne y (List.mem_cons_of_mem _ hy)) (by simpa using hf)
      have hcons : (x :: xs).flatMap enc ≠ [] := by
        simp [hne x List.mem_cons_self]
      rw [parseList, if_neg hcons, List.flatMap_cons, hx]
      simp [hxs]

end Parser

end Lib
