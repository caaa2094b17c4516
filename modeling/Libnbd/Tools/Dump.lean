import Libnbd.Copy.Extents
import Libnbd.Lib.Bytes

/-!
nbddump (`dump/dump.c`): reading the export piece by piece, leaving out what the
server says is zero, and printing lines of 16 bytes with repeated lines squashed.

A line is represented by its offset and its bytes. Calls that fail end the program
with an error message and are not part of the model. What the output stands for is
given by an expansion that puts the previously printed line wherever lines were squashed.

The output stands for the dumped range, except that the test for the first line looks
at the offset in the export: with `--offset` the first line is compared with a buffer
that was never written to. The other way to be wrong is the server's: lengths that
the extent callback is given in several calls are added up as if they followed each
other.
-/

namespace Libnbd.Tools

open Lib
open Copy (Entry Invocation baseAllocation stateZero)

/-! ## The program -/

/-- An export; `blockStatus offset count` are the calls of the extent callback. -/
structure Export where
  size : Nat
  size_lt : size < 2 ^ 63
  content : Mem
  canMetaContext : Bool
  blockStatus : Nat → Nat → List Invocation

def extentCallback (list : List Entry) (inv : Invocation) : List Entry :=
  if inv.metacontext != baseAllocation then list else list ++ inv.entries

/-- The loop over the entries; their lengths are added in 64 bits. -/
def allZeroes (count : Nat) : Nat → List Entry → Bool
  | countRead, [] => !decide (countRead < count)
  | countRead, e :: entries =>
    if e.flags &&& stateZero = 0 then false
    else allZeroes count ((countRead + e.length) % 2 ^ 64) entries

def testAllZeroes (E : Export) (offset count : Nat) : Bool :=
  E.canMetaContext &&
    allZeroes count 0 ((E.blockStatus offset count).foldl extentCallback [])

/-- `sizeof buffer`. -/
def bufferSize : Nat := 16 * 1024 * 1024

/-- The first `n` bytes of the buffer. -/
def readBuffer (E : Export) (offset n : Nat) : List UInt8 :=
  if testAllZeroes E offset n then List.replicate n 0 else E.content.read offset n

/-- Zeroes up to a multiple of 16 bytes. -/
def padBuffer (data : List UInt8) : List UInt8 :=
  if data.length % 16 ≠ 0 then data ++ List.replicate (16 - data.length % 16) 0 else data

inductive Item where
  | splat
  | line (offset : Nat) (bytes : List UInt8)
  deriving DecidableEq, Repr

structure DumpState where
  last : List UInt8
  printedSplat : Bool
  out : List Item
  deriving DecidableEq, Repr

/-- One line: `line` is compared, `bytes` are printed. -/
def dumpLine (size : Nat) (s : DumpState) (pos : Nat) (line bytes : List UInt8) : DumpState :=
  if pos > 0 ∧ pos + 16 < size ∧ line = s.last then
    { s with printedSplat := true, out := if s.printedSplat then s.out else s.out ++ [.splat] }
  else ⟨line, false, s.out ++ [.line pos bytes]⟩

/-- The loop over the lines in the buffer. -/
def dumpLines (size offset n : Nat) (buffer : List UInt8) (i : Nat) (s : DumpState) : DumpState :=
  if i < n then
    dumpLines size offset n buffer (i + 16)
      (dumpLine size s (offset + i) ((buffer.drop i).take 16)
        ((buffer.drop i).take (min (i + 16) n - i)))
  else s
  termination_by n - i

/-- The outer loop. -/
def dumpFrom (E : Export) (offset count : Nat) (s : DumpState) : DumpState :=
  if _h : count = 0 then s
  else
    dumpFrom E (offset + min count bufferSize) (count - min count bufferSize)
      (dumpLines E.size offset (min count bufferSize)
        (padBuffer (readBuffer E offset (min count bufferSize))) 0 s)
  termination_by count
  decreasing_by
    have : 0 < bufferSize := by decide
    omega

/-- The number of bytes to dump; the subtraction has 64 bits. -/
def dumpCount (E : Export) (skip limit : Nat) : Nat :=
  if (E.size + 2 ^ 64 - skip) % 2 ^ 64 > limit then limit else (E.size + 2 ^ 64 - skip) % 2 ^ 64

/-- `do_dump`, with whatever is in the buffer `last` at the start. -/
def doDump (E : Export) (last : List UInt8) (skip limit : Nat) : DumpState :=
  dumpFrom E skip (dumpCount E skip limit) ⟨last, false, []⟩

/-! ## What the output stands for -/

/-- A line again and again. -/
def repeatLine (line : List UInt8) (n : Nat) : List UInt8 :=
  (List.range n).map fun i => line.getD (i % line.length) 0

/-- Where the expansion of the output stands: how far it got, the line before, whether
lines were squashed since, and the bytes so far. -/
structure Expander where
  pos : Nat
  prev : Option (List UInt8)
  pending : Bool
  bytes : List UInt8
  deriving DecidableEq, Repr

/-- Put in the squashed lines up to a position. -/
def Expander.fill (r : Expander) (stop : Nat) : Option Expander :=
  if r.pending then
    match r.prev with
    | none => none
    | some line =>
      if r.pos ≤ stop then some ⟨stop, r.prev, false, r.bytes ++ repeatLine line (stop - r.pos)⟩
      else none
  else if r.pos = stop then some r
  else none

def Expander.item (r : Expander) : Item → Option Expander
  | .splat => some { r with pending := true }
  | .line offset bytes =>
    (r.fill offset).map fun r => ⟨offset + bytes.length, some bytes, false, r.bytes ++ bytes⟩

/-- The bytes from `start` to `stop`. -/
def expand (start stop : Nat) (out : List Item) : Option (List UInt8) :=
  (out.foldlM Expander.item ⟨start, none, false, []⟩).bind fun r => (r.fill stop).map (·.bytes)

/-- The first line is printed in full, and the output stands for the dumped range. -/
structure Lossless (E : Export) (last : List UInt8) (skip limit : Nat) : Prop where
  first : 0 < dumpCount E skip limit →
    (doDump E last skip limit).out.head? =
      some (.line skip (E.content.read skip (min 16 (dumpCount E skip limit))))
  expands : expand skip (skip + dumpCount E skip limit) (doDump E last skip limit).out =
    some (E.content.read skip (dumpCount E skip limit))

/-- A line with zeroes up to 16 bytes. -/
def padLine (bytes : List UInt8) : List UInt8 := bytes ++ List.replicate (16 - bytes.length) 0

/-- The first line is not taken for a repetition of what the buffer held before. -/
def FirstLineKept (E : Export) (last : List UInt8) (skip limit : Nat) : Prop :=
  dumpCount E skip limit = 0 ∨ skip = 0 ∨ E.size ≤ skip + 16 ∨
    padLine (E.content.read skip (min 16 (dumpCount E skip limit))) ≠ last

/-- What is taken for zero without being read is zero. -/
def ZeroesRight (E : Export) (skip count : Nat) : Prop :=
  ∀ k, k * bufferSize < count →
    testAllZeroes E (skip + k * bufferSize) (min (count - k * bufferSize) bufferSize) = true →
    ∀ i < min (count - k * bufferSize) bufferSize, E.content (skip + k * bufferSize + i) = 0

/-! ## Lines of the whole range -/

/-- The lines of a range, without the buffer in between. -/
def dumpData (size pos : Nat) (data : List UInt8) (s : DumpState) : DumpState :=
  if h : data = [] then s
  else
    dumpData size (pos + 16) (data.drop 16)
      (dumpLine size s pos (padLine (data.take 16)) (data.take 16))
  termination_by data.length
  decreasing_by
    have := List.length_pos_iff.mpr h
    rw [List.length_drop]
    omega

/-- The bytes that the outer loop sees. -/
def readAll (E : Export) (offset count : Nat) : List UInt8 :=
  if _h : count = 0 then []
  else
    readBuffer E offset (min count bufferSize) ++
      readAll E (offset + min count bufferSize) (count - min count bufferSize)
  termination_by count
  decreasing_by
    have : 0 < bufferSize := by decide
    omega

section

variable {E : Export} {size pos offset count : Nat} {data : List UInt8} {s : DumpState}

theorem length_readBuffer (E : Export) (offset n : Nat) : (readBuffer E offset n).length = n := by
  unfold readBuffer
  split <;> simp

theorem drop_padBuffer {i : Nat} (hi : i < data.length) :
    (padBuffer data).drop i =
      data.drop i ++ List.replicate ((16 - data.length % 16) % 16) 0 := by
  unfold padBuffer
  split
  · have hmod : (16 - data.length % 16) % 16 = 16 - data.length % 16 := by omega
    rw [List.drop_append_of_le_length (Nat.le_of_lt hi), hmod]
  · have hmod : (16 - data.length % 16) % 16 = 0 := by omega
    rw [hmod, List.replicate_zero, List.append_nil]

/-- The bytes of a line in the buffer. -/
theorem take_bytes {i : Nat} (hi : i < data.length) :
    ((padBuffer data).drop i).take (min (i + 16) data.length - i) = (data.drop i).take 16 := by
  rw [drop_padBuffer hi, List.take_append_of_le_length (by rw [List.length_drop]; omega)]
  apply List.take_eq_take_iff.mpr
  rw [List.length_drop]
  omega

/-- A line in the buffer is padded only at the end of the data. -/
theorem take_line {i : Nat} (hi : i < data.length) (hmod : i % 16 = 0) :
    ((padBuffer data).drop i).take 16 = padLine ((data.drop i).take 16) := by
  rw [drop_padBuffer hi]
  unfold padLine
  by_cases hfull : i + 16 ≤ data.length
  · have hlen : ((data.drop i).take 16).length = 16 := by
      rw [List.length_take, List.length_drop]
      omega
    rw [List.take_append_of_le_length (by rw [List.length_drop]; omega), hlen]
    simp
  · have hshort : (data.drop i).take 16 = data.drop i := by
      rw [List.take_of_length_le]
      rw [List.length_drop]
      omega
    have hpad : (16 - data.length % 16) % 16 = 16 - (data.drop i).length := by
      rw [List.length_drop]
      omega
    rw [hshort, hpad, List.take_of_length_le]
    rw [List.length_append, List.length_replicate]
    omega

/-- The loop over the buffer, from any line on. -/
theorem dumpLines_eq {i : Nat} (hmod : i % 16 = 0) (s : DumpState) :
    dumpLines size offset data.length (padBuffer data) i s =
      dumpData size (offset + i) (data.drop i) s := by
  rw [dumpLines, dumpData]
  by_cases hi : i < data.length
  · have hne : data.drop i ≠ [] := by
      rw [ne_eq, List.drop_eq_nil_iff]
      omega
    rw [if_pos hi, dif_neg hne, take_bytes hi, take_line hi hmod, List.drop_drop, Nat.add_assoc]
    exact dumpLines_eq (by omega) _
  · have hnil : data.drop i = [] := List.drop_eq_nil_of_le (by omega)
    rw [if_neg hi, dif_pos hnil]
  termination_by data.length - i

theorem dumpData_append (size pos : Nat) {a b : List UInt8} (hmod : a.length % 16 = 0)
    (s : DumpState) :
    dumpData size pos (a ++ b) s = dumpData size (pos + a.length) b (dumpData size pos a s) := by
  by_cases ha : a = []
  · subst ha
    rw [List.nil_append, List.length_nil, Nat.add_zero]
    congr 1
    rw [dumpData, dif_pos rfl]
  · have hpos := List.length_pos_iff.mpr ha
    have hlt : (a.drop 16).length < a.length := by
      rw [List.length_drop]
      omega
    have hne : a ++ b ≠ [] := fun h => ha (List.append_eq_nil_iff.mp h).1
    rw [dumpData, dif_neg hne, dumpData.eq_1 size pos a, dif_neg ha,
      List.take_append_of_le_length (by omega), List.drop_append_of_le_length (by omega)]
    rw [dumpData_append size (pos + 16) (by rw [List.length_drop]; omega), List.length_drop]
    congr 1
    omega
  termination_by a.length

/-- The pieces that are read follow each other without a trace. -/
theorem dumpFrom_eq (E : Export) (offset count : Nat) (s : DumpState) :
    dumpFrom E offset count s = dumpData E.size offset (readAll E offset count) s := by
  rw [dumpFrom, readAll]
  by_cases hc : count = 0
  · rw [dif_pos hc, dif_pos hc, dumpData, dif_pos rfl]
  · have hbuf : bufferSize % 16 = 0 := by decide
    have hpos : 0 < bufferSize := by decide
    rw [dif_neg hc, dif_neg hc, dumpFrom_eq]
    have hlines := @dumpLines_eq E.size offset (readBuffer E offset (min count bufferSize)) 0 rfl s
    rw [length_readBuffer, List.drop_zero, Nat.add_zero] at hlines
    rw [hlines]
    by_cases hlast : count ≤ bufferSize
    · have hzero : count - min count bufferSize = 0 := by omega
      have hnil : ∀ o, readAll E o 0 = [] := by
        intro o
        rw [readAll, dif_pos rfl]
      rw [hzero, hnil, List.append_nil, dumpData, dif_pos rfl]
    · rw [dumpData_append _ _ (by rw [length_readBuffer]; omega), length_readBuffer]
  termination_by count
  decreasing_by
    have : 0 < bufferSize := by decide
    omega

theorem length_readAll (E : Export) (offset count : Nat) : (readAll E offset count).length = count := by
  rw [readAll]
  by_cases hc : count = 0
  · rw [dif_pos hc, hc]
    rfl
  · have hlt : count - min count bufferSize < count := by
      have : 0 < bufferSize := by decide
      omega
    rw [dif_neg hc, List.length_append, length_readBuffer, length_readAll]
    omega
  termination_by count

/-! ## Expanding -/

theorem padLine_eq_self {bytes : List UInt8} (h : bytes.length = 16) : padLine bytes = bytes := by
  unfold padLine
  rw [h, Nat.sub_self, List.replicate_zero, List.append_nil]

theorem take_padLine (bytes : List UInt8) : (padLine bytes).take bytes.length = bytes := by
  unfold padLine
  rw [List.take_append_of_le_length (Nat.le_refl _), List.take_length]

theorem length_padLine {bytes : List UInt8} (h : bytes.length ≤ 16) :
    (padLine bytes).length = 16 := by
  unfold padLine
  rw [List.length_append, List.length_replicate]
  omega

/-- A further line, or part of one. -/
theorem repeatLine_add {line : List UInt8} {n m : Nat} (hlen : line.length = 16)
    (hn : n % 16 = 0) (hm : m ≤ 16) :
    repeatLine line (n + m) = repeatLine line n ++ line.take m := by
  unfold repeatLine
  rw [List.range_add, List.map_append, List.map_map]
  congr 1
  apply List.ext_getElem
  · rw [List.length_map, List.length_range, List.length_take]
    omega
  · intro i hi _
    rw [List.length_map, List.length_range] at hi
    have hidx : (n + i) % line.length = i := by
      rw [hlen]
      omega
    simp only [List.getElem_map, List.getElem_range, Function.comp_apply, List.getElem_take, hidx]
    exact List.getD_eq_getElem _ _ (by omega)

/-- Where the expansion stands when the program has come to `pos`: at a line that was
printed, or behind it with squashed lines in between. `more` tells whether lines
follow, which only a full line can be followed by. -/
inductive Follows (last : List UInt8) (pos : Nat) (done : List UInt8) (more : Prop) :
    Bool → Expander → Prop
  | line {bytes : List UInt8} (hlast : padLine bytes = last) (hfull : more → bytes.length = 16) :
    Follows last pos done more false ⟨pos, some bytes, false, done⟩
  | splat {p : Nat} {bytes : List UInt8} (hlen : last.length = 16) (hle : p ≤ pos)
    (hmod : more → (pos - p) % 16 = 0) (hdone : bytes ++ repeatLine last (pos - p) = done) :
    Follows last pos done more true ⟨p, some last, true, bytes⟩

section

variable {last done : List UInt8} {pos : Nat} {more : Prop} {printed : Bool} {r : Expander}
  {out : List Item} {e₀ : Expander}

theorem Follows.fill (h : Follows last pos done more printed r) :
    ∃ prev, r.fill pos = some ⟨pos, prev, false, done⟩ := by
  cases h with
  | line hlast hfull =>
    rename_i bytes
    exact ⟨some bytes, by simp [Expander.fill]⟩
  | splat hlen hle hmod hdone => exact ⟨some last, by simp [Expander.fill, hle, hdone]⟩

/-- One more item at the end of the output. -/
theorem foldlM_item (h : out.foldlM Expander.item e₀ = some r) (x : Item) :
    (out ++ [x]).foldlM Expander.item e₀ = r.item x := by
  rw [List.foldlM_append, h]
  change (r.item x).bind some = _
  cases r.item x <;> rfl

/-- A line is printed. -/
theorem Follows.print (h : Follows last pos done more printed r)
    (hout : out.foldlM Expander.item e₀ = some r) (bytes : List UInt8) (more' : Prop)
    (hfull : more' → bytes.length = 16) :
    ∃ r', (out ++ [Item.line pos bytes]).foldlM Expander.item e₀ = some r' ∧
      Follows (padLine bytes) (pos + bytes.length) (done ++ bytes) more' false r' := by
  obtain ⟨prev, hfill⟩ := h.fill
  refine ⟨⟨pos + bytes.length, some bytes, false, done ++ bytes⟩, ?_, .line rfl hfull⟩
  rw [foldlM_item hout]
  simp only [Expander.item, hfill, Option.map_some]

/-- A line is squashed. -/
theorem Follows.squash (h : Follows last pos done True printed r)
    (hout : out.foldlM Expander.item e₀ = some r) {bytes : List UInt8} (hsame : padLine bytes = last)
    (hle : bytes.length ≤ 16) (more' : Prop) (hfull : more' → bytes.length = 16) :
    ∃ r', (if printed then out else out ++ [Item.splat]).foldlM Expander.item e₀ = some r' ∧
      Follows last (pos + bytes.length) (done ++ bytes) more' true r' := by
  have hbytes : last.take bytes.length = bytes := by rw [← hsame, take_padLine]
  have hlen : last.length = 16 := by rw [← hsame, length_padLine hle]
  cases h with
  | line hlast hprev =>
    rename_i prev
    have heq : prev = last := by rw [← hlast, padLine_eq_self (hprev trivial)]
    subst heq
    refine ⟨⟨pos, some prev, true, done⟩, ?_, .splat hlen (Nat.le_add_right _ _) ?_ ?_⟩
    · rw [if_neg (by simp), foldlM_item hout]
      rfl
    · intro hm
      have := hfull hm
      omega
    · have hone := @repeatLine_add prev 0 bytes.length hlen rfl hle
      rw [Nat.zero_add, hbytes] at hone
      rw [Nat.add_sub_cancel_left, hone]
      rfl
  | splat hlen' hpos hmod hdone =>
    rename_i p b
    have hm0 := hmod trivial
    refine ⟨_, by rw [if_pos rfl]; exact hout, .splat hlen (by omega) ?_ ?_⟩
    · intro hm
      have := hfull hm
      omega
    · rw [show pos + bytes.length - p = pos - p + bytes.length by omega,
        repeatLine_add hlen hm0 hle, hbytes, ← List.append_assoc, hdone]

theorem Follows.mono {more' : Prop} (h : Follows last pos done more printed r)
    (himp : more' → more) : Follows last pos done more' printed r := by
  cases h with
  | line hlast hfull => exact .line hlast fun hm => hfull (himp hm)
  | splat hlen hle hmod hdone => exact .splat hlen hle (fun hm => hmod (himp hm)) hdone

end

/-- Step of the loop: the expansion follows the program over one line. -/
theorem dumpLine_follows {size pos : Nat} {s : DumpState} {done bytes : List UInt8} {r : Expander}
    {e₀ : Expander} (h : Follows s.last pos done True s.printedSplat r)
    (hout : s.out.foldlM Expander.item e₀ = some r) (hle : bytes.length ≤ 16) (more' : Prop)
    (hfull : more' → bytes.length = 16) :
    ∃ r', (dumpLine size s pos (padLine bytes) bytes).out.foldlM Expander.item e₀ = some r' ∧
      Follows (dumpLine size s pos (padLine bytes) bytes).last (pos + bytes.length)
        (done ++ bytes) more' (dumpLine size s pos (padLine bytes) bytes).printedSplat r' := by
  unfold dumpLine
  split
  · rename_i hsame
    exact h.squash hout hsame.2.2 hle more' hfull
  · exact h.print hout bytes more' hfull

/-- Run of the loop: at the end the expansion has all bytes. -/
theorem dumpData_follows {size pos : Nat} {data : List UInt8} {s : DumpState} {done : List UInt8}
    {r : Expander} {e₀ : Expander} (h : Follows s.last pos done (data ≠ []) s.printedSplat r)
    (hout : s.out.foldlM Expander.item e₀ = some r) :
    ((dumpData size pos data s).out.foldlM Expander.item e₀).bind
      (fun r => (r.fill (pos + data.length)).map (·.bytes)) = some (done ++ data) := by
  rw [dumpData]
  by_cases hne : data = []
  · rw [dif_pos hne, hne, hout]
    obtain ⟨prev, hfill⟩ := h.fill
    change (r.fill (pos + 0)).map (·.bytes) = _
    rw [Nat.add_zero, hfill, List.append_nil]
    rfl
  · rw [dif_neg hne]
    have hpos := List.length_pos_iff.mpr hne
    have hlen : (data.take 16).length = min 16 data.length := List.length_take
    have hfull : data.drop 16 ≠ [] → (data.take 16).length = 16 := by
      intro hd
      have := mt List.drop_eq_nil_of_le hd
      omega
    obtain ⟨r', hout', h'⟩ := @dumpLine_follows size pos s done (data.take 16) r e₀
      (h.mono fun _ => hne) hout (by omega) (data.drop 16 ≠ []) hfull
    by_cases hrest : data.drop 16 = []
    · -- this was the last line
      have hall : data.take 16 = data := by
        rw [List.take_of_length_le]
        have := List.drop_eq_nil_iff.mp hrest
        omega
      obtain ⟨prev, hfill⟩ := h'.fill
      rw [hall] at hfill
      rw [hrest, dumpData, dif_pos rfl, hout']
      change (r'.fill (pos + data.length)).map (·.bytes) = _
      rw [hfill]
      rfl
    · have h16 := hfull hrest
      have hlt : (data.drop 16).length < data.length := by
        rw [List.length_drop]
        omega
      rw [h16] at h'
      have hrun := @dumpData_follows size (pos + 16) (data.drop 16) _ _ r' e₀ h' hout'
      rw [List.length_drop, show pos + 16 + (data.length - 16) = pos + data.length by omega,
        List.append_assoc, List.take_append_drop] at hrun
      exact hrun
  termination_by data.length

/-- Nothing that was printed is taken back. -/
theorem dumpData_extends (size pos : Nat) (data : List UInt8) (s : DumpState) :
    s.out <+: (dumpData size pos data s).out := by
  rw [dumpData]
  by_cases hne : data = []
  · simp only [hne, dite_true, List.prefix_refl]
  · rw [dif_neg hne]
    have hlt : (data.drop 16).length < data.length := by
      have := List.length_pos_iff.mpr hne
      rw [List.length_drop]
      omega
    refine List.IsPrefix.trans ?_ (dumpData_extends size (pos + 16) (data.drop 16) _)
    unfold dumpLine
    split
    · dsimp only
      split
      · exact ⟨[], List.append_nil _⟩
      · exact List.prefix_append _ _
    · exact List.prefix_append _ _
  termination_by data.length

end

/-! ## Zeroes -/

theorem read_add (m : Mem) (pos a b : Nat) :
    m.read pos (a + b) = m.read pos a ++ m.read (pos + a) b := by
  unfold Mem.read
  rw [List.range_add, List.map_append, List.map_map]
  congr 1
  apply List.map_congr_left
  intro i _
  rw [Function.comp_apply, Nat.add_assoc]

theorem take_read (m : Mem) (pos a b : Nat) : (m.read pos a).take b = m.read pos (min b a) := by
  unfold Mem.read
  rw [← List.map_take, List.take_range]

/-- A buffer holds the content unless something was wrongly taken for zero. -/
theorem readBuffer_eq_iff {E : Export} {offset n : Nat} :
    readBuffer E offset n = E.content.read offset n ↔
      (testAllZeroes E offset n = true → ∀ i < n, E.content (offset + i) = 0) := by
  unfold readBuffer
  cases testAllZeroes E offset n with
  | false => simp
  | true =>
    simp only [if_true, forall_const, Mem.read]
    constructor
    · intro h i hi
      have hget := congrArg (fun l => l[i]?) h
      simpa [hi] using hget.symm
    · intro h
      apply List.ext_getElem
      · simp
      · intro i hi _
        rw [List.length_replicate] at hi
        simp [h i hi]

/-- The first piece and the others. -/
theorem zeroesRight_iff {E : Export} {offset count : Nat} (hc : count ≠ 0) :
    ZeroesRight E offset count ↔
      (testAllZeroes E offset (min count bufferSize) = true →
        ∀ i < min count bufferSize, E.content (offset + i) = 0) ∧
      ZeroesRight E (offset + min count bufferSize) (count - min count bufferSize) := by
  have hpos : 0 < bufferSize := by decide
  constructor
  · intro h
    refine ⟨?_, fun k hk => ?_⟩
    · have h₀ := h 0 (by omega)
      simpa only [Nat.zero_mul, Nat.add_zero, Nat.sub_zero] using h₀
    · have hbig : min count bufferSize = bufferSize := by omega
      rw [hbig] at hk ⊢
      have h₁ := h (k + 1) (by rw [Nat.succ_mul]; omega)
      rw [Nat.succ_mul, Nat.add_comm (k * bufferSize), ← Nat.add_assoc, ← Nat.sub_sub] at h₁
      exact h₁
  · rintro ⟨hfirst, hrest⟩ k hk
    cases k with
    | zero => simpa only [Nat.zero_mul, Nat.add_zero, Nat.sub_zero] using hfirst
    | succ k =>
      rw [Nat.succ_mul] at hk
      have hbig : min count bufferSize = bufferSize := by omega
      rw [hbig] at hrest
      have h₁ := hrest k (by omega)
      rw [Nat.succ_mul, Nat.add_comm (k * bufferSize), ← Nat.add_assoc, ← Nat.sub_sub]
      exact h₁

theorem readAll_eq_iff (E : Export) (offset count : Nat) :
    readAll E offset count = E.content.read offset count ↔ ZeroesRight E offset count := by
  rw [readAll]
  by_cases hc : count = 0
  · rw [dif_pos hc, hc]
    refine iff_of_true rfl fun k hk => ?_
    exact absurd hk (Nat.not_lt_zero _)
  · have hlt : count - min count bufferSize < count := by
      have : 0 < bufferSize := by decide
      omega
    have hsplit : E.content.read offset count =
        E.content.read offset (min count bufferSize) ++
          E.content.read (offset + min count bufferSize) (count - min count bufferSize) := by
      rw [← read_add]
      congr 1
      omega
    rw [dif_neg hc, hsplit, zeroesRight_iff hc, ← readBuffer_eq_iff, ← readAll_eq_iff]
    constructor
    · intro h
      exact List.append_inj h (by rw [length_readBuffer, Mem.length_read])
    · rintro ⟨h₁, h₂⟩
      rw [h₁, h₂]
  termination_by count

/-- Entries that describe the content from a position on. -/
def Truthful (E : Export) : Nat → List Entry → Prop
  | _, [] => True
  | pos, e :: entries =>
    (e.flags &&& stateZero ≠ 0 → ∀ i < e.length, E.content (pos + i) = 0) ∧
      Truthful E (pos + e.length) entries

theorem content_zero_of_allZeroes {E : Export} {count pos countRead : Nat} {entries : List Entry}
    (ht : Truthful E pos entries) (h : allZeroes count countRead entries = true) :
    ∀ i, countRead + i < count → E.content (pos + i) = 0 := by
  induction entries generalizing pos countRead with
  | nil =>
    intro i hi
    simp only [allZeroes, Bool.not_eq_true', decide_eq_false_iff_not] at h
    omega
  | cons e entries ih =>
    simp only [allZeroes] at h
    split at h
    · cases h
    rename_i hzero
    intro i hi
    by_cases hin : i < e.length
    · exact ht.1 hzero i hin
    · have hmod : (countRead + e.length) % 2 ^ 64 ≤ countRead + e.length := Nat.mod_le _ _
      have hnext := ih ht.2 h (i - e.length) (by omega)
      rwa [show pos + e.length + (i - e.length) = pos + i by omega] at hnext

/-- If everything that the callback is given for a request follows each other and is
true, then nothing is wrongly taken for zero. -/
theorem zeroesRight_of_truthful {E : Export} (skip count : Nat)
    (ht : ∀ offset n, Truthful E offset ((E.blockStatus offset n).foldl extentCallback [])) :
    ZeroesRight E skip count := by
  intro k _ hzero i hi
  unfold testAllZeroes at hzero
  rw [Bool.and_eq_true] at hzero
  exact content_zero_of_allZeroes (ht _ _) hzero.2 i (by omega)

/-- The loop over the entries succeeds if all of them are zero and long enough together. -/
theorem allZeroes_iff {count countRead : Nat} (es : List Entry) (hr : countRead < 2 ^ 64) :
    allZeroes count countRead es = true ↔
      (∀ e ∈ es, e.flags &&& stateZero ≠ 0) ∧ count ≤ (countRead + (es.map Entry.length).sum) % 2 ^ 64 := by
  induction es generalizing countRead with
  | nil =>
    rw [List.map_nil, List.sum_nil, Nat.add_zero, Nat.mod_eq_of_lt hr]
    simp [allZeroes]
  | cons e es ih =>
    rw [allZeroes, List.forall_mem_cons, List.map_cons, List.sum_cons]
    split
    · next hdata => simp [hdata]
    · next hzero =>
      rw [ih (Nat.mod_lt _ (by decide)), Nat.mod_add_mod, Nat.add_assoc]
      simp only [ne_eq, hzero, not_false_eq_true, true_and]

/-- The condition on the extents of the replies. -/
theorem zeroesRight_iff_extents {E : Export} {skip count : Nat} : ZeroesRight E skip count ↔
    ∀ k, k * bufferSize < count → ∀ offset n es, offset = skip + k * bufferSize →
      n = min (count - k * bufferSize) bufferSize →
      es = (E.blockStatus offset n).foldl extentCallback [] → E.canMetaContext = true →
      (∀ e ∈ es, e.flags &&& stateZero ≠ 0) → n ≤ (es.map Entry.length).sum % 2 ^ 64 →
      ∀ i < n, E.content (offset + i) = 0 := by
  unfold ZeroesRight testAllZeroes
  simp only [Bool.and_eq_true, allZeroes_iff _ (show 0 < 2 ^ 64 by decide), Nat.zero_add]
  constructor
  · rintro h k hk offset n es rfl rfl rfl hcan hall hlen
    exact h k hk ⟨hcan, hall, hlen⟩
  · rintro h k hk ⟨hcan, hall, hlen⟩
    exact h k hk _ _ _ rfl rfl rfl hcan hall hlen

/-! ## The result -/

section

variable {size skip : Nat} {last data : List UInt8}

/-- The test that the first line goes through. -/
def FirstSquashed (size skip : Nat) (last line : List UInt8) : Prop :=
  skip > 0 ∧ skip + 16 < size ∧ padLine line = last

/-- The first line is left out. -/
theorem dumpData_squashed (hne : data ≠ []) (h : FirstSquashed size skip last (data.take 16)) :
    (dumpData size skip data ⟨last, false, []⟩).out.head? = some .splat := by
  have hline : dumpLine size ⟨last, false, []⟩ skip (padLine (data.take 16)) (data.take 16) =
      ⟨last, true, [.splat]⟩ := if_pos h
  rw [dumpData, dif_neg hne, hline]
  obtain ⟨rest, hrest⟩ := dumpData_extends size (skip + 16) (data.drop 16) ⟨last, true, [.splat]⟩
  rw [← hrest]
  rfl

/-- The first line is printed. -/
theorem dumpLine_first (h : ¬ FirstSquashed size skip last (data.take 16)) :
    dumpLine size ⟨last, false, []⟩ skip (padLine (data.take 16)) (data.take 16) =
      ⟨padLine (data.take 16), false, [.line skip (data.take 16)]⟩ := if_neg h

theorem dumpData_head (hne : data ≠ []) (h : ¬ FirstSquashed size skip last (data.take 16)) :
    (dumpData size skip data ⟨last, false, []⟩).out.head? = some (.line skip (data.take 16)) := by
  rw [dumpData, dif_neg hne, dumpLine_first h]
  obtain ⟨rest, hrest⟩ := dumpData_extends size (skip + 16) (data.drop 16)
    ⟨padLine (data.take 16), false, [.line skip (data.take 16)]⟩
  rw [← hrest]
  rfl

theorem dumpData_expand (hne : data ≠ []) (h : ¬ FirstSquashed size skip last (data.take 16)) :
    expand skip (skip + data.length) (dumpData size skip data ⟨last, false, []⟩).out =
      some data := by
  have hfull : data.drop 16 ≠ [] → (data.take 16).length = 16 := by
    intro hd
    have := mt List.drop_eq_nil_of_le hd
    rw [List.length_take]
    omega
  have hprint : [Item.line skip (data.take 16)].foldlM Expander.item ⟨skip, none, false, []⟩ =
      some ⟨skip + (data.take 16).length, some (data.take 16), false, data.take 16⟩ := by
    simp [Expander.item, Expander.fill]
  have hfollows : Follows (padLine (data.take 16)) (skip + (data.take 16).length)
      (data.take 16) (data.drop 16 ≠ []) false
      ⟨skip + (data.take 16).length, some (data.take 16), false, data.take 16⟩ := .line rfl hfull
  rw [dumpData, dif_neg hne, dumpLine_first h]
  unfold expand
  by_cases hrest : data.drop 16 = []
  · -- a single line
    have hall : data.take 16 = data := List.take_of_length_le (List.drop_eq_nil_iff.mp hrest)
    obtain ⟨prev, hfill⟩ := hfollows.fill
    rw [hrest, dumpData, dif_pos rfl, hprint]
    rw [hall] at hfill ⊢
    exact congrArg (Option.map (·.bytes)) hfill
  · have h16 := hfull hrest
    rw [h16] at hfollows hprint
    have hrun := @dumpData_follows size (skip + 16) (data.drop 16)
      ⟨padLine (data.take 16), false, [.line skip (data.take 16)]⟩ _ _ _ hfollows hprint
    have hlen : skip + 16 + (data.drop 16).length = skip + data.length := by
      have := mt List.drop_eq_nil_of_le hrest
      rw [List.length_drop]
      omega
    rw [hlen, List.take_append_drop] at hrun
    exact hrun

end

theorem lossless_of_empty {E : Export} {last : List UInt8} {skip limit : Nat}
    (hzero : dumpCount E skip limit = 0) : Lossless E last skip limit := by
  have hout : doDump E last skip limit = ⟨last, false, []⟩ := by
    rw [doDump, hzero, dumpFrom, dif_pos rfl]
  refine ⟨fun h => absurd h (by omega), ?_⟩
  rw [hout, hzero]
  simp [expand, Expander.fill, Mem.read]

/-- **nbddump loses nothing** exactly if the first line is not taken for a repetition
of what the buffer `last` held before, and what is taken for zero is zero. -/
theorem nbddump_lossless_iff (E : Export) (last : List UInt8) (skip limit : Nat) :
    Lossless E last skip limit ↔
      FirstLineKept E last skip limit ∧ ZeroesRight E skip (dumpCount E skip limit) := by
  by_cases hzero : dumpCount E skip limit = 0
  · refine iff_of_true (lossless_of_empty hzero) ⟨.inl hzero, fun k hk => ?_⟩
    omega
  have hdump : doDump E last skip limit =
      dumpData E.size skip (readAll E skip (dumpCount E skip limit)) ⟨last, false, []⟩ := by
    rw [doDump, dumpFrom_eq]
  have hlen := length_readAll E skip (dumpCount E skip limit)
  rw [← readAll_eq_iff]
  generalize readAll E skip (dumpCount E skip limit) = data at hdump hlen
  have hne : data ≠ [] := by
    rintro rfl
    exact hzero hlen.symm
  by_cases hsame : FirstSquashed E.size skip last (data.take 16)
  · refine iff_of_false (fun h => ?_) ?_
    · have hfirst := h.first (Nat.pos_of_ne_zero hzero)
      rw [hdump, dumpData_squashed hne hsame] at hfirst
      cases hfirst
    · rintro ⟨hkept, heq⟩
      rw [heq, take_read] at hsame
      obtain ⟨h₁, h₂, h₃⟩ := hsame
      rcases hkept with h | h | h | h
      · exact hzero h
      · omega
      · omega
      · exact h h₃
  · have hexpand := dumpData_expand hne hsame
    rw [← hdump, hlen] at hexpand
    constructor
    · intro h
      have heq : data = E.content.read skip (dumpCount E skip limit) :=
        Option.some.inj (hexpand.symm.trans h.expands)
      refine ⟨?_, heq⟩
      rw [heq, take_read] at hsame
      by_contra hno
      apply hsame
      unfold FirstLineKept at hno
      push Not at hno
      exact ⟨by omega, by omega, hno.2.2.2⟩
    · rintro ⟨-, heq⟩
      refine ⟨fun _ => ?_, by rw [hexpand, heq]⟩
      rw [hdump, dumpData_head hne hsame, heq, take_read]

/-- 64 times the letter A. -/
def uniformExport : Export where
  size := 64
  size_lt := by decide
  content _ := 0x41
  canMetaContext := false
  blockStatus _ _ := []

/-- 16 zeroes and 16 times the letter A. Of the zeroes the server tells twice. -/
def repeatingExport : Export where
  size := 32
  size_lt := by decide
  content a := if a < 16 then 0 else 0x41
  canMetaContext := true
  blockStatus _ _ := [⟨baseAllocation, [⟨16, stateZero⟩], 0⟩, ⟨baseAllocation, [⟨16, stateZero⟩], 0⟩]

/-- The first line is missing if the same bytes were on the stack, and the letters if the
server repeats itself. -/
theorem first_line_missing :
    (doDump uniformExport (List.replicate 16 0x41) 16 (2 ^ 64 - 1)).out =
      [.splat, .line 48 (List.replicate 16 0x41)] ∧
    ¬ Lossless uniformExport (List.replicate 16 0x41) 16 (2 ^ 64 - 1) ∧
    (doDump repeatingExport (List.replicate 16 0) 0 (2 ^ 64 - 1)).out =
      [.line 0 (List.replicate 16 0), .line 16 (List.replicate 16 0)] ∧
    ¬ Lossless repeatingExport (List.replicate 16 0) 0 (2 ^ 64 - 1) := by
  have hcount : dumpCount uniformExport 16 (2 ^ 64 - 1) = 48 := by decide +kernel
  have hcount' : dumpCount repeatingExport 0 (2 ^ 64 - 1) = 32 := by decide +kernel
  have hout : (doDump uniformExport (List.replicate 16 0x41) 16 (2 ^ 64 - 1)).out =
      [.splat, .line 48 (List.replicate 16 0x41)] := by decide +kernel
  have hout' : (doDump repeatingExport (List.replicate 16 0) 0 (2 ^ 64 - 1)).out =
      [.line 0 (List.replicate 16 0), .line 16 (List.replicate 16 0)] := by decide +kernel
  refine ⟨hout, fun h => ?_, hout', fun h => ?_⟩
  · have hfirst := h.first (by rw [hcount]; decide)
    rw [hout] at hfirst
    cases hfirst
  · have hexp := h.expands
    rw [hout', hcount'] at hexp
    exact absurd hexp (by decide +kernel)

end Libnbd.Tools
