import Libnbd.Protocol
import Libnbd.Lib.System
import Mathlib.Data.Nat.Find

/-!
Reading and zeroing local files in nbdcopy (`copy/file-ops.c`).

The kernel is a parameter of each call: what `pread` returns, and whether `fallocate`
and `ioctl` succeed. All the optional system calls are compiled in (Linux).
-/

namespace Libnbd.Copy

open Lib

/-! ## Reading -/

/-- One call of `pread`: its return value (`none` is -1), and the file as the call
finds it. -/
structure Pread where
  ret : Option Nat
  file : Nat → UInt8

/-- How a read ends: with `exit`, or with a return value and the buffer, in which
`none` is a byte that nothing has written. -/
inductive SynchRead where
  | exit
  | ret (n : Nat) (buf : Nat → Option UInt8)

/-- Store `r` bytes of the file at `offset` in the buffer at `data`. -/
def fill (buf : Nat → Option UInt8) (data r : Nat) (file : Nat → UInt8) (offset : Nat) :
    Nat → Option UInt8 :=
  fun k => if data ≤ k ∧ k < data + r then some (file (offset + (k - data))) else buf k

/-- The loop of `file_synch_read`, from the `i`th `pread` on. -/
def synchReadFrom (kernel : Nat → Pread) :
    Nat → Nat → (Nat → Option UInt8) → Nat → Nat → Nat → Nat → Option SynchRead
  | 0, _, _, _, _, _, _ => none
  | fuel + 1, i, buf, data, len, offset, n =>
    if len = 0 then some (.ret n buf)
    else
      match (kernel i).ret with
      | none => some .exit
      | some r =>
        -- `pread` returns at most `len`
        let r := min r len
        if r = 0 then some (.ret n buf)
        else
          synchReadFrom kernel fuel (i + 1) (fill buf data r (kernel i).file offset) (data + r)
            (len - r) (offset + r) (n + r)

/-- `file_synch_read` into a buffer that has just been allocated. -/
def fileSynchRead (kernel : Nat → Pread) (fuel len offset : Nat) : Option SynchRead :=
  synchReadFrom kernel fuel 0 (fun _ => none) 0 len offset 0

/-- What the completion callback of `file_asynch_read` sees. -/
inductive AsynchRead where
  | exit
  | callback (error : UInt32) (buf : Nat → Option UInt8)

def fileAsynchRead (kernel : Nat → Pread) (fuel len offset : Nat) : Option AsynchRead :=
  (fileSynchRead kernel fuel len offset).map fun
    | .exit => .exit
    | .ret _ buf => .callback 0 buf

/-- If the callback is told of no error, every byte of the slice has come from the file,
from its own offset. -/
def AsynchRead.Complete (kernel : Nat → Pread) (len offset : Nat) : AsynchRead → Prop
  | .exit => True
  | .callback error buf => error = 0 → ∀ k < len, ∃ i, buf k = some ((kernel i).file (offset + k))

/-- Bytes read by the first `i` calls. -/
def readSoFar (kernel : Nat → Pread) (len : Nat) : Nat → Nat
  | 0 => 0
  | i + 1 => readSoFar kernel len i + min ((kernel i).ret.getD 0) (len - readSoFar kernel len i)

/-- The file ends early: a `pread` returns 0 although bytes are missing. -/
def EndsEarly (kernel : Nat → Pread) (len : Nat) : Prop :=
  ∃ i, (∀ j < i, ∃ r, (kernel j).ret = some r ∧ 0 < r) ∧ readSoFar kernel len i < len ∧
    (kernel i).ret = some 0

section Read

variable {kernel : Nat → Pread} {len offset : Nat}

/-- The buffer when `m` bytes have been read. -/
def FilledTo (kernel : Nat → Pread) (offset m : Nat) (buf : Nat → Option UInt8) : Prop :=
  (∀ k < m, ∃ i, buf k = some ((kernel i).file (offset + k))) ∧ ∀ k, m ≤ k → buf k = none

theorem FilledTo.fill {m r i : Nat} {buf : Nat → Option UInt8} (h : FilledTo kernel offset m buf) :
    FilledTo kernel offset (m + r) (Copy.fill buf m r (kernel i).file (offset + m)) := by
  refine ⟨fun k hk => ?_, fun k hk => ?_⟩
  · unfold Copy.fill
    by_cases hm : m ≤ k
    · exact ⟨i, by rw [if_pos ⟨hm, hk⟩, show offset + m + (k - m) = offset + k by omega]⟩
    · rw [if_neg (by omega)]
      exact h.1 k (by omega)
  · unfold Copy.fill
    rw [if_neg (by omega)]
    exact h.2 k (by omega)

theorem readSoFar_le (i : Nat) : readSoFar kernel len i ≤ len := by
  induction i with
  | zero => exact Nat.zero_le _
  | succ i ih =>
    rw [readSoFar]
    omega

/-- The `i`th call is made and reads something. -/
def ReadsOn (kernel : Nat → Pread) (len i : Nat) : Prop :=
  readSoFar kernel len i < len ∧ ∃ r, (kernel i).ret = some r ∧ 0 < r

theorem readSoFar_mono {i j : Nat} (h : i ≤ j) : readSoFar kernel len i ≤ readSoFar kernel len j := by
  induction h with
  | refl => exact Nat.le_refl _
  | step _ ih => exact Nat.le_trans ih (Nat.le_add_right _ _)

theorem readSoFar_grows {i : Nat} (h : ∀ j < i, ReadsOn kernel len j) :
    i ≤ readSoFar kernel len i := by
  induction i with
  | zero => exact Nat.zero_le _
  | succ i ih =>
    have hrec := ih fun j hj => h j (Nat.lt_succ_of_lt hj)
    obtain ⟨hlt, r, hr, hpos⟩ := h i (Nat.lt_succ_self i)
    rw [readSoFar, hr, Option.getD_some]
    omega

/-- The loop up to its `i`th call. -/
theorem synchRead_reaches (offset : Nat) {i : Nat} (h : ∀ j < i, ReadsOn kernel len j) :
    ∃ buf, FilledTo kernel offset (readSoFar kernel len i) buf ∧
      ∀ fuel, fileSynchRead kernel (fuel + i) len offset =
        synchReadFrom kernel fuel i buf (readSoFar kernel len i) (len - readSoFar kernel len i)
          (offset + readSoFar kernel len i) (readSoFar kernel len i) := by
  induction i with
  | zero => exact ⟨_, ⟨fun k hk => absurd hk (Nat.not_lt_zero k), fun _ _ => rfl⟩, fun _ => rfl⟩
  | succ i ih =>
    obtain ⟨buf, hbuf, hrun⟩ := ih fun j hj => h j (Nat.lt_succ_of_lt hj)
    obtain ⟨hlt, r, hr, hpos⟩ := h i (Nat.lt_succ_self i)
    have hnext : readSoFar kernel len (i + 1) =
        readSoFar kernel len i + min r (len - readSoFar kernel len i) := by
      rw [readSoFar, hr, Option.getD_some]
    refine ⟨_, hnext ▸ hbuf.fill (i := i), fun fuel => ?_⟩
    have hfuel : fuel + (i + 1) = fuel + 1 + i := by omega
    rw [hfuel, hrun, synchReadFrom, if_neg (by omega), hr]
    simp only
    rw [if_neg (by omega), ← hnext, Nat.sub_sub, ← hnext, Nat.add_assoc, ← hnext]

/-- How the loop ends. -/
theorem fileAsynchRead_ends (kernel : Nat → Pread) (len offset : Nat) :
    ∃ r, (∀ fuel, len < fuel → fileAsynchRead kernel fuel len offset = some r) ∧
      (r.Complete kernel len offset ↔ ¬ EndsEarly kernel len) := by
  classical
  have hex : ∃ k, ¬ ReadsOn kernel len k := by
    by_contra hno
    push Not at hno
    have hgrow := readSoFar_grows (i := len + 1) fun j _ => hno j
    have hle : readSoFar kernel len (len + 1) ≤ len := readSoFar_le _
    omega
  obtain ⟨k, hstop, hreads⟩ : ∃ k, ¬ ReadsOn kernel len k ∧ ∀ j < k, ReadsOn kernel len j :=
    ⟨Nat.find hex, Nat.find_spec hex, fun j hj => not_not.mp (Nat.find_min hex hj)⟩
  obtain ⟨buf, hbuf, hrun⟩ := synchRead_reaches offset hreads
  have hk : k ≤ len := Nat.le_trans (readSoFar_grows hreads) (readSoFar_le k)
  -- the last round, with any fuel that is left
  have hlast : ∀ r, (∀ fuel, synchReadFrom kernel (fuel + 1) k buf (readSoFar kernel len k)
        (len - readSoFar kernel len k) (offset + readSoFar kernel len k) (readSoFar kernel len k) =
      some r) → ∀ fuel, len < fuel → fileSynchRead kernel fuel len offset = some r := by
    intro r hr fuel hfuel
    have hsplit : fuel = fuel - k - 1 + 1 + k := by omega
    rw [hsplit, hrun, hr]
  have hbefore : ∀ i, (∀ j < i, ∃ r, (kernel j).ret = some r ∧ 0 < r) →
      readSoFar kernel len i < len → (kernel i).ret = some 0 → i = k := by
    intro i hpos hlt hzero
    rcases Nat.lt_trichotomy i k with hik | hik | hik
    · obtain ⟨-, r, hr, hr0⟩ := hreads i hik
      rw [hzero] at hr
      cases hr
      exact absurd hr0 (Nat.lt_irrefl 0)
    · exact hik
    · exact absurd ⟨Nat.lt_of_le_of_lt (readSoFar_mono (Nat.le_of_lt hik)) hlt, hpos k hik⟩ hstop
  by_cases hfull : readSoFar kernel len k = len
  · refine ⟨.callback 0 buf, fun fuel hfuel => ?_, iff_of_true (fun _ => ?_) ?_⟩
    · rw [fileAsynchRead, hlast (.ret (readSoFar kernel len k) buf) (fun fuel => ?_) fuel hfuel]
      · rfl
      · rw [synchReadFrom, if_pos (by omega)]
    · rw [hfull] at hbuf
      exact hbuf.1
    · rintro ⟨i, hpos, hlt, hzero⟩
      obtain rfl := hbefore i hpos hlt hzero
      omega
  · have hlt : readSoFar kernel len k < len := Nat.lt_of_le_of_ne (readSoFar_le k) hfull
    cases hret : (kernel k).ret with
    | none =>
      refine ⟨.exit, fun fuel hfuel => ?_, iff_of_true trivial ?_⟩
      · rw [fileAsynchRead, hlast .exit (fun fuel => ?_) fuel hfuel]
        · rfl
        · rw [synchReadFrom, if_neg (Nat.sub_ne_zero_of_lt hlt), hret]
      · rintro ⟨i, hpos, hlt', hzero⟩
        obtain rfl := hbefore i hpos hlt' hzero
        rw [hret] at hzero
        cases hzero
    | some r =>
      obtain rfl : r = 0 := by
        by_contra hr0
        exact hstop ⟨hlt, r, hret, Nat.pos_of_ne_zero hr0⟩
      refine ⟨.callback 0 buf, fun fuel hfuel => ?_, iff_of_false (fun hall => ?_) fun hno => hno ?_⟩
      · rw [fileAsynchRead, hlast (.ret (readSoFar kernel len k) buf) (fun fuel => ?_) fuel hfuel]
        · rfl
        · rw [synchReadFrom, if_neg (Nat.sub_ne_zero_of_lt hlt), hret]
          simp only [Nat.zero_min, if_true]
      · -- the first byte that was not read
        obtain ⟨i, hi⟩ := hall rfl _ hlt
        rw [hbuf.2 _ (Nat.le_refl _)] at hi
        cases hi
      · refine ⟨k, fun j hj => (hreads j hj).2, hlt, hret⟩

end Read

/-- **Asynchronous reads are complete** exactly when no `pread` finds the end of the file
while bytes of the slice are missing. -/
theorem fileAsynchRead_complete_iff (kernel : Nat → Pread) (len offset : Nat) :
    (∃ r, (∀ fuel, len < fuel → fileAsynchRead kernel fuel len offset = some r) ∧
      r.Complete kernel len offset) ↔ ¬ EndsEarly kernel len := by
  obtain ⟨r, hrun, hiff⟩ := fileAsynchRead_ends kernel len offset
  rw [← hiff]
  constructor
  · rintro ⟨r', hrun', hc⟩
    have heq := hrun (len + 1) (Nat.lt_succ_self len)
    rw [hrun' (len + 1) (Nat.lt_succ_self len)] at heq
    cases heq
    exact hc
  · intro hc
    exact ⟨r, hrun, hc⟩

/-- A file of four bytes, read for eight. -/
def shortFile : Nat → Pread := fun i => if i = 0 then ⟨some 4, fun _ => 7⟩ else ⟨some 0, fun _ => 7⟩

theorem short_file_read_incomplete :
    ¬ ∀ kernel len offset,
      ∃ r, (∀ fuel, len < fuel → fileAsynchRead kernel fuel len offset = some r) ∧
        r.Complete kernel len offset := by
  intro hall
  obtain ⟨r, hrun, hc⟩ := hall shortFile 8 0
  have heval : (fileAsynchRead shortFile 9 8 0).map (fun
      | .exit => none
      | .callback error buf => some (error, buf 3, buf 4)) = some (some (0, some 7, none)) := by
    decide
  rw [hrun 9 (by decide)] at heval
  cases r with
  | exit => cases heval
  | callback error buf =>
    simp only [Option.map_some, Option.some.injEq, Prod.mk.injEq] at heval
    obtain ⟨herror, -, hmissing⟩ := heval
    obtain ⟨i, hi⟩ := hc herror 4 (by decide)
    rw [hmissing] at hi
    cases hi

/-! ## Zeroing -/

/-- The ways to zero a range, and to allocate it. -/
inductive ZeroOp where
  | punchHole | zeroRange | fallocate | zeroout
  deriving DecidableEq, Repr

/-- What a system call returns: 0, or -1 with an error that means "not supported" or
with another one. -/
inductive SysResult where
  | ok | unsupported | failed
  deriving DecidableEq, Repr

/-- `struct rw_file` as far as zeroing goes, with the bytes of the file and what is
allocated of it, and the system calls made. -/
structure File where
  canPunchHole : Bool
  canZeroRange : Bool
  canFallocate : Bool
  canZeroout : Bool
  sectorSize : Nat
  bytes : Nat → UInt8
  allocated : Nat → Bool
  calls : List (ZeroOp × SysResult)

/-- A call of `file_synch_zero`, with the answers of the kernel. -/
structure ZeroCall where
  offset : Nat
  count : Nat
  allocate : Bool
  kernel : ZeroOp → SysResult

namespace File

variable (f : File) (c : ZeroCall)

/-- The bytes of a range are zeroed. -/
def clear : Nat → UInt8 := fun q => if c.offset ≤ q ∧ q < c.offset + c.count then 0 else f.bytes q

/-- A range is allocated, or deallocated. -/
def alloc (b : Bool) : Nat → Bool :=
  fun q => if c.offset ≤ q ∧ q < c.offset + c.count then b else f.allocated q

/-- The effect of a system call: none if it fails. -/
def call (op : ZeroOp) : File :=
  let f := { f with calls := f.calls ++ [(op, c.kernel op)] }
  match c.kernel op, op with
  | .ok, .punchHole => { f with bytes := f.clear c, allocated := f.alloc c false }
  | .ok, .zeroRange => { f with bytes := f.clear c, allocated := f.alloc c true }
  | .ok, .zeroout => { f with bytes := f.clear c, allocated := f.alloc c true }
  | .ok, .fallocate => { f with allocated := f.alloc c true }
  | _, _ => f

end File

/-- How `file_synch_zero` ends: the program ends, or it returns. -/
inductive SynchZero where
  | exit
  | ret (r : Bool) (f : File)

/-- `file_punch_hole`, `file_zero_range` and `file_zeroout`: go on with their return value
unless the error ends the program. -/
def tryZero (op : ZeroOp) (c : ZeroCall) (f : File) (k : Bool → File → SynchZero) : SynchZero :=
  match c.kernel op with
  | .ok => k true (f.call c op)
  | .unsupported => k false (f.call c op)
  | .failed => .exit

/-- `is_power_of_2`. -/
def isPowerOf2 (v : Nat) : Bool := v != 0 && v &&& (v - 1) == 0

/-- The last part: punch a hole and allocate it, or `BLKZEROOUT`. -/
def synchZeroRest (c : ZeroCall) (f : File) : SynchZero :=
  if f.canPunchHole && f.canFallocate then
    tryZero .punchHole c f fun r f =>
      if r then
        -- `fallocate` returns 0 when it succeeds
        if c.kernel .fallocate != .ok then .ret true (f.call c .fallocate)
        else .ret false { f.call c .fallocate with canFallocate := false }
      else .ret false { f with canPunchHole := false }
  else if f.canZeroout then
    -- the assertion of `IS_ALIGNED`
    if !isPowerOf2 f.sectorSize then .exit
    else if (c.offset ||| c.count) &&& (f.sectorSize - 1) == 0 then
      tryZero .zeroout c f fun r f =>
        if r then .ret true f else .ret false { f with canZeroout := false }
    else .ret false f
  else .ret false f

/-- The second part: zero the range. -/
def synchZeroRange (c : ZeroCall) (f : File) : SynchZero :=
  if f.canZeroRange then
    tryZero .zeroRange c f fun r f =>
      if r then .ret true f else synchZeroRest c { f with canZeroRange := false }
  else synchZeroRest c f

def fileSynchZero (c : ZeroCall) (f : File) : SynchZero :=
  if !c.allocate && f.canPunchHole then
    tryZero .punchHole c f fun r f =>
      if r then .ret true f else synchZeroRange c { f with canPunchHole := false }
  else synchZeroRange c f

/-! ## What a call of `file_synch_zero` achieves -/

namespace File

/-- The capability flag of an operation. -/
def can (f : File) : ZeroOp → Bool
  | .punchHole => f.canPunchHole
  | .zeroRange => f.canZeroRange
  | .fallocate => f.canFallocate
  | .zeroout => f.canZeroout

def disable (f : File) : ZeroOp → File
  | .punchHole => { f with canPunchHole := false }
  | .zeroRange => { f with canZeroRange := false }
  | .fallocate => { f with canFallocate := false }
  | .zeroout => { f with canZeroout := false }

theorem can_disable (f : File) (op op' : ZeroOp) :
    (f.disable op).can op' = if op' = op then false else f.can op' := by
  cases op <;> cases op' <;> rfl

@[simp] theorem can_call (f : File) (c : ZeroCall) (op op' : ZeroOp) :
    (f.call c op).can op' = f.can op' := by
  unfold call
  cases c.kernel op <;> cases op <;> cases op' <;> rfl

@[simp] theorem calls_call (f : File) (c : ZeroCall) (op : ZeroOp) :
    (f.call c op).calls = f.calls ++ [(op, c.kernel op)] := by
  unfold call
  cases c.kernel op <;> cases op <;> rfl

@[simp] theorem calls_disable (f : File) (op : ZeroOp) : (f.disable op).calls = f.calls := by
  cases op <;> rfl

/-- A call that fails changes nothing else. -/
theorem call_failed (f : File) {c : ZeroCall} {op : ZeroOp} (h : c.kernel op ≠ .ok) :
    f.call c op = { f with calls := f.calls ++ [(op, c.kernel op)] } := by
  unfold call
  cases hk : c.kernel op <;> first | exact absurd hk h | rfl

end File

/-- The system calls that have been made since `f₀`. -/
def File.since (f₀ f : File) : List (ZeroOp × SysResult) := f.calls.drop f₀.calls.length

/-- The call has done what it says: if it returns true the range reads as zeroes, and is
allocated if that was asked for; a flag is cleared only after its operation has failed
as unsupported in this call. -/
structure Zeroed (c : ZeroCall) (f f' : File) (r : Bool) : Prop where
  zero : r = true → ∀ q, c.offset ≤ q → q < c.offset + c.count → f'.bytes q = 0
  allocated : r = true → c.allocate = true → ∀ q, c.offset ≤ q → q < c.offset + c.count →
    f'.allocated q = true
  flags : ∀ op, f.can op = true → f'.can op = false → (op, .unsupported) ∈ f.since f'

/-- The call gets to `fallocate`, whose return value it misreads: if it succeeds the flag is
cleared, if it fails the range counts as allocated. -/
def Botched (c : ZeroCall) (f : File) : Prop :=
  c.allocate = true ∧ f.canPunchHole = true ∧ f.canFallocate = true ∧
    (f.canZeroRange = true → c.kernel .zeroRange = .unsupported) ∧ c.kernel .punchHole = .ok ∧
    (c.count ≠ 0 ∨ c.kernel .fallocate = .ok)

instance (c : ZeroCall) (f : File) : Decidable (Botched c f) :=
  inferInstanceAs (Decidable (_ ∧ _))

/-- On the way from `f₀` to `f` operations have failed as unsupported, `fallocate` not
among them. -/
structure Failing (f₀ f : File) : Prop where
  can : ∀ op, f.can op = true → f₀.can op = true
  grows : f₀.calls.length ≤ f.calls.length
  flags : ∀ op, f₀.can op = true → f.can op = false → (op, .unsupported) ∈ f₀.since f
  never : (.fallocate, .unsupported) ∉ f₀.since f

variable {c : ZeroCall} {f f₀ : File}

theorem Failing.refl (f : File) : Failing f f :=
  ⟨fun _ h => h, Nat.le_refl _, fun op h h' => (Bool.false_ne_true (h'.symm.trans h)).elim,
    by simp [File.since]⟩

theorem Failing.since_call (h : Failing f₀ f) (op : ZeroOp) :
    f₀.since (f.call c op) = f₀.since f ++ [(op, c.kernel op)] := by
  unfold File.since
  rw [File.calls_call, List.drop_append_of_le_length h.grows]

theorem Failing.call (h : Failing f₀ f) (op : ZeroOp)
    (hop : op = .fallocate → c.kernel op ≠ .unsupported) : Failing f₀ (f.call c op) := by
  refine ⟨fun op' h' => h.can op' (by rwa [File.can_call] at h'), ?_, fun op' h₀ h₁ => ?_, ?_⟩
  · rw [File.calls_call, List.length_append]
    exact Nat.le_trans h.grows (Nat.le_add_right _ _)
  · rw [File.can_call] at h₁
    rw [h.since_call]
    exact List.mem_append_left _ (h.flags op' h₀ h₁)
  · rw [h.since_call, List.mem_append]
    rintro (hmem | hmem)
    · exact h.never hmem
    · simp only [List.mem_singleton, Prod.mk.injEq] at hmem
      obtain ⟨rfl, hk⟩ := hmem
      exact hop rfl hk.symm

/-- An operation that is not supported is switched off. -/
theorem Failing.disable (h : Failing f₀ f) (op : ZeroOp) (hop : op ≠ .fallocate)
    (hk : c.kernel op = .unsupported) : Failing f₀ ((f.call c op).disable op) := by
  have hcall := h.call (c := c) op fun hf => absurd hf hop
  have hsince : f₀.since ((f.call c op).disable op) = f₀.since (f.call c op) := by
    rw [File.since, File.calls_disable]
    rfl
  refine ⟨fun op' h' => hcall.can op' ?_, by rw [File.calls_disable]; exact hcall.grows,
    fun op' h₀ h₁ => ?_, by rw [hsince]; exact hcall.never⟩
  · rw [File.can_disable] at h'
    split at h'
    · cases h'
    · exact h'
  · rw [hsince]
    rw [File.can_disable] at h₁
    split at h₁
    · rename_i heq
      rw [heq, h.since_call, hk]
      exact List.mem_append_right _ (List.mem_singleton_self _)
    · exact hcall.flags op' h₀ h₁

/-- Giving up is fine. -/
theorem Failing.gaveUp (h : Failing f₀ f) : Zeroed c f₀ f false := ⟨nofun, nofun, h.flags⟩

/-- So is an operation that succeeds, if it does what was asked for. -/
theorem Failing.zeroed (h : Failing f₀ f) {op : ZeroOp} (hk : c.kernel op = .ok)
    (hop : op = .zeroRange ∨ op = .zeroout ∨ op = .punchHole ∧ c.allocate = false) :
    Zeroed c f₀ (f.call c op) true := by
  refine ⟨fun _ q hq hq' => ?_, fun _ ha q hq hq' => ?_,
    (h.call op fun _ => by rw [hk]; nofun).flags⟩
  · rcases hop with rfl | rfl | ⟨rfl, -⟩ <;> simp [File.call, hk, File.clear, hq, hq']
  · rcases hop with rfl | rfl | ⟨rfl, hno⟩
    · simp [File.call, hk, File.alloc, hq, hq']
    · simp [File.call, hk, File.alloc, hq, hq']
    · rw [hno] at ha
      cases ha

/-- Every return of the function is fine. -/
def SynchZero.Fine (c : ZeroCall) (f₀ : File) : SynchZero → Prop
  | .exit => True
  | .ret r f => Zeroed c f₀ f r

theorem tryZero_fine {op : ZeroOp} {k : Bool → File → SynchZero} :
    (tryZero op c f k).Fine c f₀ ↔ (c.kernel op = .ok → (k true (f.call c op)).Fine c f₀) ∧
      (c.kernel op = .unsupported → (k false (f.call c op)).Fine c f₀) := by
  unfold tryZero
  cases c.kernel op <;> simp [SynchZero.Fine]

/-- `fallocate` has succeeded, and its flag is cleared. -/
theorem not_zeroed_of_ok (h : Failing f₀ f) (hf : f.canFallocate = true)
    (hk : c.kernel .fallocate = .ok) :
    ¬ Zeroed c f₀ { f.call c .fallocate with canFallocate := false } false := by
  intro hz
  have hcall := h.call (c := c) .fallocate fun _ => by rw [hk]; nofun
  exact hcall.never (hz.flags .fallocate (h.can .fallocate hf) rfl)

/-- `fallocate` has failed on the hole that has just been punched. -/
theorem not_zeroed_of_failed (ha : c.allocate = true) (hp : c.kernel .punchHole = .ok)
    (hk : c.kernel .fallocate ≠ .ok) (hn : c.count ≠ 0) :
    ¬ Zeroed c f₀ ((f.call c .punchHole).call c .fallocate) true := by
  intro hz
  have hall := hz.allocated rfl ha c.offset (Nat.le_refl _) (by omega)
  rw [File.call_failed _ hk] at hall
  simp only [File.call, hp, File.alloc] at hall
  rw [if_pos ⟨Nat.le_refl _, by omega⟩] at hall
  cases hall

theorem synchZeroRest_fine_iff (h : Failing f₀ f)
    (ha : f.canPunchHole = true → c.allocate = true) :
    (synchZeroRest c f).Fine c f₀ ↔ ¬ (f.canPunchHole = true ∧ f.canFallocate = true ∧
      c.kernel .punchHole = .ok ∧ (c.count ≠ 0 ∨ c.kernel .fallocate = .ok)) := by
  unfold synchZeroRest
  split
  · rename_i hboth
    obtain ⟨hp, hf⟩ := Bool.and_eq_true_iff.mp hboth
    have hoff : c.kernel .punchHole = .unsupported → Zeroed c f₀
        { f.call c .punchHole with canPunchHole := false } false :=
      fun hk => (h.disable .punchHole nofun hk).gaveUp
    have hpunch := h.call (c := c) .punchHole nofun
    have hf' : (f.call c .punchHole).canFallocate = true :=
      (File.can_call f c .punchHole .fallocate).trans hf
    rw [tryZero_fine]
    simp only [hp, hf, true_and, if_true]
    cases hk : c.kernel .punchHole with
    | unsupported => simpa [SynchZero.Fine] using hoff hk
    | failed => simp
    | ok =>
      simp only [true_and, forall_const, reduceCtorEq, false_imp_iff, and_true]
      by_cases hfall : c.kernel .fallocate = .ok
      · simp only [hfall, bne_self_eq_false, Bool.false_eq_true, if_false, or_true, not_true]
        exact iff_of_false (not_zeroed_of_ok hpunch hf' hfall) not_false
      · rw [if_pos (by simpa using hfall)]
        simp only [hfall, or_false, not_not]
        constructor
        · intro hz
          by_contra hn
          exact not_zeroed_of_failed (ha hp) hk hfall hn hz
        · -- an empty range
          intro hn
          refine ⟨fun _ q hq hq' => by omega, fun _ _ q hq hq' => by omega, fun op h₀ h₁ => ?_⟩
          rw [hpunch.since_call]
          rw [File.can_call] at h₁
          exact List.mem_append_left _ (hpunch.flags op h₀ h₁)
  · rename_i hboth
    have hno : ¬ (f.canPunchHole = true ∧ f.canFallocate = true ∧
        c.kernel .punchHole = .ok ∧ (c.count ≠ 0 ∨ c.kernel .fallocate = .ok)) :=
      fun hx => hboth (Bool.and_eq_true_iff.mpr ⟨hx.1, hx.2.1⟩)
    refine iff_of_true ?_ hno
    split
    · split
      · trivial
      · split
        · rw [tryZero_fine]
          exact ⟨fun hk => h.zeroed hk (.inr (.inl rfl)), fun hk => (h.disable .zeroout nofun hk).gaveUp⟩
        · exact h.gaveUp
    · exact h.gaveUp

theorem synchZeroRange_fine_iff (h : Failing f₀ f)
    (ha : f.canPunchHole = true → c.allocate = true) :
    (synchZeroRange c f).Fine c f₀ ↔ ¬ (f.canPunchHole = true ∧ f.canFallocate = true ∧
      (f.canZeroRange = true → c.kernel .zeroRange = .unsupported) ∧
      c.kernel .punchHole = .ok ∧ (c.count ≠ 0 ∨ c.kernel .fallocate = .ok)) := by
  unfold synchZeroRange
  split
  · rename_i hz
    have hp' : ((f.call c .zeroRange).disable .zeroRange).canPunchHole = f.canPunchHole :=
      File.can_call f c .zeroRange .punchHole
    have hf' : ((f.call c .zeroRange).disable .zeroRange).canFallocate = f.canFallocate :=
      File.can_call f c .zeroRange .fallocate
    rw [tryZero_fine]
    cases hk : c.kernel .zeroRange with
    | ok =>
      refine iff_of_true ⟨fun _ => h.zeroed hk (.inl rfl), nofun⟩ fun hx => ?_
      exact absurd (hx.2.2.1 hz) nofun
    | failed =>
      refine iff_of_true ⟨nofun, nofun⟩ fun hx => ?_
      exact absurd (hx.2.2.1 hz) nofun
    | unsupported =>
      have hrest := synchZeroRest_fine_iff (c := c) (h.disable .zeroRange nofun hk)
        (fun hp => ha (by rwa [hp'] at hp))
      rw [hp', hf'] at hrest
      refine ⟨fun hx => ?_, fun hx => ⟨nofun, fun _ => hrest.mpr ?_⟩⟩
      · rintro ⟨h₁, h₂, -, h₄⟩
        exact hrest.mp (hx.2 rfl) ⟨h₁, h₂, h₄⟩
      · rintro ⟨h₁, h₂, h₄⟩
        exact hx ⟨h₁, h₂, fun _ => rfl, h₄⟩
  · rename_i hz
    rw [synchZeroRest_fine_iff h ha]
    simp [hz]

theorem fileSynchZero_fine_iff (c : ZeroCall) (f : File) :
    (fileSynchZero c f).Fine c f ↔ ¬ Botched c f := by
  unfold fileSynchZero Botched
  split
  · rename_i hfirst
    obtain ⟨hno, hp⟩ := Bool.and_eq_true_iff.mp hfirst
    have ha : c.allocate = false := by simpa using hno
    refine iff_of_true ?_ (fun hx => by rw [ha] at hx; exact Bool.false_ne_true hx.1)
    rw [tryZero_fine]
    refine ⟨fun hk => (Failing.refl f).zeroed hk (.inr (.inr ⟨rfl, ha⟩)), fun hk => ?_⟩
    have hoff := (Failing.refl f).disable .punchHole nofun hk
    exact (synchZeroRange_fine_iff (f := { f.call c .punchHole with canPunchHole := false }) hoff nofun).mpr
      fun hx => Bool.false_ne_true hx.1
  · rename_i hfirst
    rw [synchZeroRange_fine_iff (.refl f) fun hp => by simpa [hp] using hfirst]
    refine not_congr ⟨fun hx => ⟨?_, hx⟩, fun hx => hx.2⟩
    simpa [hx.1] using hfirst

/-! ## Runs -/

/-- A destination file, and the calls of `file_synch_zero` on it. The flags can be set in
any way at the start. -/
def zeroing : System File ZeroCall where
  init := fun _ => True
  step f c :=
    match fileSynchZero c f with
    | .exit => none
    | .ret _ f' => some f'

/-- **Zeroing of files**: in every sequence of calls each call does what it says exactly
when none of them gets to `fallocate` behind a hole that it has punched. -/
theorem zeroing_fine_iff (f : File) (cs : List ZeroCall) :
    zeroing.Meets (fun f c => (fileSynchZero c f).Fine c f) f cs ↔
      zeroing.Meets (fun f c => ¬ Botched c f) f cs := by
  induction cs generalizing f with
  | nil => exact Iff.rfl
  | cons c cs ih =>
    exact and_congr (fileSynchZero_fine_iff c f) (forall_congr' fun f' => imp_congr_right fun _ => ih f')

/-- A regular file on a filesystem without `FALLOC_FL_ZERO_RANGE`. -/
def freshFile : File where
  canPunchHole := true
  canZeroRange := true
  canFallocate := true
  canZeroout := false
  sectorSize := 0
  bytes := fun _ => 1
  allocated := fun _ => true
  calls := []

def noZeroRange : ZeroCall where
  offset := 0
  count := 4096
  allocate := true
  kernel := fun
    | .zeroRange => .unsupported
    | _ => .ok

theorem fallocate_misread :
    ¬ ∀ f cs, zeroing.Meets (fun f c => (fileSynchZero c f).Fine c f) f cs := by
  intro hall
  have hfine : Zeroed noZeroRange freshFile _ false := (hall freshFile [noZeroRange]).1
  have hbad := hfine.flags .fallocate rfl rfl
  revert hbad
  decide

end Libnbd.Copy
