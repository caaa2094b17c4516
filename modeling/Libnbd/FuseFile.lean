import Libnbd.Handle

/-!
nbdfuse: the export as a file (`nbdfuse_read`, `nbdfuse_write` and `nbdfuse_fallocate` in
`fuse/operations.c`).

A libnbd command that succeeds has its NBD meaning on the bytes of the export; one that
fails may leave anything behind.
-/

namespace Libnbd.Fuse

/-- `MAX_REQUEST_SIZE` and `sizeof zerobuf`. -/
def maxRequestSize : UInt64 := 33554432
def zerobufSize : Nat := 4096

/-- The flags of `fallocate`. -/
def fallocPunchHole : UInt32 := 0x2
def fallocZeroRange : UInt32 := 0x10

def enoent : UInt32 := 2
def eacces : UInt32 := 13
def eopnotsupp : UInt32 := enotsup

/-- What nbdfuse has learnt from its options and from the server. `nbd_get_size` never
returns more than `INT64_MAX`. -/
structure Mount where
  size : UInt64
  readonly : Bool
  fileMode : Bool
  filename : CString
  canTrim : Int
  canZero : Int
  sizeOk : size.toNat < 2 ^ 63

/-- The bytes of the export. -/
abbrev Bytes := Nat → UInt8

/-- How a command ends: it succeeds, or fails with an error, with the bytes of the export
afterwards. -/
inductive CmdResult where
  | ok
  | failed (errno : UInt32) (bytes : Bytes)

def CmdResult.isOk : CmdResult → Bool
  | .ok => true
  | .failed _ _ => false

/-- The answers to the commands of one call, in order, and what a trimmed range reads as:
a server may do with it as it likes. -/
structure Server where
  cmd : Nat → CmdResult
  trimmed : Bytes

/-! ## The operations -/

/-- `report_nbd_error`. -/
def reportNbdError (errno : UInt32) : Int := if errno ≠ 0 then -errno.toNat else -eio.toNat

/-- The path names something else. -/
def Mount.noEntry (m : Mount) (path : CString) : Bool :=
  !m.fileMode && (path.head? != some 47 || path.tail != m.filename)

/-- The count after it has been cut at the maximum and at the end of the export. The
offset is of type `off_t` and `size` of type `uint64_t`. -/
def Mount.clamp (m : Mount) (count : UInt64) (offset : Int64) : UInt64 :=
  let count := if count > maxRequestSize then maxRequestSize else count
  if offset.toUInt64 + count > m.size then m.size - offset.toUInt64 else count

/-- A `size_t` returned as an `int`. -/
def toInt (n : UInt64) : Int := Int.bmod n.toNat (2 ^ 32)

/-- What `nbd_aio_pread` fetches, and what `nbd_aio_pwrite` makes of the export. -/
def readRange (bytes : Bytes) (offset count : Nat) : List UInt8 :=
  (List.range count).map fun i => bytes (offset + i)

def writeRange (bytes : Bytes) (offset count : Nat) (buf : Bytes) : Bytes := fun i =>
  if offset ≤ i ∧ i < offset + count then buf (i - offset) else bytes i

/-- The return value, the data handed back and the export afterwards. -/
structure Outcome where
  ret : Int
  buf : List UInt8
  bytes : Bytes

def nbdfuseRead (m : Mount) (s : Server) (bytes : Bytes) (path : CString) (count : UInt64)
    (offset : Int64) : Outcome :=
  if m.noEntry path then ⟨-enoent.toNat, [], bytes⟩
  else if offset.toUInt64 ≥ m.size then ⟨0, [], bytes⟩
  else
    let count := m.clamp count offset
    match s.cmd 0 with
    | .failed errno bytes => ⟨reportNbdError errno, [], bytes⟩
    | .ok => ⟨toInt count, readRange bytes offset.toUInt64.toNat count.toNat, bytes⟩

def nbdfuseWrite (m : Mount) (s : Server) (bytes : Bytes) (path : CString) (buf : Bytes)
    (count : UInt64) (offset : Int64) : Outcome :=
  if m.readonly then ⟨-eacces.toNat, [], bytes⟩
  else if m.noEntry path then ⟨-enoent.toNat, [], bytes⟩
  else if offset.toUInt64 ≥ m.size then ⟨0, [], bytes⟩
  else
    let count := m.clamp count offset
    match s.cmd 0 with
    | .failed errno bytes => ⟨reportNbdError errno, [], bytes⟩
    | .ok => ⟨toInt count, [], writeRange bytes offset.toUInt64.toNat count.toNat buf⟩

/-- The loop that writes `zerobuf` until `len` has run out, from the command with number
`k`. The offset is the same in every round. -/
def zeroLoop (s : Server) (offset k len : Nat) (bytes : Bytes) : Outcome :=
  if 0 < len then
    let n := min len zerobufSize
    match s.cmd k with
    | .failed errno bytes => ⟨reportNbdError errno, [], bytes⟩
    | .ok => zeroLoop s offset (k + 1) (len - n) (writeRange bytes offset n fun _ => 0)
  else ⟨0, [], bytes⟩
termination_by len
decreasing_by
  simp only [zerobufSize]
  omega

def nbdfuseFallocate (m : Mount) (s : Server) (bytes : Bytes) (mode : UInt32)
    (offset len : Int64) : Outcome :=
  if m.readonly then ⟨-eacces.toNat, [], bytes⟩
  else if mode &&& fallocPunchHole ≠ 0 then
    if m.canTrim = 0 then ⟨-eopnotsupp.toNat, [], bytes⟩
    else
      match s.cmd 0 with
      | .failed errno bytes => ⟨reportNbdError errno, [], bytes⟩
      | .ok => ⟨0, [], writeRange bytes offset.toUInt64.toNat len.toUInt64.toNat s.trimmed⟩
  else if mode &&& fallocZeroRange ≠ 0 then
    if m.canZero = 0 then zeroLoop s offset.toUInt64.toNat 0 len.toInt.toNat bytes
    else
      match s.cmd 0 with
      | .failed errno bytes => ⟨reportNbdError errno, [], bytes⟩
      | .ok => ⟨0, [], writeRange bytes offset.toUInt64.toNat len.toUInt64.toNat fun _ => 0⟩
  else ⟨-eopnotsupp.toNat, [], bytes⟩

/-! ## What a file of fixed size does -/

inductive Operation where
  | read (path : CString) (count : UInt64) (offset : Int64)
  | write (path : CString) (buf : Bytes) (count : UInt64) (offset : Int64)
  | fallocate (mode : UInt32) (offset len : Int64)

/-- Bytes that a file of this size transfers for a request; none past the end. -/
def transferred (size count offset : Nat) : Nat := min count (min (32 * 1024 * 1024) (size - offset))

/-- The range lies inside the export. -/
def Inside (m : Mount) (offset len : Int64) : Prop :=
  0 ≤ offset.toInt ∧ 0 ≤ len.toInt ∧ offset.toInt + len.toInt ≤ m.size.toNat

/-- The operation behaves as on a file. A read or write that is let through and whose
command succeeds moves the bytes of the range and no others; a request to zero a range
that is reported done has zeroed it and nothing else. -/
def Operation.Fine (m : Mount) (s : Server) (bytes : Bytes) : Operation → Prop
  | .read path count offset =>
    let o := nbdfuseRead m s bytes path count offset
    let n := transferred m.size.toNat count.toNat offset.toUInt64.toNat
    m.noEntry path = false → (m.size ≤ offset.toUInt64 ∨ (s.cmd 0).isOk = true) →
      o.ret = n ∧ o.buf = readRange bytes offset.toUInt64.toNat n ∧ o.bytes = bytes
  | .write path buf count offset =>
    let o := nbdfuseWrite m s bytes path buf count offset
    let n := transferred m.size.toNat count.toNat offset.toUInt64.toNat
    m.readonly = false → m.noEntry path = false →
      (m.size ≤ offset.toUInt64 ∨ (s.cmd 0).isOk = true) →
      o.ret = n ∧ o.bytes = writeRange bytes offset.toUInt64.toNat n buf
  | .fallocate mode offset len =>
    let o := nbdfuseFallocate m s bytes mode offset len
    mode &&& fallocZeroRange ≠ 0 → Inside m offset len → o.ret = 0 →
      ∀ i : Nat, o.bytes i =
        if offset.toInt ≤ i ∧ i < offset.toInt + len.toInt then 0 else bytes i

/-- When that is so. A request to zero goes wrong where it is carried out as a trim, and
where `zerobuf` is written more than once: only the first 4096 bytes are ever reached. -/
def Operation.Met (m : Mount) (s : Server) (bytes : Bytes) : Operation → Prop
  | .read _ _ _ => True
  | .write _ _ _ _ => True
  | .fallocate mode offset len =>
    mode &&& fallocZeroRange ≠ 0 → Inside m offset len → m.readonly = false →
      if mode &&& fallocPunchHole ≠ 0 then
        m.canTrim = 0 ∨ (s.cmd 0).isOk = false ∨ ∀ i : Nat, i < len.toInt → s.trimmed i = 0
      else
        m.canZero ≠ 0 ∨ (∃ k : Nat, zerobufSize * k < len.toInt ∧ (s.cmd k).isOk = false) ∨
          ∀ i : Nat, offset.toInt + zerobufSize ≤ i → i < offset.toInt + len.toInt → bytes i = 0

/-! ## Reading and writing -/

/-- The arithmetic on 64 bits does not wrap below the end of the export. -/
theorem Mount.clamp_toNat (m : Mount) (count : UInt64) (offset : Int64)
    (h : offset.toUInt64 < m.size) :
    (m.clamp count offset).toNat
      = transferred m.size.toNat count.toNat offset.toUInt64.toNat := by
  have hsize := m.sizeOk
  have hlt := UInt64.lt_iff_toNat_lt.mp h
  have hmax : maxRequestSize.toNat = 32 * 1024 * 1024 := rfl
  have hcut : (if count > maxRequestSize then maxRequestSize else count).toNat
      = min count.toNat (32 * 1024 * 1024) := by
    split
    · next hc =>
      have := UInt64.lt_iff_toNat_lt.mp hc
      omega
    · next hc =>
      have := UInt64.not_lt.mp hc
      have := UInt64.le_iff_toNat_le.mp this
      omega
  simp only [Mount.clamp, transferred]
  generalize (if count > maxRequestSize then maxRequestSize else count) = c at hcut
  have hadd : (offset.toUInt64 + c).toNat = offset.toUInt64.toNat + c.toNat := by
    rw [UInt64.toNat_add, Nat.mod_eq_of_lt (by omega)]
  split
  · next hover =>
    have := UInt64.lt_iff_toNat_lt.mp hover
    rw [UInt64.toNat_sub_of_le _ _ (by rw [UInt64.le_iff_toNat_le]; omega)]
    omega
  · next hover =>
    have := UInt64.le_iff_toNat_le.mp (UInt64.not_lt.mp hover)
    omega

theorem transferred_le (size count offset : Nat) :
    transferred size count offset ≤ 32 * 1024 * 1024 := by
  unfold transferred
  omega

theorem transferred_past {size count offset : Nat} (h : size ≤ offset) :
    transferred size count offset = 0 := by
  unfold transferred
  omega

theorem toInt_of_small {n : UInt64} (h : n.toNat ≤ 32 * 1024 * 1024) : toInt n = n.toNat := by
  unfold toInt
  rw [Int.bmod_eq_of_le] <;> omega

theorem writeRange_zero (bytes : Bytes) (offset : Nat) (buf : Bytes) :
    writeRange bytes offset 0 buf = bytes := by
  funext i
  have hnone : ¬(offset ≤ i ∧ i < offset + 0) := by omega
  simp only [writeRange, if_neg hnone]

theorem nbdfuseRead_fine (m : Mount) (s : Server) (bytes : Bytes) (path : CString)
    (count : UInt64) (offset : Int64) :
    (Operation.read path count offset).Fine m s bytes := by
  intro hentry hcmd
  simp only [nbdfuseRead, hentry, Bool.false_eq_true, if_false]
  split
  · next hpast =>
    rw [transferred_past (UInt64.le_iff_toNat_le.mp hpast)]
    exact ⟨rfl, rfl, rfl⟩
  · next hin =>
    obtain hpast | hok := hcmd
    · exact absurd hpast hin
    · have hclamp := m.clamp_toNat count offset (UInt64.not_le.mp hin)
      cases hc : s.cmd 0 with
      | failed errno after => simp [hc, CmdResult.isOk] at hok
      | ok =>
        have hsmall := transferred_le m.size.toNat count.toNat offset.toUInt64.toNat
        simp only [toInt_of_small (hclamp ▸ hsmall), hclamp, and_self]

theorem nbdfuseWrite_fine (m : Mount) (s : Server) (bytes : Bytes) (path : CString)
    (buf : Bytes) (count : UInt64) (offset : Int64) :
    (Operation.write path buf count offset).Fine m s bytes := by
  intro hwritable hentry hcmd
  simp only [nbdfuseWrite, hwritable, hentry, Bool.false_eq_true, if_false]
  split
  · next hpast =>
    rw [transferred_past (UInt64.le_iff_toNat_le.mp hpast), writeRange_zero]
    exact ⟨rfl, rfl⟩
  · next hin =>
    obtain hpast | hok := hcmd
    · exact absurd hpast hin
    · have hclamp := m.clamp_toNat count offset (UInt64.not_le.mp hin)
      cases hc : s.cmd 0 with
      | failed errno after => simp [hc, CmdResult.isOk] at hok
      | ok =>
        have hsmall := transferred_le m.size.toNat count.toNat offset.toUInt64.toNat
        simp only [toInt_of_small (hclamp ▸ hsmall), hclamp, and_self]

/-! ## Zeroing -/

theorem reportNbdError_neg (errno : UInt32) : reportNbdError errno < 0 := by
  unfold reportNbdError
  split
  · next h =>
    have : errno.toNat ≠ 0 := fun hz => h (UInt32.toNat_inj.mp hz)
    omega
  · decide

/-- The loop returns zero if every write it makes succeeds, and then it has zeroed what its
first round wrote. -/
theorem zeroLoop_ret (s : Server) (offset k len : Nat) (bytes : Bytes) :
    (zeroLoop s offset k len bytes).ret = 0 ↔
      ∀ j, zerobufSize * j < len → (s.cmd (k + j)).isOk = true := by
  fun_induction zeroLoop s offset k len bytes with
  | case1 k len bytes h errno after hc =>
    have := reportNbdError_neg errno
    constructor
    · intro hret
      simp only at hret
      omega
    · intro hall
      have := hall 0 (by omega)
      simp [hc, CmdResult.isOk] at this
  | case2 k len bytes h n hc ih =>
    have hn : n = min len 4096 := rfl
    have hz : ∀ j, zerobufSize * j = 4096 * j := fun _ => rfl
    simp only [hz] at ih ⊢
    rw [ih]
    constructor
    · intro hall j hj
      cases j with
      | zero => simp [hc, CmdResult.isOk]
      | succ j =>
        rw [show k + (j + 1) = k + 1 + j by omega]
        exact hall j (by omega)
    · intro hall j hj
      rw [show k + 1 + j = k + (j + 1) by omega]
      exact hall (j + 1) (by omega)
  | case3 k len bytes h =>
    simp only [true_iff]
    intro j hj
    omega

theorem zeroLoop_bytes (s : Server) (offset k len : Nat) (bytes : Bytes)
    (hret : (zeroLoop s offset k len bytes).ret = 0) :
    (zeroLoop s offset k len bytes).bytes
      = writeRange bytes offset (min len zerobufSize) fun _ => 0 := by
  fun_induction zeroLoop s offset k len bytes with
  | case1 k len bytes h errno after hc =>
    have := reportNbdError_neg errno
    simp only at hret
    omega
  | case2 k len bytes h n hc ih =>
    rw [ih hret]
    -- A later round writes no further than the first one has.
    funext i
    simp only [writeRange]
    split
    · next hlater =>
      rw [if_pos (by omega)]
    · rfl
  | case3 k len bytes h =>
    rw [show min len zerobufSize = 0 by omega, writeRange_zero]

theorem toUInt64_toNat_of_nonneg {n : Int64} (h : 0 ≤ n.toInt) :
    (n.toUInt64.toNat : Int) = n.toInt := by
  rw [Int64.toNat_toUInt64_of_le (by rwa [Int64.le_iff_toInt_le])]
  exact Int.toNat_of_nonneg h

/-- What a write of `count` bytes from `buf` leaves, in terms of the range asked for. -/
theorem writeRange_zeroes_iff {bytes buf : Bytes} {offset count len : Nat} (h : count ≤ len) :
    (∀ i, writeRange bytes offset count buf i
        = if offset ≤ i ∧ i < offset + len then 0 else bytes i) ↔
      (∀ i, i < count → buf i = 0) ∧
        ∀ i, offset + count ≤ i → i < offset + len → bytes i = 0 := by
  constructor
  · intro hall
    constructor
    · intro i hi
      have := hall (offset + i)
      rw [writeRange, if_pos (by omega), if_pos (by omega)] at this
      rwa [Nat.add_sub_cancel_left] at this
    · intro i hlo hhi
      have := hall i
      rwa [writeRange, if_neg (by omega), if_pos (by omega)] at this
  · rintro ⟨hbuf, hrest⟩ i
    simp only [writeRange]
    split
    · next hin =>
      rw [if_pos (by omega)]
      exact hbuf _ (by omega)
    · next hout =>
      split
      · next hasked => exact hrest i (by omega) (by omega)
      · rfl

/-- The whole range zeroed, and nothing else. -/
def Outcome.Zeroed (o : Outcome) (bytes : Bytes) (offset len : Nat) : Prop :=
  o.ret = 0 → ∀ i, o.bytes i = if offset ≤ i ∧ i < offset + len then 0 else bytes i

theorem zeroed_of_error {o : Outcome} {bytes : Bytes} {offset len : Nat} (h : o.ret < 0) :
    o.Zeroed bytes offset len := by
  intro hret
  omega

/-- A range given to one command. -/
theorem single_zeroed_iff (s : Server) (bytes buf : Bytes) (offset len : Nat) :
    Outcome.Zeroed (match s.cmd 0 with
      | .failed errno bytes => ⟨reportNbdError errno, [], bytes⟩
      | .ok => ⟨0, [], writeRange bytes offset len buf⟩) bytes offset len ↔
      (s.cmd 0).isOk = false ∨ ∀ i, i < len → buf i = 0 := by
  cases hc : s.cmd 0 with
  | failed errno after =>
    have hneg := reportNbdError_neg errno
    simp only [CmdResult.isOk, true_or, iff_true]
    exact zeroed_of_error hneg
  | ok =>
    simp only [Outcome.Zeroed, CmdResult.isOk, Bool.true_eq_false, false_or, forall_const]
    rw [writeRange_zeroes_iff (Nat.le_refl len)]
    constructor
    · exact fun h => h.1
    · intro hbuf
      refine ⟨hbuf, fun i hlo hhi => ?_⟩
      omega

theorem zeroLoop_zeroed_iff (s : Server) (bytes : Bytes) (offset len : Nat) :
    (zeroLoop s offset 0 len bytes).Zeroed bytes offset len ↔
      (∃ k, zerobufSize * k < len ∧ (s.cmd k).isOk = false) ∨
        ∀ i, offset + zerobufSize ≤ i → i < offset + len → bytes i = 0 := by
  by_cases hret : (zeroLoop s offset 0 len bytes).ret = 0
  · have hall := (zeroLoop_ret s offset 0 len bytes).mp hret
    have hnone : ¬∃ k, zerobufSize * k < len ∧ (s.cmd k).isOk = false := by
      rintro ⟨k, hk, hbad⟩
      have := hall k hk
      rw [Nat.zero_add, hbad] at this
      cases this
    simp only [Outcome.Zeroed, hret, forall_const, zeroLoop_bytes s offset 0 len bytes hret,
      hnone, false_or]
    rw [writeRange_zeroes_iff (Nat.min_le_left len zerobufSize)]
    constructor
    · rintro ⟨-, hrest⟩ i hlo hhi
      exact hrest i (by omega) hhi
    · intro hrest
      refine ⟨fun i _ => rfl, fun i hlo hhi => ?_⟩
      exact hrest i (by omega) hhi
  · have hsome : ∃ k, zerobufSize * k < len ∧ (s.cmd k).isOk = false := by
      by_contra hno
      refine hret ((zeroLoop_ret s offset 0 len bytes).mpr fun j hj => ?_)
      rw [Nat.zero_add]
      by_contra hbad
      exact hno ⟨j, hj, by simpa using hbad⟩
    simp only [Outcome.Zeroed, hret, false_implies, true_iff]
    exact .inl hsome

theorem nbdfuseFallocate_fine_iff (m : Mount) (s : Server) (bytes : Bytes) (mode : UInt32)
    (offset len : Int64) :
    (Operation.fallocate mode offset len).Fine m s bytes ↔
      (Operation.fallocate mode offset len).Met m s bytes := by
  simp only [Operation.Fine, Operation.Met]
  refine imp_congr_right fun hmode => imp_congr_right fun hin => ?_
  obtain ⟨hoffset, hlen, -⟩ := hin
  have hlenNat : len.toInt.toNat = len.toUInt64.toNat := by
    have := toUInt64_toNat_of_nonneg hlen
    omega
  rw [← toUInt64_toNat_of_nonneg hoffset, ← toUInt64_toNat_of_nonneg hlen]
  norm_cast
  change (nbdfuseFallocate m s bytes mode offset len).Zeroed bytes offset.toUInt64.toNat
    len.toUInt64.toNat ↔ _
  simp only [nbdfuseFallocate, hlenNat]
  have hacces : -(eacces.toNat : Int) < 0 := by decide
  have hnotsupp : -(eopnotsupp.toNat : Int) < 0 := by decide
  cases hro : m.readonly with
  | true => exact iff_of_true (zeroed_of_error hacces) (fun h => by cases h)
  | false =>
    simp only [Bool.false_eq_true, if_false, forall_const]
    split
    · -- carried out as a trim
      split
      · next htrim => exact iff_of_true (zeroed_of_error hnotsupp) (.inl htrim)
      · next htrim =>
        rw [single_zeroed_iff]
        simp only [htrim, false_or]
    · next hpunch =>
      split
      · next hzero =>
        rw [zeroLoop_zeroed_iff]
        simp only [hzero, not_true_eq_false, false_or]
      · next hzero =>
        rw [single_zeroed_iff]
        simp only [hzero, not_false_eq_true, true_or, implies_true, or_true]

/-- An operation behaves as on a file of fixed size exactly when it is no zeroing that is
made by a trim which does not zero, or by more than one write of `zerobuf`. -/
theorem operation_fine_iff (m : Mount) (s : Server) (bytes : Bytes) (op : Operation) :
    op.Fine m s bytes ↔ op.Met m s bytes := by
  cases op with
  | read path count offset =>
    exact iff_of_true (nbdfuseRead_fine m s bytes path count offset) trivial
  | write path buf count offset =>
    exact iff_of_true (nbdfuseWrite_fine m s bytes path buf count offset) trivial
  | fallocate mode offset len => exact nbdfuseFallocate_fine_iff m s bytes mode offset len

/-- An export of 8192 bytes whose server knows no write-zeroes. -/
def plainMount : Mount where
  size := 8192
  readonly := false
  fileMode := true
  filename := []
  canTrim := 0
  canZero := 0
  sizeOk := by decide

/-- Zeroing it leaves its second half as it was, and is reported as done. -/
theorem zero_range_stays :
    ¬(Operation.fallocate fallocZeroRange 0 8192).Fine plainMount ⟨fun _ => .ok, fun _ => 0⟩
      fun _ => 1 := by
  intro hfine
  have hret : (nbdfuseFallocate plainMount ⟨fun _ => .ok, fun _ => 0⟩ (fun _ => 1)
      fallocZeroRange 0 8192).ret = 0 := by
    refine (zeroLoop_ret _ _ _ _ _).mpr fun _ _ => rfl
  have hbytes := hfine (by decide) ⟨by decide, by decide, by decide⟩ hret 4096
  have hloop := congrFun (zeroLoop_bytes ⟨fun _ => .ok, fun _ => 0⟩ 0 0 8192 (fun _ => 1) hret) 4096
  exact absurd (hloop.symm.trans hbytes) (by decide)

end Libnbd.Fuse
