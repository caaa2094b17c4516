import Libnbd.Copy.Exact
import Libnbd.Copy.FileOps
import Libnbd.Copy.FileExtents

/-!
The synchronous operations of the backends of nbdcopy: files (`copy/file-ops.c`), NBD servers
(`copy/nbd-ops.c`), pipes (`copy/pipe-ops.c`) and the null device (`copy/null-ops.c`).

What the system calls and the calls of libnbd return is a parameter, counted by the
operations that have been made. `At` and `Got` say what an operation is to do: reading brings
the bytes of the source in order, writing and zeroing give the destination the next ones.
-/

namespace Libnbd.Copy

open Lib

/-- How nbdcopy ends before its time: with `exit`, or by a failing assertion. -/
inductive Stopped where
  | exit
  | abort
  deriving DecidableEq, Repr

/-! ## Sources -/

/-- A file that does not change, and what `pread` returns: call by call of
`file_synch_read`. -/
structure FileSource where
  size : Nat
  content : Nat → UInt8
  isData : Nat → Bool
  seekHoleSupported : Bool
  seek : Seek
  pread : Nat → Nat → Option Nat
  reads : Nat

/-- A server, and which calls of `nbd_pread` succeed. `blockStatus k i offset count` is what
the `i`th question of the `k`th call of `get_extents` brings, when it asks about the `count`
bytes at `offset`. -/
structure NbdSource where
  size : Nat
  content : Nat → UInt8
  pread : Nat → Bool
  reads : Nat
  blockStatus : Nat → Nat → Nat → Nat → Option (List Invocation)
  asks : Nat

/-- What is still to come out of a pipe, and what `read` is ready to return. -/
structure PipeSource where
  data : List UInt8
  read : Nat → Option Nat
  reads : Nat

inductive Source where
  | file (f : FileSource)
  | nbd (n : NbdSource)
  | pipe (p : PipeSource)

namespace FileSource

variable (f : FileSource)

def kernel : Nat → Pread := fun i => ⟨f.pread f.reads i, f.content⟩

/-- `file_synch_read`: the bytes that it has put into the buffer. Its loop reads a byte at
least in each round, so that the counter does not run out (`fileSynchRead_ends`). -/
def synchRead (len offset : Nat) : Except Stopped (List UInt8 × FileSource) :=
  match fileSynchRead f.kernel (len + 1) len offset with
  | some (.ret n buf) =>
    .ok ((List.range n).map fun k => (buf k).getD 0, { f with reads := f.reads + 1 })
  | _ => .error .exit

def layout : Layout := ⟨f.size, f.isData⟩

end FileSource

namespace NbdSource

variable (n : NbdSource)

/-- `nbd_ops_synch_read`. -/
def synchRead (len offset : Nat) : Except Stopped (List UInt8 × NbdSource) :=
  let len := min len (n.size - offset)
  if len = 0 then .ok ([], n)
  else if n.pread n.reads then .ok (bytesOf n.content offset len, { n with reads := n.reads + 1 })
  else .error .exit

/-- The range that the `i`th question of a call of `get_extents` is about. -/
def question (offset count : Nat) : Nat → Nat × Nat
  | 0 => (offset, count)
  | i + 1 =>
    let (o, left) := question offset count i
    let told := min left (replyLengths ((n.blockStatus n.asks i o left).getD [])).sum
    (o + told, left - told)

/-- What the calls of `nbd_block_status_64` bring, in the next call of `get_extents`. -/
def server (offset count : Nat) : Server := fun i =>
  n.blockStatus n.asks i (n.question offset count i).1 (n.question offset count i).2

end NbdSource

namespace PipeSource

variable (p : PipeSource)

/-- `pipe_synch_read`. The call waits for at least one byte or for the end of the data. -/
def synchRead (len : Nat) : Except Stopped (List UInt8 × PipeSource) :=
  match p.read p.reads with
  | none => .error .exit
  | some r =>
    let r := min (max r 1) len
    .ok (p.data.take r, { p with data := p.data.drop r, reads := p.reads + 1 })

end PipeSource

namespace Source

/-- `rw->size`, where `none` is -1. -/
def size : Source → Option Nat
  | file f => some f.size
  | nbd n => some n.size
  | pipe _ => none

/-- `rw->ops->synch_read`. -/
def synchRead : Source → Nat → Nat → Except Stopped (List UInt8 × Source)
  | file f, len, offset => (f.synchRead len offset).map fun r => (r.1, file r.2)
  | nbd n, len, offset => (n.synchRead len offset).map fun r => (r.1, nbd r.2)
  | pipe p, len, _ => (p.synchRead len).map fun r => (r.1, pipe r.2)

/-- `rw->ops->get_extents`. Each round of its loops brings it forward by a byte at least, so that
the counters do not run out (`fileGetExtents_fine`, `nbdOpsGetExtents_ends`). -/
def getExtents (s : Source) (offset count : Nat) : Except Stopped (List Extent × Source) :=
  let found :=
    match s with
    | file f => (fileGetExtents f.seekHoleSupported f.seek count offset count, s)
    | nbd n =>
      (nbdOpsGetExtents (n.server offset count) (count + 1) offset count,
        nbd { n with asks := n.asks + 1 })
    | pipe _ => (some (.ok (defaultGetExtents offset count)), s)
  match found.1 with
  | some (.ok exts) => .ok (exts, found.2)
  | some .abort => .error .abort
  | _ => .error .exit

end Source

/-! ## Destinations -/

/-- The loop of `file_synch_write` and `pipe_synch_write`: `store` is what one system call does
with the bytes that it takes, one at least. So no more rounds are needed than there are
bytes. -/
def synchWriteFrom {δ : Type} (store : δ → List UInt8 → Nat → δ) (write : Nat → Option Nat) :
    Nat → Nat → δ → List UInt8 → Nat → Except Stopped δ
  | 0, _, d, _, _ => .ok d
  | fuel + 1, i, d, data, offset =>
    if data = [] then .ok d
    else
      match write i with
      | none => .error .exit
      | some r =>
        let r := min (max r 1) data.length
        synchWriteFrom store write fuel (i + 1) (store d (data.take r) offset) (data.drop r)
          (offset + r)

/-- One call of `pwrite`. -/
def File.pwrite (f : File) (data : List UInt8) (offset : Nat) : File :=
  { f with
    bytes := (DstOp.write offset data).apply f.bytes
    allocated := fun q => if offset ≤ q ∧ q < offset + data.length then true else f.allocated q }

/-- A file, and what the system calls return: call by call of `file_synch_write` and of
`file_synch_zero`. -/
structure FileDest where
  file : File
  pwrite : Nat → Nat → Option Nat
  writes : Nat
  zero : Nat → ZeroOp → SysResult
  zeroes : Nat

/-- The contents of an export, and which calls of `nbd_pwrite` and `nbd_zero` succeed. -/
structure NbdDest where
  bytes : Nat → UInt8
  canZero : Bool
  pwrite : Nat → Bool
  writes : Nat
  zero : Nat → Bool
  zeroes : Nat

/-- What has been written to a pipe. -/
structure PipeDest where
  written : List UInt8
  write : Nat → Nat → Option Nat
  writes : Nat

inductive Dest where
  | file (f : FileDest)
  | nbd (n : NbdDest)
  | pipe (p : PipeDest)
  | null

namespace FileDest

variable (f : FileDest)

/-- `file_synch_write`. -/
def synchWrite (data : List UInt8) (offset : Nat) : Except Stopped FileDest :=
  (synchWriteFrom File.pwrite (f.pwrite f.writes) data.length 0 f.file data offset).map fun file =>
    { f with file, writes := f.writes + 1 }

/-- `file_synch_zero`. -/
def synchZero (offset count : Nat) (allocate : Bool) : Except Stopped (Bool × FileDest) :=
  match fileSynchZero ⟨offset, count, allocate, f.zero f.zeroes⟩ f.file with
  | .exit => .error .exit
  | .ret r file => .ok (r, { f with file, zeroes := f.zeroes + 1 })

end FileDest

namespace NbdDest

variable (n : NbdDest)

/-- `nbd_ops_synch_write`. -/
def synchWrite (data : List UInt8) (offset : Nat) : Except Stopped NbdDest :=
  if n.pwrite n.writes then
    .ok { n with bytes := (DstOp.write offset data).apply n.bytes, writes := n.writes + 1 }
  else .error .exit

/-- `nbd_ops_synch_zero`. -/
def synchZero (offset count : Nat) : Except Stopped (Bool × NbdDest) :=
  if !n.canZero then .ok (false, n)
  else if n.zero n.zeroes then
    .ok (true, { n with bytes := (DstOp.zero offset count).apply n.bytes, zeroes := n.zeroes + 1 })
  else .error .exit

end NbdDest

/-- `pipe_synch_write`. -/
def PipeDest.synchWrite (p : PipeDest) (data : List UInt8) : Except Stopped PipeDest :=
  (synchWriteFrom (fun out bs _ => out ++ bs) (p.write p.writes) data.length 0 p.written data 0).map
    fun written => { p with written, writes := p.writes + 1 }

namespace Dest

/-- `rw->ops->synch_write`. -/
def synchWrite : Dest → List UInt8 → Nat → Except Stopped Dest
  | file f, data, offset => (f.synchWrite data offset).map file
  | nbd n, data, offset => (n.synchWrite data offset).map nbd
  | pipe p, data, _ => (p.synchWrite data).map pipe
  | null, _, _ => .ok null

/-- `rw->ops->synch_zero`. -/
def synchZero : Dest → Nat → Nat → Bool → Except Stopped (Bool × Dest)
  | file f, offset, count, allocate =>
    (f.synchZero offset count allocate).map fun r => (r.1, file r.2)
  | nbd n, offset, count, _ => (n.synchZero offset count).map fun r => (r.1, nbd r.2)
  | pipe p, _, _, _ => .ok (false, pipe p)
  | null, _, _, _ => .ok (true, null)

end Dest

/-! ## Reading -/

theorem bytesOf_take (content : Nat → UInt8) (o n m : Nat) :
    (bytesOf content o n).take m = bytesOf content o (min m n) := by
  refine List.ext_getElem (by simp) fun i h₁ h₂ => ?_
  simp only [bytesOf, List.getElem_take, List.getElem_map, List.getElem_range]

theorem bytesOf_drop (content : Nat → UInt8) (o n m : Nat) :
    (bytesOf content o n).drop m = bytesOf content (o + m) (n - m) := by
  refine List.ext_getElem (by simp) fun i h₁ h₂ => ?_
  simp only [bytesOf, List.getElem_drop, List.getElem_map, List.getElem_range, Nat.add_assoc]

theorem bytesOf_append (content : Nat → UInt8) (o m n : Nat) :
    bytesOf content o (m + n) = bytesOf content o m ++ bytesOf content (o + m) n := by
  have h := (List.take_append_drop m (bytesOf content o (m + n))).symm
  rwa [bytesOf_take, bytesOf_drop, Nat.min_eq_left (Nat.le_add_right m n),
    Nat.add_sub_cancel_left] at h

/-- `file_synch_read` returns. -/
theorem fileSynchRead_ends (kernel : Nat → Pread) (len offset : Nat) :
    fileSynchRead kernel (len + 1) len offset ≠ none := by
  suffices h : ∀ fuel i buf data len offset n, len < fuel →
      synchReadFrom kernel fuel i buf data len offset n ≠ none from h _ _ _ _ _ _ _ len.lt_succ_self
  intro fuel
  induction fuel with
  | zero => exact fun _ _ _ len _ _ h => absurd h (Nat.not_lt_zero len)
  | succ fuel ih =>
    intro i buf data len offset n hlt
    rw [synchReadFrom]
    split
    · exact Option.some_ne_none _
    · split
      · exact Option.some_ne_none _
      · dsimp only
        split
        · exact Option.some_ne_none _
        · exact ih _ _ _ _ _ _ (by omega)

/-- The loop of `file_synch_read`, started when `m` bytes have been read. -/
theorem synchReadFrom_filled {kernel : Nat → Pread} {offset fuel i m len n : Nat}
    {buf buf' : Nat → Option UInt8} (hm : FilledTo kernel offset m buf)
    (h : synchReadFrom kernel fuel i buf m len (offset + m) m = some (.ret n buf')) :
    FilledTo kernel offset n buf' ∧ n ≤ m + len := by
  induction fuel generalizing i m len buf with
  | zero => cases h
  | succ fuel ih =>
    rw [synchReadFrom] at h
    split at h
    · cases h
      exact ⟨hm, Nat.le_add_right _ _⟩
    · split at h
      · cases h
      · dsimp only at h
        split at h
        · cases h
          exact ⟨hm, Nat.le_add_right _ _⟩
        · rename_i r _ hr
          rw [Nat.add_assoc] at h
          obtain ⟨hfill, hle⟩ := ih hm.fill h
          exact ⟨hfill, by omega⟩

theorem FileSource.synchRead_eq {f f' : FileSource} {len offset : Nat} {bs : List UInt8}
    (h : f.synchRead len offset = .ok (bs, f')) :
    bs = bytesOf f.content offset bs.length ∧ bs.length ≤ len ∧
      f' = { f with reads := f.reads + 1 } := by
  unfold FileSource.synchRead at h
  split at h
  · rename_i n buf hrun
    have hinit : FilledTo f.kernel offset 0 fun _ => none :=
      ⟨fun k hk => absurd hk (Nat.not_lt_zero k), fun _ _ => rfl⟩
    obtain ⟨hfill, hle⟩ := synchReadFrom_filled hinit hrun
    obtain ⟨rfl, rfl⟩ := Prod.mk.inj (Except.ok.inj h)
    rw [List.length_map, List.length_range]
    refine ⟨List.map_congr_left fun k hk => ?_, by omega, rfl⟩
    obtain ⟨i, hi⟩ := hfill.1 k (List.mem_range.mp hk)
    rw [hi]
    rfl
  · cases h

theorem NbdSource.synchRead_eq {n n' : NbdSource} {len offset : Nat} {bs : List UInt8}
    (h : n.synchRead len offset = .ok (bs, n')) :
    bs = bytesOf n.content offset bs.length ∧ bs.length ≤ len ∧
      ∃ k, n' = { n with reads := k } := by
  unfold NbdSource.synchRead at h
  dsimp only at h
  split at h
  · cases h
    exact ⟨rfl, Nat.zero_le _, n.reads, by cases n; rfl⟩
  · split at h
    · cases h
      refine ⟨by rw [bytesOf_length], ?_, _, rfl⟩
      rw [bytesOf_length]
      exact Nat.min_le_left _ _
    · cases h

theorem PipeSource.synchRead_eq {p p' : PipeSource} {len : Nat} {bs : List UInt8}
    (h : p.synchRead len = .ok (bs, p')) :
    ∃ m ≤ len, bs = p.data.take m ∧ p'.data = p.data.drop m ∧ (0 < len → 0 < m) := by
  unfold PipeSource.synchRead at h
  split at h
  · cases h
  · rename_i r hr
    cases h
    exact ⟨min (max r 1) len, Nat.min_le_right _ _, rfl, rfl, fun hlen => by omega⟩

/-- Zeroes are marked as zeroes. -/
def ZeroTrue (content : Nat → UInt8) (exts : List Extent) : Prop :=
  ∀ e ∈ exts, e.zero = true → ZeroOn content e.offset e.length

/-- The replies of a server describe the contents at the offsets that it is asked about. -/
def Truthful (content : Nat → UInt8) (server : Server) (offset count : Nat) : Prop :=
  ∀ i invs, server i = some invs →
    ZeroTrue content (invs.flatMap (Invocation.extents (askedRange server offset count i).1))

/-- The source holds `content` in its `total` bytes, of which `o` have been read. -/
def Source.At (content : Nat → UInt8) (total o : Nat) : Source → Prop
  | .file f => f.content = content ∧ f.size = total ∧ f.seek.Documented f.layout ∧
      ∀ q < f.size, f.isData q = false → f.content q = 0
  | .nbd n => n.content = content ∧ n.size = total ∧
      ∀ k i offset count invs, n.blockStatus k i offset count = some invs →
        ZeroTrue content (invs.flatMap (Invocation.extents offset))
  | .pipe p => o ≤ total ∧ p.data = bytesOf content o (total - o)

/-- The loop of `nbd_ops_get_extents` asks the questions. -/
theorem NbdSource.askedRange_server (n : NbdSource) (offset count i : Nat) :
    askedRange (n.server offset count) offset count i = n.question offset count i := by
  induction i with
  | zero => rfl
  | succ i ih =>
    rw [askedRange_succ, advance, ih]
    rfl

section At

variable {content : Nat → UInt8} {total o : Nat} {s s' : Source}

/-- **Reading** goes on where the last read has stopped. -/
theorem Source.At.read (h : s.At content total o) {len : Nat} {bs : List UInt8}
    (hr : s.synchRead len o = .ok (bs, s')) :
    bs = bytesOf content o bs.length ∧ bs.length ≤ len ∧ s'.At content total (o + bs.length) := by
  cases s with
  | file f =>
    obtain ⟨r, hread, heq⟩ := map_ok hr
    obtain ⟨rfl, rfl⟩ := Prod.mk.inj heq
    obtain ⟨hbs, hlen, hf⟩ := FileSource.synchRead_eq hread
    obtain ⟨rfl, hsize, hseek, hhole⟩ := h
    refine ⟨hbs, hlen, ?_⟩
    rw [hf]
    exact ⟨rfl, hsize, hseek, hhole⟩
  | nbd n =>
    obtain ⟨r, hread, heq⟩ := map_ok hr
    obtain ⟨rfl, rfl⟩ := Prod.mk.inj heq
    obtain ⟨hbs, hlen, k, hn⟩ := NbdSource.synchRead_eq hread
    obtain ⟨rfl, hsize, htrue⟩ := h
    refine ⟨hbs, hlen, ?_⟩
    rw [hn]
    exact ⟨rfl, hsize, htrue⟩
  | pipe p =>
    obtain ⟨r, hread, heq⟩ := map_ok hr
    obtain ⟨rfl, rfl⟩ := Prod.mk.inj heq
    obtain ⟨hle, hdata⟩ := h
    obtain ⟨m, hm, hbs, hrest, -⟩ := PipeSource.synchRead_eq hread
    rw [hdata] at hbs hrest
    rw [bytesOf_take] at hbs
    rw [bytesOf_drop] at hrest
    have hlen : r.1.length = min m (total - o) := by rw [hbs, bytesOf_length]
    refine ⟨by rw [hlen, hbs], by omega, by omega, ?_⟩
    rw [hrest, hlen]
    by_cases hcase : m ≤ total - o
    · rw [Nat.min_eq_left hcase, Nat.sub_sub]
    · rw [Nat.min_eq_right (by omega), show total - o - m = 0 by omega,
        show total - (o + (total - o)) = 0 by omega]
      rfl

/-- A source of known size can be read anywhere. -/
theorem Source.At.skip (h : s.At content total o) (hs : s.size ≠ none) (k : Nat) :
    s.At content total k := by
  cases s with
  | pipe p => exact absurd rfl hs
  | _ => exact h

theorem Source.size_read {len : Nat} {bs : List UInt8} (hs : s.size ≠ none)
    (hr : s.synchRead len o = .ok (bs, s')) : s'.size ≠ none := by
  cases s with
  | pipe p => exact absurd rfl hs
  | _ =>
    obtain ⟨r, -, heq⟩ := map_ok hr
    obtain ⟨-, rfl⟩ := Prod.mk.inj heq
    exact Option.some_ne_none _

theorem Source.size_getExtents {n : Nat} {exts : List Extent} (he : s.getExtents o n = .ok (exts, s')) :
    s'.size = s.size := by
  unfold Source.getExtents at he
  cases s with
  | pipe p =>
    cases he
    rfl
  | _ =>
    dsimp only at he
    split at he
    · cases he
      rfl
    · cases he
    · cases he

theorem Source.At.size (h : s.At content total o) (hs : s.size ≠ none) : s.size = some total := by
  cases s with
  | pipe p => exact absurd rfl hs
  | file f => exact congrArg some h.2.1
  | nbd n => exact congrArg some h.2.1

/-- Only the end of its data makes a pipe return nothing. -/
theorem Source.At.read_pipe (h : s.At content total o) (hs : s.size = none) {len : Nat}
    {bs : List UInt8} (hr : s.synchRead len o = .ok (bs, s')) :
    s'.size = none ∧ o + bs.length ≤ total ∧ (0 < len → bs.length = 0 → o = total) := by
  cases s with
  | pipe p =>
    obtain ⟨-, -, hat⟩ := h.read hr
    obtain ⟨r, hread, heq⟩ := map_ok hr
    obtain ⟨rfl, rfl⟩ := Prod.mk.inj heq
    obtain ⟨m, -, hbs, -, hm⟩ := PipeSource.synchRead_eq hread
    refine ⟨rfl, hat.1, fun hlen hnil => ?_⟩
    have hpos := hm hlen
    have hle : o ≤ total := h.1
    rw [hbs, h.2, bytesOf_take, bytesOf_length] at hnil
    omega
  | _ => cases hs

end At

/-! ## Extents -/

section Extents

variable {content : Nat → UInt8} {total o n a : Nat} {exts ret ret' : List Extent}

theorem ZeroTrue.append (h₁ : ZeroTrue content exts) (h₂ : ZeroTrue content ret) :
    ZeroTrue content (exts ++ ret) := fun e he =>
  (List.mem_append.mp he).elim (h₁ e) (h₂ e)

/-- The extents that are copied tile what they bring the loop forward. -/
theorem copyExtents_tiles {o' n' : Nat} (hexts : ZeroTrue content exts)
    (ht : Tiles Extent.offset Extent.length a o ret) (hz : ZeroTrue content ret)
    (h : copyExtents exts o n ret = some (o', n', ret')) :
    Tiles Extent.offset Extent.length a o' ret' ∧ ZeroTrue content ret' := by
  induction exts generalizing o n ret with
  | nil =>
    cases h
    exact ⟨ht, hz⟩
  | cons e exts ih =>
    have hrest : ZeroTrue content exts := fun d hd => hexts d (List.mem_cons_of_mem _ hd)
    rw [copyExtents] at h
    split at h
    · cases h
    · rename_i ho
      have ho : e.offset = o := not_not.mp ho
      split at h
      · cases h
      · split at h
        · exact ih hrest ht hz h
        · rename_i hne
          have hsnoc := ht.snoc (x := { e with length := e.trim o n }) ho (Nat.pos_of_ne_zero hne) rfl
          refine ih hrest hsnoc (hz.append fun d hd hzero => ?_) h
          obtain rfl := List.mem_singleton.mp hd
          intro q hq hlt
          have htrim : e.trim o n ≤ e.length := by
            rw [Extent.trim_eq ho]
            exact Nat.min_le_right _ _
          exact hexts e List.mem_cons_self hzero q hq (by dsimp only at hlt; omega)

theorem getExtentsFrom_tiles {server : Server} {offset count fuel i : Nat}
    (htrue : Truthful content server offset count)
    (ht : Tiles Extent.offset Extent.length offset (askedRange server offset count i).1 ret)
    (hz : ZeroTrue content ret)
    (h : getExtentsFrom server fuel i (askedRange server offset count i).1
      (askedRange server offset count i).2 ret = some (.ok ret')) :
    Tiles Extent.offset Extent.length offset (offset + count) ret' ∧ ZeroTrue content ret' := by
  induction fuel generalizing i ret with
  | zero => cases h
  | succ fuel ih =>
    rw [getExtentsFrom] at h
    split at h
    · rename_i hcount
      cases h
      have hend := askedRange_end server offset count i
      rw [hcount, Nat.add_zero] at hend
      rw [hend] at ht
      exact ⟨ht, hz⟩
    · rename_i hcount
      split at h
      · cases h
      · rename_i invs hs
        rw [foldl_addExtent, List.nil_append] at h
        split at h
        · cases h
        · rename_i o' n' ret₁ hcopy
          split at h
          · cases h
          · obtain ⟨ht', hz'⟩ := copyExtents_tiles (htrue i invs hs) ht hz hcopy
            -- a reply that is out of order would have ended the program
            have hord : InOrder (askedRange server offset count i).2 invs := by
              by_contra hno
              rw [copy_reply_none (Nat.pos_of_ne_zero hcount) hno] at hcopy
              cases hcopy
            obtain ⟨news, -, hcopy'⟩ := copy_reply (o := (askedRange server offset count i).1) hord ret
            rw [hcopy] at hcopy'
            have hnext : askedRange server offset count (i + 1) = (o', n') := by
              rw [askedRange_succ, advance, hs, Option.getD_some]
              cases hcopy'
              rfl
            rw [show o' = (askedRange server offset count (i + 1)).1 by rw [hnext]] at ht' h
            rw [show n' = (askedRange server offset count (i + 1)).2 by rw [hnext]] at h
            exact ih ht' hz' h

/-- **The extents** of a source tile the range, and only zeroes are marked as zeroes. -/
theorem Source.At.getExtents {s s' : Source} (h : s.At content total o) (hn : 0 < n)
    (hle : o + n ≤ total) (he : s.getExtents o n = .ok (exts, s')) :
    Tiles Extent.offset Extent.length o (o + n) exts ∧ ZeroTrue content exts ∧
      s'.At content total o := by
  unfold Source.getExtents at he
  cases s with
  | file f =>
    obtain ⟨rfl, rfl, hseek, hhole⟩ := id h
    obtain ⟨ret, hrun, htiles, hsparse⟩ :=
      fileGetExtents_fine hseek f.seekHoleSupported hn (show o + n ≤ f.layout.size from hle)
    simp only [hrun n (Nat.le_refl n)] at he
    cases he
    refine ⟨htiles, fun e hmem hz q hq hlt => ?_, h⟩
    have hrange := htiles.mem_range hmem
    exact hhole q (by omega) (hsparse.holes e hmem hz q hq hlt)
  | nbd m =>
    obtain ⟨rfl, rfl, htrue⟩ := h
    dsimp only at he
    split at he
    · rename_i ret hrun
      cases he
      have hnil : Tiles Extent.offset Extent.length o
          (askedRange (m.server o n) o n 0).1 [] := rfl
      have hnone : ZeroTrue m.content [] := fun e he => by cases he
      have htruthful : Truthful m.content (m.server o n) o n := by
        intro i invs hi
        rw [m.askedRange_server]
        exact htrue _ _ _ _ _ hi
      obtain ⟨htiles, hz⟩ := getExtentsFrom_tiles htruthful hnil hnone hrun
      exact ⟨htiles, hz, rfl, rfl, htrue⟩
    · cases he
    · cases he
  | pipe p =>
    cases he
    refine ⟨⟨rfl, hn, rfl⟩, fun e hmem hz => ?_, h⟩
    rw [List.mem_singleton.mp hmem] at hz
    cases hz

end Extents

/-! ## Writing and zeroing -/

/-- The destination has got the first `o` bytes of `content`, and what is behind its `total`
bytes is as it was in `orig`. -/
def Dest.Got (orig : Dest) (content : Nat → UInt8) (total o : Nat) : Dest → Prop
  | .file f => ∃ f₀, orig = .file f₀ ∧ (∀ q < o, f.file.bytes q = content q) ∧
      ∀ q, total ≤ q → f.file.bytes q = f₀.file.bytes q
  | .nbd n => ∃ n₀, orig = .nbd n₀ ∧ (∀ q < o, n.bytes q = content q) ∧
      ∀ q, total ≤ q → n.bytes q = n₀.bytes q
  | .pipe p => ∃ p₀, orig = .pipe p₀ ∧ p.written = p₀.written ++ bytesOf content 0 o
  | .null => orig = .null

theorem Dest.got_zero (d : Dest) (content : Nat → UInt8) (total : Nat) : d.Got content total 0 d := by
  cases d with
  | file f => exact ⟨f, rfl, fun q hq => absurd hq (Nat.not_lt_zero q), fun _ _ => rfl⟩
  | nbd n => exact ⟨n, rfl, fun q hq => absurd hq (Nat.not_lt_zero q), fun _ _ => rfl⟩
  | pipe p => exact ⟨p, rfl, (List.append_nil _).symm⟩
  | null => rfl

section Write

variable {content : Nat → UInt8} {total o n : Nat} {orig d d' : Dest}

/-- **The write loops** hand all bytes over in order, however many a system call takes. -/
theorem synchWriteFrom_inv {δ : Type} {store : δ → List UInt8 → Nat → δ} {write : Nat → Option Nat}
    {P : δ → Nat → Prop} {stop : Nat}
    (hstore : ∀ d k m, P d k → k + m ≤ stop → P (store d (bytesOf content k m) k) (k + m))
    {fuel i k m : Nat} {d d' : δ} (hP : P d k) (hm : m ≤ fuel) (hstop : k + m = stop)
    (h : synchWriteFrom store write fuel i d (bytesOf content k m) k = .ok d') : P d' stop := by
  induction fuel generalizing i k m d with
  | zero =>
    cases h
    obtain rfl : k = stop := by omega
    exact hP
  | succ fuel ih =>
    rw [synchWriteFrom] at h
    split at h
    · rename_i hnil
      cases h
      have hlen := congrArg List.length hnil
      rw [bytesOf_length, List.length_nil] at hlen
      obtain rfl : k = stop := by omega
      exact hP
    · split at h
      · cases h
      · rename_i hne _ r hr
        have hpos : 0 < m := by
          refine Nat.pos_of_ne_zero fun h0 => hne ?_
          rw [h0]
          rfl
        dsimp only at h
        rw [bytesOf_length, bytesOf_take, bytesOf_drop] at h
        have hmin : min (min (max r 1) m) m = min (max r 1) m := by omega
        rw [hmin] at h
        exact ih (hstore _ _ _ hP (by omega)) (by omega) (by omega) h

theorem synchWriteFrom_append {write : Nat → Option Nat} {fuel i k : Nat}
    {out out' data : List UInt8} (hd : data.length ≤ fuel)
    (h : synchWriteFrom (fun out bs _ => out ++ bs) write fuel i out data k = .ok out') :
    out' = out ++ data := by
  induction fuel generalizing i k out data with
  | zero =>
    cases h
    rw [List.eq_nil_of_length_eq_zero (Nat.le_zero.mp hd), List.append_nil]
  | succ fuel ih =>
    rw [synchWriteFrom] at h
    split at h
    · rename_i hnil
      cases h
      rw [hnil, List.append_nil]
    · split at h
      · cases h
      · rename_i hne _ r hr
        have hpos : 0 < data.length := List.length_pos_of_ne_nil hne
        rw [ih (by rw [List.length_drop]; omega) h, List.append_assoc, List.take_append_drop]

/-- The bytes after a write of the right bytes. -/
theorem apply_write (content bytes : Nat → UInt8) (k m q : Nat) :
    (DstOp.write k (bytesOf content k m)).apply bytes q =
      if k ≤ q ∧ q < k + m then content q else bytes q := by
  have happ : (DstOp.write k (bytesOf content k m)).apply bytes q =
      if k ≤ q ∧ q < k + (bytesOf content k m).length then (bytesOf content k m).getD (q - k) 0
      else bytes q := rfl
  rw [happ, bytesOf_length]
  by_cases hin : k ≤ q ∧ q < k + m
  · rw [if_pos hin, if_pos hin]
    have hlt : q - k < m := by omega
    have hback : k + (q - k) = q := Nat.add_sub_cancel' hin.1
    simp [bytesOf, List.getD, hlt, hback]
  · rw [if_neg hin, if_neg hin]

theorem apply_zero (hz : ZeroOn content o n) (bytes : Nat → UInt8) (q : Nat) :
    (DstOp.zero o n).apply bytes q = if o ≤ q ∧ q < o + n then content q else bytes q := by
  have happ : (DstOp.zero o n).apply bytes q = if o ≤ q ∧ q < o + n then 0 else bytes q := rfl
  rw [happ]
  by_cases hin : o ≤ q ∧ q < o + n
  · rw [if_pos hin, if_pos hin, hz q hin.1 hin.2]
  · rw [if_neg hin, if_neg hin]

/-- What a random-access destination has got when the next bytes have been put there. -/
theorem got_next {bytes bytes' before : Nat → UInt8} {k m : Nat}
    (hb : ∀ q, bytes' q = if k ≤ q ∧ q < k + m then content q else bytes q)
    (h : (∀ q < k, bytes q = content q) ∧ ∀ q, total ≤ q → bytes q = before q)
    (hle : k + m ≤ total) :
    (∀ q < k + m, bytes' q = content q) ∧ ∀ q, total ≤ q → bytes' q = before q := by
  refine ⟨fun q hq => ?_, fun q hq => ?_⟩
  · rw [hb]
    split
    · rfl
    · exact h.1 q (by omega)
  · rw [hb, if_neg (by omega)]
    exact h.2 q hq

/-- **Writing** the next bytes. -/
theorem Dest.Got.write (h : orig.Got content total o d) (hle : o + n ≤ total)
    (hw : d.synchWrite (bytesOf content o n) o = .ok d') : orig.Got content total (o + n) d' := by
  cases d with
  | file f =>
    obtain ⟨f', hf, rfl⟩ := map_ok hw
    obtain ⟨file, hfile, rfl⟩ := map_ok hf
    obtain ⟨f₀, rfl, hgot⟩ := h
    rw [bytesOf_length] at hfile
    refine ⟨f₀, rfl, ?_⟩
    refine synchWriteFrom_inv
      (P := fun (file : File) k => (∀ q < k, file.bytes q = content q) ∧
        ∀ q, total ≤ q → file.bytes q = f₀.file.bytes q)
      (fun file k m hP hstop => ?_) hgot (Nat.le_refl n) rfl hfile
    exact got_next (apply_write content file.bytes k m) hP (by omega)
  | nbd m =>
    obtain ⟨m', hm, rfl⟩ := map_ok hw
    obtain ⟨m₀, rfl, hgot⟩ := h
    unfold NbdDest.synchWrite at hm
    split at hm
    · cases hm
      exact ⟨m₀, rfl, got_next (apply_write content m.bytes o n) hgot hle⟩
    · cases hm
  | pipe p =>
    obtain ⟨p', hp, rfl⟩ := map_ok hw
    obtain ⟨written, hwritten, rfl⟩ := map_ok hp
    obtain ⟨p₀, rfl, hgot⟩ := h
    refine ⟨p₀, rfl, ?_⟩
    show written = _
    rw [synchWriteFrom_append (Nat.le_refl _) hwritten, hgot, List.append_assoc, bytesOf_append,
      Nat.zero_add]
  | null =>
    cases hw
    exact h

/-- `file_synch_zero` touches nothing but its range, and what it says it has zeroed is
zero. -/
def SynchZero.Clears (c : ZeroCall) (f₀ : File) : SynchZero → Prop
  | .exit => True
  | .ret r f => (∀ q, ¬ (c.offset ≤ q ∧ q < c.offset + c.count) → f.bytes q = f₀.bytes q) ∧
      (r = true → ∀ q, c.offset ≤ q → q < c.offset + c.count → f.bytes q = 0)

section Zero

variable {c : ZeroCall} {f f₀ : File}

/-- Nothing has been touched but the range. -/
def Framed (c : ZeroCall) (f₀ f : File) : Prop :=
  ∀ q, ¬ (c.offset ≤ q ∧ q < c.offset + c.count) → f.bytes q = f₀.bytes q

theorem Framed.call (h : Framed c f₀ f) (op : ZeroOp) : Framed c f₀ (f.call c op) := by
  intro q hq
  rw [← h q hq]
  unfold File.call
  cases c.kernel op <;> cases op <;> first | rfl | exact if_neg hq

/-- The operations that clear the range, when they succeed. -/
theorem call_clears {op : ZeroOp} (hk : c.kernel op = .ok) (hop : op ≠ .fallocate) (q : Nat)
    (hq : c.offset ≤ q ∧ q < c.offset + c.count) : (f.call c op).bytes q = 0 := by
  unfold File.call
  rw [hk]
  cases op <;> first | exact absurd rfl hop | exact if_pos hq

theorem tryZero_clears {op : ZeroOp} {k : Bool → File → SynchZero}
    (hok : c.kernel op = .ok → (k true (f.call c op)).Clears c f₀)
    (hno : c.kernel op = .unsupported → (k false (f.call c op)).Clears c f₀) :
    (tryZero op c f k).Clears c f₀ := by
  unfold tryZero
  cases hk : c.kernel op with
  | ok => exact hok hk
  | unsupported => exact hno hk
  | failed => trivial

theorem synchZeroRest_clears (h : Framed c f₀ f) : (synchZeroRest c f).Clears c f₀ := by
  unfold synchZeroRest
  split
  · refine tryZero_clears (fun hk => ?_) fun _ => ⟨h.call .punchHole, by simp⟩
    have hframe := (h.call .punchHole).call .fallocate
    rw [if_pos rfl]
    split
    · -- `fallocate` leaves the hole as it is
      refine ⟨hframe, fun _ q hlo hhi => ?_⟩
      have hsame : ((f.call c .punchHole).call c .fallocate).bytes q =
          (f.call c .punchHole).bytes q := by
        generalize f.call c .punchHole = g
        unfold File.call
        cases c.kernel .fallocate <;> rfl
      rw [hsame, call_clears hk (by decide) q ⟨hlo, hhi⟩]
    · exact ⟨hframe, by simp⟩
  · split
    · split
      · trivial
      · split
        · exact tryZero_clears (fun hk => ⟨h.call .zeroout, fun _ q hlo hhi =>
            call_clears hk (by decide) q ⟨hlo, hhi⟩⟩) fun _ => ⟨h.call .zeroout, by simp⟩
        · exact ⟨h, by simp⟩
    · exact ⟨h, by simp⟩

theorem synchZeroRange_clears (h : Framed c f₀ f) : (synchZeroRange c f).Clears c f₀ := by
  unfold synchZeroRange
  split
  · exact tryZero_clears (fun hk => ⟨h.call .zeroRange, fun _ q hlo hhi =>
      call_clears hk (by decide) q ⟨hlo, hhi⟩⟩) fun _ => synchZeroRest_clears (h.call .zeroRange)
  · exact synchZeroRest_clears h

theorem fileSynchZero_clears (c : ZeroCall) (f : File) : (fileSynchZero c f).Clears c f := by
  have h : Framed c f f := fun _ _ => rfl
  unfold fileSynchZero
  split
  · exact tryZero_clears (fun hk => ⟨h.call .punchHole, fun _ q hlo hhi =>
      call_clears hk (by decide) q ⟨hlo, hhi⟩⟩) fun _ => synchZeroRange_clears (h.call .punchHole)
  · exact synchZeroRange_clears h

end Zero

/-- **Zeroing** the next bytes: if it is not done, the bytes before are still there. -/
theorem Dest.Got.zero (h : orig.Got content total o d) (hz : ZeroOn content o n)
    (hle : o + n ≤ total) {allocate r : Bool} (hd : d.synchZero o n allocate = .ok (r, d')) :
    orig.Got content total (if r then o + n else o) d' := by
  cases d with
  | file f =>
    obtain ⟨x, hx, heq⟩ := map_ok hd
    obtain ⟨rfl, rfl⟩ := Prod.mk.inj heq
    obtain ⟨f₀, rfl, hbefore, hbehind⟩ := h
    have hclears := fileSynchZero_clears ⟨o, n, allocate, f.zero f.zeroes⟩ f.file
    unfold FileDest.synchZero at hx
    split at hx
    · cases hx
    · rename_i r g hrun
      cases hx
      rw [hrun] at hclears
      obtain ⟨hframe, hzero⟩ := hclears
      refine ⟨f₀, rfl, fun q hq => ?_, fun q hq => ?_⟩
      · by_cases hin : o ≤ q ∧ q < o + n
        · cases r with
          | false =>
            have hq : q < o := hq
            omega
          | true => exact (hzero rfl q hin.1 hin.2).trans (hz q hin.1 hin.2).symm
        · refine (hframe q hin).trans (hbefore q ?_)
          cases r with
          | false => exact hq
          | true =>
            have hq : q < o + n := hq
            omega
      · refine (hframe q ?_).trans (hbehind q hq)
        dsimp only
        omega
  | nbd m =>
    obtain ⟨x, hx, heq⟩ := map_ok hd
    obtain ⟨rfl, rfl⟩ := Prod.mk.inj heq
    obtain ⟨m₀, rfl, hgot⟩ := h
    unfold NbdDest.synchZero at hx
    split at hx
    · cases hx
      exact ⟨m₀, rfl, hgot⟩
    · split at hx
      · cases hx
        exact ⟨m₀, rfl, got_next (apply_zero hz m.bytes) hgot hle⟩
      · cases hx
  | pipe p =>
    cases hd
    exact h
  | null =>
    cases hd
    exact h

end Write

end Libnbd.Copy
