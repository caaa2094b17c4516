import Libnbd.Copy.FileOps
import Libnbd.Negotiation.Flags

/-!
The request size, sparse size and queue size of nbdcopy (`copy/main.c`).

They come from the command line, where each is checked, and from the preferred block
sizes of source and destination, which are only known afterwards. The three are of
type `unsigned`; the preferred sizes have 64 bits.
-/

namespace Libnbd.Copy

/-- `MIN_REQUEST_SIZE`, `MAX_REQUEST_SIZE` and `THREAD_WORK_SIZE`. -/
def minRequestSize : Nat := 4096
def maxRequestSize : Nat := 32 * 1024 * 1024
def threadWorkSize : Nat := 128 * 1024 * 1024

def uintMax : Nat := 4294967295

/-! ## Options -/

/-- The tests on `--queue-size`, `--request-size` and `--sparse`. -/
def acceptQueueSize (n : Nat) : Bool := decide (n ≤ uintMax)

def acceptRequestSize (n : Nat) : Bool :=
  !(decide (n < minRequestSize) || decide (n > maxRequestSize) || !isPowerOf2 n)

def acceptSparse (n : Nat) : Bool :=
  !(n != 0 && (decide (n < 512) || decide (n > uintMax) || !isPowerOf2 n))

/-- The three variables, which only ever hold values that have been accepted. -/
structure Options where
  queueSize : Nat
  requestSize : Nat
  sparseSize : Nat
  queueOk : acceptQueueSize queueSize = true
  requestOk : acceptRequestSize requestSize = true
  sparseOk : acceptSparse sparseSize = true

/-- The values without options. -/
def Options.initial : Options where
  queueSize := 16 * 1024 * 1024
  requestSize := 262144
  sparseSize := 4096
  queueOk := by decide
  requestOk := by decide
  sparseOk := by decide

/-- An option with its argument as `human_size_parse` returns it. -/
inductive SizeOption where
  | queueSize (n : Nat)
  | requestSize (n : Nat)
  | sparse (n : Nat)

/-- One round of the option loop; `none` is for `exit`. -/
def Options.set (o : Options) : SizeOption → Option Options
  | .queueSize n => if h : acceptQueueSize n = true then some { o with queueSize := n, queueOk := h } else none
  | .requestSize n =>
    if h : acceptRequestSize n = true then some { o with requestSize := n, requestOk := h } else none
  | .sparse n => if h : acceptSparse n = true then some { o with sparseSize := n, sparseOk := h } else none

/-! ## Backends -/

/-- A source or a destination, with what decides its preferred block size: a connected
handle, the optimal I/O size of a block device, `st_blksize` of a regular file. -/
inductive Backend where
  | nbd (h : Negotiation.Handle)
  | block (blkioopt : UInt32)
  | regular (blksize : UInt64)
  | other

/-- A size is taken if it is a power of 2. -/
def preferredOr4096 (n : Nat) : Nat := if n > 0 && isPowerOf2 n then n else 4096

/-- `rw->preferred`; `none` is for `exit`. -/
def Backend.preferred : Backend → Option Nat
  | .nbd h =>
    if h.getBlockSize .preferred = -1 then none
    else some (preferredOr4096 (h.getBlockSize .preferred).toNat)
  | .block blkioopt => some (preferredOr4096 blkioopt.toNat)
  | .regular blksize => some (preferredOr4096 blksize.toNat)
  | .other => some 4096

/-! ## The sizes -/

structure Sizes where
  requestSize : Nat
  queueSize : Nat
  sparseSize : Nat
  deriving DecidableEq, Repr

/-- How this part of `main` ends: with `exit`, by a failing assertion, or with the sizes. -/
inductive MainSizes where
  | exit
  | abort
  | ok (s : Sizes)
  deriving DecidableEq, Repr

/-- The request size after the two `MAX`, each of which is cut to `unsigned`. -/
def deriveRequestSize (requestSize src dst : Nat) : Nat :=
  max (max requestSize src % 2 ^ 32) dst % 2 ^ 32

def deriveSizes (o : Options) (src dst : Nat) : MainSizes :=
  if !(src > 0 && isPowerOf2 src) || !(dst > 0 && isPowerOf2 dst) then .abort
  else
    let requestSize := deriveRequestSize o.requestSize src dst
    if requestSize = 0 ∨ requestSize > maxRequestSize ∨ requestSize > threadWorkSize ∨
        isPowerOf2 requestSize = false then .abort
    else
      let queueSize := if requestSize > o.queueSize then requestSize else o.queueSize
      let sparseSize :=
        if o.sparseSize > 0 ∧ o.sparseSize < dst then dst % 2 ^ 32 else o.sparseSize
      if sparseSize ≠ 0 ∧ isPowerOf2 sparseSize = false then .abort
      else .ok ⟨requestSize, queueSize, sparseSize⟩

def mainSizes (o : Options) (src dst : Backend) : MainSizes :=
  match src.preferred, dst.preferred with
  | some s, some d => deriveSizes o s d
  | _, _ => .exit

/-- What is to come out of it. -/
def MainSizes.Fine : MainSizes → Prop
  | .exit => True
  | .abort => False
  | .ok s => (0 < s.requestSize ∧ isPowerOf2 s.requestSize = true ∧ s.requestSize ≤ maxRequestSize ∧
      s.requestSize ≤ threadWorkSize) ∧ (s.sparseSize = 0 ∨ isPowerOf2 s.sparseSize = true) ∧
      s.requestSize ≤ s.queueSize

/-! ## Which preferred sizes are fine -/

theorem isPowerOf2_iff {n : Nat} : isPowerOf2 n = true ↔ n.isPowerOfTwo := by
  rw [← Nat.ne_zero_and_sub_one_eq_zero_iff_isPowerOfTwo]
  simp [isPowerOf2]

theorem mod_of_isPowerOf2 {n : Nat} (h : isPowerOf2 n = true) (hn : 2 ^ 32 ≤ n) : n % 2 ^ 32 = 0 := by
  obtain ⟨k, rfl⟩ := isPowerOf2_iff.mp h
  have hk : 32 ≤ k := (Nat.pow_le_pow_iff_right (by decide)).mp hn
  exact Nat.mod_eq_zero_of_dvd (Nat.pow_dvd_pow 2 hk)

theorem preferredOr4096_isPowerOf2 (n : Nat) : isPowerOf2 (preferredOr4096 n) = true := by
  unfold preferredOr4096
  split
  · rename_i h
    exact (Bool.and_eq_true_iff.mp h).2
  · decide

theorem Backend.preferred_isPowerOf2 {b : Backend} {n : Nat} (h : b.preferred = some n) :
    isPowerOf2 n = true := by
  cases b with
  | nbd hd =>
    simp only [Backend.preferred] at h
    split at h
    · cases h
    · rw [← Option.some.inj h]
      exact preferredOr4096_isPowerOf2 _
  | block | regular =>
    cases h
    exact preferredOr4096_isPowerOf2 _
  | other =>
    cases h
    decide

theorem pos_of_isPowerOf2 {n : Nat} (h : isPowerOf2 n = true) : 0 < n :=
  Nat.pos_of_isPowerOfTwo (isPowerOf2_iff.mp h)

theorem max_isPowerOf2 {a b : Nat} (ha : isPowerOf2 a = true) (hb : isPowerOf2 b = true) :
    isPowerOf2 (max a b) = true := by
  rcases Nat.le_total a b with h | h
  · rwa [Nat.max_eq_right h]
  · rwa [Nat.max_eq_left h]

/-- Preferred sizes that keep the request size in bounds. A source whose size does not
fit `unsigned` counts for nothing. -/
def SizesFit (src dst : Nat) : Prop :=
  dst ≤ maxRequestSize ∧ (src ≤ maxRequestSize ∨ 2 ^ 32 ≤ src)

variable {r src dst : Nat}

theorem deriveRequestSize_fits (hr : isPowerOf2 r = true) (hmax : r ≤ maxRequestSize)
    (hs : isPowerOf2 src = true) (hd : isPowerOf2 dst = true) (hfit : SizesFit src dst) :
    0 < deriveRequestSize r src dst ∧ deriveRequestSize r src dst ≤ maxRequestSize ∧
      isPowerOf2 (deriveRequestSize r src dst) = true := by
  obtain ⟨hdst, hsrc⟩ := hfit
  have hbound : maxRequestSize < 2 ^ 32 := by decide
  unfold deriveRequestSize
  rcases hsrc with hsrc | hsrc
  · have h₁ : max r src % 2 ^ 32 = max r src := Nat.mod_eq_of_lt (by omega)
    have h₂ : max (max r src) dst % 2 ^ 32 = max (max r src) dst := Nat.mod_eq_of_lt (by omega)
    rw [h₁, h₂]
    have hpow := max_isPowerOf2 (max_isPowerOf2 hr hs) hd
    exact ⟨pos_of_isPowerOf2 hpow, by omega, hpow⟩
  · have h₁ : max r src % 2 ^ 32 = 0 := by
      rw [Nat.max_eq_right (by omega)]
      exact mod_of_isPowerOf2 hs hsrc
    have h₂ : max 0 dst % 2 ^ 32 = dst := by
      rw [Nat.zero_max]
      exact Nat.mod_eq_of_lt (by omega)
    rw [h₁, h₂]
    exact ⟨pos_of_isPowerOf2 hd, hdst, hd⟩

theorem deriveRequestSize_not_fits (hmax : r ≤ maxRequestSize)
    (hd : isPowerOf2 dst = true) (hfit : ¬ SizesFit src dst) :
    deriveRequestSize r src dst = 0 ∨ maxRequestSize < deriveRequestSize r src dst := by
  have hbound : maxRequestSize < 2 ^ 32 := by decide
  have hlt : max r src % 2 ^ 32 < 2 ^ 32 := Nat.mod_lt _ (by decide)
  unfold SizesFit at hfit
  unfold deriveRequestSize
  by_cases hdst : dst ≤ maxRequestSize
  · -- the source is too large
    have hsrc : maxRequestSize < src ∧ src < 2 ^ 32 := by
      push Not at hfit
      exact hfit hdst
    have h₁ : max r src % 2 ^ 32 = max r src := Nat.mod_eq_of_lt (by omega)
    have h₂ : max (max r src) dst % 2 ^ 32 = max (max r src) dst := Nat.mod_eq_of_lt (by omega)
    rw [h₁, h₂]
    right
    omega
  · by_cases hover : 2 ^ 32 ≤ dst
    · left
      rw [Nat.max_eq_right (by omega)]
      exact mod_of_isPowerOf2 hd hover
    · right
      rw [Nat.mod_eq_of_lt (by omega)]
      omega

theorem Options.requestSize_ok (o : Options) :
    isPowerOf2 o.requestSize = true ∧ o.requestSize ≤ maxRequestSize := by
  have h := o.requestOk
  simp only [acceptRequestSize, Bool.not_eq_true', Bool.or_eq_false_iff, decide_eq_false_iff_not,
    Bool.not_eq_false'] at h
  exact ⟨h.2, Nat.le_of_not_lt h.1.2⟩

theorem Options.sparseSize_ok (o : Options) (h : o.sparseSize ≠ 0) : isPowerOf2 o.sparseSize = true := by
  have hs := o.sparseOk
  simp only [acceptSparse, bne_iff_ne.mpr h, Bool.true_and, Bool.not_eq_true', Bool.or_eq_false_iff,
    Bool.not_eq_false'] at hs
  exact hs.2

theorem deriveSizes_fine_iff (o : Options) (hs : isPowerOf2 src = true) (hd : isPowerOf2 dst = true) :
    (deriveSizes o src dst).Fine ↔ SizesFit src dst := by
  obtain ⟨hr, hmax⟩ := o.requestSize_ok
  have hwork : maxRequestSize ≤ threadWorkSize := by decide
  have hpref : ¬ ((!(decide (src > 0) && isPowerOf2 src) || !(decide (dst > 0) && isPowerOf2 dst)) = true) := by
    simp [hs, hd, pos_of_isPowerOf2 hs, pos_of_isPowerOf2 hd]
  unfold deriveSizes
  rw [if_neg hpref]
  by_cases hfit : SizesFit src dst
  · obtain ⟨hpos, hle, hpow⟩ := deriveRequestSize_fits hr hmax hs hd hfit
    -- the sparse size is that of the options or that of the destination
    have hsparse : ∀ n, n = (if o.sparseSize > 0 ∧ o.sparseSize < dst then dst % 2 ^ 32
        else o.sparseSize) → n = 0 ∨ isPowerOf2 n = true := by
      rintro n rfl
      split
      · rw [Nat.mod_eq_of_lt (Nat.lt_of_le_of_lt hfit.1 (by decide))]
        exact .inr hd
      · by_cases hz : o.sparseSize = 0
        · exact .inl hz
        · exact .inr (o.sparseSize_ok hz)
    have hreq : ¬ (deriveRequestSize o.requestSize src dst = 0 ∨
        deriveRequestSize o.requestSize src dst > maxRequestSize ∨
        deriveRequestSize o.requestSize src dst > threadWorkSize ∨
        isPowerOf2 (deriveRequestSize o.requestSize src dst) = false) := by
      rintro (h | h | h | h)
      · omega
      · omega
      · omega
      · rw [hpow] at h
        cases h
    refine iff_of_true ?_ hfit
    simp only
    rw [if_neg hreq, if_neg]
    · refine ⟨⟨hpos, hpow, hle, Nat.le_trans hle hwork⟩, hsparse _ rfl, ?_⟩
      simp only
      split <;> omega
    · rintro ⟨hz, hno⟩
      rcases hsparse _ rfl with h | h
      · exact hz h
      · rw [hno] at h
        cases h
  · refine iff_of_false ?_ hfit
    simp only
    rw [if_pos]
    · exact id
    · exact (deriveRequestSize_not_fits hmax hd hfit).imp id .inl

/-- **Derived sizes**: whatever the options, the sizes pass the assertions of `main`
exactly when the preferred sizes of source and destination fit. -/
theorem mainSizes_fine_iff (o : Options) (src dst : Backend) :
    (mainSizes o src dst).Fine ↔
      ∀ s d, src.preferred = some s → dst.preferred = some d → SizesFit s d := by
  unfold mainSizes
  cases hs : src.preferred with
  | none => exact iff_of_true trivial nofun
  | some s =>
    cases hd : dst.preferred with
    | none => exact iff_of_true trivial nofun
    | some d =>
      rw [deriveSizes_fine_iff o (Backend.preferred_isPowerOf2 hs) (Backend.preferred_isPowerOf2 hd)]
      constructor
      · rintro hfit _ _ ⟨⟩ ⟨⟩
        exact hfit
      · exact fun hfit => hfit s d rfl rfl

/-- A server that advertises a preferred block size of 2 GiB. -/
def hugeBlocks : Negotiation.Handle :=
  let h := Negotiation.Handle.create fun _ => 0
  { h with exp := { h.exp with exportsize := 1048576, eflags := 1 } }.setBlockSize 512 0x80000000
    0xffffffff

theorem huge_blocks_abort : ¬ ∀ o src dst, (mainSizes o src dst).Fine := by
  intro hall
  have habort : mainSizes .initial (.nbd hugeBlocks) .other = .abort := by decide +kernel
  have hfine := hall .initial (.nbd hugeBlocks) .other
  rw [habort] at hfine
  exact hfine

end Libnbd.Copy
