import Libnbd.Handle
import Libnbd.Lib.Tiling
import Mathlib.Data.Nat.Find

/-!
Extent lists of nbdcopy from an NBD server (`nbd_ops_get_extents` and `add_extent` in
`copy/nbd-ops.c`).

Positions and lengths are natural numbers: libnbd cuts the extents of a reply at the
end of the export, and nbdcopy refuses exports of more than `INT64_MAX` bytes.
-/

namespace Libnbd.Copy

open Lib

/-- `struct extent`. -/
structure Extent where
  offset : Nat
  length : Nat
  zero : Bool
  deriving DecidableEq, Repr

/-- `nbd_extent`: a descriptor as the callback gets it. -/
structure Entry where
  length : Nat
  flags : UInt64
  deriving DecidableEq, Repr

/-- `LIBNBD_STATE_ZERO`. -/
def stateZero : UInt64 := 2

/-- `"base:allocation"`. -/
def baseAllocation : CString := [98, 97, 115, 101, 58, 97, 108, 108, 111, 99, 97, 116, 105, 111, 110]

/-- One call of the extent callback. -/
structure Invocation where
  metacontext : CString
  entries : List Entry
  error : UInt32
  deriving DecidableEq, Repr

/-- The loop of `add_extent`. -/
def addExtents (offset : Nat) : List Entry → List Extent
  | [] => []
  | e :: es => ⟨offset, e.length, e.flags &&& stateZero != 0⟩ :: addExtents (offset + e.length) es

def addExtent (offset : Nat) (ret : List Extent) (inv : Invocation) : List Extent :=
  if inv.metacontext != baseAllocation || inv.error != 0 then ret
  else ret ++ addExtents offset inv.entries

/-- The length after the extent has been cut at the end of the range. -/
def Extent.trim (offset count : Nat) (e : Extent) : Nat :=
  if e.offset + e.length > offset + count then
    e.length - (e.offset + e.length - offset - count)
  else e.length

/-- The inner loop of `nbd_ops_get_extents`; `none` when an assertion fails. -/
def copyExtents : List Extent → Nat → Nat → List Extent → Option (Nat × Nat × List Extent)
  | [], offset, count, ret => some (offset, count, ret)
  | e :: exts, offset, count, ret =>
    if e.offset ≠ offset then none
    else if e.offset + e.length > offset + count ∧
        e.offset + e.trim offset count ≠ offset + count then none
    else if e.trim offset count = 0 then copyExtents exts offset count ret
    else
      copyExtents exts (offset + e.trim offset count) (count - e.trim offset count)
        (ret ++ [{ e with length := e.trim offset count }])

/-- How `get_extents` ends: with `exit`, by a failing assertion, or with a list. -/
inductive GetExtents where
  | exit
  | abort
  | ok (ret : List Extent)
  deriving DecidableEq, Repr

/-- What the calls of `nbd_block_status_64` bring: -1, or the calls of the callback. -/
abbrev Server := Nat → Option (List Invocation)

/-- The outer loop, from the `i`th call of `nbd_block_status_64` on. -/
def getExtentsFrom (server : Server) : Nat → Nat → Nat → Nat → List Extent → Option GetExtents
  | 0, _, _, _, _ => none
  | fuel + 1, i, offset, count, ret =>
    if count = 0 then some (.ok ret)
    else
      match server i with
      | none => some .exit
      | some invs =>
        match copyExtents (invs.foldl (addExtent offset) []) offset count ret with
        | none => some .abort
        | some (offset', count', ret') =>
          if offset' = offset then some .exit
          else getExtentsFrom server fuel (i + 1) offset' count' ret'

def nbdOpsGetExtents (server : Server) (fuel offset count : Nat) : Option GetExtents :=
  getExtentsFrom server fuel 0 offset count []

/-! ## What the server may say -/

/-- The lengths that a call of the callback is taken for. -/
def Invocation.lengths (inv : Invocation) : List Nat :=
  if inv.metacontext != baseAllocation || inv.error != 0 then [] else inv.entries.map Entry.length

/-- The lengths of the whole reply. -/
def replyLengths (invs : List Invocation) : List Nat := invs.flatMap Invocation.lengths

/-- All entries of `base:allocation` start inside the `count` bytes asked for or at
their end, and once a call has described some bytes no other call has entries. -/
def InOrder (count : Nat) : List Invocation → Prop
  | [] => True
  | inv :: invs => inv.lengths.dropLast.sum ≤ count ∧
      if inv.lengths.sum = 0 then InOrder count invs else replyLengths invs = []

/-- The range that the `i`th call asks about. -/
def askedRange (server : Server) (offset count : Nat) : Nat → Nat × Nat
  | 0 => (offset, count)
  | i + 1 =>
    let (o, n) := askedRange server offset count i
    let told := min n (replyLengths ((server i).getD [])).sum
    (o + told, n - told)

/-! ## One reply -/

variable {server : Server} {o n : Nat} {es : List Entry} {invs : List Invocation}

/-- The extents that a call of the callback adds. -/
def Invocation.extents (offset : Nat) (inv : Invocation) : List Extent :=
  if inv.metacontext != baseAllocation || inv.error != 0 then [] else addExtents offset inv.entries

theorem foldl_addExtent (ret : List Extent) :
    invs.foldl (addExtent o) ret = ret ++ invs.flatMap (Invocation.extents o) := by
  induction invs generalizing ret with
  | nil => exact (List.append_nil ret).symm
  | cons inv invs ih =>
    rw [List.foldl_cons, ih, List.flatMap_cons]
    unfold addExtent Invocation.extents
    split <;> simp

theorem Extent.trim_eq {e : Extent} (ho : e.offset = o) : e.trim o n = min n e.length := by
  unfold Extent.trim
  split <;> omega

/-- An iteration of the copying loop: the second assertion always holds, the first is
the one on the offset. -/
theorem copyExtents_cons {e : Extent} (ho : e.offset = o) (exts ret : List Extent) :
    copyExtents (e :: exts) o n ret =
      if min n e.length = 0 then copyExtents exts o n ret
      else copyExtents exts (o + min n e.length) (n - min n e.length)
        (ret ++ [{ e with length := min n e.length }]) := by
  rw [copyExtents, Extent.trim_eq ho, if_neg (not_not_intro ho), if_neg (by omega)]

theorem copyExtents_ne {e : Extent} (ho : e.offset ≠ o) (exts ret : List Extent) :
    copyExtents (e :: exts) o n ret = none := by
  rw [copyExtents, if_pos ho]

theorem sum_dropLast_cons (a b : Nat) (l : List Nat) :
    (a :: b :: l).dropLast.sum = a + (b :: l).dropLast.sum := by
  rw [List.dropLast_cons_cons, List.sum_cons]

/-- The copying loop goes over the extents of one call. -/
theorem copy_inOrder (h : (es.map Entry.length).dropLast.sum ≤ n) :
    ∃ news, Tiles Extent.offset Extent.length o (o + min n (es.map Entry.length).sum) news ∧
      ∀ rest ret, copyExtents (addExtents o es ++ rest) o n ret =
        copyExtents rest (o + min n (es.map Entry.length).sum) (n - min n (es.map Entry.length).sum)
          (ret ++ news) := by
  induction es generalizing o n with
  | nil => exact ⟨[], by simp [Tiles], by simp [addExtents]⟩
  | cons e es ih =>
    -- an entry that passes the end is the last one
    have hcut : es = [] ∨ e.length ≤ n := by
      cases es with
      | nil => exact .inl rfl
      | cons e' es =>
        rw [List.map_cons, List.map_cons, sum_dropLast_cons] at h
        exact .inr (by omega)
    have hrest : (es.map Entry.length).dropLast.sum ≤ n - min n e.length := by
      cases es with
      | nil => exact Nat.zero_le _
      | cons e' es =>
        rw [List.map_cons, List.map_cons, sum_dropLast_cons, ← List.map_cons] at h
        omega
    obtain ⟨news, htiles, hcopy⟩ := ih (o := o + min n e.length) hrest
    have hnext : addExtents (o + e.length) es = addExtents (o + min n e.length) es := by
      rcases hcut with rfl | hle
      · rfl
      · rw [Nat.min_eq_right hle]
    have hmin : min n e.length + min (n - min n e.length) (es.map Entry.length).sum =
        min n ((e :: es).map Entry.length).sum := by
      rw [List.map_cons, List.sum_cons]
      omega
    rw [Nat.add_assoc, hmin] at htiles hcopy
    rw [Nat.sub_sub, hmin] at hcopy
    have hstep : ∀ rest ret, copyExtents (addExtents o (e :: es) ++ rest) o n ret = _ :=
      fun rest ret => copyExtents_cons (e := ⟨o, e.length, e.flags &&& stateZero != 0⟩) rfl _ _
    by_cases hz : min n e.length = 0
    · refine ⟨news, by rwa [hz] at htiles, fun rest ret => ?_⟩
      rw [hstep, if_pos hz, hnext]
      simpa [hz] using hcopy rest ret
    · refine ⟨⟨o, min n e.length, e.flags &&& stateZero != 0⟩ :: news,
        ⟨rfl, Nat.pos_of_ne_zero hz, htiles⟩, fun rest ret => ?_⟩
      rw [hstep, if_neg hz, List.append_cons ret _ news, ← hcopy, ← hnext]
      rfl

/-- An entry behind one that passes the end trips the assertion. -/
theorem copy_outOfOrder (h : n < (es.map Entry.length).dropLast.sum) (rest ret : List Extent) :
    copyExtents (addExtents o es ++ rest) o n ret = none := by
  induction es generalizing o n ret with
  | nil => cases h
  | cons e es ih =>
    cases es with
    | nil => cases h
    | cons e' es =>
      rw [List.map_cons, List.map_cons, sum_dropLast_cons, ← List.map_cons] at h
      rw [addExtents, List.cons_append,
        copyExtents_cons (e := ⟨o, e.length, e.flags &&& stateZero != 0⟩) rfl]
      by_cases hle : e.length ≤ n
      · rw [Nat.min_eq_right hle]
        split
        · rename_i hz
          have hrec := ih (o := o + e.length) (n := n) (by omega) ret
          rwa [hz] at hrec ⊢
        · exact ih (by omega) _
      · rw [Nat.min_eq_left (Nat.le_of_not_le hle), addExtents, List.cons_append]
        have hne : o + e.length ≠ o + n := by omega
        have hne₀ : n = 0 → o + e.length ≠ o := by omega
        split
        · rename_i hz
          exact copyExtents_ne (hne₀ hz) _ _
        · exact copyExtents_ne hne _ _

theorem extents_lengths (inv : Invocation) (offset : Nat) :
    ∃ es, inv.extents offset = addExtents offset es ∧ inv.lengths = es.map Entry.length := by
  unfold Invocation.extents Invocation.lengths
  split
  · exact ⟨[], rfl, rfl⟩
  · exact ⟨_, rfl, rfl⟩

/-- The first extent of a reply starts at the offset asked for. -/
theorem extents_start (o : Nat) (invs : List Invocation) :
    invs.flatMap (Invocation.extents o) = [] ∧ replyLengths invs = [] ∨
    ∃ e exts, invs.flatMap (Invocation.extents o) = e :: exts ∧ e.offset = o ∧
      replyLengths invs ≠ [] := by
  induction invs with
  | nil => exact .inl ⟨rfl, rfl⟩
  | cons inv invs ih =>
    obtain ⟨es, hes, hls⟩ := extents_lengths inv o
    unfold replyLengths at ih ⊢
    rw [List.flatMap_cons, List.flatMap_cons, hes, hls]
    cases es with
    | nil => exact ih
    | cons e es => exact .inr ⟨_, _, rfl, rfl, nofun⟩

/-- A reply in order is copied, up to the end of the range. -/
theorem copy_reply (h : InOrder n invs) (ret : List Extent) :
    ∃ news, Tiles Extent.offset Extent.length o (o + min n (replyLengths invs).sum) news ∧
      copyExtents (invs.flatMap (Invocation.extents o)) o n ret =
        some (o + min n (replyLengths invs).sum, n - min n (replyLengths invs).sum, ret ++ news) := by
  induction invs generalizing ret with
  | nil => exact ⟨[], by simp [Tiles, replyLengths], by simp [copyExtents, replyLengths]⟩
  | cons inv invs ih =>
    obtain ⟨hlast, hrest⟩ := h
    obtain ⟨es, hes, hls⟩ := extents_lengths inv o
    have hsum : (replyLengths (inv :: invs)).sum = inv.lengths.sum + (replyLengths invs).sum := by
      rw [replyLengths, List.flatMap_cons, List.sum_append]
      rfl
    rw [hls] at hlast
    obtain ⟨news, htiles, hcopy⟩ := copy_inOrder (o := o) hlast
    rw [List.flatMap_cons, hes, hcopy, ← hls, hsum]
    rw [← hls] at htiles
    split at hrest
    · rename_i hz
      obtain ⟨more, hmore, hgo⟩ := ih hrest (ret ++ news)
      simp only [hz, Nat.min_zero, Nat.add_zero, Nat.sub_zero, Nat.zero_add] at htiles ⊢
      exact ⟨news ++ more, htiles.append hmore, by rw [hgo, List.append_assoc]⟩
    · rcases extents_start o invs with ⟨hnil, -⟩ | ⟨_, _, -, -, hne⟩
      · rw [hnil, hrest, List.sum_nil, Nat.add_zero]
        exact ⟨news, htiles, rfl⟩
      · exact absurd hrest hne

/-- Any other reply trips an assertion. -/
theorem copy_reply_none (hn : 0 < n) (h : ¬ InOrder n invs) (ret : List Extent) :
    copyExtents (invs.flatMap (Invocation.extents o)) o n ret = none := by
  induction invs generalizing ret with
  | nil => exact absurd trivial h
  | cons inv invs ih =>
    obtain ⟨es, hes, hls⟩ := extents_lengths inv o
    rw [List.flatMap_cons, hes]
    by_cases hlast : inv.lengths.dropLast.sum ≤ n
    · rw [hls] at hlast
      obtain ⟨news, -, hcopy⟩ := copy_inOrder (o := o) hlast
      rw [hcopy, ← hls]
      by_cases hz : inv.lengths.sum = 0
      · rw [hz, Nat.min_zero, Nat.add_zero, Nat.sub_zero]
        refine ih (fun hrest => h ⟨by rwa [hls], ?_⟩) _
        rwa [if_pos hz]
      · rcases extents_start o invs with ⟨-, hnil⟩ | ⟨e, exts, heq, ho, -⟩
        · exact absurd ⟨by rwa [hls], by rwa [if_neg hz]⟩ h
        · rw [heq]
          exact copyExtents_ne (by omega) _ _
    · rw [hls] at hlast
      exact copy_outOfOrder (Nat.lt_of_not_le hlast) _ _

/-! ## The loop -/

/-- The list that is to come out: the range, tiled. -/
def GetExtents.Fine (offset count : Nat) : GetExtents → Prop
  | .exit => True
  | .abort => False
  | .ok ret => Tiles Extent.offset Extent.length offset (offset + count) ret

section Loop

variable (server) (offset count : Nat)

/-- Bytes that the `i`th reply brings the loop forward. -/
def advance (i : Nat) : Nat :=
  min (askedRange server offset count i).2 (replyLengths ((server i).getD [])).sum

/-- The loop gets to the `i`th call. -/
def Asked (i : Nat) : Prop :=
  (∀ j < i, 0 < advance server offset count j) ∧ 0 < (askedRange server offset count i).2

theorem askedRange_succ (i : Nat) : askedRange server offset count (i + 1) =
    ((askedRange server offset count i).1 + advance server offset count i,
      (askedRange server offset count i).2 - advance server offset count i) := rfl

theorem askedRange_end (i : Nat) : (askedRange server offset count i).1 +
    (askedRange server offset count i).2 = offset + count := by
  induction i with
  | zero => rfl
  | succ i ih =>
    rw [askedRange_succ]
    have : advance server offset count i ≤ (askedRange server offset count i).2 := Nat.min_le_left ..
    simp only
    omega

/-- Every call before the `i`th leaves less to ask for. -/
theorem askedRange_left {i : Nat} (h : ∀ j < i, 0 < advance server offset count j) :
    (askedRange server offset count i).2 + i ≤ count := by
  induction i with
  | zero => exact Nat.le_refl _
  | succ i ih =>
    have hrec := ih fun j hj => h j (Nat.lt_succ_of_lt hj)
    have hpos := h i (Nat.lt_succ_self i)
    rw [askedRange_succ]
    have : advance server offset count i ≤ (askedRange server offset count i).2 := Nat.min_le_left ..
    simp only
    omega

/-- The replies to the calls that are made are in order. -/
def Orderly : Prop :=
  ∀ i, Asked server offset count i → ∀ invs, server i = some invs →
    InOrder (askedRange server offset count i).2 invs

variable {server offset count}

/-- An iteration that goes on. -/
theorem getExtentsFrom_next {i : Nat} (ret : List Extent)
    (hpos : 0 < advance server offset count i)
    (hord : ∀ invs, server i = some invs → InOrder (askedRange server offset count i).2 invs) :
    ∃ news, Tiles Extent.offset Extent.length (askedRange server offset count i).1
        (askedRange server offset count (i + 1)).1 news ∧
      ∀ fuel, getExtentsFrom server (fuel + 1) i (askedRange server offset count i).1
        (askedRange server offset count i).2 ret =
      getExtentsFrom server fuel (i + 1) (askedRange server offset count (i + 1)).1
        (askedRange server offset count (i + 1)).2 (ret ++ news) := by
  have hadv : advance server offset count i = min (askedRange server offset count i).2 _ := rfl
  rw [askedRange_succ]
  cases hs : server i with
  | none => simp [advance, hs, replyLengths] at hpos
  | some invs =>
    rw [hs, Option.getD_some] at hadv
    obtain ⟨news, htiles, hcopy⟩ := copy_reply (hord invs hs) ret
      (o := (askedRange server offset count i).1)
    rw [← hadv] at htiles hcopy
    refine ⟨news, htiles, fun fuel => ?_⟩
    rw [getExtentsFrom, if_neg (by omega), hs]
    simp only [foldl_addExtent, List.nil_append, hcopy]
    rw [if_neg (by omega)]

/-- The iteration after which the loop ends. -/
theorem getExtentsFrom_last {i : Nat} {ret : List Extent}
    (hzero : advance server offset count i = 0)
    (hord : 0 < (askedRange server offset count i).2 →
      ∀ invs, server i = some invs → InOrder (askedRange server offset count i).2 invs)
    (htiles : Tiles Extent.offset Extent.length offset (askedRange server offset count i).1 ret) :
    ∃ r, r.Fine offset count ∧ ∀ fuel, getExtentsFrom server (fuel + 1) i
      (askedRange server offset count i).1 (askedRange server offset count i).2 ret = some r := by
  have hend := askedRange_end server offset count i
  have hadv : advance server offset count i = min (askedRange server offset count i).2 _ := rfl
  by_cases hn : (askedRange server offset count i).2 = 0
  · rw [hn, Nat.add_zero] at hend
    rw [hend] at htiles
    exact ⟨.ok ret, htiles, fun fuel => by rw [getExtentsFrom, if_pos hn]⟩
  · refine ⟨.exit, trivial, fun fuel => ?_⟩
    rw [getExtentsFrom, if_neg hn]
    cases hs : server i with
    | none => rfl
    | some invs =>
      rw [hs, Option.getD_some, hzero] at hadv
      obtain ⟨news, -, hcopy⟩ := copy_reply (hord (Nat.pos_of_ne_zero hn) invs hs) ret
        (o := (askedRange server offset count i).1)
      simp only [foldl_addExtent, List.nil_append, hcopy, ← hadv, Nat.add_zero, if_true]

/-- The loop up to its `i`th call. -/
theorem getExtents_reaches {i : Nat} (hpos : ∀ j < i, 0 < advance server offset count j)
    (hord : ∀ j < i, ∀ invs, server j = some invs →
      InOrder (askedRange server offset count j).2 invs) :
    ∃ ret, Tiles Extent.offset Extent.length offset (askedRange server offset count i).1 ret ∧
      ∀ fuel, nbdOpsGetExtents server (fuel + i) offset count =
        getExtentsFrom server fuel i (askedRange server offset count i).1
          (askedRange server offset count i).2 ret := by
  induction i with
  | zero => exact ⟨[], rfl, fun _ => rfl⟩
  | succ i ih =>
    obtain ⟨ret, htiles, hrun⟩ := ih (fun j hj => hpos j (Nat.lt_succ_of_lt hj))
      fun j hj => hord j (Nat.lt_succ_of_lt hj)
    obtain ⟨news, hmore, hnext⟩ := getExtentsFrom_next ret (hpos i (Nat.lt_succ_self i))
      (hord i (Nat.lt_succ_self i))
    refine ⟨ret ++ news, htiles.append hmore, fun fuel => ?_⟩
    rw [← hnext, ← hrun]
    congr 1
    omega

/-- A reply that is out of order ends the program. -/
theorem getExtentsFrom_abort {i : Nat} {invs : List Invocation} {ret : List Extent}
    (hn : 0 < (askedRange server offset count i).2) (hs : server i = some invs)
    (hord : ¬ InOrder (askedRange server offset count i).2 invs) (fuel : Nat) :
    getExtentsFrom server (fuel + 1) i (askedRange server offset count i).1
      (askedRange server offset count i).2 ret = some .abort := by
  rw [getExtentsFrom, if_neg (Nat.ne_of_gt hn), hs]
  simp only [foldl_addExtent, List.nil_append, copy_reply_none hn hord]

/-- The calls before one that is made are made. -/
theorem Asked.of_lt {i j : Nat} (h : Asked server offset count i) (hj : j < i) :
    Asked server offset count j :=
  ⟨fun k hk => h.1 k (Nat.lt_trans hk hj), Nat.lt_of_lt_of_le (h.1 j hj) (Nat.min_le_left ..)⟩

end Loop

theorem copyExtents_left {exts ret ret' : List Extent} {o' n' : Nat}
    (h : copyExtents exts o n ret = some (o', n', ret')) : o ≤ o' ∧ o' + n' = o + n := by
  induction exts generalizing o n ret with
  | nil =>
    cases h
    exact ⟨Nat.le_refl _, rfl⟩
  | cons e exts ih =>
    by_cases ho : e.offset = o
    · rw [copyExtents_cons ho] at h
      split at h
      · exact ih h
      · have hrest := ih h
        omega
    · rw [copyExtents_ne ho] at h
      cases h

/-- **The loop ends**, with a round for each byte and one more, whatever the server says. -/
theorem nbdOpsGetExtents_ends (server : Server) (offset count : Nat) :
    nbdOpsGetExtents server (count + 1) offset count ≠ none := by
  suffices h : ∀ fuel i o n ret, n < fuel → getExtentsFrom server fuel i o n ret ≠ none from
    h _ _ _ _ _ count.lt_succ_self
  intro fuel
  induction fuel with
  | zero => exact fun _ _ n _ h => absurd h (Nat.not_lt_zero n)
  | succ fuel ih =>
    intro i o n ret hlt
    rw [getExtentsFrom]
    split
    · exact Option.some_ne_none _
    · split
      · exact Option.some_ne_none _
      · split
        · exact Option.some_ne_none _
        · rename_i o' n' ret' hcopy
          have hleft := copyExtents_left hcopy
          split
          · exact Option.some_ne_none _
          · exact ih _ _ _ _ (by omega)

/-- **Extent lists are contiguous**: `nbd_ops_get_extents` ends with `exit` or with a list
of non-empty extents that tile the range, all assertions holding, exactly when the
replies to its calls are in order. -/
theorem nbdOpsGetExtents_fine_iff (server : Server) (offset count : Nat) :
    (∃ r, (∀ fuel, count < fuel → nbdOpsGetExtents server fuel offset count = some r) ∧
      r.Fine offset count) ↔ Orderly server offset count := by
  constructor
  · rintro ⟨r, hr, hfine⟩
    by_contra hno
    -- the first call that is answered out of order
    obtain ⟨i, ⟨hasked, invs, hs, hord⟩, hmin⟩ : ∃ i, (Asked server offset count i ∧
        ∃ invs, server i = some invs ∧ ¬ InOrder (askedRange server offset count i).2 invs) ∧
        ∀ j < i, ¬ (Asked server offset count j ∧
          ∃ invs, server j = some invs ∧ ¬ InOrder (askedRange server offset count j).2 invs) := by
      classical
      unfold Orderly at hno
      push Not at hno
      exact ⟨Nat.find hno, Nat.find_spec hno, fun j hj => Nat.find_min hno hj⟩
    obtain ⟨ret, -, hrun⟩ := getExtents_reaches hasked.1 fun j hj invs hs => by
      by_contra hbad
      exact hmin j hj ⟨hasked.of_lt hj, invs, hs, hbad⟩
    have habort := hr (count + 1 + i) (by omega)
    rw [hrun, getExtentsFrom_abort hasked.2 hs hord] at habort
    cases habort
    exact hfine
  · intro hord
    -- the first call that brings nothing
    obtain ⟨k, hzero, hpos⟩ : ∃ k, advance server offset count k = 0 ∧
        ∀ j < k, 0 < advance server offset count j := by
      have hex : ∃ k, advance server offset count k = 0 := by
        by_contra hno
        push Not at hno
        have := askedRange_left server offset count (i := count + 1) fun j _ =>
          Nat.pos_of_ne_zero (hno j)
        omega
      exact ⟨Nat.find hex, Nat.find_spec hex, fun j hj => Nat.pos_of_ne_zero (Nat.find_min hex hj)⟩
    have hle := askedRange_left server offset count hpos
    have hasked : ∀ j < k, Asked server offset count j := fun j hj =>
      ⟨fun m hm => hpos m (Nat.lt_trans hm hj), Nat.lt_of_lt_of_le (hpos j hj) (Nat.min_le_left ..)⟩
    obtain ⟨ret, htiles, hrun⟩ := getExtents_reaches hpos fun j hj => hord j (hasked j hj)
    obtain ⟨r, hfine, hlast⟩ := getExtentsFrom_last hzero (fun hn => hord k ⟨hpos, hn⟩) htiles
    refine ⟨r, fun fuel hf => ?_, hfine⟩
    have hsplit : fuel = fuel - k - 1 + 1 + k := by omega
    rw [hsplit, hrun, hlast]

/-- Two chunks for `base:allocation` in one reply. -/
def repeatedChunk : Server := fun _ =>
  some [⟨baseAllocation, [⟨4096, 0⟩], 0⟩, ⟨baseAllocation, [⟨4096, 0⟩], 0⟩]

theorem repeated_chunk_aborts :
    ¬ ∀ server offset count,
      ∃ r, (∀ fuel, count < fuel → nbdOpsGetExtents server fuel offset count = some r) ∧
        r.Fine offset count := by
  intro hall
  obtain ⟨r, hr, hfine⟩ := hall repeatedChunk 0 8192
  have habort : nbdOpsGetExtents repeatedChunk 8193 0 8192 = some .abort := by decide +kernel
  rw [hr 8193 (by omega)] at habort
  cases habort
  exact hfine

end Libnbd.Copy
