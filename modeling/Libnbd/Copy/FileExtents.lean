import Libnbd.Copy.Extents
import Mathlib.Data.List.Chain

/-!
Extent lists of nbdcopy from a local file (`file_get_extents` in `copy/file-ops.c` and
`default_get_extents` in `copy/main.c`).

The loop alternates `lseek (SEEK_DATA)` and `lseek (SEEK_HOLE)`. Both may land behind
the end of the range, so the last extent is cut afterwards. Positions are below `2^63`
(`off_t`) and are natural numbers here.
-/

namespace Libnbd.Copy

open Lib

/-- What `lseek` returns: a position, or -1 with `ENXIO` or another error. -/
inductive SeekResult where
  | pos (p : Nat)
  | enxio
  | error
  deriving DecidableEq, Repr

/-- `lseek` on the file with `SEEK_DATA` and `SEEK_HOLE`. -/
structure Seek where
  data : Nat → SeekResult
  hole : Nat → SeekResult

/-- The loop. `none` is for an exhausted counter. -/
def seekLoop (seek : Seek) (stop : Nat) : Nat → Nat → List Extent → Option GetExtents
  | 0, _, _ => none
  | fuel + 1, offset, ret =>
    let found :=
      match seek.data offset with
      | .pos p => some p
      | .enxio => some stop
      | .error => none
    match found with
    | none => some .exit
    | some pos =>
      let ret := if pos > offset then ret ++ [⟨offset, pos - offset, true⟩] else ret
      if pos ≥ stop then some (.ok ret)
      else
        match seek.hole pos with
        | .pos next =>
          let ret := if next > pos then ret ++ [⟨pos, next - pos, false⟩] else ret
          if next < stop then seekLoop seek stop fuel next ret else some (.ok ret)
        | _ => some .exit

/-- Cut the last extent at the end of the range. -/
def truncateLast (stop : Nat) (ret : List Extent) : GetExtents :=
  match ret.getLast? with
  | none => .abort
  | some e =>
    if e.offset > stop then .abort
    else if e.offset + e.length > stop then
      let length := e.length - (e.offset + e.length - stop)
      if e.offset + length ≠ stop then .abort
      else .ok (ret.dropLast ++ [{ e with length }])
    else .ok ret

def defaultGetExtents (offset count : Nat) : List Extent := [⟨offset, count, false⟩]

def fileGetExtents (seekHoleSupported : Bool) (seek : Seek) (fuel offset count : Nat) :
    Option GetExtents :=
  if seekHoleSupported then
    (seekLoop seek (offset + count) fuel offset []).map fun
      | .ok ret => truncateLast (offset + count) ret
      | r => r
  else some (.ok (defaultGetExtents offset count))

/-! ## Sparse files -/

/-- A file: its size, and which of its bytes are allocated data. -/
structure Layout where
  size : Nat
  isData : Nat → Bool

/-- `lseek` does what its manual says, on a file that does not change: the first data
at or after an offset, or `ENXIO`; the first hole after data, where the end of the file
counts as one. -/
structure Seek.Documented (seek : Seek) (f : Layout) : Prop where
  data : ∀ o < f.size,
    (∃ p, seek.data o = .pos p ∧ o ≤ p ∧ p < f.size ∧ f.isData p = true ∧
      ∀ q, o ≤ q → q < p → f.isData q = false) ∨
    (seek.data o = .enxio ∧ ∀ q, o ≤ q → q < f.size → f.isData q = false)
  hole : ∀ o < f.size, f.isData o = true →
    ∃ p, seek.hole o = .pos p ∧ o < p ∧ p ≤ f.size ∧ (p < f.size → f.isData p = false)

/-- The extents alternate, and those marked zero are holes. -/
structure Sparse (f : Layout) (ret : List Extent) : Prop where
  alternate : ret.IsChain fun d e => d.zero ≠ e.zero
  holes : ∀ e ∈ ret, e.zero = true → ∀ q, e.offset ≤ q → q < e.offset + e.length → f.isData q = false

/-- The list so far, when the next byte to look at is `o`. -/
structure SeekInv (f : Layout) (start o : Nat) (ret : List Extent) : Prop where
  tiles : Tiles Extent.offset Extent.length start o ret
  sparse : Sparse f ret
  last : ∀ e ∈ ret.getLast?, e.zero = false ∧ f.isData o = false

variable {f : Layout} {seek : Seek} {start o stop : Nat} {ret : List Extent}

/-- An extent of the other kind can follow. -/
theorem Sparse.snoc (h : Sparse f ret) {e : Extent} (hlast : ∀ d ∈ ret.getLast?, d.zero ≠ e.zero)
    (hhole : e.zero = true → ∀ q, e.offset ≤ q → q < e.offset + e.length → f.isData q = false) :
    Sparse f (ret ++ [e]) := by
  refine ⟨?_, fun d hd => ?_⟩
  · rw [List.isChain_append]
    exact ⟨h.alternate, List.isChain_singleton e, fun d hd e' he' => by
      obtain rfl : e = e' := by simpa using he'
      exact hlast d hd⟩
  · rcases List.mem_append.mp hd with hd | hd
    · exact h.holes d hd
    · rw [List.mem_singleton.mp hd]
      exact hhole

/-- What the loop leaves: a list that reaches the end of the range, whose last extent
starts before it. -/
structure Seeked (f : Layout) (start stop : Nat) (ret : List Extent) : Prop where
  sparse : Sparse f ret
  tiles : ∃ past, stop ≤ past ∧ Tiles Extent.offset Extent.length start past ret
  last : ∃ e ∈ ret.getLast?, e.offset < stop

theorem truncateLast_fine (h : Seeked f start stop ret) :
    ∃ ret', truncateLast stop ret = .ok ret' ∧ Sparse f ret' ∧
      Tiles Extent.offset Extent.length start stop ret' := by
  obtain ⟨e, hlast, hlt⟩ := h.last
  obtain ⟨xs, rfl⟩ := List.getLast?_eq_some_iff.mp hlast
  obtain ⟨past, hpast, htiles⟩ := h.tiles
  obtain ⟨hxs, hpos, hend⟩ := htiles.of_snoc
  obtain ⟨hchain, -, hjoin⟩ := List.isChain_append.mp h.sparse.alternate
  unfold truncateLast
  simp only [List.getLast?_concat, List.dropLast_concat, if_neg (Nat.not_lt.mpr (Nat.le_of_lt hlt))]
  split
  · rename_i hover
    rw [if_neg (by omega)]
    refine ⟨_, rfl, Sparse.snoc ⟨hchain, fun d hd => ?_⟩ (fun d hd => ?_) fun hz q hq hq' => ?_, ?_⟩
    · exact h.sparse.holes d (List.mem_append_left _ hd)
    · exact hjoin d hd e (by simp)
    · simp only at hz hq hq'
      exact h.sparse.holes e (List.mem_append_right _ (List.mem_singleton_self e)) hz q hq (by omega)
    · exact hxs.snoc rfl (by simp only; omega) (by simp only; omega)
  · rename_i hover
    obtain rfl : past = stop := by omega
    exact ⟨_, rfl, h.sparse, htiles⟩

/-- `SEEK_DATA` has found the end of the hole before the end of the range. -/
theorem SeekInv.hole (h : SeekInv f start o ret) {p : Nat} (hp : o ≤ p) (hdata : f.isData p = true)
    (hhole : ∀ q, o ≤ q → q < p → f.isData q = false) :
    let ret' := if p > o then ret ++ [⟨o, p - o, true⟩] else ret
    Tiles Extent.offset Extent.length start p ret' ∧ Sparse f ret' ∧
      ∀ e ∈ ret'.getLast?, e.zero = true := by
  by_cases hgt : p > o
  · simp only [if_pos hgt]
    refine ⟨h.tiles.snoc rfl (by simp only; omega) (by simp only; omega),
      h.sparse.snoc (fun d hd => ?_) fun _ q hq hq' => hhole q hq ?_, ?_⟩
    · rw [(h.last d hd).1]
      exact Bool.false_ne_true
    · simp only at hq hq'
      omega
    · simp
  · -- nothing has been found before: a list that is not empty ends at a hole
    obtain rfl : p = o := by omega
    simp only [if_neg hgt]
    refine ⟨h.tiles, h.sparse, fun e he => ?_⟩
    rw [(h.last e he).2] at hdata
    cases hdata

/-- The hole goes to the end of the range or beyond. -/
theorem SeekInv.lastHole (h : SeekInv f start o ret) {p : Nat} (ho : o < stop) (hp : stop ≤ p)
    (hhole : ∀ q, o ≤ q → q < p → f.isData q = false) :
    Seeked f start stop (ret ++ [⟨o, p - o, true⟩]) := by
  refine ⟨h.sparse.snoc (fun d hd => ?_) fun _ q hq hq' => hhole q hq ?_, ⟨p, hp, ?_⟩,
    ⟨⟨o, p - o, true⟩, by simp, ho⟩⟩
  · rw [(h.last d hd).1]
    exact Bool.false_ne_true
  · simp only at hq hq'
    omega
  · exact h.tiles.snoc rfl (by simp only; omega) (by simp only; omega)

/-- **The loop**: every round moves on to a later hole. -/
theorem seekLoop_fine (hd : seek.Documented f) (hstop : stop ≤ f.size)
    (hinv : SeekInv f start o ret) (ho : o < stop) :
    ∃ ret', Seeked f start stop ret' ∧
      ∀ fuel, stop - o ≤ fuel → seekLoop seek stop fuel o ret = some (.ok ret') := by
  induction hm : stop - o using Nat.strong_induction_on generalizing o ret with
  | _ m ih =>
    subst hm
    rcases hd.data o (by omega) with ⟨p, hp, hle, hsize, hdata, hhole⟩ | ⟨hp, hhole⟩
    · by_cases hpast : p ≥ stop
      · refine ⟨ret ++ [⟨o, p - o, true⟩], hinv.lastHole ho hpast hhole, fun fuel hfuel => ?_⟩
        obtain ⟨k, rfl⟩ : ∃ k, fuel = k + 1 := ⟨fuel - 1, by omega⟩
        have hgt : p > o := by omega
        simp only [seekLoop, hp, if_pos hpast, if_pos hgt]
      · obtain ⟨n, hn, hlt, hnsize, hnhole⟩ := hd.hole p hsize hdata
        obtain ⟨htiles, hsparse, hlast⟩ := hinv.hole hle hdata hhole
        obtain ⟨ret₁, hret₁⟩ : ∃ ret₁, (if p > o then ret ++ [⟨o, p - o, true⟩] else ret) = ret₁ :=
          ⟨_, rfl⟩
        rw [hret₁] at htiles hsparse hlast
        have hround : ∀ k, seekLoop seek stop (k + 1) o ret =
            if n < stop then seekLoop seek stop k n (ret₁ ++ [⟨p, n - p, false⟩])
            else some (.ok (ret₁ ++ [⟨p, n - p, false⟩])) := fun k => by
          simp only [seekLoop, hp, if_neg hpast, hn, hret₁, if_pos (show n > p from hlt)]
        have hsparse₂ : Sparse f (ret₁ ++ [⟨p, n - p, false⟩]) :=
          hsparse.snoc (fun d hd => by rw [hlast d hd]; exact Bool.false_ne_true.symm)
            fun hz => absurd hz Bool.false_ne_true
        have htiles₂ : Tiles Extent.offset Extent.length start n (ret₁ ++ [⟨p, n - p, false⟩]) :=
          htiles.snoc rfl (by simp only; omega) (by simp only; omega)
        by_cases hmore : n < stop
        · obtain ⟨ret', hfine, hrun⟩ := ih (stop - n) (by omega)
            ⟨htiles₂, hsparse₂, fun e he => by
              obtain rfl : _ = e := by simpa using he
              exact ⟨rfl, hnhole (by omega)⟩⟩ hmore rfl
          refine ⟨ret', hfine, fun fuel hfuel => ?_⟩
          obtain ⟨k, rfl⟩ : ∃ k, fuel = k + 1 := ⟨fuel - 1, by omega⟩
          rw [hround, if_pos hmore]
          exact hrun k (by omega)
        · refine ⟨_, ⟨hsparse₂, ⟨n, by omega, htiles₂⟩, ⟨⟨p, n - p, false⟩, by simp, ?_⟩⟩,
            fun fuel hfuel => ?_⟩
          · exact Nat.lt_of_not_le hpast
          · obtain ⟨k, rfl⟩ : ∃ k, fuel = k + 1 := ⟨fuel - 1, by omega⟩
            rw [hround, if_neg hmore]
    · refine ⟨ret ++ [⟨o, stop - o, true⟩],
        hinv.lastHole ho (Nat.le_refl _) fun q hq hq' => hhole q hq (by omega), fun fuel hfuel => ?_⟩
      obtain ⟨k, rfl⟩ : ∃ k, fuel = k + 1 := ⟨fuel - 1, by omega⟩
      simp only [seekLoop, hp, ge_iff_le, Nat.le_refl, if_true, if_pos (show stop > o from ho)]

/-- **Extent lists of files**: for every sparse file and every range inside it,
`file_get_extents` returns, and its list tiles the range with extents that alternate
between holes and data and are marked zero only over holes. -/
theorem fileGetExtents_fine {f : Layout} {seek : Seek} (hd : seek.Documented f) (supported : Bool)
    {offset count : Nat} (hcount : 0 < count) (hsize : offset + count ≤ f.size) :
    ∃ ret, (∀ fuel, count ≤ fuel → fileGetExtents supported seek fuel offset count = some (.ok ret)) ∧
      Tiles Extent.offset Extent.length offset (offset + count) ret ∧ Sparse f ret := by
  cases supported with
  | false =>
    refine ⟨defaultGetExtents offset count, fun _ _ => rfl, ⟨rfl, hcount, rfl⟩, ?_, fun e he hz => ?_⟩
    · exact List.isChain_singleton _
    · rw [List.mem_singleton.mp he] at hz
      cases hz
  | true =>
    have hinit : SeekInv f offset offset [] := ⟨rfl, ⟨List.isChain_nil, nofun⟩, nofun⟩
    obtain ⟨ret, hseeked, hrun⟩ := seekLoop_fine hd hsize hinit (by omega)
    obtain ⟨ret', htrunc, hsparse, htiles⟩ := truncateLast_fine hseeked
    refine ⟨ret', fun fuel hfuel => ?_, htiles, hsparse⟩
    simp only [fileGetExtents, if_true, hrun fuel (by omega), Option.map_some, htrunc]

/-- Data in the second of three blocks of four bytes. -/
def middleBlock : Layout := ⟨12, fun q => decide (4 ≤ q ∧ q < 8)⟩

def middleSeek : Seek where
  data o := if o < 4 then .pos 4 else if o < 8 then .pos o else .enxio
  hole o := if 4 ≤ o ∧ o < 8 then .pos 8 else .pos o

theorem middleSeek_documented : middleSeek.Documented middleBlock where
  data o ho := by
    simp only [middleSeek, middleBlock] at ho ⊢
    by_cases h₁ : o < 4
    · rw [if_pos h₁]
      exact .inl ⟨4, rfl, by omega, by omega, by decide, fun q _ _ => by simp; omega⟩
    · rw [if_neg h₁]
      by_cases h₂ : o < 8
      · rw [if_pos h₂]
        exact .inl ⟨o, rfl, Nat.le_refl o, by omega, by simp; omega, fun q _ _ => by omega⟩
      · rw [if_neg h₂]
        exact .inr ⟨rfl, fun q _ _ => by simp; omega⟩
  hole o ho hdata := by
    simp only [middleBlock, decide_eq_true_eq] at ho hdata
    exact ⟨8, by simp [middleSeek, hdata], by omega, by decide, fun _ => by decide⟩

/-- The range `[2, 10)` starts and ends in a hole. -/
theorem fileGetExtents_fine_middle :
    ∃ ret, (∀ fuel, 8 ≤ fuel → fileGetExtents true middleSeek fuel 2 8 = some (.ok ret)) ∧
      Tiles Extent.offset Extent.length 2 10 ret ∧ Sparse middleBlock ret ∧
      ret = [⟨2, 2, true⟩, ⟨4, 4, false⟩, ⟨8, 2, true⟩] := by
  obtain ⟨ret, hrun, htiles, hsparse⟩ :=
    fileGetExtents_fine middleSeek_documented true (show 0 < 8 by decide)
      (show 2 + 8 ≤ middleBlock.size by decide)
  have heval : fileGetExtents true middleSeek 8 2 8 =
      some (.ok [⟨2, 2, true⟩, ⟨4, 4, false⟩, ⟨8, 2, true⟩]) := by decide +kernel
  rw [hrun 8 (Nat.le_refl 8)] at heval
  cases heval
  exact ⟨_, hrun, htiles, hsparse, rfl⟩

end Libnbd.Copy
