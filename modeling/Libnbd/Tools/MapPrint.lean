import Libnbd.Tools.Map

/-!
Printing the map of an export (`print_extents` and `print_totals` in `info/map.c`).

The first prints runs of entries of the same type as one range each, the second the
number of bytes of each type. A printed range or total is represented by its numbers.
-/

namespace Libnbd.Tools

open Copy (Entry)

/-! ## `print_extents` -/

/-- The arguments of `print_one_extent`. -/
structure Range where
  offset : Nat
  length : Nat
  type : UInt64
  deriving DecidableEq, Repr

/-- `entries->ptr[i].flags`, for an index inside the list. -/
def flagsAt (entries : List Entry) (i : Nat) : UInt64 := (entries[i]?.map Entry.flags).getD 0

/-- The length of a coalesced extent. -/
def runLength (entries : List Entry) (last i : Nat) : Nat :=
  advanceOffset 0 ((entries.drop last).take (i - last))

/-- The loop, and the last extent behind it. -/
def printFrom (entries : List Entry) (i last offset : Nat) : List Range :=
  if i < entries.length then
    if last ≠ i ∧ flagsAt entries i ≠ flagsAt entries last then
      ⟨offset, runLength entries last i, flagsAt entries last⟩ ::
        printFrom entries (i + 1) i ((offset + runLength entries last i) % 2 ^ 64)
    else printFrom entries (i + 1) last offset
  else if last ≠ i then [⟨offset, runLength entries last i, flagsAt entries last⟩]
  else []
  termination_by entries.length - i

def printExtents (entries : List Entry) : List Range := printFrom entries 0 0 0

/-! ## `print_totals` -/

structure Total where
  type : UInt64
  size : Nat
  deriving DecidableEq, Repr

/-- The inner loop, for one entry: the bytes of `type`, and the next type or 0. -/
def countType (type : UInt64) (r : Nat × UInt64) (e : Entry) : Nat × UInt64 :=
  if e.flags = type then ((r.1 + e.length) % 2 ^ 64, r.2)
  else if type < e.flags ∧ (r.2 = 0 ∨ e.flags < r.2) then (r.1, e.flags)
  else r

def countTypes (entries : List Entry) (type : UInt64) : Nat × UInt64 :=
  entries.foldl (countType type) (0, 0)

/-- What is known of the next type after some of the entries. -/
def NextType (type : UInt64) (seen : List Entry) (next : UInt64) : Prop :=
  next = 0 ∧ (∀ e ∈ seen, ¬ type < e.flags) ∨
    type < next ∧ (∃ e ∈ seen, e.flags = next) ∧ ∀ e ∈ seen, type < e.flags → next ≤ e.flags

theorem NextType.step {type : UInt64} {seen : List Entry} {r : Nat × UInt64} (e : Entry)
    (h : NextType type seen r.2) : NextType type (seen ++ [e]) (countType type r e).2 := by
  unfold countType
  split
  · rename_i heq
    have hnot : ¬ type < e.flags := by rw [heq]; exact UInt64.lt_irrefl _
    rcases h with ⟨h₀, hall⟩ | ⟨hlt, ⟨f, hf, hft⟩, hall⟩
    · refine .inl ⟨h₀, fun x hx => ?_⟩
      rcases List.mem_append.mp hx with hx | hx
      · exact hall x hx
      · rw [List.mem_singleton.mp hx]
        exact hnot
    · refine .inr ⟨hlt, ⟨f, List.mem_append_left _ hf, hft⟩, fun x hx => ?_⟩
      rcases List.mem_append.mp hx with hx | hx
      · exact hall x hx
      · rw [List.mem_singleton.mp hx]
        exact fun hc => absurd hc hnot
  split
  · rename_i hne hcond
    refine .inr ⟨hcond.1, ⟨e, List.mem_append_right _ (List.mem_singleton_self _), rfl⟩,
      fun x hx hlt => ?_⟩
    rcases List.mem_append.mp hx with hx | hx
    · rcases h with ⟨-, hall⟩ | ⟨hpos, -, hall⟩
      · exact absurd hlt (hall x hx)
      · have hsmall : e.flags < r.2 := by
          refine hcond.2.resolve_left fun h₀ => ?_
          rw [h₀] at hpos
          exact absurd hpos UInt64.not_lt_zero
        exact UInt64.le_trans (UInt64.le_of_lt hsmall) (hall x hx hlt)
    · rw [List.mem_singleton.mp hx]
      exact UInt64.le_refl _
  · rename_i hne hcond
    rcases h with ⟨h₀, hall⟩ | ⟨hlt, ⟨f, hf, hft⟩, hall⟩
    · refine .inl ⟨h₀, fun x hx => ?_⟩
      rcases List.mem_append.mp hx with hx | hx
      · exact hall x hx
      · rw [List.mem_singleton.mp hx]
        exact fun hc => hcond ⟨hc, .inl h₀⟩
    · refine .inr ⟨hlt, ⟨f, List.mem_append_left _ hf, hft⟩, fun x hx hx' => ?_⟩
      rcases List.mem_append.mp hx with hx | hx
      · exact hall x hx hx'
      · rw [List.mem_singleton.mp hx] at hx' ⊢
        exact UInt64.not_lt.mp fun hc => hcond ⟨hx', .inr hc⟩

theorem nextType_foldl {type : UInt64} {seen rest : List Entry} {r : Nat × UInt64}
    (h : NextType type seen r.2) : NextType type (seen ++ rest) (rest.foldl (countType type) r).2 := by
  induction rest generalizing seen r with
  | nil => simpa using h
  | cons e rest ih =>
    have hnext := ih (h.step e)
    rwa [List.append_assoc, List.singleton_append] at hnext

/-- The next type, if there is one, is the smallest type above this one. -/
theorem nextType_count (entries : List Entry) (type : UInt64) :
    NextType type entries (countTypes entries type).2 := by
  have hnone : NextType type [] ((0, 0) : Nat × UInt64).2 :=
    .inl ⟨rfl, fun e he => absurd he List.not_mem_nil⟩
  exact nextType_foldl hnone

theorem lt_nextType {entries : List Entry} {type : UInt64}
    (h : (countTypes entries type).2 ≠ 0) :
    type < (countTypes entries type).2 := by
  rcases nextType_count entries type with ⟨h₀, -⟩ | ⟨hlt, -⟩
  · exact absurd h₀ h
  · exact hlt

/-- The outer loop, from a type on. -/
def totalsFrom (entries : List Entry) (type : UInt64) : List Total :=
  let r := countTypes entries type
  (if r.1 > 0 then [⟨type, r.1⟩] else []) ++
    if _h : r.2 = 0 then [] else totalsFrom entries r.2
  termination_by 2 ^ 64 - type.toNat
  decreasing_by
    have hlt := UInt64.lt_iff_toNat_lt.mp (lt_nextType _h)
    have := (countTypes entries type).2.toNat_lt
    omega

/-- `print_totals`. -/
def printTotals (entries : List Entry) (size : Nat) : List Total :=
  if size = 0 then [] else totalsFrom entries 0

/-! ## What is printed -/

/-- The bytes of a type. -/
def typeTotal (entries : List Entry) (t : UInt64) : Nat :=
  totalLength (entries.filter fun e => e.flags == t)

/-- Runs of entries of one type as one range each. -/
def coalesce (offset : Nat) : List Entry → List Range
  | [] => []
  | e :: entries =>
    match coalesce (offset + e.length) entries with
    | [] => [⟨offset, e.length, e.flags⟩]
    | r :: ranges =>
      if r.type = e.flags then ⟨offset, e.length + r.length, e.flags⟩ :: ranges
      else ⟨offset, e.length, e.flags⟩ :: r :: ranges

/-- Each range starts where the one before it ends. -/
def Consecutive (offset : Nat) : List Range → Prop
  | [] => True
  | r :: ranges => r.offset = offset ∧ Consecutive (offset + r.length) ranges

/-- The type of the range that a byte is in. -/
def rangeType (ranges : List Range) (p : Nat) : Option UInt64 :=
  (ranges.find? fun r => decide (r.offset ≤ p ∧ p < r.offset + r.length)).map Range.type

/-- The bytes of the ranges of a type. -/
def rangesTotal (ranges : List Range) (t : UInt64) : Nat :=
  ((ranges.filter fun r => r.type == t).map Range.length).sum

/-- What is printed as the total of a type, or nothing. -/
def totalOf (totals : List Total) (t : UInt64) : Nat :=
  ((totals.find? fun x => x.type == t).map Total.size).getD 0

theorem totalLength_cons (e : Entry) (entries : List Entry) :
    totalLength (e :: entries) = e.length + totalLength entries := by
  simp [totalLength]

/-! ## Coalescing -/

/-- The first range has the type of the first entry. -/
theorem coalesce_cons (offset : Nat) (e : Entry) (entries : List Entry) :
    ∃ len ranges, coalesce offset (e :: entries) = ⟨offset, len, e.flags⟩ :: ranges := by
  rw [coalesce]
  split
  · exact ⟨_, _, rfl⟩
  · split
    · exact ⟨_, _, rfl⟩
    · exact ⟨_, _, rfl⟩

theorem coalesce_isChain (offset : Nat) (entries : List Entry) :
    (coalesce offset entries).IsChain fun a b => a.type ≠ b.type := by
  induction entries generalizing offset with
  | nil => exact .nil
  | cons e entries ih =>
    have hrest := ih (offset + e.length)
    rw [coalesce]
    split
    · exact .singleton _
    · rename_i r ranges heq
      rw [heq] at hrest
      split
      · rename_i ht
        cases ranges with
        | nil => exact .singleton _
        | cons r' ranges =>
          obtain ⟨hne, hrest⟩ := List.isChain_cons_cons.mp hrest
          exact List.isChain_cons_cons.mpr ⟨by rw [← ht]; exact hne, hrest⟩
      · rename_i ht
        exact List.isChain_cons_cons.mpr ⟨fun h => ht h.symm, hrest⟩

theorem coalesce_consecutive (offset : Nat) (entries : List Entry) :
    Consecutive offset (coalesce offset entries) := by
  induction entries generalizing offset with
  | nil => trivial
  | cons e entries ih =>
    have hrest := ih (offset + e.length)
    rw [coalesce]
    split
    · exact ⟨rfl, trivial⟩
    · rename_i r ranges heq
      rw [heq] at hrest
      split
      · refine ⟨rfl, ?_⟩
        rw [← Nat.add_assoc]
        exact hrest.2
      · exact ⟨rfl, hrest⟩

/-- The ranges as entries again. -/
def asEntries (ranges : List Range) : List Entry := ranges.map fun r => ⟨r.length, r.type⟩

theorem typeAt_coalesce (offset : Nat) (entries : List Entry) (p : Nat) :
    typeAt (asEntries (coalesce offset entries)) p = typeAt entries p := by
  induction entries generalizing offset p with
  | nil => rfl
  | cons e entries ih =>
    have hrest := fun q => ih (offset + e.length) q
    rw [coalesce, typeAt]
    split
    · rename_i heq
      rw [heq] at hrest
      rw [← hrest]
      rfl
    · rename_i r ranges heq
      rw [heq] at hrest
      rw [← hrest]
      split
      · rename_i ht
        simp only [asEntries, List.map_cons, typeAt, ht]
        by_cases h₁ : p < e.length
        · rw [if_pos h₁, if_pos (by omega)]
        · rw [if_neg h₁]
          by_cases h₂ : p < e.length + r.length
          · rw [if_pos h₂, if_pos (by omega)]
          · rw [if_neg h₂, if_neg (by omega), Nat.sub_sub]
      · rfl

theorem rangesTotal_cons (r : Range) (ranges : List Range) (t : UInt64) :
    rangesTotal (r :: ranges) t = (if r.type = t then r.length else 0) + rangesTotal ranges t := by
  unfold rangesTotal
  by_cases h : r.type = t <;> simp [h]

theorem typeTotal_cons (e : Entry) (entries : List Entry) (t : UInt64) :
    typeTotal (e :: entries) t = (if e.flags = t then e.length else 0) + typeTotal entries t := by
  unfold typeTotal totalLength
  by_cases h : e.flags = t <;> simp [h]

theorem rangesTotal_coalesce (offset : Nat) (entries : List Entry) (t : UInt64) :
    rangesTotal (coalesce offset entries) t = typeTotal entries t := by
  induction entries generalizing offset with
  | nil => rfl
  | cons e entries ih =>
    have hrest := ih (offset + e.length)
    rw [coalesce, typeTotal_cons]
    split
    · rename_i heq
      rw [heq] at hrest
      rw [← hrest, rangesTotal_cons]
    · rename_i r ranges heq
      rw [heq, rangesTotal_cons] at hrest
      split
      · rename_i ht
        rw [← hrest, rangesTotal_cons, ht]
        simp only
        split <;> omega
      · rw [← hrest, rangesTotal_cons, rangesTotal_cons]

/-- In consecutive ranges a byte has the type that it has by counting. -/
theorem rangeType_eq {offset : Nat} {ranges : List Range} (h : Consecutive offset ranges) (q : Nat) :
    rangeType ranges (offset + q) = typeAt (asEntries ranges) q := by
  induction ranges generalizing offset q with
  | nil => rfl
  | cons r ranges ih =>
    obtain ⟨hoff, hrest⟩ := h
    have hstep : typeAt (asEntries (r :: ranges)) q =
        if q < r.length then some r.type else typeAt (asEntries ranges) (q - r.length) := rfl
    rw [hstep]
    unfold rangeType
    by_cases hq : q < r.length
    · rw [List.find?_cons_of_pos (by rw [decide_eq_true_eq]; omega), if_pos hq]
      rfl
    · rw [List.find?_cons_of_neg (by rw [decide_eq_true_eq]; omega), if_neg hq, ← ih hrest,
        show offset + r.length + (q - r.length) = offset + q by omega]
      rfl

/-! ## The loop coalesces -/

/-- A run of one type in front of something else is one range. -/
theorem coalesce_run {offset : Nat} {t : UInt64} {run rest : List Entry} (hne : run ≠ [])
    (hrun : ∀ e ∈ run, e.flags = t) (hrest : ∀ e ∈ rest.head?, e.flags ≠ t) :
    coalesce offset (run ++ rest) =
      ⟨offset, totalLength run, t⟩ :: coalesce (offset + totalLength run) rest := by
  induction run generalizing offset with
  | nil => exact absurd rfl hne
  | cons e run ih =>
    have ht : e.flags = t := hrun e List.mem_cons_self
    rw [List.cons_append, coalesce, totalLength_cons, ht]
    cases run with
    | nil =>
      have hlen : totalLength [] = 0 := rfl
      rw [List.nil_append, hlen, Nat.add_zero]
      cases rest with
      | nil => rfl
      | cons y rest =>
        obtain ⟨len, ranges, heq⟩ := coalesce_cons (offset + e.length) y rest
        have hy : y.flags ≠ t := hrest y rfl
        simp only [heq, hy, if_false]
    | cons e' run =>
      rw [ih (List.cons_ne_nil _ _) fun x hx => hrun x (List.mem_cons_of_mem _ hx)]
      simp only [if_true]
      rw [Nat.add_assoc]

section

variable {entries : List Entry} {i last offset : Nat}

/-- The entries that are coalesced at the moment. -/
def currentRun (entries : List Entry) (last i : Nat) : List Entry :=
  (entries.drop last).take (i - last)

theorem drop_eq_currentRun (hle : last ≤ i) :
    entries.drop last = currentRun entries last i ++ entries.drop i := by
  have hdrop : (entries.drop last).drop (i - last) = entries.drop i := by
    rw [List.drop_drop, show last + (i - last) = i by omega]
  rw [currentRun, ← hdrop, List.take_append_drop]

theorem runLength_eq (h : totalLength (currentRun entries last i) < 2 ^ 64) :
    runLength entries last i = totalLength (currentRun entries last i) := by
  have hadd := advanceOffset_eq 0 (currentRun entries last i)
  rw [Nat.zero_mod, Nat.zero_add, Nat.mod_eq_of_lt h] at hadd
  exact hadd

theorem flagsAt_eq (hi : i < entries.length) : flagsAt entries i = entries[i].flags := by
  simp [flagsAt, hi]

theorem mem_currentRun {e : Entry} (hi : i ≤ entries.length) (he : e ∈ currentRun entries last i) :
    ∃ k, last ≤ k ∧ k < i ∧ flagsAt entries k = e.flags := by
  obtain ⟨j, hj, rfl⟩ := List.getElem_of_mem he
  have hj' := hj
  simp only [currentRun, List.length_take, List.length_drop] at hj'
  refine ⟨last + j, by omega, by omega, ?_⟩
  rw [flagsAt_eq (by omega)]
  simp [currentRun]

/-- The invariant of the loop: the entries since `last` have one type. What is still to
be printed is the coalescing of the entries from `last` on. -/
theorem printFrom_eq {i last offset : Nat} (hle : last ≤ i) (hi : i ≤ entries.length)
    (hrun : ∀ k, last ≤ k → k < i → flagsAt entries k = flagsAt entries last)
    (hfit : offset + totalLength (entries.drop last) < 2 ^ 64) :
    printFrom entries i last offset = coalesce offset (entries.drop last) := by
  have hsplit : entries.drop last = currentRun entries last i ++ entries.drop i :=
    drop_eq_currentRun hle
  have htotal : totalLength (entries.drop last) =
      totalLength (currentRun entries last i) + totalLength (entries.drop i) := by
    rw [← totalLength_append, ← hsplit]
  have hlen : runLength entries last i = totalLength (currentRun entries last i) :=
    runLength_eq (by omega)
  have htypes : ∀ e ∈ currentRun entries last i, e.flags = flagsAt entries last := by
    intro e he
    obtain ⟨k, hk, hk', hflags⟩ := mem_currentRun hi he
    rw [← hflags, hrun k hk hk']
  have hne : last ≠ i → currentRun entries last i ≠ [] := by
    intro hlast h
    have := congrArg List.length h
    simp only [currentRun, List.length_take, List.length_drop, List.length_nil] at this
    omega
  rw [printFrom]
  by_cases hlt : i < entries.length
  · rw [if_pos hlt]
    by_cases hcond : last ≠ i ∧ flagsAt entries i ≠ flagsAt entries last
    · -- the run ends here
      have hhead : ∀ e ∈ (entries.drop i).head?, e.flags ≠ flagsAt entries last := by
        intro e he
        rw [List.drop_eq_getElem_cons hlt] at he
        obtain rfl : entries[i] = e := Option.some.inj he
        rw [← flagsAt_eq hlt]
        exact hcond.2
      have hnext := @printFrom_eq (i + 1) i ((offset + runLength entries last i) % 2 ^ 64)
        (Nat.le_succ i) hlt
        (fun k hk hk' => by rw [show k = i by omega])
        (by rw [hlen, Nat.mod_eq_of_lt (by omega)]; omega)
      rw [if_pos hcond, hnext, hsplit, coalesce_run (hne hcond.1) htypes hhead, hlen,
        Nat.mod_eq_of_lt (by omega)]
    · rw [if_neg hcond]
      refine printFrom_eq (by omega) hlt (fun k hk hk' => ?_) hfit
      by_cases hki : k < i
      · exact hrun k hk hki
      · obtain rfl : k = i := by omega
        by_contra hno
        exact hcond ⟨fun h => hno (by rw [h]), hno⟩
  · rw [if_neg hlt]
    have hnil : entries.drop i = [] := List.drop_eq_nil_of_le (by omega)
    rw [hsplit, hnil]
    by_cases hlast : last = i
    · have hempty : currentRun entries last i = [] := by simp [currentRun, hlast]
      rw [if_neg (not_not_intro hlast), hempty]
      rfl
    · rw [if_pos hlast, coalesce_run (hne hlast) htypes (by simp), hlen]
      rfl
  termination_by entries.length - i

end

/-! ## Totals -/

theorem count_foldl {type : UInt64} {rest : List Entry} {r : Nat × UInt64}
    (hfit : r.1 + typeTotal rest type < 2 ^ 64) :
    (rest.foldl (countType type) r).1 = r.1 + typeTotal rest type := by
  induction rest generalizing r with
  | nil => rfl
  | cons e rest ih =>
    rw [typeTotal_cons] at hfit
    have hfirst : (countType type r e).1 = r.1 + if e.flags = type then e.length else 0 := by
      unfold countType
      split
      · exact Nat.mod_eq_of_lt (by rw [if_pos (by assumption)] at hfit; omega)
      · split <;> rfl
    rw [List.foldl_cons, ih (by rw [hfirst]; omega), hfirst, typeTotal_cons]
    omega

theorem typeTotal_le (entries : List Entry) (t : UInt64) :
    typeTotal entries t ≤ totalLength entries := by
  induction entries with
  | nil => exact Nat.le_refl _
  | cons e entries ih =>
    rw [typeTotal_cons, totalLength_cons]
    split <;> omega

theorem exists_of_typeTotal_pos {entries : List Entry} {t : UInt64} (h : 0 < typeTotal entries t) :
    ∃ e ∈ entries, e.flags = t := by
  induction entries with
  | nil => cases h
  | cons e entries ih =>
    rw [typeTotal_cons] at h
    by_cases he : e.flags = t
    · exact ⟨e, List.mem_cons_self, he⟩
    · rw [if_neg he, Nat.zero_add] at h
      obtain ⟨x, hx, hxt⟩ := ih h
      exact ⟨x, List.mem_cons_of_mem _ hx, hxt⟩

/-- The totals from a type on are those of the types that have bytes. -/
theorem mem_totalsFrom {entries : List Entry} (hfit : totalLength entries < 2 ^ 64)
    (type : UInt64) (x : Total) :
    x ∈ totalsFrom entries type ↔ type ≤ x.type ∧ x.size = typeTotal entries x.type ∧ 0 < x.size := by
  have hcount : (countTypes entries type).1 = typeTotal entries type := by
    have h := @count_foldl type entries (0, 0) (by
      have := typeTotal_le entries type
      simp only
      omega)
    rw [Nat.zero_add] at h
    exact h
  have hfirst : x ∈ (if (countTypes entries type).1 > 0 then
      [(⟨type, (countTypes entries type).1⟩ : Total)] else []) ↔
      type = x.type ∧ x.size = typeTotal entries x.type ∧ 0 < x.size := by
    rw [hcount]
    obtain ⟨t, c⟩ := x
    constructor
    · intro h
      split at h
      · cases List.mem_singleton.mp h
        exact ⟨rfl, rfl, by assumption⟩
      · cases h
    · rintro ⟨ht, hc, hpos⟩
      simp only at ht hc hpos
      subst ht hc
      rw [if_pos hpos]
      exact List.mem_singleton_self _
  rw [totalsFrom]
  simp only [List.mem_append, hfirst]
  rcases nextType_count entries type with ⟨hzero, hnone⟩ | ⟨hlt, -, hmin⟩
  · rw [dif_pos hzero]
    constructor
    · rintro (⟨rfl, h⟩ | h)
      · exact ⟨UInt64.le_refl _, h⟩
      · cases h
    · rintro ⟨hle, hsize, hpos⟩
      obtain ⟨e, he, het⟩ := exists_of_typeTotal_pos (by rw [← hsize]; exact hpos)
      have hge : x.type ≤ type := UInt64.not_lt.mp fun hc => hnone e he (by rw [het]; exact hc)
      exact .inl ⟨UInt64.le_antisymm hle hge, hsize, hpos⟩
  · have hne : (countTypes entries type).2 ≠ 0 := by
      intro h
      rw [h] at hlt
      exact UInt64.not_lt_zero hlt
    have hdec : 2 ^ 64 - (countTypes entries type).2.toNat < 2 ^ 64 - type.toNat := by
      have := UInt64.lt_iff_toNat_lt.mp hlt
      have := (countTypes entries type).2.toNat_lt
      omega
    rw [dif_neg hne, mem_totalsFrom hfit]
    constructor
    · rintro (⟨rfl, h⟩ | ⟨hle, h⟩)
      · exact ⟨UInt64.le_refl _, h⟩
      · exact ⟨UInt64.le_of_lt (UInt64.lt_of_lt_of_le hlt hle), h⟩
    · rintro ⟨hle, hsize, hpos⟩
      by_cases heq : type = x.type
      · exact .inl ⟨heq, hsize, hpos⟩
      · obtain ⟨e, he, het⟩ := exists_of_typeTotal_pos (by rw [← hsize]; exact hpos)
        have hgt : type < e.flags := by
          rw [het]
          exact UInt64.lt_of_le_of_ne hle heq
        refine .inr ⟨?_, hsize, hpos⟩
        rw [← het]
        exact hmin e he hgt
  termination_by 2 ^ 64 - type.toNat

theorem totalsFrom_pairwise {entries : List Entry} (hfit : totalLength entries < 2 ^ 64)
    (type : UInt64) : (totalsFrom entries type).Pairwise fun a b => a.type < b.type := by
  rw [totalsFrom]
  refine List.pairwise_append.mpr ⟨?_, ?_, ?_⟩
  · split
    · exact List.pairwise_singleton _ _
    · exact .nil
  · split
    · exact .nil
    · rename_i hne
      have hlt := lt_nextType hne
      have hdec : 2 ^ 64 - (countTypes entries type).2.toNat < 2 ^ 64 - type.toNat := by
        have := UInt64.lt_iff_toNat_lt.mp hlt
        have := (countTypes entries type).2.toNat_lt
        omega
      exact totalsFrom_pairwise hfit _
  · intro a ha b hb
    split at ha
    · obtain rfl := List.mem_singleton.mp ha
      split at hb
      · cases hb
      · rename_i hne
        have hle := ((mem_totalsFrom hfit _ b).mp hb).1
        exact UInt64.lt_of_lt_of_le (lt_nextType hne) hle
    · cases ha
  termination_by 2 ^ 64 - type.toNat

theorem totalOf_eq {entries : List Entry} {size : Nat} (hfit : totalLength entries < 2 ^ 64)
    (hsize : size ≠ 0) (t : UInt64) :
    totalOf (printTotals entries size) t = typeTotal entries t := by
  unfold totalOf printTotals
  rw [if_neg hsize]
  cases hfind : (totalsFrom entries 0).find? fun x => x.type == t with
  | some x =>
    have hx := (mem_totalsFrom hfit 0 x).mp (List.mem_of_find?_eq_some hfind)
    have hfound := List.find?_some hfind
    rw [← eq_of_beq hfound]
    exact hx.2.1
  | none =>
    by_contra hne
    have hpos : 0 < typeTotal entries t := Nat.pos_of_ne_zero fun h => hne h.symm
    have hmem := (mem_totalsFrom hfit 0 ⟨t, typeTotal entries t⟩).mpr
      ⟨UInt64.zero_le, rfl, hpos⟩
    have := List.find?_eq_none.mp hfind _ hmem
    simp at this

/-- **The two outputs of the map agree.** The ranges are the maximal coalescing of the
extents, the totals are those of the types that have bytes, each once and in order, and
for every type both show the same number of bytes. -/
theorem map_output_agrees (entries : List Entry) {size : Nat}
    (hfit : totalLength entries < 2 ^ 64) (hsize : size ≠ 0) :
    ((printExtents entries).IsChain (fun a b => a.type ≠ b.type) ∧
      Consecutive 0 (printExtents entries) ∧
      ∀ p, rangeType (printExtents entries) p = typeAt entries p) ∧
    ((printTotals entries size).Pairwise (fun a b => a.type < b.type) ∧
      ∀ x, x ∈ printTotals entries size ↔ x.size = typeTotal entries x.type ∧ 0 < x.size) ∧
    ∀ t, rangesTotal (printExtents entries) t = totalOf (printTotals entries size) t := by
  have hprint : printExtents entries = coalesce 0 entries := by
    have h := @printFrom_eq entries 0 0 0 (Nat.le_refl _) (Nat.zero_le _)
      (fun k _ hk => absurd hk (Nat.not_lt_zero _)) (by simpa using hfit)
    rw [List.drop_zero] at h
    exact h
  have hcons := coalesce_consecutive 0 entries
  refine ⟨⟨?_, ?_, fun p => ?_⟩, ⟨?_, fun x => ?_⟩, fun t => ?_⟩
  · rw [hprint]
    exact coalesce_isChain 0 entries
  · rw [hprint]
    exact hcons
  · have h := rangeType_eq hcons p
    rw [Nat.zero_add] at h
    rw [hprint, h, typeAt_coalesce]
  · rw [printTotals, if_neg hsize]
    exact totalsFrom_pairwise hfit 0
  · rw [printTotals, if_neg hsize, mem_totalsFrom hfit]
    exact and_iff_right UInt64.zero_le
  · rw [hprint, rangesTotal_coalesce, totalOf_eq hfit hsize]

theorem map_output_agrees_small :
    printExtents [⟨5, 3⟩, ⟨2, 3⟩, ⟨4, 0⟩, ⟨1, 3⟩] = [⟨0, 7, 3⟩, ⟨7, 4, 0⟩, ⟨11, 1, 3⟩] ∧
      printTotals [⟨5, 3⟩, ⟨2, 3⟩, ⟨4, 0⟩, ⟨1, 3⟩] 12 = [⟨0, 4⟩, ⟨3, 8⟩] ∧
      rangesTotal (printExtents [⟨5, 3⟩, ⟨2, 3⟩, ⟨4, 0⟩, ⟨1, 3⟩]) 3 =
        totalOf (printTotals [⟨5, 3⟩, ⟨2, 3⟩, ⟨4, 0⟩, ⟨1, 3⟩] 12) 3 := by
  refine ⟨by decide +kernel, by decide +kernel, ?_⟩
  exact (map_output_agrees [⟨5, 3⟩, ⟨2, 3⟩, ⟨4, 0⟩, ⟨1, 3⟩] (by decide)
    (show (12 : Nat) ≠ 0 by decide)).2.2 3

end Libnbd.Tools
