import Libnbd.Copy.Exact

/-!
`only_zeroes` against the test it stands for.

The index into the extents is kept from one call to the next, so that a worker walks over the
list of a work range once. What a call answers does not depend on it: the answer is that of
the test over all extents of the list.
-/

namespace Libnbd.Copy

variable {exts : List Extent} {a b offset len : Nat}

/-- The extent and `[offset, offset + len)` have a position in common. -/
def Extent.Intersects (e : Extent) (offset len : Nat) : Prop :=
  ∃ q, e.offset ≤ q ∧ q < e.offset + e.length ∧ offset ≤ q ∧ q < offset + len

theorem Extent.intersects_iff (e : Extent) (offset len : Nat) :
    e.Intersects offset len ↔ max e.offset offset < min (e.offset + e.length) (offset + len) := by
  constructor
  · rintro ⟨q, h₁, h₂, h₃, h₄⟩
    omega
  · intro h
    exact ⟨max e.offset offset, by omega, by omega, by omega, by omega⟩

instance (e : Extent) (offset len : Nat) : Decidable (e.Intersects offset len) :=
  decidable_of_iff _ (e.intersects_iff offset len).symm

/-- The test without an index: all extents that meet the range are zero. -/
def allZero (exts : List Extent) (offset len : Nat) : Bool :=
  exts.all fun e => !decide (e.Intersects offset len) || e.zero

theorem allZero_iff :
    allZero exts offset len = true ↔ ∀ e ∈ exts, e.Intersects offset len → e.zero = true := by
  simp only [allZero, List.all_eq_true, Bool.or_eq_true, Bool.not_eq_true', decide_eq_false_iff_not,
    ← imp_iff_not_or]

/-- The extents follow each other from `a` at the latest to `b` at least, none of them
empty. -/
structure Contiguous (exts : List Extent) (a b : Nat) : Prop where
  cover : ∃ e es, exts = e :: es ∧ e.offset ≤ a ∧ Reaches b e es
  pos : ∀ e ∈ exts, 0 < e.length

/-- The calls of a worker for one work range, as offset and length: each starts from the
index that the one before it left. `none` if an assertion fails. -/
def callsFrom (exts : List Extent) : Nat → List (Nat × Nat) → Option (List Bool)
  | _, [] => some []
  | i, (offset, len) :: calls =>
    match onlyZeroes exts i offset len with
    | none => none
    | some (r, i) => (callsFrom exts i calls).map (r :: ·)

/-! ## The extents behind and before the range -/

theorem Reaches.start_le {e g : Extent} {es : List Extent} (h : Reaches b e es) (hg : g ∈ e :: es) :
    e.offset ≤ g.offset := by
  induction es generalizing e with
  | nil =>
    cases List.mem_singleton.mp hg
    exact Nat.le_refl _
  | cons f fs ih =>
    obtain ⟨hf, hrest⟩ := h
    rcases List.mem_cons.mp hg with rfl | hg
    · exact Nat.le_refl _
    · have := ih hrest hg
      omega

/-- The extents in front of `f` end where it starts, or before. -/
theorem Reaches.end_le {e f g : Extent} {es fs pre : List Extent} (h : Reaches b e es)
    (heq : e :: es = pre ++ f :: fs) (hg : g ∈ pre) : g.offset + g.length ≤ f.offset := by
  induction pre generalizing e es with
  | nil => cases hg
  | cons p pre ih =>
    obtain ⟨rfl, hes⟩ := List.cons.inj heq
    cases es with
    | nil => simp at hes
    | cons e' es =>
      obtain ⟨hstart, hrest⟩ := h
      rcases List.mem_cons.mp hg with rfl | hg
      · have := hrest.start_le (g := f) (hes ▸ by simp)
        omega
      · exact ih hrest hes hg

theorem Extent.not_intersects_of_end_le {e : Extent} (h : e.offset + e.length ≤ offset) :
    ¬ e.Intersects offset len := by
  rintro ⟨q, h₁, h₂, h₃, h₄⟩
  omega

theorem Extent.not_intersects_of_le_start {e : Extent} (h : offset + len ≤ e.offset) :
    ¬ e.Intersects offset len := by
  rintro ⟨q, h₁, h₂, h₃, h₄⟩
  omega

/-! ## One call -/

/-- One extent of the second loop. The ones from the first behind the range on all start
behind it. -/
theorem searchData_cons {e : Extent} {es : List Extent} (h : Reaches b e es) (hpos : 0 < e.length)
    (hend : offset < e.offset + e.length) (hlen : 0 < len)
    (hrest : searchData offset len es = some (allZero es offset len)) :
    searchData offset len (e :: es) = some (allZero (e :: es) offset len) := by
  unfold searchData
  rw [if_neg (by omega)]
  split
  · next hstart =>
    have hall : allZero (e :: es) offset len = true := by
      rw [allZero_iff]
      intro g hg hmeet
      have hle := h.start_le hg
      exact absurd hmeet (Extent.not_intersects_of_le_start (by omega))
    rw [hall]
  · next hstart =>
    have hmeet : e.Intersects offset len := by
      rw [Extent.intersects_iff]
      omega
    cases hz : e.zero with
    | false => simp [allZero, hmeet, hz]
    | true => simpa [allZero, hmeet, hz] using hrest

/-- The second loop is the test over the rest of the list. -/
theorem searchData_eq {e : Extent} {es : List Extent} (h : Reaches b e es)
    (hpos : ∀ f ∈ e :: es, 0 < f.length) (hend : offset < e.offset + e.length) (hlen : 0 < len) :
    searchData offset len (e :: es) = some (allZero (e :: es) offset len) := by
  induction es generalizing e with
  | nil => exact searchData_cons h (hpos e List.mem_cons_self) hend hlen rfl
  | cons f fs ih =>
    have hf := hpos f (by simp)
    have hstart := h.1
    exact searchData_cons h (hpos e List.mem_cons_self) hend hlen
      (ih h.2 (fun g hg => hpos g (List.mem_cons_of_mem _ hg)) (by omega))

/-- A call answers as the test over the whole list does, whatever the index it starts from. -/
theorem onlyZeroes_eq {i : Nat} (h : Contiguous exts a b) (hi : Indexed exts i offset)
    (hlen : 0 < len) (hb : offset + len ≤ b) :
    ∃ j, onlyZeroes exts i offset len = some (allZero exts offset len, j) ∧
      Indexed exts j offset := by
  obtain ⟨e₀, es₀, hexts, -, hreach⟩ := h.cover
  obtain ⟨front, f, fs, hfront, hfs, hf, hend, hcall⟩ :=
    onlyZeroes_found hexts hreach hi (by omega) len
  have hsearch := searchData_eq hfs
    (fun g hg => h.pos g (hfront ▸ List.mem_append_right _ hg)) hend hlen
  -- what the index has passed ends before the range
  have hskip : allZero front offset len = true := by
    rw [allZero_iff]
    intro g hg hmeet
    have hle := hreach.end_le (hexts ▸ hfront) hg
    exact absurd hmeet (Extent.not_intersects_of_end_le (by omega))
  have hall : allZero exts offset len = allZero (f :: fs) offset len := by
    have happend : allZero exts offset len =
        (allZero front offset len && allZero (f :: fs) offset len) := by
      rw [hfront, allZero, List.all_append]
      rfl
    rw [happend, hskip, Bool.true_and]
  refine ⟨front.length, ?_, f, by simp [hfront], hf⟩
  rw [hcall, hsearch, hall, Option.map_some]

/-! ## All calls for a work range -/

theorem Indexed.mono {i offset' : Nat} (h : Indexed exts i offset) (hle : offset ≤ offset') :
    Indexed exts i offset' := by
  obtain ⟨e, hget, he⟩ := h
  exact ⟨e, hget, Nat.le_trans he hle⟩

/-- By induction over the calls: the index left by one is right for all that follow. -/
theorem callsFrom_eq (h : Contiguous exts a b) {calls : List (Nat × Nat)} {i : Nat}
    (hi : ∀ c ∈ calls, Indexed exts i c.1) (hin : ∀ c ∈ calls, 0 < c.2 ∧ c.1 + c.2 ≤ b)
    (hmono : calls.Pairwise fun c d => c.1 ≤ d.1) :
    callsFrom exts i calls = some (calls.map fun c => allZero exts c.1 c.2) := by
  induction calls generalizing i with
  | nil => rfl
  | cons c calls ih =>
    obtain ⟨hle, hmono⟩ := List.pairwise_cons.mp hmono
    obtain ⟨hlen, hb⟩ := hin c List.mem_cons_self
    obtain ⟨j, hcall, hj⟩ := onlyZeroes_eq h (hi c List.mem_cons_self) hlen hb
    have hrest := ih (fun d hd => hj.mono (hle d hd))
      (fun d hd => hin d (List.mem_cons_of_mem _ hd)) hmono
    obtain ⟨offset, len⟩ := c
    simp only [callsFrom, hcall, hrest, Option.map_some, List.map_cons]

/-- **`only_zeroes` is the test over all extents.** Extents that follow each other over the
work range `[a, b)`, requests inside it that are not empty and in the order of their offsets,
and the index from 0 on: no assertion fails, and each call returns `true` exactly if every
extent that meets the request is zero. -/
theorem only_zeroes_exact (h : Contiguous exts a b) {calls : List (Nat × Nat)}
    (hin : ∀ c ∈ calls, a ≤ c.1 ∧ 0 < c.2 ∧ c.1 + c.2 ≤ b)
    (hmono : calls.Pairwise fun c d => c.1 ≤ d.1) :
    callsFrom exts 0 calls = some (calls.map fun c => allZero exts c.1 c.2) ∧
      ∀ c ∈ calls, (allZero exts c.1 c.2 = true ↔
        ∀ e ∈ exts, e.Intersects c.1 c.2 → e.zero = true) := by
  obtain ⟨e, es, rfl, he, hreach⟩ := h.cover
  refine ⟨callsFrom_eq h (fun c hc => ⟨e, rfl, ?_⟩) (fun c hc => (hin c hc).2) hmono,
    fun c _ => allZero_iff⟩
  have hle := (hin c hc).1
  omega

/-- Data between two zero extents: the request that crosses into it is not zero, the ones on
either side of it are. -/
theorem only_zeroes_exact_three :
    callsFrom [⟨0, 4, true⟩, ⟨4, 2, false⟩, ⟨6, 4, true⟩] 0 [(0, 4), (3, 2), (6, 4)] =
      some [true, false, true] :=
  (@only_zeroes_exact [⟨0, 4, true⟩, ⟨4, 2, false⟩, ⟨6, 4, true⟩] 0 10
    ⟨⟨⟨0, 4, true⟩, [⟨4, 2, false⟩, ⟨6, 4, true⟩], rfl, Nat.le_refl 0, rfl, rfl, Nat.le_refl 10⟩,
      by decide⟩
    [(0, 4), (3, 2), (6, 4)] (by decide) (by decide)).1

end Libnbd.Copy
