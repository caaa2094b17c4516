import Libnbd.Lib.System
import Libnbd.Common.CheckedOverflow
import Mathlib.Data.List.InsertIdx

/-!
Vectors (`common/utils/vector.h` and `common/utils/vector.c`).

A vector owns a block of `cap` elements of which the first `len` are in use. The block is
grown by `realloc`, whose answers come from the environment; the elements that are not in
use are whatever they happen to be. Every access is checked against the block, and a use of
a freed pointer is a fault.
-/

namespace Libnbd.Common

universe u

variable {α : Type u}

/-! ## `calculate_capacity` -/

/-- The new capacity in elements and in bytes, or `none` for `ENOMEM`. -/
def calculateCapacity (t : Abi) (cap n itemsize : Nat) (exactly : Bool) : Option (Nat × Nat) :=
  let (o₁, reqcap) := addOverflow t cap n
  let (o₂, reqbytes) := mulOverflow t reqcap itemsize
  if o₁ || o₂ then none
  else
    let (o₃, u) := addOverflow t cap 1
    let (o₄, newcap) := addOverflow t cap (u / 2)
    let (o₅, newbytes) := mulOverflow t newcap itemsize
    -- the fallback when the generous size overflows or is less than what was asked for
    if exactly || o₃ || o₄ || o₅ || decide (newbytes < reqbytes) then some (reqcap, reqbytes)
    else some (newcap, newbytes)

/-! ## Vectors and `generic_vector_reserve` -/

/-- `DEFINE_VECTOR_TYPE` for an element type of `itemsize` bytes. `reallocFrees` is a choice
of the C library: whether `realloc` of a block to no bytes frees it when it returns `NULL`. -/
structure VectorType extends Abi where
  itemsize : Nat
  itemsize_pos : 0 < itemsize
  itemsize_le : itemsize ≤ toAbi.sizeMax
  reallocFrees : Bool

/-- What a pointer points to. -/
inductive Buffer (α : Type u) where
  | null
  | block (mem : List α)
  | freed

def Buffer.isNull : Buffer α → Bool
  | .null => true
  | _ => false

/-- The answer of `realloc`: `NULL`, or a block that keeps what fits of the old one and holds
`fresh` in its other elements. -/
inductive Answer (α : Type u) where
  | failed
  | moved (fresh : Nat → α)

def Answer.isFailed : Answer α → Bool
  | .failed => true
  | .moved _ => false

/-- `struct name`. -/
structure Vec (α : Type u) where
  ptr : Buffer α
  len : Nat
  cap : Nat

/-- `empty_vector`. -/
def emptyVector : Vec α := ⟨.null, 0, 0⟩

/-- The first `len` elements. -/
def Vec.elems (v : Vec α) : List α :=
  match v.ptr with
  | .block mem => mem.take v.len
  | _ => []

section

variable (t : VectorType)

/-- The contents of a block of `bytes` bytes that replaces one with the contents `mem`. -/
def resized (mem : List α) (bytes : Nat) (fresh : Nat → α) : List α :=
  (List.range (bytes / t.itemsize)).map fun i => mem[i]?.getD (fresh i)

/-- `realloc (p, bytes)`: what `p` points to afterwards, and the new pointer. -/
def realloc (bytes : Nat) : Buffer α → Answer α → Option (Buffer α × Buffer α)
  | .freed, _ => none
  | .null, .failed => some (.null, .null)
  | .block mem, .failed =>
    some (if bytes = 0 && t.reallocFrees then .freed else .block mem, .null)
  | .null, .moved fresh => some (.null, .block (resized t [] bytes fresh))
  | .block mem, .moved fresh => some (.freed, .block (resized t mem bytes fresh))

/-- `generic_vector_reserve`. -/
def genericVectorReserve (v : Vec α) (n : Nat) (exactly : Bool) (ans : Answer α) :
    Option (Vec α × Int) :=
  match calculateCapacity t.toAbi v.cap n t.itemsize exactly with
  | none => some (v, -1)
  | some (newcap, newbytes) =>
    match realloc t newbytes v.ptr ans with
    | none => none
    | some (old, .null) => some ({ v with ptr := old }, -1)
    | some (_, newptr) => some ({ v with ptr := newptr, cap := newcap }, 0)

/-! ## The operations of `DEFINE_VECTOR_TYPE` -/

/-- `memmove (&p[dst], &p[src], bytes)`, where both ranges lie within the block. -/
def memmove (p : Buffer α) (dst src bytes : Nat) : Option (Buffer α) :=
  match p with
  | .block mem =>
    let k := bytes / t.itemsize
    if bytes % t.itemsize = 0 ∧ dst + k ≤ mem.length ∧ src + k ≤ mem.length then
      some (.block (mem.take dst ++ (mem.drop src).take k ++ mem.drop (dst + k)))
    else none
  | _ => none

/-- `p[i] = elem`. -/
def store (p : Buffer α) (i : Nat) (elem : α) : Option (Buffer α) :=
  match p with
  | .block mem => if i < mem.length then some (.block (mem.set i elem)) else none
  | _ => none

/-- `name_reserve`. -/
def reserve (v : Vec α) (n : Nat) (ans : Answer α) : Option (Vec α × Int) :=
  genericVectorReserve t v n false ans

/-- `name_reserve_exactly`. -/
def reserveExactly (v : Vec α) (n : Nat) (ans : Answer α) : Option (Vec α × Int) :=
  genericVectorReserve t v n true ans

/-- The part of `name_insert` after the vector has room. -/
def insertElem (v : Vec α) (elem : α) (i : Nat) : Option (Vec α × Int) :=
  (memmove t v.ptr (i + 1) i (t.toSize ((v.len - i) * t.itemsize))).bind fun p =>
    (store p i elem).map fun p => ({ v with ptr := p, len := t.toSize (v.len + 1) }, 0)

/-- `name_insert`. A failed assertion is a fault. -/
def insert (v : Vec α) (elem : α) (i : Nat) (ans : Answer α) : Option (Vec α × Int) :=
  if v.len < i then none
  else if v.cap ≤ v.len then
    match reserve t v 1 ans with
    | none => none
    | some (v, r) => if r = -1 then some (v, -1) else insertElem t v elem i
  else insertElem t v elem i

/-- `name_append`. -/
def append (v : Vec α) (elem : α) (ans : Answer α) : Option (Vec α × Int) :=
  insert t v elem v.len ans

/-- `name_remove`, with 0 for its missing result. -/
def remove (v : Vec α) (i : Nat) : Option (Vec α × Int) :=
  if v.len ≤ i then none
  else (memmove t v.ptr i (i + 1) (t.toSize ((v.len - i - 1) * t.itemsize))).map fun p =>
    ({ v with ptr := p, len := v.len - 1 }, 0)

/-- `name_reset`, with 0 for its missing result. -/
def reset (v : Vec α) : Option (Vec α × Int) :=
  match v.ptr with
  | .freed => none
  | _ => some (emptyVector, 0)

end

/-- The operations, with their arguments. -/
inductive Op (α : Type u) where
  | insert (elem : α) (i : Nat)
  | append (elem : α)
  | remove (i : Nat)
  | reserve (n : Nat)
  | reserveExactly (n : Nat)
  | reset

/-- One call. The argument of the two reserving functions is converted to `size_t`. -/
def call (t : VectorType) (v : Vec α) (op : Op α) (ans : Answer α) : Option (Vec α × Int) :=
  match op with
  | .insert elem i => insert t v elem i ans
  | .append elem => append t v elem ans
  | .remove i => remove t v i
  | .reserve n => reserve t v (t.toSize n) ans
  | .reserveExactly n => reserveExactly t v (t.toSize n) ans
  | .reset => reset v

/-- Vectors as a transition system: a label is a call with the answer of `realloc`. -/
def vectors (t : VectorType) : Lib.System (Vec α) (Op α × Answer α) where
  init v := v = emptyVector
  step v l := (call t v l.1 l.2).map Prod.fst

/-- The indexes are within their asserted bounds. -/
def Op.InBounds (v : Vec α) : Op α → Prop
  | .insert _ i => i ≤ v.len
  | .remove i => i < v.len
  | _ => True

instance (v : Vec α) : DecidablePred (Op.InBounds v)
  | .insert _ i => inferInstanceAs (Decidable (i ≤ v.len))
  | .remove i => inferInstanceAs (Decidable (i < v.len))
  | .append _ | .reserve _ | .reserveExactly _ | .reset => inferInstanceAs (Decidable True)

/-- `realloc` of a block of no elements to no elements frees the block and returns `NULL`. -/
def freesBlock (t : VectorType) (v : Vec α) (n : Nat) (ans : Answer α) : Bool :=
  n == 0 && v.cap == 0 && !v.ptr.isNull && t.reallocFrees && ans.isFailed

/-- The call reserves nothing for a vector that has a block of no elements, and so loses it. -/
def releases (t : VectorType) (v : Vec α) (op : Op α) (ans : Answer α) : Bool :=
  match op with
  | .reserve n | .reserveExactly n => freesBlock t v (t.toSize n) ans
  | _ => false

/-- What the operation does to a list. -/
def Op.apply (xs : List α) : Op α → List α
  | .insert elem i => xs.insertIdx i elem
  | .append elem => xs ++ [elem]
  | .remove i => xs.eraseIdx i
  | .reserve _ | .reserveExactly _ => xs
  | .reset => []

/-- The operation, when its call succeeds. -/
def completed (t : VectorType) (v : Vec α) (l : Op α × Answer α) : List (Op α) :=
  match call t v l.1 l.2 with
  | some (_, 0) => [l.1]
  | _ => []

/-- The list that the successful operations of a run give. -/
def replayed (t : VectorType) (ls : List (Op α × Answer α)) : List α :=
  ((vectors t).collect (completed t) emptyVector ls).foldl Op.apply []


/-! ## The capacity never wraps -/

theorem calculateCapacity_spec {t : Abi} {cap n itemsize newcap newbytes : Nat}
    {exactly : Bool} (hcap : cap ≤ t.sizeMax) (hn : n ≤ t.sizeMax) (hpos : 0 < itemsize)
    (hitem : itemsize ≤ t.sizeMax)
    (h : calculateCapacity t cap n itemsize exactly = some (newcap, newbytes)) :
    cap + n ≤ newcap ∧ newbytes = newcap * itemsize ∧ newbytes ≤ t.sizeMax := by
  have hone : 1 ≤ t.sizeMax := by omega
  have hhalf : t.toSize (cap + 1) / 2 ≤ t.sizeMax :=
    Nat.le_trans (Nat.div_le_self _ _) (t.toSize_le _)
  simp only [calculateCapacity, addOverflow_eq t hcap hn, addOverflow_eq t hcap hone,
    addOverflow_eq t hcap hhalf, mulOverflow_eq t (t.toSize_le _) hitem, Bool.or_eq_true,
    decide_eq_true_eq] at h
  split at h
  · cases h
  rename_i hreq
  rw [not_or, Nat.not_lt, Nat.not_lt] at hreq
  have hreqcap : t.toSize (cap + n) = cap + n := t.toSize_eq hreq.1
  rw [hreqcap] at h hreq
  have hreqbytes : t.toSize ((cap + n) * itemsize) = (cap + n) * itemsize := t.toSize_eq hreq.2
  rw [hreqbytes] at h
  split at h
  · obtain ⟨rfl, rfl⟩ := Prod.mk.inj (Option.some.inj h)
    exact ⟨Nat.le_refl _, rfl, hreq.2⟩
  -- the generous size fits, and is at least what was asked for
  rename_i hfit
  simp only [not_or, Nat.not_lt] at hfit
  obtain ⟨⟨⟨_, hsum⟩, hprod⟩, hmore⟩ := hfit
  obtain ⟨rfl, rfl⟩ := Prod.mk.inj (Option.some.inj h)
  rw [t.toSize_eq hsum] at hprod hmore ⊢
  rw [t.toSize_eq hprod] at hmore ⊢
  exact ⟨Nat.le_of_mul_le_mul_right hmore hpos, rfl, hprod⟩

/-! ## One call on a vector that holds a list -/

/-- The vector holds `xs`, followed by what fills the rest of its block. -/
structure Represents (t : VectorType) (v : Vec α) (xs : List α) : Prop where
  len_eq : v.len = xs.length
  ptr_eq : (v.ptr = .null ∧ v.cap = 0 ∧ xs = []) ∨
    ∃ rest, v.ptr = .block (xs ++ rest) ∧ v.cap = xs.length + rest.length
  bytes_le : v.cap * t.itemsize ≤ t.sizeMax

namespace Represents

variable {t : VectorType} {v : Vec α} {xs : List α}

theorem empty : Represents t (emptyVector : Vec α) [] where
  len_eq := rfl
  ptr_eq := .inl ⟨rfl, rfl, rfl⟩
  bytes_le := by simp [emptyVector]

theorem elems_eq (h : Represents t v xs) : v.elems = xs := by
  obtain ⟨hptr, -, rfl⟩ | ⟨rest, hptr, -⟩ := h.ptr_eq
  · simp only [Vec.elems, hptr]
  · simp only [Vec.elems, hptr, h.len_eq, List.take_left']

theorem len_le_cap (h : Represents t v xs) : v.len ≤ v.cap := by
  have hlen := h.len_eq
  obtain ⟨-, -, rfl⟩ | ⟨rest, -, hcap⟩ := h.ptr_eq
  · simp [hlen]
  · omega

theorem cap_le (h : Represents t v xs) : v.cap ≤ t.sizeMax :=
  Nat.le_trans (Nat.le_mul_of_pos_right _ t.itemsize_pos) h.bytes_le

theorem not_freed (h : Represents t v xs) : v.ptr ≠ .freed := by
  obtain ⟨hptr, -, -⟩ | ⟨rest, hptr, -⟩ := h.ptr_eq <;> simp [hptr]

/-- A byte count within the block is not truncated. -/
theorem toSize_bytes (h : Represents t v xs) {k : Nat} (hk : k ≤ v.cap) :
    t.toSize (k * t.itemsize) = k * t.itemsize :=
  t.toSize_eq (Nat.le_trans (Nat.mul_le_mul_right _ hk) h.bytes_le)

theorem calculateCapacity_le (h : Represents t v xs) {n newcap newbytes : Nat} {exactly : Bool}
    (hn : n ≤ t.sizeMax)
    (hc : calculateCapacity t.toAbi v.cap n t.itemsize exactly = some (newcap, newbytes)) :
    v.cap + n ≤ newcap ∧ newbytes = newcap * t.itemsize ∧ newbytes ≤ t.sizeMax :=
  calculateCapacity_spec h.cap_le hn t.itemsize_pos t.itemsize_le hc

end Represents

section

variable {t : VectorType} {v : Vec α} {xs : List α}

/-- A block that grows keeps its contents. -/
theorem resized_append {mem : List α} {newcap : Nat} (fresh : Nat → α)
    (h : mem.length ≤ newcap) :
    ∃ more, resized t mem (newcap * t.itemsize) fresh = mem ++ more ∧
      (mem ++ more).length = newcap := by
  have hlen : (resized t mem (newcap * t.itemsize) fresh).length = newcap := by
    simp [resized, Nat.mul_div_cancel _ t.itemsize_pos]
  have hext : mem <+: resized t mem (newcap * t.itemsize) fresh := by
    rw [List.prefix_iff_getElem?]
    intro i hi
    have hlt : i < newcap := Nat.lt_of_lt_of_le hi h
    simp [resized, Nat.mul_div_cancel _ t.itemsize_pos, hlt, hi]
  obtain ⟨more, hmore⟩ := hext
  exact ⟨more, hmore.symm, by rw [hmore, hlen]⟩

/-- A larger block in place of the old one holds the same list. -/
theorem Represents.grow (h : Represents t v xs) {newcap : Nat} (fresh : Nat → α)
    (hcap : v.cap ≤ newcap) (hbytes : newcap * t.itemsize ≤ t.sizeMax) :
    ∃ p old, realloc t (newcap * t.itemsize) v.ptr (.moved fresh) = some (old, .block p) ∧
      Represents t { v with ptr := .block p, cap := newcap } xs := by
  obtain ⟨hptr, -, rfl⟩ | ⟨rest, hptr, hlen⟩ := h.ptr_eq
  · refine ⟨_, _, by rw [hptr]; rfl, h.len_eq, .inr ⟨_, rfl, ?_⟩, hbytes⟩
    simp [Nat.mul_div_cancel _ t.itemsize_pos]
  · have hfit : (xs ++ rest).length ≤ newcap := by simp; omega
    obtain ⟨more, hmore, htotal⟩ := resized_append (t := t) fresh hfit
    refine ⟨_, _, by rw [hptr]; rfl, h.len_eq, .inr ⟨rest ++ more, ?_, ?_⟩, hbytes⟩
    · rw [hmore, List.append_assoc]
    · simp only [List.length_append] at htotal ⊢
      omega

/-- Nothing is asked of `realloc` only if nothing was reserved for an empty block. -/
theorem calculateCapacity_zero {t : Abi} {itemsize : Nat} (hpos : 0 < itemsize)
    (hitem : itemsize ≤ t.sizeMax) (exactly : Bool) :
    calculateCapacity t 0 0 itemsize exactly = some (0, 0) := by
  have hone : 1 ≤ t.sizeMax := by omega
  have hzero : t.toSize 0 = 0 := t.toSize_eq (Nat.zero_le _)
  simp [calculateCapacity, addOverflow_eq t (Nat.zero_le _) (Nat.zero_le _),
    addOverflow_eq t (Nat.zero_le _) hone, mulOverflow_eq t (Nat.zero_le _) hitem, hzero,
    t.toSize_eq hone]

/-- What reserving comes to: it makes room, it fails and changes nothing, or it fails and
loses the block. -/
theorem genericVectorReserve_spec (h : Represents t v xs) {n : Nat} (exactly : Bool)
    (ans : Answer α) (hn : n ≤ t.sizeMax) :
    (∃ v', genericVectorReserve t v n exactly ans = some (v', 0) ∧ Represents t v' xs ∧
      v'.len = v.len ∧ v.cap + n ≤ v'.cap ∧ freesBlock t v n ans = false) ∨
    genericVectorReserve t v n exactly ans = some (v, -1) ∧ freesBlock t v n ans = false ∨
    genericVectorReserve t v n exactly ans = some ({ v with ptr := .freed }, -1) ∧
      freesBlock t v n ans = true := by
  unfold genericVectorReserve
  cases hc : calculateCapacity t.toAbi v.cap n t.itemsize exactly with
  | none =>
    have hfree : freesBlock t v n ans = false := by
      by_contra hne
      have hzero : n = 0 ∧ v.cap = 0 := by simp [freesBlock] at hne; tauto
      rw [hzero.1, hzero.2, calculateCapacity_zero t.itemsize_pos t.itemsize_le] at hc
      cases hc
    exact .inr (.inl ⟨rfl, hfree⟩)
  | some c =>
    obtain ⟨newcap, newbytes⟩ := c
    obtain ⟨hmore, rfl, hbytes⟩ := h.calculateCapacity_le hn hc
    cases ans with
    | moved fresh =>
      obtain ⟨p, old, hre, hrep⟩ := h.grow fresh (by omega) hbytes
      exact .inl ⟨_, by simp only [hre], hrep, rfl, hmore, by simp [freesBlock, Answer.isFailed]⟩
    | failed =>
      have hzero : newcap * t.itemsize = 0 ↔ n = 0 ∧ v.cap = 0 := by
        constructor
        · intro h0
          have := (Nat.mul_eq_zero.mp h0).resolve_right t.itemsize_pos.ne'
          omega
        · rintro ⟨rfl, hcap⟩
          rw [hcap, calculateCapacity_zero t.itemsize_pos t.itemsize_le] at hc
          exact (Prod.mk.inj (Option.some.inj hc)).2.symm
      obtain ⟨ptr, len, cap⟩ := v
      cases ptr with
      | freed => exact absurd rfl h.not_freed
      | null => exact .inr (.inl ⟨rfl, by simp [freesBlock, Buffer.isNull]⟩)
      | block mem =>
        by_cases hfree : (n = 0 ∧ cap = 0) ∧ t.reallocFrees = true
        · refine .inr (.inr ⟨?_, ?_⟩)
          · simp only [realloc, hzero.mpr hfree.1, hfree.2, decide_true, Bool.and_true, if_true]
          · simp [freesBlock, hfree.1.1, hfree.1.2, hfree.2, Buffer.isNull, Answer.isFailed]
        · refine .inr (.inl ⟨?_, ?_⟩)
          · have hkeep : (decide (newcap * t.itemsize = 0) && t.reallocFrees) = false := by
              rw [Bool.and_eq_false_imp, decide_eq_true_eq, hzero]
              intro h0
              exact Bool.eq_false_of_not_eq_true fun hr => hfree ⟨h0, hr⟩
            simp only [realloc, hkeep, Bool.false_eq_true, if_false]
          · simp only [freesBlock, Bool.and_eq_false_imp, Bool.and_eq_true, beq_iff_eq]
            tauto

/-- Moving the elements from an index on by one place leaves that place to be overwritten. -/
theorem memmove_right (as bs rest : List α) (slot : α) :
    ∃ gap, memmove t (.block (as ++ bs ++ slot :: rest)) (as.length + 1) as.length
      (bs.length * t.itemsize) = some (.block (as ++ gap :: (bs ++ rest))) := by
  obtain ⟨gap, tail, hgap⟩ : ∃ gap tail, bs ++ slot :: rest = gap :: tail := by
    cases bs with
    | nil => exact ⟨slot, rest, rfl⟩
    | cons b bs => exact ⟨b, bs ++ slot :: rest, rfl⟩
  have htake : (as ++ bs ++ slot :: rest).take (as.length + 1) = as ++ [gap] := by
    rw [List.append_assoc, hgap, List.take_length_add_append]
    rfl
  have hsrc : ((as ++ bs ++ slot :: rest).drop as.length).take bs.length = bs := by
    rw [List.append_assoc, List.drop_left, List.take_left]
  have hdrop : (as ++ bs ++ slot :: rest).drop (as.length + 1 + bs.length) = rest := by
    have hlen : as.length + 1 + bs.length = (as ++ bs).length + 1 := by simp; omega
    rw [hlen, List.drop_length_add_append]
    rfl
  have hbounds : as.length + 1 + bs.length ≤ (as ++ bs ++ slot :: rest).length ∧
      as.length + bs.length ≤ (as ++ bs ++ slot :: rest).length := by
    simp
    omega
  refine ⟨gap, ?_⟩
  simp only [memmove, Nat.mul_mod_left, Nat.mul_div_cancel _ t.itemsize_pos, hbounds, and_self,
    if_true, htake, hsrc, hdrop]
  rw [List.append_assoc, List.append_assoc, List.singleton_append]

/-- Moving the elements after an index back by one place drops the element at that place. -/
theorem memmove_left (as bs rest : List α) (x : α) :
    ∃ junk, memmove t (.block (as ++ x :: bs ++ rest)) as.length (as.length + 1)
      (bs.length * t.itemsize) = some (.block (as ++ bs ++ junk :: rest)) := by
  obtain ⟨init, junk, hjunk⟩ : ∃ init junk, x :: bs = init ++ [junk] :=
    ⟨_, _, (List.dropLast_concat_getLast (List.cons_ne_nil x bs)).symm⟩
  have htake : (as ++ x :: bs ++ rest).take as.length = as := by
    rw [List.append_assoc, List.take_left]
  have hsrc : ((as ++ x :: bs ++ rest).drop (as.length + 1)).take bs.length = bs := by
    rw [List.append_assoc, List.drop_length_add_append, List.cons_append, List.drop_succ_cons,
      List.drop_zero, List.take_left]
  have hdrop : (as ++ x :: bs ++ rest).drop (as.length + bs.length) = junk :: rest := by
    have hlen : bs.length = init.length := by
      have := congrArg List.length hjunk
      simpa using this
    rw [List.append_assoc, List.drop_length_add_append, hjunk, hlen, List.append_assoc,
      List.drop_left]
    rfl
  have hbounds : as.length + bs.length ≤ (as ++ x :: bs ++ rest).length ∧
      as.length + 1 + bs.length ≤ (as ++ x :: bs ++ rest).length := by
    simp
    omega
  refine ⟨junk, ?_⟩
  simp only [memmove, Nat.mul_mod_left, Nat.mul_div_cancel _ t.itemsize_pos, hbounds, and_self,
    if_true, htake, hsrc, hdrop]

theorem insertIdx_append_length (as bs : List α) (x : α) :
    (as ++ bs).insertIdx as.length x = as ++ x :: bs := by
  induction as with
  | nil => rfl
  | cons a as ih => simpa using ih

/-- After the move and the store the block holds the list with the element inserted. -/
theorem insertElem_spec (h : Represents t v xs) {i : Nat} (elem : α) (hi : i ≤ v.len)
    (hroom : v.len < v.cap) :
    ∃ v', insertElem t v elem i = some (v', 0) ∧ Represents t v' (xs.insertIdx i elem) := by
  have hlen := h.len_eq
  obtain ⟨-, hcap, -⟩ | ⟨rest, hptr, hcap⟩ := h.ptr_eq
  · omega
  obtain ⟨slot, rest, rfl⟩ := List.exists_cons_of_length_pos (l := rest) (by omega)
  -- the list on both sides of the place of insertion
  obtain ⟨as, bs, rfl, rfl⟩ : ∃ as bs, xs = as ++ bs ∧ as.length = i :=
    ⟨xs.take i, xs.drop i, by simp, by simp; omega⟩
  have hcount : v.len - as.length = bs.length := by simp at hlen; omega
  have hbytes := h.toSize_bytes (k := v.len - as.length) (by omega)
  rw [hcount] at hbytes
  have hsucc : t.toSize (v.len + 1) = v.len + 1 :=
    t.toSize_eq (Nat.le_trans hroom h.cap_le)
  obtain ⟨gap, hmove⟩ := memmove_right (t := t) as bs rest slot
  have hstore : store (.block (as ++ gap :: (bs ++ rest))) as.length elem =
      some (.block (as ++ elem :: (bs ++ rest))) := by
    simp [store]
  have hinsert := insertIdx_append_length as bs elem
  refine ⟨{ v with ptr := .block (as ++ elem :: (bs ++ rest)), len := v.len + 1 }, ?_, ?_⟩
  · simp only [insertElem, hcount, hbytes, hptr, hmove, Option.bind_some, hstore,
      Option.map_some, hsucc]
  · rw [hinsert]
    refine ⟨?_, .inr ⟨rest, ?_, ?_⟩, h.bytes_le⟩
    · simp at hlen ⊢
      omega
    · simp
    · simp at hcap ⊢
      omega

theorem insert_spec (h : Represents t v xs) {i : Nat} (elem : α) (ans : Answer α)
    (hi : i ≤ v.len) :
    (∃ v', insert t v elem i ans = some (v', 0) ∧ Represents t v' (xs.insertIdx i elem)) ∨
      insert t v elem i ans = some (v, -1) := by
  have hassert : ¬ v.len < i := Nat.not_lt.mpr hi
  unfold insert
  rw [if_neg hassert]
  split
  · have hone : 1 ≤ t.sizeMax := Nat.le_trans t.itemsize_pos t.itemsize_le
    obtain ⟨v', hres, hrep, hlen, hcap, -⟩ | ⟨hres, -⟩ | ⟨-, hfree⟩ :=
      genericVectorReserve_spec h false ans hone
    · have hroom : v'.len < v'.cap := by have := h.len_le_cap; omega
      obtain ⟨v'', hins, hrep'⟩ := insertElem_spec hrep elem (hlen ▸ hi) hroom
      refine .inl ⟨v'', ?_, hrep'⟩
      simp only [reserve, hres]
      exact hins
    · right
      simp only [reserve, hres, if_true]
    · simp [freesBlock] at hfree
  · rename_i hroom
    exact .inl (insertElem_spec h elem hi (Nat.lt_of_not_le hroom))

theorem remove_spec (h : Represents t v xs) {i : Nat} (hi : i < v.len) :
    ∃ v', remove t v i = some (v', 0) ∧ Represents t v' (xs.eraseIdx i) := by
  have hlen := h.len_eq
  obtain ⟨-, -, rfl⟩ | ⟨rest, hptr, hcap⟩ := h.ptr_eq
  · simp [hlen] at hi
  -- the list on both sides of the removed element
  obtain ⟨as, x, bs, rfl, rfl⟩ : ∃ as x bs, xs = as ++ x :: bs ∧ as.length = i :=
    ⟨xs.take i, xs[i], xs.drop (i + 1), by simp, by simp; omega⟩
  have hcount : v.len - as.length - 1 = bs.length := by simp at hlen; omega
  have hbytes := h.toSize_bytes (k := v.len - as.length - 1) (by have := h.len_le_cap; omega)
  rw [hcount] at hbytes
  obtain ⟨junk, hmove⟩ := memmove_left (t := t) as bs rest x
  have herase : (as ++ x :: bs).eraseIdx as.length = as ++ bs := by
    rw [List.eraseIdx_append_of_length_le (Nat.le_refl _), Nat.sub_self, List.eraseIdx_cons_zero]
  refine ⟨{ v with ptr := .block (as ++ bs ++ junk :: rest), len := v.len - 1 }, ?_, ?_⟩
  · simp only [remove, if_neg (Nat.not_le.mpr hi), hcount, hbytes, hptr, hmove, Option.map_some]
  · rw [herase]
    refine ⟨?_, .inr ⟨junk :: rest, rfl, ?_⟩, h.bytes_le⟩
    · simp at hlen ⊢
      omega
    · simp at hcap ⊢
      omega

theorem reset_spec (h : Represents t v xs) : reset v = some (emptyVector, 0) := by
  unfold reset
  split
  · exact absurd ‹_› h.not_freed
  · rfl

/-- What a call comes to: it does to the list what its operation does, it fails and changes
nothing, or it fails and loses the block. -/
theorem call_spec (h : Represents t v xs) {op : Op α} (ans : Answer α) (hop : op.InBounds v) :
    (∃ v', call t v op ans = some (v', 0) ∧ Represents t v' (op.apply xs) ∧
      releases t v op ans = false) ∨
    call t v op ans = some (v, -1) ∧ releases t v op ans = false ∨
    call t v op ans = some ({ v with ptr := .freed }, -1) ∧ releases t v op ans = true := by
  have reserved : ∀ (n : Nat) (exactly : Bool), _ := fun n exactly =>
    genericVectorReserve_spec h exactly ans (t.toSize_le n)
  cases op with
  | insert elem i =>
    obtain ⟨v', hcall, hrep⟩ | hcall := insert_spec h elem ans hop
    · exact .inl ⟨v', hcall, hrep, rfl⟩
    · exact .inr (.inl ⟨hcall, rfl⟩)
  | append elem =>
    have happend : Op.apply xs (.append elem) = xs.insertIdx v.len elem := by
      rw [h.len_eq, List.insertIdx_length_self]; rfl
    obtain ⟨v', hcall, hrep⟩ | hcall := insert_spec h elem ans (Nat.le_refl _)
    · exact .inl ⟨v', hcall, happend ▸ hrep, rfl⟩
    · exact .inr (.inl ⟨hcall, rfl⟩)
  | remove i =>
    obtain ⟨v', hcall, hrep⟩ := remove_spec h hop
    exact .inl ⟨v', hcall, hrep, rfl⟩
  | reserve n =>
    obtain ⟨v', hcall, hrep, -, -, hfree⟩ | hrest := reserved n false
    · exact .inl ⟨v', hcall, hrep, hfree⟩
    · exact .inr hrest
  | reserveExactly n =>
    obtain ⟨v', hcall, hrep, -, -, hfree⟩ | hrest := reserved n true
    · exact .inl ⟨v', hcall, hrep, hfree⟩
    · exact .inr hrest
  | reset => exact .inl ⟨_, reset_spec h, Represents.empty, rfl⟩

end

/-! ## Runs -/

/-- The list after a run, from any vector that holds a list. -/
theorem exec_represents (t : VectorType) (ls : List (Op α × Answer α)) {v : Vec α} {xs : List α}
    (h : Represents t v xs)
    (hok : (vectors t).Meets (fun v l => l.1.InBounds v ∧ releases t v l.1 l.2 = false) v ls) :
    ∃ v', (vectors t).exec v ls = some v' ∧
      Represents t v' (((vectors t).collect (completed t) v ls).foldl Op.apply xs) := by
  induction ls generalizing v xs with
  | nil => exact ⟨v, rfl, h⟩
  | cons l ls ih =>
    obtain ⟨⟨hop, hkeep⟩, hrest⟩ := hok
    obtain ⟨v', hcall, hrep, -⟩ | ⟨hcall, -⟩ | ⟨-, hlost⟩ := call_spec h l.2 hop
    · have hstep : (vectors t).step v l = some v' := by simp [vectors, hcall]
      obtain ⟨v'', hexec, hfinal⟩ := ih hrep (hrest v' hstep)
      refine ⟨v'', by rw [Lib.System.exec_cons, hstep]; exact hexec, ?_⟩
      simpa [Lib.System.collect, hstep, completed, hcall] using hfinal
    · have hstep : (vectors t).step v l = some v := by simp [vectors, hcall]
      obtain ⟨v'', hexec, hfinal⟩ := ih h (hrest v hstep)
      refine ⟨v'', by rw [Lib.System.exec_cons, hstep]; exact hexec, ?_⟩
      simpa [Lib.System.collect, hstep, completed, hcall] using hfinal
    · rw [hkeep] at hlost
      cases hlost

/-- In every run of calls within their asserted bounds none of which loses the block, no call
is a fault, the vector holds the list that its successful operations give, its length is
within its capacity, the capacity computation does not wrap, and a call that fails changes
nothing. A call that loses the block fails and leaves the pointer dangling. -/
theorem vector_represents_list (t : VectorType) (ls : List (Op α × Answer α))
    (hok : (vectors t).Meets (fun v l => l.1.InBounds v ∧ releases t v l.1 l.2 = false)
      emptyVector ls) :
    ∃ v, (vectors t).exec emptyVector ls = some v ∧
      v.len = (replayed t ls).length ∧ v.elems = replayed t ls ∧ v.len ≤ v.cap ∧
      (∀ n exactly newcap newbytes, n ≤ t.sizeMax →
        calculateCapacity t.toAbi v.cap n t.itemsize exactly = some (newcap, newbytes) →
        v.cap + n ≤ newcap ∧ newbytes = newcap * t.itemsize ∧ newbytes ≤ t.sizeMax) ∧
      ∀ (op : Op α) (ans : Answer α), op.InBounds v →
        (releases t v op ans = false →
          ∃ v' r, call t v op ans = some (v', r) ∧ (r = 0 ∨ r = -1 ∧ v' = v)) ∧
        (releases t v op ans = true →
          call t v op ans = some ({ v with ptr := .freed }, -1) ∧ v.ptr ≠ .freed) := by
  obtain ⟨v, hexec, hrep⟩ := exec_represents t ls Represents.empty hok
  refine ⟨v, hexec, hrep.len_eq, hrep.elems_eq, hrep.len_le_cap,
    fun n exactly newcap newbytes hn hc => hrep.calculateCapacity_le hn hc, ?_⟩
  intro op ans hop
  obtain ⟨v', hcall, -, hkeep⟩ | ⟨hcall, hkeep⟩ | ⟨hcall, hlost⟩ := call_spec hrep ans hop
  · exact ⟨fun _ => ⟨v', 0, hcall, .inl rfl⟩, fun hlost => by rw [hkeep] at hlost; cases hlost⟩
  · exact ⟨fun _ => ⟨v, -1, hcall, .inr ⟨rfl, rfl⟩⟩,
      fun hlost => by rw [hkeep] at hlost; cases hlost⟩
  · exact ⟨fun hkeep => (by rw [hkeep] at hlost; cases hlost), fun _ => ⟨hcall, hrep.not_freed⟩⟩

/-- `string` on a 64-bit platform whose `realloc` frees a block that is resized to nothing. -/
def string64 : VectorType where
  bits := 64
  bits_le := Nat.le_refl 64
  addBuiltin := true
  mulBuiltin := false
  itemsize := 1
  itemsize_pos := Nat.one_pos
  itemsize_le := by decide
  reallocFrees := true

/-- Two appends, an insertion between them, a reservation that is too large, a removal. -/
def editString : List (Op Char × Answer Char) :=
  [(.append 'a', .moved fun _ => '?'), (.append 'c', .moved fun _ => '?'),
   (.insert 'b' 1, .moved fun _ => '?'), (.reserve (2 ^ 64 - 1), .failed), (.remove 0, .failed)]

theorem vector_represents_list_string :
    ∃ v, (vectors string64).exec emptyVector editString = some v ∧ v.elems = ['b', 'c'] := by
  obtain ⟨v, hexec, -, helems, -⟩ :=
    vector_represents_list string64 editString ((vectors string64).meets_of_check (by decide))
  exact ⟨v, hexec, helems.trans (by decide)⟩

/-- Reserving nothing twice: the second call fails and frees the block that the vector still
points to, so that the next append is a fault. -/
theorem reserve_nothing_frees_block :
    ∃ v, (vectors string64).exec emptyVector [(.reserve 0, .moved fun _ => '?')] = some v ∧
      v.ptr = .block [] ∧
      call string64 v (.reserve 0) .failed = some ({ v with ptr := .freed }, -1) ∧
      (vectors string64).exec emptyVector
        [(.reserve 0, .moved fun _ => '?'), (.reserve 0, .failed),
         (.append 'a', .moved fun _ => '?')] = none :=
  ⟨⟨.block [], 0, 0⟩, rfl, rfl, rfl, rfl⟩

end Libnbd.Common
