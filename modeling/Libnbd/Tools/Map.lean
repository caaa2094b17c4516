import Libnbd.Copy.Extents

/-!
Collecting the map of an export (`do_map` and `extent_callback` in `info/map.c`).

The loop asks for the status of the bytes behind those it has been told about. How
many these are it finds by adding the lengths that the callback appended, without a
look at the offset that the callback was given. Where the callback is called once for
each request, the collected extents tile the export and have the types the server
gave. Where a reply has a second block status chunk, which starts at the offset of the
request again, the extents of the two are taken to follow each other.
-/

namespace Libnbd.Tools

open Copy (Entry Invocation Server)

/-! ## The program -/

/-- `extent_callback`, for one call. -/
def mapCallback (map : CString) (list : List Entry) (inv : Invocation) : List Entry :=
  if inv.metacontext != map then list else list ++ inv.entries

/-- How `do_map` ends before it prints: with `exit`, or with a list of extents. -/
inductive MapResult where
  | exit
  | ok (entries : List Entry)
  deriving DecidableEq, Repr

/-- `offset += entries.ptr[i].length` over the new entries, in 64 bits. -/
def advanceOffset (offset : Nat) (news : List Entry) : Nat :=
  news.foldl (fun offset e => (offset + e.length) % 2 ^ 64) offset

/-- The loop of `do_map`, from the `i`th call of `nbd_block_status_64` on. -/
def mapFrom (server : Server) (map : CString) (size : Nat) :
    Nat → Nat → Nat → List Entry → Option MapResult
  | 0, _, _, _ => none
  | fuel + 1, i, offset, entries =>
    if offset < size then
      match server i with
      | none => some .exit
      | some invs =>
        let all := invs.foldl (mapCallback map) entries
        if all.length = entries.length then some .exit
        else
          mapFrom server map size fuel (i + 1) (advanceOffset offset (all.drop entries.length)) all
    else some (.ok entries)

def doMap (server : Server) (map : CString) (size fuel : Nat) : Option MapResult :=
  mapFrom server map size fuel 0 0 []

/-! ## What is to come out -/

def totalLength (entries : List Entry) : Nat := (entries.map Entry.length).sum

/-- The type of a byte, counted from where the entries start. -/
def typeAt : List Entry → Nat → Option UInt64
  | [], _ => none
  | e :: entries, p => if p < e.length then some e.flags else typeAt entries (p - e.length)

section

variable (server : Server) (map : CString) (size : Nat)

/-- The callbacks of a reply that are for the requested context and bring something. -/
def mapInvocations (i : Nat) : List Invocation :=
  ((server i).getD []).filter fun inv => inv.metacontext == map && inv.entries != []

def replyEntries (i : Nat) : List Entry := (mapInvocations server map i).flatMap Invocation.entries

/-- What has been collected before the `i`th call. -/
def collected (i : Nat) : List Entry := (List.range i).flatMap (replyEntries server map)

/-- The offset of the `i`th request. -/
def requestOffset (i : Nat) : Nat := totalLength (collected server map i) % 2 ^ 64

/-- The `i`th call finds something to add. -/
def Adds (i : Nat) : Prop := requestOffset server map i < size ∧ replyEntries server map i ≠ []

/-- The loop gets to the `i`th call. -/
def Made (i : Nat) : Prop := (∀ j < i, Adds server map size j) ∧ requestOffset server map i < size

/-- The server gave this type for the byte, in reply to a request that was made. -/
def Gave (p : Nat) (t : UInt64) : Prop :=
  ∃ i, Made server map size i ∧ requestOffset server map i ≤ p ∧
    ∃ inv ∈ mapInvocations server map i, typeAt inv.entries (p - requestOffset server map i) = some t

/-- The extents cover the export from its start to its end, none of them is empty, and
every type is one the server gave for the byte. -/
structure Covers (entries : List Entry) : Prop where
  total : totalLength entries = size
  pos : ∀ e ∈ entries, 0 < e.length
  types : ∀ p t, typeAt entries p = some t → Gave server map size p t

/-- The loop ends, with an error or with extents that cover the export. -/
def MapFine : Prop :=
  ∃ enough r, (∀ fuel, enough ≤ fuel → doMap server map size fuel = some r) ∧
    (r = .exit ∨ ∃ entries, r = .ok entries ∧ Covers server map size entries)

/-- Every call of the callback has extents from the offset of the request on that stay
inside the export. None is empty: libnbd fails a request that is answered so. -/
def WellFormed : Prop :=
  ∀ i, Made server map size i → ∀ inv ∈ mapInvocations server map i,
    (∀ e ∈ inv.entries, 0 < e.length) ∧ requestOffset server map i + totalLength inv.entries ≤ size

end

/-! ## Lengths and types -/

section

variable {server : Server} {map : CString} {size : Nat}

theorem totalLength_append (a b : List Entry) :
    totalLength (a ++ b) = totalLength a + totalLength b := by
  simp [totalLength]

theorem totalLength_flatMap_le {α : Type} {f : α → List Entry} {l : List α} {x : α} (hx : x ∈ l) :
    totalLength (f x) ≤ totalLength (l.flatMap f) := by
  obtain ⟨a, b, rfl⟩ := List.append_of_mem hx
  rw [List.flatMap_append, List.flatMap_cons, totalLength_append, totalLength_append]
  omega

theorem totalLength_pos {entries : List Entry} (hne : entries ≠ [])
    (hpos : ∀ e ∈ entries, 0 < e.length) : 0 < totalLength entries := by
  obtain ⟨e, rest, rfl⟩ := List.exists_cons_of_ne_nil hne
  have := hpos e List.mem_cons_self
  simp only [totalLength, List.map_cons, List.sum_cons]
  omega

theorem typeAt_append (a b : List Entry) (p : Nat) :
    typeAt (a ++ b) p = if p < totalLength a then typeAt a p else typeAt b (p - totalLength a) := by
  induction a generalizing p with
  | nil => simp [totalLength]
  | cons e a ih =>
    have htotal : totalLength (e :: a) = e.length + totalLength a := by simp [totalLength]
    rw [List.cons_append, typeAt, typeAt, ih, htotal]
    by_cases h₁ : p < e.length
    · rw [if_pos h₁, if_pos h₁, if_pos (by omega)]
    · rw [if_neg h₁, if_neg h₁]
      by_cases h₂ : p < e.length + totalLength a
      · rw [if_pos h₂, if_pos (by omega)]
      · rw [if_neg h₂, if_neg (by omega), Nat.sub_sub]

/-- A byte has a type exactly if it is among the bytes that the entries describe. -/
theorem typeAt_isSome (entries : List Entry) (p : Nat) :
    (typeAt entries p).isSome = true ↔ p < totalLength entries := by
  induction entries generalizing p with
  | nil => simp [typeAt, totalLength]
  | cons e entries ih =>
    have htotal : totalLength (e :: entries) = e.length + totalLength entries := by
      simp [totalLength]
    rw [typeAt, htotal]
    split
    · simp only [Option.isSome_some, true_iff]
      omega
    · rw [ih]
      omega

theorem lt_of_typeAt {entries : List Entry} {p : Nat} {t : UInt64} (h : typeAt entries p = some t) :
    p < totalLength entries := (typeAt_isSome entries p).mp (by rw [h]; rfl)

/-! ## The loop -/

theorem foldl_mapCallback (map : CString) (invs : List Invocation) (entries : List Entry) :
    invs.foldl (mapCallback map) entries =
      entries ++ (invs.filter fun inv => inv.metacontext == map && inv.entries != []).flatMap
        Invocation.entries := by
  induction invs generalizing entries with
  | nil => simp
  | cons inv invs ih =>
    rw [List.foldl_cons, ih]
    unfold mapCallback
    by_cases hm : inv.metacontext = map
    · by_cases he : inv.entries = []
      · simp [hm, he]
      · simp [hm, he]
    · simp [hm]

theorem advanceOffset_eq (offset : Nat) (news : List Entry) :
    advanceOffset (offset % 2 ^ 64) news = (offset + totalLength news) % 2 ^ 64 := by
  unfold advanceOffset totalLength
  induction news generalizing offset with
  | nil => simp
  | cons e news ih =>
    rw [List.foldl_cons, List.map_cons, List.sum_cons, Nat.mod_add_mod, ih, Nat.add_assoc]

theorem collected_succ (i : Nat) :
    collected server map (i + 1) = collected server map i ++ replyEntries server map i := by
  simp [collected, List.range_succ]

/-- One round that finds something to add. -/
theorem mapFrom_adds {i : Nat} (h : Adds server map size i) (fuel : Nat) :
    mapFrom server map size (fuel + 1) i (requestOffset server map i) (collected server map i) =
      mapFrom server map size fuel (i + 1) (requestOffset server map (i + 1))
        (collected server map (i + 1)) := by
  obtain ⟨hlt, hne⟩ := h
  rw [mapFrom, if_pos hlt]
  cases hs : server i with
  | none =>
    refine absurd ?_ hne
    simp [replyEntries, mapInvocations, hs]
  | some invs =>
    have hall : invs.foldl (mapCallback map) (collected server map i) =
        collected server map (i + 1) := by
      rw [foldl_mapCallback, collected_succ, replyEntries, mapInvocations, hs, Option.getD_some]
    have hlen : (collected server map (i + 1)).length ≠ (collected server map i).length := by
      rw [collected_succ, List.length_append]
      have := List.length_pos_iff.mpr hne
      omega
    simp only [hall, hlen, if_false]
    rw [collected_succ, List.drop_left, ← collected_succ]
    congr 1
    rw [requestOffset, advanceOffset_eq, ← totalLength_append, ← collected_succ]
    rfl

/-- How the loop ends when it comes to a call that adds nothing. -/
theorem mapFrom_stops {i : Nat} (h : ¬ Adds server map size i) (fuel : Nat) :
    mapFrom server map size (fuel + 1) i (requestOffset server map i) (collected server map i) =
      some (if requestOffset server map i < size then .exit else .ok (collected server map i)) := by
  rw [mapFrom]
  split
  · rename_i hlt
    have hnil : replyEntries server map i = [] := by
      by_contra hne
      exact h ⟨hlt, hne⟩
    cases hs : server i with
    | none => rfl
    | some invs =>
      have hall : invs.foldl (mapCallback map) (collected server map i) =
          collected server map i := by
        rw [replyEntries, mapInvocations, hs, Option.getD_some] at hnil
        rw [foldl_mapCallback, hnil, List.append_nil]
      simp only [hall, if_true]
  · rfl

theorem doMap_eq {n : Nat} (h : ∀ j < n, Adds server map size j) (fuel : Nat) :
    doMap server map size (fuel + n) =
      mapFrom server map size fuel n (requestOffset server map n) (collected server map n) := by
  induction n generalizing fuel with
  | zero => rfl
  | succ n ih =>
    rw [show fuel + (n + 1) = fuel + 1 + n by omega, ih fun j hj => h j (by omega),
      mapFrom_adds (h n (by omega))]

/-- The loop ends at the first call that adds nothing. -/
theorem doMap_stops {n : Nat} (h : ∀ j < n, Adds server map size j)
    (hn : ¬ Adds server map size n) {fuel : Nat} (hfuel : n < fuel) :
    doMap server map size fuel =
      some (if requestOffset server map n < size then .exit else .ok (collected server map n)) := by
  obtain ⟨k, rfl⟩ : ∃ k, fuel = k + 1 + n := ⟨fuel - n - 1, by omega⟩
  rw [doMap_eq h, mapFrom_stops hn]

/-- The loop does not end as long as every call adds something. -/
theorem doMap_none {n : Nat} (h : ∀ j < n, Adds server map size j) :
    doMap server map size n = none := by
  have := doMap_eq h 0
  rw [Nat.zero_add] at this
  rw [this]
  rfl

/-- The result, without the fuel. -/
theorem mapFine_iff :
    MapFine server map size ↔ ∃ n, (∀ j < n, Adds server map size j) ∧ ¬ Adds server map size n ∧
      (requestOffset server map n < size ∨ Covers server map size (collected server map n)) := by
  constructor
  · rintro ⟨enough, r, hrun, hr⟩
    obtain ⟨n, hbefore, hn⟩ : ∃ n, (∀ j < n, Adds server map size j) ∧ ¬ Adds server map size n := by
      have hsome := hrun enough (Nat.le_refl _)
      have hex : ∃ j, ¬ Adds server map size j := by
        by_contra hall
        push Not at hall
        rw [doMap_none fun j _ => hall j] at hsome
        cases hsome
      classical
      exact ⟨Nat.find hex, fun j hj => not_not.mp (Nat.find_min hex hj), Nat.find_spec hex⟩
    refine ⟨n, hbefore, hn, ?_⟩
    have hres := hrun (max enough (n + 1)) (Nat.le_max_left _ _)
    rw [doMap_stops hbefore hn (by omega)] at hres
    have hr' := Option.some.inj hres
    split at hr'
    · exact .inl (by assumption)
    · rcases hr with rfl | ⟨entries, rfl, hcov⟩
      · cases hr'
      · cases hr'
        exact .inr hcov
  · rintro ⟨n, hbefore, hn, hend⟩
    refine ⟨n + 1, _, fun fuel hfuel => doMap_stops hbefore hn hfuel, ?_⟩
    by_cases hlt : requestOffset server map n < size
    · rw [if_pos hlt]
      exact .inl rfl
    · rw [if_neg hlt]
      exact .inr ⟨_, rfl, hend.resolve_left hlt⟩

end

/-! ## One callback for each request -/

section

variable {server : Server} {map : CString} {size : Nat}

/-- No reply has a second callback that brings something. -/
def AtMostOne (server : Server) (map : CString) (size : Nat) : Prop :=
  ∀ i, Made server map size i → (mapInvocations server map i).length ≤ 1

theorem made_of_adds {i : Nat} (h : ∀ j ≤ i, Adds server map size j) : Made server map size i :=
  ⟨fun j hj => h j (Nat.le_of_lt hj), (h i (Nat.le_refl _)).1⟩

theorem replyEntries_pos (hwf : WellFormed server map size) {i : Nat}
    (hm : Made server map size i) : ∀ e ∈ replyEntries server map i, 0 < e.length := by
  intro e he
  obtain ⟨inv, hinv, he⟩ := List.mem_flatMap.mp he
  exact (hwf i hm inv hinv).1 e he

theorem collected_pos (hwf : WellFormed server map size) {n : Nat}
    (h : ∀ j < n, Adds server map size j) : ∀ e ∈ collected server map n, 0 < e.length := by
  intro e he
  obtain ⟨i, hi, he⟩ := List.mem_flatMap.mp he
  have hin := List.mem_range.mp hi
  exact replyEntries_pos hwf (made_of_adds fun j hj => h j (by omega)) e he

/-- A call that adds something brings the loop forward. -/
theorem le_totalLength_collected (hwf : WellFormed server map size) {n : Nat}
    (h : ∀ j < n, Adds server map size j) : n ≤ totalLength (collected server map n) := by
  induction n with
  | zero => exact Nat.zero_le _
  | succ n ih =>
    have hprev := ih fun j hj => h j (by omega)
    have hmade : Made server map size n := made_of_adds fun j hj => h j (by omega)
    have hpos := totalLength_pos (h n (by omega)).2 (replyEntries_pos hwf hmade)
    rw [collected_succ, totalLength_append]
    omega

/-- The only callback of a reply. -/
theorem replyEntries_single (hone : AtMostOne server map size) {i : Nat}
    (hm : Made server map size i) (hne : replyEntries server map i ≠ []) :
    ∃ inv ∈ mapInvocations server map i, replyEntries server map i = inv.entries := by
  have hlen := hone i hm
  unfold replyEntries at hne ⊢
  match hinvs : mapInvocations server map i with
  | [] =>
    rw [hinvs] at hne
    exact absurd rfl hne
  | [inv] => exact ⟨inv, List.mem_cons_self, by simp⟩
  | _ :: _ :: _ =>
    rw [hinvs] at hlen
    simp at hlen

/-- What is collected stays inside the export, so that the offset does not wrap. -/
theorem totalLength_collected_le (hsize : size < 2 ^ 63) (hwf : WellFormed server map size)
    (hone : AtMostOne server map size) {n : Nat} (h : ∀ j < n, Adds server map size j) :
    totalLength (collected server map n) ≤ size := by
  induction n with
  | zero => exact Nat.zero_le _
  | succ n ih =>
    have hprev := ih fun j hj => h j (by omega)
    have hmade : Made server map size n := made_of_adds fun j hj => h j (by omega)
    obtain ⟨inv, hinv, heq⟩ := replyEntries_single hone hmade (h n (by omega)).2
    have hin := (hwf n hmade inv hinv).2
    rw [requestOffset, Nat.mod_eq_of_lt (by omega)] at hin
    rw [collected_succ, totalLength_append, heq]
    omega

theorem requestOffset_eq (hsize : size < 2 ^ 63) {n : Nat}
    (hle : totalLength (collected server map n) ≤ size) :
    requestOffset server map n = totalLength (collected server map n) :=
  Nat.mod_eq_of_lt (by omega)

/-- The types are those of the replies. -/
theorem collected_types (hsize : size < 2 ^ 63) (hwf : WellFormed server map size)
    (hone : AtMostOne server map size) {n : Nat} (h : ∀ j < n, Adds server map size j) (p : Nat)
    (t : UInt64) (ht : typeAt (collected server map n) p = some t) : Gave server map size p t := by
  induction n with
  | zero => cases ht
  | succ n ih =>
    have hprev : ∀ j < n, Adds server map size j := fun j hj => h j (by omega)
    have hmade : Made server map size n := made_of_adds fun j hj => h j (by omega)
    have hoff := requestOffset_eq hsize (totalLength_collected_le hsize hwf hone hprev)
    rw [collected_succ, typeAt_append] at ht
    split at ht
    · exact ih hprev ht
    · obtain ⟨inv, hinv, heq⟩ := replyEntries_single hone hmade (h n (by omega)).2
      rw [heq, ← hoff] at ht
      exact ⟨n, hmade, by omega, inv, hinv, ht⟩

theorem mapFine_of_atMostOne (hsize : size < 2 ^ 63) (hwf : WellFormed server map size)
    (hone : AtMostOne server map size) : MapFine server map size := by
  obtain ⟨n, hbefore, hn⟩ : ∃ n, (∀ j < n, Adds server map size j) ∧ ¬ Adds server map size n := by
    have hex : ∃ j, ¬ Adds server map size j := by
      by_contra hall
      push Not at hall
      have h₁ := le_totalLength_collected hwf (n := size + 1) fun j _ => hall j
      have h₂ := totalLength_collected_le hsize hwf hone (n := size + 1) fun j _ => hall j
      omega
    classical
    exact ⟨Nat.find hex, fun j hj => not_not.mp (Nat.find_min hex hj), Nat.find_spec hex⟩
  have hle := totalLength_collected_le hsize hwf hone hbefore
  refine mapFine_iff.mpr ⟨n, hbefore, hn, ?_⟩
  by_cases hlt : requestOffset server map n < size
  · exact .inl hlt
  · rw [requestOffset_eq hsize hle] at hlt
    exact .inr ⟨by omega, collected_pos hwf hbefore, collected_types hsize hwf hone hbefore⟩

/-- A reply without extents ends the program. -/
theorem mapFine_of_empty {i : Nat} (hm : Made server map size i)
    (hnil : replyEntries server map i = []) : MapFine server map size :=
  mapFine_iff.mpr ⟨i, hm.1, fun h => h.2 hnil, .inl hm.2⟩

/-! ## Several callbacks for one request -/

theorem collected_split (server : Server) (map : CString) {i n : Nat} (hi : i < n) :
    totalLength (collected server map i) + totalLength (replyEntries server map i) ≤
      totalLength (collected server map n) := by
  induction n with
  | zero => omega
  | succ n ih =>
    rw [collected_succ, totalLength_append]
    by_cases heq : i = n
    · rw [heq]
    · have := ih (by omega)
      omega

/-- One callback of two describes fewer bytes than the loop skips. -/
theorem totalLength_inv_lt (hwf : WellFormed server map size) {i : Nat}
    (hm : Made server map size i) (htwo : 1 < (mapInvocations server map i).length)
    {inv : Invocation} (hinv : inv ∈ mapInvocations server map i) :
    totalLength inv.entries < totalLength (replyEntries server map i) := by
  have hpos : ∀ inv ∈ mapInvocations server map i, 0 < totalLength inv.entries := by
    intro inv hinv
    have hne := (List.mem_filter.mp hinv).2
    rw [Bool.and_eq_true, bne_iff_ne] at hne
    exact totalLength_pos hne.2 (hwf i hm inv hinv).1
  obtain ⟨a, b, hab⟩ := List.append_of_mem hinv
  have hother : ∃ other, other ∈ a ++ b := by
    apply List.exists_mem_of_length_pos
    rw [hab, List.length_append, List.length_cons] at htwo
    rw [List.length_append]
    omega
  obtain ⟨other, hother⟩ := hother
  have hsum : totalLength (replyEntries server map i) =
      totalLength ((a ++ b).flatMap Invocation.entries) + totalLength inv.entries := by
    rw [replyEntries, hab, List.flatMap_append, List.flatMap_cons, List.flatMap_append]
    simp only [totalLength_append]
    omega
  have hmem : other ∈ mapInvocations server map i := by
    rw [hab]
    rcases List.mem_append.mp hother with h | h
    · exact List.mem_append_left _ h
    · exact List.mem_append_right _ (List.mem_cons_of_mem _ h)
  have hle := totalLength_flatMap_le (f := Invocation.entries) hother
  have := hpos other hmem
  omega

/-- Without a reply that ends the program, a second callback is fatal: the last byte of
the extents that the reply adds is one that the server said nothing about. -/
theorem atMostOne_of_covers (hsize : size < 2 ^ 63) (hwf : WellFormed server map size) {n : Nat}
    (hbefore : ∀ j < n, Adds server map size j) (hn : ¬ requestOffset server map n < size)
    (hcov : Covers server map size (collected server map n)) : AtMostOne server map size := by
  have hmade_lt : ∀ {i}, Made server map size i → i < n := by
    intro i hm
    by_contra hle
    rcases Nat.lt_or_eq_of_le (Nat.le_of_not_lt hle) with hlt | rfl
    · exact hn (hm.1 n hlt).1
    · exact hn hm.2
  have hoff : ∀ {i}, i < n →
      requestOffset server map i = totalLength (collected server map i) := by
    intro i hi
    have hle := collected_split server map hi
    have htotal := hcov.total
    exact requestOffset_eq hsize (by omega)
  intro i hm
  by_contra htwo
  have hi := hmade_lt hm
  have hsplit := collected_split server map hi
  have htotal := hcov.total
  have hpos := totalLength_pos (hbefore i hi).2 (replyEntries_pos hwf hm)
  obtain ⟨t, ht⟩ := Option.isSome_iff_exists.mp ((typeAt_isSome (collected server map n)
    (totalLength (collected server map i) + totalLength (replyEntries server map i) - 1)).mpr
    (by omega))
  obtain ⟨k, hk, hkle, inv, hinv, hat⟩ := hcov.types _ _ ht
  have hkn := hmade_lt hk
  have hlt := lt_of_typeAt hat
  rw [hoff hkn] at hkle hlt
  have hinvle : totalLength inv.entries ≤ totalLength (replyEntries server map k) :=
    totalLength_flatMap_le (f := Invocation.entries) hinv
  rcases Nat.lt_trichotomy k i with hki | rfl | hki
  · -- an earlier reply ends before
    have := collected_split server map hki
    omega
  · have := totalLength_inv_lt hwf hm (Nat.lt_of_not_le htwo) hinv
    omega
  · -- a later request starts behind
    have := collected_split server map hki
    omega

end

/-- **The map covers the export** exactly if some reply has no extents, which ends the
program with an error, or no reply that is asked for has extents in more than one
callback. -/
theorem do_map_fine_iff (server : Server) (map : CString) {size : Nat} (hsize : size < 2 ^ 63)
    (hwf : WellFormed server map size) :
    MapFine server map size ↔
      (∃ i, Made server map size i ∧ replyEntries server map i = []) ∨
        ∀ i, Made server map size i → (mapInvocations server map i).length ≤ 1 := by
  constructor
  · intro h
    obtain ⟨n, hbefore, hn, hend⟩ := mapFine_iff.mp h
    by_cases hlt : requestOffset server map n < size
    · refine .inl ⟨n, ⟨hbefore, hlt⟩, ?_⟩
      by_contra hne
      exact hn ⟨hlt, hne⟩
    · exact .inr (atMostOne_of_covers hsize hwf hbefore hlt (hend.resolve_left hlt))
  · rintro (⟨i, hm, hnil⟩ | hone)
    · exact mapFine_of_empty hm hnil
    · exact mapFine_of_atMostOne hsize hwf hone

/-- Two requests, each answered for 4096 bytes. -/
def twoReplies : Server
  | 0 => some [⟨Copy.baseAllocation, [⟨4096, 0⟩], 0⟩]
  | 1 => some [⟨Copy.baseAllocation, [⟨4096, 3⟩], 0⟩]
  | _ + 2 => none

theorem do_map_fine_two :
    MapFine twoReplies Copy.baseAllocation 8192 ∧
      doMap twoReplies Copy.baseAllocation 8192 3 = some (.ok [⟨4096, 0⟩, ⟨4096, 3⟩]) := by
  have hnone : ∀ i, mapInvocations twoReplies Copy.baseAllocation (i + 2) = [] := fun _ => rfl
  refine ⟨(do_map_fine_iff twoReplies Copy.baseAllocation (by decide) fun i _ => ?_).mpr
    (.inr fun i _ => ?_), by decide⟩
  · match i with
    | 0 => decide
    | 1 => decide
    | i + 2 =>
      rw [hnone]
      exact fun inv hinv => absurd hinv List.not_mem_nil
  · match i with
    | 0 => decide
    | 1 => decide
    | i + 2 =>
      rw [hnone]
      exact Nat.zero_le _

/-- One reply with two chunks for the same 4096 bytes. -/
def repeatedReply : Server
  | 0 => some [⟨Copy.baseAllocation, [⟨4096, 3⟩], 0⟩, ⟨Copy.baseAllocation, [⟨4096, 3⟩], 0⟩]
  | _ + 1 => none

/-- The second half of the export is reported as a hole, which nobody said. -/
theorem repeated_chunk_reported :
    WellFormed repeatedReply Copy.baseAllocation 8192 ∧
      doMap repeatedReply Copy.baseAllocation 8192 2 = some (.ok [⟨4096, 3⟩, ⟨4096, 3⟩]) ∧
      ¬ MapFine repeatedReply Copy.baseAllocation 8192 := by
  have hnone : ∀ i, mapInvocations repeatedReply Copy.baseAllocation (i + 1) = [] := fun _ => rfl
  have hwf : WellFormed repeatedReply Copy.baseAllocation 8192 := by
    intro i _
    match i with
    | 0 => decide
    | i + 1 =>
      rw [hnone]
      exact fun inv hinv => absurd hinv List.not_mem_nil
  refine ⟨hwf, by decide, fun h => ?_⟩
  obtain ⟨n, hbefore, hn, hend⟩ := mapFine_iff.mp h
  have hadds : Adds repeatedReply Copy.baseAllocation 8192 0 := ⟨by decide, by decide⟩
  have hstop : ¬ requestOffset repeatedReply Copy.baseAllocation 1 < 8192 := by decide
  obtain rfl : n = 1 := by
    rcases Nat.lt_trichotomy n 1 with hlt | heq | hlt
    · obtain rfl : n = 0 := by omega
      exact absurd hadds hn
    · exact heq
    · exact absurd (hbefore 1 hlt).1 hstop
  have hone := atMostOne_of_covers (by decide) hwf hbefore hstop (hend.resolve_left hstop)
  exact absurd (hone 0 ⟨fun j hj => absurd hj (Nat.not_lt_zero _), by decide⟩) (by decide)

end Libnbd.Tools
