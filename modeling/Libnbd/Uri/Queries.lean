import Libnbd.Handle
import Mathlib.Data.List.TakeWhile

/-!
The query part of NBD URIs (`lib/uri.c`): the scanner `parse_uri_queries` and the
printer `append_query_params` of `nbd_get_uri`.

The grammar gives a meaning to `&`, `;`, `=` and `%`. The scanner cuts at the next
`&`, and only where there is none left at the next `;`, so a section that a `;`
ends is merged with what follows it up to a later `&`. The printer quotes nothing.
`xmlURIUnescapeString` is a parameter: the percent-decoding of the bytes it is
given, which are the whole rest of the string when the length is 0.
-/

namespace Libnbd.Uri

/-! ## Characters -/

def amp : UInt8 := 0x26
def semicolon : UInt8 := 0x3b
def equals : UInt8 := 0x3d
def percent : UInt8 := 0x25

def isSeparator (c : UInt8) : Bool := c == amp || c == semicolon

/-- `strchr`, as a position. -/
def strchr (s : CString) (c : UInt8) : Option Nat := s.findIdx? (· == c)

/-- Value of a hexadecimal digit. -/
def hexDigit (c : UInt8) : Option UInt8 :=
  if 0x30 ≤ c ∧ c ≤ 0x39 then some (c - 0x30)
  else if 0x41 ≤ c ∧ c ≤ 0x46 then some (c - 0x41 + 10)
  else if 0x61 ≤ c ∧ c ≤ 0x66 then some (c - 0x61 + 10)
  else none

/-- What `xmlURIUnescapeString` is documented to do: decode the escapes `%XX` and
copy all other bytes. -/
def percentDecode : CString → CString
  | c :: x :: y :: rest =>
    match c == percent, hexDigit x, hexDigit y with
    | true, some a, some b => (16 * a + b) :: percentDecode rest
    | _, _, _ => c :: percentDecode (x :: y :: rest)
  | bs => bs

/-! ## `parse_uri_queries` -/

section

variable (unescape : CString → CString)

/-- Length 0 stands for the whole string. -/
def xmlURIUnescapeString (str : CString) (len : Nat) : CString :=
  unescape (if len = 0 then str else str.take len)

/-- The next separator, or the end of the string. -/
def sectionEnd (query : CString) : Nat :=
  match strchr query amp with
  | some e => e
  | none =>
    match strchr query semicolon with
    | some e => e
    | none => query.length

/-- The first `=` before the end of the section. -/
def sectionEq (query : CString) : Option Nat :=
  match strchr query equals with
  | some e => if e ≥ sectionEnd query then none else some e
  | none => none

/-- The section at the start of `query`, unless it is ignored. -/
def parseSection (query : CString) : Option (CString × CString) :=
  if sectionEnd query = 0 then none
  else
    match sectionEq query with
    | none => some (xmlURIUnescapeString unescape query (sectionEnd query), [])
    | some eq =>
      if eq + 1 = sectionEnd query then some (xmlURIUnescapeString unescape query eq, [])
      else if eq = 0 then none
      else
        some (xmlURIUnescapeString unescape query eq,
          xmlURIUnescapeString unescape (query.drop (eq + 1)) (sectionEnd query - (eq + 1)))

/-- `query = end; if (*query) query++`. -/
def nextQuery (query : CString) : CString := (query.drop (sectionEnd query)).drop 1

theorem length_nextQuery {query : CString} (h : query ≠ []) :
    (nextQuery query).length < query.length := by
  have := List.length_pos_iff.mpr h
  simp only [nextQuery, List.length_drop]
  omega

/-- The loop. `mem i` tells whether memory is found for the entry of section `i`. -/
def parseFrom (mem : Nat → Bool) (i : Nat) (query : CString) : Option (List (CString × CString)) :=
  if _h : query = [] then some []
  else
    match parseSection unescape query with
    | none => parseFrom mem (i + 1) (nextQuery query)
    | some q =>
      if mem i then (parseFrom mem (i + 1) (nextQuery query)).map (q :: ·) else none
  termination_by query.length
  decreasing_by all_goals exact length_nextQuery _h

/-- `parse_uri_queries`; a URI may have no query part. -/
def parseUriQueries (mem : Nat → Bool) : Option CString → Option (List (CString × CString))
  | none => some []
  | some query => parseFrom unescape mem 0 query

end

/-! ## The grammar -/

/-- A section of the query: empty ones and values without a name are dropped. -/
def sectionEntry (s : CString) : Option (CString × CString) :=
  if s = [] then none
  else if s.head? = some equals ∧ 1 < s.length then none
  else some (s.takeWhile (· != equals), (s.dropWhile (· != equals)).drop 1)

/-- The queries that a query string stands for. -/
def queryList (unescape : CString → CString) (query : CString) : List (CString × CString) :=
  ((query.splitOnP isSeparator).filterMap sectionEntry).map fun q => (unescape q.1, unescape q.2)

/-- The sections that the loop sees. -/
def cutSections (query : CString) : List CString :=
  if _h : query = [] then []
  else query.take (sectionEnd query) :: cutSections (nextQuery query)
  termination_by query.length
  decreasing_by exact length_nextQuery _h

/-- The scanner gives `l` unless it runs out of memory. -/
def Parses (unescape : CString → CString) (query : Option CString)
    (l : List (CString × CString)) : Prop :=
  ∀ mem, parseUriQueries unescape mem query = none ∧ (∃ i, mem i = false) ∨
    parseUriQueries unescape mem query = some l

/-- The scanner follows the grammar, and no section is merged with another. -/
def FollowsGrammar (unescape : CString → CString) (query : CString) : Prop :=
  Parses unescape (some query) (queryList unescape query) ∧
    ∀ s ∈ cutSections query, ∀ c ∈ s, isSeparator c = false

/-- No `&` comes after a `;`. -/
def Separable (query : CString) : Prop := amp ∉ query.dropWhile (· != semicolon)

/-- No section is a lone `=`. -/
def NoLoneEquals (query : CString) : Prop := [equals] ∉ query.splitOnP isSeparator

instance (query : CString) : Decidable (Separable query) :=
  inferInstanceAs (Decidable (_ ∉ _))

instance (query : CString) : Decidable (NoLoneEquals query) :=
  inferInstanceAs (Decidable (_ ∉ _))

/-! ## Decoding -/

theorem length_percentDecode_le (s : CString) : (percentDecode s).length ≤ s.length := by
  fun_induction percentDecode s with
  | case1 c x y rest a b hx hy hc ih =>
    simp only [List.length_cons]
    omega
  | case2 c x y rest hne ih =>
    simp only [List.length_cons] at ih ⊢
    omega
  | case3 s hs => exact Nat.le_refl _

theorem percentDecode_of_plain {s : CString} (h : percent ∉ s) : percentDecode s = s := by
  fun_induction percentDecode s with
  | case1 c x y rest a b hx hy hc ih =>
    rw [eq_of_beq hc] at h
    exact absurd List.mem_cons_self h
  | case2 c x y rest hne ih => rw [ih fun hm => h (List.mem_cons_of_mem _ hm)]
  | case3 s hs => rfl

theorem percentDecode_ne_nil {c : UInt8} {s : CString} : percentDecode (c :: s) ≠ [] := by
  rw [percentDecode.eq_def]
  split
  · split <;> exact List.cons_ne_nil _ _
  · exact List.cons_ne_nil _ _

/-! ## Cutting -/

theorem strchr_some {s : CString} {c : UInt8} {e : Nat} (h : strchr s c = some e) :
    ∃ a b, s = a ++ c :: b ∧ c ∉ a ∧ a.length = e := by
  induction s generalizing e with
  | nil => cases h
  | cons d s ih =>
    unfold strchr at h
    rw [List.findIdx?_cons] at h
    split at h
    · rename_i hd
      cases h
      exact ⟨[], s, by rw [eq_of_beq hd]; rfl, List.not_mem_nil, rfl⟩
    · rename_i hd
      obtain ⟨e', he', rfl⟩ := Option.map_eq_some_iff.mp h
      obtain ⟨a, b, rfl, ha, rfl⟩ := ih he'
      refine ⟨d :: a, b, rfl, ?_, rfl⟩
      rintro (_ | ⟨_, hm⟩)
      · exact hd (beq_self_eq_true _)
      · exact ha hm

theorem strchr_none {s : CString} {c : UInt8} : strchr s c = none ↔ c ∉ s := by
  unfold strchr
  rw [List.findIdx?_eq_none_iff]
  constructor
  · intro h hm
    have := h c hm
    rw [beq_self_eq_true] at this
    cases this
  · intro h x hx
    exact beq_false_of_ne fun he => h (he ▸ hx)

theorem strchr_append {a b : CString} {c : UInt8} (ha : c ∉ a) :
    strchr (a ++ c :: b) c = some a.length := by
  unfold strchr
  rw [List.findIdx?_append, show a.findIdx? (· == c) = none from strchr_none.mpr ha]
  simp [List.findIdx?_cons]

/-- Where the section at the start of a query ends. -/
theorem sectionEnd_cases (query : CString) :
    (∃ s rest, query = s ++ amp :: rest ∧ amp ∉ s ∧ sectionEnd query = s.length) ∨
    (∃ s rest, query = s ++ semicolon :: rest ∧ amp ∉ query ∧ semicolon ∉ s ∧
      sectionEnd query = s.length) ∨
    amp ∉ query ∧ semicolon ∉ query ∧ sectionEnd query = query.length := by
  unfold sectionEnd
  cases ha : strchr query amp with
  | some e =>
    obtain ⟨s, rest, hq, hs, he⟩ := strchr_some ha
    exact .inl ⟨s, rest, hq, hs, he.symm⟩
  | none =>
    have ha' := strchr_none.mp ha
    cases hb : strchr query semicolon with
    | some e =>
      obtain ⟨s, rest, hq, hs, he⟩ := strchr_some hb
      exact .inr (.inl ⟨s, rest, hq, ha', hs, he.symm⟩)
    | none => exact .inr (.inr ⟨ha', strchr_none.mp hb, rfl⟩)

section

variable {unescape : CString → CString} {query s t : CString}

/-- The `=` of a section is looked for in the section only. -/
theorem sectionEq_eq (hq : query = s ++ t) (hend : sectionEnd query = s.length) :
    sectionEq query = strchr s equals := by
  unfold sectionEq
  rw [hend]
  by_cases hs : equals ∈ s
  · obtain ⟨e, he⟩ := Option.ne_none_iff_exists'.mp fun hn => strchr_none.mp hn hs
    obtain ⟨a, b, rfl, ha, rfl⟩ := strchr_some he
    have hquery : query = a ++ equals :: (b ++ t) := by rw [hq, List.append_assoc]; rfl
    rw [he, hquery, strchr_append ha]
    simp
  · rw [strchr_none.mpr hs]
    cases he : strchr query equals with
    | none => rfl
    | some e =>
      obtain ⟨a, b, hab, ha, rfl⟩ := strchr_some he
      have hle : s.length ≤ a.length := by
        by_contra hlt
        have hmem : equals ∈ s := by
          have hget : query[a.length]? = some equals := by rw [hab]; simp
          rw [hq, List.getElem?_append_left (by omega)] at hget
          exact List.mem_of_getElem? hget
        exact hs hmem
      simp [hle]

theorem xmlURIUnescapeString_take (hs : s ≠ []) :
    xmlURIUnescapeString unescape (s ++ t) s.length = unescape s := by
  unfold xmlURIUnescapeString
  rw [if_neg (mt List.length_eq_zero_iff.mp hs), List.take_left]

/-- A section is understood as the grammar says, unless it is a lone `=`. -/
theorem parseSection_eq (hnil : unescape [] = []) (hq : query = s ++ t)
    (hend : sectionEnd query = s.length) (hs : s ≠ [equals]) :
    parseSection unescape query =
      (sectionEntry s).map fun q => (unescape q.1, unescape q.2) := by
  unfold parseSection
  rw [sectionEq_eq hq hend, hend]
  by_cases hempty : s = []
  · simp [hempty, sectionEntry]
  rw [if_neg (mt List.length_eq_zero_iff.mp hempty)]
  cases he : strchr s equals with
  | none =>
    have hno := strchr_none.mp he
    have hall : ∀ c ∈ s, (c != equals) = true := fun c hc => bne_iff_ne.mpr fun h => hno (h ▸ hc)
    have hhead : s.head? ≠ some equals := fun h => hno (List.mem_of_head? h)
    have htake : s.takeWhile (· != equals) = s := List.takeWhile_eq_self_iff.mpr hall
    have hdrop : s.dropWhile (· != equals) = [] := List.dropWhile_eq_nil_iff.mpr hall
    simp only [sectionEntry, hempty, hhead, false_and, if_false, Option.map_some, htake, hdrop,
      List.drop_nil, hnil]
    rw [hq, xmlURIUnescapeString_take hempty]
  | some e =>
    obtain ⟨a, b, rfl, ha, rfl⟩ := strchr_some he
    have hall : ∀ c ∈ a, (c != equals) = true := fun c hc => bne_iff_ne.mpr fun h => ha (h ▸ hc)
    have htake : (a ++ equals :: b).takeWhile (· != equals) = a := by
      rw [List.takeWhile_append_of_pos hall]
      simp
    have hdrop : (a ++ equals :: b).dropWhile (· != equals) = equals :: b := by
      rw [List.dropWhile_append_of_pos hall]
      simp
    have hquery : query = a ++ (equals :: (b ++ t)) := by rw [hq, List.append_assoc]; rfl
    by_cases hane : a = []
    · -- a value without a name
      subst hane
      have hb : b ≠ [] := fun hb => hs (by rw [hb]; rfl)
      have hlen : b.length ≠ 0 := mt List.length_eq_zero_iff.mp hb
      simp [sectionEntry, hlen, Nat.pos_of_ne_zero hlen]
    · have hhead : (a ++ equals :: b).head? ≠ some equals := by
        cases a with
        | nil => exact absurd rfl hane
        | cons c a => exact fun h => ha (by cases h; exact List.mem_cons_self)
      have hlen : a.length ≠ 0 := mt List.length_eq_zero_iff.mp hane
      simp only [sectionEntry, hempty, hhead, false_and, if_false, Option.map_some, htake, hdrop,
        List.drop_one, List.tail_cons, hlen]
      have hname : xmlURIUnescapeString unescape query a.length = unescape a := by
        rw [hquery, xmlURIUnescapeString_take hane]
      by_cases hb : b = []
      · simp [hb, hname, hnil]
      · have hval : xmlURIUnescapeString unescape (query.drop (a.length + 1))
            ((a ++ equals :: b).length - (a.length + 1)) = unescape b := by
          have hd : query.drop (a.length + 1) = b ++ t := by
            rw [hquery, ← List.drop_drop, List.drop_left]
            rfl
          have hlb : (a ++ equals :: b).length - (a.length + 1) = b.length := by
            simp only [List.length_append, List.length_cons]
            omega
          rw [hd, hlb, xmlURIUnescapeString_take hb]
        have hne : a.length + 1 ≠ (a ++ equals :: b).length := by
          have := List.length_pos_iff.mpr hb
          simp only [List.length_append, List.length_cons]
          omega
        rw [if_neg hne, hname, hval]

/-- With length 0 the rest of the query is taken for the name. -/
theorem parseSection_equals (hq : query = [equals] ++ t) (hend : sectionEnd query = 1) :
    parseSection unescape query = some (unescape query, []) := by
  unfold parseSection
  rw [sectionEq_eq (s := [equals]) hq hend, hend]
  rfl

/-! ## The loop -/

theorem nextQuery_eq (hq : query = s ++ t) (hend : sectionEnd query = s.length) :
    nextQuery query = t.drop 1 := by
  unfold nextQuery
  rw [hend, hq, List.drop_left]

theorem cutSections_eq (hne : query ≠ []) (hq : query = s ++ t)
    (hend : sectionEnd query = s.length) : cutSections query = s :: cutSections (t.drop 1) := by
  rw [cutSections, dif_neg hne, nextQuery_eq hq hend, hend, hq, List.take_left]

theorem parseFrom_nil {mem : Nat → Bool} {i : Nat} (h : query = []) :
    parseFrom unescape mem i query = some [] := by
  rw [parseFrom, dif_pos h]

theorem parseFrom_of_ne {mem : Nat → Bool} {i : Nat} (hne : query ≠ []) :
    parseFrom unescape mem i query =
      match parseSection unescape query with
      | none => parseFrom unescape mem (i + 1) (nextQuery query)
      | some q =>
        if mem i then (parseFrom unescape mem (i + 1) (nextQuery query)).map (q :: ·) else none := by
  rw [parseFrom, dif_neg hne]

theorem parseFrom_eq (mem : Nat → Bool) (i : Nat) (hne : query ≠ []) (hq : query = s ++ t)
    (hend : sectionEnd query = s.length) :
    parseFrom unescape mem i query =
      match parseSection unescape query with
      | none => parseFrom unescape mem (i + 1) (t.drop 1)
      | some q =>
        if mem i then (parseFrom unescape mem (i + 1) (t.drop 1)).map (q :: ·) else none := by
  rw [parseFrom_of_ne hne, nextQuery_eq hq hend]

/-- Running out of memory is the only way to fail, and nothing else depends on it. -/
theorem parseFrom_mem (mem : Nat → Bool) (i j : Nat) (query : CString) :
    parseFrom unescape mem i query = none ∧ (∃ i, mem i = false) ∨
      ∃ l, parseFrom unescape mem i query = some l ∧
        parseFrom unescape (fun _ => true) j query = some l := by
  by_cases hne : query = []
  · exact .inr ⟨[], parseFrom_nil hne, parseFrom_nil hne⟩
  have hlt := length_nextQuery hne
  rw [parseFrom_of_ne hne, parseFrom_of_ne hne]
  cases parseSection unescape query with
  | none => exact parseFrom_mem mem (i + 1) (j + 1) (nextQuery query)
  | some q =>
    cases hm : mem i with
    | false => exact .inl ⟨rfl, i, hm⟩
    | true =>
      rcases parseFrom_mem mem (i + 1) (j + 1) (nextQuery query) with ⟨hn, hx⟩ | ⟨l, h₁, h₂⟩
      · exact .inl ⟨by simp [hn], hx⟩
      · exact .inr ⟨q :: l, by simp [h₁], by simp [h₂]⟩
  termination_by query.length

theorem parses_iff {l : List (CString × CString)} :
    Parses unescape (some query) l ↔ parseFrom unescape (fun _ => true) 0 query = some l := by
  constructor
  · intro h
    rcases h fun _ => true with ⟨-, i, hi⟩ | h
    · cases hi
    · exact h
  · intro h mem
    rcases @parseFrom_mem unescape mem 0 0 query with hn | ⟨l', h₁, h₂⟩
    · exact .inl hn
    · rw [h] at h₂
      cases h₂
      exact .inr h₁

theorem parseFrom_index (i j : Nat) (query : CString) :
    parseFrom unescape (fun _ => true) i query = parseFrom unescape (fun _ => true) j query := by
  rcases @parseFrom_mem unescape (fun _ => true) i j query with ⟨-, k, hk⟩ | ⟨l, h₁, h₂⟩
  · cases hk
  · rw [h₁, h₂]

/-! ## The grammar is followed -/

theorem dropWhile_append {a b : CString} (ha : semicolon ∉ a) :
    (a ++ b).dropWhile (· != semicolon) = b.dropWhile (· != semicolon) := by
  have hall : ∀ x ∈ a, (x != semicolon) = true := fun x hx => bne_iff_ne.mpr fun h => ha (h ▸ hx)
  exact List.dropWhile_append_of_pos hall

theorem mem_dropWhile_append {a b : CString} (hb : amp ∈ b) :
    amp ∈ (a ++ semicolon :: b).dropWhile (· != semicolon) := by
  induction a with
  | nil =>
    rw [List.nil_append, List.dropWhile_cons_of_neg (by simp)]
    exact List.mem_cons_of_mem _ hb
  | cons x a ih =>
    rw [List.cons_append, List.dropWhile_cons]
    split
    · exact ih
    · simp [hb]

theorem not_isSeparator (ha : amp ∉ s) (hb : semicolon ∉ s) : ∀ c ∈ s, isSeparator c = false := by
  intro c hc
  simp only [isSeparator, Bool.or_eq_false_iff, beq_eq_false_iff_ne, ne_eq]
  exact ⟨fun h => ha (h ▸ hc), fun h => hb (h ▸ hc)⟩

/-- The first section of a query whose separators are in order. -/
theorem Separable.cut (hsep : Separable query) :
    ∃ s, sectionEnd query = s.length ∧ (∀ c ∈ s, isSeparator c = false) ∧
      (query = s ∧ query.splitOnP isSeparator = [s] ∨
        ∃ c rest, query = s ++ c :: rest ∧
          query.splitOnP isSeparator = s :: rest.splitOnP isSeparator ∧ Separable rest) := by
  obtain ⟨s, rest, hq, hs, hend⟩ | ⟨s, rest, hq, ha, hs, hend⟩ | ⟨ha, hb, hend⟩ :=
    sectionEnd_cases query
  · have hns : semicolon ∉ s := by
      intro hm
      -- the `&` would come after this `;`
      obtain ⟨a, b, rfl⟩ := List.append_of_mem hm
      apply hsep
      rw [hq, List.append_assoc]
      exact mem_dropWhile_append (by simp)
    have hsec := not_isSeparator hs hns
    refine ⟨s, hend, hsec, .inr ⟨amp, rest, hq, ?_, ?_⟩⟩
    · rw [hq]
      exact List.splitOnP_append_cons_of_forall_mem hsec amp rfl rest
    · unfold Separable at hsep ⊢
      rwa [hq, dropWhile_append hns, List.dropWhile_cons_of_pos (by decide)] at hsep
  · have hsa : amp ∉ s := fun h => ha (by rw [hq]; exact List.mem_append_left _ h)
    have hsec := not_isSeparator hsa hs
    refine ⟨s, hend, hsec, .inr ⟨semicolon, rest, hq, ?_, fun h => ha ?_⟩⟩
    · rw [hq]
      exact List.splitOnP_append_cons_of_forall_mem hsec semicolon rfl rest
    · have := (List.dropWhile_sublist _).subset h
      rw [hq]
      simp [this]
  · have hsec := not_isSeparator ha hb
    exact ⟨query, hend, hsec, .inl ⟨rfl, List.splitOnP_eq_singleton hsec⟩⟩

theorem queryList_last (h : query.splitOnP isSeparator = [s]) :
    queryList unescape query =
      ((sectionEntry s).map fun q => (unescape q.1, unescape q.2)).toList := by
  unfold queryList
  rw [h]
  cases hs : sectionEntry s <;> simp [hs]

theorem queryList_cons {rest : CString}
    (h : query.splitOnP isSeparator = s :: rest.splitOnP isSeparator) :
    queryList unescape query =
      ((sectionEntry s).map fun q => (unescape q.1, unescape q.2)).toList ++
        queryList unescape rest := by
  unfold queryList
  rw [h]
  cases hs : sectionEntry s <;> simp [hs]

/-- One round of the loop, for a section that is understood. -/
theorem parseFrom_section (hne : query ≠ []) (hq : query = s ++ t)
    (hend : sectionEnd query = s.length) {e : Option (CString × CString)}
    (hp : parseSection unescape query = e) :
    parseFrom unescape (fun _ => true) 0 query =
      (parseFrom unescape (fun _ => true) 0 (t.drop 1)).map (e.toList ++ ·) := by
  rw [parseFrom_eq _ _ hne hq hend, hp, parseFrom_index (0 + 1) 0]
  cases e <;> simp

/-- Separators in order, and no lone `=`: the grammar is followed. -/
theorem parseFrom_grammar (hnil : unescape [] = []) {query : CString} (hsep : Separable query)
    (heq : NoLoneEquals query) :
    parseFrom unescape (fun _ => true) 0 query = some (queryList unescape query) := by
  by_cases hne : query = []
  · rw [parseFrom_nil hne, hne]
    rfl
  obtain ⟨s, hend, -, ⟨hq, hsp⟩ | ⟨c, rest, hq, hsp, hrest⟩⟩ := hsep.cut
  · have hs : s ≠ [equals] := fun h => heq (by rw [hsp, h]; simp)
    have hq' : query = s ++ [] := by rw [List.append_nil]; exact hq
    rw [parseFrom_section hne hq' hend (parseSection_eq hnil hq' hend hs), queryList_last hsp]
    simp [parseFrom_nil]
  · have hs : s ≠ [equals] := fun h => heq (by rw [hsp, h]; simp)
    have hno : NoLoneEquals rest := fun h => heq (by rw [hsp]; exact List.mem_cons_of_mem _ h)
    have hlt : rest.length < query.length := by
      rw [hq]
      simp only [List.length_append, List.length_cons]
      omega
    rw [parseFrom_section hne hq hend (parseSection_eq hnil hq hend hs), queryList_cons hsp]
    rw [List.drop_one, List.tail_cons, parseFrom_grammar hnil hrest hno]
    rfl
  termination_by query.length

theorem cutSections_separable {query : CString} (hsep : Separable query) :
    ∀ s ∈ cutSections query, ∀ c ∈ s, isSeparator c = false := by
  by_cases hne : query = []
  · rw [cutSections, dif_pos hne]
    exact fun s hs => absurd hs List.not_mem_nil
  obtain ⟨s, hend, hsec, ⟨hq, -⟩ | ⟨c, rest, hq, -, hrest⟩⟩ := hsep.cut
  · rw [cutSections_eq hne (by rw [List.append_nil]; exact hq : query = s ++ []) hend,
      cutSections]
    intro s' hs'
    rcases List.mem_cons.mp hs' with rfl | h
    · exact hsec
    · simp at h
  · have hlt : rest.length < query.length := by
      rw [hq]
      simp only [List.length_append, List.length_cons]
      omega
    rw [cutSections_eq hne hq hend]
    intro s' hs'
    rcases List.mem_cons.mp hs' with rfl | h
    · exact hsec
    · exact cutSections_separable hrest s' h
  termination_by query.length

/-- Sections that are not merged have their separators in order. -/
theorem separable_of_cutSections {query : CString}
    (h : ∀ s ∈ cutSections query, ∀ c ∈ s, isSeparator c = false) : Separable query := by
  by_cases hne : query = []
  · rw [hne]
    exact List.not_mem_nil
  obtain ⟨s, rest, hq, hs, hend⟩ | ⟨s, rest, hq, ha, -, -⟩ | ⟨ha, -, -⟩ := sectionEnd_cases query
  · have hlt : rest.length < query.length := by
      rw [hq]
      simp only [List.length_append, List.length_cons]
      omega
    rw [cutSections_eq hne hq hend] at h
    have hns : semicolon ∉ s := by
      intro hm
      have := h s List.mem_cons_self _ hm
      cases this
    have hrest := separable_of_cutSections fun s' hs' => h s' (List.mem_cons_of_mem _ hs')
    unfold Separable at hrest ⊢
    rw [hq, dropWhile_append hns, List.dropWhile_cons_of_pos (by decide)]
    exact hrest
  · exact fun hm => ha ((List.dropWhile_sublist _).subset hm)
  · exact fun hm => ha ((List.dropWhile_sublist _).subset hm)
  termination_by query.length

/-- A lone `=` is given the rest of the query as its name. -/
theorem noLoneEquals_of_parse (hdec : ∀ s, unescape s = percentDecode s) {query : CString}
    (hsep : Separable query)
    (hp : parseFrom unescape (fun _ => true) 0 query = some (queryList unescape query)) :
    NoLoneEquals query := by
  have hnil : unescape [] = [] := hdec []
  have hlone : ∀ {t l : CString} {es : List (CString × CString)}, query = [equals] ++ t →
      sectionEnd query = 1 → queryList unescape query = (unescape [], l) :: es → False := by
    intro t l es hq hend hl
    have hne : query ≠ [] := by rw [hq]; simp
    rw [parseFrom_section hne hq hend (parseSection_equals hq hend), hl, hnil] at hp
    obtain ⟨es', -, he⟩ := Option.map_eq_some_iff.mp hp
    have hname : unescape query = [] := congrArg Prod.fst (List.cons.inj he).1
    rw [hdec, hq] at hname
    exact percentDecode_ne_nil hname
  by_cases hne : query = []
  · rw [hne]
    decide
  obtain ⟨s, hend, -, ⟨hq, hsp⟩ | ⟨c, rest, hq, hsp, hrest⟩⟩ := hsep.cut
  · have hq' : query = s ++ [] := by rw [List.append_nil]; exact hq
    intro hmem
    rw [hsp] at hmem
    have hs := List.mem_singleton.mp hmem
    subst hs
    exact hlone hq' hend (queryList_last hsp)
  · intro hmem
    rw [hsp] at hmem
    rcases List.mem_cons.mp hmem with rfl | hmem
    · exact hlone hq hend (queryList_cons hsp)
    · have hlt : rest.length < query.length := by
        rw [hq]
        simp only [List.length_append, List.length_cons]
        omega
      by_cases hs : s = [equals]
      · subst hs
        exact hlone hq hend (queryList_cons hsp)
      · rw [parseFrom_section hne hq hend (parseSection_eq hnil hq hend hs), queryList_cons hsp,
          List.drop_one, List.tail_cons] at hp
        obtain ⟨es, hes, he⟩ := Option.map_eq_some_iff.mp hp
        rw [List.append_cancel_left he] at hes
        exact noLoneEquals_of_parse hdec hrest hes hmem
  termination_by query.length

end

/-- **The scanner follows the grammar** exactly on the queries in which no `&` comes
after a `;` and no section is a lone `=`. -/
theorem parse_uri_queries_grammar_iff {unescape : CString → CString}
    (hdec : ∀ s, unescape s = percentDecode s) (query : CString) :
    FollowsGrammar unescape query ↔ Separable query ∧ NoLoneEquals query := by
  have hnil : unescape [] = [] := hdec []
  constructor
  · rintro ⟨hp, hcut⟩
    have hsep := separable_of_cutSections hcut
    exact ⟨hsep, noLoneEquals_of_parse hdec hsep (parses_iff.mp hp)⟩
  · rintro ⟨hsep, heq⟩
    exact ⟨parses_iff.mpr (parseFrom_grammar hnil hsep heq), cutSections_separable hsep⟩

/-- `a=1&b;c=`. -/
def mixedQuery : CString := [97, 61, 49, 38, 98, 59, 99, 61]

theorem parse_uri_queries_grammar_mixed :
    FollowsGrammar percentDecode mixedQuery ∧
      queryList percentDecode mixedQuery = [([97], [49]), ([98], []), ([99], [])] :=
  ⟨(parse_uri_queries_grammar_iff (fun _ => rfl) mixedQuery).mpr (by decide), by decide⟩

/-- `a;b&c`. -/
def mergedQuery : CString := [97, 59, 98, 38, 99]

/-- The section `a` is merged with `b`, although each of them is one of its own. -/
theorem merged_section :
    parseUriQueries percentDecode (fun _ => true) (some mergedQuery) =
      some [([97, 59, 98], []), ([99], [])] ∧
    queryList percentDecode mergedQuery = [([97], []), ([98], []), ([99], [])] ∧
    ¬ FollowsGrammar percentDecode mergedQuery := by
  refine ⟨by decide +kernel, by decide, fun h => ?_⟩
  exact absurd (separable_of_cutSections h.2) (by decide)

/-! ## Printing -/

/-- `append_query_params`: nothing is quoted. -/
def appendQueryParams (queryParams : Option CString) (key value : CString) : CString :=
  queryParams.getD [] ++ (if queryParams.isSome then [amp] else []) ++ key ++ [equals] ++ value

/-- Successive calls of `append_query_params`. -/
def buildQuery (pairs : List (CString × CString)) : Option CString :=
  pairs.foldl (fun q p => some (appendQueryParams q p.1 p.2)) none

/-- What `nbd_unlocked_get_uri` reads to build the query. -/
structure Connection where
  socket : Option CString
  tlsCertificates : Option CString
  tlsPskFile : Option CString
  tlsHostname : Option CString
  tlsVerifyPeer : Bool

/-- A string literal. -/
def str (s : String) : CString := s.toList.map fun c => UInt8.ofNat c.toNat

/-- The queries that `nbd_unlocked_get_uri` puts into a URI. -/
def getUriQueries (h : Connection) : List (CString × CString) :=
  (h.socket.map fun v => (str "socket", v)).toList ++
    (h.tlsCertificates.map fun v => (str "tls-certificates", v)).toList ++
    (h.tlsPskFile.map fun v => (str "tls-psk-file", v)).toList ++
    (h.tlsHostname.map fun v => (str "tls-hostname", v)).toList ++
    (if h.tlsVerifyPeer then [] else [(str "tls-verify-peer", str "false")])

/-- A key that means itself. -/
structure PlainKey (key : CString) : Prop where
  nonempty : key ≠ []
  plain : ∀ c ∈ key, c ≠ amp ∧ c ≠ semicolon ∧ c ≠ equals ∧ c ≠ percent

theorem plainKey_of_check {key : CString} (h : (!key.isEmpty && key.all fun c =>
    c != amp && c != semicolon && c != equals && c != percent) = true) : PlainKey key := by
  simp only [Bool.and_eq_true, List.all_eq_true, bne_iff_ne, Bool.not_eq_true',
    List.isEmpty_eq_false_iff, and_assoc] at h
  exact ⟨h.1, h.2⟩

theorem getUriQueries_plain (h : Connection) : ∀ p ∈ getUriQueries h, PlainKey p.1 := by
  have hkeys : ∀ k ∈ [str "socket", str "tls-certificates", str "tls-psk-file",
      str "tls-hostname"], PlainKey k := fun k hk => plainKey_of_check (by revert k hk; decide)
  intro p hp
  simp only [getUriQueries, List.mem_append, Option.mem_toList, Option.map_eq_some_iff] at hp
  rcases hp with (((⟨v, -, rfl⟩ | ⟨v, -, rfl⟩) | ⟨v, -, rfl⟩) | ⟨v, -, rfl⟩) | hp
  · exact hkeys _ (by simp)
  · exact hkeys _ (by simp)
  · exact hkeys _ (by simp)
  · exact hkeys _ (by simp)
  · split at hp
    · cases hp
    · cases List.mem_singleton.mp hp
      exact plainKey_of_check (by decide)

/-- Some `%` is followed by two hexadecimal digits. -/
def hasEscape : CString → Bool
  | c :: x :: y :: rest =>
    c == percent && (hexDigit x).isSome && (hexDigit y).isSome || hasEscape (x :: y :: rest)
  | _ => false

/-- The values can be read back: no `&`, no escape, and no `;` in the last one. -/
def Quotable (pairs : List (CString × CString)) : Prop :=
  (∀ p ∈ pairs, amp ∉ p.2 ∧ hasEscape p.2 = false) ∧
    ∀ p, pairs.getLast? = some p → semicolon ∉ p.2

theorem length_percentDecode_lt {s : CString} (h : hasEscape s = true) :
    (percentDecode s).length < s.length := by
  fun_induction percentDecode s with
  | case1 c x y rest a b hx hy hc ih =>
    have := length_percentDecode_le rest
    simp only [List.length_cons]
    omega
  | case2 c x y rest hne ih =>
    have hrest : hasEscape (x :: y :: rest) = true := by
      rw [hasEscape, Bool.or_eq_true] at h
      refine h.resolve_left fun he => ?_
      simp only [Bool.and_eq_true, Option.isSome_iff_exists] at he
      obtain ⟨⟨hc, a, ha⟩, b, hb⟩ := he
      exact hne a b hc ha hb
    have := ih hrest
    simp only [List.length_cons] at this ⊢
    omega
  | case3 s hs =>
    rw [hasEscape] at h
    · cases h
    · exact hs

theorem percentDecode_of_not_hasEscape {s : CString} (h : hasEscape s = false) :
    percentDecode s = s := by
  fun_induction percentDecode s with
  | case1 c x y rest a b hx hy hc ih =>
    rw [hasEscape, Bool.or_eq_false_iff] at h
    simp [hc, hx, hy] at h
  | case2 c x y rest hne ih =>
    rw [hasEscape, Bool.or_eq_false_iff] at h
    rw [ih h.2]
  | case3 s hs => rfl

/-- Reading back part of a value gives the value only if it is the whole value and
contains no escape. -/
theorem percentDecode_prefix_iff {p v : CString} (hp : p <+: v) :
    percentDecode p = v ↔ p = v ∧ hasEscape v = false := by
  constructor
  · intro h
    have hle := length_percentDecode_le p
    have hpv : p = v := hp.eq_of_length_le (by rw [h] at hle; exact hle)
    refine ⟨hpv, ?_⟩
    by_contra hesc
    have := length_percentDecode_lt (eq_true_of_ne_false hesc)
    rw [← hpv, h, hpv] at this
    exact Nat.lt_irrefl _ this
  · rintro ⟨rfl, h⟩
    exact percentDecode_of_not_hasEscape h

/-! ## Reading back -/

theorem strchr_append_right {a b : CString} {c : UInt8} (ha : c ∉ a) :
    strchr (a ++ b) c = (strchr b c).map (· + a.length) := by
  unfold strchr
  rw [List.findIdx?_append, show a.findIdx? (· == c) = none from strchr_none.mpr ha]
  rfl

theorem sectionEnd_append {a : CString} (b : CString) (h₁ : amp ∉ a) (h₂ : semicolon ∉ a) :
    sectionEnd (a ++ b) = a.length + sectionEnd b := by
  unfold sectionEnd
  rw [strchr_append_right h₁, strchr_append_right h₂]
  cases strchr b amp with
  | some e => simp [Nat.add_comm]
  | none =>
    cases strchr b semicolon with
    | some e => simp [Nat.add_comm]
    | none => simp

theorem sectionEnd_le (query : CString) : sectionEnd query ≤ query.length := by
  obtain ⟨s, rest, hq, -, hend⟩ | ⟨s, rest, hq, -, -, hend⟩ | ⟨-, -, hend⟩ := sectionEnd_cases query
  · rw [hend, hq]
    simp
  · rw [hend, hq]
    simp
  · exact Nat.le_of_eq hend

section

variable {unescape : CString → CString}

/-- One round of the loop on `key=w`. -/
theorem parseFrom_key (hdec : ∀ s, unescape s = percentDecode s) {key : CString} (w : CString)
    (hk : PlainKey key) :
    parseFrom unescape (fun _ => true) 0 (key ++ equals :: w) =
      (parseFrom unescape (fun _ => true) 0 ((w.drop (sectionEnd w)).drop 1)).map
        ((key, percentDecode (w.take (sectionEnd w))) :: ·) := by
  obtain ⟨hne, hplain⟩ := hk
  have hnoeq : equals ∉ key := fun h => (hplain _ h).2.2.1 rfl
  have hbefore : ∀ c : UInt8, c = amp ∨ c = semicolon → c ∉ key ++ [equals] := by
    rintro c (rfl | rfl) hm <;> rcases List.mem_append.mp hm with h | h
    · exact (hplain _ h).1 rfl
    · exact absurd (List.mem_singleton.mp h) (by decide)
    · exact (hplain _ h).2.1 rfl
    · exact absurd (List.mem_singleton.mp h) (by decide)
  have hquery : key ++ equals :: w = (key ++ [equals]) ++ w := by simp
  have hsplit : key ++ equals :: w =
      (key ++ equals :: w.take (sectionEnd w)) ++ w.drop (sectionEnd w) := by
    simp [List.take_append_drop]
  have hend : sectionEnd (key ++ equals :: w) =
      (key ++ equals :: w.take (sectionEnd w)).length := by
    have := sectionEnd_le w
    rw [hquery, sectionEnd_append w (hbefore _ (.inl rfl)) (hbefore _ (.inr rfl))]
    simp only [List.length_append, List.length_cons, List.length_nil, List.length_take]
    omega
  have hhead : (key ++ equals :: w.take (sectionEnd w)).head? ≠ some equals := by
    cases key with
    | nil => exact absurd rfl hne
    | cons c key => exact fun h => hnoeq (by cases h; exact List.mem_cons_self)
  have hall : ∀ c ∈ key, (c != equals) = true := fun c hc => bne_iff_ne.mpr (hplain c hc).2.2.1
  have hentry : sectionEntry (key ++ equals :: w.take (sectionEnd w)) =
      some (key, w.take (sectionEnd w)) := by
    unfold sectionEntry
    rw [if_neg (by simp), if_neg fun h => hhead h.1, List.takeWhile_append_of_pos hall,
      List.dropWhile_append_of_pos hall]
    simp
  have hlone : key ++ equals :: w.take (sectionEnd w) ≠ [equals] := by
    intro h
    rw [h] at hhead
    exact hhead rfl
  have hkey : percentDecode key = key :=
    percentDecode_of_plain fun h => (hplain _ h).2.2.2 rfl
  rw [parseFrom_section (by simp) hsplit hend
    (parseSection_eq (hdec []) hsplit hend hlone), hentry]
  simp [hdec, hkey]

/-- The entries that follow the first one, each with the `&` in front of it. -/
def laterEntries (pairs : List (CString × CString)) : CString :=
  pairs.flatMap fun p => amp :: (p.1 ++ equals :: p.2)

theorem foldl_appendQueryParams (q : CString) (pairs : List (CString × CString)) :
    pairs.foldl (fun q p => some (appendQueryParams q p.1 p.2)) (some q) =
      some (q ++ laterEntries pairs) := by
  induction pairs generalizing q with
  | nil => simp [laterEntries]
  | cons p pairs ih =>
    rw [List.foldl_cons, ih]
    simp [appendQueryParams, laterEntries]

theorem buildQuery_cons (p : CString × CString) (pairs : List (CString × CString)) :
    buildQuery (p :: pairs) = some (p.1 ++ equals :: (p.2 ++ laterEntries pairs)) := by
  unfold buildQuery
  rw [List.foldl_cons, foldl_appendQueryParams]
  simp [appendQueryParams]

/-- The value of the last entry ends at the first separator. -/
theorem take_sectionEnd_last {v : CString} :
    v.take (sectionEnd v) = v ↔ amp ∉ v ∧ semicolon ∉ v := by
  obtain ⟨s, rest, hq, -, hend⟩ | ⟨s, rest, hq, -, -, hend⟩ | ⟨ha, hb, hend⟩ := sectionEnd_cases v
  · rw [hend, hq, List.take_left]
    simp
  · rw [hend, hq, List.take_left]
    simp
  · rw [hend, List.take_length]
    exact iff_of_true rfl ⟨ha, hb⟩

/-- The value of an earlier entry ends at the first `&`. -/
theorem sectionEnd_earlier {v rest : CString} (hv : amp ∉ v) :
    sectionEnd (v ++ amp :: rest) = v.length := by
  unfold sectionEnd
  rw [strchr_append hv]

theorem sectionEnd_earlier_lt {v rest : CString} (hv : amp ∈ v) :
    sectionEnd (v ++ amp :: rest) < v.length := by
  unfold sectionEnd
  cases he : strchr v amp with
  | none => exact absurd hv (strchr_none.mp he)
  | some e =>
    obtain ⟨a, b, rfl, ha, rfl⟩ := strchr_some he
    rw [List.append_assoc, List.cons_append, strchr_append ha]
    simp

theorem quotable_single {k v : CString} :
    Quotable [(k, v)] ↔ (amp ∉ v ∧ semicolon ∉ v) ∧ hasEscape v = false := by
  simp only [Quotable, List.mem_singleton, forall_eq, List.getLast?_singleton, Option.some.injEq,
    forall_eq']
  tauto

theorem quotable_cons {p q : CString × CString} {pairs : List (CString × CString)} :
    Quotable (p :: q :: pairs) ↔
      (amp ∉ p.2 ∧ hasEscape p.2 = false) ∧ Quotable (q :: pairs) := by
  simp only [Quotable, List.forall_mem_cons, List.getLast?_cons_cons]
  tauto

/-- The entries are read back one by one. -/
theorem parseFrom_entries_iff (hdec : ∀ s, unescape s = percentDecode s)
    (p : CString × CString) (pairs : List (CString × CString))
    (hk : ∀ q ∈ p :: pairs, PlainKey q.1) :
    parseFrom unescape (fun _ => true) 0 (p.1 ++ equals :: (p.2 ++ laterEntries pairs)) =
      some (p :: pairs) ↔ Quotable (p :: pairs) := by
  induction pairs generalizing p with
  | nil =>
    obtain ⟨k, v⟩ := p
    rw [quotable_single]
    simp only [laterEntries, List.flatMap_nil, List.append_nil]
    rw [parseFrom_key hdec v (hk _ List.mem_cons_self)]
    constructor
    · intro h
      obtain ⟨l, -, hl⟩ := Option.map_eq_some_iff.mp h
      have hv : percentDecode (v.take (sectionEnd v)) = v :=
        congrArg Prod.snd (List.cons.inj hl).1
      obtain ⟨htake, hesc⟩ := (percentDecode_prefix_iff (List.take_prefix _ _)).mp hv
      exact ⟨take_sectionEnd_last.mp htake, hesc⟩
    · rintro ⟨hsep, hesc⟩
      have htake := take_sectionEnd_last.mpr hsep
      have hdrop : v.drop (sectionEnd v) = [] := by
        have := List.take_append_drop (sectionEnd v) v
        rw [htake] at this
        exact List.append_right_eq_self.mp this
      rw [htake, hdrop, percentDecode_of_not_hasEscape hesc, List.drop_nil, parseFrom_nil rfl]
      rfl
  | cons q pairs ih =>
    obtain ⟨k, v⟩ := p
    have hlater : laterEntries (q :: pairs) =
        amp :: (q.1 ++ equals :: (q.2 ++ laterEntries pairs)) := by
      simp [laterEntries]
    rw [quotable_cons, hlater, parseFrom_key hdec _ (hk _ List.mem_cons_self)]
    by_cases hv : amp ∈ v
    · -- part of the value is lost
      refine iff_of_false (fun h => ?_) fun h => h.1.1 hv
      have hlt : sectionEnd (v ++ amp :: (q.1 ++ equals :: (q.2 ++ laterEntries pairs))) <
          v.length := sectionEnd_earlier_lt hv
      obtain ⟨l, -, hl⟩ := Option.map_eq_some_iff.mp h
      rw [List.take_append_of_le_length (Nat.le_of_lt hlt)] at hl
      have hval := (percentDecode_prefix_iff (List.take_prefix _ _)).mp
        (congrArg Prod.snd (List.cons.inj hl).1)
      have := congrArg List.length hval.1
      rw [List.length_take] at this
      omega
    · have ih' := ih q fun r hr => hk r (List.mem_cons_of_mem _ hr)
      rw [sectionEnd_earlier hv, List.take_left, List.drop_left, List.drop_one, List.tail_cons]
      constructor
      · intro h
        obtain ⟨l, hl, he⟩ := Option.map_eq_some_iff.mp h
        obtain ⟨hp, rfl⟩ := List.cons.inj he
        have hval := (percentDecode_prefix_iff (List.prefix_refl v)).mp (congrArg Prod.snd hp)
        exact ⟨⟨hv, hval.2⟩, ih'.mp hl⟩
      · rintro ⟨⟨-, hesc⟩, hrest⟩
        rw [ih'.mpr hrest, percentDecode_of_not_hasEscape hesc]
        rfl

end

/-- **Queries that were printed are read back** exactly if no value contains an `&` or
an escape and the last one contains no `;`. -/
theorem query_round_trip_iff {unescape : CString → CString}
    (hdec : ∀ s, unescape s = percentDecode s) (pairs : List (CString × CString))
    (hk : ∀ p ∈ pairs, PlainKey p.1) :
    Parses unescape (buildQuery pairs) pairs ↔ Quotable pairs := by
  cases pairs with
  | nil => exact iff_of_true (fun _ => .inr rfl) ⟨nofun, nofun⟩
  | cons p pairs =>
    rw [buildQuery_cons, parses_iff]
    exact parseFrom_entries_iff hdec p pairs hk

/-- A connection to the socket `/tmp/a;b` with a PSK file. -/
def pskConnection : Connection :=
  { socket := some (str "/tmp/a;b"), tlsCertificates := none, tlsPskFile := some (str "/k.psk"),
    tlsHostname := none, tlsVerifyPeer := true }

theorem query_round_trip_psk :
    buildQuery (getUriQueries pskConnection) = some (str "socket=/tmp/a;b&tls-psk-file=/k.psk") ∧
      Parses percentDecode (buildQuery (getUriQueries pskConnection))
        (getUriQueries pskConnection) := by
  refine ⟨by decide, (query_round_trip_iff (fun _ => rfl) _ (getUriQueries_plain _)).mpr ?_⟩
  refine ⟨by decide, fun p hp => ?_⟩
  cases hp
  decide

/-- A connection to the socket `/tmp/a&b`. -/
def ampConnection : Connection :=
  { socket := some (str "/tmp/a&b"), tlsCertificates := none, tlsPskFile := none,
    tlsHostname := none, tlsVerifyPeer := true }

/-- Another socket is named, and a query that nobody asked for. -/
theorem socket_path_cut :
    parseUriQueries percentDecode (fun _ => true) (buildQuery (getUriQueries ampConnection)) =
      some [(str "socket", str "/tmp/a"), (str "b", [])] ∧
    ¬ Parses percentDecode (buildQuery (getUriQueries ampConnection))
      (getUriQueries ampConnection) := by
  have hrun : parseUriQueries percentDecode (fun _ => true)
      (buildQuery (getUriQueries ampConnection)) =
      some [(str "socket", str "/tmp/a"), (str "b", [])] := by decide +kernel
  refine ⟨hrun, fun h => ?_⟩
  rcases h fun _ => true with ⟨-, i, hi⟩ | h
  · cases hi
  · rw [hrun] at h
    exact absurd (Option.some.inj h) (by decide)

end Libnbd.Uri
