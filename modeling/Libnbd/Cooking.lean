import Libnbd.Chunk

/-!
The loop of `RECV_BS_ENTRIES` that makes the entries for the extent callback out
of the descriptors of the server.

`cookEntry_ok` says what one iteration can write; `cookEntries_ok` carries it
through the loop: what is delivered is a prefix of what the server sent, with at
most the last entry shortened, and it fits the callback and the export.
-/

namespace Libnbd

open Lib

/-- `entries` is a prefix of `ds`, in which only the last entry may be shorter
or, if an error is recorded, have its flags cut to 32 bits. -/
inductive Shortened (error : UInt32) : List (UInt64 × UInt64) → List (UInt64 × UInt64) → Prop where
  | stop (ds) : Shortened error ds []
  | last {len flags origLen origFlags : UInt64} (rest) (hlen : len ≤ origLen)
      (hflags : flags = origFlags ∨ error ≠ 0 ∧ flags = origFlags.toUInt32.toUInt64) :
      Shortened error ((origLen, origFlags) :: rest) [(len, flags)]
  | cons (d) {ds entries} (h : Shortened error ds entries) :
      Shortened error (d :: ds) (d :: entries)

/-- Sum of the lengths, without wrapping. -/
def lengthSum (entries : List (UInt64 × UInt64)) : Nat := (entries.map fun e => e.1.toNat).sum

/-- An entry that the callback can be given. -/
def CookParams.Fits (p : CookParams) (e : UInt64 × UInt64) : Prop :=
  e.1 ≤ int64Max ∧ (p.wide = false → e.1 ≤ uint32Max ∧ e.2 ≤ uint32Max)

/-- What the extent callback is given of the descriptors `ds`. -/
structure CookedOk (p : CookParams) (ds entries : List (UInt64 × UInt64)) (error : UInt32) :
    Prop where
  shortened : Shortened error ds entries
  nonempty : entries ≠ []
  fits : ∀ e ∈ entries, p.Fits e
  sum : lengthSum entries ≤ p.cap.toNat
  zero : ∀ e ∈ entries, e.1 = 0 → entries = [e] ∧ error ≠ 0

/-- The values of a 32 bit descriptor. -/
def CookParams.Narrow (p : CookParams) (d : UInt64 × UInt64) : Prop :=
  p.ext = false → d.1 ≤ uint32Max ∧ d.2 ≤ uint32Max

section Entry

variable {p : CookParams}

theorem uint32Max_toNat : uint32Max.toNat = 4294967295 := rfl
theorem int64Max_toNat : int64Max.toNat = 9223372036854775807 := rfl

theorem clipHuge_spec (len : UInt64) (hn : p.ext = false → len ≤ uint32Max) :
    p.clipHuge len ≤ len ∧ p.clipHuge len ≤ int64Max ∧
      (p.tooHuge len = false → p.clipHuge len = len) := by
  unfold CookParams.clipHuge
  split
  · rename_i hh
    simp only [CookParams.tooHuge, Bool.and_eq_true, decide_eq_true_eq] at hh
    have hc : int64Max + 1 - UInt64.ofNat maxRequestSize = 0x7ffffffffc000000 := rfl
    rw [hc]
    have hlt := UInt64.lt_iff_toNat_lt.mp hh.2
    rw [int64Max_toNat] at hlt
    have hv : (0x7ffffffffc000000 : UInt64).toNat = 9223372036787666944 := rfl
    refine ⟨?_, by decide, fun h => ?_⟩
    · rw [UInt64.le_iff_toNat_le, hv]
      omega
    · simp [CookParams.tooHuge, hh.1, hh.2] at h
  · rename_i hh
    refine ⟨UInt64.le_refl _, ?_, fun _ => rfl⟩
    cases he : p.ext with
    | false =>
      refine UInt64.le_trans (hn he) ?_
      decide
    | true =>
      simp only [CookParams.tooHuge, he, Bool.true_and, decide_eq_true_eq] at hh
      exact UInt64.not_lt.mp hh

theorem clipLength_spec (len : UInt64) (hn : p.ext = false → len ≤ uint32Max) :
    p.clipLength len ≤ len ∧ p.clipLength len ≤ int64Max ∧
      (p.wide = false → p.clipLength len ≤ uint32Max) ∧
      (p.tooHuge len = false → p.tooLong (p.clipHuge len) = false → p.clipLength len = len) := by
  obtain ⟨h₁, h₂, h₃⟩ := clipHuge_spec len hn
  unfold CookParams.clipLength
  split
  · rename_i hl
    have hc : 0x100000000 - UInt64.ofNat maxRequestSize = 0xfc000000 := rfl
    rw [hc]
    have hl' := hl
    simp only [CookParams.tooLong, Bool.and_eq_true, decide_eq_true_eq] at hl'
    have hlt := UInt64.lt_iff_toNat_lt.mp hl'.2
    rw [uint32Max_toNat] at hlt
    have hv : (0xfc000000 : UInt64).toNat = 4227858432 := rfl
    have hle : (0xfc000000 : UInt64) ≤ p.clipHuge len := by
      rw [UInt64.le_iff_toNat_le, hv]
      omega
    refine ⟨UInt64.le_trans hle h₁, by decide, fun _ => by decide, fun _ h => ?_⟩
    rw [hl] at h
    cases h
  · rename_i hl
    refine ⟨h₁, h₂, fun hw => ?_, fun h _ => h₃ h⟩
    cases he : p.ext with
    | false => exact UInt64.le_trans h₁ (hn he)
    | true =>
      simp only [CookParams.tooLong, he, hw, Bool.not_false, Bool.and_self, Bool.true_and,
        decide_eq_true_eq] at hl
      exact UInt64.not_lt.mp hl

theorem clipFlags_spec (flags : UInt64) (hn : p.ext = false → flags ≤ uint32Max) :
    (p.badFlags flags = false → p.clipFlags flags = flags) ∧
      (p.badFlags flags = true → p.clipFlags flags = flags.toUInt32.toUInt64) ∧
      (p.wide = false → p.clipFlags flags ≤ uint32Max) := by
  unfold CookParams.clipFlags
  split
  · rename_i hb
    refine ⟨fun h => ?_, fun _ => rfl, fun _ => ?_⟩
    · rw [hb] at h
      cases h
    · rw [UInt64.le_iff_toNat_le, uint32Max_toNat, UInt32.toNat_toUInt64]
      have := UInt32.toNat_lt flags.toUInt32
      omega
  · rename_i hb
    refine ⟨fun _ => rfl, fun h => absurd h hb, fun hw => ?_⟩
    cases he : p.ext with
    | false => exact hn he
    | true =>
      simp only [CookParams.badFlags, he, hw, Bool.not_false, Bool.and_self, Bool.true_and,
        decide_eq_true_eq] at hb
      exact UInt64.not_lt.mp hb

theorem clipCap_spec (total len : UInt64) :
    p.clipCap total len ≤ len ∧ p.clipCap total len ≤ p.cap - total ∧
      (¬ len > p.cap - total → p.clipCap total len = len) := by
  unfold CookParams.clipCap
  split
  · rename_i hgt
    exact ⟨UInt64.le_of_lt hgt, UInt64.le_refl _, fun h => absurd hgt h⟩
  · rename_i hgt
    exact ⟨UInt64.le_refl _, UInt64.not_lt.mp hgt, fun _ => rfl⟩

theorem or_le_uint32Max {a b : UInt64} (ha : a ≤ uint32Max) (hb : b ≤ uint32Max) :
    a ||| b ≤ uint32Max := by
  rw [UInt64.le_iff_toNat_le, uint32Max_toNat] at *
  have h := Nat.or_lt_two_pow (n := 32) (x := a.toNat) (y := b.toNat) (by omega) (by omega)
  rw [UInt64.toNat_or]
  omega

/-- What an iteration at `total` may write for the descriptor `d`. -/
structure Written (p : CookParams) (i : Nat) (total : UInt64) (d : UInt64 × UInt64)
    (len flags : UInt64) (error : UInt32) (last : Bool) : Prop where
  shorter : len ≤ d.1
  kept : flags = d.2 ∨ error ≠ 0 ∧ flags = d.2.toUInt32.toUInt64
  fits : p.Fits (len, flags)
  room : len ≤ p.cap - total
  zero : len = 0 → i = 0 ∧ last = true ∧ error ≠ 0
  whole : last = false → (len, flags) = d

/-- An iteration goes on or stops, and it stops without an entry only if there is
one already. -/
def Cooked.Ok (p : CookParams) (i : Nat) (total : UInt64) (d : UInt64 × UInt64) : Cooked → Prop
  | .fail => False
  | .stop _ => i > 0
  | .entry len flags error last => Written p i total d len flags error last

theorem orErr_ne_zero_of_left {a : UInt32} (b : UInt32) (h : a ≠ 0) : orErr a b ≠ 0 := by
  rw [Ne, orErr_eq_zero]
  exact fun hh => h hh.1

theorem orErr_ne_zero_of_right {b : UInt32} (a : UInt32) (h : b ≠ 0) : orErr a b ≠ 0 := by
  rw [Ne, orErr_eq_zero]
  exact fun hh => h hh.2

theorem cookEntry_ok {i : Nat} {total : UInt64} (error : UInt32) {d : UInt64 × UInt64}
    (hd : p.Narrow d) (ht : total ≤ p.cap) : (cookEntry p i total error d.1 d.2).Ok p i total d := by
  obtain ⟨hl₁, hl₂, hl₃, hl₄⟩ := clipLength_spec (p := p) d.1 fun he => (hd he).1
  obtain ⟨hf₁, hf₂, hf₃⟩ := clipFlags_spec (p := p) d.2 fun he => (hd he).2
  obtain ⟨hc₁, hc₂, hc₃⟩ := clipCap_spec (p := p) total (p.clipLength d.1)
  unfold cookEntry
  split
  · rename_i hbad
    exact hbad.2
  · unfold cookClip
    rw [if_neg (UInt64.not_lt.mpr ht)]
    unfold cookFinish
    split
    · rename_i hz
      exact hz.2
    · rename_i hz
      have hwide : p.wide = false → p.clipCap total (p.clipLength d.1) ≤ uint32Max ∧
          p.clipFlags d.2 ≤ uint32Max :=
        fun hw => ⟨UInt64.le_trans hc₁ (hl₃ hw), hf₃ hw⟩
      split
      · -- the assertion on narrow entries
        rename_i hfail
        simp only [Bool.and_eq_true, Bool.not_eq_true', decide_eq_true_eq] at hfail
        obtain ⟨h₁, h₂⟩ := hwide hfail.1
        exact absurd hfail.2 (UInt64.not_lt.mpr (or_le_uint32Max h₁ h₂))
      · refine ⟨UInt64.le_trans hc₁ hl₁, ?_, ⟨UInt64.le_trans hc₁ hl₂, hwide⟩, hc₂, fun h₀ => ?_,
          fun hlast => ?_⟩
        · -- flags are cut only together with an error
          cases hb : p.badFlags d.2 with
          | false => exact .inl (hf₁ hb)
          | true =>
            refine .inr ⟨?_, hf₂ hb⟩
            simp only [if_true]
            have he : orErr error eoverflow ≠ 0 := orErr_ne_zero_of_right _ (by decide)
            split <;> split <;>
              first | exact he | exact orErr_ne_zero_of_left _ he |
                exact orErr_ne_zero_of_left _ (orErr_ne_zero_of_left _ he)
        · refine ⟨?_, ?_, ?_⟩
          · by_contra hi
            exact hz ⟨h₀, Nat.pos_of_ne_zero hi⟩
          · simp [h₀]
          · rw [if_pos h₀]
            exact orErr_ne_zero_of_right _ (by decide)
        · simp only [Bool.or_eq_false_iff, decide_eq_false_iff_not] at hlast
          obtain ⟨⟨⟨⟨hhuge, hlong⟩, hbad⟩, hcap⟩, -⟩ := hlast
          rw [hc₃ hcap, hl₄ hhuge hlong, hf₁ hbad]

end Entry

/-! ## The loop -/

theorem add_room {a b c : UInt64} (ha : a ≤ c) (hb : b ≤ c - a) :
    (a + b).toNat = a.toNat + b.toNat ∧ a + b ≤ c := by
  rw [UInt64.le_iff_toNat_le] at ha hb
  rw [UInt64.toNat_sub_of_le _ _ (UInt64.le_iff_toNat_le.mpr ha)] at hb
  have hlt := UInt64.toNat_lt c
  have hsum : (a + b).toNat = a.toNat + b.toNat := by
    rw [UInt64.toNat_add, Nat.mod_eq_of_lt (by omega)]
  refine ⟨hsum, ?_⟩
  rw [UInt64.le_iff_toNat_le, hsum]
  omega

/-- **The loop** from any iteration on: no assertion fails, and what is written
fits behind the entries that are there already. -/
theorem cookEntries_ok {p : CookParams} (i : Nat) {total : UInt64} (error : UInt32)
    {ds : List (UInt64 × UInt64)} (hd : ∀ d ∈ ds, p.Narrow d) (ht : total ≤ p.cap) :
    ∃ entries error', cookEntries p i total error ds = some (entries, error') ∧
      Shortened error' ds entries ∧ (i = 0 → ds ≠ [] → entries ≠ []) ∧
      (∀ e ∈ entries, p.Fits e) ∧ total.toNat + lengthSum entries ≤ p.cap.toNat ∧
      ∀ e ∈ entries, e.1 = 0 → i = 0 ∧ entries = [e] ∧ error' ≠ 0 := by
  induction ds generalizing i total error with
  | nil =>
    refine ⟨[], error, rfl, .stop _, fun _ h => absurd rfl h, fun _ he => absurd he List.not_mem_nil,
      ?_, fun _ he => absurd he List.not_mem_nil⟩
    exact UInt64.le_iff_toNat_le.mp ht
  | cons d ds ih =>
    have hok := cookEntry_ok (p := p) (i := i) error (hd d List.mem_cons_self) ht
    obtain ⟨origLen, origFlags⟩ := d
    simp only [cookEntries]
    simp only at hok
    generalize cookEntry p i total error origLen origFlags = r at hok
    cases r with
    | fail => exact hok.elim
    | stop error' =>
      have hi : i > 0 := hok
      refine ⟨[], error', rfl, .stop _, fun h => ?_, fun _ he => absurd he List.not_mem_nil, ?_,
        fun _ he => absurd he List.not_mem_nil⟩
      · omega
      · exact UInt64.le_iff_toNat_le.mp ht
    | entry len flags error' last =>
      have hw : Written p i total (origLen, origFlags) len flags error' last := hok
      obtain ⟨hsum, hle⟩ := add_room ht hw.room
      cases last with
      | true =>
        refine ⟨[(len, flags)], error', rfl, .last ds hw.shorter hw.kept, fun _ _ => nofun, ?_, ?_,
          ?_⟩
        · intro e he
          rw [List.mem_singleton.mp he]
          exact hw.fits
        · have := UInt64.le_iff_toNat_le.mp hle
          simp only [lengthSum, List.map_cons, List.map_nil, List.sum_cons, List.sum_nil]
          omega
        · intro e he h₀
          rw [List.mem_singleton] at he
          subst he
          exact ⟨(hw.zero h₀).1, rfl, (hw.zero h₀).2.2⟩
      | false =>
        have hwhole := hw.whole rfl
        obtain ⟨entries, error'', he, hshort, -, hfits, hcap, hzero⟩ :=
          ih (i + 1) error' (fun d hd' => hd d (List.mem_cons_of_mem _ hd')) hle
        refine ⟨(len, flags) :: entries, error'', by simp [he], ?_, fun _ _ => nofun, ?_, ?_, ?_⟩
        · rw [hwhole]
          exact .cons _ hshort
        · intro e hmem
          rcases List.mem_cons.mp hmem with rfl | hmem
          · exact hw.fits
          · exact hfits e hmem
        · simp only [lengthSum, List.map_cons, List.sum_cons] at hcap ⊢
          omega
        · -- a zero length stops the loop, so neither this entry nor a later one has it
          intro e hmem h₀
          rcases List.mem_cons.mp hmem with rfl | hmem
          · have := (hw.zero h₀).2.1
            cases this
          · have := (hzero e hmem h₀).1
            omega

theorem bsDescriptors_narrow (h : Handle) (cmd : Command) (raw : Mem) (count : Nat) :
    ∀ d ∈ bsDescriptors h.replyType raw count, (cookParams h cmd).Narrow d := by
  intro d hmem hext
  obtain ⟨i, -, rfl⟩ := List.mem_map.mp hmem
  have htype : h.replyType = replyTypeBlockStatus := by
    simpa [cookParams] using hext
  simp only [htype, if_true]
  constructor <;>
  · rw [UInt64.le_iff_toNat_le, uint32Max_toNat, UInt32.toNat_toUInt64]
    have := UInt32.toNat_lt (raw.be32 (8 * i))
    have := UInt32.toNat_lt (raw.be32 (8 * i + 4))
    omega

/-- The bytes of the export from the command's offset on. -/
theorem bsCap_toNat (h : Handle) (cmd : Command) :
    (bsCap h cmd).toNat = h.exp.exportsize.toNat - cmd.offset.toNat := by
  unfold bsCap
  split
  · rename_i hle
    exact UInt64.toNat_sub_of_le _ _ hle
  · rename_i hle
    have := UInt64.lt_iff_toNat_lt.mp (UInt64.not_le.mp hle)
    simp only [UInt64.toNat_zero]
    omega

/-- **Cooking** the descriptors of any chunk. -/
theorem cooked_ok (h : Handle) (cmd : Command) (raw : Mem) {count : Nat} (hcount : count ≠ 0) :
    ∃ entries error, cookEntries (cookParams h cmd) 0 0 cmd.error
        (bsDescriptors h.replyType raw count) = some (entries, error) ∧
      CookedOk (cookParams h cmd) (bsDescriptors h.replyType raw count) entries error := by
  obtain ⟨entries, error, he, hshort, hne, hfits, hsum, hzero⟩ :=
    cookEntries_ok 0 cmd.error (bsDescriptors_narrow h cmd raw count)
      (UInt64.le_iff_toNat_le.mpr (Nat.zero_le _) : (0 : UInt64) ≤ _)
  refine ⟨entries, error, he, hshort, hne rfl ?_, hfits, ?_, fun e hmem h₀ => (hzero e hmem h₀).2⟩
  · intro hnil
    have hlen := congrArg List.length hnil
    simp [bsDescriptors, hcount] at hlen
  · simpa using hsum

end Libnbd
