import Libnbd.Copy.Backends

/-!
Synchronous copying (`copy/synch-copying.c`).

A source of known size is copied in blocks of `request_size` bytes with the help of its
extents; a pipe is copied until it ends. The progress bar is left out, and so is the
allocation of the buffer.
-/

namespace Libnbd.Copy

open Lib

/-! ## The loops -/

/-- Zero a range: efficiently, else with allocation, else by writing zeroes. -/
def synchZeroes (d : Dest) (offset length : Nat) : Except Stopped Dest :=
  match d.synchZero offset length false with
  | .error e => .error e
  | .ok (true, d) => .ok d
  | .ok (false, d) =>
    match d.synchZero offset length true with
    | .error e => .error e
    | .ok (true, d) => .ok d
    | .ok (false, d) => d.synchWrite (List.replicate length 0) offset

/-- The `for` loop over the extents of a block of `count` bytes. -/
def synchExtents (count : Nat) :
    List Extent → Source → Dest → Nat → Except Stopped (Source × Dest × Nat)
  | [], s, d, offset => .ok (s, d, offset)
  | e :: exts, s, d, offset =>
    if e.length > count then .error .abort
    else if e.zero then
      match synchZeroes d offset e.length with
      | .error e => .error e
      | .ok d => synchExtents count exts s d (offset + e.length)
    else
      match s.synchRead e.length offset with
      | .error e => .error e
      | .ok (buf, s) =>
        if buf.length = 0 ∨ buf.length < e.length then .error .exit
        else
          match d.synchWrite buf offset with
          | .error e => .error e
          | .ok d => synchExtents count exts s d (offset + buf.length)

section Loops

variable (requestSize : Nat) (extents : Bool)

/-- The extents that a block is copied by. -/
def blockExtents (s : Source) (offset count : Nat) : Except Stopped (List Extent × Source) :=
  if extents then s.getExtents offset count else .ok (defaultGetExtents offset count, s)

/-- The `while` loop for a source of known size. -/
def synchBlocks (size : Nat) : Nat → Source → Dest → Nat → Option (Except Stopped (Source × Dest))
  | 0, _, _, _ => none
  | fuel + 1, s, d, offset =>
    if offset < size then
      let count := min (size - offset) requestSize
      match blockExtents extents s offset count with
      | .error e => some (.error e)
      | .ok (exts, s) =>
        match synchExtents count exts s d offset with
        | .error e => some (.error e)
        | .ok (s, d, offset) => synchBlocks size fuel s d offset
    else some (.ok (s, d))

/-- The `while` loop for a source whose size is unknown. -/
def synchStream : Nat → Source → Dest → Nat → Option (Except Stopped (Source × Dest))
  | 0, _, _, _ => none
  | fuel + 1, s, d, offset =>
    match s.synchRead requestSize offset with
    | .error e => some (.error e)
    | .ok (buf, s) =>
      if buf.length > 0 then
        match d.synchWrite buf offset with
        | .error e => some (.error e)
        | .ok d => synchStream fuel s d (offset + buf.length)
      else some (.ok (s, d))

/-- `synch_copying`. -/
def synchCopying (fuel : Nat) (s : Source) (d : Dest) : Option (Except Stopped (Source × Dest)) :=
  match s.size with
  | none => synchStream requestSize fuel s d 0
  | some size => synchBlocks requestSize extents size fuel s d 0

end Loops

/-! ## One block -/

section Block

variable {content : Nat → UInt8} {total o o' n count : Nat} {s s' : Source} {orig d d' : Dest}
  {exts : List Extent}

theorem synchZeroes_got (h : orig.Got content total o d) (hz : ZeroOn content o n)
    (hle : o + n ≤ total) (hd : synchZeroes d o n = .ok d') :
    orig.Got content total (o + n) d' := by
  unfold synchZeroes at hd
  split at hd
  · cases hd
  · rename_i d₁ hfirst
    cases hd
    exact h.zero hz hle hfirst
  · rename_i d₁ hfirst
    have h₁ : orig.Got content total o d₁ := h.zero hz hle hfirst
    split at hd
    · cases hd
    · rename_i d₂ hsecond
      cases hd
      exact h₁.zero hz hle hsecond
    · rename_i d₂ hsecond
      -- neither way is supported: the zeroes are written
      have h₂ : orig.Got content total o d₂ := h₁.zero hz hle hsecond
      rw [replicate_eq_bytesOf hz] at hd
      exact h₂.write hle hd

/-- **Step**: the extents of a block bring the copy to the end of the block. -/
theorem synchExtents_got {stop : Nat} (hs : s.At content total o) (hsize : s.size ≠ none)
    (hd : orig.Got content total o d) (ht : Tiles Extent.offset Extent.length o o' exts)
    (hz : ZeroTrue content exts) (hle : o' ≤ total)
    (h : synchExtents count exts s d o = .ok (s', d', stop)) :
    stop = o' ∧ s'.At content total o' ∧ s'.size ≠ none ∧ orig.Got content total o' d' := by
  induction exts generalizing o s d with
  | nil =>
    cases h
    have hstop : stop = o' := ht
    exact ⟨hstop, hstop ▸ hs, hsize, hstop ▸ hd⟩
  | cons e exts ih =>
    obtain ⟨rfl, hpos, hrest⟩ := ht
    have hend := hrest.le
    have hz' : ZeroTrue content exts := fun x hx => hz x (List.mem_cons_of_mem _ hx)
    rw [synchExtents] at h
    split at h
    · cases h
    · split at h
      · rename_i hzero
        split at h
        · cases h
        · rename_i d₁ hd₁
          have hgot := synchZeroes_got hd (hz e List.mem_cons_self hzero) (by omega) hd₁
          exact ih (hs.skip hsize _) hsize hgot hrest hz' h
      · split at h
        · cases h
        · rename_i buf s₁ hread
          split at h
          · cases h
          · rename_i hfull
            obtain ⟨hbuf, hle', hs₁⟩ := hs.read hread
            have hlen : buf.length = e.length := by omega
            rw [hlen] at hbuf hs₁ h
            split at h
            · cases h
            · rename_i d₁ hd₁
              rw [hbuf] at hd₁
              exact ih hs₁ (Source.size_read hsize hread) (hd.write (by omega) hd₁) hrest hz' h

end Block

/-! ## The whole copy -/

section Whole

variable {content : Nat → UInt8} {total o requestSize : Nat} {extents : Bool} {s : Source}
  {orig d : Dest}

/-- The result is there as soon as the counter allows one round for each byte that is left. -/
def Ends (left : Nat) (run : Nat → Option (Except Stopped (Source × Dest)))
    (P : Source → Dest → Prop) : Prop :=
  ∃ r, (∀ fuel, left < fuel → run fuel = some r) ∧ ∀ s d, r = .ok (s, d) → P s d

theorem blockExtents_ok (hs : s.At content total o) (hsize : s.size ≠ none) {count : Nat}
    (hcount : 0 < count) (hle : o + count ≤ total) {exts : List Extent} {s₁ : Source}
    (h : blockExtents extents s o count = .ok (exts, s₁)) :
    Tiles Extent.offset Extent.length o (o + count) exts ∧ ZeroTrue content exts ∧
      s₁.At content total o ∧ s₁.size ≠ none := by
  cases extents with
  | true =>
    obtain ⟨htiles, hz, hs₁⟩ := hs.getExtents hcount hle h
    exact ⟨htiles, hz, hs₁, fun hnone => hsize ((Source.size_getExtents h).symm.trans hnone)⟩
  | false =>
    cases h
    refine ⟨⟨rfl, hcount, rfl⟩, fun e he hz => ?_, hs, hsize⟩
    rw [List.mem_singleton.mp he] at hz
    cases hz

/-- **The loop over the blocks** ends, and has copied everything unless it was stopped. -/
theorem synchBlocks_ends (hr : 0 < requestSize) (hs : s.At content total o) (hsize : s.size ≠ none)
    (hd : orig.Got content total o d) (hle : o ≤ total) :
    Ends (total - o) (fun fuel => synchBlocks requestSize extents total fuel s d o)
      fun _ d' => orig.Got content total total d' := by
  induction hm : total - o using Nat.strong_induction_on generalizing o s d with
  | _ m ih =>
    subst hm
    -- one round, with any counter that is left
    have hround : ∀ r, (∀ k, total - o ≤ k →
          synchBlocks requestSize extents total (k + 1) s d o = some r) →
        ∀ fuel, total - o < fuel → synchBlocks requestSize extents total fuel s d o = some r := by
      intro r hk fuel hfuel
      rw [show fuel = fuel - 1 + 1 by omega]
      exact hk _ (by omega)
    by_cases hlt : o < total
    · obtain ⟨count, hcount⟩ : ∃ count, min (total - o) requestSize = count := ⟨_, rfl⟩
      cases hfound : blockExtents extents s o count with
      | error e =>
        refine ⟨.error e, hround _ fun k _ => ?_, fun _ _ heq => by cases heq⟩
        simp only [synchBlocks, if_pos hlt, hcount, hfound]
      | ok x =>
        obtain ⟨exts, s₁⟩ := x
        obtain ⟨htiles, hz, hs₁, hsize₁⟩ := blockExtents_ok hs hsize (by omega) (by omega) hfound
        cases hblock : synchExtents count exts s₁ d o with
        | error e =>
          refine ⟨.error e, hround _ fun k _ => ?_, fun _ _ heq => by cases heq⟩
          simp only [synchBlocks, if_pos hlt, hcount, hfound, hblock]
        | ok y =>
          obtain ⟨s₂, d₂, stop⟩ := y
          obtain ⟨rfl, hs₂, hsize₂, hd₂⟩ :=
            synchExtents_got hs₁ hsize₁ hd htiles hz (by omega) hblock
          obtain ⟨r, hrun, hend⟩ := ih (total - (o + count)) (by omega) hs₂ hsize₂ hd₂ (by omega) rfl
          refine ⟨r, hround _ fun k hk => ?_, hend⟩
          simp only [synchBlocks, if_pos hlt, hcount, hfound, hblock]
          exact hrun k (by omega)
    · obtain rfl : o = total := by omega
      refine ⟨.ok (s, d), hround _ fun k _ => ?_, fun s' d' heq => ?_⟩
      · rw [synchBlocks, if_neg hlt]
      · cases heq
        exact hd

/-- **The loop over a stream** ends with the stream. -/
theorem synchStream_ends (hr : 0 < requestSize) (hs : s.At content total o) (hsize : s.size = none)
    (hd : orig.Got content total o d) (hle : o ≤ total) :
    Ends (total - o) (fun fuel => synchStream requestSize fuel s d o)
      fun _ d' => orig.Got content total total d' := by
  induction hm : total - o using Nat.strong_induction_on generalizing o s d with
  | _ m ih =>
    subst hm
    have hround : ∀ r, (∀ k, total - o ≤ k → synchStream requestSize (k + 1) s d o = some r) →
        ∀ fuel, total - o < fuel → synchStream requestSize fuel s d o = some r := by
      intro r hk fuel hfuel
      rw [show fuel = fuel - 1 + 1 by omega]
      exact hk _ (by omega)
    cases hread : s.synchRead requestSize o with
    | error e =>
      refine ⟨.error e, hround _ fun k _ => ?_, fun _ _ heq => by cases heq⟩
      simp only [synchStream, hread]
    | ok x =>
      obtain ⟨buf, s₁⟩ := x
      obtain ⟨hbuf, -, hs₁⟩ := hs.read hread
      obtain ⟨hsize₁, hend, hstop⟩ := hs.read_pipe hsize hread
      by_cases hpos : buf.length > 0
      · cases hwrite : d.synchWrite buf o with
        | error e =>
          refine ⟨.error e, hround _ fun k _ => ?_, fun _ _ heq => by cases heq⟩
          simp only [synchStream, hread, if_pos hpos, hwrite]
        | ok d₁ =>
          rw [hbuf] at hwrite
          have hd₁ := hd.write hend hwrite
          obtain ⟨r, hrun, hdone⟩ := ih (total - (o + buf.length)) (by omega) hs₁ hsize₁ hd₁ hend rfl
          refine ⟨r, hround _ fun k hk => ?_, hdone⟩
          rw [← hbuf] at hwrite
          simp only [synchStream, hread, if_pos hpos, hwrite]
          exact hrun k (by omega)
      · obtain rfl : o = total := hstop hr (by omega)
        refine ⟨.ok (s₁, d), hround _ fun k _ => ?_, fun _ _ heq => ?_⟩
        · simp only [synchStream, hread, if_neg hpos]
        · cases heq
          exact hd

/-- **Synchronous copying is exact**: for every kind of source and destination, `synch_copying`
ends, and if it was not stopped then the destination has got all the bytes of the source in
order and is otherwise unchanged, whatever the extents, the short reads and the short
writes. -/
theorem synch_copying_exact (hr : 0 < requestSize) (hs : s.At content total 0) (d : Dest) :
    Ends total (fun fuel => synchCopying requestSize extents fuel s d)
      fun _ d' => d.Got content total total d' := by
  have hd := d.got_zero content total
  cases hsize : s.size with
  | none =>
    simp only [synchCopying, hsize]
    exact synchStream_ends hr hs hsize hd (Nat.zero_le _)
  | some size =>
    have hne : s.size ≠ none := by
      rw [hsize]
      exact Option.some_ne_none size
    obtain rfl : size = total := Option.some.inj (hsize.symm.trans (hs.size hne))
    simp only [synchCopying, hsize]
    exact synchBlocks_ends hr hs hne hd (Nat.zero_le _)

end Whole

/-- Data between two holes, read by three bytes at a time. -/
def holeySource : FileSource where
  size := 12
  content q := if 4 ≤ q ∧ q < 8 then 7 else 0
  isData := middleBlock.isData
  seekHoleSupported := true
  seek := middleSeek
  pread _ _ := some 3
  reads := 0

theorem holeySource_at : (Source.file holeySource).At holeySource.content 12 0 := by
  refine ⟨rfl, rfl, middleSeek_documented, fun q _ hq => if_neg fun hin => ?_⟩
  rw [show holeySource.isData q = decide (4 ≤ q ∧ q < 8) from rfl, decide_eq_false_iff_not] at hq
  exact hq hin

/-- A pipe that takes two bytes at a time. -/
def narrowPipe : PipeDest := ⟨[9], fun _ _ => some 2, 0⟩

/-- A server with the same bytes that describes them up to the next border. -/
def holeyServer : NbdSource where
  size := 12
  content := holeySource.content
  pread _ := true
  reads := 0
  blockStatus _ _ offset _ :=
    some [⟨baseAllocation, [if offset < 4 then ⟨4 - offset, 3⟩
      else if offset < 8 then ⟨8 - offset, 0⟩ else ⟨12 - offset, 3⟩], 0⟩]
  asks := 0

theorem holeyServer_at : (Source.nbd holeyServer).At holeySource.content 12 0 := by
  refine ⟨rfl, rfl, fun k i offset count invs hs => ?_⟩
  cases hs
  intro e he hzero q hlo hhi
  have hmem : e ∈ addExtents offset [if offset < 4 then ⟨4 - offset, 3⟩
      else if offset < 8 then ⟨8 - offset, 0⟩ else ⟨12 - offset, 3⟩] := by
    simpa [Invocation.extents] using he
  obtain rfl := List.mem_singleton.mp hmem
  refine if_neg fun hin => ?_
  dsimp only at hzero hlo hhi
  split at hzero
  · rename_i hlt
    rw [if_pos hlt] at hhi
    dsimp only at hhi
    omega
  · rename_i hge
    split at hzero
    · exact absurd (show ((0 : UInt64) &&& stateZero != 0) = true from hzero) (by decide)
    · omega

/-- The copy has gone to a pipe and was not stopped. -/
def Piped : Except Stopped (Source × Dest) → Bool
  | .ok (_, .pipe _) => true
  | _ => false

/-- What has come out of the pipe. -/
theorem Ends.piped {s : Source} {content : Nat → UInt8}
    (hends : Ends 12 (fun fuel => synchCopying 8 true fuel s (.pipe narrowPipe))
      fun _ d => Dest.Got (.pipe narrowPipe) content 12 12 d)
    (heval : (synchCopying 8 true 13 s (.pipe narrowPipe)).map Piped = some true) :
    ∃ s' p, synchCopying 8 true 13 s (.pipe narrowPipe) = some (.ok (s', .pipe p)) ∧
      p.written = 9 :: bytesOf content 0 12 := by
  obtain ⟨r, hrun, hend⟩ := hends
  have hr : synchCopying 8 true 13 s (.pipe narrowPipe) = some r := hrun 13 (by decide)
  rw [hr] at heval ⊢
  cases r with
  | error e => cases heval
  | ok x =>
    obtain ⟨s', d⟩ := x
    cases d with
    | pipe p =>
      obtain ⟨p₀, hp₀, hgot⟩ := hend s' (.pipe p) rfl
      cases hp₀
      exact ⟨s', p, rfl, hgot⟩
    | _ => cases heval

/-- A file and a server, in blocks of eight bytes. -/
theorem synch_copying_exact_holes :
    bytesOf holeySource.content 0 12 = [0, 0, 0, 0, 7, 7, 7, 7, 0, 0, 0, 0] ∧
    ∀ s, s = Source.file holeySource ∨ s = .nbd holeyServer → ∃ s' p,
      synchCopying 8 true 13 s (.pipe narrowPipe) = some (.ok (s', .pipe p)) ∧
        p.written = 9 :: bytesOf holeySource.content 0 12 := by
  refine ⟨by decide +kernel, fun s hs => ?_⟩
  rcases hs with rfl | rfl
  · exact (synch_copying_exact (by decide) holeySource_at (.pipe narrowPipe)).piped (by decide +kernel)
  · exact (synch_copying_exact (by decide) holeyServer_at (.pipe narrowPipe)).piped (by decide +kernel)

end Libnbd.Copy
