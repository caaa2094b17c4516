import Libnbd.Copy.Accounting

/-!
Workers that copy exactly.

Every position of the source is at any time in one place: not handed out yet, in the work
range of a worker, in a command, in the rest of a read that is being split, or done. All of
a worker's data is right: a buffer holds the bytes of the range it was read from, and a range
that is to be zeroed is zero in the source.
-/

namespace Libnbd.Copy

open Lib

/-! ## The extents of a work range -/

/-- The extents from `e` on follow each other without a gap, up to `b` at least. -/
def Reaches (b : Nat) : Extent → List Extent → Prop
  | e, [] => b ≤ e.offset + e.length
  | e, f :: es => f.offset = e.offset + e.length ∧ Reaches b f es

/-- The extents cover `[a, b)` contiguously, and only zeroes are marked as zero. -/
structure Describes (src : Nat → UInt8) (exts : List Extent) (a b : Nat) : Prop where
  cover : ∃ e es, exts = e :: es ∧ e.offset ≤ a ∧ Reaches b e es
  zero : ∀ e ∈ exts, e.zero = true → ∀ q, e.offset ≤ q → q < e.offset + e.length →
    a ≤ q → q < b → src q = 0

section Extents

variable {src : Nat → UInt8} {exts : List Extent} {a b offset len : Nat}

theorem Reaches.suffix {e f : Extent} {es fs pre : List Extent} (h : Reaches b e es)
    (heq : e :: es = pre ++ f :: fs) : Reaches b f fs := by
  induction pre generalizing e es with
  | nil =>
    cases heq
    exact h
  | cons p pre ih =>
    obtain ⟨rfl, hes⟩ := List.cons.inj heq
    cases es with
    | nil => simp at hes
    | cons g gs => exact ih h.2 hes

/-- The first loop stops at the last extent that starts at or before the offset. -/
theorem seekExtent_stops {e : Extent} (es : List Extent) (i : Nat) (he : e.offset ≤ offset) :
    ∃ pre f fs, e :: es = pre ++ f :: fs ∧ f.offset ≤ offset ∧ (∀ g ∈ fs.head?, offset < g.offset) ∧
      seekExtent offset es i = i + pre.length := by
  induction es generalizing e i with
  | nil => exact ⟨[], e, [], rfl, he, nofun, rfl⟩
  | cons g gs ih =>
    unfold seekExtent
    split
    · next hg =>
      obtain ⟨pre, f, fs, heq, hf, hnext, hi⟩ := ih (i + 1) hg
      refine ⟨e :: pre, f, fs, by rw [heq, List.cons_append], hf, hnext, ?_⟩
      rw [hi, List.length_cons]
      omega
    · next hg =>
      refine ⟨[], e, g :: gs, rfl, he, ?_, rfl⟩
      intro g' hg'
      cases hg'
      omega

/-- The second loop finds data unless the whole range is zero. -/
theorem searchData_finds {e : Extent} {es : List Extent} (h : Reaches b e es)
    (hend : offset < e.offset + e.length) (hb : offset + len ≤ b)
    (hzero : ∀ f ∈ e :: es, f.zero = true → ∀ q, f.offset ≤ q → q < f.offset + f.length →
      offset ≤ q → q < offset + len → src q = 0) :
    ∃ r, searchData offset len (e :: es) = some r ∧
      (r = true → ∀ q, e.offset ≤ q → offset ≤ q → q < offset + len → src q = 0) := by
  induction es generalizing e with
  | nil =>
    unfold searchData
    rw [if_neg (by omega)]
    split
    · exact ⟨true, rfl, fun _ q _ _ hq => by omega⟩
    · split
      · exact ⟨false, rfl, nofun⟩
      · next hz =>
        refine ⟨true, rfl, fun _ q hq ho hlt => ?_⟩
        have hreach : b ≤ e.offset + e.length := h
        exact hzero e List.mem_cons_self (by simpa using hz) q hq (by omega) ho hlt
  | cons f fs ih =>
    obtain ⟨hf, hrest⟩ := h
    unfold searchData
    rw [if_neg (by omega)]
    split
    · exact ⟨true, rfl, fun _ q _ _ hq => by omega⟩
    · split
      · exact ⟨false, rfl, nofun⟩
      · next hz =>
        obtain ⟨r, hr, hsound⟩ := ih hrest (by omega)
          fun g hg => hzero g (List.mem_cons_of_mem _ hg)
        refine ⟨r, hr, fun htrue q hq ho hlt => ?_⟩
        by_cases hin : q < e.offset + e.length
        · exact hzero e List.mem_cons_self (by simpa using hz) q hq hin ho hlt
        · exact hsound htrue q (by omega) ho hlt

/-- The extent that the index of a work range points to. -/
def Indexed (exts : List Extent) (i offset : Nat) : Prop := ∃ e, exts[i]? = some e ∧ e.offset ≤ offset

/-- The index moves to the extent that holds the offset, no assertion about it fails, and the
search for data starts there. -/
theorem onlyZeroes_found {i : Nat} {e₀ : Extent} {es₀ : List Extent} (hexts : exts = e₀ :: es₀)
    (hreach : Reaches b e₀ es₀) (hi : Indexed exts i offset) (hb : offset < b) (len : Nat) :
    ∃ front f fs, exts = front ++ f :: fs ∧ Reaches b f fs ∧ f.offset ≤ offset ∧
      offset < f.offset + f.length ∧
      onlyZeroes exts i offset len = (searchData offset len (f :: fs)).map (·, front.length) := by
  obtain ⟨e, hget, he⟩ := hi
  obtain ⟨hlt, hei⟩ := List.getElem?_eq_some_iff.mp hget
  obtain ⟨pre, f, fs, heq, hf, hnext, hseek⟩ := seekExtent_stops (exts.drop (i + 1)) i he
  obtain ⟨front, hfront, hlength⟩ : ∃ front, exts = front ++ f :: fs ∧ front.length = i + pre.length := by
    refine ⟨exts.take i ++ pre, ?_, ?_⟩
    · rw [List.append_assoc, ← heq, ← hei, List.getElem_cons_drop, List.take_append_drop]
    · rw [List.length_append, List.length_take]
      omega
  have hfs : Reaches b f fs := hreach.suffix (hexts ▸ hfront)
  have hgetj : exts[front.length]? = some f := by simp [hfront]
  have hdrop : exts.drop front.length = f :: fs := by simp [hfront]
  -- the extent found ends behind the offset: the next one starts there, or there is none
  have hend : offset < f.offset + f.length ∧
      (front.length = exts.length - 1 ∨ exts[front.length + 1]?.any (fun e => e.offset > offset)) := by
    cases fs with
    | nil =>
      have hlast : b ≤ f.offset + f.length := hfs
      exact ⟨by omega, .inl (by simp [hfront])⟩
    | cons g gs =>
      have hg := hnext g rfl
      have hcont := hfs.1
      exact ⟨by omega, .inr (by simp [hfront, hg])⟩
  refine ⟨front, f, fs, hfront, hfs, hf, hend.1, ?_⟩
  unfold onlyZeroes
  simp only [hget, he, not_true_eq_false, if_false, hseek, ← hlength, hgetj, hf, hend.2, hdrop]

/-- On such extents no assertion fails, the index stays right, and only zeroes pass for
zero. -/
theorem onlyZeroes_sound {i : Nat} (h : Describes src exts a b) (hi : Indexed exts i offset)
    (ha : a ≤ offset) (hlen : 0 < len) (hb : offset + len ≤ b) :
    ∃ r j, onlyZeroes exts i offset len = some (r, j) ∧ Indexed exts j offset ∧
      (r = true → ∀ q, offset ≤ q → q < offset + len → src q = 0) := by
  obtain ⟨e₀, es₀, hexts, -, hreach⟩ := h.cover
  obtain ⟨front, f, fs, hfront, hfs, hf, hend, hcall⟩ :=
    onlyZeroes_found hexts hreach hi (by omega) len
  obtain ⟨r, hr, hsound⟩ := searchData_finds hfs hend hb fun g hg hz q h₁ h₂ h₃ h₄ =>
    h.zero g (hfront ▸ List.mem_append_right _ hg) hz q h₁ h₂ (by omega) (by omega)
  refine ⟨r, front.length, ?_, ⟨f, by simp [hfront], hf⟩,
    fun htrue q ho hlt => hsound htrue q (by omega) ho hlt⟩
  rw [hcall, hr, Option.map_some]

end Extents

/-! ## The data of a worker -/

/-- Zeroes throughout `[a, a + n)`. -/
def ZeroOn (src : Nat → UInt8) (a n : Nat) : Prop := ∀ q, a ≤ q → q < a + n → src q = 0

/-- A read of all that its buffer was allocated for; `org` has the range of each buffer. -/
def Command.Whole (org : List (Nat × Nat)) (c : Command) : Prop :=
  ∃ b, c.buffer = some b ∧ c.base = 0 ∧ org[b]? = some (c.offset, c.len)

/-- The buffer has been read into, and the slice has the bytes of the range of the command. -/
def Command.Loaded (cfg : Config) (org : List (Nat × Nat)) (bs : List Buffer) (c : Command) : Prop :=
  ∃ b o n buf, c.buffer = some b ∧ org[b]? = some (o, n) ∧ bs[b]? = some buf ∧
    buf.data = some (bytesOf cfg.src o n) ∧ c.offset = o + c.base ∧ c.base + c.len ≤ n

structure Range.Exact (cfg : Config) (r : Range) : Prop where
  extents : ∃ a, a ≤ r.offset ∧ Describes cfg.src r.exts a (r.offset + r.count)
  index : Indexed r.exts r.extentIndex r.offset
  zeroing : ∀ z, r.zeroingStart = some z → z ≤ r.offset ∧ ZeroOn cfg.src z (r.offset - z)

def Pc.Exact (cfg : Config) (org : List (Nat × Nat)) : Pc → Prop
  | .scan r => r.Exact cfg
  | .data r => r.Exact cfg ∧ r.zeroingStart = none
  | .wait r c => r.Exact cfg ∧ r.zeroingStart = none ∧ c.Whole org
  | _ => True

def Frame.Exact (cfg : Config) (org : List (Nat × Nat)) (bs : List Buffer) : Frame → Prop
  | .finishedRead c ps => c.Whole org ∧ c.Loaded cfg org bs ∧
      (∃ x, c.offset ≤ x ∧ Tiles Part.offset Part.len x (c.offset + c.len) ps) ∧
      ∀ p ∈ ps, p.Sound cfg.src
  | .fill c _ => ZeroOn cfg.src c.offset c.len

structure Exact (cfg : Config) (org : List (Nat × Nat)) (w : Worker) : Prop where
  length : org.length = w.buffers.length
  pc : w.pc.Exact cfg org
  reads : ∀ c ∈ w.reads, c.Whole org
  writes : ∀ c ∈ w.writes, c.Loaded cfg org w.buffers
  zeroes : ∀ c ∈ w.zeroes, ZeroOn cfg.src c.offset c.len
  frames : ∀ f ∈ w.frames, f.Exact cfg org w.buffers

/-- The operation does to its range what makes it equal to the source. -/
def DstOp.Sound (cfg : Config) : DstOp → Prop
  | .write offset bytes => bytes = bytesOf cfg.src offset bytes.length
  | .zero offset len => ZeroOn cfg.src offset len
  | .skip offset len => ZeroOn cfg.src offset len ∧ cfg.targetIsZero = true

section Data

variable {cfg : Config} {org : List (Nat × Nat)} {w w' : Worker} {next next' : Nat}
  {ops : List DstOp} {c : Command} {bs bs' : List Buffer} {b : Nat} {buf : Buffer}

/-- Buffers that have been read into stay as they are. -/
def Keeps (cfg : Config) (org : List (Nat × Nat)) (bs bs' : List Buffer) : Prop :=
  bs'.length = bs.length ∧ ∀ (b o n : Nat) (buf : Buffer), org[b]? = some (o, n) →
    bs[b]? = some buf → buf.data = some (bytesOf cfg.src o n) →
      ∃ buf' : Buffer, bs'[b]? = some buf' ∧ buf'.data = some (bytesOf cfg.src o n)

theorem Keeps.set (hbuf : bs[b]? = some buf) {new : Buffer} (hnew : new.data = buf.data) :
    Keeps cfg org bs (bs.set b new) := by
  obtain ⟨hb, -⟩ := List.getElem?_eq_some_iff.mp hbuf
  refine ⟨List.length_set, fun b' o n buf' _ hbuf' hdata => ?_⟩
  by_cases h : b = b'
  · subst h
    rw [hbuf] at hbuf'
    cases hbuf'
    exact ⟨new, List.getElem?_set_self hb, hnew.trans hdata⟩
  · exact ⟨buf', by rw [List.getElem?_set_ne h, hbuf'], hdata⟩

theorem Keeps.release (h : Released c bs bs') : Keeps cfg org bs bs' := by
  rcases h with ⟨-, rfl⟩ | ⟨b, buf, -, hbuf, -, rfl⟩
  · exact ⟨rfl, fun _ _ _ buf _ hbuf hdata => ⟨buf, hbuf, hdata⟩⟩
  · exact .set hbuf rfl

/-- Reading into a buffer what it was allocated for. -/
theorem Keeps.fill (hc : c.Whole org) (hb : c.buffer = some b) (hbuf : bs[b]? = some buf) :
    Keeps cfg org bs (bs.set b { buf with data := some (bytesOf cfg.src c.offset c.len) }) := by
  obtain ⟨hlt, -⟩ := List.getElem?_eq_some_iff.mp hbuf
  obtain ⟨b₁, hb₁, -, horg⟩ := hc
  obtain rfl : b = b₁ := by simpa [hb] using hb₁
  refine ⟨List.length_set, fun b' o n buf' horg' hbuf' hdata => ?_⟩
  by_cases h : b = b'
  · subst h
    rw [horg] at horg'
    cases horg'
    exact ⟨_, List.getElem?_set_self hlt, rfl⟩
  · exact ⟨buf', by rw [List.getElem?_set_ne h, hbuf'], hdata⟩

theorem Command.Loaded.keep (h : c.Loaded cfg org bs) (hk : Keeps cfg org bs bs') : c.Loaded cfg org bs' := by
  obtain ⟨b, o, n, buf, hb, horg, hbuf, hdata, hoff, hlen⟩ := h
  obtain ⟨buf', hbuf', hdata'⟩ := hk.2 b o n buf horg hbuf hdata
  exact ⟨b, o, n, buf', hb, horg, hbuf', hdata', hoff, hlen⟩

/-- One more buffer changes nothing for the others. -/
theorem Command.Loaded.append (h : c.Loaded cfg org bs) (x : Nat × Nat) (new : Buffer) :
    c.Loaded cfg (org ++ [x]) (bs ++ [new]) := by
  obtain ⟨b, o, n, buf, hb, horg, hbuf, hrest⟩ := h
  refine ⟨b, o, n, buf, hb, ?_, ?_, hrest⟩
  · exact List.getElem?_append_left (List.getElem?_eq_some_iff.mp horg).1 ▸ horg
  · exact List.getElem?_append_left (List.getElem?_eq_some_iff.mp hbuf).1 ▸ hbuf

theorem Command.Whole.append (h : c.Whole org) (x : Nat × Nat) : c.Whole (org ++ [x]) := by
  obtain ⟨b, hb, hbase, horg⟩ := h
  refine ⟨b, hb, hbase, ?_⟩
  exact List.getElem?_append_left (List.getElem?_eq_some_iff.mp horg).1 ▸ horg

/-- A read that has just been filled. -/
theorem Command.Whole.loaded (h : c.Whole org) (hb : c.buffer = some b) (hbuf : bs[b]? = some buf) :
    c.Loaded cfg org (bs.set b { buf with data := some (bytesOf cfg.src c.offset c.len) }) := by
  obtain ⟨hlt, -⟩ := List.getElem?_eq_some_iff.mp hbuf
  obtain ⟨b₁, hb₁, hbase, horg⟩ := h
  obtain rfl : b = b₁ := by simpa [hb] using hb₁
  exact ⟨b, c.offset, c.len, _, hb, horg, List.getElem?_set_self hlt, rfl, by omega, by omega⟩

theorem Exact.keep (h : Exact cfg org w) (hk : Keeps cfg org w.buffers bs) :
    Exact cfg org { w with buffers := bs } := by
  refine { h with length := ?_, writes := ?_, frames := ?_ }
  · exact h.length.trans hk.1.symm
  · exact fun c hc => (h.writes c hc).keep hk
  · intro f hf
    have hframe := h.frames f hf
    cases f with
    | finishedRead c ps => exact ⟨hframe.1, hframe.2.1.keep hk, hframe.2.2⟩
    | fill c n => exact hframe

theorem Exact.top (h : Exact cfg org w) {f : Frame} {fs : List Frame} (hf : w.frames = f :: fs) :
    f.Exact cfg org w.buffers ∧ ∀ g ∈ fs, g.Exact cfg org w.buffers :=
  List.forall_mem_cons.mp (hf ▸ h.frames)

theorem Exact.flush (h : Exact cfg org w) {r : Range} (hr : r.Exact cfg) :
    Exact cfg org (w.flush r) := by
  unfold Worker.flush
  split
  · exact h
  · next z hz => exact { h with frames := List.forall_mem_cons.mpr ⟨(hr.zeroing z hz).2, h.frames⟩ }

/-- The extents that the source gives for the work ranges. -/
def Config.Described (cfg : Config) : Prop :=
  ∀ a n, 0 < n → a + n ≤ cfg.size → Describes cfg.src (cfg.extents a n) a (a + n)

theorem Config.requestSize_pos (cfg : Config) : 0 < cfg.sizes.requestSize := cfg.sizesOk.1.1

/-- `only_zeroes` answers in a work range. -/
theorem Range.Exact.answers {r : Range} (hr : r.Exact cfg) (hcount : r.count ≠ 0) :
    ∃ x, onlyZeroes r.exts r.extentIndex r.offset (min r.count cfg.sizes.requestSize) = some x ∧
      Indexed r.exts x.2 r.offset ∧
      (x.1 = true → ZeroOn cfg.src r.offset (min r.count cfg.sizes.requestSize)) := by
  have hrequest := cfg.requestSize_pos
  have hpos : 0 < min r.count cfg.sizes.requestSize := by omega
  have hin : r.offset + min r.count cfg.sizes.requestSize ≤ r.offset + r.count := by omega
  obtain ⟨a, ha, hdesc⟩ := hr.extents
  obtain ⟨y, j, hans, hj, hy⟩ := onlyZeroes_sound hdesc hr.index ha hpos hin
  exact ⟨(y, j), hans, hj, hy⟩

/-- What `only_zeroes` has answered in a work range. -/
theorem Range.Exact.answer {r : Range} (hr : r.Exact cfg) (hcount : r.count ≠ 0) {x : Bool} {i len : Nat}
    (hlen : len = min r.count cfg.sizes.requestSize)
    (hz : onlyZeroes r.exts r.extentIndex r.offset len = some (x, i)) :
    Indexed r.exts i r.offset ∧ (x = true → ZeroOn cfg.src r.offset len) := by
  subst hlen
  obtain ⟨y, hans, hi, hy⟩ := hr.answers hcount
  rw [hz] at hans
  cases hans
  exact ⟨hi, hy⟩

theorem Range.Exact.zeroes {r : Range} (hr : r.Exact cfg) {i len : Nat} (hlen : len ≤ r.count)
    (hi : Indexed r.exts i r.offset) (hz : ZeroOn cfg.src r.offset len) :
    Range.Exact cfg ⟨r.offset + len, r.count - len, r.exts, i, some (r.zeroingStart.getD r.offset)⟩ := by
  obtain ⟨a, ha, hdesc⟩ := hr.extents
  obtain ⟨e, he, hle⟩ := hi
  refine ⟨⟨a, by simp only; omega, ?_⟩, ⟨e, he, by simp only; omega⟩, ?_⟩
  · rwa [show r.offset + len + (r.count - len) = r.offset + r.count by omega]
  · rintro z ⟨⟩
    cases hstart : r.zeroingStart with
    | none =>
      refine ⟨Nat.le_add_right _ _, ?_⟩
      simpa using hz
    | some z =>
      obtain ⟨hle, hzero⟩ := hr.zeroing z hstart
      refine ⟨Nat.le_trans hle (Nat.le_add_right _ _), fun q hlo hhi => ?_⟩
      simp only [Option.getD_some] at hlo hhi
      by_cases hq : q < r.offset
      · exact hzero q hlo (by omega)
      · exact hz q (by omega) (by omega)

theorem Range.Exact.advance {r : Range} (hr : r.Exact cfg) {len : Nat} (hlen : len ≤ r.count)
    (hnone : r.zeroingStart = none) :
    Range.Exact cfg { r with offset := r.offset + len, count := r.count - len } := by
  obtain ⟨a, ha, hdesc⟩ := hr.extents
  obtain ⟨e, he, hle⟩ := hr.index
  refine ⟨⟨a, by simp only; omega, ?_⟩, ⟨e, he, by simp only; omega⟩, ?_⟩
  · simp only
    rwa [show r.offset + len + (r.count - len) = r.offset + r.count by omega]
  · simp only [hnone]
    exact nofun

theorem Exact.create (h : Exact cfg org w) {r : Range} (hr : r.Exact cfg) (hnone : r.zeroingStart = none)
    (len : Nat) :
    Exact cfg (org ++ [(r.offset, len)]) { w with
      buffers := w.buffers ++ [{}]
      pc := .wait r ⟨r.offset, len, 0, some w.buffers.length⟩ } := by
  refine { h with length := ?_, pc := ?_, reads := ?_, writes := ?_, frames := ?_ }
  · simp [h.length]
  · refine ⟨hr, hnone, w.buffers.length, rfl, rfl, ?_⟩
    rw [← h.length]
    exact List.getElem?_concat_length
  · exact fun c hc => (h.reads c hc).append _
  · exact fun c hc => (h.writes c hc).append _ _
  · intro f hf
    have hframe := h.frames f hf
    cases f with
    | finishedRead c ps => exact ⟨hframe.1.append _, hframe.2.1.append _ _, hframe.2.2⟩
    | fill c n => exact hframe

/-- The parts of a read that has just finished. -/
theorem splitParts_exact (cfg : Config) (hs : cfg.sizes.sparseSize ≠ 0) {c : Command}
    (hc : c.offset + c.len ≤ cfg.size) :
    Tiles Part.offset Part.len c.offset (c.offset + c.len)
        (splitParts (bytesOf cfg.src c.offset c.len) c.offset (c.offset + c.len) cfg.sizes.sparseSize) ∧
      ∀ p ∈ splitParts (bytesOf cfg.src c.offset c.len) c.offset (c.offset + c.len)
        cfg.sizes.sparseSize, p.Sound cfg.src := by
  have hpow := cfg.sizesOk.2.1.resolve_left hs
  have hsize := cfg.sizeOk
  have hlen : c.len = c.offset + c.len - c.offset := by omega
  refine ⟨splitParts_tiles _ hpow cfg.sparseFits (by omega) (by omega), ?_⟩
  nth_rewrite 1 [hlen]
  exact splitParts_sound hpow cfg.sparseFits (by omega) (by omega)

/-- A part of a command, with its share of the buffer. -/
theorem Command.Loaded.part (h : c.Loaded cfg org bs) (hbase : c.base = 0) {p : Part} (hin : p.In c) :
    Command.Loaded cfg org bs ⟨p.offset, p.len, p.offset - c.offset, c.buffer⟩ := by
  obtain ⟨b, o, n, buf, hb, horg, hbuf, hdata, hoff, hlen⟩ := h
  obtain ⟨hlo, -, hhi⟩ := hin
  refine ⟨b, o, n, buf, hb, horg, hbuf, hdata, ?_, ?_⟩
  · simp only
    omega
  · simp only
    omega

theorem Exact.move (hext : cfg.Described) (ht : Typed cfg w) (h : Exact cfg org w)
    (hm : Moves cfg w next w' next' ops) : ∃ org', Exact cfg org' w' := by
  have hpc := h.pc
  cases hm with
  | @fetch n hf hw hnext hn =>
    have hdesc := hext next n (by simp only [threadWorkSize] at hn; omega) (by omega)
    obtain ⟨e, es, heq, he, -⟩ := hdesc.cover
    have hindex : Indexed (cfg.extents next n) 0 next := ⟨e, by rw [heq]; rfl, he⟩
    exact ⟨org, { h with pc := ⟨⟨next, Nat.le_refl _, hdesc⟩, hindex, (by simp)⟩ }⟩
  | exhausted hf hw hnext => exact ⟨org, { h with pc := trivial }⟩
  | rangeEnd hf hw hcount =>
    rw [hw] at hpc
    exact ⟨org, { h.flush hpc with pc := trivial }⟩
  | zeroes hf hw hcount hlen hz =>
    rw [hw] at hpc
    obtain ⟨hi, hzero⟩ := hpc.answer hcount hlen hz
    exact ⟨org, { h with pc := hpc.zeroes (by omega) hi (hzero rfl) }⟩
  | data hf hw hcount hlen hz =>
    rw [hw] at hpc
    obtain ⟨hi, -⟩ := hpc.answer hcount hlen hz
    exact ⟨org, { h.flush hpc with pc := ⟨⟨hpc.extents, hi, (by simp)⟩, rfl⟩ }⟩
  | create hf hw =>
    rw [hw] at hpc
    exact ⟨_, h.create hpc.1 hpc.2 _⟩
  | @start r c hf hw hslot hqueue =>
    have hin := ht.pc
    rw [hw] at hpc hin
    obtain ⟨hr, hnone, hwhole⟩ := hpc
    obtain ⟨-, -, -, hle⟩ := hin
    refine ⟨org, { h with
      pc := hr.advance hle hnone
      reads := List.forall_mem_cons.mpr ⟨hwhole, h.reads⟩ }⟩
  | drained hf hw hidle => exact ⟨org, { h with pc := trivial }⟩
  | splitEnd hf hb =>
    have hk := h.keep (.release hb)
    exact ⟨org, { hk with frames := (hk.top hf).2 }⟩
  | splitZero hf hz hin hqueue =>
    obtain ⟨⟨hwhole, hloaded, ⟨x, hx, -, -, htiles⟩, hsound⟩, hrest⟩ := h.top hf
    obtain ⟨hp, hps⟩ := List.forall_mem_cons.mp hsound
    refine ⟨org, { h with frames := List.forall_mem_cons.mpr ⟨hp hz, List.forall_mem_cons.mpr ⟨?_, hrest⟩⟩ }⟩
    exact ⟨hwhole, hloaded, ⟨_, Nat.le_trans hx (Nat.le_add_right _ _), htiles⟩, hps⟩
  | @splitData c p ps fs b buf hf hz hin hb hbuf hlive =>
    have hsame : ({ buf with refs := buf.refs + 1 } : Buffer).data = buf.data := rfl
    have hk := h.keep (.set hbuf hsame)
    obtain ⟨⟨hwhole, hloaded, ⟨x, hx, -, -, htiles⟩, hsound⟩, hrest⟩ := hk.top hf
    obtain ⟨-, hps⟩ := List.forall_mem_cons.mp hsound
    refine ⟨org, { hk with
      writes := List.forall_mem_cons.mpr ⟨hloaded.part (hwhole.choose_spec.2.1) hin, hk.writes⟩
      frames := List.forall_mem_cons.mpr ⟨?_, hrest⟩ }⟩
    exact ⟨hwhole, hloaded, ⟨_, Nat.le_trans hx (Nat.le_add_right _ _), htiles⟩, hps⟩
  | fillSkip hf hz hb =>
    have hk := h.keep (.release hb)
    exact ⟨org, { hk with frames := (hk.top hf).2 }⟩
  | fillZero hf hz =>
    obtain ⟨htop, hrest⟩ := h.top hf
    exact ⟨org, { h with zeroes := List.forall_mem_cons.mpr ⟨htop, h.zeroes⟩, frames := hrest }⟩
  | fillSlow hf hz =>
    obtain ⟨htop, hrest⟩ := h.top hf
    exact ⟨org, { h with frames := List.forall_mem_cons.mpr ⟨htop, hrest⟩ }⟩
  | fillWrite hf hpos hlen =>
    obtain ⟨htop, hrest⟩ := h.top hf
    refine ⟨org, { h with frames := List.forall_mem_cons.mpr ⟨fun q hlo hhi => ?_, hrest⟩ }⟩
    simp only at hlo hhi
    exact htop q (by omega) (by omega)
  | fillEnd hf hlen hb =>
    have hk := h.keep (.release hb)
    exact ⟨org, { hk with frames := (hk.top hf).2 }⟩
  | readWhole hk hb hbuf hlive hwhole =>
    have hc := h.reads _ (List.mem_of_getElem? hk)
    have hkeep := h.keep (.fill hc hb hbuf)
    exact ⟨org, { hkeep with
      reads := mem_of_eraseIdx h.reads _
      writes := List.forall_mem_cons.mpr ⟨hc.loaded hb hbuf, hkeep.writes⟩ }⟩
  | readSplit hk hb hbuf hlive hsparse =>
    have hmem := List.mem_of_getElem? hk
    have hc := h.reads _ hmem
    have hkeep := h.keep (.fill hc hb hbuf)
    obtain ⟨htiles, hsound⟩ := splitParts_exact cfg hsparse (ht.reads _ hmem).2
    refine ⟨org, { hkeep with
      reads := mem_of_eraseIdx h.reads _
      frames := List.forall_mem_cons.mpr ⟨?_, hkeep.frames⟩ }⟩
    exact ⟨hc, hc.loaded hb hbuf, ⟨_, Nat.le_refl _, htiles⟩, hsound⟩
  | writeDone hk hb hbuf hlive hdata hqueue =>
    have hkeep := h.keep (.release (.inr ⟨_, _, hb, hbuf, hlive, rfl⟩))
    exact ⟨org, { hkeep with writes := mem_of_eraseIdx hkeep.writes _ }⟩
  | zeroDone hk hqueue hb =>
    have hkeep := h.keep (.release hb)
    exact ⟨org, { hkeep with zeroes := mem_of_eraseIdx h.zeroes _ }⟩

theorem replicate_eq_bytesOf {src : Nat → UInt8} {a n : Nat} (h : ZeroOn src a n) :
    List.replicate n 0 = bytesOf src a n := by
  refine List.ext_getElem (by simp) fun i h₁ h₂ => ?_
  have := h (a + i) (by omega) (by simp at h₁; omega)
  simp [bytesOf, this]

/-- The bytes that a write takes from its buffer. -/
theorem Exact.slice (h : Exact cfg org w) {k : Nat} {data : List UInt8} (hk : w.writes[k]? = some c)
    (hb : c.buffer = some b) (hbuf : w.buffers[b]? = some buf) (hdata : buf.data = some data) :
    (data.drop c.base).take c.len = bytesOf cfg.src c.offset c.len := by
  obtain ⟨b₁, o, n, buf₁, hb₁, -, hbuf₁, hdata₁, hoff, hlen⟩ := h.writes _ (List.mem_of_getElem? hk)
  obtain rfl : b = b₁ := by simpa [hb] using hb₁
  obtain rfl : buf = buf₁ := by simpa [hbuf] using hbuf₁
  obtain rfl : data = bytesOf cfg.src o n := by simpa [hdata] using hdata₁
  rw [bytesOf_slice cfg.src hlen, ← hoff]

/-- What completes at the destination is right. -/
theorem ops_sound (h : Exact cfg org w) (hm : Moves cfg w next w' next' ops) :
    ∀ op ∈ ops, op.Sound cfg := by
  intro op hop
  cases hm with
  | fillSkip hf ht hb =>
    obtain rfl := List.mem_singleton.mp hop
    exact ⟨(h.top hf).1, ht⟩
  | @fillWrite c fs dataSize len hf hpos hlen =>
    obtain rfl := List.mem_singleton.mp hop
    have hzero : ZeroOn cfg.src c.offset len := fun q hlo hhi => (h.top hf).1 q hlo (by omega)
    simp only [DstOp.Sound, List.length_replicate]
    exact replicate_eq_bytesOf hzero
  | @writeDone k b c buf data hk hb hbuf hlive hdata hqueue =>
    obtain rfl := List.mem_singleton.mp hop
    simp only [DstOp.Sound, h.slice hk hb hbuf hdata, bytesOf_length]
  | zeroDone hk hqueue hb =>
    obtain rfl := List.mem_singleton.mp hop
    exact h.zeroes _ (List.mem_of_getElem? hk)
  | _ => cases hop

end Data

/-! ## Where each position is -/

section Cover

variable {cfg : Config} {org : List (Nat × Nat)} {w w' : Worker} {next next' : Nat}
  {ops : List DstOp} (q : Nat)

def Command.cover (c : Command) : Nat := covers q c.offset c.len

def Part.cover (p : Part) : Nat := covers q p.offset p.len

/-- The deferred zeroing of a work range. -/
def Range.deferred (r : Range) : Nat :=
  match r.zeroingStart with
  | none => 0
  | some z => covers q z (r.offset - z)

def Pc.cover : Pc → Nat
  | .scan r | .data r | .wait r _ => r.deferred q + covers q r.offset r.count
  | _ => 0

def Frame.cover : Frame → Nat
  | .finishedRead _ ps => (ps.map (Part.cover q)).sum
  | .fill c _ => c.cover q

/-- How often a worker has the position to deal with. -/
def Worker.cover (w : Worker) : Nat :=
  w.pc.cover q + ((w.reads.map (Command.cover q)).sum + ((w.writes.map (Command.cover q)).sum +
    ((w.zeroes.map (Command.cover q)).sum + (w.frames.map (Frame.cover q)).sum)))

def DstOp.offset : DstOp → Nat
  | .write o _ | .zero o _ | .skip o _ => o

def DstOp.len : DstOp → Nat
  | .write _ bytes => bytes.length
  | .zero _ n | .skip _ n => n

def DstOp.cover (op : DstOp) : Nat := covers q op.offset op.len

/-- What no worker has been given yet. -/
def unclaimed (cfg : Config) (next : Nat) : Nat := covers q next (cfg.size - next)

theorem flush_cover (w : Worker) (r : Range) :
    ((w.flush r).frames.map (Frame.cover q)).sum
      = r.deferred q + (w.frames.map (Frame.cover q)).sum := by
  unfold Worker.flush Range.deferred
  cases r.zeroingStart with
  | none => exact (Nat.zero_add _).symm
  | some z => rfl

theorem unclaimed_fetch {n : Nat} (h : n = min (cfg.size - next) threadWorkSize) :
    covers q next n + unclaimed q cfg (next + threadWorkSize) = unclaimed q cfg next := by
  unfold unclaimed
  by_cases hle : cfg.size - next ≤ threadWorkSize
  · rw [show n = cfg.size - next by omega, show cfg.size - (next + threadWorkSize) = 0 by omega,
      covers_zero, Nat.add_zero]
  · have hmore : threadWorkSize ≤ cfg.size - next := by omega
    rw [show n = threadWorkSize by omega, covers_split hmore q next, Nat.sub_sub]

theorem splitParts_cover (cfg : Config) (hs : cfg.sizes.sparseSize ≠ 0) {c : Command}
    (hc : c.offset + c.len ≤ cfg.size) :
    ((splitParts (bytesOf cfg.src c.offset c.len) c.offset (c.offset + c.len)
      cfg.sizes.sparseSize).map (Part.cover q)).sum = c.cover q := by
  have htiles := (splitParts_exact cfg hs hc).1.covers q
  rwa [Nat.add_sub_cancel_left] at htiles

theorem deferred_zeroes {r : Range} (hr : r.Exact cfg) (len i : Nat) :
    Range.deferred q ⟨r.offset + len, r.count - len, r.exts, i, some (r.zeroingStart.getD r.offset)⟩
      = r.deferred q + covers q r.offset len := by
  unfold Range.deferred
  cases hstart : r.zeroingStart with
  | none =>
    simp only [Option.getD_none, Nat.add_sub_cancel_left, Nat.zero_add]
  | some z =>
    have hle := (hr.zeroing z hstart).1
    simp only [Option.getD_some]
    rw [show r.offset + len - z = r.offset - z + len by omega, covers_add,
      show z + (r.offset - z) = r.offset by omega]

/-- A step moves positions from one place to another. -/
theorem cover_move (ht : Typed cfg w) (h : Exact cfg org w) (hm : Moves cfg w next w' next' ops) :
    w'.cover q + (ops.map (DstOp.cover q)).sum + unclaimed q cfg next'
      = w.cover q + unclaimed q cfg next := by
  have hpc := h.pc
  have hin := ht.pc
  unfold Worker.cover
  cases hm with
  | fetch hf hw hnext hn =>
    have := unclaimed_fetch q hn
    simp only [hw, Pc.cover, Range.deferred, List.map_nil, List.sum_nil]
    omega
  | exhausted hf hw hnext => simp [hw, Pc.cover]
  | rangeEnd hf hw hcount =>
    simp only [hw, Pc.cover, hcount, covers_zero, Worker.flush_reads, Worker.flush_writes,
      Worker.flush_zeroes, flush_cover, List.map_nil, List.sum_nil]
    omega
  | @zeroes r len i hf hw hcount hlen hz =>
    rw [hw] at hpc
    have hle : len ≤ r.count := by omega
    simp only [hw, Pc.cover, deferred_zeroes q hpc len i, covers_split hle q r.offset,
      List.map_nil, List.sum_nil]
    omega
  | data hf hw hcount hlen hz =>
    simp only [hw, Pc.cover, Range.deferred, Worker.flush_reads, Worker.flush_writes,
      Worker.flush_zeroes, flush_cover, List.map_nil, List.sum_nil]
    omega
  | create hf hw => simp [hw, Pc.cover]
  | start hf hw hslot hqueue =>
    rw [hw] at hpc hin
    obtain ⟨-, hnone, -⟩ := hpc
    obtain ⟨-, -, hoff, hle⟩ := hin
    have := covers_split hle q
    simp only [hw, Pc.cover, Range.deferred, hnone, List.map_cons, List.sum_cons, List.map_nil,
      List.sum_nil, Command.cover, hoff, covers_split hle q]
    omega
  | drained hf hw hidle => simp [hw, Pc.cover]
  | splitEnd hf hb => simp [hf, Frame.cover]
  | splitZero hf hz hin hqueue =>
    simp only [hf, List.map_cons, List.sum_cons, Frame.cover, Command.cover, Part.cover,
      List.map_nil, List.sum_nil]
    omega
  | splitData hf hz hin hb hbuf hlive =>
    simp only [hf, List.map_cons, List.sum_cons, Frame.cover, Command.cover, Part.cover,
      List.map_nil, List.sum_nil]
    omega
  | fillSkip hf hz hb =>
    simp only [hf, List.map_cons, List.sum_cons, Frame.cover, Command.cover, DstOp.cover,
      DstOp.offset, DstOp.len, List.map_nil, List.sum_nil]
    omega
  | fillZero hf hz =>
    simp only [hf, List.map_cons, List.sum_cons, Frame.cover, List.map_nil, List.sum_nil]
    omega
  | fillSlow hf hz => simp [hf, Frame.cover]
  | @fillWrite c fs dataSize len hf hpos hlen =>
    have hle : len ≤ c.len := by omega
    simp only [hf, List.map_cons, List.sum_cons, Frame.cover, Command.cover, DstOp.cover,
      DstOp.offset, DstOp.len, List.length_replicate, List.map_nil, List.sum_nil,
      covers_split hle q c.offset]
    omega
  | fillEnd hf hlen hb => simp [hf, Frame.cover, Command.cover, hlen]
  | readWhole hk hb hbuf hlive hwhole =>
    rw [sum_eraseIdx (Command.cover q) hk]
    simp only [List.map_cons, List.sum_cons, List.map_nil, List.sum_nil]
    omega
  | readSplit hk hb hbuf hlive hsparse =>
    have hparts := splitParts_cover q cfg hsparse (ht.reads _ (List.mem_of_getElem? hk)).2
    rw [sum_eraseIdx (Command.cover q) hk]
    simp only [List.map_cons, List.sum_cons, List.map_nil, List.sum_nil, Frame.cover, hparts]
    omega
  | @writeDone k b c buf data hk hb hbuf hlive hdata hqueue =>
    have hlen : ((data.drop c.base).take c.len).length = c.len := by
      rw [h.slice hk hb hbuf hdata, bytesOf_length]
    rw [sum_eraseIdx (Command.cover q) hk]
    simp only [List.map_cons, List.sum_cons, List.map_nil, List.sum_nil, DstOp.cover, DstOp.offset,
      DstOp.len, Command.cover, hlen]
    omega
  | zeroDone hk hqueue hb =>
    rw [sum_eraseIdx (Command.cover q) hk]
    simp only [List.map_cons, List.sum_cons, List.map_nil, List.sum_nil, DstOp.cover, DstOp.offset,
      DstOp.len, Command.cover]
    omega

end Cover

/-! ## The whole copy -/

/-- Bytes of the destination after an operation. -/
def DstOp.apply (dst : Nat → UInt8) : DstOp → Nat → UInt8
  | .write o bytes => fun q => if o ≤ q ∧ q < o + bytes.length then bytes.getD (q - o) 0 else dst q
  | .zero o n => fun q => if o ≤ q ∧ q < o + n then 0 else dst q
  | .skip _ _ => dst

/-- The destination after the operations of the log. -/
def Copying.destination (cfg : Config) (s : Copying) : Nat → UInt8 := s.log.foldl DstOp.apply cfg.dst

/-- The operation is for the position. -/
def DstOp.Holds (op : DstOp) (q : Nat) : Prop := op.offset ≤ q ∧ q < op.offset + op.len

instance (op : DstOp) (q : Nat) : Decidable (op.Holds q) :=
  inferInstanceAs (Decidable (op.offset ≤ q ∧ q < op.offset + op.len))

/-- Every position of the source is in one place. -/
def Copying.cover (cfg : Config) (s : Copying) (q : Nat) : Nat :=
  unclaimed q cfg s.next + ((s.workers.map (Worker.cover q)).sum + (s.log.map (DstOp.cover q)).sum)

structure Copying.Inv (cfg : Config) (s : Copying) : Prop where
  workers : ∀ w ∈ s.workers, Typed cfg w ∧ Accounted w ∧ ∃ org, Exact cfg org w
  log : ∀ op ∈ s.log, op.Sound cfg
  cover : ∀ q, s.cover cfg q = covers q 0 cfg.size

section Whole

variable {cfg : Config} {s s' : Copying}

theorem sum_set {α : Type} (f : α → Nat) {l : List α} {i : Nat} {a : α} (h : l[i]? = some a) (b : α) :
    ((l.set i b).map f).sum + f a = (l.map f).sum + f b := by
  obtain ⟨hi, -⟩ := List.getElem?_eq_some_iff.mp h
  rw [sum_eraseIdx f (List.getElem?_set_self hi), sum_eraseIdx f h, List.eraseIdx_set_eq]
  omega

theorem Copying.Inv.step (hext : cfg.Described) (h : s.Inv cfg) {l : Nat × Action}
    (hs : (copying cfg).step s l = some s') : s'.Inv cfg := by
  obtain ⟨i, w, w', next', ops, hw, hm, rfl⟩ := copying_step hs
  obtain ⟨ht, ha, org, he⟩ := h.workers w (List.mem_of_getElem? hw)
  refine ⟨?_, ?_, ?_⟩
  · intro v hv
    rcases List.mem_or_eq_of_mem_set hv with hmem | rfl
    · exact h.workers v hmem
    · exact ⟨ht.move hm, ha.move ht hm, he.move hext ht hm⟩
  · intro op hop
    rcases List.mem_append.mp hop with hop | hop
    · exact h.log op hop
    · exact ops_sound he hm op hop
  · intro q
    have hmove := cover_move q ht he hm
    have hset := sum_set (Worker.cover q) hw w'
    have hold := h.cover q
    simp only [Copying.cover, List.map_append, List.sum_append] at hold ⊢
    omega

theorem Copying.inv_start {threads : Nat} : Copying.Inv cfg ⟨0, List.replicate threads {}, []⟩ := by
  refine ⟨?_, nofun, ?_⟩
  · intro w hw
    obtain rfl := List.eq_of_mem_replicate hw
    exact ⟨typed_start cfg, accounted_start, [], rfl, trivial, nofun, nofun, nofun, nofun⟩
  · intro q
    have hempty : Worker.cover q {} = 0 := rfl
    simp [Copying.cover, unclaimed, hempty]

theorem reachable_inv (hext : cfg.Described) (h : (copying cfg).Reachable s) : s.Inv cfg := by
  refine (copying cfg).reachable_invariant ?_ (fun _ _ _ h hs => h.step hext hs) h
  rintro s ⟨threads, -, rfl⟩
  exact Copying.inv_start

/-- A worker that has returned has nothing left to do. -/
def Returned (w : Worker) : Prop := w.pc = .done → w.inFlight = 0 ∧ w.frames = []

section Ending

variable {w w' : Worker} {next next' : Nat} {ops : List DstOp}

theorem inFlight_of_mem {c : Command} (h : c ∈ w.reads ∨ c ∈ w.writes ∨ c ∈ w.zeroes) :
    w.inFlight ≠ 0 := by
  unfold Worker.inFlight
  rcases h with h | h | h <;>
  · have := List.length_pos_of_mem h
    omega

theorem Returned.move (h : Returned w) (hm : Moves cfg w next w' next' ops) : Returned w' := by
  intro hdone
  -- whatever the worker still has to do contradicts that it had returned
  have hframe : ∀ f fs, w.frames = f :: fs → w.pc ≠ .done :=
    fun f fs hf hpc => absurd (hf.symm.trans (h hpc).2) nofun
  have hcommand : ∀ c, c ∈ w.reads ∨ c ∈ w.writes ∨ c ∈ w.zeroes → w.pc ≠ .done :=
    fun c hc hpc => inFlight_of_mem hc (h hpc).1
  cases hm with
  | drained hf hw hidle => exact ⟨hidle, hf⟩
  | splitEnd hf hb => exact absurd hdone (hframe _ _ hf)
  | splitZero hf hz hin hqueue => exact absurd hdone (hframe _ _ hf)
  | splitData hf hz hin hb hbuf hlive => exact absurd hdone (hframe _ _ hf)
  | fillSkip hf hz hb => exact absurd hdone (hframe _ _ hf)
  | fillZero hf hz => exact absurd hdone (hframe _ _ hf)
  | fillSlow hf hz => exact absurd hdone (hframe _ _ hf)
  | fillWrite hf hpos hlen => exact absurd hdone (hframe _ _ hf)
  | fillEnd hf hlen hb => exact absurd hdone (hframe _ _ hf)
  | readWhole hk hb hbuf hlive hwhole =>
    exact absurd hdone (hcommand _ (.inl (List.mem_of_getElem? hk)))
  | readSplit hk hb hbuf hlive hsparse =>
    exact absurd hdone (hcommand _ (.inl (List.mem_of_getElem? hk)))
  | writeDone hk hb hbuf hlive hdata hqueue =>
    exact absurd hdone (hcommand _ (.inr (.inl (List.mem_of_getElem? hk))))
  | zeroDone hk hqueue hb =>
    exact absurd hdone (hcommand _ (.inr (.inr (List.mem_of_getElem? hk))))
  | _ => cases hdone

theorem Returned.cover {w : Worker} (h : Returned w) (hdone : w.pc = .done) (q : Nat) :
    w.cover q = 0 := by
  obtain ⟨hidle, hf⟩ := h hdone
  unfold Worker.inFlight at hidle
  have hreads := List.eq_nil_of_length_eq_zero (show w.reads.length = 0 by omega)
  have hwrites := List.eq_nil_of_length_eq_zero (show w.writes.length = 0 by omega)
  have hzeroes := List.eq_nil_of_length_eq_zero (show w.zeroes.length = 0 by omega)
  simp [Worker.cover, hdone, Pc.cover, hreads, hwrites, hzeroes, hf]

theorem Moves.next_le (hm : Moves cfg w next w' next' ops) : next ≤ next' := by
  cases hm <;> omega

/-- Whether the worker has left its loop. -/
def Pc.Left (pc : Pc) : Prop := pc = .drain ∨ pc = .done

/-- It leaves it when there is no more work. -/
theorem Moves.left (hm : Moves cfg w next w' next' ops) (h : w'.pc.Left) :
    w.pc.Left ∨ cfg.size ≤ next := by
  unfold Pc.Left at h ⊢
  cases hm with
  | exhausted hf hw hnext => exact .inr hnext
  | drained hf hw hidle => exact .inl (.inl hw)
  | fetch hf hw hnext hn => simp at h
  | rangeEnd hf hw hcount => simp at h
  | zeroes hf hw hcount hlen hz => simp at h
  | data hf hw hcount hlen hz => simp at h
  | create hf hw => simp at h
  | start hf hw hslot hqueue => simp at h
  | _ => exact .inl h

end Ending

/-- There are workers, and one has only left its loop when everything had been handed out. -/
structure Copying.Ending (cfg : Config) (s : Copying) : Prop where
  workers : s.workers ≠ []
  left : ∀ w ∈ s.workers, w.pc.Left → cfg.size ≤ s.next
  returned : ∀ w ∈ s.workers, Returned w

theorem Copying.Ending.step (h : s.Ending cfg) {l : Nat × Action}
    (hs : (copying cfg).step s l = some s') : s'.Ending cfg := by
  obtain ⟨i, w, w', next', ops, hw, hm, rfl⟩ := copying_step hs
  have hnext := hm.next_le
  have hmem := List.mem_of_getElem? hw
  refine ⟨by simpa using h.workers, ?_, ?_⟩
  · intro v hv hleft
    rcases List.mem_or_eq_of_mem_set hv with hv | rfl
    · exact Nat.le_trans (h.left v hv hleft) hnext
    · rcases hm.left hleft with hold | hsize
      · exact Nat.le_trans (h.left w hmem hold) hnext
      · exact Nat.le_trans hsize hnext
  · intro v hv
    rcases List.mem_or_eq_of_mem_set hv with hv | rfl
    · exact h.returned v hv
    · exact (h.returned w hmem).move hm

theorem reachable_ending (h : (copying cfg).Reachable s) : s.Ending cfg := by
  refine (copying cfg).reachable_invariant ?_ (fun _ _ _ h hs => h.step hs) h
  rintro s ⟨threads, hpos, rfl⟩
  refine ⟨by simpa using Nat.ne_of_gt hpos, ?_, ?_⟩
  · intro w hw hleft
    obtain rfl := List.eq_of_mem_replicate hw
    rcases hleft with hleft | hleft <;> cases hleft
  · intro w hw hdone
    obtain rfl := List.eq_of_mem_replicate hw
    cases hdone

/-- What one right operation leaves. A range may be skipped if it is right already. -/
theorem DstOp.Sound.apply {op : DstOp} (h : op.Sound cfg) {dst : Nat → UInt8} {q : Nat}
    (hskip : op.Holds q → cfg.targetIsZero = true → cfg.src q = 0 → dst q = cfg.src q) :
    op.apply dst q = if op.Holds q then cfg.src q else dst q := by
  by_cases hin : op.Holds q
  · rw [if_pos hin]
    obtain ⟨hlo, hhi⟩ := id hin
    cases op with
    | write o bytes =>
      have hlt : q - o < bytes.length := by
        simp only [DstOp.offset, DstOp.len] at hlo hhi
        omega
      have hback : o + (q - o) = q := Nat.add_sub_cancel' hlo
      have hget : (bytesOf cfg.src o bytes.length).getD (q - o) 0 = cfg.src q := by
        simp [bytesOf, List.getD, hlt, hback]
      rw [← show bytes = bytesOf cfg.src o bytes.length from h] at hget
      exact (if_pos ⟨hlo, hhi⟩).trans hget
    | zero o n => exact (if_pos ⟨hlo, hhi⟩).trans (h q hlo hhi).symm
    | skip o n => exact hskip hin h.2 (h.1 q hlo hhi)
  · rw [if_neg hin]
    cases op with
    | write o bytes => exact if_neg hin
    | zero o n => exact if_neg hin
    | skip o n => rfl

/-- The destination after right operations: the source where there has been one. -/
theorem destination_spec {log : List DstOp} (hlog : ∀ op ∈ log, op.Sound cfg)
    (hzero : cfg.targetIsZero = true → ∀ q < cfg.size, cfg.dst q = 0)
    (hin : ∀ op ∈ log, ∀ q, op.Holds q → q < cfg.size) (q : Nat) :
    log.foldl DstOp.apply cfg.dst q = if ∃ op ∈ log, op.Holds q then cfg.src q else cfg.dst q := by
  induction log using List.reverseRecOn with
  | nil => simp
  | append_singleton log op ih =>
    have hbefore := ih (fun o ho => hlog o (List.mem_append_left _ ho))
      (fun o ho => hin o (List.mem_append_left _ ho))
    have hop : op ∈ log ++ [op] := List.mem_append_right _ List.mem_cons_self
    rw [List.foldl_append, List.foldl_cons, List.foldl_nil, (hlog op hop).apply ?_, hbefore]
    · by_cases hq : op.Holds q
      · rw [if_pos hq, if_pos ⟨op, hop, hq⟩]
      · rw [if_neg hq]
        refine if_congr ?_ rfl rfl
        simp [hq]
    · intro hq ht hsrc
      rw [hbefore]
      split
      · rfl
      · rw [hzero ht q (hin op hop q hq), hsrc]

/-- Positions that are covered once have one operation. -/
theorem countP_holds (log : List DstOp) (q : Nat) :
    log.countP (fun op => op.Holds q) = (log.map (DstOp.cover q)).sum := by
  induction log with
  | nil => rfl
  | cons op log ih =>
    rw [List.countP_cons, ih, List.map_cons, List.sum_cons, Nat.add_comm]
    congr 1
    exact if_congr decide_eq_true_iff rfl rfl

/-- No worker ever does anything but go on or wait. -/
theorem Copying.Inv.blocked (h : s.Inv cfg) {i : Nat} {a : Action} {halt : Halt}
    (hs : s.step cfg i a = .error halt) : halt = .blocked := by
  unfold Copying.step at hs
  split at hs
  · cases hs
    rfl
  · next w hw =>
    obtain ⟨ht, ha, org, he⟩ := h.workers w (List.mem_of_getElem? hw)
    rcases bind_error hs with hs | ⟨e, -, hs⟩
    · cases step_fails ht ha hs with
      | blocked => rfl
      | onlyZeroes hpc hcount hnone =>
        have hr := he.pc
        rw [hpc] at hr
        obtain ⟨x, hx, -⟩ := hr.answers hcount
        rw [hnone] at hx
        cases hx
      | subcommand hf hin =>
        obtain ⟨⟨-, -, ⟨x, hx, htiles⟩, -⟩, -⟩ := he.top hf
        obtain ⟨h₁, h₂⟩ := htiles.mem_range List.mem_cons_self
        have hpos := htiles.2.1
        refine absurd ?_ hin
        unfold Part.In
        omega
      | unfilled hc hb hbuf hdata =>
        obtain ⟨b, o, n, buf, hb', -, hbuf', hdata', -⟩ := he.writes _ hc
        rw [hb] at hb'
        cases hb'
        rw [hbuf] at hbuf'
        cases hbuf'
        rw [hdata] at hdata'
        cases hdata'
    · cases hs

/-- In every order of steps and completions no assertion fails, and when all workers have
returned, every position of the source has had exactly one write or zeroing, or has been
skipped as zero, and what was written is the source. The destination then equals the source,
and is unchanged behind its end. -/
theorem copies_exactly (cfg : Config) (hext : cfg.Described)
    (hzero : cfg.targetIsZero = true → ∀ q < cfg.size, cfg.dst q = 0)
    (h : (copying cfg).Reachable s) :
    (∀ i a halt, s.step cfg i a = .error halt → halt = .blocked) ∧
      ((∀ w ∈ s.workers, w.pc = .done) →
        (∀ q < cfg.size, s.log.countP (fun op => op.Holds q) = 1) ∧
        (∀ op ∈ s.log, op.Sound cfg) ∧
        ∀ q, s.destination cfg q = if q < cfg.size then cfg.src q else cfg.dst q) := by
  have hinv := reachable_inv hext h
  have hending := reachable_ending h
  refine ⟨fun i a halt hs => hinv.blocked hs, fun hdone => ?_⟩
  -- nothing is left anywhere but in the log
  have hcount : ∀ q, s.log.countP (fun op => op.Holds q) = covers q 0 cfg.size := by
    intro q
    have hcover := hinv.cover q
    have hworkers : (s.workers.map (Worker.cover q)).sum = 0 := by
      refine List.sum_eq_zero fun n hn => ?_
      obtain ⟨w, hw, rfl⟩ := List.mem_map.mp hn
      exact (hending.returned w hw).cover (hdone w hw) q
    obtain ⟨w, hw⟩ := List.exists_mem_of_ne_nil _ hending.workers
    have hnext := hending.left w hw (.inr (hdone w hw))
    have hclaimed : unclaimed q cfg s.next = 0 := by
      rw [unclaimed, Nat.sub_eq_zero_of_le hnext, covers_zero]
    rw [Copying.cover, hworkers, hclaimed] at hcover
    rw [countP_holds]
    omega
  have hholds : ∀ q, (∃ op ∈ s.log, op.Holds q) ↔ q < cfg.size := by
    intro q
    have hpos : (∃ op ∈ s.log, op.Holds q) ↔ 0 < s.log.countP (fun op => op.Holds q) := by
      simp [List.countP_pos_iff]
    rw [hpos, hcount]
    unfold covers
    split <;> omega
  refine ⟨fun q hq => ?_, hinv.log, fun q => ?_⟩
  · rw [hcount, covers, if_pos (by omega)]
  · rw [Copying.destination, destination_spec hinv.log hzero
      (fun op hop q hq => (hholds q).mp ⟨op, hop, hq⟩)]
    exact if_congr (hholds q) rfl rfl

/-- Nothing is known to be zero. -/
theorem describes_default (src : Nat → UInt8) (a n : Nat) :
    Describes src (defaultGetExtents a n) a (a + n) := by
  refine ⟨⟨_, [], rfl, Nat.le_refl _, Nat.le_refl _⟩, ?_⟩
  intro e he hz
  obtain rfl := List.mem_singleton.mp he
  cases hz

end Whole

end Libnbd.Copy
