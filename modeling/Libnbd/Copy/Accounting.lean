import Libnbd.Copy.Worker
import Mathlib.Algebra.Order.BigOperators.Group.List
import Mathlib.Algebra.Order.Group.Nat

/-!
The queue size of a worker of nbdcopy, and the references to its buffers, as long as the
callbacks of a worker do not overlap with what it does itself.
-/

namespace Libnbd.Copy

open Lib

/-! ## What is counted -/

/-- Bytes of a read that have still to be handed on. -/
def Frame.remaining : Frame → Nat
  | .finishedRead _ parts => (parts.map Part.len).sum
  | .fill _ _ => 0

def Frame.command : Frame → Command
  | .finishedRead c _ => c
  | .fill c _ => c

def Pc.commands : Pc → List Command
  | .wait _ c => [c]
  | _ => []

/-- The commands that have not been freed. -/
def Worker.live (w : Worker) : List Command :=
  w.pc.commands ++ (w.reads ++ (w.writes ++ (w.zeroes ++ w.frames.map Frame.command)))

/-- Bytes of the reads in progress and of the data commands that have not been written. A
read that is being split counts with what is left of it. -/
def Worker.queued (w : Worker) : Nat :=
  (w.reads.map Command.len).sum + (w.frames.map Frame.remaining).sum +
    (w.writes.map Command.len).sum

/-- The command points to the buffer. -/
def Command.points (b : Nat) (c : Command) : Nat := if c.buffer = some b then 1 else 0

/-- Number of live commands that point to the buffer. -/
def Worker.holders (w : Worker) (b : Nat) : Nat := (w.live.map (Command.points b)).sum

/-- Nothing is being read or written. -/
def Worker.Idle (w : Worker) : Prop := w.reads = [] ∧ w.writes = [] ∧ w.frames = []

/-! ## The invariant -/

/-- References recorded in the buffer; none for a buffer that does not exist. -/
def refs (bs : List Buffer) (b : Nat) : Nat := (bs[b]?.map Buffer.refs).getD 0

/-- A range read lies inside the source. -/
def Pc.Inside (cfg : Config) : Pc → Prop
  | .scan r => r.offset + r.count ≤ cfg.size
  | .data r => r.offset + r.count ≤ cfg.size
  | .wait r c => r.offset + r.count ≤ cfg.size ∧ c.buffer ≠ none ∧ c.offset = r.offset ∧
      c.len ≤ r.count
  | _ => True

/-- Only what is read or written has a buffer. -/
def Frame.Typed : Frame → Prop
  | .finishedRead c _ => c.buffer ≠ none
  | .fill c _ => c.buffer = none

structure Typed (cfg : Config) (w : Worker) : Prop where
  pc : w.pc.Inside cfg
  reads : ∀ c ∈ w.reads, c.buffer ≠ none ∧ c.offset + c.len ≤ cfg.size
  writes : ∀ c ∈ w.writes, c.buffer ≠ none
  zeroes : ∀ c ∈ w.zeroes, c.buffer = none
  frames : ∀ f ∈ w.frames, f.Typed

structure Accounted (w : Worker) : Prop where
  queue : w.queueSize = w.queued
  refs : ∀ b, refs w.buffers b = w.holders b
  frees : ∀ buf ∈ w.buffers, buf.frees = if buf.refs = 0 then 1 else 0

section Typed

variable {cfg : Config} {w w' : Worker} {next next' : Nat} {ops : List DstOp}

theorem mem_of_eraseIdx {α : Type} {P : α → Prop} {l : List α} (h : ∀ a ∈ l, P a) (k : Nat) :
    ∀ a ∈ l.eraseIdx k, P a := fun a ha => h a (List.mem_of_mem_eraseIdx ha)

theorem Typed.flush (h : Typed cfg w) (r : Range) : Typed cfg (w.flush r) := by
  unfold Worker.flush
  split
  · exact h
  · exact { h with frames := List.forall_mem_cons.mpr ⟨rfl, h.frames⟩ }

theorem Typed.top (h : Typed cfg w) {f : Frame} {fs : List Frame} (hf : w.frames = f :: fs) :
    f.Typed ∧ ∀ g ∈ fs, g.Typed := List.forall_mem_cons.mp (hf ▸ h.frames)

theorem Typed.move (h : Typed cfg w) (hm : Moves cfg w next w' next' ops) : Typed cfg w' := by
  have hpc := h.pc
  cases hm with
  | fetch hf hw hnext hn =>
    refine { h with pc := ?_ }
    simp only [Pc.Inside]
    omega
  | exhausted hf hw hnext => exact { h with pc := trivial }
  | rangeEnd hf hw hcount => exact { h.flush _ with pc := trivial }
  | zeroes hf hw hcount hlen hz =>
    refine { h with pc := ?_ }
    simp only [hw, Pc.Inside] at hpc ⊢
    omega
  | data hf hw hcount hlen hz =>
    refine { h.flush _ with pc := ?_ }
    simpa only [hw, Pc.Inside] using hpc
  | create hf hw =>
    refine { h with pc := ?_ }
    simp only [hw, Pc.Inside] at hpc ⊢
    exact ⟨hpc, nofun, trivial, by omega⟩
  | start hf hw hslot hqueue =>
    simp only [hw, Pc.Inside] at hpc
    obtain ⟨hin, hbuf, hoff, hle⟩ := hpc
    refine { h with pc := ?_, reads := List.forall_mem_cons.mpr ⟨⟨hbuf, by omega⟩, h.reads⟩ }
    simp only [Pc.Inside]
    omega
  | drained hf hw hidle => exact { h with pc := trivial }
  | splitEnd hf hb => exact { h with frames := (h.top hf).2 }
  | splitZero hf hz hin hqueue =>
    obtain ⟨htop, hrest⟩ := h.top hf
    refine { h with frames := ?_ }
    exact List.forall_mem_cons.mpr ⟨rfl, List.forall_mem_cons.mpr ⟨htop, hrest⟩⟩
  | splitData hf hz hin hb hbuf hlive =>
    obtain ⟨htop, hrest⟩ := h.top hf
    refine { h with
      writes := List.forall_mem_cons.mpr ⟨htop, h.writes⟩
      frames := List.forall_mem_cons.mpr ⟨htop, hrest⟩ }
  | fillSkip hf ht hb => exact { h with frames := (h.top hf).2 }
  | fillZero hf ht =>
    obtain ⟨htop, hrest⟩ := h.top hf
    exact { h with zeroes := List.forall_mem_cons.mpr ⟨htop, h.zeroes⟩, frames := hrest }
  | fillSlow hf ht =>
    obtain ⟨htop, hrest⟩ := h.top hf
    exact { h with frames := List.forall_mem_cons.mpr ⟨htop, hrest⟩ }
  | fillWrite hf hpos hlen =>
    obtain ⟨htop, hrest⟩ := h.top hf
    exact { h with frames := List.forall_mem_cons.mpr ⟨htop, hrest⟩ }
  | fillEnd hf hlen hb => exact { h with frames := (h.top hf).2 }
  | readWhole hk hb hbuf hlive hwhole =>
    have hc := h.reads _ (List.mem_of_getElem? hk)
    exact { h with
      reads := mem_of_eraseIdx h.reads _
      writes := List.forall_mem_cons.mpr ⟨hc.1, h.writes⟩ }
  | readSplit hk hb hbuf hlive hsparse =>
    have hc := h.reads _ (List.mem_of_getElem? hk)
    exact { h with
      reads := mem_of_eraseIdx h.reads _
      frames := List.forall_mem_cons.mpr ⟨hc.1, h.frames⟩ }
  | writeDone hk hb hbuf hlive hdata hqueue =>
    exact { h with writes := mem_of_eraseIdx h.writes _ }
  | zeroDone hk hqueue hb => exact { h with zeroes := mem_of_eraseIdx h.zeroes _ }

end Typed

/-! ## The queue size -/

section Queue

variable {cfg : Config} {w w' : Worker} {next next' : Nat} {ops : List DstOp}

theorem sum_eraseIdx {α : Type} (f : α → Nat) {l : List α} {k : Nat} {a : α} (h : l[k]? = some a) :
    (l.map f).sum = f a + ((l.eraseIdx k).map f).sum := by
  obtain ⟨hk, rfl⟩ := List.getElem?_eq_some_iff.mp h
  exact ((List.getElem_cons_eraseIdx_perm hk).map f).sum_nat.symm

theorem sum_tiles {a b : Nat} {ps : List Part} (h : Tiles Part.offset Part.len a b ps) :
    (ps.map Part.len).sum = b - a := by
  induction ps generalizing a with
  | nil =>
    cases h
    simp
  | cons p ps ih =>
    obtain ⟨-, -, hrest⟩ := h
    have := hrest.le
    simp only [List.map_cons, List.sum_cons, ih hrest]
    omega

/-- The parts of a read add up to the read. -/
theorem splitParts_sum (cfg : Config) (hs : cfg.sizes.sparseSize ≠ 0) {c : Command}
    (hc : c.offset + c.len ≤ cfg.size) (data : List UInt8) :
    ((splitParts data c.offset (c.offset + c.len) cfg.sizes.sparseSize).map Part.len).sum = c.len := by
  have hpow := cfg.sizesOk.2.1.resolve_left hs
  have hsize := cfg.sizeOk
  rw [sum_tiles (splitParts_tiles data hpow cfg.sparseFits (by omega) (by omega))]
  omega

@[simp] theorem remaining_finishedRead (c : Command) (ps : List Part) :
    (Frame.finishedRead c ps).remaining = (ps.map Part.len).sum := rfl

@[simp] theorem remaining_fill (c : Command) (n : Option Nat) : (Frame.fill c n).remaining = 0 := rfl

theorem flush_remaining (w : Worker) (r : Range) :
    ((w.flush r).frames.map Frame.remaining).sum = (w.frames.map Frame.remaining).sum := by
  unfold Worker.flush
  split
  · rfl
  · simp

theorem queue_move (ht : Typed cfg w) (h : w.queueSize = w.queued)
    (hm : Moves cfg w next w' next' ops) : w'.queueSize = w'.queued := by
  unfold Worker.queued at h ⊢
  cases hm with
  | fetch hf hw hnext hn => exact h
  | exhausted hf hw hnext => exact h
  | rangeEnd hf hw hcount => simpa [flush_remaining] using h
  | zeroes hf hw hcount hlen hz => exact h
  | data hf hw hcount hlen hz => simpa [flush_remaining] using h
  | create hf hw => exact h
  | start hf hw hslot hqueue =>
    simp only [List.map_cons, List.sum_cons]
    omega
  | drained hf hw hidle => exact h
  | splitEnd hf hb => simpa [hf] using h
  | splitZero hf hz hin hqueue =>
    simp only [hf, List.map_cons, List.sum_cons, remaining_finishedRead, remaining_fill] at h ⊢
    omega
  | splitData hf hz hin hb hbuf hlive =>
    simp only [hf, List.map_cons, List.sum_cons, remaining_finishedRead] at h ⊢
    omega
  | fillSkip hf hz hb => simpa [hf] using h
  | fillZero hf hz => simpa [hf] using h
  | fillSlow hf hz => simpa [hf] using h
  | fillWrite hf hpos hlen => simpa [hf] using h
  | fillEnd hf hlen hb => simpa [hf] using h
  | readWhole hk hb hbuf hlive hwhole =>
    rw [sum_eraseIdx Command.len hk] at h
    simp only [List.map_cons, List.sum_cons]
    omega
  | readSplit hk hb hbuf hlive hsparse =>
    have hin := (ht.reads _ (List.mem_of_getElem? hk)).2
    rw [sum_eraseIdx Command.len hk] at h
    simp only [List.map_cons, List.sum_cons, remaining_finishedRead,
      splitParts_sum cfg hsparse hin]
    omega
  | writeDone hk hb hbuf hlive hdata hqueue =>
    rw [sum_eraseIdx Command.len hk] at h
    simp only
    omega
  | zeroDone hk hqueue hb =>
    have hnone := ht.zeroes _ (List.mem_of_getElem? hk)
    rcases hqueue with ⟨-, rfl⟩ | ⟨hsome, -⟩
    · exact h
    · exact absurd hnone hsome

end Queue

/-! ## The references -/

section Refs

variable {cfg : Config} {w w' : Worker} {next next' : Nat} {ops : List DstOp} {c : Command}
  {bs bs' : List Buffer} {b : Nat} {buf : Buffer}

theorem refs_set (hbuf : bs[b]? = some buf) (new : Buffer) (b' : Nat) :
    refs (bs.set b new) b' = if b = b' then new.refs else refs bs b' := by
  obtain ⟨hb, -⟩ := List.getElem?_eq_some_iff.mp hbuf
  unfold refs
  by_cases h : b = b'
  · subst h
    simp [hb]
  · simp [h]

theorem refs_append (bs : List Buffer) (b : Nat) :
    refs (bs ++ [({} : Buffer)]) b = refs bs b + if bs.length = b then 1 else 0 := by
  unfold refs
  rcases Nat.lt_trichotomy b bs.length with h | rfl | h
  · rw [List.getElem?_append_left h, if_neg (by omega), Nat.add_zero]
  · simp
  · rw [List.getElem?_eq_none (by simp; omega), List.getElem?_eq_none (by omega),
      if_neg (by omega), Nat.add_zero]

theorem points_some (hb : c.buffer = some b) (b' : Nat) :
    c.points b' = if b = b' then 1 else 0 := by
  simp [Command.points, hb]

theorem points_none (hb : c.buffer = none) (b : Nat) : c.points b = 0 := by
  simp [Command.points, hb]

theorem refs_of_getElem? (hbuf : bs[b]? = some buf) : refs bs b = buf.refs := by
  simp [refs, hbuf]

theorem refs_filled (hbuf : bs[b]? = some buf) (data : Option (List UInt8)) (b' : Nat) :
    refs (bs.set b { buf with data := data }) b' = refs bs b' := by
  rw [refs_set hbuf]
  split
  · next heq => rw [← heq, refs_of_getElem? hbuf]
  · rfl

/-- A freed command no longer counts. -/
theorem Released.refs (h : Released c bs bs') (hpos : ∀ b, c.points b ≤ refs bs b) (b : Nat) :
    refs bs' b + c.points b = Copy.refs bs b := by
  rcases h with ⟨hnone, rfl⟩ | ⟨b₀, buf, hb, hbuf, -, rfl⟩
  · rw [points_none hnone, Nat.add_zero]
  · have hpos := hpos b₀
    rw [points_some hb, if_pos rfl, refs_of_getElem? hbuf] at hpos
    rw [refs_set hbuf, points_some hb]
    split
    · next heq =>
      subst heq
      rw [refs_of_getElem? hbuf]
      simp only [Worker.dropRef]
      omega
    · rfl

theorem holders_eq (w : Worker) (b : Nat) :
    w.holders b = (w.pc.commands.map (Command.points b)).sum +
      ((w.reads.map (Command.points b)).sum + ((w.writes.map (Command.points b)).sum +
        ((w.zeroes.map (Command.points b)).sum +
          (w.frames.map fun f => f.command.points b).sum))) := by
  simp only [Worker.holders, Worker.live, List.map_append, List.sum_append, List.map_map]
  rfl

theorem points_le_holders (hc : c ∈ w.live) (b : Nat) : c.points b ≤ w.holders b :=
  List.le_sum_of_mem (List.mem_map_of_mem hc)

@[simp] theorem command_finishedRead (ps : List Part) :
    (Frame.finishedRead c ps).command = c := rfl

@[simp] theorem command_fill (n : Option Nat) : (Frame.fill c n).command = c := rfl

theorem flush_points (w : Worker) (r : Range) (b : Nat) :
    ((w.flush r).frames.map fun f => f.command.points b).sum
      = (w.frames.map fun f => f.command.points b).sum := by
  unfold Worker.flush
  split
  · rfl
  · simp [Command.points]

theorem mem_live_of_reads (h : c ∈ w.reads) : c ∈ w.live := by
  simp [Worker.live, h]

theorem mem_live_of_writes (h : c ∈ w.writes) : c ∈ w.live := by
  simp [Worker.live, h]

theorem mem_live_of_zeroes (h : c ∈ w.zeroes) : c ∈ w.live := by
  simp [Worker.live, h]

theorem mem_live_of_frames {f : Frame} {fs : List Frame} (h : w.frames = f :: fs) :
    f.command ∈ w.live := by
  simp [Worker.live, h]

theorem refs_move (h : ∀ b, refs w.buffers b = w.holders b)
    (hm : Moves cfg w next w' next' ops) (b : Nat) : refs w'.buffers b = w'.holders b := by
  have hheld : ∀ c ∈ w.live, ∀ b, c.points b ≤ refs w.buffers b := by
    intro c hc b
    rw [h b]
    exact points_le_holders hc b
  have hb₀ := h b
  rw [holders_eq] at hb₀ ⊢
  cases hm with
  | fetch hf hw hnext hn => simpa [hw, Pc.commands] using hb₀
  | exhausted hf hw hnext => simpa [hw, Pc.commands] using hb₀
  | rangeEnd hf hw hcount => simpa [hw, Pc.commands, flush_points] using hb₀
  | zeroes hf hw hcount hlen hz => simpa [hw, Pc.commands] using hb₀
  | data hf hw hcount hlen hz => simpa [hw, Pc.commands, flush_points] using hb₀
  | create hf hw =>
    rw [refs_append]
    simp only [hw, Pc.commands, List.map_nil, List.sum_nil, List.map_cons, List.sum_cons,
      Command.points, Option.some.injEq] at hb₀ ⊢
    omega
  | start hf hw hslot hqueue =>
    simp only [hw, Pc.commands, List.map_cons, List.sum_cons, List.map_nil, List.sum_nil] at hb₀ ⊢
    omega
  | drained hf hw hidle => simpa [hw, Pc.commands] using hb₀
  | splitEnd hf hb =>
    have := hb.refs (hheld _ (mem_live_of_frames hf)) b
    simp only [hf, List.map_cons, List.sum_cons, command_finishedRead] at hb₀ this ⊢
    omega
  | splitZero hf hz hin hqueue =>
    simp only [hf, List.map_cons, List.sum_cons, command_finishedRead, command_fill] at hb₀ ⊢
    rw [points_none rfl, Nat.zero_add]
    exact hb₀
  | @splitData c p ps fs b₁ buf hf hz hin hb hbuf hlive =>
    have hold := refs_of_getElem? hbuf
    have hsub : Command.points b ⟨p.offset, p.len, p.offset - c.offset, c.buffer⟩ = c.points b := rfl
    simp only [hf, List.map_cons, List.sum_cons, command_finishedRead] at hb₀ ⊢
    rw [refs_set hbuf, hsub]
    rw [points_some hb] at hb₀ ⊢
    split
    · next heq =>
      subst heq
      rw [if_pos rfl] at hb₀
      simp only
      omega
    · next hne =>
      rw [if_neg hne] at hb₀
      omega
  | fillSkip hf hz hb =>
    have := hb.refs (hheld _ (mem_live_of_frames hf)) b
    simp only [hf, List.map_cons, List.sum_cons, command_fill] at hb₀ this ⊢
    omega
  | fillZero hf hz =>
    simp only [hf, List.map_cons, List.sum_cons, command_fill] at hb₀ ⊢
    omega
  | fillSlow hf hz =>
    simp only [hf, List.map_cons, List.sum_cons, command_fill] at hb₀ ⊢
    exact hb₀
  | fillWrite hf hpos hlen =>
    simp only [hf, List.map_cons, List.sum_cons, command_fill] at hb₀ ⊢
    exact hb₀
  | fillEnd hf hlen hb =>
    have := hb.refs (hheld _ (mem_live_of_frames hf)) b
    simp only [hf, List.map_cons, List.sum_cons, command_fill] at hb₀ this ⊢
    omega
  | readWhole hk hb hbuf hlive hwhole =>
    rw [sum_eraseIdx _ hk] at hb₀
    rw [refs_filled hbuf]
    simp only [List.map_cons, List.sum_cons]
    omega
  | readSplit hk hb hbuf hlive hsparse =>
    rw [sum_eraseIdx _ hk] at hb₀
    rw [refs_filled hbuf]
    simp only [List.map_cons, List.sum_cons, command_finishedRead]
    omega
  | writeDone hk hb hbuf hlive hdata hqueue =>
    have hrel : Released _ w.buffers _ := .inr ⟨_, _, hb, hbuf, hlive, rfl⟩
    have := hrel.refs (hheld _ (mem_live_of_writes (List.mem_of_getElem? hk))) b
    rw [sum_eraseIdx _ hk] at hb₀
    simp only
    omega
  | zeroDone hk hqueue hb =>
    have := hb.refs (hheld _ (mem_live_of_zeroes (List.mem_of_getElem? hk))) b
    rw [sum_eraseIdx _ hk] at hb₀
    simp only
    omega

/-- A buffer is freed when its last reference goes, and not before. -/
def FreedOnce (bs : List Buffer) : Prop :=
  ∀ buf ∈ bs, buf.frees = if buf.refs = 0 then 1 else 0

theorem FreedOnce.set (h : FreedOnce bs) {new : Buffer}
    (hnew : new.frees = if new.refs = 0 then 1 else 0) : FreedOnce (bs.set b new) := by
  intro buf hbuf
  rcases List.mem_or_eq_of_mem_set hbuf with hmem | rfl
  · exact h buf hmem
  · exact hnew

theorem FreedOnce.drop (h : FreedOnce bs) (hlive : buf.frees = 0) :
    FreedOnce (bs.set b (Worker.dropRef buf)) := by
  refine h.set ?_
  simp only [Worker.dropRef, hlive, Nat.zero_add]

theorem FreedOnce.release (h : FreedOnce bs) (hrel : Released c bs bs') : FreedOnce bs' := by
  rcases hrel with ⟨-, rfl⟩ | ⟨b, buf, -, -, hlive, rfl⟩
  · exact h
  · exact h.drop hlive

theorem FreedOnce.move (h : FreedOnce w.buffers) (hm : Moves cfg w next w' next' ops) :
    FreedOnce w'.buffers := by
  cases hm with
  | rangeEnd hf hw hcount => simpa using h
  | data hf hw hcount hlen hz => simpa using h
  | create hf hw =>
    intro buf hbuf
    rcases List.mem_append.mp hbuf with hmem | hmem
    · exact h buf hmem
    · obtain rfl := List.mem_singleton.mp hmem
      rfl
  | splitEnd hf hb => exact h.release hb
  | splitData hf hz hin hb hbuf hlive => exact h.set hlive
  | fillSkip hf ht hb => exact h.release hb
  | fillEnd hf hlen hb => exact h.release hb
  | readWhole hk hb hbuf hlive hwhole =>
    have hold := h _ (List.mem_of_getElem? hbuf)
    exact h.set hold
  | readSplit hk hb hbuf hlive hsparse =>
    have hold := h _ (List.mem_of_getElem? hbuf)
    exact h.set hold
  | writeDone hk hb hbuf hlive hdata hqueue => exact h.drop hlive
  | zeroDone hk hqueue hb => exact h.release hb
  | _ => exact h

end Refs

/-! ## Every reachable state -/

section Reachable

variable {cfg : Config} {w w' : Worker} {next next' : Nat} {ops : List DstOp} {c : Command}

theorem Accounted.move (ht : Typed cfg w) (h : Accounted w) (hm : Moves cfg w next w' next' ops) :
    Accounted w' :=
  ⟨queue_move ht h.queue hm, refs_move h.refs hm, FreedOnce.move h.frees hm⟩

theorem typed_start (cfg : Config) : Typed cfg {} := ⟨trivial, nofun, nofun, nofun, nofun⟩

theorem accounted_start : Accounted {} := ⟨rfl, fun _ => rfl, nofun⟩

/-- The buffer of a live command is there. -/
theorem Accounted.bufferOf (h : Accounted w) (hc : c ∈ w.live) (hb : c.buffer ≠ none) :
    ∃ x, w.bufferOf c = .ok x := by
  obtain ⟨b, hb⟩ := Option.ne_none_iff_exists'.mp hb
  have hpoints := points_le_holders hc b
  rw [points_some hb, if_pos rfl, ← h.refs b] at hpoints
  cases hbuf : w.buffers[b]? with
  | none =>
    rw [Copy.refs, hbuf] at hpoints
    cases hpoints
  | some buf =>
    rw [refs_of_getElem? hbuf] at hpoints
    have hfrees := h.frees buf (List.mem_of_getElem? hbuf)
    rw [if_neg (by omega)] at hfrees
    exact ⟨(b, buf), by simp [Worker.bufferOf, hb, hbuf, hfrees]⟩

theorem Accounted.freeCommand (h : Accounted w) (hc : c ∈ w.live) (v : Worker)
    (hv : v.buffers = w.buffers) : ∃ w', v.freeCommand c = .ok w' := by
  unfold Worker.freeCommand
  split
  · exact ⟨v, rfl⟩
  · next hsome =>
    obtain ⟨⟨b, buf⟩, hx⟩ := h.bufferOf hc (by simpa using hsome)
    have hv : v.bufferOf c = .ok (b, buf) := by
      rw [← hx]
      simp only [Worker.bufferOf, hv]
    exact ⟨v.setBuffer b (Worker.dropRef buf), by rw [hv]; rfl⟩

/-- Why a worker may still halt: it waits, its extents do not describe the range, a part
does not lie in its command, or a buffer is written that has never been read into. -/
inductive Fails (cfg : Config) (w : Worker) : Halt → Prop
  | blocked : Fails cfg w .blocked
  | onlyZeroes {r : Range} (hpc : w.pc = .scan r) (hcount : r.count ≠ 0)
      (h : onlyZeroes r.exts r.extentIndex r.offset (min r.count cfg.sizes.requestSize) = none) :
      Fails cfg w (.failed .onlyZeroes)
  | subcommand {c : Command} {p : Part} {ps : List Part} {fs : List Frame}
      (hf : w.frames = .finishedRead c (p :: ps) :: fs) (h : ¬ p.In c) :
      Fails cfg w (.failed .subcommand)
  | unfilled {c : Command} {b : Nat} {buf : Buffer} (hc : c ∈ w.writes) (hb : c.buffer = some b)
      (hbuf : w.buffers[b]? = some buf) (hdata : buf.data = none) : Fails cfg w .unfilled

theorem bind_error {α β : Type} {x : Except Halt α} {f : α → Except Halt β} {halt : Halt}
    (h : (do let a ← x; f a) = .error halt) : x = .error halt ∨ ∃ a, x = .ok a ∧ f a = .error halt := by
  cases x with
  | error e =>
    cases h
    exact .inl rfl
  | ok a => exact .inr ⟨a, rfl, h⟩

theorem runLoop_fails {halt : Halt} (h : w.runLoop cfg next = .error halt) : Fails cfg w halt := by
  unfold Worker.runLoop at h
  split at h
  · split at h
    · next hnext =>
      simp only [Worker.workCount_eq] at h
      rw [if_pos (by simp only [threadWorkSize]; omega)] at h
      cases h
    · cases h
  · next r hpc =>
    split at h
    · cases h
    · next hcount =>
      simp only at h
      split at h
      · next hz =>
        cases h
        exact .onlyZeroes hpc hcount hz
      · cases h
      · cases h
  · cases h
  · split at h
    · cases h
      exact .blocked
    · next hslot =>
      -- the assertion is what `wait_for_request_slots` has waited for
      rcases bind_error h with h | ⟨v, -, h⟩
      · unfold Worker.increaseQueueSize at h
        rw [if_pos (by omega)] at h
        cases h
      · cases h
  · split at h
    · cases h
      exact .blocked
    · cases h
  · cases h
    exact .blocked

theorem Accounted.decreaseQueueSize (h : Accounted w) {len : Nat} (hlen : len ≤ w.queued) (v : Worker)
    (hv : v.queueSize = w.queueSize) : ∃ w', v.decreaseQueueSize len = .ok w' := by
  have := h.queue
  exact ⟨_, if_pos (by omega)⟩

theorem createSubcommand_fails (h : Accounted w) (hc : c ∈ w.live) (hb : c.buffer ≠ none) {p : Part}
    {halt : Halt} (hs : w.createSubcommand c p = .error halt) :
    halt = .failed .subcommand ∧ ¬ p.In c := by
  unfold Worker.createSubcommand at hs
  split at hs
  · next hlo =>
    cases hs
    exact ⟨rfl, fun hin => hlo ⟨hin.1, hin.2.1⟩⟩
  · split at hs
    · next hhi =>
      cases hs
      exact ⟨rfl, fun hin => hhi hin.2.2⟩
    · split at hs
      · cases hs
      · obtain ⟨x, hx⟩ := h.bufferOf hc hb
        rw [hx] at hs
        cases hs

theorem runFrame_fails (ht : Typed cfg w) (h : Accounted w) {f : Frame} {fs : List Frame}
    {efficient : Bool} {halt : Halt} (hf : w.frames = f :: fs)
    (hs : w.runFrame cfg next efficient fs f = .error halt) : Fails cfg w halt := by
  have hlive := mem_live_of_frames hf
  have hfree : ∀ w', { w with frames := fs }.freeCommand f.command = .error w' → False := by
    intro w' herr
    obtain ⟨v, hok⟩ := h.freeCommand hlive { w with frames := fs } rfl
    rw [hok] at herr
    cases herr
  unfold Worker.runFrame at hs
  split at hs
  · rcases bind_error hs with hs | ⟨v, -, hs⟩
    · exact (hfree _ hs).elim
    · cases hs
  · next c p ps =>
    rcases bind_error hs with hs | ⟨⟨v, sub⟩, hv, hs⟩
    · obtain ⟨rfl, hin⟩ := createSubcommand_fails h hlive (ht.top hf).1 hs
      exact .subcommand hf hin
    · obtain ⟨-, ⟨hz, hx⟩ | ⟨hz, b, buf, hb, hbuf, hfrees, hx⟩⟩ := Worker.createSubcommand_ok hv
      · cases hx
        simp only [hz, if_true] at hs
        rcases bind_error hs with hs | ⟨u, -, hs⟩
        · have hlen : p.len ≤ w.queued := by
            simp only [Worker.queued, hf, List.map_cons, List.sum_cons, remaining_finishedRead]
            omega
          obtain ⟨u, hok⟩ := h.decreaseQueueSize hlen w rfl
          rw [hok] at hs
          cases hs
        · cases hs
      · cases hx
        simp only [hz, Bool.false_eq_true, if_false] at hs
        cases hs
  · split at hs
    · rcases bind_error hs with hs | ⟨v, -, hs⟩
      · exact (hfree _ hs).elim
      · cases hs
    · split at hs
      · cases hs
      · cases hs
  · split at hs
    · cases hs
    · rcases bind_error hs with hs | ⟨v, -, hs⟩
      · exact (hfree _ hs).elim
      · cases hs

/-- The command that completes still counts for its buffer. -/
theorem Accounted.finishedCommand (h : Accounted w) (hc : c ∈ w.live)
    (hlen : c.buffer ≠ none → c.len ≤ w.queued) (v : Worker) (hq : v.queueSize = w.queueSize)
    (hv : v.buffers = w.buffers) : ∃ w', v.finishedCommand c = .ok w' := by
  unfold Worker.finishedCommand
  simp only
  split
  · next hsome =>
    have hle := hlen (Option.isSome_iff_ne_none.mp hsome)
    have hok : v.decreaseQueueSize c.len = .ok { v with queueSize := v.queueSize - c.len } := by
      have := h.queue
      exact if_pos (by omega)
    rw [hok]
    exact h.freeCommand hc _ hv
  · exact h.freeCommand hc v hv

theorem step_fails (ht : Typed cfg w) (h : Accounted w) {a : Action} {halt : Halt}
    (hs : w.step cfg next a = .error halt) : Fails cfg w halt := by
  cases a with
  | run efficient =>
    simp only [Worker.step] at hs
    split at hs
    · exact runLoop_fails hs
    · next f fs hf => exact runFrame_fails ht h hf hs
  | readDone k =>
    simp only [Worker.step] at hs
    split at hs
    · cases hs
      exact .blocked
    · next c hk =>
      have hmem := List.mem_of_getElem? hk
      obtain ⟨x, hx⟩ := h.bufferOf (mem_live_of_reads hmem) (ht.reads c hmem).1
      unfold Worker.finishedRead at hs
      rcases bind_error hs with hs | ⟨y, -, hs⟩
      · exact absurd (hx.symm.trans hs) (by simp)
      · simp only at hs
        split at hs <;> cases hs
  | writeDone k =>
    simp only [Worker.step] at hs
    split at hs
    · cases hs
      exact .blocked
    · next c hk =>
      have hmem := List.mem_of_getElem? hk
      obtain ⟨⟨b, buf⟩, hx⟩ := h.bufferOf (mem_live_of_writes hmem) (ht.writes c hmem)
      have hlen : c.len ≤ w.queued := by
        rw [Worker.queued, sum_eraseIdx Command.len hk]
        omega
      unfold Worker.finishedWrite at hs
      rcases bind_error hs with hs | ⟨y, hy, hs⟩
      · exact absurd (hx.symm.trans hs) (by simp)
      · obtain rfl : (b, buf) = y := Except.ok.inj (hx.symm.trans hy)
        simp only at hs
        split at hs
        · next hdata =>
          obtain ⟨hb, hbuf, -⟩ := Worker.bufferOf_ok hx
          cases hs
          exact .unfilled hmem hb hbuf hdata
        · obtain ⟨v, hv⟩ := h.finishedCommand (mem_live_of_writes hmem) (fun _ => hlen)
            { w with writes := w.writes.eraseIdx k } rfl rfl
          rw [hv] at hs
          cases hs
  | zeroDone k =>
    simp only [Worker.step] at hs
    split at hs
    · cases hs
      exact .blocked
    · next c hk =>
      have hmem := List.mem_of_getElem? hk
      obtain ⟨v, hv⟩ := h.finishedCommand (mem_live_of_zeroes hmem)
        (fun hb => absurd (ht.zeroes c hmem) hb) { w with zeroes := w.zeroes.eraseIdx k } rfl rfl
      rw [hv] at hs
      cases hs

/-- What holds of every worker as long as each step keeps it holds of every worker of
every reachable state. -/
theorem reachable_workers {P : Worker → Prop} (hstart : P {})
    (hmove : ∀ w next w' next' ops, P w → Moves cfg w next w' next' ops → P w') {s : Copying}
    (h : (copying cfg).Reachable s) : ∀ w ∈ s.workers, P w := by
  refine (copying cfg).reachable_invariant (P := fun s => ∀ w ∈ s.workers, P w) ?_ ?_ h
  · rintro s ⟨threads, -, rfl⟩ w hw
    obtain rfl := List.eq_of_mem_replicate hw
    exact hstart
  · intro s l s' hs hstep v hv
    obtain ⟨i, w, w', next', ops, hw, hm, rfl⟩ := copying_step hstep
    rcases List.mem_or_eq_of_mem_set hv with hmem | rfl
    · exact hs v hmem
    · exact hmove w s.next v next' ops (hs w (List.mem_of_getElem? hw)) hm

theorem reachable_accounted {s : Copying} (h : (copying cfg).Reachable s) {w : Worker}
    (hw : w ∈ s.workers) : Typed cfg w ∧ Accounted w :=
  reachable_workers (P := fun w => Typed cfg w ∧ Accounted w) ⟨typed_start cfg, accounted_start⟩
    (fun _ _ _ _ _ h hm => ⟨h.1.move hm, h.2.move h.1 hm⟩) h w hw

/-- For every worker, in every state that any order of starts and completions leads to:
the queue size is what is being read and what has not been written yet, and is zero when the
worker is idle; no assertion on it fails and no freed buffer is used, whatever happens next;
and each buffer counts the live commands that point to it, and has been freed once if there
are none and not at all otherwise. -/
theorem worker_accounting (cfg : Config) {s : Copying} (h : (copying cfg).Reachable s) {w : Worker}
    (hw : w ∈ s.workers) :
    w.queueSize = w.queued ∧ (w.Idle → w.queueSize = 0) ∧
      (∀ a halt, w.step cfg s.next a = .error halt → halt ≠ .failed .increaseQueueSize ∧
        halt ≠ .failed .decreaseQueueSize ∧ halt ≠ .badBuffer) ∧
      ∀ b buf, w.buffers[b]? = some buf → buf.refs = w.holders b ∧
        buf.frees = if w.holders b = 0 then 1 else 0 := by
  obtain ⟨ht, ha⟩ := reachable_accounted h hw
  refine ⟨ha.queue, ?_, ?_, ?_⟩
  · rintro ⟨hreads, hwrites, hframes⟩
    rw [ha.queue]
    simp [Worker.queued, hreads, hwrites, hframes]
  · intro a halt hs
    cases step_fails ht ha hs <;> exact ⟨nofun, nofun, nofun⟩
  · intro b buf hbuf
    have hrefs := ha.refs b
    rw [refs_of_getElem? hbuf] at hrefs
    have hfrees := ha.frees buf (List.mem_of_getElem? hbuf)
    rw [hrefs] at hfrees
    exact ⟨hrefs, hfrees⟩

end Reachable

end Libnbd.Copy
