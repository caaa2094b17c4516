import Libnbd.Assertions
import Libnbd.Channels

/-!
How much of a read the replies have covered.

`data_seen` is a 32 bit counter that a chunk adds to only while it is at most the
count of the read. `Counts` relates it to the natural number of bytes that the
replies account for: it is exact up to the count and stays above it afterwards.
The sum over a run is `machine.total (bytesSeen k)`.
-/

namespace Libnbd

open Lib

/-! ## The counter -/

/-- `data_seen` after replies of `n` bytes in all. -/
structure Command.Counts (cmd : Command) (n : Nat) : Prop where
  upTo : n ≤ cmd.count.toNat → cmd.dataSeen.toNat = n
  above : cmd.count.toNat < n → cmd.count.toNat < cmd.dataSeen.toNat

theorem Command.Counts.eq_iff {cmd : Command} {n : Nat} (hc : cmd.Counts n) :
    cmd.dataSeen.toUInt64 = cmd.count ↔ n = cmd.count.toNat := by
  rw [← UInt64.toNat_inj, UInt32.toNat_toUInt64]
  constructor
  · intro heq
    by_contra hne
    rcases Nat.lt_or_ge cmd.count.toNat n with hlt | hle
    · have := hc.above hlt
      omega
    · have := hc.upTo hle
      omega
  · intro heq
    rw [hc.upTo (Nat.le_of_eq heq), heq]

/-- A chunk inside the read. -/
theorem Command.Counts.see {cmd : Command} {n : Nat} {len : UInt32} (hc : cmd.Counts n)
    (hmax : cmd.count.toNat ≤ maxRequestSize) (hlen : len.toNat ≤ cmd.count.toNat) :
    (cmd.see len).Counts (n + len.toNat) := by
  have hmax' : cmd.count.toNat ≤ 67108864 := hmax
  unfold Command.see
  split
  · rename_i hle
    rw [UInt64.le_iff_toNat_le, UInt32.toNat_toUInt64] at hle
    have hn : cmd.dataSeen.toNat = n := by
      rcases Nat.lt_or_ge cmd.count.toNat n with hlt | hge
      · have := hc.above hlt
        omega
      · exact hc.upTo hge
    have hadd : (cmd.dataSeen + len).toNat = n + len.toNat := by
      rw [UInt32.toNat_add, hn]
      exact Nat.mod_eq_of_lt (by omega)
    exact ⟨fun _ => hadd, fun hlt => by rw [hadd]; exact hlt⟩
  · rename_i hgt
    rw [UInt64.le_iff_toNat_le, UInt32.toNat_toUInt64] at hgt
    have hn : cmd.count.toNat < n := by
      by_contra hle
      have := hc.upTo (by omega)
      omega
    exact ⟨fun hle => by omega, fun _ => by omega⟩

theorem Command.see_le {cmd : Command} {len : UInt32} (hmax : cmd.count.toNat ≤ maxRequestSize)
    (hlen : len.toNat ≤ cmd.count.toNat) (hle : cmd.dataSeen.toNat ≤ 2 * cmd.count.toNat) :
    (cmd.see len).dataSeen.toNat ≤ 2 * cmd.count.toNat := by
  have hmax' : cmd.count.toNat ≤ 67108864 := hmax
  unfold Command.see
  split
  · rename_i hseen
    rw [UInt64.le_iff_toNat_le, UInt32.toNat_toUInt64] at hseen
    show (cmd.dataSeen + len).toNat ≤ _
    rw [UInt32.toNat_add, Nat.mod_eq_of_lt (by omega)]
    omega
  · exact hle

/-- A simple reply counts the whole read, whatever was seen before. -/
def Command.seeAll (cmd : Command) : Command :=
  { cmd with dataSeen := cmd.dataSeen + cmd.count.toUInt32 }

theorem Command.seeAll_toNat {cmd : Command} (hmax : cmd.count.toNat ≤ maxRequestSize)
    (hle : cmd.dataSeen.toNat ≤ 2 * cmd.count.toNat) :
    cmd.seeAll.dataSeen.toNat = cmd.dataSeen.toNat + cmd.count.toNat := by
  have hmax' : cmd.count.toNat ≤ 67108864 := hmax
  show (cmd.dataSeen + cmd.count.toUInt32).toNat = _
  have hcount : cmd.count.toUInt32.toNat = cmd.count.toNat := by
    rw [UInt64.toNat_toUInt32]
    exact Nat.mod_eq_of_lt (by omega)
  rw [UInt32.toNat_add, hcount, Nat.mod_eq_of_lt (by omega)]

theorem Command.Counts.seeAll {cmd : Command} {n : Nat} (hc : cmd.Counts n)
    (hmax : cmd.count.toNat ≤ maxRequestSize) (hle : cmd.dataSeen.toNat ≤ 2 * cmd.count.toNat) :
    cmd.seeAll.Counts (n + cmd.count.toNat) := by
  have hadd := seeAll_toNat hmax hle
  constructor
  · intro hn
    have hn' : n + cmd.count.toNat ≤ cmd.count.toNat := hn
    rw [hadd, hc.upTo (by omega)]
  · intro hn
    show cmd.count.toNat < _
    rw [hadd]
    have hn' : cmd.count.toNat < n + cmd.count.toNat := hn
    rcases Nat.lt_or_ge cmd.count.toNat n with hlt | hge
    · have := hc.above hlt
      omega
    · have := hc.upTo hge
      omega

/-! ## Replies -/

/-- The same command, but for its error. -/
def Command.Kept (c d : Command) : Prop := d = { c with error := d.error }

theorem Command.Kept.refl (c : Command) : c.Kept c := rfl

theorem Command.Kept.trans {a b c : Command} (hab : a.Kept b) (hbc : b.Kept c) : a.Kept c := by
  unfold Kept at *
  rw [hbc, hab]

/-- A simple reply to the read `k` is being received, or is complete. -/
def Handle.AnswersAll (h : Handle) (k : Nat) : Prop :=
  h.rx.replyCmd = some k ∧ (h.logical = .simpleRecvReadPayload ∨ h.logical = .replyFinishCommand)

/-- What a reply of `n` bytes makes of a command, on the way to `h'`. -/
inductive Command.Sees (h' : Handle) (c d : Command) : Nat → Prop
  | nothing (hk : c.Kept d) : Sees h' c d 0
  | chunk {offset : UInt64} {len : UInt32}
      (hin : structuredReplyInBounds offset len c = true) (hk : (c.see len).Kept d) :
      Sees h' c d len.toNat
  | whole (ha : h'.AnswersAll c.cookie) (hk : c.seeAll.Kept d) : Sees h' c d c.count.toNat

theorem Command.Sees.sameAs {h' : Handle} {c d : Command} {n : Nat} (hs : c.Sees h' d n) :
    c.SameAs d := by
  unfold SameAs
  cases hs with
  | nothing hk => rw [hk]
  | whole ha hk =>
    rw [hk]
    rfl
  | chunk hin hk =>
    rw [hk]
    unfold Command.see
    split <;> rfl

/-- Bytes of the read that the reply accounts for, in a step from `s`: a simple
reply is about all of them, a chunk that is in bounds about its length. -/
def Outcome.bytesSeen (s : State) : Outcome → Nat
  | .next h' =>
    match s, h'.state with
    | .simpleStart, .simpleRecvReadPayload => h'.rx.rlen
    | .chunkRecvOffsetData, .chunkRecvOffsetDataData => h'.rx.rlen
    | .chunkRecvOffsetHole, .chunkFinish => (h'.rx.payload.be32 8).toNat
    | _, _ => 0
  | _ => 0

/-- Bytes of the command `k` that the replies received in one step account for. -/
def bytesSeen (k : Nat) (c : Config) : Label → Nat
  | .enter inp => if c.h.rx.replyCmd = some k then (enter inp c.h).bytesSeen c.h.state else 0
  | .call .. => 0

/-- The commands in flight are those from before, but for errors. -/
def KeepsInFlight (h h' : Handle) : Prop :=
  ∀ d ∈ h'.q.cmdsInFlight, ∃ c ∈ h.q.cmdsInFlight, c.Kept d

theorem KeepsInFlight.same {h h' : Handle} (hq : h'.q.cmdsInFlight = h.q.cmdsInFlight) :
    KeepsInFlight h h' := by
  intro d hd
  rw [hq] at hd
  exact ⟨d, hd, .refl d⟩

theorem mem_of_mem_setFirst {cmd d : Command} {l : List Command} (hd : d ∈ Handle.setFirst cmd l) :
    d = cmd ∨ d ∈ l := by
  induction l with
  | nil => cases hd
  | cons c cs ih =>
    unfold Handle.setFirst at hd
    split at hd
    · rcases List.mem_cons.mp hd with rfl | hd
      · exact .inl rfl
      · exact .inr (List.mem_cons_of_mem _ hd)
    · rcases List.mem_cons.mp hd with rfl | hd
      · exact .inr List.mem_cons_self
      · exact (ih hd).imp id (List.mem_cons_of_mem _)

/-- The error of the command being replied to changes. -/
theorem KeepsInFlight.setCmd {h₁ h' : Handle} (h : Handle) {cmd d : Command}
    (hl : h.replyRef = .live cmd) (hk : cmd.Kept d) (hq : h₁.q = h.q)
    (hq' : h'.q = (h₁.setCmd d).q) : KeepsInFlight h h' := by
  intro e he
  rw [hq'] at he
  simp only [Handle.setCmd, hq] at he
  rcases mem_of_mem_setFirst he with rfl | he
  · exact ⟨cmd, (findCmd_mem (replyRef_live hl).2).1, hk⟩
  · exact ⟨e, he, .refl e⟩

theorem KeepsInFlight.setError {h₁ h' : Handle} (h : Handle) {cmd : Command}
    (hl : h.replyRef = .live cmd) (e : UInt32) (hq : h₁.q = h.q)
    (hq' : h'.q = (h₁.setCmd { cmd with error := e }).q) : KeepsInFlight h h' :=
  .setCmd h hl (d := { cmd with error := e }) rfl hq hq'

theorem KeepsInFlight.received {h h₁ h' : Handle} (hr : Received h h₁) (hk : KeepsInFlight h₁ h') :
    KeepsInFlight h h' := by
  unfold KeepsInFlight at *
  rwa [(received_same hr).2.2.2.2.1] at hk

theorem recvThen_keeps {inp : Input} {h : Handle} {done : Handle → Outcome}
    (hd : ∀ h', (done h').All (KeepsInFlight h')) : (recvThen inp done h).All (KeepsInFlight h) :=
  recvThen_all (fun _ => .same rfl) (fun _ hr _ _ => .received hr (.same rfl))
    fun h' hr _ => (hd h').mono fun _ hk => .received hr hk

/-! The states that do not count. -/

section Keeps

variable (inp : Input) (h : Handle)

theorem enterReplyStart_keeps : (enterReplyStart inp h).All (KeepsInFlight h) := by
  unfold enterReplyStart
  split
  · split
    · exact require_all fun _ => .same rfl
    · exact .same rfl
  · refine require_all fun _ => ?_
    split
    · exact .same rfl
    · exact .same rfl
    · simp only
      split <;> exact .same rfl

theorem enterReplyRecvReply_keeps : (enterReplyRecvReply inp h).All (KeepsInFlight h) := by
  unfold enterReplyRecvReply
  obtain ⟨e, he⟩ | ⟨h', hrec, -, he⟩ | ⟨h', hrec, -, he⟩ := recvIntoRbuf_cases inp h
  · rw [he]
    exact .same rfl
  · rw [he]
    simp only
    split <;> exact .received hrec (.same rfl)
  · rw [he]
    exact .received hrec (.same rfl)

theorem enterReplyCheckReplyMagic_keeps :
    (enterReplyCheckReplyMagic h).All (KeepsInFlight h) := by
  unfold enterReplyCheckReplyMagic
  simp only
  split
  · split <;> exact .same rfl
  · split
    · split
      · exact .same rfl
      · exact require_all fun _ => .same rfl
    · split
      · split <;> exact .same rfl
      · exact .same rfl

theorem simpleReadPayloadDone_keeps : (simpleReadPayloadDone inp h).All (KeepsInFlight h) := by
  unfold simpleReadPayloadDone
  split
  · trivial
  · trivial
  · rename_i cmd hl
    refine .setCmd h hl ?_ rfl rfl
    split <;> rfl

theorem chunkStartType_keeps {h₀ : Handle} {cmd : Command} (hl : h₀.replyRef = .live cmd)
    (hq : h.q = h₀.q) : (chunkStartType h cmd).All (KeepsInFlight h₀) := by
  have hsame : ∀ {h' : Handle}, h'.q = h.q → KeepsInFlight h₀ h' :=
    fun hq' => .same (by rw [hq', hq])
  unfold chunkStartType chunkStartBlockStatus
  simp only
  split
  · split <;> exact hsame rfl
  · split
    · split <;> exact hsame rfl
    · split
      · split <;> exact hsame rfl
      · split
        · split
          · exact hsame rfl
          · refine require_all fun _ => .setCmd h₀ hl ?_ hq rfl
            split <;> rfl
        · split
          · split <;> exact hsame rfl
          · exact hsame rfl

theorem enterChunkStart_keeps : (enterChunkStart h).All (KeepsInFlight h) := by
  unfold enterChunkStart
  split
  · exact .same rfl
  · split
    · trivial
    · exact .same rfl
    · rename_i cmd hl
      split
      · exact chunkStartType_keeps _ hl rfl
      · exact .same rfl

theorem recvErrorDone_keeps : (recvErrorDone h).All (KeepsInFlight h) := by
  unfold recvErrorDone
  simp only
  refine require_all fun _ => ?_
  split
  · trivial
  · trivial
  · rename_i cmd hl
    split
    · exact .setError { h with rx := _ } hl _ rfl rfl
    · exact .same rfl

theorem recvErrorTailDone_keeps : (recvErrorTailDone inp h).All (KeepsInFlight h) := by
  unfold recvErrorTailDone
  split
  · trivial
  · trivial
  · rename_i cmd hl
    exact .setError h hl _ rfl rfl

theorem callChunk_q (cmd : Command) (e : Event) : ∃ cmd', cmd.Kept cmd' ∧
    (callChunk inp h cmd e).q = (h.setCmd cmd').q := by
  refine ⟨_, ?_, rfl⟩
  split <;> rfl

theorem recvOffsetDataDataDone_keeps :
    (recvOffsetDataDataDone inp h).All (KeepsInFlight h) := by
  unfold recvOffsetDataDataDone
  split
  · trivial
  · trivial
  · rename_i cmd hl
    obtain ⟨cmd', hk, hq⟩ := callChunk_q inp h cmd (.chunk cmd.cookie
      (h.mem.read (cmd.buf + (h.chunkOffset - cmd.offset).toNat) h.rx.payloadLeft) h.chunkOffset
      .data cmd.error)
    exact .setCmd h hl hk rfl hq

theorem recvBsHeaderDone_keeps : (recvBsHeaderDone inp h).All (KeepsInFlight h) := by
  unfold recvBsHeaderDone
  split
  · trivial
  · trivial
  · refine require_all fun _ => require_all fun _ => require_all fun _ => require_all fun _ => ?_
    split
    · exact .same rfl
    · exact ite_all (fun _ => .same rfl) fun _ => .same rfl

theorem recvBsEntriesDone_keeps : (recvBsEntriesDone inp h).All (KeepsInFlight h) := by
  unfold recvBsEntriesDone
  split
  · trivial
  · trivial
  · rename_i cmd hl
    refine require_all fun _ => require_all fun _ => ?_
    split
    · trivial
    · refine require_all fun _ => require_all fun _ => ?_
      split
      · exact .same rfl
      · split
        · trivial
        · exact .setError h hl _ rfl rfl

theorem resyncDone_keeps : (resyncDone h).All (KeepsInFlight h) := by
  unfold resyncDone
  split
  · trivial
  · exact .same rfl
  · rename_i cmd hl
    exact .setError h hl _ rfl rfl

end Keeps

/-! The states that count. -/

/-- Every command in flight has seen what the step from `s` accounts for. -/
def Outcome.Sees (h : Handle) (s : State) (o : Outcome) : Prop :=
  o.All fun h' => ∀ d ∈ h'.q.cmdsInFlight, ∃ c ∈ h.q.cmdsInFlight,
    c.Sees h' d (if h.rx.replyCmd = some c.cookie then o.bytesSeen s else 0)

theorem Outcome.Sees.of_keeps {h : Handle} {s : State} {o : Outcome} (hz : o.bytesSeen s = 0)
    (hk : o.All (KeepsInFlight h)) : o.Sees h s := by
  refine hk.mono fun h' hkeep d hd => ?_
  obtain ⟨c, hc, hcd⟩ := hkeep d hd
  refine ⟨c, hc, ?_⟩
  rw [hz, ite_self]
  exact .nothing hcd

theorem mem_setFirst_cases {cmd d : Command} {l : List Command}
    (hnd : (l.map Command.cookie).Nodup) (hd : d ∈ Handle.setFirst cmd l) :
    d = cmd ∨ d ∈ l ∧ d.cookie ≠ cmd.cookie := by
  induction l with
  | nil => cases hd
  | cons c cs ih =>
    obtain ⟨hc, hnd'⟩ := List.nodup_cons.mp hnd
    unfold Handle.setFirst at hd
    split at hd
    · rename_i hk
      rcases List.mem_cons.mp hd with rfl | hd
      · exact .inl rfl
      · refine .inr ⟨List.mem_cons_of_mem _ hd, fun heq => hc ?_⟩
        rw [hk, ← heq]
        exact List.mem_map_of_mem hd
    · rename_i hk
      rcases List.mem_cons.mp hd with rfl | hd
      · exact .inr ⟨List.mem_cons_self, hk⟩
      · obtain heq | ⟨hm, hne⟩ := ih hnd' hd
        · exact .inl heq
        · exact .inr ⟨List.mem_cons_of_mem _ hm, hne⟩

/-- The command being replied to sees `n` bytes, the others nothing. -/
theorem sees_setFirst {h h' : Handle} {cmd d : Command} {n : Nat}
    (hnd : (h.q.cmdsInFlight.map Command.cookie).Nodup) (hl : h.replyRef = .live cmd)
    (hs : cmd.Sees h' d n) (hk : d.cookie = cmd.cookie) :
    ∀ e ∈ Handle.setFirst d h.q.cmdsInFlight, ∃ c ∈ h.q.cmdsInFlight,
      c.Sees h' e (if h.rx.replyCmd = some c.cookie then n else 0) := by
  obtain ⟨hr, hf⟩ := replyRef_live hl
  intro e he
  rcases mem_setFirst_cases hnd he with rfl | ⟨he, hne⟩
  · refine ⟨cmd, (findCmd_mem hf).1, ?_⟩
    rw [if_pos hr]
    exact hs
  · refine ⟨e, he, ?_⟩
    rw [if_neg]
    · exact .nothing (.refl e)
    · intro heq
      rw [hr] at heq
      exact hne (hk.trans (Option.some.inj heq)).symm

section Sees

variable {inp : Input} {h : Handle}

theorem enterSimpleStart_sees (hnd : (h.q.cmdsInFlight.map Command.cookie).Nodup) :
    (enterSimpleStart h).Sees h .simpleStart := by
  unfold enterSimpleStart
  split
  · trivial
  · split <;> exact .of_keeps rfl (.same rfl)
  · rename_i cmd hl
    simp only
    split
    · rename_i hok
      refine sees_setFirst hnd hl (.whole ⟨(replyRef_live hl).1, .inl rfl⟩ (Eq.refl _)) rfl
    · exact .of_keeps rfl (KeepsInFlight.setError h hl _ rfl rfl)

/-- A payload state: nothing is counted before its payload is complete. -/
theorem recvThen_sees {done : Handle → Outcome} {s : State} (hs : s = .chunkRecvOffsetData ∨
      s = .chunkRecvOffsetHole) (ha : At s h)
    (hd : ∀ h', At s h' → h'.q = h.q → (done h').Sees h' s) : (recvThen inp done h).Sees h s := by
  have hp : s.isPayload = true := by rcases hs with rfl | rfl <;> rfl
  unfold recvThen
  obtain ⟨e, he⟩ | ⟨h', hrec, hlen, he⟩ | ⟨h', hrec, hlen, he⟩ := recvIntoRbuf_cases inp h
  · rw [he]
    refine .of_keeps ?_ (.same rfl)
    rcases hs with rfl | rfl <;> rfl
  · rw [he]
    refine .of_keeps ?_ ?_
    · unfold saveReplyState
      simp only [require]
      split_ifs <;> rcases hs with rfl | rfl <;> rfl
    · exact require_all fun _ => require_all fun _ => require_all fun _ =>
        .received hrec (.same rfl)
  · rw [he]
    obtain ⟨-, -, hcmd, -, hq, -⟩ := received_same hrec
    have := hd h' (ha.received hp hrec) hq
    unfold Outcome.Sees at this ⊢
    rwa [hq, hcmd] at this

theorem recvOffsetDataDone_sees (hnd : (h.q.cmdsInFlight.map Command.cookie).Nodup)
    (ha : At .chunkRecvOffsetData h) : (recvOffsetDataDone h).Sees h .chunkRecvOffsetData := by
  have hle : h.rx.payloadLeft ≤ 67108864 := ha.layout.2
  unfold recvOffsetDataDone
  split
  · trivial
  · trivial
  · rename_i cmd hl
    unfold require
    split
    · simp only
      split
      · rename_i hin
        have hlen : (UInt32.ofNat h.rx.payloadLeft).toNat = h.rx.payloadLeft :=
          UInt32.toNat_ofNat_of_lt' (by simp [UInt32.size]; omega)
        have hsee : ∀ h', cmd.Sees h' (cmd.see (UInt32.ofNat h.rx.payloadLeft))
            h.rx.payloadLeft := by
          intro h'
          have : cmd.Sees h' _ _ := .chunk hin (Command.Kept.refl _)
          rwa [hlen] at this
        refine sees_setFirst hnd hl (hsee _) ?_
        unfold Command.see
        split <;> rfl
      · exact .of_keeps rfl (.same rfl)
    · trivial

theorem recvOffsetHoleDone_sees (hnd : (h.q.cmdsInFlight.map Command.cookie).Nodup) :
    (recvOffsetHoleDone inp h).Sees h .chunkRecvOffsetHole := by
  unfold recvOffsetHoleDone
  split
  · trivial
  · trivial
  · rename_i cmd hl
    unfold require
    split
    · simp only
      split
      · rename_i hin
        refine sees_setFirst hnd hl (.chunk hin ?_) ?_
        · split <;> rfl
        · split <;> (unfold Command.see; split <;> rfl)
      · exact .of_keeps rfl (.same rfl)
    · trivial

/-- The states that add to `data_seen`. -/
def State.isCounting : State → Bool
  | .simpleStart | .chunkRecvOffsetData | .chunkRecvOffsetHole => true
  | _ => false

theorem bytesSeen_of_not_counting {s : State} (hs : s.isCounting = false) (o : Outcome) :
    o.bytesSeen s = 0 := by
  cases o with
  | next h' =>
    cases s <;> first | rfl | cases hs
  | _ => rfl

theorem counting_sees (inp : Input) (hr : RxInv h) (hnd : (h.q.cmdsInFlight.map Command.cookie).Nodup)
    (hs : h.state.isCounting = true) : (enter inp h).Sees h h.state := by
  have hat : h.state.isMid = true → At h.state h := hr.at
  unfold enter
  cases hst : h.state <;> simp only [hst, State.isCounting, Bool.false_eq_true] at hs hat ⊢
  case simpleStart => exact enterSimpleStart_sees hnd
  case chunkRecvOffsetData =>
    exact recvThen_sees (.inl rfl) (hat rfl) fun h' ha hq => recvOffsetDataDone_sees (hq ▸ hnd) ha
  case chunkRecvOffsetHole =>
    exact recvThen_sees (.inr rfl) (hat rfl) fun h' _ hq => recvOffsetHoleDone_sees (hq ▸ hnd)

theorem receiving_keeps (inp : Input) (hs : h.state.isReceiving = true) (hc : h.state.isCounting = false) :
    (enter inp h).All (KeepsInFlight h) := by
  unfold enter
  cases hst : h.state <;>
    simp only [hst, State.isReceiving, State.isCounting, Bool.false_eq_true, Bool.true_eq_false]
      at hs hc ⊢
  case replyStart => exact enterReplyStart_keeps inp h
  case replyRecvReply => exact enterReplyRecvReply_keeps inp h
  case replyCheckReplyMagic => exact enterReplyCheckReplyMagic_keeps h
  case replyRecvStructuredRemaining => exact recvThen_keeps fun _ => .same rfl
  case simpleRecvReadPayload => exact recvThen_keeps (simpleReadPayloadDone_keeps inp)
  case chunkStart => exact enterChunkStart_keeps h
  case chunkRecvError => exact recvThen_keeps recvErrorDone_keeps
  case chunkRecvErrorMessage => exact recvThen_keeps fun _ => .same rfl
  case chunkRecvErrorTail => exact recvThen_keeps (recvErrorTailDone_keeps inp)
  case chunkRecvOffsetDataData => exact recvThen_keeps (recvOffsetDataDataDone_keeps inp)
  case chunkRecvBsHeader => exact recvThen_keeps (recvBsHeaderDone_keeps inp)
  case chunkRecvBsEntries => exact recvThen_keeps (recvBsEntriesDone_keeps inp)
  case chunkResync => exact require_all fun _ => recvThen_keeps resyncDone_keeps
  case chunkFinish =>
    refine require_all fun _ => ?_
    split <;> exact .same rfl

theorem enterReplyStart_answersAll {k : Nat} (hr : RxInv h) (hst : h.state = .replyStart)
    (ha : h.AnswersAll k) :
    (enterReplyStart inp h).All fun h' => h'.alive → h'.AnswersAll k := by
  have hlog : h.logical = h.rx.replyState := Handle.logical_of_not_isMid (by rw [hst]; rfl)
  obtain ⟨hk, hs⟩ := ha
  rw [hlog] at hs
  have hne : h.rx.replyState ≠ .start := by
    rcases hs with hs | hs <;> rw [hs] <;> nofun
  have hpos : 0 < h.rx.rlen := Nat.pos_of_ne_zero (hr.saved hne).2.1
  unfold enterReplyStart
  rw [if_pos hpos, if_pos hne]
  refine require_all fun _ _ => ⟨hk, ?_⟩
  rcases hs with hs | hs
  · left
    rw [hs]
    rfl
  · right
    rw [hs]
    rfl

/-- Only `FINISH_COMMAND` ends a simple reply. -/
theorem receiving_answersAll (inp : Input) {k : Nat} (hr : RxInv h) (hs : h.state.isReceiving = true)
    (ha : h.AnswersAll k) : (enter inp h).All fun h' => h'.alive → h'.AnswersAll k := by
  have hlog : h.state.isMid = true → h.logical = h.state := Handle.logical_of_isMid
  have hbetween : h.state.isMid = false → h.state ≠ .replyStart → h.logical = .start := by
    intro hm hne
    rw [Handle.logical_of_not_isMid hm]
    refine hr.replyState ?_
    cases hst : h.state <;> simp_all [State.isReceiving, State.isMid, State.isBusy]
  have hkey : h.logical = .simpleRecvReadPayload ∨ h.logical = .replyFinishCommand := ha.2
  unfold enter
  cases hst : h.state <;>
    simp only [hst, State.isReceiving, State.isMid, Bool.false_eq_true, Bool.true_eq_false,
      forall_const, false_implies, ne_eq, reduceCtorEq, not_false_eq_true,
      not_true_eq_false] at hs hlog hbetween ⊢
  case replyStart => exact enterReplyStart_answersAll hr hst ha
  case simpleRecvReadPayload =>
    refine recvThen_all (fun _ halive => absurd rfl halive.1) (fun h' hrec _ _ _ => ?_)
      fun h' hrec _ => ?_
    · obtain ⟨hs', -, hk', -, -, -⟩ := received_same hrec
      exact ⟨hk'.trans ha.1, .inl (hs'.trans hst)⟩
    · unfold simpleReadPayloadDone
      split
      · trivial
      · trivial
      · exact fun _ => ⟨(received_same hrec).2.2.1.trans ha.1, .inr rfl⟩
  all_goals
    first
    | (rw [hlog] at hkey; rcases hkey with hkey | hkey <;> cases hkey)
    | (rw [hbetween] at hkey; rcases hkey with hkey | hkey <;> cases hkey)

end Sees

/-! ## The invariant -/

/-- A read that ends in the first half of the 64 bit address space. -/
def Command.Plain (cmd : Command) : Prop :=
  cmd.type = .read ∧ cmd.offset.toNat + cmd.count.toNat ≤ 2 ^ 63

/-- The commands that are not completed. -/
def Handle.pending (h : Handle) : List Command := h.q.cmdsToIssue ++ h.q.cmdsInFlight

/-- Replies have accounted for `n` bytes of the command `k`. A pending read has
room for another count, unless it has been answered as a whole. -/
structure Coverage (k : Nat) (h : Handle) (n : Nat) : Prop where
  fresh : h.q.unique ≤ k → n = 0
  counts : ∀ cmd ∈ h.book.commands, cmd.cookie = k → cmd.Plain → cmd.Counts n
  room : h.alive → ∀ cmd ∈ h.pending, cmd.cookie = k → cmd.Plain →
    cmd.dataSeen.toNat ≤ 2 * cmd.count.toNat ∨ h.AnswersAll k

theorem Handle.mem_commands {h : Handle} {cmd : Command} :
    cmd ∈ h.book.commands ↔ cmd ∈ h.pending ∨ cmd ∈ h.q.cmdsDone := by
  simp [Book.commands, Handle.book, Handle.pending, or_assoc]

/-- No reply arrives: the commands stay what they are, but for errors and a
command that is new. -/
structure Keeps (h h' : Handle) : Prop where
  unique : h.q.unique ≤ h'.q.unique
  pending : ∀ d ∈ h'.pending, (∃ c ∈ h.pending, c.Kept d) ∨ d.dataSeen = 0 ∧ d.cookie = h.q.unique
  done : ∀ d ∈ h'.q.cmdsDone, ∃ c ∈ h.book.commands, c.Kept d
  alive : h'.alive → h.alive
  answers : h'.alive → ∀ k, h.AnswersAll k → h'.AnswersAll k ∨ ∀ d ∈ h'.pending, d.cookie ≠ k

theorem Command.Kept.plain {c d : Command} (hk : c.Kept d) (hp : d.Plain) : c.Plain := by
  rw [hk] at hp
  exact hp

theorem Command.Kept.cookie {c d : Command} (hk : c.Kept d) : d.cookie = c.cookie := by
  rw [hk]

theorem Command.Kept.counts {c d : Command} {n : Nat} (hk : c.Kept d) (hc : c.Counts n) :
    d.Counts n := by
  rw [hk]
  exact ⟨hc.upTo, hc.above⟩

theorem Coverage.keep {k n : Nat} {h h' : Handle} (hc : Coverage k h n) (hk : Keeps h h') :
    Coverage k h' n := by
  refine ⟨fun hu => hc.fresh (Nat.le_trans hk.unique hu), fun d hd hcookie hp => ?_,
    fun ha d hd hcookie hp => ?_⟩
  · have hold : ∀ c ∈ h.book.commands, c.Kept d → d.Counts n := fun c hmem hkept =>
      hkept.counts (hc.counts c hmem (hkept.cookie.symm.trans hcookie) (hkept.plain hp))
    rcases Handle.mem_commands.mp hd with hd | hd
    · rcases hk.pending d hd with ⟨c, hmem, hkept⟩ | ⟨hz, hu⟩
      · exact hold c (Handle.mem_commands.mpr (.inl hmem)) hkept
      · -- a new command has seen nothing
        have hn := hc.fresh (Nat.le_of_eq (hu.symm.trans hcookie))
        subst hn
        exact ⟨fun _ => by rw [hz]; rfl, fun hlt => absurd hlt (Nat.not_lt_zero _)⟩
    · obtain ⟨c, hmem, hkept⟩ := hk.done d hd
      exact hold c hmem hkept
  · rcases hk.pending d hd with ⟨c, hmem, hkept⟩ | ⟨hz, -⟩
    · rcases hc.room (hk.alive ha) c hmem (hkept.cookie.symm.trans hcookie) (hkept.plain hp)
        with hle | hans
      · left
        rw [hkept]
        exact hle
      · rcases hk.answers ha k hans with hans' | hnone
        · exact .inr hans'
        · exact absurd hcookie (hnone d hd)
    · left
      rw [hz]
      exact Nat.zero_le _

/-! ## Steps without a reply -/

theorem Handle.AnswersAll.of_eq {h h' : Handle} {k : Nat} (ha : h.AnswersAll k) (hrx : h'.rx = h.rx)
    (hb : h.state.isMid = false) (hb' : h'.state.isMid = false) : h'.AnswersAll k := by
  obtain ⟨hk, hs⟩ := ha
  unfold AnswersAll
  rw [Handle.logical_of_not_isMid hb] at hs
  rw [Handle.logical_of_not_isMid hb', hrx]
  exact ⟨hk, hs⟩

theorem keeps_receiving {inp : Input} {h : Handle} (hr : RxInv h) (hs : h.state.isReceiving = true)
    (hc : h.state.isCounting = false) : (enter inp h).All (Keeps h) := by
  have halive : h.alive := by
    constructor <;> (intro hd; rw [hd] at hs; cases hs)
  have hq := enter_quiet inp hs
  have hk := receiving_keeps inp hs hc
  have ha := fun k hans => receiving_answersAll inp (k := k) hr hs hans
  generalize enter inp h = o at hq hk ha
  have key : ∀ h', Quiet inp h h' → KeepsInFlight h h' →
      (∀ k, h.AnswersAll k → h'.alive → h'.AnswersAll k) → Keeps h h' := by
    intro h' hq hk ha
    have hqq := hq.q
    refine ⟨?_, fun d hd => .inl ?_, fun d hd => ?_, fun _ => halive, fun hal k hans => .inl (ha k hans hal)⟩
    · exact Nat.le_of_eq (congrArg Queues.unique hqq).symm
    · rcases List.mem_append.mp hd with hd | hd
      · rw [hqq] at hd
        exact ⟨d, List.mem_append_left _ hd, .refl d⟩
      · obtain ⟨c, hmem, hkept⟩ := hk d hd
        exact ⟨c, List.mem_append_right _ hmem, hkept⟩
    · rw [hqq] at hd
      exact ⟨d, Handle.mem_commands.mpr (.inr hd), .refl d⟩
  cases o with
  | abort a => trivial
  | next h' | block h' | fail h' => exact key h' hq hk fun k hans => ha k hans

/-- A step that leaves the queues and the reply alone. -/
theorem Keeps.same {h h' : Handle} (hq : h'.q.cmdsToIssue = h.q.cmdsToIssue ∧
      h'.q.cmdsInFlight = h.q.cmdsInFlight ∧ h'.q.unique = h.q.unique)
    (hd : ∀ d ∈ h'.q.cmdsDone, d ∈ h.q.cmdsDone) (hrx : h'.rx = h.rx)
    (ha : h'.alive → h.alive) (hb : h.state.isMid = false) (hb' : h'.state.isMid = false) :
    Keeps h h' := by
  obtain ⟨h₁, h₂, h₃⟩ := hq
  refine ⟨Nat.le_of_eq h₃.symm, fun d hm => .inl ⟨d, ?_, .refl d⟩,
    fun d hm => ⟨d, Handle.mem_commands.mpr (.inr (hd d hm)), .refl d⟩, ha,
    fun _ k hans => .inl (hans.of_eq hrx hb hb')⟩
  simpa only [Handle.pending, h₁, h₂] using hm

theorem settle_mem {h h' : Handle} {cmd d : Command} {retire : Bool}
    (hok : h.settle cmd retire = .ok h') (hd : d ∈ h'.q.cmdsDone) :
    d ∈ h.q.cmdsDone ∨ d = cmd := by
  unfold Handle.settle at hok
  split at hok
  · cases hok
    exact .inl hd
  · unfold Handle.pushDone at hok
    split at hok
    · split at hok
      · cases hok
        exact .inr (List.mem_singleton.mp hd)
      · cases hok
    · split at hok
      · cases hok
      · rename_i l hl
        cases hok
        exact mem_linkAfter _ hl hd

theorem notifyCompletion_kept (inp : Input) (cmd : Command) (e : UInt32) :
    cmd.Kept (notifyCompletion inp cmd e).2.1 := by
  unfold notifyCompletion
  simp only
  split
  · simp only
    split <;> rfl
  · rfl

/-- Aborting changes the errors of commands. -/
theorem abortCommands_mem {inp : Input} {h h' : Handle} {cmds : List Command}
    (hok : abortCommands inp h cmds = .ok h') :
    ∀ d ∈ h'.q.cmdsDone, d ∈ h.q.cmdsDone ∨ ∃ c ∈ cmds, c.Kept d := by
  induction cmds generalizing h with
  | nil =>
    cases hok
    exact fun d hd => .inl hd
  | cons cmd cmds ih =>
    unfold abortCommands at hok
    split at hok
    · cases hok
    · rename_i h₁ hok₁
      intro d hd
      rcases ih hok d hd with hd | ⟨c, hc, hk⟩
      · unfold abortCommand at hok₁
        split at hok₁
        · cases hok₁
        · rcases settle_mem hok₁ hd with hd | rfl
          · exact .inl hd
          · refine .inr ⟨cmd, List.mem_cons_self, ?_⟩
            exact (notifyCompletion_kept inp cmd (orErr cmd.error enotconn)).trans rfl
      · exact .inr ⟨c, List.mem_cons_of_mem _ hc, hk⟩

theorem abortAll_keeps {inp : Input} {h h' : Handle} (hok : abortAll inp h = .ok h')
    (hd : ¬ h'.alive) : Keeps h h' := by
  unfold abortAll at hok
  split at hok
  · cases hok
  · rename_i h₁ hok₁
    split at hok
    · cases hok
    · rename_i h₂ hok₂
      cases hok
      have hdo₁ := abortCommands_doneOnly hok₁
      have hdo₂ := abortCommands_doneOnly hok₂
      refine ⟨?_, fun d hm => ?_, fun d hm => ?_, fun ha => absurd ha hd, fun ha => absurd ha hd⟩
      · have hun : h₂.q.unique = h.q.unique := by rw [hdo₂, hdo₁]
        exact Nat.le_of_eq hun.symm
      · rw [hdo₂, hdo₁] at hm
        cases hm
      · rcases abortCommands_mem hok₂ d hm with hm | ⟨c, hc, hk⟩
        · rcases abortCommands_mem hok₁ d hm with hm | ⟨c, hc, hk⟩
          · exact ⟨d, Handle.mem_commands.mpr (.inr hm), .refl d⟩
          · exact ⟨c, Handle.mem_commands.mpr (.inl (List.mem_append_left _ hc)), hk⟩
        · rw [hdo₁] at hc
          exact ⟨c, Handle.mem_commands.mpr (.inl (List.mem_append_right _ hc)), hk⟩

theorem Settled.kept {cmd cmd' : Command} {err : UInt32} {retire : Bool}
    (hs : Settled cmd cmd' err retire) : cmd.Kept cmd' := hs.same

/-- `FINISH_COMMAND` ends the reply to the command that it takes off the list. -/
theorem finishCommand_keeps {inp : Input} {h : Handle} (hinv : h.book.Inv) (ht : Tails h)
    (hs : h.state = .replyFinishCommand) : (enterReplyFinishCommand inp h).All (Keeps h) := by
  have halive : h.alive := by
    constructor <;> (intro hd; rw [hs] at hd; cases hd)
  cases hf : Handle.findCmd h.replyCookie h.q.cmdsInFlight with
  | none =>
    unfold enterReplyFinishCommand
    simp only [hf]
    refine require_all fun hlook => ?_
    have hnone : h.rx.replyCmd = none := by
      simpa [Handle.lookupReply, hf] using hlook
    refine ⟨Nat.le_refl _, fun d hd => .inl ⟨d, hd, .refl d⟩,
      fun d hd => ⟨d, Handle.mem_commands.mpr (.inr hd), .refl d⟩, fun _ => halive, ?_⟩
    intro _ k hans
    cases hnone.symm.trans hans.1
  | some cmd =>
    obtain ⟨h', hfin, heq⟩ := finishCommand_ok inp hinv ht halive hf
    obtain ⟨pre, post, cmd', retire, hl, hset, hbook⟩ := hfin.book
    rw [heq]
    refine require_all fun hlook => require_all fun _ => ?_
    have hreply : h.rx.replyCmd = some cmd.cookie := by
      simpa [Handle.lookupReply, hf] using hlook
    have hissue : h'.q.cmdsToIssue = h.q.cmdsToIssue := congrArg Book.toIssue hbook
    have hflight : h'.q.cmdsInFlight = pre ++ post := congrArg Book.inFlight hbook
    have hdone : h'.q.cmdsDone = if retire then h.q.cmdsDone else h.q.cmdsDone ++ [cmd'] :=
      congrArg Book.done hbook
    have hpend : ∀ d ∈ h'.pending, d ∈ h.pending ∧ d.cookie ≠ cmd.cookie := by
      intro d hd
      have hnd := hinv.nodup
      simp only [Book.cookies, Book.commands, Handle.book, hl, List.map_append, List.map_cons,
        List.nodup_append, List.nodup_cons, List.mem_append, List.mem_cons, List.mem_map] at hnd
      simp only [Handle.pending, hissue, hflight, hl, List.mem_append, List.mem_cons] at hd ⊢
      refine ⟨by tauto, fun hk => ?_⟩
      rcases hd with hd | hd | hd
      · exact hnd.1.2.2 _ ⟨d, hd, rfl⟩ _ (.inr (.inl rfl)) hk
      · exact hnd.1.2.1.2.2 _ ⟨d, hd, rfl⟩ _ (.inl rfl) hk
      · exact hnd.1.2.1.2.1.1 ⟨d, hd, hk⟩
    refine ⟨Nat.le_of_eq (congrArg Book.unique hbook).symm,
      fun d hd => .inl ⟨d, (hpend d hd).1, .refl d⟩, fun d hd => ?_, fun _ => halive, ?_⟩
    · have hd' : d ∈ h'.q.cmdsDone := hd
      rw [hdone] at hd'
      split at hd'
      · exact ⟨d, Handle.mem_commands.mpr (.inr hd'), .refl d⟩
      · rcases List.mem_append.mp hd' with hd' | hd'
        · exact ⟨d, Handle.mem_commands.mpr (.inr hd'), .refl d⟩
        · rw [List.mem_singleton.mp hd']
          refine ⟨cmd, Handle.mem_commands.mpr (.inl ?_), hset.kept⟩
          simp [Handle.pending, hl]
    · intro _ k hans
      right
      intro d hd hk
      refine (hpend d hd).2 (hk.trans ?_)
      exact Option.some.inj (hans.1.symm.trans hreply)

/-- **Every state that does not count.** -/
theorem enter_keeps {inp : Input} {h : Handle} (hr : RxInv h) (hinv : h.book.Inv) (ht : Tails h)
    (hc : h.state.isCounting = false) : (enter inp h).All (Keeps h) := by
  rcases h.state.kinds with hs | hs | hs | hs | hs | hs
  · exact keeps_receiving hr hs hc
  · have hb : h.state.isMid = false := by
      cases hst : h.state <;> simp_all [State.isSending, State.isMid]
    have ha : h.alive := by
      constructor <;> (intro hd; rw [hd] at hs; cases hs)
    refine (enter_sends inp hs).mono fun h' hq => ?_
    refine .same ?_ ?_ ?_ (fun _ => ha) hb (not_isMid_of_not_isBusy hq.busy)
    · rw [hq.eq]
      exact ⟨rfl, rfl, rfl⟩
    · rw [hq.eq]
      exact fun d hd => hd
    · rw [hq.eq]
  · simp only [enter, hs, enterIssueFinish]
    refine require_all fun _ => ?_
    split
    · trivial
    · rename_i cmd rest hq
      refine require_all fun _ => ⟨Nat.le_refl _, fun d hd => .inl ⟨d, ?_, .refl d⟩,
        fun d hd => ⟨d, Handle.mem_commands.mpr (.inr hd), .refl d⟩,
        fun _ => by simp [Handle.alive, hs], fun _ k hans => .inl (hans.of_eq rfl (by rw [hs]; rfl) rfl)⟩
      simp only [Handle.pending, Handle.log, List.mem_append, List.mem_cons, hq] at hd ⊢
      tauto
  · simp only [enter, hs]
    exact finishCommand_keeps hinv ht hs
  · obtain ⟨-, -, h', -, -, hok, hdo, -⟩ := abortAll_ok inp hinv ht
    simp only [enter, hs, enterDead, hok]
    refine require_all fun _ => abortAll_keeps hok fun ha => ha.1 ?_
    rw [hdo]
    exact hs
  · obtain ⟨-, -, h', -, -, hok, hdo, -⟩ := abortAll_ok inp hinv ht
    simp only [enter, hs, enterClosed, hok]
    refine abortAll_keeps hok fun ha => ha.2 ?_
    rw [hdo]
    exact hs

/-! ## Calls -/

/-- What a call does to the lists: a new command at the end of the queue, queued
commands aborted, completed ones retired. -/
structure ListsFrom (h h' : Handle) : Prop where
  unique : h.q.unique ≤ h'.q.unique
  queue : ∀ d ∈ h'.q.cmdsToIssue, d ∈ h.q.cmdsToIssue ∨ d.dataSeen = 0 ∧ d.cookie = h.q.unique
  done : ∀ d ∈ h'.q.cmdsDone, d ∈ h.q.cmdsDone ∨ ∃ c ∈ h.q.cmdsToIssue, c.Kept d

theorem ListsFrom.of_eq {h h' : Handle} (h₁ : h'.q.unique = h.q.unique)
    (h₂ : h'.q.cmdsToIssue = h.q.cmdsToIssue) (h₃ : ∀ d ∈ h'.q.cmdsDone, d ∈ h.q.cmdsDone) :
    ListsFrom h h' :=
  ⟨Nat.le_of_eq h₁.symm, fun _ hd => .inl (h₂ ▸ hd), fun d hd => .inl (h₃ d hd)⟩

theorem ListsFrom.trans {h h₁ h₂ : Handle} (h₁₂ : ListsFrom h h₁) (hu : h₁.q.unique = h.q.unique)
    (hq : ∀ d ∈ h₁.q.cmdsToIssue, d ∈ h.q.cmdsToIssue) (h₂₃ : ListsFrom h₁ h₂) :
    ListsFrom h h₂ := by
  refine ⟨hu ▸ h₂₃.unique, fun d hd => ?_, fun d hd => ?_⟩
  · rcases h₂₃.queue d hd with hd | ⟨hz, hk⟩
    · exact .inl (hq d hd)
    · exact .inr ⟨hz, hk.trans hu⟩
  · rcases h₂₃.done d hd with hd | ⟨c, hc, hk⟩
    · exact h₁₂.done d hd
    · exact .inr ⟨c, hq c hc, hk⟩

def Submit.ListsFrom (h : Handle) : Submit → Prop
  | .refused h' | .rejected h' | .accepted h' _ => Libnbd.ListsFrom h h'
  | .abort _ => True

theorem enqueue_lists {h : Handle} {cmd : Command} (hz : cmd.dataSeen = 0)
    (hk : cmd.cookie = h.q.unique) : (enqueue h cmd).ListsFrom h := by
  unfold enqueue
  simp only
  split
  · split
    · refine ⟨Nat.le_succ _, fun d hd => .inr ?_, fun _ hd => .inl hd⟩
      rw [List.mem_singleton.mp hd]
      exact ⟨hz, hk⟩
    · trivial
  · split
    · split
      · trivial
      · split
        · trivial
        · rename_i l hl
          refine ⟨Nat.le_succ _, fun d hd => ?_, fun _ hd => .inl hd⟩
          rcases mem_linkAfter _ hl hd with hd | rfl
          · exact .inl hd
          · exact .inr ⟨hz, hk⟩
    · trivial

theorem commandCommon_lists (inp : Input) (h : Handle) (r : Request) :
    (commandCommon inp h r).ListsFrom h := by
  unfold commandCommon
  split
  · exact .of_eq rfl rfl fun _ hd => hd
  · exact enqueue_lists rfl rfl

theorem abandonPending_lists {inp : Input} {h h' : Handle} (hok : abandonPending inp h = .ok h') :
    ListsFrom h h' ∧ h'.q.unique = h.q.unique ∧
      ∀ d ∈ h'.q.cmdsToIssue, d ∈ h.q.cmdsToIssue := by
  unfold abandonPending at hok
  split at hok
  · have hdo := abortCommands_doneOnly hok
    have hu : h'.q.unique = h.q.unique := by rw [hdo]
    have hnil : h'.q.cmdsToIssue = [] := by rw [hdo]
    have hqueue : ∀ d ∈ h'.q.cmdsToIssue, d ∈ h.q.cmdsToIssue := by
      rw [hnil]
      exact fun _ hd => absurd hd List.not_mem_nil
    exact ⟨⟨Nat.le_of_eq hu.symm, fun d hd => .inl (hqueue d hd),
      fun d hd => abortCommands_mem hok d hd⟩, hu, hqueue⟩
  · split at hok
    · cases hok
    · rename_i cmd rest hq
      have hdo := abortCommands_doneOnly hok
      have hu : h'.q.unique = h.q.unique := by rw [hdo]
      have hqueue : ∀ d ∈ h'.q.cmdsToIssue, d ∈ h.q.cmdsToIssue := by
        intro d hd
        rw [hdo] at hd
        rw [List.mem_singleton.mp hd, hq]
        exact List.mem_cons_self
      refine ⟨⟨Nat.le_of_eq hu.symm, fun d hd => .inl (hqueue d hd), fun d hd => ?_⟩, hu, hqueue⟩
      obtain hd | ⟨c, hc, hk⟩ := abortCommands_mem hok d hd
      · exact .inl hd
      · exact .inr ⟨c, hq ▸ List.mem_cons_of_mem _ hc, hk⟩

theorem shutdown_lists (inp : Input) (h : Handle) (flags : UInt32) :
    (shutdown inp h flags).ListsFrom h := by
  unfold shutdown
  split
  · exact .of_eq rfl rfl fun _ hd => hd
  · split
    · exact .of_eq rfl rfl fun _ hd => hd
    · split
      · trivial
      · rename_i h₁ hok
        have hl : ListsFrom h h₁ ∧ h₁.q.unique = h.q.unique ∧
            ∀ d ∈ h₁.q.cmdsToIssue, d ∈ h.q.cmdsToIssue := by
          split at hok
          · exact abandonPending_lists hok
          · cases hok
            exact ⟨.of_eq rfl rfl fun _ hd => hd, rfl, fun _ hd => hd⟩
        split
        · exact hl.1
        · have hc := commandCommon_lists inp h₁ (discRequest 0)
          generalize commandCommon inp h₁ (discRequest 0) = s at hc ⊢
          cases s with
          | refused h' | rejected h' | accepted h' run => exact hl.1.trans hl.2.1 hl.2.2 hc
          | abort a => trivial

theorem afterSubmit_lists {h : Handle} {k : After} {s : Submit} (hs : s.ListsFrom h) :
    ListsFrom h (afterSubmit h k s).h := by
  have hrun : ∀ r h', ListsFrom h h' → ListsFrom h (afterRun k r h').h := by
    intro r h' hl
    obtain ⟨d, r', he⟩ := afterRun_h k r h'
    rw [he]
    exact ⟨hl.unique, hl.queue, hl.done⟩
  cases s with
  | refused h' | rejected h' => exact hs
  | accepted h' run =>
    cases run with
    | true =>
      simp only [afterSubmit, startRun]
      split
      · exact ⟨hs.unique, hs.queue, hs.done⟩
      · exact hrun _ _ ⟨hs.unique, hs.queue, hs.done⟩
    | false => exact hrun _ _ hs
  | abort a => exact .of_eq rfl rfl fun _ hd => hd

theorem aioCommandCompleted_unique {h h' : Handle} {cookie : UInt64} {r : Int}
    (hok : aioCommandCompleted h cookie = .ok (h', r)) : h'.q.unique = h.q.unique := by
  unfold aioCommandCompleted at hok
  split at hok
  · cases hok
    rfl
  · split at hok
    · cases hok
      rfl
    · split at hok
      · cases hok
      · split at hok
        · cases hok
        · have hh' := congrArg Prod.fst (Except.ok.inj hok)
          simp only at hh'
          obtain ⟨e, he⟩ := ite_setError _ _ _ _ _
          rw [he] at hh'
          rw [← hh']
          rfl

theorem apiCall_lists (inp : Input) (h : Handle) {api : Api} (hclose : api ≠ .close) :
    ListsFrom h (apiCall inp h api).h := by
  have hsame : ∀ {h' : Handle}, h'.q = h.q → ListsFrom h h' :=
    fun hq => .of_eq (by rw [hq]) (by rw [hq]) fun _ hd => hq ▸ hd
  cases api with
  | command call =>
    refine afterSubmit_lists ?_
    obtain ⟨m, hm⟩ := sanitize_eq h call
    unfold submit
    simp only [hm]
    split
    · exact hsame rfl
    · have hc := commandCommon_lists inp { h with mem := m } (callRequest { h with mem := m } call)
      generalize commandCommon inp { h with mem := m } _ = s at hc ⊢
      cases s with
      | refused h' | rejected h' | accepted h' run => exact ⟨hc.unique, hc.queue, hc.done⟩
      | abort a => trivial
  | aioDisconnect flags =>
    refine afterSubmit_lists ?_
    unfold aioDisconnect
    split
    · exact hsame rfl
    · split
      · exact hsame rfl
      · exact commandCommon_lists inp h _
  | shutdown flags => exact afterSubmit_lists (shutdown_lists inp h flags)
  | aioCommandCompleted cookie =>
    simp only [apiCall]
    cases hok : aioCommandCompleted h cookie with
    | error a => exact hsame rfl
    | ok p =>
      obtain ⟨h', r⟩ := p
      rcases aioCommandCompleted_cases hok with ⟨hq, -⟩ | ⟨cmd, -, -, -, h₁, -, h₃⟩
      · exact hsame hq
      · refine .of_eq (aioCommandCompleted_unique hok) h₁ fun d hd => ?_
        rw [h₃] at hd
        exact List.mem_of_mem_eraseP hd
  | aioNotifyRead | aioNotifyWrite =>
    simp only [apiCall, startRun]
    split
    · exact hsame rfl
    · exact hsame rfl
  | setStrictMode flags =>
    simp only [apiCall]
    split <;> exact hsame rfl
  | setPreadInitialize b => exact hsame rfl
  | close => exact absurd rfl hclose

theorem apiCall_keeps (inp : Input) {h : Handle} {api : Api} (hclose : api ≠ .close)
    (hb : h.state.isBusy = false) : Keeps h (apiCall inp h api).h := by
  have hl := apiCall_lists inp h hclose
  have hf := apiCall_frame inp h api hclose
  refine ⟨hl.unique, fun d hd => ?_, fun d hd => ?_, hf.alive, fun _ k hans => .inl ?_⟩
  · simp only [Handle.pending, hf.inFlight] at hd
    rcases List.mem_append.mp hd with hd | hd
    · rcases hl.queue d hd with hd | hnew
      · exact .inl ⟨d, List.mem_append_left _ hd, .refl d⟩
      · exact .inr hnew
    · exact .inl ⟨d, List.mem_append_right _ hd, .refl d⟩
  · rcases hl.done d hd with hd | ⟨c, hc, hk⟩
    · exact ⟨d, Handle.mem_commands.mpr (.inr hd), .refl d⟩
    · exact ⟨c, Handle.mem_commands.mpr (.inl (List.mem_append_left _ hc)), hk⟩
  · exact hans.of_eq hf.rx (not_isMid_of_not_isBusy hb) (not_isMid_of_not_isBusy (hf.busy hb))

/-! ## Steps with a reply -/

theorem Request.checks_of_error {h : Handle} {r : Request} {alloc : Nat → Bool}
    (hok : r.error h alloc = none) : r.boundsError h = none ∧ r.sizeError h = none := by
  unfold Request.error at hok
  split at hok
  · cases hok
  · split at hok
    · cases hok
    · split at hok
      · cases hok
      · cases hok
      · rename_i hb hs
        exact ⟨hb, hs⟩

/-- The limit of `nbd_internal_command_common`. -/
theorem Submitted.read_count {exp : Export} {cmd : Command} (hs : Submitted exp cmd)
    (ht : cmd.type = .read) : cmd.count.toNat ≤ maxRequestSize := by
  rcases hs with ⟨inp, h, call, -, -, herr, rfl⟩ | ⟨h, flags, -, rfl⟩
  · have hsize := (Request.checks_of_error herr).2
    have ht' : (callRequest h call).type = .read := ht
    unfold Request.sizeError at hsize
    simp only [ht'] at hsize
    split at hsize
    · cases hsize
    · rename_i hle
      rw [decide_eq_true_eq, UInt64.not_lt, UInt64.le_iff_toNat_le] at hle
      exact hle
  · cases ht

theorem Origin.read_count {c : Config} (ho : Origin c) {cmd : Command}
    (hmem : cmd ∈ c.h.book.commands) (ht : cmd.type = .read) :
    cmd.count.toNat ≤ maxRequestSize := by
  obtain ⟨a, ha, hs⟩ := ho.made hmem
  rw [hs] at ht ⊢
  exact ha.read_count ht

theorem Command.Plain.contained {cmd : Command} (hp : cmd.Plain) : cmd.Contained := by
  refine contained_of_clearOfEnd (.inr (.inl ?_))
  have := hp.2
  omega

/-- One command in a step that counts. -/
theorem Command.Sees.counts {h' : Handle} {c d : Command} {n m : Nat} (hs : c.Sees h' d m)
    (hc : c.Counts n) (hp : c.Plain) (hmax : c.count.toNat ≤ maxRequestSize)
    (hle : c.dataSeen.toNat ≤ 2 * c.count.toNat) :
    d.Counts (n + m) ∧ (d.dataSeen.toNat ≤ 2 * d.count.toNat ∨ h'.AnswersAll c.cookie) := by
  cases hs with
  | nothing hk =>
    refine ⟨hk.counts hc, .inl ?_⟩
    rw [hk]
    exact hle
  | chunk hin hk =>
    rename_i offset len
    have hlen : len.toNat ≤ c.count.toNat := by
      have := chunk_within hin hp.contained
      omega
    refine ⟨hk.counts (hc.see hmax hlen), .inl ?_⟩
    have hcount : (c.see len).count = c.count := by
      unfold Command.see
      split <;> rfl
    have := see_le hmax hlen hle
    rw [hk]
    show (c.see len).dataSeen.toNat ≤ 2 * (c.see len).count.toNat
    rw [hcount]
    exact this
  | whole ha hk => exact ⟨hk.counts (hc.seeAll hmax hle), .inr ha⟩

theorem Coverage.count (inp : Input) {c : Config} {k n : Nat} (ho : Origin c)
    (hcov : Coverage k c.h n) (hs : c.h.state.isCounting = true) :
    (enter inp c.h).All fun h' => Coverage k h' (n + bytesSeen k c (.enter inp)) := by
  have hinv := ho.good.sound.inv
  have hrecv : c.h.state.isReceiving = true := by
    cases hst : c.h.state <;> simp_all [State.isCounting, State.isReceiving]
  have hmid : c.h.state.isMid = true := by
    cases hst : c.h.state <;> simp_all [State.isCounting, State.isMid]
  have halive := alive_of_isMid hmid
  have hlog := Handle.logical_of_isMid hmid
  have hnot : ¬ c.h.AnswersAll k := by
    rintro ⟨-, hl | hl⟩ <;> (rw [hlog] at hl; rw [hl] at hs; cases hs)
  have hroom : ∀ cmd ∈ c.h.pending, cmd.cookie = k → cmd.Plain →
      cmd.dataSeen.toNat ≤ 2 * cmd.count.toNat := fun cmd hm hk hp =>
    (hcov.room halive cmd hm hk hp).resolve_right hnot
  have hsees := counting_sees inp ho.good.rx hinv.nodup_lists.2.1 hs
  have hquiet := enter_quiet inp hrecv
  -- what is counted belongs to a command in flight
  have hzero : k ∉ c.h.q.cmdsInFlight.map Command.cookie → bytesSeen k c (.enter inp) = 0 := by
    intro hk
    refine if_neg fun hr => hk ?_
    exact ((ho.good.rx.cmd halive).inFlight k hr).2
  have key : ∀ h', Quiet inp c.h h' → (∀ d ∈ h'.q.cmdsInFlight, ∃ a ∈ c.h.q.cmdsInFlight,
      a.Sees h' d (bytesSeen a.cookie c (.enter inp))) →
      Coverage k h' (n + bytesSeen k c (.enter inp)) := by
    intro h' hq hsee
    have hqq := hq.q
    have hin : ∀ d ∈ h'.q.cmdsInFlight, d.cookie = k → d.Plain →
        d.Counts (n + bytesSeen k c (.enter inp)) ∧
          (d.dataSeen.toNat ≤ 2 * d.count.toNat ∨ h'.AnswersAll k) := by
      intro d hd hk hp
      obtain ⟨a, ha, has⟩ := hsee d hd
      have hsame := has.sameAs
      have hak : a.cookie = k := by rw [← hk, hsame]
      have hap : a.Plain := by
        rw [hsame] at hp
        exact hp
      have hpend : a ∈ c.h.pending := List.mem_append_right _ ha
      have hmem : a ∈ c.h.book.commands := Handle.mem_commands.mpr (.inl hpend)
      have := has.counts (hcov.counts a hmem hak hap) hap (ho.read_count hmem hap.1)
        (hroom a hpend hak hap)
      rwa [hak] at this
    -- a command elsewhere with this cookie: nothing is counted
    have hout : ∀ d ∈ c.h.q.cmdsToIssue ++ c.h.q.cmdsDone, d.cookie = k →
        bytesSeen k c (.enter inp) = 0 := by
      intro d hd hk
      refine hzero fun hmem => ?_
      have hnd := hinv.nodup
      obtain ⟨a, ha, hak⟩ := List.mem_map.mp hmem
      simp only [Book.cookies, Book.commands, Handle.book, List.map_append, List.nodup_append,
        List.mem_append, List.mem_map] at hnd
      rcases List.mem_append.mp hd with hd | hd
      · exact hnd.1.2.2 _ ⟨d, hd, rfl⟩ _ ⟨a, ha, rfl⟩ (hk.trans hak.symm)
      · exact hnd.2.2 _ (.inr ⟨a, ha, rfl⟩) _ ⟨d, hd, rfl⟩ (hak.trans hk.symm)
    have hissue : h'.q.cmdsToIssue = c.h.q.cmdsToIssue := by rw [hqq]
    have hdone : h'.q.cmdsDone = c.h.q.cmdsDone := by rw [hqq]
    refine ⟨fun hu => ?_, fun d hd hk hp => ?_, fun _ d hd hk hp => ?_⟩
    · have hu' : c.h.q.unique ≤ k := by
        have : h'.q.unique = c.h.q.unique := by rw [hqq]
        omega
      rw [hcov.fresh hu', hzero]
      intro hmem
      obtain ⟨a, ha, hak⟩ := List.mem_map.mp hmem
      have := hinv.mem_range (Handle.mem_commands.mpr (.inl (List.mem_append_right _ ha)))
      have : c.h.book.unique = c.h.q.unique := rfl
      omega
    · rcases Handle.mem_commands.mp hd with hd | hd
      · rcases List.mem_append.mp hd with hd | hd
        · rw [hissue] at hd
          rw [hout d (List.mem_append_left _ hd) hk]
          exact hcov.counts d (Handle.mem_commands.mpr (.inl (List.mem_append_left _ hd))) hk hp
        · exact (hin d hd hk hp).1
      · rw [hdone] at hd
        rw [hout d (List.mem_append_right _ hd) hk]
        exact hcov.counts d (Handle.mem_commands.mpr (.inr hd)) hk hp
    · rcases List.mem_append.mp hd with hd | hd
      · rw [hissue] at hd
        exact .inl (hroom d (List.mem_append_left _ hd) hk hp)
      · exact (hin d hd hk hp).2
  have hb : ∀ a, bytesSeen a c (.enter inp) =
      if c.h.rx.replyCmd = some a then (enter inp c.h).bytesSeen c.h.state else 0 := fun _ => rfl
  simp only [hb] at key ⊢
  unfold Outcome.Sees at hsees
  generalize enter inp c.h = o at hsees hquiet key ⊢
  cases o with
  | abort a => trivial
  | next h' | block h' | fail h' => exact key h' hquiet hsees

/-! ## Runs -/

theorem step_coverage {c c' : Config} {l : Label} {k n : Nat} (ho : Origin c)
    (hcov : Coverage k c.h n) (h : step c l = some c') (hcl : c'.ctl ≠ .closed) :
    Coverage k c'.h (n + bytesSeen k c l) := by
  have hs := ho.good.sound
  obtain ⟨inp, j, rfl, hctl, rfl⟩ | ⟨api, inp, r, rfl, hctl, rfl⟩ := step_cases h
  · have hdisc : ∀ {m : Nat} (h' : Handle) (d : Bool), Coverage k h' m →
        Coverage k { h' with disconnectRequest := d } m :=
      fun h' d hc => ⟨hc.fresh, hc.counts, hc.room⟩
    cases hc : c.h.state.isCounting with
    | true =>
      have hall := hcov.count inp ho hc
      obtain ⟨h', hout, he⟩ | ⟨h', d, r, hout | hout, he⟩ | ⟨a, hout, he⟩ :=
        stepEnter_cases inp j c.h
      · rw [he]
        rw [hout] at hall
        exact hall
      · rw [he]
        rw [hout] at hall
        exact hdisc h' d hall
      · rw [he]
        rw [hout] at hall
        exact hdisc h' d hall
      · -- a failed assertion counts nothing
        have hz : bytesSeen k c (.enter inp) = 0 := by
          simp only [bytesSeen, hout, Outcome.bytesSeen, ite_self]
        rw [he, hz]
        exact hcov
    | false =>
      have hz : bytesSeen k c (.enter inp) = 0 := by
        simp only [bytesSeen, bytesSeen_of_not_counting hc, ite_self]
      rw [hz]
      exact stepEnter_all j ((enter_keeps ho.good.rx hs.inv hs.tails hc).mono
        fun h' hk => hcov.keep hk) hcov hdisc
  · have hclose : api ≠ .close := by
      rintro rfl
      exact hcl rfl
    have hcov' : Coverage k { c.h with lastError := inp.lastError } n :=
      ⟨hcov.fresh, hcov.counts, hcov.room⟩
    exact hcov'.keep (apiCall_keeps inp hclose (ho.good.between r hctl))

theorem initial_coverage {c : Config} (k : Nat) (h : Initial c) : Coverage k c.h 0 := by
  obtain ⟨exp, strict, pi, hdr, payload, mem, rfl⟩ := h
  exact ⟨fun _ => rfl, fun _ hm => absurd hm List.not_mem_nil, fun _ _ hm => absurd hm List.not_mem_nil⟩

/-- Coverage at the end of a run; a handle that was closed has no commands. -/
theorem run_coverage {c₀ c : Config} {ls : List Label} (k : Nat) (hi : Initial c₀)
    (he : machine.exec c₀ ls = some c) :
    c.ctl = .closed ∧ c.h.book.commands = [] ∨
      Origin c ∧ Coverage k c.h (machine.total (bytesSeen k) c₀ ls) := by
  have h₀ : Origin c₀ := (initial_asserts hi).origin
  have hinv := machine.exec_total (f := bytesSeen k) (P := fun c n =>
    c.ctl = .closed ∧ c.h.book.commands = [] ∨ Origin c ∧ Coverage k c.h n) (n := 0) ?_
    (.inr ⟨h₀, initial_coverage k hi⟩) he
  · rwa [Nat.zero_add] at hinv
  · rintro c l c' n (⟨hc, -⟩ | ⟨ho, hcov⟩) hstep
    · cases l <;> simp [machine, step, hc] at hstep
    · by_cases hcl : c'.ctl = .closed
      · obtain ⟨inp, rfl⟩ := close_of_closed hstep hcl
        exact .inl ⟨rfl, rfl⟩
      · exact .inr ⟨(step_origin ho hstep).resolve_left hcl, step_coverage ho hcov hstep hcl⟩

theorem findCmd_of_mem {cmd : Command} {l : List Command} (hnd : (l.map Command.cookie).Nodup)
    (hmem : cmd ∈ l) : Handle.findCmd cmd.cookie l = some cmd := by
  cases hf : Handle.findCmd cmd.cookie l with
  | none => exact absurd (List.mem_map_of_mem hmem) (findCmd_eq_none.mp hf)
  | some d =>
    obtain ⟨hd, hk⟩ := findCmd_mem hf
    rw [List.inj_on_of_nodup_map hnd hd hmem hk]

theorem completedRet_eq_one_iff {cmd : Command} (ht : cmd.type = .read) :
    completedRet cmd = 1 ↔ cmd.error = 0 ∧ cmd.dataSeen.toUInt64 = cmd.count := by
  unfold completedRet completedError
  have hne : eproto ≠ 0 := by decide
  by_cases hz : cmd.error = 0
  · by_cases hd : cmd.dataSeen.toUInt64 = cmd.count
    · simp [hz, hd]
    · simp [ht, hz, hd, hne]
  · simp [hz]

/-- **Read coverage.** For a read that ends in the first half of the address space,
`data_seen` is the count if and only if the replies of the whole run account for
count bytes, as a natural number; and `nbd_aio_command_completed` reports success
if and only if that is so and no error is recorded. -/
theorem data_seen_eq_count_iff {c₀ c : Config} {ls : List Label} {cmd : Command}
    (hi : machine.init c₀) (he : machine.exec c₀ ls = some c)
    (hmem : cmd ∈ c.h.book.commands) (ht : cmd.type = .read)
    (hend : cmd.offset.toNat + cmd.count.toNat ≤ 2 ^ 63) :
    (cmd.dataSeen.toUInt64 = cmd.count ↔
      machine.total (bytesSeen cmd.cookie) c₀ ls = cmd.count.toNat) ∧
    ∀ inp r cookie, c.ctl = .idle r → cmd ∈ c.h.q.cmdsDone → cookie.toNat = cmd.cookie →
      ∃ c' ret, machine.step c (.call (.aioCommandCompleted cookie) inp) = some c' ∧
        c'.ctl = .idle ret ∧ (ret = 1 ∨ ret = -1) ∧
        (ret = 1 ↔ cmd.error = 0 ∧
          machine.total (bytesSeen cmd.cookie) c₀ ls = cmd.count.toNat) := by
  rcases run_coverage cmd.cookie hi he with ⟨-, hnil⟩ | ⟨ho, hcov⟩
  · rw [hnil] at hmem
    cases hmem
  have hiff := (hcov.counts cmd hmem rfl ⟨ht, hend⟩).eq_iff
  refine ⟨hiff, fun inp r cookie hctl hdone hk => ?_⟩
  have hsound := ho.good.sound
  have hpos : 1 ≤ cookie := by
    rw [UInt64.le_iff_toNat_le, hk]
    exact (hsound.inv.mem_range hmem).1
  obtain ⟨h', hok⟩ := aioCommandCompleted_returns (h := { c.h with lastError := inp.lastError })
    hsound.inv ⟨hsound.tails.toIssue, hsound.tails.done⟩ hpos
  have hfind : completedFor { c.h with lastError := inp.lastError } cookie.toNat =
      some (completedRet cmd) := by
    have hf : Handle.findCmd cmd.cookie c.h.q.cmdsDone = some cmd :=
      findCmd_of_mem hsound.inv.nodup_lists.2.2 hdone
    rw [hk, completedFor]
    exact congrArg (Option.map completedRet) hf
  rw [hfind] at hok
  refine ⟨⟨h', .idle (completedRet cmd)⟩, completedRet cmd, ?_, rfl, ?_, ?_⟩
  · simp only [machine, step, hctl, stepCall, apiCall, hok]
    rfl
  · unfold completedRet
    split
    · exact .inl rfl
    · exact .inr rfl
  · rw [completedRet_eq_one_iff ht, hiff]

/-- Eight bytes are read in two chunks: four bytes of data, then a hole of four. -/
def readTwoChunks : List Label :=
  readChunk 8 0 [0x66, 0x8e, 0x33, 0xef, 0, 0, 0, 1, 0, 0, 0, 0, 0, 0, 0, 1, 0, 0, 0, 12]
    [0, 0, 0, 0, 0, 0, 0, 0] ++
  Label.enter { Input.calm with recv := .data [1, 2, 3, 4] } :: List.replicate 2 (.enter .calm) ++
  [Label.call .aioNotifyRead .calm, .enter { Input.calm with
     recv := .data [0x66, 0x8e, 0x33, 0xef, 0, 1, 0, 2, 0, 0, 0, 0, 0, 0, 0, 1] },
   .enter .calm, .enter .calm, .enter { Input.calm with recv := .data [0, 0, 0, 12] },
   .enter .calm, .enter { Input.calm with recv := .data [0, 0, 0, 0, 0, 0, 0, 4, 0, 0, 0, 4] }] ++
  List.replicate 3 (Label.enter .calm)

theorem data_seen_eq_count_two_chunks :
    ∃ c cmd, machine.exec (.ofExport .structured) readTwoChunks = some c ∧
      cmd ∈ c.h.q.cmdsDone ∧ cmd.count = 8 ∧ cmd.dataSeen.toUInt64 = cmd.count ∧
      machine.total (bytesSeen cmd.cookie) (.ofExport .structured) readTwoChunks = 8 := by
  have hrun : (machine.exec (.ofExport .structured) readTwoChunks).map (fun c =>
      c.h.q.cmdsDone.map fun cmd => (cmd.type, cmd.offset, cmd.count, cmd.dataSeen)) =
      some [(.read, 0, 8, 8)] := by decide +kernel
  obtain ⟨c, hc, hp⟩ := Option.map_eq_some_iff.mp hrun
  obtain ⟨cmd, hdone, hcmd⟩ := List.map_eq_singleton_iff.mp hp
  simp only [Prod.mk.injEq] at hcmd
  obtain ⟨htype, hoff, hcount, hseen⟩ := hcmd
  have hmem : cmd ∈ c.h.q.cmdsDone := by
    rw [hdone]
    exact List.mem_singleton_self cmd
  have hseen' : cmd.dataSeen.toUInt64 = cmd.count := by
    rw [hseen, hcount]
    rfl
  have hiff := (data_seen_eq_count_iff (Config.initial_ofExport _) hc
    (Handle.mem_commands.mpr (.inr hmem)) htype (by rw [hoff, hcount]; decide)).1
  refine ⟨c, cmd, hc, hmem, hcount, hseen', ?_⟩
  rw [hiff.mp hseen', hcount]
  rfl

end Libnbd
