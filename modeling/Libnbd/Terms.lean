import Libnbd.Ready
import Libnbd.Payloads

/-!
The terms of the server.

What was negotiated says which requests the server takes: the flags of the export, its
size and block sizes, the largest payload, the headers and the contexts. `Admissible` is
the client's side of it. Under the default strict mode no call makes a command that
breaks it.
-/

namespace Libnbd

open Lib

/-! ## The terms -/

/-- The server has set this flag of the export. -/
def Export.has (exp : Export) (flag : UInt16) : Bool := exp.eflags &&& flag != 0

/-- The server takes requests of this type. -/
def CmdType.Offered (exp : Export) : CmdType → Prop
  | .read | .disc => True
  | .write => exp.has flagReadOnly = false
  | .flush => exp.has flagSendFlush = true
  | .trim => exp.has flagSendTrim = true ∧ exp.has flagReadOnly = false
  | .cache => exp.has flagSendCache = true
  | .writeZeroes => exp.has flagSendWriteZeroes = true ∧ exp.has flagReadOnly = false
  | .blockStatus => exp.structuredReplies = true ∧ exp.metaValid = true ∧ exp.metaContexts ≠ []

/-- The flags that a request may carry. -/
def CmdType.flagsOf (exp : Export) : CmdType → UInt32
  | .read => if exp.has flagSendDf then 0x4 else 0
  | .write => (if exp.has flagSendFua then 0x1 else 0) ||| (if exp.extendedHeaders then 0x20 else 0)
  | .trim => if exp.has flagSendFua then 0x1 else 0
  | .writeZeroes =>
    (if exp.has flagSendFua then 0x1 else 0) ||| 0x2 ||| (if exp.has flagSendFastZero then 0x10 else 0)
  | .blockStatus =>
    0x8 ||| (if exp.extendedHeaders && exp.has flagBlockStatusPayload then 0x20 else 0)
  | .disc | .flush | .cache => 0

/-- The request is about a range of the export. -/
def CmdType.ranged : CmdType → Bool
  | .disc | .flush => false
  | _ => true

/-- The length of the range. A filtered block status has it in front of its ids. -/
def Command.span (cmd : Command) : Nat :=
  if cmd.type = .blockStatus ∧ hasPayloadLen cmd.flags = true then beNat (cmd.data.take 8)
  else cmd.count.toNat

/-- A range of the export that is not empty and is aligned to the smallest block. -/
structure Export.Covers (exp : Export) (offset span : Nat) : Prop where
  pos : 0 < span
  inside : offset + span ≤ exp.exportsize.toNat
  aligned : exp.blockMinimum ≠ 0 →
    exp.blockMinimum.toNat ∣ offset ∧ exp.blockMinimum.toNat ∣ span

/-- The ids in the filter of a block status are those of negotiated contexts. -/
def Command.Filters (exp : Export) (cmd : Command) : Prop :=
  ∃ names : List CString, (∀ name ∈ names, (exp.contextId name).isSome = true) ∧
    cmd.data.drop 8 = names.flatMap fun name => toBE 4 ((exp.contextId name).getD 0).toNat

/-- The server takes the request. -/
structure Command.Admissible (exp : Export) (cmd : Command) : Prop where
  offered : cmd.type.Offered exp
  flags : cmd.flags &&& (cmd.type.flagsOf exp).toUInt16 = cmd.flags
  payloadLen : cmd.type = .write → hasPayloadLen cmd.flags = exp.extendedHeaders
  ranged : cmd.type.ranged = true → exp.Covers cmd.offset.toNat cmd.span
  unranged : cmd.type.ranged = false → cmd.offset = 0 ∧ cmd.count = 0
  size : cmd.type = .read ∨ cmd.hasPayload exp.extendedHeaders = true →
    cmd.count.toNat ≤ maxRequestSize
  payload : cmd.hasPayload exp.extendedHeaders = true →
    cmd.count.toNat ≤ exp.payloadMaximum.toNat
  count : exp.extendedHeaders = false → cmd.count ≤ uint32Max
  filter : cmd.type = .blockStatus → hasPayloadLen cmd.flags = true → cmd.Filters exp

/-! ## Flags -/

section Masks

variable {x m b : UInt32}

theorem and_or_distrib (x m b : UInt32) : x &&& (m ||| b) = (x &&& m) ||| (x &&& b) := by
  apply UInt32.toNat_inj.mp
  simp only [UInt32.toNat_and, UInt32.toNat_or, Nat.and_or_distrib_left]

/-- Nothing outside of a mask. -/
theorem masked_of_outside (h : x &&& (0xffffffff ^^^ m) = 0) : x &&& m = x := by
  have hnot : (0xffffffff ^^^ m : UInt32) = ~~~m := UInt32.neg_one_xor
  calc x &&& m = (x &&& m) ||| (x &&& ~~~m) := by rw [← hnot, h, UInt32.or_zero]
    _ = x &&& (m ||| ~~~m) := (and_or_distrib x m (~~~m)).symm
    _ = x := by rw [UInt32.or_not_self, UInt32.and_neg_one]

/-- What is in a mask is in a larger one. -/
theorem masked_mono {k : UInt32} (h : x &&& m = x) (hk : m &&& k = m) : x &&& k = x := by
  rw [← h, UInt32.and_assoc, hk]

/-- A flag that is not set can be taken out of the mask. -/
theorem masked_drop (h : x &&& (m ||| b) = x) (hb : x &&& b = 0) : x &&& m = x := by
  rw [and_or_distrib, hb, UInt32.or_zero] at h
  exact h

/-- A flag that is only set if the server has agreed to it. -/
theorem masked_if {p : Bool} (h : x &&& (m ||| b) = x) (hb : p = false → x &&& b = 0) :
    x &&& (m ||| if p then b else 0) = x := by
  cases p with
  | true => simpa only [if_true] using h
  | false =>
    rw [if_neg Bool.false_ne_true, UInt32.or_zero]
    exact masked_drop h (hb rfl)

theorem masked_if_left {p : Bool} (h : x &&& (b ||| m) = x) (hb : p = false → x &&& b = 0) :
    x &&& ((if p then b else 0) ||| m) = x := by
  rw [UInt32.or_comm] at h ⊢
  exact masked_if h hb

theorem masked_if_only {p : Bool} (h : x &&& b = x) (hb : p = false → x &&& b = 0) :
    x &&& (if p then b else 0) = x := by
  rw [← UInt32.zero_or (a := b)] at h
  rw [← UInt32.zero_or (a := if p then b else 0)]
  exact masked_if h hb

theorem masked_toUInt16 (h : x &&& m = x) : x.toUInt16 &&& m.toUInt16 = x.toUInt16 := by
  rw [← UInt32.toUInt16_and, h]

end Masks

/-! ## Ranges and sizes -/

section Requests

variable {inp : Input} {h : Handle} {r : Request}

theorem can_eq (h : Handle) (flag : UInt16) : h.can flag = h.exp.has flag := by
  unfold Handle.can Handle.getFlag Export.has
  split
  · next hzero =>
    rw [hzero, UInt16.zero_and]
    rfl
  · cases h.exp.eflags &&& flag != 0 <;> rfl

/-- The smallest block is a power of two, or there is none. -/
def Export.BlockOk (exp : Export) : Prop :=
  exp.blockMinimum ≠ 0 → ∃ k, exp.blockMinimum.toNat = 2 ^ k

/-- One test on the two numbers at once. -/
theorem aligned_iff {a b : Nat} {k : Nat} :
    (a ||| b) &&& (2 ^ k - 1) = 0 ↔ 2 ^ k ∣ a ∧ 2 ^ k ∣ b := by
  rw [Nat.and_or_distrib_right, Nat.or_eq_zero_iff, Nat.and_two_pow_sub_one_eq_mod,
    Nat.and_two_pow_sub_one_eq_mod, Nat.dvd_iff_mod_eq_zero, Nat.dvd_iff_mod_eq_zero]

/-- What the `count_err` checks leave. -/
theorem Request.covers (hs : h.strict = strictMask) (hb : h.exp.BlockOk) (herr : r.countErr ≠ 0)
    (hok : r.boundsError h = none) : h.exp.Covers r.offset.toNat r.count.toNat := by
  unfold Request.boundsError at hok
  rw [if_neg herr, isStrict_default hs (show strictMask &&& strictZeroSize ≠ 0 by decide),
    isStrict_default hs (show strictMask &&& strictBounds ≠ 0 by decide),
    isStrict_default hs (show strictMask &&& strictAlign ≠ 0 by decide)] at hok
  simp only [Bool.true_and, Bool.and_true] at hok
  split at hok
  · cases hok
  · next hzero =>
    split at hok
    · cases hok
    · next hbounds =>
      split at hok
      · cases hok
      · next halign =>
        simp only [beq_iff_eq] at hzero
        simp only [Bool.or_eq_true, decide_eq_true_eq, not_or, UInt64.not_lt,
          UInt64.le_iff_toNat_le] at hbounds
        obtain ⟨hoff, hcount⟩ := hbounds
        rw [UInt64.toNat_sub_of_le _ _ (UInt64.le_iff_toNat_le.mpr hoff)] at hcount
        refine ⟨?_, by omega, fun hmin => ?_⟩
        · refine Nat.pos_of_ne_zero fun h0 => hzero ?_
          exact UInt64.toNat_inj.mp h0
        · obtain ⟨k, hk⟩ := hb hmin
          have hone : (1 : UInt64) ≤ h.exp.blockMinimum.toUInt64 := by
            rw [UInt64.le_iff_toNat_le, UInt32.toNat_toUInt64, hk]
            exact Nat.one_le_two_pow
          have hzero : (r.offset ||| r.count) &&& (h.exp.blockMinimum.toUInt64 - 1) = 0 := by
            simpa [hmin] using halign
          have hnat := congrArg UInt64.toNat hzero
          rw [UInt64.toNat_and, UInt64.toNat_or, UInt64.toNat_sub_of_le _ _ hone,
            UInt32.toNat_toUInt64, hk] at hnat
          rw [hk]
          exact aligned_iff.mp hnat

/-- What the limits leave. -/
theorem Request.limits (hs : h.strict = strictMask) (hok : r.sizeError h = none) :
    (r.type = .read ∨ r.type = .write ∨ r.type = .blockStatus ∧ r.ids ≠ none →
      r.wireCount.toNat ≤ maxRequestSize) ∧
    (r.type = .write ∨ r.type = .blockStatus ∧ r.ids ≠ none →
      r.wireCount.toNat ≤ h.exp.payloadMaximum.toNat) ∧
    (h.exp.extendedHeaders = false → r.wireCount ≤ uint32Max) := by
  obtain ⟨hcount, hmax⟩ := Request.wireCount_le hok
  unfold Request.sizeError at hok
  rw [isStrict_default hs (show strictMask &&& strictPayload ≠ 0 by decide)] at hok
  simp only [Bool.true_and] at hok
  have hpayload : ∀ {n : UInt64}, ¬ n > h.exp.payloadMaximum.toUInt64 →
      n.toNat ≤ h.exp.payloadMaximum.toNat := by
    intro n hn
    rw [← UInt32.toNat_toUInt64]
    exact UInt64.le_iff_toNat_le.mp (UInt64.not_lt.mp hn)
  refine ⟨?_, ?_, hcount⟩
  · rintro (ht | ht)
    · rw [ht] at hok
      simp only at hok
      split at hok
      · cases hok
      · next hle =>
        rw [decide_eq_true_eq, UInt64.not_lt, UInt64.le_iff_toNat_le] at hle
        exact hle
    · exact hmax ht
  · rintro (ht | ⟨ht, hids⟩)
    · rw [ht] at hok
      simp only at hok
      split at hok
      · cases hok
      · next hle => exact hpayload (by simpa using hle)
    · obtain ⟨ids, hids⟩ := Option.ne_none_iff_exists'.mp hids
      rw [ht, hids] at hok
      simp only at hok
      split at hok
      · cases hok
      · next hle =>
        simp only [Bool.or_eq_true, not_or, decide_eq_true_eq] at hle
        exact hpayload hle.2

/-- What a call has to see to, the size and the range apart. -/
structure Request.Proper (exp : Export) (r : Request) : Prop where
  offered : r.type.Offered exp
  flags : r.flags &&& (r.type.flagsOf exp).toUInt16 = r.flags
  checked : r.type.ranged = true → r.countErr ≠ 0
  unranged : r.type.ranged = false → r.offset = 0 ∧ r.count = 0
  payloadLen : r.type = .write → hasPayloadLen r.flags = exp.extendedHeaders
  filtered : r.type = .blockStatus → hasPayloadLen r.flags = true → r.ids ≠ none
  ids : ∀ ids, r.ids = some ids → ∃ names : List CString,
    (∀ name ∈ names, (exp.contextId name).isSome = true) ∧
      ids = toBE 8 r.count.toNat ++
        names.flatMap fun name => toBE 4 ((exp.contextId name).getD 0).toNat

/-- Without a filter the count is the caller's. -/
theorem Request.wireCount_eq (h : r.type = .blockStatus → r.ids = none) :
    r.wireCount = r.count := by
  unfold Request.wireCount
  split
  · next ids ht hsome =>
    rw [h ht] at hsome
    cases hsome
  · rfl

theorem Request.Proper.span {exp : Export} (hp : r.Proper exp)
    (hids : r.ids ≠ none → hasPayloadLen r.flags = true) :
    (r.command h).span = r.count.toNat := by
  unfold Command.span
  split
  · next hf =>
    obtain ⟨ids, hsome⟩ := Option.ne_none_iff_exists'.mp (hp.filtered hf.1 hf.2)
    obtain ⟨names, -, rfl⟩ := hp.ids ids hsome
    have hdata : (r.command h).data = toBE 8 r.count.toNat ++
        names.flatMap fun name => toBE 4 ((exp.contextId name).getD 0).toNat := by
      simp only [Request.command, hsome, Option.getD_some]
    rw [hdata, List.take_left' (length_toBE 8 _), beNat_toBE r.count.toNat_lt]
  · next hf =>
    refine congrArg UInt64.toNat (Request.wireCount_eq fun ht => ?_)
    by_contra hsome
    exact hf ⟨ht, hids hsome⟩

/-- A request that is not too large and lies inside of the export. -/
theorem Request.Proper.admissible (hp : r.Proper h.exp) (hs : h.strict = strictMask)
    (hb : h.exp.BlockOk) (hids : r.ids ≠ none → hasPayloadLen r.flags = true)
    (herr : r.error h inp.alloc = none) : (r.command h).Admissible h.exp := by
  obtain ⟨hbounds, hsize⟩ := Request.checks_of_error herr
  obtain ⟨hmax, hpayload, hcount⟩ := Request.limits hs hsize
  have hcarries : (r.command h).hasPayload h.exp.extendedHeaders = true →
      r.type = .write ∨ r.type = .blockStatus ∧ r.ids ≠ none := fun hpay =>
    (hasPayload_request hpay).imp id fun hf => ⟨hf.2.1, hp.filtered hf.2.1 hf.2.2⟩
  refine ⟨hp.offered, hp.flags, hp.payloadLen, fun hr => ?_, fun hr => ?_, ?_, ?_, hcount,
    fun ht hl => ?_⟩
  · rw [hp.span hids]
    exact Request.covers hs hb (hp.checked hr) hbounds
  · obtain ⟨hoff, hzero⟩ := hp.unranged hr
    refine ⟨hoff, (Request.wireCount_eq fun ht => ?_).trans hzero⟩
    have hr' : r.type.ranged = false := hr
    rw [ht] at hr'
    cases hr'
  · rintro (ht | hpay)
    · exact hmax (.inl ht)
    · exact hmax (.inr (hcarries hpay))
  · exact fun hpay => hpayload (hcarries hpay)
  · obtain ⟨ids, hsome⟩ := Option.ne_none_iff_exists'.mp (hp.filtered ht hl)
    obtain ⟨names, hknown, rfl⟩ := hp.ids ids hsome
    refine ⟨names, hknown, ?_⟩
    simp only [Request.command, hsome, Option.getD_some]
    exact List.drop_left' (length_toBE 8 _)

end Requests

/-! ## Calls -/

section Calls

variable {inp : Input} {h : Handle} {call : Call} {cmd : Command}

theorem underStrictCommands_default (hs : h.strict = strictMask) (e : Option (UInt32 × String)) :
    underStrictCommands h e = e := if_pos (isStrict_default hs (by decide))

theorem supportError_none {flag : UInt16} {text : String} (hok : supportError h flag text = none) :
    h.exp.has flag = true := by
  unfold supportError at hok
  split at hok
  · next hcan => exact can_eq h flag ▸ hcan
  · cases hok

theorem readOnlyError_none (hok : readOnlyError h = none) : h.exp.has flagReadOnly = false := by
  unfold readOnlyError at hok
  split at hok
  · cases hok
  · next hcan =>
    rw [can_eq] at hcan
    exact Bool.eq_false_iff.mpr hcan

/-- A check that lets a flag through only if the server has agreed to it. -/
theorem flag_unset {flags flag : UInt32} {agreed : UInt16} {e : UInt32 × String}
    (hok : (if hasFlag flags flag && !h.can agreed then some e else none) = none)
    (hno : h.exp.has agreed = false) : flags &&& flag = 0 := by
  split at hok
  · cases hok
  · next hset =>
    rw [can_eq, hno, Bool.not_false, Bool.and_true] at hset
    simpa [hasFlag] using hset

theorem fuaError_none {flags : UInt32} (hok : fuaError h flags = none)
    (hno : h.exp.has flagSendFua = false) : flags &&& cmdFlagFua = 0 := flag_unset hok hno

theorem checkAioBlockStatus_none (hs : h.strict = strictMask) (hok : checkAioBlockStatus h = none) :
    h.exp.structuredReplies = true ∧ h.exp.metaValid = true ∧ h.exp.metaContexts ≠ [] := by
  unfold checkAioBlockStatus at hok
  rw [underStrictCommands_default hs] at hok
  split at hok
  · cases hok
  · next hsr =>
    split at hok
    · cases hok
    · next hmeta =>
      simp only [Bool.or_eq_true, not_or, Bool.not_eq_true, Bool.not_eq_false',
        List.isEmpty_eq_false_iff] at hmeta
      exact ⟨by simpa using hsr, hmeta.1, hmeta.2⟩

/-- The flags of a call are among those it admits. -/
theorem call_masked (hs : h.strict = strictMask) (hok : callError inp h call = none) :
    call.flags &&& call.flagMask = call.flags :=
  masked_of_outside ((callError_checks hok).2.1 (isStrict_default hs (by decide)))

/-- The range of a call is checked if it has one. -/
theorem callRequest_ranged (h : Handle) (call : Call) :
    ((callRequest h call).type.ranged = true → (callRequest h call).countErr ≠ 0) ∧
      ((callRequest h call).type.ranged = false →
        (callRequest h call).offset = 0 ∧ (callRequest h call).count = 0) := by
  have hinval : einval ≠ 0 := by decide
  have hnospc : enospc ≠ 0 := by decide
  cases call with
  | aioFlush completion flags => exact ⟨fun hr => (by cases hr), fun _ => ⟨rfl, rfl⟩⟩
  | aioPwrite | aioTrim | aioZero => exact ⟨fun _ => hnospc, fun hr => by cases hr⟩
  | _ => exact ⟨fun _ => hinval, fun hr => by cases hr⟩

/-- A request without a filter that is not a write. -/
theorem proper_plain (hids : (callRequest h call).ids = none)
    (hw : (callRequest h call).type ≠ .write)
    (hflags : (callRequest h call).flags = call.flags.toUInt16)
    (ho : (callRequest h call).type.Offered h.exp)
    (hf : call.flags &&& (callRequest h call).type.flagsOf h.exp = call.flags)
    (hl : hasPayloadLen call.flags.toUInt16 = false) :
    (callRequest h call).Proper h.exp ∧
      ((callRequest h call).ids ≠ none → hasPayloadLen (callRequest h call).flags = true) := by
  obtain ⟨hchecked, hunranged⟩ := callRequest_ranged h call
  refine ⟨⟨ho, ?_, hchecked, hunranged, fun ht => absurd ht hw, fun _ hlen => ?_,
    fun ids hsome => ?_⟩, fun hsome => absurd hids hsome⟩
  · rw [hflags]
    exact masked_toUInt16 hf
  · rw [hflags, hl] at hlen
    cases hlen
  · rw [hids] at hsome
    cases hsome

/-- `nbd_aio_pwrite` manages `PAYLOAD_LEN`. -/
theorem pwriteFlags_masked (hs : h.strict = strictMask) {flags : UInt32}
    (hmask : flags &&& 0x21 = flags) (hfua : fuaError h (pwriteFlags h flags) = none) :
    pwriteFlags h flags &&& CmdType.flagsOf h.exp .write = pwriteFlags h flags := by
  have hauto : pwriteFlags h flags = if h.exp.extendedHeaders then flags ||| 0x20
      else flags &&& (0xffffffff ^^^ 0x20) := if_pos (isStrict_default hs (by decide))
  have hboth : pwriteFlags h flags &&& (0x1 ||| 0x20) = pwriteFlags h flags := by
    rw [hauto]
    split
    · rw [UInt32.and_comm, and_or_distrib, UInt32.and_comm (0x1 ||| 0x20) flags]
      exact congrArg (· ||| (0x20 : UInt32)) hmask
    · rw [UInt32.and_assoc, UInt32.and_comm _ (0x1 ||| 0x20), ← UInt32.and_assoc]
      exact congrArg (· &&& (0xffffffff ^^^ 0x20 : UInt32)) hmask
  refine masked_if_left (masked_if hboth fun he => ?_) fun hno => fuaError_none hfua hno
  rw [hauto, he, if_neg Bool.false_ne_true, UInt32.and_assoc]
  exact UInt32.and_zero

theorem pwrite_proper (hs : h.strict = strictMask) {buf : Option (List UInt8)}
    {count offset : UInt64} {completion : Closure} {flags : UInt32}
    (hmask : flags &&& 0x21 = flags)
    (hun : unlockedError inp h (.aioPwrite buf count offset completion flags) = none) :
    (callRequest h (.aioPwrite buf count offset completion flags)).Proper h.exp := by
  simp only [unlockedError, underStrictCommands_default hs, Option.or_eq_none_iff] at hun
  obtain ⟨hro, hfua, -⟩ := hun
  obtain ⟨hchecked, hunranged⟩ :=
    callRequest_ranged h (.aioPwrite buf count offset completion flags)
  refine ⟨readOnlyError_none hro, masked_toUInt16 (pwriteFlags_masked hs hmask hfua), hchecked,
    hunranged, fun _ => ?_, fun ht => ?_, fun ids hsome => ?_⟩
  · change hasPayloadLen (pwriteFlags h flags).toUInt16 = h.exp.extendedHeaders
    rw [pwriteFlags_default hs]
    cases h.exp.extendedHeaders with
    | true => exact hasPayloadLen_or _
    | false => exact hasPayloadLen_and _
  · cases ht
  · cases hsome

/-- `nbd_aio_zero`. -/
theorem zero_masked {flags : UInt32} (hmask : flags &&& 0x13 = flags)
    (hfua : fuaError h flags = none)
    (hfast : h.exp.has flagSendFastZero = false → flags &&& cmdFlagFastZero = 0) :
    flags &&& CmdType.flagsOf h.exp .writeZeroes = flags := by
  have hthree : flags &&& ((0x1 ||| 0x2) ||| 0x10) = flags := hmask
  have htwo := masked_if hthree hfast
  rw [UInt32.or_assoc] at htwo
  have hone := masked_if_left htwo fun hno => fuaError_none hfua hno
  rw [← UInt32.or_assoc] at hone
  exact hone

/-- `nbd_aio_block_status_filter` sets `PAYLOAD_LEN`. -/
theorem filter_proper (hs : h.strict = strictMask) {count offset : UInt64} {filter : List CString}
    {extent64 completion : Closure} {flags : UInt32} (hmask : flags &&& 0x28 = flags)
    (hun : unlockedError inp h (.aioBlockStatusFilter count offset filter extent64 completion flags)
      = none) :
    (callRequest h (.aioBlockStatusFilter count offset filter extent64 completion flags)).Proper
        h.exp ∧
      hasPayloadLen (callRequest h
        (.aioBlockStatusFilter count offset filter extent64 completion flags)).flags = true := by
  obtain ⟨hext, -, ids, hids⟩ := filter_checked hs hun
  obtain ⟨hknown, rfl⟩ := filterIds_eq hids
  have hauto : filterFlags h flags = flags ||| 0x20 := if_pos (isStrict_default hs (by decide))
  have hlen : hasPayloadLen (filterFlags h flags).toUInt16 = true := by
    rw [hauto, UInt32.toUInt16_or]
    exact hasPayloadLen_or _
  simp only [unlockedError, Option.or_eq_none_iff, filterError, underStrictCommands_default hs]
    at hun
  obtain ⟨hcheck, hfilter, -⟩ := hun
  have hagreed : h.exp.has flagBlockStatusPayload = true := by
    split at hfilter
    · cases hfilter
    · split at hfilter
      · cases hfilter
      · next hcan => simpa [can_eq] using hcan
  obtain ⟨hchecked, hunranged⟩ :=
    callRequest_ranged h (.aioBlockStatusFilter count offset filter extent64 completion flags)
  refine ⟨⟨checkAioBlockStatus_none hs hcheck, masked_toUInt16 ?_, hchecked, hunranged,
    fun ht => ?_, fun _ _ hnone => ?_, fun ids hsome => ?_⟩, hlen⟩
  · simp only [CmdType.flagsOf, callRequest, hauto, hext, hagreed, Bool.and_true, if_true]
    rw [UInt32.and_comm, and_or_distrib, UInt32.and_comm (0x8 ||| 0x20) flags]
    exact congrArg (· ||| (0x20 : UInt32)) hmask
  · cases ht
  · cases hnone
  · simp only [callRequest, hids, Option.getD_some, Option.some.injEq] at hsome
    exact ⟨filter, hknown, hsome.symm⟩

/-- What `nbd_unlocked_aio_*` makes of a call that passes the checks. -/
theorem callRequest_proper (hs : h.strict = strictMask) (hok : callError inp h call = none) :
    (callRequest h call).Proper h.exp ∧
      ((callRequest h call).ids ≠ none → hasPayloadLen (callRequest h call).flags = true) := by
  have hmask := call_masked hs hok
  have hplain := no_payloadLen (isStrict_default hs (by decide)) hok
  obtain ⟨-, -, hun⟩ := callError_checks hok
  cases call with
  | aioPread buf count offset completion flags =>
    have hmask' : flags &&& 0 = flags := hmask
    exact proper_plain rfl (fun ht => by cases ht) rfl trivial
      (masked_mono hmask' UInt32.zero_and) (hplain (by simp only [Call.flagMask]; decide))
  | aioPreadStructured buf count offset chunk completion flags =>
    simp only [unlockedError, underStrictCommands_default hs] at hun
    exact proper_plain rfl (fun ht => by cases ht) rfl trivial
      (masked_if_only hmask fun hno => flag_unset hun hno)
      (hplain (by simp only [Call.flagMask]; decide))
  | aioPwrite buf count offset completion flags =>
    exact ⟨pwrite_proper hs hmask hun, fun hids => absurd rfl hids⟩
  | aioFlush completion flags =>
    simp only [unlockedError, underStrictCommands_default hs] at hun
    exact proper_plain rfl (fun ht => by cases ht) rfl (supportError_none hun) hmask
      (hplain (by simp only [Call.flagMask]; decide))
  | aioTrim count offset completion flags =>
    simp only [unlockedError, underStrictCommands_default hs, Option.or_eq_none_iff] at hun
    obtain ⟨htrim, hro, hfua⟩ := hun
    exact proper_plain rfl (fun ht => by cases ht) rfl
      ⟨supportError_none htrim, readOnlyError_none hro⟩
      (masked_if_only hmask fun hno => fuaError_none hfua hno)
      (hplain (by simp only [Call.flagMask]; decide))
  | aioCache count offset completion flags =>
    simp only [unlockedError, underStrictCommands_default hs] at hun
    exact proper_plain rfl (fun ht => by cases ht) rfl (supportError_none hun) hmask
      (hplain (by simp only [Call.flagMask]; decide))
  | aioZero count offset completion flags =>
    simp only [unlockedError, underStrictCommands_default hs, Option.or_eq_none_iff] at hun
    obtain ⟨hzero, hro, hfua, hfast⟩ := hun
    exact proper_plain rfl (fun ht => by cases ht) rfl
      ⟨supportError_none hzero, readOnlyError_none hro⟩
      (zero_masked hmask hfua fun hno => flag_unset hfast hno)
      (hplain (by simp only [Call.flagMask]; decide))
  | aioBlockStatus count offset extent completion flags
  | aioBlockStatus64 count offset extent64 completion flags =>
    have hmask' : flags &&& 0x8 = flags := hmask
    refine proper_plain rfl (fun ht => by cases ht) rfl (checkAioBlockStatus_none hs hun)
      (masked_mono hmask' ?_) (hplain (by simp only [Call.flagMask]; decide))
    simp only [callRequest, CmdType.flagsOf]
    split <;> decide
  | aioBlockStatusFilter count offset filter extent64 completion flags =>
    obtain ⟨hproper, hlen⟩ := filter_proper hs hmask hun
    exact ⟨hproper, fun _ => hlen⟩

/-- A call makes what the server takes. -/
theorem makes_admissible (hs : h.strict = strictMask) (hb : h.exp.BlockOk)
    (hm : Call.Makes inp h call cmd) : cmd.Admissible h.exp := by
  obtain ⟨hok, herr, rfl⟩ := hm
  obtain ⟨hproper, hids⟩ := callRequest_proper hs hok
  exact hproper.admissible hs hb hids herr

theorem disc_admissible (hs : h.strict = strictMask) (hd : Disconnects h cmd) :
    cmd.Admissible h.exp := by
  obtain ⟨h₁, flags, -, rfl, hf⟩ := hd
  obtain rfl := hf (isStrict_default hs (by decide))
  have hpay : ((discRequest 0).command h₁).hasPayload h.exp.extendedHeaders = false := by
    cases h.exp.extendedHeaders <;> rfl
  refine ⟨trivial, UInt16.zero_and, fun ht => ?_, fun hr => ?_, fun _ => ⟨rfl, rfl⟩, ?_,
    fun hp => ?_, fun _ => ?_, fun ht => ?_⟩
  · cases ht
  · cases hr
  · rintro (ht | hp)
    · cases ht
    · rw [hpay] at hp
      cases hp
  · rw [hpay] at hp
    cases hp
  · change (0 : UInt64) ≤ uint32Max
    decide
  · cases ht

end Calls

/-! ## Runs -/

/-- Commands are only asked for under the default strict mode. -/
def Strictly (c : Config) : Label → Prop
  | .call (.command _) _ | .call (.aioDisconnect _) _ | .call (.shutdown _) _ =>
    c.h.strict = strictMask
  | _ => True

instance (c : Config) (l : Label) : Decidable (Strictly c l) :=
  match l with
  | .call (.command _) _ | .call (.aioDisconnect _) _ | .call (.shutdown _) _ =>
    instDecidableEqUInt32 c.h.strict strictMask
  | .call (.aioCommandCompleted _) _ | .call .aioNotifyRead _ | .call .aioNotifyWrite _
  | .call (.setStrictMode _) _ | .call (.setPreadInitialize _) _ | .call .close _ | .enter _ =>
    .isTrue trivial

/-- The server's terms are kept so far, and nothing was asked for after `NBD_CMD_DISC`. -/
structure Terms (c : Config) : Prop where
  lists : c.ctl = .closed ∧ c.h.book.commands = [] ∨ ShutInv c ∧ c.h.book.Descends
  admissible : ∀ cmd ∈ accepted c.h.trace, cmd.Admissible c.h.exp
  last : ∀ d ∈ (accepted c.h.trace).dropLast, d.type ≠ .disc

section Runs

variable {c c' : Config} {l : Label}

/-- What a submission accepts, it accepts before `NBD_CMD_DISC`. -/
theorem afterSubmit_before {h : Handle} {k : After} {s : Submit} {P : Command → Prop}
    (ha : s.AcceptsOnce h P) : accepted (afterSubmit h k s).h.trace = accepted h.trace ∨
      h.disconnectRequest = false ∧
        ∃ cmd, P cmd ∧ accepted (afterSubmit h k s).h.trace = accepted h.trace ++ [cmd] := by
  cases s with
  | refused h' | rejected h' => exact .inl ha.1
  | abort a => exact .inl rfl
  | accepted h' run =>
    rw [afterSubmit_trace]
    exact ha.2.imp And.right id

/-- One call accepts one command at most, which the server takes. -/
theorem apiCall_before {inp : Input} {h : Handle} {api : Api} (hinv : h.book.Inv) (ht : Tails h)
    (hi : Idle h) (hb : h.exp.BlockOk) (hs : ∀ ctl, Strictly ⟨h, ctl⟩ (.call api inp)) :
    accepted (apiCall inp h api).h.trace = accepted h.trace ∨
      h.disconnectRequest = false ∧ ∃ cmd, cmd.Admissible h.exp ∧
        accepted (apiCall inp h api).h.trace = accepted h.trace ++ [cmd] := by
  cases api with
  | command call =>
    have hexp := sanitize_exp h call
    have hstrict : (sanitize h call).strict = strictMask := by
      obtain ⟨m, hm⟩ := sanitize_eq h call
      rw [hm]
      exact hs (.idle 0)
    refine (afterSubmit_before (submit_acceptsOnce call hinv ht hi)).imp id ?_
    rintro ⟨hd, cmd, hmade, hacc⟩
    have hadm := makes_admissible hstrict (hexp.symm ▸ hb) hmade
    exact ⟨hd, cmd, hexp ▸ hadm, hacc⟩
  | aioDisconnect flags =>
    refine (afterSubmit_before (disc_acceptsOnce (.inl rfl) hinv ht hi)).imp id ?_
    rintro ⟨hd, cmd, hdisc, hacc⟩
    exact ⟨hd, cmd, disc_admissible (hs (.idle 0)) hdisc, hacc⟩
  | shutdown flags =>
    refine (afterSubmit_before (disc_acceptsOnce (.inr rfl) hinv ht hi)).imp id ?_
    rintro ⟨hd, cmd, hdisc, hacc⟩
    exact ⟨hd, cmd, disc_admissible (hs (.idle 0)) hdisc, hacc⟩
  | close =>
    refine .inl ?_
    change accepted (close inp h).trace = _
    simp only [close, Handle.log, accepted_append, accepted_freeCmdList, List.append_nil]
  | aioNotifyRead | aioNotifyWrite | setStrictMode | setPreadInitialize | aioCommandCompleted =>
    exact .inl (no_submission_disc (fun h => by cases h) rfl).2

theorem Terms.step (ht : Terms c) (hb : c.h.exp.BlockOk) (hl : Strictly c l)
    (hstep : machine.step c l = some c') : Terms c' := by
  obtain ⟨hs, hdesc⟩ : ShutInv c ∧ c.h.book.Descends := ht.lists.resolve_left fun hcl => by
    cases l <;> simp [machine, Libnbd.step, hcl.1] at hstep
  have hexp : c'.h.exp = c.h.exp := (step_names hs.sound hstep).exp
  have hkey : accepted c'.h.trace = accepted c.h.trace ∨ c.h.disconnectRequest = false ∧
      (∃ r, c.ctl = .idle r) ∧ ∃ cmd, cmd.Admissible c.h.exp ∧
        accepted c'.h.trace = accepted c.h.trace ++ [cmd] := by
    obtain ⟨inp, k, rfl, hctl, rfl⟩ | ⟨api, inp, r, rfl, hctl, rfl⟩ := step_cases hstep
    · refine .inl ?_
      exact stepEnter_all (P := fun h' => accepted h'.trace = accepted c.h.trace) k
        ((enter_proceeds inp hs.sound.inv hs.sound.tails).mono fun _ hp => hp.accepted) rfl
        fun _ _ hp => hp
    · have htails : Tails { c.h with lastError := inp.lastError } :=
        ⟨hs.sound.tails.toIssue, hs.sound.tails.done⟩
      have hstrict : ∀ ctl, Strictly ⟨{ c.h with lastError := inp.lastError }, ctl⟩
          (.call api inp) := by
        intro ctl
        cases api <;> exact hl
      have hcall := apiCall_before (h := { c.h with lastError := inp.lastError }) hs.sound.inv
        htails (hs.sound.idle r hctl) hb hstrict
      exact hcall.imp id fun hd => ⟨hd.1, ⟨r, hctl⟩, hd.2⟩
  refine ⟨?_, ?_, ?_⟩
  · by_cases hcl : c'.ctl = .closed
    · obtain ⟨inp, rfl⟩ := close_of_closed hstep hcl
      exact .inl ⟨rfl, rfl⟩
    · have hr := (step_refines hs.sound hstep).resolve_left hcl
      exact .inr ⟨(step_shutInv hs hstep).resolve_left hcl,
        hr.steps.invariant (fun _ _ hb hstep => hb.step hstep) hdesc⟩
  · rw [hexp]
    rcases hkey with hacc | ⟨-, -, cmd, hadm, hacc⟩
    · rw [hacc]
      exact ht.admissible
    · rw [hacc]
      intro d hd
      rcases List.mem_append.mp hd with hd | hd
      · exact ht.admissible d hd
      · rw [List.mem_singleton.mp hd]
        exact hadm
  · rcases hkey with hacc | ⟨hdisc, ⟨r, hctl⟩, cmd, -, hacc⟩
    · rw [hacc]
      exact ht.last
    · rw [hacc, List.dropLast_concat]
      -- `disconnect_request` would tell of a `NBD_CMD_DISC`
      intro d hd hty
      rcases hs.once.said ⟨d, hd, hty⟩ with h | h | ⟨a, h⟩
      · rw [hdisc] at h
        cases h
      · rw [hctl] at h
        cases h
      · rw [hctl] at h
        cases h

theorem initial_terms (hi : machine.init c) : Terms c := by
  have hsound := initial_sound hi
  obtain ⟨exp, strict, pi, hdr, payload, mem, rfl⟩ := hi
  refine ⟨.inr ⟨⟨hsound, ⟨Nat.zero_le _, ?_⟩, List.Sublist.refl _⟩, ?_⟩, ?_, ?_⟩
  · rintro ⟨d, hd, -⟩
    exact absurd hd List.not_mem_nil
  · exact fun d hd => absurd hd List.not_mem_nil
  · exact fun d hd => absurd hd List.not_mem_nil
  · exact fun d hd => absurd hd List.not_mem_nil

/-- What is queued, in flight or done was accepted. -/
theorem Terms.commands (ht : Terms c) : ∀ cmd ∈ c.h.book.commands, cmd.Admissible c.h.exp := by
  intro cmd hmem
  rcases ht.lists with ⟨-, hnil⟩ | ⟨-, hdesc⟩
  · rw [hnil] at hmem
    cases hmem
  · obtain ⟨a, ha, hsame⟩ := hdesc cmd hmem
    have hadm := ht.admissible a ha
    rw [hsame]
    exact ⟨hadm.1, hadm.2, hadm.3, hadm.4, hadm.5, hadm.6, hadm.7, hadm.8, hadm.9⟩

end Runs

end Libnbd

namespace Libnbd.Session

open Lib

/-- The same for a handle over its whole life. -/
def Strictly : Session → Label → Prop
  | connected _ c, .transmit l => Libnbd.Strictly c l
  | _, _ => True

instance (s : Session) (l : Label) : Decidable (Strictly s l) :=
  match s, l with
  | connected _ c, .transmit l => inferInstanceAs (Decidable (Libnbd.Strictly c l))
  | connected _ _, .negotiate _ | connected _ _, .handover _ _ | negotiating _, _ => .isTrue trivial

/-- The terms of the export that the handle is connected to. -/
def OnTerms : Session → Prop
  | negotiating _ => True
  | connected _ c => c.h.exp.BlockOk → Terms c

theorem entered_onTerms (pending : Bool) (n : Negotiation.Handle) (s : Setting) :
    (enterReady pending n s).OnTerms := by
  have hfirst : Terms ⟨entered n s, .idle 0⟩ := initial_terms (initial_entered n s)
  unfold enterReady
  split
  · trivial
  · split
    · intro hb
      -- the run that goes on in `REPLY.START` is that of a read notification
      have hnext : machine.step ⟨entered n s, .idle 0⟩
          (.call .aioNotifyRead { Input.calm with lastError := n.lastError }) =
          some ⟨{ entered n s with state := .replyStart, lastError := n.lastError },
            .running .notify⟩ := rfl
      have hstrict : Libnbd.Strictly ⟨entered n s, .idle 0⟩
          (.call .aioNotifyRead { Input.calm with lastError := n.lastError }) := trivial
      exact hfirst.step hb hstrict hnext
    · exact fun _ => hfirst

theorem step_onTerms {s s' : Session} {l : Label} (hc : s.Coupled) (hs : s.OnTerms)
    (hl : Strictly s l) (hstep : system.step s l = some s') : s'.OnTerms := by
  have hc' := step_coupled hc hstep
  cases s with
  | negotiating c =>
    cases l with
    | negotiate l =>
      simp only [system, step] at hstep
      split at hstep
      · cases hstep
      · obtain ⟨c', -, rfl⟩ := Option.map_eq_some_iff.mp hstep
        trivial
    | handover pending start =>
      simp only [system, step] at hstep
      split at hstep
      · cases hstep
        exact entered_onTerms pending c.h start
      · cases hstep
    | transmit l => cases hstep
  | connected n c =>
    cases l with
    | negotiate l => cases hstep
    | handover pending start => cases hstep
    | transmit l =>
      obtain ⟨c', hnext, rfl⟩ := Option.map_eq_some_iff.mp hstep
      intro hb
      rw [hc'.2.2, ← hc.2.2] at hb
      exact (hs hb).step hb hl hnext

/-- The block sizes were checked when the server sent them. -/
theorem blocked_of_run {c₀ : Negotiation.Config} {ls : List Label} {n : Negotiation.Handle}
    {c : Config} (hi : Negotiation.machine.init c₀)
    (he : system.exec (negotiating c₀) ls = some (connected n c)) : c.h.exp.BlockOk := by
  obtain ⟨ctl, hx, -, hcon⟩ := exec_negotiation ⟨c₀, [], hi, rfl⟩ he
  obtain ⟨-, keep, rfl⟩ := hcon n c rfl
  have hknown := (Negotiation.run_known hi hx).resolve_left (by simp)
  intro hmin
  rcases hknown.blocks with ⟨hzero, -, -⟩ | ⟨hpow, -⟩
  · exact absurd hzero hmin
  · exact hpow

/-- **The server's terms are kept.** In every run of a handle in which commands are asked for
under the default strict mode, every command that was ever accepted, and so every command
that is queued or sent, is one that the server takes on the terms that were negotiated; and
nothing is accepted after `NBD_CMD_DISC`. -/
theorem requests_on_terms {s : Session} (hs : system.ReachableBy Strictly s) :
    ∀ n c, s = connected n c →
      (∀ cmd, cmd ∈ accepted c.h.trace ∨ cmd ∈ c.h.book.commands → cmd.Admissible c.h.exp) ∧
        ∀ d ∈ (accepted c.h.trace).dropLast, d.type ≠ .disc := by
  rintro n c rfl
  obtain ⟨_, ls, ⟨c₀, hi, rfl⟩, hm, he⟩ := hs
  have hstart : (negotiating c₀).Coupled ∧ (negotiating c₀).OnTerms :=
    ⟨⟨c₀, [], hi, rfl⟩, trivial⟩
  have hinv := system.exec_invariant (P := fun s => s.Coupled ∧ s.OnTerms)
    (fun s l s' h hl hstep => ⟨step_coupled h.1 hstep, step_onTerms h.1 h.2 hl hstep⟩) hstart hm he
  have hterms : Terms c := hinv.2 (blocked_of_run hi he)
  refine ⟨fun cmd hmem => ?_, hterms.last⟩
  rcases hmem with hmem | hmem
  · exact hterms.admissible cmd hmem
  · exact hterms.commands cmd hmem

/-- Read 512 bytes once connected. -/
def connectAndRead : List Label :=
  connectWithContext ++ [Label.transmit (.call (.command (.aioPread 4096 512 0 .null 0)) .calm)]

/-- The commands accepted so far. -/
def asked : Session → List Command
  | negotiating _ => []
  | connected _ c => accepted c.h.trace

theorem requests_on_terms_read : ∃ n c cmd,
    system.exec (.negotiating .created) connectAndRead = some (connected n c) ∧
      accepted c.h.trace = [cmd] ∧ cmd.type = .read ∧ cmd.Admissible c.h.exp := by
  have hrun : (system.exec (.negotiating .created) connectAndRead).map (fun s =>
      (s.asked.map Command.type, system.check (fun s l => decide (Strictly s l))
        (.negotiating .created) connectAndRead)) = some ([.read], true) := by
    decide +kernel
  obtain ⟨s, hs, hp⟩ := Option.map_eq_some_iff.mp hrun
  simp only [Prod.mk.injEq] at hp
  obtain ⟨htypes, hcheck⟩ := hp
  obtain ⟨cmd, hasked, htype⟩ := List.map_eq_singleton_iff.mp htypes
  cases s with
  | negotiating c => cases hasked
  | connected n c =>
    have hterms := requests_on_terms
      ⟨_, _, initial_created, system.meets_of_check hcheck, hs⟩ n c rfl
    refine ⟨n, c, cmd, hs, hasked, htype, hterms.1 cmd (.inl ?_)⟩
    rw [show accepted c.h.trace = [cmd] from hasked]
    exact List.mem_cons_self

end Libnbd.Session
