import Libnbd.Coverage
import Libnbd.Lib.Parse

/-!
The encoding of requests (`lib/nbd-protocol.h`).

Whether a payload follows a header is decided in `PREPARE_WRITE_PAYLOAD`; the
flags, the count and the data that must agree with this decision are fixed in
`lib/rw.c`. `Command.WellFormed` is the agreement, which every call made under the
default strict mode keeps; the request grammar then gives back what was asked for.
`Emitting` follows a command through the states of `ISSUE_COMMAND`.
-/

namespace Libnbd

open Lib Parser

/-! ## The request grammar -/

/-- A request, as the server reads it. -/
structure Message where
  flags : UInt16
  type : CmdType
  cookie : UInt64
  offset : UInt64
  count : UInt64
  payload : List UInt8
  deriving DecidableEq, Repr

def CmdType.ofCode : Nat → Option CmdType
  | 0 => some read
  | 1 => some write
  | 2 => some disc
  | 3 => some flush
  | 4 => some trim
  | 5 => some cache
  | 6 => some writeZeroes
  | 7 => some blockStatus
  | _ => none

theorem CmdType.ofCode_code (t : CmdType) : CmdType.ofCode t.code = some t := by cases t <;> rfl

/-- `NBD_CMD_FLAG_PAYLOAD_LEN`. -/
def hasPayloadLen (flags : UInt16) : Bool := flags &&& cmdFlagPayloadLen.toUInt16 != 0

/-- Whether `count` bytes of payload follow the header. -/
def payloadFollows (extended : Bool) (flags : UInt16) (type : CmdType) : Bool :=
  if extended then hasPayloadLen flags else type == .write

/-- `struct nbd_request` or `struct nbd_request_ext`, and its payload. -/
def parseMessage (extended : Bool) : Parser Message := do
  let magic ← number 4
  let flags ← number 2
  let code ← number 2
  let cookie ← number 8
  let offset ← number 8
  let count ← number (if extended then 8 else 4)
  match CmdType.ofCode code with
  | none => failure
  | some type => do
    let payload ← bytes (if payloadFollows extended (.ofNat flags) type then count else 0)
    if magic = (if extended then nbdExtendedRequestMagic else nbdRequestMagic) then
      pure ⟨.ofNat flags, type, .ofNat cookie, .ofNat offset, .ofNat count, payload⟩
    else failure

/-- The payload of a command. -/
def Command.payload (extended : Bool) (cmd : Command) : List UInt8 :=
  if cmd.hasPayload extended then cmd.data.take cmd.count.toNat else []

/-- What a command says. The cookie is a `uint64_t`. -/
def Command.message (extended : Bool) (cmd : Command) : Message :=
  ⟨cmd.flags, cmd.type, .ofNat cmd.cookie, cmd.offset, cmd.count, cmd.payload extended⟩

/-- The header and the payload agree. -/
structure Command.WellFormed (extended : Bool) (cmd : Command) : Prop where
  count : extended = false → cmd.count ≤ uint32Max
  payload : cmd.hasPayload extended = payloadFollows extended cmd.flags cmd.type
  data : cmd.hasPayload extended = true → cmd.count.toNat ≤ cmd.data.length
  write : cmd.type = .write → cmd.count.toNat ≤ maxRequestSize

theorem Command.WellFormed.length_payload {extended : Bool} {cmd : Command}
    (hw : cmd.WellFormed extended) : (cmd.payload extended).length =
      if payloadFollows extended cmd.flags cmd.type then cmd.count.toNat else 0 := by
  unfold Command.payload
  rw [← hw.payload]
  split
  · rename_i hp
    rw [List.length_take, Nat.min_eq_left (hw.data hp)]
  · rfl

theorem code_lt (t : CmdType) : t.code < 256 ^ 2 := by cases t <;> decide

/-- The part of the parser behind the count. -/
theorem reads_payload {extended : Bool} {cmd : Command} (hw : cmd.WellFormed extended) {magic : Nat}
    (hm : magic = if extended then nbdExtendedRequestMagic else nbdRequestMagic) (cookie : Nat)
    (hc : UInt64.ofNat cookie = .ofNat cmd.cookie) :
    Reads (match CmdType.ofCode cmd.type.code with
      | none => failure
      | some type => do
        let payload ← bytes
          (if payloadFollows extended (.ofNat cmd.flags.toNat) type then cmd.count.toNat else 0)
        if magic = (if extended then nbdExtendedRequestMagic else nbdRequestMagic) then
          pure (⟨.ofNat cmd.flags.toNat, type, .ofNat cookie, .ofNat cmd.offset.toNat,
            .ofNat cmd.count.toNat, payload⟩ : Message)
        else failure) (cmd.payload extended) (cmd.message extended) := by
  simp only [CmdType.ofCode_code, UInt16.ofNat_toNat, UInt64.ofNat_toNat, hc, if_pos hm]
  rw [← hw.length_payload]
  have hb := (reads_bytes (cmd.payload extended)).bind (f := fun payload =>
    pure (⟨cmd.flags, cmd.type, .ofNat cmd.cookie, cmd.offset, cmd.count, payload⟩ : Message)) (.pure _)
  rwa [List.append_nil] at hb

/-- **Round trip of one request.** -/
theorem reads_wire {extended : Bool} {cmd : Command} (hw : cmd.WellFormed extended) :
    Reads (parseMessage extended) (cmd.wire extended) (cmd.message extended) := by
  have hmod : UInt64.ofNat (cmd.cookie % 256 ^ 8) = .ofNat cmd.cookie := by
    apply UInt64.toNat_inj.mp
    simp
  have hwire : cmd.wire extended = requestHeader extended cmd ++ cmd.payload extended := rfl
  rw [hwire]
  unfold requestHeader
  cases extended with
  | true =>
    simp only [if_true, List.append_assoc]
    exact (reads_number 4 (by decide)).bind ((reads_number 2 cmd.flags.toNat_lt).bind
      ((reads_number 2 (code_lt _)).bind ((reads_number_mod 8 _).bind
        ((reads_number 8 cmd.offset.toNat_lt).bind ((reads_number 8 cmd.count.toNat_lt).bind
          (reads_payload hw rfl _ hmod))))))
  | false =>
    have hcount : cmd.count.toNat < 256 ^ 4 := by
      have hle := UInt64.le_iff_toNat_le.mp (hw.count rfl)
      exact Nat.lt_of_le_of_lt hle (by decide)
    simp only [Bool.false_eq_true, if_false, List.append_assoc]
    exact (reads_number 4 (by decide)).bind ((reads_number 2 cmd.flags.toNat_lt).bind
      ((reads_number 2 (code_lt _)).bind ((reads_number_mod 8 _).bind
        ((reads_number 8 cmd.offset.toNat_lt).bind ((reads_number 4 hcount).bind
          (reads_payload hw rfl _ hmod))))))

/-! ## What a call asks for -/

/-- The id of a negotiated context. -/
def Export.contextId (exp : Export) (name : CString) : Option UInt32 :=
  (exp.metaContexts.find? fun m => m.1 == name).map Prod.snd

/-- The request that a call stands for: the flags are the caller's, up to
`PAYLOAD_LEN`, which is managed by what was negotiated. For a filtered block status
the payload is the length asked about and the ids of the named contexts. -/
def Call.message (exp : Export) (cookie : UInt64) : Call → Message
  | .aioPread _ count offset _ flags | .aioPreadStructured _ count offset _ _ flags =>
    ⟨flags.toUInt16, .read, cookie, offset, count, []⟩
  | .aioPwrite buf count offset _ flags =>
    ⟨if exp.extendedHeaders then flags.toUInt16 ||| 0x20 else flags.toUInt16 &&& 0xffdf, .write,
      cookie, offset, count, buf.getD []⟩
  | .aioFlush _ flags => ⟨flags.toUInt16, .flush, cookie, 0, 0, []⟩
  | .aioTrim count offset _ flags => ⟨flags.toUInt16, .trim, cookie, offset, count, []⟩
  | .aioCache count offset _ flags => ⟨flags.toUInt16, .cache, cookie, offset, count, []⟩
  | .aioZero count offset _ flags => ⟨flags.toUInt16, .writeZeroes, cookie, offset, count, []⟩
  | .aioBlockStatus count offset _ _ flags | .aioBlockStatus64 count offset _ _ flags =>
    ⟨flags.toUInt16, .blockStatus, cookie, offset, count, []⟩
  | .aioBlockStatusFilter count offset filter _ _ flags =>
    ⟨flags.toUInt16 ||| 0x20, .blockStatus, cookie, offset, .ofNat (8 + 4 * filter.length),
      toBE 8 count.toNat ++ filter.flatMap fun name => toBE 4 ((exp.contextId name).getD 0).toNat⟩

/-- The caller's objects are there: the buffer has `count` bytes, and the pointers of
the filter fit in the address space. -/
def Call.Addressable : Call → Prop
  | .aioPwrite buf count _ _ _ => ∀ bs, buf = some bs → bs.length = count.toNat
  | .aioBlockStatusFilter _ _ filter _ _ _ => 8 * filter.length < 2 ^ 64
  | _ => True

/-- Every context of the filter was negotiated. -/
def Call.Known (exp : Export) : Call → Prop
  | .aioBlockStatusFilter _ _ filter _ _ _ =>
    exp.metaValid = true ∧ ∀ name ∈ filter, (exp.contextId name).isSome = true
  | _ => True

section Calls

variable {inp : Input} {h : Handle} {call : Call} {cmd : Command}

/-- What a call that passes the wrapper has passed. -/
theorem callError_checks (hok : callError inp h call = none) :
    call.argError = none ∧
      (h.isStrict strictFlags = true → call.flags &&& (0xffffffff ^^^ call.flagMask) = 0) ∧
      unlockedError inp h call = none := by
  unfold callError at hok
  split at hok
  · cases hok
  · obtain ⟨harg, hrest⟩ := Option.or_eq_none_iff.mp hok
    refine ⟨harg, ?_⟩
    split at hrest
    · cases hrest
    · rename_i hf
      refine ⟨fun hstrict => ?_, hrest⟩
      simpa [hstrict] using hf

/-- A call that does not admit `PAYLOAD_LEN` does not set it. -/
theorem no_payloadLen (hs : h.isStrict strictFlags = true) (hok : callError inp h call = none)
    (hm : (0xffffffff ^^^ call.flagMask) &&& cmdFlagPayloadLen = cmdFlagPayloadLen) :
    hasPayloadLen call.flags.toUInt16 = false := by
  have hf := (callError_checks hok).2.1 hs
  have hzero : call.flags &&& cmdFlagPayloadLen = 0 := by
    rw [← hm, ← UInt32.and_assoc, hf, UInt32.zero_and]
  unfold hasPayloadLen
  rw [← UInt32.toUInt16_and, hzero]
  rfl

theorem hasPayloadLen_or (flags : UInt16) : hasPayloadLen (flags ||| 0x20) = true := by
  have hne : (flags ||| 0x20) &&& 0x20 ≠ 0 := by
    intro h
    have hb := congrArg (fun v : UInt16 => v.toBitVec.getLsbD 5) h
    simp at hb
  exact bne_iff_ne.mpr hne

theorem hasPayloadLen_and (flags : UInt16) : hasPayloadLen (flags &&& 0xffdf) = false := by
  have hzero : (flags &&& 0xffdf) &&& 0x20 = 0 := by
    rw [UInt16.and_assoc]
    exact UInt16.and_zero
  exact bne_eq_false_iff_eq.mpr hzero

/-- The size limits leave nothing that a header cannot express. -/
theorem Request.wireCount_le {r : Request} (hok : r.sizeError h = none) :
    (h.exp.extendedHeaders = false → r.wireCount ≤ uint32Max) ∧
      (r.type = .write ∨ r.type = .blockStatus ∧ r.ids ≠ none →
        r.wireCount.toNat ≤ maxRequestSize) := by
  have hmax : ∀ {n : UInt64}, ¬ n > UInt64.ofNat maxRequestSize → n.toNat ≤ maxRequestSize := by
    intro n hn
    exact UInt64.le_iff_toNat_le.mp (UInt64.not_lt.mp hn)
  have hsmall : ∀ {n : UInt64}, n.toNat ≤ maxRequestSize → n ≤ uint32Max := by
    intro n hn
    exact UInt64.le_iff_toNat_le.mpr (Nat.le_trans hn (by decide))
  unfold Request.sizeError at hok
  dsimp only at hok
  split at hok
  · split at hok
    · cases hok
    · split at hok
      · cases hok
      · rename_i hle
        have := hmax (by simpa using hle)
        exact ⟨fun _ => hsmall this, fun _ => this⟩
  · split at hok
    · cases hok
    · rename_i hle
      have := hmax (by simpa using hle)
      exact ⟨fun _ => hsmall this, fun _ => this⟩
  · split at hok
    · cases hok
    · rename_i hle
      simp only [Bool.or_eq_true, not_or, decide_eq_true_eq] at hle
      have := hmax hle.1
      exact ⟨fun _ => hsmall this, fun _ => this⟩
  · rename_i h₁ h₂ h₃
    split at hok
    · cases hok
    · rename_i hle
      refine ⟨fun he => ?_, ?_⟩
      · simpa [he] using hle
      · rintro (ht | ⟨ht, hids⟩)
        · exact absurd ht h₁
        · obtain ⟨ids, hids⟩ := Option.ne_none_iff_exists'.mp hids
          exact absurd hids (h₃ ids ht)

/-- A command without payload. -/
theorem Request.plain {r : Request} (hok : r.error h inp.alloc = none) (ht : r.type ≠ .write)
    (hf : hasPayloadLen r.flags = false) :
    (r.command h).WellFormed h.exp.extendedHeaders ∧
      (r.command h).payload h.exp.extendedHeaders = [] := by
  have hp : (r.command h).hasPayload h.exp.extendedHeaders = false := by
    have hf' : (r.flags &&& cmdFlagPayloadLen.toUInt16 != 0) = false := hf
    simp [Command.hasPayload, Request.command, ht, hf']
  refine ⟨⟨(Request.wireCount_le (Request.checks_of_error hok).2).1, ?_, ?_, fun hw => absurd hw ht⟩,
    ?_⟩
  · rw [hp]
    unfold payloadFollows
    split
    · exact hf.symm
    · exact (beq_eq_false_iff_ne.mpr ht).symm
  · intro hp'
    rw [hp] at hp'
    cases hp'
  · unfold Command.payload
    rw [hp]
    rfl

theorem isStrict_default (hs : h.strict = strictMask) {bit : UInt32}
    (hb : strictMask &&& bit ≠ 0) : h.isStrict bit = true := by
  unfold Handle.isStrict
  rw [hs]
  exact bne_iff_ne.mpr hb

theorem pwriteFlags_default (hs : h.strict = strictMask) (flags : UInt32) :
    (pwriteFlags h flags).toUInt16 =
      if h.exp.extendedHeaders then flags.toUInt16 ||| 0x20 else flags.toUInt16 &&& 0xffdf := by
  unfold pwriteFlags
  rw [if_pos (isStrict_default hs (by decide))]
  split
  · rw [UInt32.toUInt16_or]
    rfl
  · rw [UInt32.toUInt16_and]
    rfl

/-- `nbd_aio_pwrite`. -/
theorem pwrite_encodes {bs : List UInt8} {count offset : UInt64} {completion : Closure}
    {flags : UInt32} (hs : h.strict = strictMask) (hlen : bs.length = count.toNat)
    (herr : (callRequest h (.aioPwrite (some bs) count offset completion flags)).error h inp.alloc =
      none)
    (hcmd : cmd = (callRequest h (.aioPwrite (some bs) count offset completion flags)).command h) :
    cmd.WellFormed h.exp.extendedHeaders ∧ cmd.message h.exp.extendedHeaders =
      (Call.aioPwrite (some bs) count offset completion flags).message h.exp (.ofNat cmd.cookie) := by
  have hp : cmd.hasPayload h.exp.extendedHeaders = true := by
    rw [hcmd]
    rfl
  have hflags : cmd.flags =
      if h.exp.extendedHeaders then flags.toUInt16 ||| 0x20 else flags.toUInt16 &&& 0xffdf := by
    rw [hcmd]
    exact pwriteFlags_default hs flags
  have hcount : cmd.count = count := by rw [hcmd]; rfl
  have hdata : cmd.data = bs := by rw [hcmd]; rfl
  have hsize := Request.wireCount_le (Request.checks_of_error herr).2
  refine ⟨⟨fun he => ?_, ?_, fun _ => ?_, fun _ => ?_⟩, ?_⟩
  · rw [hcmd]
    exact hsize.1 he
  · rw [hp, hflags]
    unfold payloadFollows
    split
    · exact (hasPayloadLen_or _).symm
    · rw [hcmd]
      rfl
  · rw [hdata, hcount, hlen]
  · rw [hcmd]
    exact hsize.2 (.inl rfl)
  · have hpay : cmd.payload h.exp.extendedHeaders = bs := by
      unfold Command.payload
      rw [if_pos hp, hdata, hcount, ← hlen, List.take_length]
    unfold Command.message
    rw [hpay, hflags, hcount, hcmd]
    rfl

/-- The ids of a filter. -/
theorem filterIds_eq {names : List CString} {ids : List UInt8} (hf : filterIds h names = some ids) :
    (∀ name ∈ names, (h.exp.contextId name).isSome = true) ∧
      ids = names.flatMap fun name => toBE 4 ((h.exp.contextId name).getD 0).toNat := by
  induction names generalizing ids with
  | nil =>
    cases hf
    exact ⟨fun _ hn => absurd hn List.not_mem_nil, rfl⟩
  | cons name names ih =>
    simp only [filterIds] at hf
    split at hf
    · rename_i hname id hv hfind
      obtain ⟨rest, hrest, rfl⟩ := Option.map_eq_some_iff.mp hf
      obtain ⟨hall, rfl⟩ := ih hrest
      have hid : h.exp.contextId name = some id := by
        unfold Export.contextId
        rw [hfind]
        rfl
      refine ⟨fun n hn => ?_, ?_⟩
      · rcases List.mem_cons.mp hn with rfl | hn
        · rw [hid]
          rfl
        · exact hall n hn
      · rw [List.flatMap_cons, hid]
        rfl
    · cases hf

theorem length_ids (exp : Export) (names : List CString) :
    (names.flatMap fun name => toBE 4 ((exp.contextId name).getD 0).toNat).length =
      4 * names.length := by
  induction names with
  | nil => rfl
  | cons name names ih =>
    rw [List.flatMap_cons, List.length_append, ih, length_toBE, List.length_cons]
    omega

/-- What `nbd_aio_block_status_filter` has checked. -/
theorem filter_checked {count offset : UInt64} {filter : List CString} {extent64 completion : Closure}
    {flags : UInt32} (hs : h.strict = strictMask)
    (hok : unlockedError inp h (.aioBlockStatusFilter count offset filter extent64 completion flags) =
      none) :
    h.exp.extendedHeaders = true ∧ h.exp.metaValid = true ∧ ∃ ids, filterIds h filter = some ids := by
  simp only [unlockedError, Option.or_eq_none_iff, checkAioBlockStatus, underStrictCommands,
    filterError, isStrict_default hs (show strictMask &&& strictCommands ≠ 0 by decide),
    isStrict_default hs (show strictMask &&& strictAutoFlag ≠ 0 by decide), if_true,
    Bool.true_and] at hok
  obtain ⟨h₁, h₂, h₃⟩ := hok
  refine ⟨?_, ?_, ?_⟩
  · split at h₂
    · cases h₂
    · rename_i he
      simpa using he
  · split at h₁
    · cases h₁
    · split at h₁
      · cases h₁
      · rename_i hv
        simp only [Bool.or_eq_true, not_or, Bool.not_eq_true, Bool.not_eq_false'] at hv
        exact hv.1
  · split at h₃
    · cases h₃
    · split at h₃
      · cases h₃
      · split at h₃
        · cases h₃
        · rename_i hids
          exact Option.ne_none_iff_exists'.mp hids

/-- `nbd_aio_block_status_filter`. -/
theorem filter_encodes {count offset : UInt64} {filter : List CString} {extent64 completion : Closure}
    {flags : UInt32} (hs : h.strict = strictMask) (hlen : 8 * filter.length < 2 ^ 64)
    (hok : unlockedError inp h (.aioBlockStatusFilter count offset filter extent64 completion flags) =
      none)
    (hcmd : cmd = (callRequest h
      (.aioBlockStatusFilter count offset filter extent64 completion flags)).command h) :
    cmd.WellFormed h.exp.extendedHeaders ∧ cmd.message h.exp.extendedHeaders =
      (Call.aioBlockStatusFilter count offset filter extent64 completion flags).message h.exp
        (.ofNat cmd.cookie) := by
  obtain ⟨hext, -, ids, hids⟩ := filter_checked hs hok
  obtain ⟨-, rfl⟩ := filterIds_eq hids
  have hflags : cmd.flags = flags.toUInt16 ||| 0x20 := by
    rw [hcmd]
    change (filterFlags h flags).toUInt16 = _
    unfold filterFlags
    rw [if_pos (isStrict_default hs (by decide)), UInt32.toUInt16_or]
    rfl
  have hpl : hasPayloadLen cmd.flags = true := by
    rw [hflags]
    exact hasPayloadLen_or _
  have hp : cmd.hasPayload h.exp.extendedHeaders = true := by
    have ht : cmd.type = .blockStatus := by rw [hcmd]; rfl
    have hpl' : (cmd.flags &&& cmdFlagPayloadLen.toUInt16 != 0) = true := hpl
    unfold Command.hasPayload
    rw [ht, hext, hpl']
    rfl
  have hdata : cmd.data = toBE 8 count.toNat ++
      filter.flatMap fun name => toBE 4 ((h.exp.contextId name).getD 0).toNat := by
    rw [hcmd]
    change toBE 8 count.toNat ++ (filterIds h filter).getD [] = _
    rw [hids]
    rfl
  have hsize : cmd.data.length = 8 + 4 * filter.length := by
    rw [hdata, List.length_append, length_toBE, length_ids]
  have hcount : cmd.count = .ofNat (8 + 4 * filter.length) := by
    rw [← hsize, hcmd]
    rfl
  have hnat : cmd.count.toNat = cmd.data.length := by
    rw [hcount, hsize, UInt64.toNat_ofNat']
    omega
  refine ⟨⟨fun he => ?_, ?_, fun _ => ?_, fun hw => ?_⟩, ?_⟩
  · rw [hext] at he
    cases he
  · rw [hp, payloadFollows, if_pos hext, hpl]
  · rw [hnat]
  · rw [hcmd] at hw
    cases hw
  · have hpay : cmd.payload h.exp.extendedHeaders = cmd.data := by
      unfold Command.payload
      rw [if_pos hp, hnat, List.take_length]
    unfold Command.message
    rw [hpay, hflags, hcount, hdata, hcmd]
    rfl

/-- **Every command that a call makes under the default strict mode is well formed and
says what the call asked for.** -/
theorem makes_encodes (hs : h.strict = strictMask) (ha : call.Addressable)
    (hm : Call.Makes inp h call cmd) :
    cmd.WellFormed h.exp.extendedHeaders ∧
      cmd.message h.exp.extendedHeaders = call.message h.exp (.ofNat cmd.cookie) ∧
      call.Known h.exp := by
  obtain ⟨hok, herr, rfl⟩ := hm
  have hplain : (callRequest h call).type ≠ .write →
      (callRequest h call).flags = call.flags.toUInt16 →
      (0xffffffff ^^^ call.flagMask) &&& cmdFlagPayloadLen = cmdFlagPayloadLen →
      ((callRequest h call).command h).WellFormed h.exp.extendedHeaders ∧
        ((callRequest h call).command h).payload h.exp.extendedHeaders = [] := by
    intro ht hf hmask
    exact Request.plain herr ht (by rw [hf]; exact no_payloadLen (isStrict_default hs (by decide)) hok hmask)
  have hmsg : ∀ {c : Command}, c.payload h.exp.extendedHeaders = [] →
      c.message h.exp.extendedHeaders = ⟨c.flags, c.type, .ofNat c.cookie, c.offset, c.count, []⟩ := by
    intro c hp
    unfold Command.message
    rw [hp]
  cases call with
  | aioPwrite buf count offset completion flags =>
    obtain ⟨harg, -, -⟩ := callError_checks hok
    cases buf with
    | none => cases harg
    | some bs =>
      obtain ⟨hw, hmess⟩ := pwrite_encodes hs (ha bs rfl) herr rfl
      exact ⟨hw, hmess, trivial⟩
  | aioBlockStatusFilter count offset filter extent64 completion flags =>
    obtain ⟨-, -, hun⟩ := callError_checks hok
    obtain ⟨-, hv, ids, hids⟩ := filter_checked hs hun
    obtain ⟨hw, hmess⟩ := filter_encodes hs ha hun rfl
    exact ⟨hw, hmess, hv, (filterIds_eq hids).1⟩
  | _ =>
    obtain ⟨hw, hp⟩ := hplain nofun rfl (by simp only [Call.flagMask]; decide)
    exact ⟨hw, hmsg hp, trivial⟩

end Calls

/-! ## What `ISSUE_COMMAND` emits -/

/-- The step builds the header of the command at the head of the queue; what has been
sent so far is recorded. -/
def begins (c : Config) : Label → List (List UInt8)
  | .enter _ =>
    if c.h.state = .issueStart ∧ (c.h.tx.inWriteShutdown = true ∨ c.h.tx.wlen = 0) then
      [c.h.tx.sent]
    else []
  | .call _ _ => []

/-- What had been sent when the last header was begun. -/
def begun (bs : List (List UInt8)) : List UInt8 := bs.getLastD []

section Emission

variable (b : List UInt8) (h : Handle)

def EmitsHeader (cmd : Command) : Prop :=
  Sending b (requestHeader h.exp.extendedHeaders cmd)
    (requestHeader h.exp.extendedHeaders cmd).length h.tx

def EmitsPayload (cmd : Command) : Prop :=
  cmd.hasPayload h.exp.extendedHeaders = true ∧
    Sending (b ++ requestHeader h.exp.extendedHeaders cmd) cmd.data cmd.count.toNat h.tx

/-- The command is being sent behind `b`. In contrast to `TxAt` nothing is said about
the commands in front. -/
def Emitting : State → Prop
  | .issueSendRequest | .issuePauseSendRequest => ∃ cmd, h.AtHead cmd ∧ EmitsHeader b h cmd
  | .issuePrepareWritePayload =>
    ∃ cmd, h.AtHead cmd ∧ h.tx.sent = b ++ requestHeader h.exp.extendedHeaders cmd ∧ h.tx.wlen = 0
  | .issueSendWritePayload | .issuePauseWritePayload => ∃ cmd, h.AtHead cmd ∧ EmitsPayload b h cmd
  | .issueSendWriteShutdown | .issuePauseWriteShutdown | .issueFinish =>
    ∃ cmd, h.AtHead cmd ∧ h.tx.sent = b ++ cmd.wire h.exp.extendedHeaders ∧ h.tx.wlen = 0
  | .dead | .closed => True
  | _ => h.tx.wlen = 0 ∨ ∃ cmd, h.AtHead cmd ∧
      (EmitsHeader b h cmd ∧ h.tx.inWritePayload = false ∨
        EmitsPayload b h cmd ∧ h.tx.inWritePayload = true)

end Emission

section

variable {b : List UInt8} {inp : Input} {h h' : Handle} {cmd : Command}

theorem Emitting.still {s : State} (he : Emitting b h s) (htx : h'.tx = h.tx) (hexp : h'.exp = h.exp)
    (hq : ∀ cmd, h.AtHead cmd → h'.AtHead cmd) : Emitting b h' s := by
  cases s <;> simp only [Emitting, EmitsHeader, EmitsPayload, htx, hexp] at he ⊢
  case issueSendRequest | issuePauseSendRequest | issuePrepareWritePayload | issueSendWritePayload |
      issuePauseWritePayload | issueSendWriteShutdown | issuePauseWriteShutdown | issueFinish =>
    obtain ⟨cmd, hh, hrest⟩ := he
    exact ⟨cmd, hq cmd hh, hrest⟩
  all_goals
    rcases he with hz | ⟨cmd, hh, hrest⟩
    · exact .inl hz
    · exact .inr ⟨cmd, hq cmd hh, hrest⟩

/-- Where the emission is after a state's code. -/
abbrev Emits (b : List UInt8) (h' : Handle) : Prop := h'.alive → Emitting b h' h'.state

theorem issueRequest_emits {rest : List Command} (hq : h.q.cmdsToIssue = cmd :: rest) :
    (issueRequest h cmd rest).All (Emits h.tx.sent) := by
  refine require_all fun _ _ => ⟨cmd, ⟨rest, hq⟩, 0, Nat.zero_le _, ?_, rfl, ?_⟩
  · rw [List.take_zero, List.append_nil]
  · exact (length_requestHeader _ cmd).symm

/-- `START` builds a header, or comes back to what was interrupted. -/
theorem enterIssueStart_emits {b' : List UInt8} (he : Emitting b h .issueStart)
    (hnew : h.tx.inWriteShutdown = true ∨ h.tx.wlen = 0 → b' = h.tx.sent)
    (hold : h.tx.inWriteShutdown = false → h.tx.wlen ≠ 0 → b' = b) :
    (enterIssueStart h).All (Emits b') := by
  unfold enterIssueStart
  split
  · trivial
  · rename_i cmd rest hq
    split
    · rename_i hw
      rw [hnew (.inl hw)]
      exact issueRequest_emits hq
    · rename_i hw
      split
      · rename_i hne
        rw [hold (by simpa using hw) hne]
        rcases he with hz | ⟨cmd', hh, ⟨hs, hf⟩ | ⟨hs, hf⟩⟩
        · exact absurd hz hne
        · rw [if_neg (by rw [hf]; simp)]
          exact fun _ => ⟨cmd', hh, hs⟩
        · rw [if_pos hf]
          exact fun _ => ⟨cmd', hh, hs⟩
      · rename_i hz
        rw [hnew (.inr (by simpa using hz))]
        exact issueRequest_emits hq

/-- `SEND_REQUEST` and `SEND_WRITE_PAYLOAD`. -/
theorem enterSend_emits {next : State} {a x : List UInt8} {len : Nat} (hs : Sending a x len h.tx)
    (hmore : ∀ tx n, Sending a x len tx → Emitting b { h with tx := tx, bytesSent := n } h.state)
    (hdone : ∀ tx n, tx.sent = a ++ x.take len → tx.wlen = 0 →
      Emitting b { h with state := next, tx := tx, bytesSent := n } next) :
    (enterSend inp next h).All (Emits b) := by
  unfold enterSend
  obtain he | ⟨e, he⟩ | ⟨tx, n, he, hs'⟩ | ⟨tx, n, he, hsent, hz⟩ := sendFromWbuf_sending inp hs
  · rw [he]
    trivial
  · rw [he]
    exact fun ha => absurd rfl ha.1
  · rw [he]
    exact fun _ => hmore tx n hs'
  · rw [he]
    exact fun _ => hdone tx n hsent hz

theorem enterIssuePrepareWritePayload_emits (hh : h.AtHead cmd)
    (hs : h.tx.sent = b ++ requestHeader h.exp.extendedHeaders cmd) (hz : h.tx.wlen = 0) :
    (enterIssuePrepareWritePayload h).All (Emits b) := by
  unfold enterIssuePrepareWritePayload
  split
  · trivial
  · rename_i cmd' rest hq
    obtain rfl := hh.eq hq
    refine require_all fun _ => ?_
    split
    · rename_i hpay
      refine fun _ => ⟨cmd, hh, hpay, 0, Nat.zero_le _, ?_, rfl, rfl⟩
      rw [List.take_zero, List.append_nil]
      exact hs
    · rename_i hpay
      have hwire : cmd.wire h.exp.extendedHeaders = requestHeader h.exp.extendedHeaders cmd := by
        rw [Command.wire, if_neg hpay, List.append_nil]
      split
      · exact fun _ => ⟨cmd, hh, by rw [hwire]; exact hs, hz⟩
      · exact fun _ => ⟨cmd, hh, by rw [hwire]; exact hs, hz⟩

theorem sending_emits (he : Emitting b h h.state) (hs : h.state.isSending = true)
    (hstart : h.state ≠ .issueStart) : (enter inp h).All (Emits b) := by
  cases hst : h.state <;> simp only [hst, State.isSending, Bool.false_eq_true] at hs <;>
    simp only [enter, hst] <;> rw [hst] at he
  case start => exact fun _ => by rw [hst]; exact he
  case ready =>
    unfold enterReady
    split
    · exact fun _ => he
    · exact require_all fun _ => ite_all (fun _ _ => he) fun _ _ => by rw [hst]; exact he
  case issueStart => exact absurd hst hstart
  case issueSendRequest =>
    obtain ⟨cmd, hh, hs⟩ := he
    refine enterSend_emits hs (fun tx n hs' => ?_) fun tx n hsent hz => ⟨cmd, hh, ?_, hz⟩
    · rw [hst]
      exact ⟨cmd, hh, hs'⟩
    · rw [List.take_length] at hsent
      exact hsent
  case issuePauseSendRequest =>
    obtain ⟨cmd, hh, hs⟩ := he
    exact require_all fun _ => require_all fun _ _ => .inr ⟨cmd, hh, .inl ⟨hs, rfl⟩⟩
  case issuePrepareWritePayload =>
    obtain ⟨cmd, hh, hs, hz⟩ := he
    exact enterIssuePrepareWritePayload_emits hh hs hz
  case issueSendWritePayload =>
    obtain ⟨cmd, hh, hpay, hs⟩ := he
    refine enterSend_emits hs (fun tx n hs' => ?_) fun tx n hsent hz => ⟨cmd, hh, ?_, hz⟩
    · rw [hst]
      exact ⟨cmd, hh, hpay, hs'⟩
    · rw [List.append_assoc] at hsent
      rw [Command.wire, if_pos hpay]
      exact hsent
  case issuePauseWritePayload =>
    obtain ⟨cmd, hh, hs⟩ := he
    exact require_all fun _ => require_all fun _ _ => .inr ⟨cmd, hh, .inr ⟨hs, rfl⟩⟩
  case issueSendWriteShutdown =>
    unfold enterIssueSendWriteShutdown
    exact ite_all (fun _ _ => he) fun _ _ => by rw [hst]; exact he
  case issuePauseWriteShutdown =>
    obtain ⟨cmd, hh, hs⟩ := he
    exact require_all fun _ _ => .inl hs.2

theorem receiving_emits (he : Emitting b h h.state) (hr : RxInv h) (hs : h.state.isReceiving = true) :
    (enter inp h).All (Emits b) := by
  have hq := enter_quiet inp hs
  have hp := enter_post inp hr hs
  -- outside of `ISSUE_COMMAND` the invariant is the same in every state
  have hmove : ∀ s', s'.isReplying = true → Emitting b h s' := by
    intro s' hs'
    have hr : Emitting b h .replyStart := by
      cases hst : h.state <;> rw [hst] at he hs <;> first | exact he | cases hs
    cases s' <;> first | exact hr | trivial
  cases ho : enter inp h with
  | abort a => trivial
  | next h' | block h' | fail h' =>
    rw [ho] at hq hp
    refine fun _ => (hmove _ hp.side).still hq.tx hq.exp fun cmd hh => ?_
    rw [Handle.AtHead, hq.q]
    exact hh

theorem finishCommand_emits (he : Emitting b h .replyFinishCommand) (hinv : h.book.Inv)
    (hta : Tails h) (hs : h.state = .replyFinishCommand) :
    (enterReplyFinishCommand inp h).All (Emits b) := by
  cases hf : Handle.findCmd h.replyCookie h.q.cmdsInFlight with
  | none =>
    unfold enterReplyFinishCommand
    simp only [hf]
    exact require_all fun _ _ => he
  | some cmd =>
    obtain ⟨h', hfin, heq⟩ := finishCommand_ok inp hinv hta (alive_of_isMid (by rw [hs]; rfl)) hf
    have hframe := hfin.frame
    unfold DoneOnly at hframe
    rw [heq]
    refine require_all fun _ => require_all fun _ _ => ?_
    refine Emitting.still (h := h) (s := .ready) he ?_ ?_ fun c hh => ?_
    · change h'.tx = h.tx
      rw [hframe]
      rfl
    · change h'.exp = h.exp
      rw [hframe]
      rfl
    · change ∃ rest, h'.q.cmdsToIssue = c :: rest
      rw [hframe]
      exact hh

theorem enterIssueFinish_emits (hz : h.tx.wlen = 0) : (enterIssueFinish h).All (Emits b) := by
  unfold enterIssueFinish
  refine require_all fun _ => ?_
  split
  · trivial
  · exact require_all fun _ _ => .inl hz

theorem enter_emits {b' : List UInt8} (inp : Input) (he : Emits b h) (hr : RxInv h)
    (hinv : h.book.Inv) (hta : Tails h)
    (hnew : h.state = .issueStart ∧ (h.tx.inWriteShutdown = true ∨ h.tx.wlen = 0) → b' = h.tx.sent)
    (hold : ¬ (h.state = .issueStart ∧ (h.tx.inWriteShutdown = true ∨ h.tx.wlen = 0)) → b' = b) :
    (enter inp h).All (Emits b') := by
  by_cases hstart : h.state = .issueStart
  · have he' := he (by simp [Handle.alive, hstart])
    rw [hstart] at he'
    simp only [enter, hstart]
    refine enterIssueStart_emits he' (fun hc => hnew ⟨hstart, hc⟩) fun h₁ h₂ => hold ?_
    rintro ⟨-, hc | hc⟩
    · rw [h₁] at hc
      cases hc
    · exact h₂ hc
  · rw [hold fun hc => hstart hc.1]
    rcases h.state.kinds with hs | hs | hs | hs | hs
    · refine receiving_emits (he ?_) hr hs
      constructor <;> (intro hd; rw [hd] at hs; cases hs)
    · refine sending_emits (he ?_) hs hstart
      constructor <;> (intro hd; rw [hd] at hs; cases hs)
    · have he := he (by simp [Handle.alive, hs])
      rw [hs] at he
      obtain ⟨cmd, -, -, hz⟩ := he
      simp only [enter, hs]
      exact enterIssueFinish_emits hz
    · have he := he (by simp [Handle.alive, hs])
      rw [hs] at he
      simp only [enter, hs]
      exact finishCommand_emits he hinv hta hs
    · obtain ⟨-, -, h', -, -, hok, hdo, -⟩ := abortAll_ok inp hinv hta
      have hd : ¬ h'.alive := by
        rintro ⟨h₁, h₂⟩
        rw [hdo] at h₁ h₂
        rcases hs with hs | hs
        · exact h₁ hs
        · exact h₂ hs
      rcases hs with hs | hs
      · simp only [enter, hs, enterDead, hok]
        exact require_all fun _ ha => absurd ha hd
      · simp only [enter, hs, enterClosed, hok]
        exact fun ha => absurd ha hd

theorem externalEvent_emitting {ev : ExternalEvent} {s s' : State} (hev : externalEvent ev s = some s')
    (he : Emitting b h s) : Emitting b h s' := by
  cases ev <;> cases s <;> simp [externalEvent] at hev <;> subst hev <;> exact he

/-- A call leaves what is being sent alone. -/
theorem call_emits {c : Config} {api : Api} {r : Int} (hg : Good c) (hctl : c.ctl = .idle r)
    (he : Emits b c.h) (hclose : api ≠ .close) :
    Emits b (apiCall inp { c.h with lastError := inp.lastError } api).h := by
  have hf := apiCall_frame inp { c.h with lastError := inp.lastError } api hclose
  generalize (apiCall inp { c.h with lastError := inp.lastError } api).h = h' at hf ⊢
  intro ha'
  have he := he (hf.alive ha')
  have hmove : ∀ {s : State}, c.h.state = s → Emitting b h' s → Emitting b h' h'.state := by
    rintro s rfl hs
    rcases hf.state with hst | ⟨ev, hev⟩
    · have hst : h'.state = c.h.state := hst
      rwa [hst]
    · exact externalEvent_emitting hev hs
  by_cases hready : c.h.state = .ready
  · refine hmove hready (.inl ?_)
    rw [hready] at he
    rcases he with hz | ⟨cmd, ⟨rest, hq⟩, -⟩
    · rw [hf.tx]
      exact hz
    · rw [hg.sound.idle r hctl hready] at hq
      cases hq
  · exact hmove rfl (he.still hf.tx hf.exp fun cmd ⟨rest, hq⟩ => hf.head hready cmd rest hq)

/-- The process goes on. -/
def Config.runs (c : Config) : Bool :=
  match c.ctl with
  | .idle _ | .running _ => true
  | .closed | .aborted _ => false

/-- **Step.** -/
theorem step_emits {c c' : Config} {l : Label} {bs : List (List UInt8)} (hg : Good c)
    (he : Emits (begun bs) c.h) (hstep : step c l = some c') (hruns : c'.runs = true) :
    Emits (begun (bs ++ begins c l)) c'.h := by
  obtain ⟨inp, k, rfl, -, rfl⟩ | ⟨api, inp, r, rfl, hctl, rfl⟩ := step_cases hstep
  · have hall : (enter inp c.h).All (Emits (begun (bs ++ begins c (.enter inp)))) := by
      refine enter_emits inp he hg.rx hg.sound.inv hg.sound.tails (fun hc => ?_) fun hc => ?_
      · rw [begins, if_pos hc]
        simp [begun]
      · rw [begins, if_neg hc, List.append_nil]
    have hd : ∀ h' d, Emits (begun (bs ++ begins c (.enter inp))) h' →
        Emits (begun (bs ++ begins c (.enter inp))) { h' with disconnectRequest := d } :=
      fun h' d hp ha => (hp ha).still rfl rfl fun _ hh => hh
    obtain ⟨h', ho, heq⟩ | ⟨h', d, r, ho | ho, heq⟩ | ⟨a, -, heq⟩ := stepEnter_cases inp k c.h
    · rw [ho] at hall
      rw [heq]
      exact hall
    · rw [ho] at hall
      rw [heq]
      exact hd h' d hall
    · rw [ho] at hall
      rw [heq]
      exact hd h' d hall
    · rw [heq] at hruns
      cases hruns
  · by_cases hclose : api = .close
    · subst hclose
      cases hruns
    · rw [begins, List.append_nil]
      exact call_emits hg hctl he hclose

/-- **Run.** -/
theorem run_emits {c₀ c : Config} {ls : List Label} (hi : machine.init c₀)
    (hexec : machine.exec c₀ ls = some c) (hruns : c.runs = true) :
    Good c ∧ Emits (begun (machine.collect begins c₀ ls)) c.h := by
  have hstart : Emits (begun []) c₀.h := by
    obtain ⟨exp, strict, pi, hdr, payload, mem, rfl⟩ := hi
    exact fun _ => .inl rfl
  have hstep : ∀ c l c' bs, (c.runs = true → Good c ∧ Emits (begun bs) c.h) →
      machine.step c l = some c' →
      (c'.runs = true → Good c' ∧ Emits (begun (bs ++ begins c l)) c'.h) := by
    intro c l c' bs hP hstep hr
    have hruns : c.runs = true := by
      obtain ⟨inp, k, -, hctl, -⟩ | ⟨api, inp, r, -, hctl, -⟩ := step_cases hstep <;>
        simp [Config.runs, hctl]
    obtain ⟨hg, he⟩ := hP hruns
    refine ⟨(step_good hg hstep).resolve_left fun hcl => ?_, step_emits hg he hstep hr⟩
    simp [Config.runs, hcl] at hr
  exact machine.exec_collect (P := fun c bs => c.runs = true → Good c ∧ Emits (begun bs) c.h) hstep
    (fun _ => ⟨initial_good hi, hstart⟩) hexec hruns

end

/-! ## Whole runs -/

/-- The request that a call submits, if it submits one. -/
def Api.message (exp : Export) (cookie : UInt64) : Api → Option Message
  | .command call => some (call.message exp cookie)
  | .aioDisconnect _ | .shutdown _ => some ⟨0, .disc, cookie, 0, 0, []⟩
  | _ => none

def Api.Addressable : Api → Prop
  | .command call => call.Addressable
  | _ => True

def Api.Known (exp : Export) : Api → Prop
  | .command call => call.Known exp
  | _ => True

/-- `nbd_aio_disconnect` and `nbd_shutdown`. -/
theorem disc_encodes {h : Handle} {cmd : Command} (hs : h.strict = strictMask)
    (hd : Disconnects h cmd) : cmd.WellFormed h.exp.extendedHeaders ∧
      cmd.message h.exp.extendedHeaders = ⟨0, .disc, .ofNat cmd.cookie, 0, 0, []⟩ := by
  obtain ⟨h₁, flags, -, rfl, hf⟩ := hd
  obtain rfl := hf (isStrict_default hs (by decide))
  have hp : ∀ e, ((discRequest 0).command h₁).hasPayload e = false := by
    intro e
    cases e <;> rfl
  refine ⟨⟨fun _ => ?_, ?_, fun h => ?_, nofun⟩, ?_⟩
  · change (0 : UInt64) ≤ uint32Max
    decide
  · rw [hp]
    unfold payloadFollows
    split
    · change false = hasPayloadLen 0
      decide
    · rfl
  · rw [hp] at h
    cases h
  · unfold Command.message Command.payload
    rw [hp]
    rfl

theorem accepted_freeCmdList (inp : Input) (cmds : List Command) :
    accepted (freeCmdList inp cmds) = [] := by
  induction cmds with
  | nil => rfl
  | cons cmd cmds ih =>
    unfold freeCmdList at ih ⊢
    rw [List.flatMap_cons, accepted_append, ih, List.append_nil, accepted_append]
    unfold callCallback retireAndFreeCommand
    split_ifs <;> rfl

/-- What is accepted under the default strict mode is well formed and says what the
call asked for. -/
theorem accepted_encodes {c c' : Config} {api : Api} {inp : Input} {cmd : Command} (hg : Good c)
    (hstep : step c (.call api inp) = some c') (hstrict : c.h.strict = strictMask)
    (ha : api.Addressable) (hacc : accepted c'.h.trace = accepted c.h.trace ++ [cmd]) :
    cmd.WellFormed c.h.exp.extendedHeaders ∧
      api.message c.h.exp (.ofNat cmd.cookie) = some (cmd.message c.h.exp.extendedHeaders) ∧
      api.Known c.h.exp := by
  obtain ⟨_, _, h, -, -⟩ | ⟨api, inp, r, h, hctl, rfl⟩ := step_cases hstep
  · cases h
  cases h
  have hs := hg.sound
  have ht : Tails { c.h with lastError := inp.lastError } := ⟨hs.tails.toIssue, hs.tails.done⟩
  have hi : Idle { c.h with lastError := inp.lastError } := hs.idle r hctl
  have hdisc : Disconnects { c.h with lastError := inp.lastError } cmd →
      cmd.WellFormed c.h.exp.extendedHeaders ∧
        some (⟨0, .disc, .ofNat cmd.cookie, 0, 0, []⟩ : Message) =
          some (cmd.message c.h.exp.extendedHeaders) ∧ True := by
    intro hd
    obtain ⟨hw, hm⟩ := disc_encodes (h := { c.h with lastError := inp.lastError }) hstrict hd
    exact ⟨hw, congrArg some hm.symm, trivial⟩
  cases api with
  | command call =>
    have hm := afterSubmit_made (h := { c.h with lastError := inp.lastError })
      (submit_acceptsOnce call hs.inv ht hi) hacc
    have hexp := sanitize_exp { c.h with lastError := inp.lastError } call
    have hst : (sanitize { c.h with lastError := inp.lastError } call).strict = strictMask := by
      obtain ⟨m, hm⟩ := sanitize_eq { c.h with lastError := inp.lastError } call
      rw [hm]
      exact hstrict
    obtain ⟨hw, hmsg, hk⟩ := makes_encodes hst ha hm
    rw [hexp] at hw hmsg hk
    exact ⟨hw, congrArg some hmsg.symm, hk⟩
  | aioDisconnect flags => exact hdisc (afterSubmit_made
    (h := { c.h with lastError := inp.lastError }) (disc_acceptsOnce (.inl rfl) hs.inv ht hi) hacc)
  | shutdown flags => exact hdisc (afterSubmit_made
    (h := { c.h with lastError := inp.lastError }) (disc_acceptsOnce (.inr rfl) hs.inv ht hi) hacc)
  | close =>
    have hsame : accepted (close inp { c.h with lastError := inp.lastError }).trace =
        accepted c.h.trace := by
      simp [close, Handle.log, accepted_freeCmdList]
    rw [show (apiCall inp { c.h with lastError := inp.lastError } .close).h =
      close inp { c.h with lastError := inp.lastError } from rfl, hsame] at hacc
    simp at hacc
  | aioNotifyRead | aioNotifyWrite | setStrictMode | setPreadInitialize | aioCommandCompleted =>
    rw [(no_submission_disc (h := { c.h with lastError := inp.lastError }) (by simp) rfl).2] at hacc
    simp at hacc

/-- What a run keeps: the negotiated values, and what was accepted. -/
theorem run_keeps {c c' : Config} {ls : List Label} (hg : c.ctl = .closed ∨ Good c)
    (he : machine.exec c ls = some c') :
    c'.h.exp = c.h.exp ∧ ∃ es, c'.h.trace = c.h.trace ++ es := by
  have key := machine.exec_invariant (P := fun d =>
    (d.ctl = .closed ∨ Good d) ∧ d.h.exp = c.h.exp ∧ ∃ es, d.h.trace = c.h.trace ++ es)
    (fun d l d' hd _ hstep => by
      obtain ⟨hcl | hgd, hexp, es, htr⟩ := hd
      · cases l <;> simp [machine, step, hcl] at hstep
      · obtain ⟨fs, hfs⟩ := step_trace_append hgd.sound hstep
        exact ⟨step_good hgd hstep, (step_names hgd.sound hstep).exp.trans hexp, es ++ fs,
          by rw [hfs, htr, List.append_assoc]⟩)
    ⟨hg, rfl, [], (List.append_nil _).symm⟩ (machine.meets_true c ls) he
  exact key.2

/-- The command with this cookie at the head of the queue is the one that was
accepted. -/
theorem head_wire {c : Config} {cmd head : Command} (ho : Origin c)
    (hacc : cmd ∈ accepted c.h.trace) (hh : c.h.AtHead head) (hck : head.cookie = cmd.cookie) :
    cmd.SameAs head := by
  obtain ⟨rest, hq⟩ := hh
  have hmem : head ∈ c.h.book.commands := by
    simp [Book.commands, Handle.book, hq]
  obtain ⟨a, ha, hs⟩ := ho.descends head hmem
  have hnd : ((accepted c.h.trace).map Command.cookie).Nodup := by
    rw [← acceptedCookies_eq]
    exact ho.good.sound.inv.sorted.imp Nat.ne_of_lt
  have hck' : a.cookie = cmd.cookie := by
    rw [← hck, hs]
  obtain rfl := List.inj_on_of_nodup_map hnd ha hacc hck'
  exact hs

theorem Command.SameAs.wire {a cmd : Command} (h : a.SameAs cmd) (extended : Bool) :
    cmd.wire extended = a.wire extended := by
  rw [h]
  rfl

/-- `assert (cmd->count <= UINT32_MAX)`. -/
theorem enterIssueStart_count {h : Handle} {head : Command} (hh : h.AtHead head)
    (hc : h.exp.extendedHeaders = false → head.count ≤ uint32Max) :
    enterIssueStart h ≠ .abort .issueCount := by
  obtain ⟨rest, hq⟩ := hh
  have hreq : issueRequest h head rest ≠ .abort .issueCount := by
    unfold issueRequest require
    rw [if_pos]
    · exact nofun
    · cases he : h.exp.extendedHeaders with
      | true => rfl
      | false => simpa using hc he
  unfold enterIssueStart
  simp only [hq]
  split
  · exact hreq
  · split
    · split <;> exact nofun
    · exact hreq

/-- **Requests are encoded faithfully.** Take any command accepted under the default
strict mode, at any point of any run, and let the run go on. The request grammar reads
the bytes of the command as what the call asked for, whatever follows them; its count
fits the header, a write has at most 64 MiB, and the contexts of a filter are known.
What is sent between building the header and `FINISH` is exactly these bytes. -/
theorem request_round_trip {c₀ c₁ c₂ c : Config} {ls ms : List Label} {api : Api} {inp : Input}
    {cmd : Command} (hi : machine.init c₀) (h₁ : machine.exec c₀ ls = some c₁)
    (hcall : machine.step c₁ (.call api inp) = some c₂) (hstrict : c₁.h.strict = strictMask)
    (haddr : api.Addressable) (hacc : accepted c₂.h.trace = accepted c₁.h.trace ++ [cmd])
    (h₂ : machine.exec c₂ ms = some c) :
    ∃ m, api.message c.h.exp (.ofNat cmd.cookie) = some m ∧
      m = cmd.message c.h.exp.extendedHeaders ∧ api.Known c.h.exp ∧
      (m.type = .write → m.count.toNat ≤ maxRequestSize) ∧
      Reads (parseMessage c.h.exp.extendedHeaders) (cmd.wire c.h.exp.extendedHeaders) m ∧
      ∀ k head, c.ctl = .running k → c.h.AtHead head → head.cookie = cmd.cookie →
        (c.h.state = .issueStart → ∀ inp, enter inp c.h ≠ .abort .issueCount) ∧
        (c.h.state = .issueFinish → c.h.tx.sent =
          begun (machine.collect begins c₀ (ls ++ .call api inp :: ms)) ++
            cmd.wire c.h.exp.extendedHeaders) := by
  have hr₁ : machine.Reachable c₁ := ⟨c₀, ls, hi, h₁⟩
  have hg₁ : Good c₁ := by
    rcases reachable_good hr₁ with hcl | hg
    · simp [machine, step, hcl] at hcall
    · exact hg
  have hrun : machine.exec c₁ (.call api inp :: ms) = some c := by
    rw [machine.exec_cons, hcall]
    exact h₂
  have hexec : machine.exec c₀ (ls ++ .call api inp :: ms) = some c := by
    rw [machine.exec_append, h₁]
    exact hrun
  have hr : machine.Reachable c := ⟨c₀, _, hi, hexec⟩
  obtain ⟨hexp, -⟩ := run_keeps (.inr hg₁) hrun
  obtain ⟨hw, hmsg, hknown⟩ := accepted_encodes hg₁ hcall hstrict haddr hacc
  rw [← hexp] at hw hmsg hknown
  have hmem : cmd ∈ accepted c.h.trace := by
    obtain ⟨-, es, htr⟩ := run_keeps (reachable_good (System.Reachable.step _ hr₁ hcall)) h₂
    rw [htr, accepted_append, hacc]
    simp
  refine ⟨_, hmsg, rfl, hknown, hw.write, reads_wire hw, fun k head hctl hh hck => ?_⟩
  have hruns : c.runs = true := by simp [Config.runs, hctl]
  have ho : Origin c := (reachable_origin hr).resolve_left fun hcl => by
    rw [hctl] at hcl
    cases hcl
  have hsame := head_wire ho hmem hh hck
  refine ⟨fun hs inp => ?_, fun hs => ?_⟩
  · simp only [enter, hs]
    refine enterIssueStart_count hh fun he => ?_
    rw [hsame]
    exact hw.count he
  · obtain ⟨-, hem⟩ := run_emits hi hexec hruns
    have hem := hem (by simp [Handle.alive, hs])
    rw [hs] at hem
    obtain ⟨head', hh', hsent, -⟩ := hem
    obtain ⟨rest, hq⟩ := hh
    obtain rfl := hh'.eq hq
    rw [hsent, hsame.wire]

/-- An export with two contexts, extended headers and filters. -/
def Export.filtered : Export :=
  { Export.structured with
    eflags := 0x1001, extendedHeaders := true, metaValid := true
    metaContexts := [([97], 7), ([98], 9)] }

/-- Ask about 4096 bytes, for the second context only. -/
def askFiltered : Api :=
  .command (.aioBlockStatusFilter 4096 0 [[98]] ⟨true, false⟩ .null 0)

theorem request_round_trip_filtered :
    ∃ c, machine.exec (.ofExport .filtered) (.call askFiltered .calm :: List.replicate 4 (.enter .calm)) =
        some c ∧ c.h.state = .issueFinish ∧
      Reads (parseMessage true) c.h.tx.sent
        ⟨0x20, .blockStatus, 1, 0, 12, [0, 0, 0, 0, 0, 0, 16, 0, 0, 0, 0, 9]⟩ := by
  have hstep : (machine.step (.ofExport .filtered) (.call askFiltered .calm)).map (fun c =>
      (accepted c.h.trace).map Command.cookie) = some [1] := by decide +kernel
  have hrun : (machine.exec (.ofExport .filtered)
      (.call askFiltered .calm :: List.replicate 4 (.enter .calm))).map (fun c =>
        (c.h.state, c.ctl, c.h.exp.extendedHeaders, c.h.q.cmdsToIssue.map Command.cookie)) =
      some (.issueFinish, .running (.command 1), true, [1]) := by decide +kernel
  have hmess : (machine.exec (.ofExport .filtered)
      (.call askFiltered .calm :: List.replicate 4 (.enter .calm))).map (fun c =>
        askFiltered.message c.h.exp 1) =
      some (some ⟨0x20, .blockStatus, 1, 0, 12, [0, 0, 0, 0, 0, 0, 16, 0, 0, 0, 0, 9]⟩) := by
    decide +kernel
  have hbegun : begun (machine.collect begins (.ofExport .filtered)
      ([] ++ Label.call askFiltered .calm :: List.replicate 4 (.enter .calm))) = [] := by decide +kernel
  obtain ⟨c₂, hcall, hcookies⟩ := Option.map_eq_some_iff.mp hstep
  obtain ⟨cmd, hcmd, hck⟩ := List.map_eq_singleton_iff.mp hcookies
  obtain ⟨c, hexec, hq⟩ := Option.map_eq_some_iff.mp hrun
  simp only [Prod.mk.injEq] at hq
  obtain ⟨hst, hctl, hext, hhead⟩ := hq
  rw [hexec] at hmess
  have hmsg := Option.some.inj hmess
  have hrest : machine.exec c₂ (List.replicate 4 (.enter .calm)) = some c := by
    rw [machine.exec_cons, hcall] at hexec
    exact hexec
  obtain ⟨head, hqueue, hhc⟩ := List.map_eq_singleton_iff.mp hhead
  obtain ⟨m, hm, -, -, -, hreads, hemit⟩ := request_round_trip
    (Config.initial_ofExport .filtered) (show machine.exec _ [] = _ from rfl) hcall rfl
    (show 8 * 1 < 2 ^ 64 by decide)
    (show _ = accepted (Config.ofExport .filtered).h.trace ++ [cmd] from hcmd) hrest
  obtain ⟨-, hsent⟩ := hemit _ head hctl ⟨[], hqueue⟩ (hhc.trans hck.symm)
  rw [hck] at hm
  obtain rfl : m = _ := Option.some.inj (hm.symm.trans hmsg)
  refine ⟨c, hexec, hst, ?_⟩
  rw [hsent hst, hbegun, List.nil_append]
  rw [hext] at hreads ⊢
  exact hreads

end Libnbd
