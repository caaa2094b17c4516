import Libnbd.Encoding

/-!
Where the payload of a request comes from.

`PREPARE_WRITE_PAYLOAD` looks at the type and the flags of a command, not at
whether the command has a buffer. A write has the caller's and a filtered block
status its id list; the plain block status calls have none, and with
`LIBNBD_STRICT_FLAGS` off they let `PAYLOAD_LEN` through.
-/

namespace Libnbd

open Lib

/-- A plain block status call that claims to have a payload. -/
def Call.bare : Call → Bool
  | .aioBlockStatus count _ _ _ flags | .aioBlockStatus64 count _ _ _ flags =>
    count != 0 && hasFlag flags cmdFlagPayloadLen
  | _ => false

/-- Unless the flags are checked, no plain block status call claims to have a payload
where extended headers would send one. -/
def Carried (c : Config) : Label → Prop
  | .call (.command call) _ =>
    c.h.exp.extendedHeaders = true → c.h.isStrict strictFlags = false → call.bare = false
  | _ => True

instance (c : Config) (l : Label) : Decidable (Carried c l) :=
  match l with
  | .call (.command _) _ => inferInstanceAs (Decidable (_ → _ → _))
  | .call (.aioDisconnect _) _ | .call (.shutdown _) _ | .call (.aioCommandCompleted _) _
  | .call .aioNotifyRead _ | .call .aioNotifyWrite _ | .call (.setStrictMode _) _
  | .call (.setPreadInitialize _) _ | .call .close _ | .enter _ => .isTrue trivial

/-- The caller's objects are there. -/
def Label.Addressable : Label → Prop
  | .call api _ => api.Addressable
  | .enter _ => True

/-- The command has the payload that will be sent. -/
def Command.Backed (extended : Bool) (cmd : Command) : Prop :=
  cmd.hasPayload extended = true → cmd.count.toNat ≤ cmd.data.length

variable {inp : Input} {h : Handle} {call : Call} {cmd : Command}

/-! ## Calls -/

theorem hasPayload_request {r : Request} {extended : Bool}
    (hp : (r.command h).hasPayload extended = true) :
    r.type = .write ∨ extended = true ∧ r.type = .blockStatus ∧ hasPayloadLen r.flags = true := by
  simp only [Command.hasPayload, Request.command, Bool.or_eq_true, Bool.and_eq_true, beq_iff_eq] at hp
  exact hp.imp id fun hb => ⟨hb.1.1, hb.1.2, hb.2⟩

/-- The flags reach a command as 16 bits. -/
theorem hasPayloadLen_toUInt16 (flags : UInt32) :
    hasPayloadLen flags.toUInt16 = hasFlag flags cmdFlagPayloadLen := by
  have hle : (flags &&& cmdFlagPayloadLen).toNat ≤ 32 := by
    rw [UInt32.toNat_and]
    exact Nat.and_le_right
  have hiff : flags.toUInt16 &&& cmdFlagPayloadLen.toUInt16 = 0 ↔ flags &&& cmdFlagPayloadLen = 0 := by
    rw [← UInt32.toUInt16_and]
    constructor
    · intro h0
      have := congrArg UInt16.toNat h0
      rw [UInt32.toNat_toUInt16, Nat.mod_eq_of_lt (by omega)] at this
      exact UInt32.toNat_inj.mp this
    · intro h0
      rw [h0]
      rfl
  rw [Bool.eq_iff_iff, hasPayloadLen, hasFlag, bne_iff_ne, bne_iff_ne, ne_eq, ne_eq, hiff]

theorem length_filterPayload {ids : List UInt8} (hids : (callRequest h call).ids = some ids)
    (ht : (callRequest h call).type = .blockStatus) :
    ((callRequest h call).command h).Backed h.exp.extendedHeaders := by
  intro _
  simp only [Request.command, Request.wireCount, ht, hids, Option.getD_some]
  rw [UInt64.toNat_ofNat']
  exact Nat.mod_le _ _

/-- What a call makes has its payload, unless it is bare. -/
theorem makes_backed (ha : call.Addressable) (hm : Call.Makes inp h call cmd)
    (hbare : h.exp.extendedHeaders = true → h.isStrict strictFlags = false → call.bare = false) :
    cmd.Backed h.exp.extendedHeaders := by
  obtain ⟨hok, -, rfl⟩ := hm
  -- the plain block status calls claim no payload, or ask about nothing
  have hplain : ∀ {count : UInt64}, (callRequest h call).type = .blockStatus →
      (callRequest h call).flags = call.flags.toUInt16 → (callRequest h call).wireCount = count →
      call.flagMask = 0x8 → (call.bare = (count != 0 && hasFlag call.flags cmdFlagPayloadLen)) →
      ((callRequest h call).command h).Backed h.exp.extendedHeaders := by
    intro count ht hf hcount hmask hb hp
    rcases hasPayload_request hp with hw | ⟨he, -, hlen⟩
    · rw [ht] at hw
      cases hw
    · rw [hf, hasPayloadLen_toUInt16] at hlen
      cases hstrict : h.isStrict strictFlags with
      | true =>
        -- the wrapper would have refused the flag
        have hno := no_payloadLen hstrict hok (by rw [hmask]; decide)
        rw [hasPayloadLen_toUInt16, hlen] at hno
        cases hno
      | false =>
        have hz := hbare he hstrict
        rw [hb, hlen, Bool.and_true, bne_eq_false_iff_eq] at hz
        change (callRequest h call).wireCount.toNat ≤ _
        rw [hcount, hz]
        exact Nat.zero_le _
  cases call with
  | aioPwrite buf count offset completion flags =>
    intro _
    have hbuf : buf ≠ none := by
      rintro rfl
      exact absurd (callError_checks hok).1 nofun
    obtain ⟨bs, rfl⟩ := Option.ne_none_iff_exists'.mp hbuf
    exact Nat.le_of_eq (ha bs rfl).symm
  | aioBlockStatus count offset extent completion flags => exact hplain rfl rfl rfl rfl rfl
  | aioBlockStatus64 count offset extent64 completion flags => exact hplain rfl rfl rfl rfl rfl
  | aioBlockStatusFilter count offset filter extent64 completion flags =>
    exact length_filterPayload rfl rfl
  | aioPread | aioPreadStructured | aioFlush | aioTrim | aioCache | aioZero =>
    intro hp
    rcases hasPayload_request hp with hw | ⟨-, ht, -⟩
    · cases hw
    · cases ht

/-- A bare call that is accepted makes a command whose payload is not there. -/
theorem makes_bare (hm : Call.Makes inp h call cmd) (hb : call.bare = true)
    (he : h.exp.extendedHeaders = true) :
    cmd.hasPayload h.exp.extendedHeaders = true ∧ cmd.data = [] ∧ cmd.count ≠ 0 := by
  obtain ⟨-, -, rfl⟩ := hm
  cases call with
  | aioBlockStatus count offset extent completion flags
  | aioBlockStatus64 count offset extent64 completion flags =>
    simp only [Call.bare, Bool.and_eq_true, bne_iff_ne] at hb
    have hlen : hasPayloadLen flags.toUInt16 = true := by rw [hasPayloadLen_toUInt16, hb.2]
    refine ⟨?_, rfl, hb.1⟩
    simpa [Command.hasPayload, Request.command, callRequest, he] using bne_iff_ne.mp hlen
  | _ => cases hb

theorem disc_backed {exp : Export} (hd : Disconnects h cmd) : cmd.Backed exp.extendedHeaders := by
  obtain ⟨h₁, flags, -, rfl, -⟩ := hd
  intro hp
  rcases hasPayload_request hp with hw | ⟨-, ht, -⟩
  · cases hw
  · cases ht

theorem apiCall_backed {api : Api} (hinv : h.book.Inv) (ht : Tails h) (hi : Idle h)
    (hclose : api ≠ .close) (ha : api.Addressable)
    (hc : ∀ call, api = .command call → h.exp.extendedHeaders = true →
      h.isStrict strictFlags = false → call.bare = false)
    (hmem : cmd ∈ accepted (apiCall inp h api).h.trace) :
    cmd ∈ accepted h.trace ∨ cmd.Backed h.exp.extendedHeaders := by
  cases api with
  | command call =>
    refine (afterSubmit_accepted (submit_acceptsOnce call hinv ht hi) hmem).imp id fun hm => ?_
    have hexp := sanitize_exp h call
    have hstrict : (sanitize h call).isStrict strictFlags = h.isStrict strictFlags := by
      obtain ⟨m, hm⟩ := sanitize_eq h call
      rw [hm]
      rfl
    rw [← hexp]
    refine makes_backed ha hm ?_
    rw [hexp, hstrict]
    exact hc call rfl
  | aioDisconnect flags =>
    exact (afterSubmit_accepted (disc_acceptsOnce (.inl rfl) hinv ht hi) hmem).imp id disc_backed
  | shutdown flags =>
    exact (afterSubmit_accepted (disc_acceptsOnce (.inr rfl) hinv ht hi) hmem).imp id disc_backed
  | close => exact absurd rfl hclose
  | aioNotifyRead | aioNotifyWrite | setStrictMode | setPreadInitialize | aioCommandCompleted =>
    rw [(no_submission_disc hclose rfl).2] at hmem
    exact .inl hmem

/-! ## Runs -/

/-- Every accepted command has its payload. -/
structure AllBacked (c : Config) : Prop where
  origin : Origin c
  backed : ∀ cmd ∈ accepted c.h.trace, cmd.Backed c.h.exp.extendedHeaders

/-- **Step.** -/
theorem step_backed {c c' : Config} {l : Label} (hb : AllBacked c) (ha : l.Addressable)
    (hl : Carried c l) (h : step c l = some c') : c'.ctl = .closed ∨ AllBacked c' := by
  rcases step_origin hb.origin h with hcl | ho'
  · exact .inl hcl
  right
  have hs := hb.origin.good.sound
  refine ⟨ho', fun cmd hmem => ?_⟩
  rw [(step_names hs h).exp]
  obtain ⟨inp, k, rfl, hctl, rfl⟩ | ⟨api, inp, r, rfl, hctl, rfl⟩ := step_cases h
  · have hacc : accepted (stepEnter inp k c.h).h.trace = accepted c.h.trace := by
      refine stepEnter_all (P := fun h' => accepted h'.trace = accepted c.h.trace) k
        ((enter_proceeds inp hs.inv hs.tails).mono fun _ hp => hp.accepted) rfl fun _ _ hp => hp
    rw [hacc] at hmem
    exact hb.backed cmd hmem
  · by_cases hclose : api = .close
    · subst hclose
      have hsame : accepted (close inp { c.h with lastError := inp.lastError }).trace =
          accepted c.h.trace := by
        simp [close, Handle.log, accepted_freeCmdList]
      exact hb.backed cmd (hsame ▸ hmem)
    · have ht : Tails { c.h with lastError := inp.lastError } := ⟨hs.tails.toIssue, hs.tails.done⟩
      refine (apiCall_backed (h := { c.h with lastError := inp.lastError }) hs.inv ht
        (hs.idle r hctl) hclose ha ?_ hmem).elim (hb.backed cmd) id
      rintro call rfl
      exact hl

theorem reachableBy_backed {c : Config}
    (hc : machine.ReachableBy (fun c l => l.Addressable ∧ Carried c l) c) :
    c.ctl = .closed ∨ AllBacked c := by
  refine machine.reachableBy_invariant (P := fun c => c.ctl = .closed ∨ AllBacked c) ?_ ?_ hc
  · intro c₀ hi
    have ho : Origin c₀ := (reachable_origin ⟨c₀, [], hi, rfl⟩).resolve_left (by
      obtain ⟨exp, strict, pi, hdr, payload, mem, rfl⟩ := hi
      exact nofun)
    refine .inr ⟨ho, ?_⟩
    obtain ⟨exp, strict, pi, hdr, payload, mem, rfl⟩ := hi
    exact fun _ hmem => absurd hmem List.not_mem_nil
  · rintro c l c' (hcl | hb) ⟨ha, hl⟩ hstep
    · cases l <;> simp [machine, step, hcl] at hstep
    · exact step_backed hb ha hl hstep

/-- In `SEND_WRITE_PAYLOAD` the command at the head of the queue has a buffer with the
bytes that remain to be sent, and these are where `h->wbuf` points. -/
def PayloadThere (h : Handle) : Prop :=
  h.state = .issueSendWritePayload → 0 < h.tx.wlen →
    ∃ cmd, h.AtHead cmd ∧ h.tx.wlen ≤ cmd.data.length ∧ h.tx.wbuf <:+ cmd.data ∧
      h.tx.wlen ≤ h.tx.wbuf.length

/-- What is at the head of the queue was accepted. -/
theorem AllBacked.head {c : Config} (hb : AllBacked c) {head : Command} (hh : c.h.AtHead head) :
    head.Backed c.h.exp.extendedHeaders := by
  obtain ⟨rest, hq⟩ := hh
  obtain ⟨a, ha, hs⟩ := hb.origin.descends head (by simp [Book.commands, Handle.book, hq])
  have hba := hb.backed a ha
  rw [hs]
  exact hba

theorem payloadThere_of_backed {c : Config} (hb : AllBacked c) {b : List UInt8} (he : Emits b c.h) :
    PayloadThere c.h := by
  intro hs _
  have hem := he (by simp [Handle.alive, hs])
  rw [hs] at hem
  obtain ⟨cmd, hh, hp, n, hn, -, hwbuf, hwlen⟩ := hem
  have hle := hb.head hh hp
  refine ⟨cmd, hh, by omega, hwbuf ▸ List.drop_suffix n cmd.data, ?_⟩
  rw [hwbuf, hwlen, List.length_drop]
  omega

/-- **Payloads are sent from buffers that are there**, in every run in which no plain
block status call gets through with `PAYLOAD_LEN`. A call that does, and is accepted,
leaves a command whose payload is missing. -/
theorem payload_sources (c : Config) :
    (machine.ReachableBy (fun c l => l.Addressable ∧ Carried c l) c → c.runs = true →
      PayloadThere c.h) ∧
    ∀ l c' cmd, machine.Reachable c → machine.step c l = some c' → ¬ Carried c l →
      accepted c'.h.trace = accepted c.h.trace ++ [cmd] →
      cmd.hasPayload c'.h.exp.extendedHeaders = true ∧ cmd.data = [] ∧ cmd.count ≠ 0 := by
  constructor
  · intro hc hruns
    have hb := (reachableBy_backed hc).resolve_left fun hcl => by
      simp [Config.runs, hcl] at hruns
    obtain ⟨c₀, ls, hi, -, he⟩ := hc
    exact payloadThere_of_backed hb (run_emits hi he hruns).2
  · intro l c' cmd hc hstep hl hacc
    have hg : Good c := (reachable_good hc).resolve_left fun hcl => by
      cases l <;> simp [machine, step, hcl] at hstep
    obtain ⟨inp, k, rfl, -, -⟩ | ⟨api, inp, r, rfl, hctl, rfl⟩ := step_cases hstep
    · exact absurd trivial hl
    cases api with
    | command call =>
      simp only [Carried, Classical.not_imp, Bool.not_eq_false] at hl
      obtain ⟨he, -, hb⟩ := hl
      have hs := hg.sound
      have ht : Tails { c.h with lastError := inp.lastError } := ⟨hs.tails.toIssue, hs.tails.done⟩
      have hm := afterSubmit_made (h := { c.h with lastError := inp.lastError })
        (submit_acceptsOnce call hs.inv ht (hs.idle r hctl)) hacc
      have hexp := sanitize_exp { c.h with lastError := inp.lastError } call
      have hbare := makes_bare hm hb (by rw [hexp]; exact he)
      rw [hexp] at hbare
      rw [(step_names (l := .call (.command call) inp) hs hstep).exp]
      exact hbare
    | _ => exact absurd trivial hl

theorem payload_sources_filtered :
    ∃ c, machine.exec (.ofExport .filtered) (.call askFiltered .calm :: List.replicate 3 (.enter .calm)) =
        some c ∧ c.h.tx.wlen = 12 ∧
      ∃ cmd, c.h.AtHead cmd ∧ c.h.tx.wlen ≤ cmd.data.length ∧ c.h.tx.wbuf <:+ cmd.data ∧
        c.h.tx.wlen ≤ c.h.tx.wbuf.length := by
  have hrun : (machine.exec (.ofExport .filtered)
      (.call askFiltered .calm :: List.replicate 3 (.enter .calm))).map
        (fun c => (c.h.state, c.h.tx.wlen, c.runs)) = some (.issueSendWritePayload, 12, true) := by
    decide +kernel
  obtain ⟨c, hexec, hq⟩ := Option.map_eq_some_iff.mp hrun
  simp only [Prod.mk.injEq] at hq
  obtain ⟨hst, hlen, hruns⟩ := hq
  have hm : machine.Meets Carried (.ofExport .filtered)
      (.call askFiltered .calm :: List.replicate 3 (.enter .calm)) :=
    machine.meets_of_check (by decide +kernel)
  have ha : machine.Meets (fun _ l => Label.Addressable l) (.ofExport .filtered)
      (.call askFiltered .calm :: List.replicate 3 (.enter .calm)) := by
    refine machine.meets_of_forall _ _ fun l hl s => ?_
    rcases List.mem_cons.mp hl with rfl | hl
    · exact (by decide : 8 * 1 < 2 ^ 64)
    · rw [(List.mem_replicate.mp hl).2]
      trivial
  refine ⟨c, hexec, hlen, ?_⟩
  exact (payload_sources c).1 ⟨_, _, Config.initial_ofExport _, machine.meets_and ha hm, hexec⟩ hruns hst
    (by rw [hlen]; decide)

/-- With every check of the strict mode off, ask for the block status of 4096 bytes and
set `PAYLOAD_LEN`. -/
def bareStatus : List Label :=
  [.call (.setStrictMode 0) .calm,
    .call (.command (.aioBlockStatus 4096 0 ⟨true, false⟩ .null 0x20)) .calm,
    .enter .calm, .enter .calm, .enter .calm]

theorem bare_status_payload_missing :
    ¬ ∀ c, machine.ReachableBy (fun _ l => l.Addressable) c → c.runs = true → PayloadThere c.h := by
  intro hall
  have hrun : (machine.exec (.ofExport .filtered) bareStatus).map
      (fun c => (c.h.state, c.h.tx.wlen, c.runs, c.h.tx.wbuf)) =
      some (.issueSendWritePayload, 4096, true, []) := by
    decide +kernel
  obtain ⟨c, hexec, hq⟩ := Option.map_eq_some_iff.mp hrun
  simp only [Prod.mk.injEq] at hq
  obtain ⟨hst, hlen, hruns, hbuf⟩ := hq
  have ha : machine.Meets (fun _ l => Label.Addressable l) (.ofExport .filtered) bareStatus := by
    refine machine.meets_of_forall _ _ fun l hl s => ?_
    simp only [bareStatus, List.mem_cons, List.not_mem_nil, or_false] at hl
    rcases hl with rfl | rfl | rfl | rfl | rfl <;> trivial
  obtain ⟨cmd, -, -, -, hle⟩ := hall c ⟨_, _, Config.initial_ofExport _, ha, hexec⟩ hruns hst
    (by rw [hlen]; decide)
  rw [hlen, hbuf] at hle
  exact absurd hle (by decide)

end Libnbd
