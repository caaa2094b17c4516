import Libnbd.Lib.Decimal
import Libnbd.Spawn.Execvpe

/-!
The environment of a server that is started with systemd socket activation
(`generator/states-connect-socket-activation.c`), and the number formatter
`nbd_internal_fork_safe_itoa` (`lib/utils.c`) with which the child fills in its pid.

The parent copies its environment behind the three variables of the protocol and
leaves out the ones it inherited. The pid is known only after the fork, where no
memory can be asked for: the child writes it over a placeholder.
-/

namespace Libnbd.Spawn

open Lib
open Uri (str)

/-! ## `nbd_internal_fork_safe_itoa` -/

/-- The scratch buffer: the number of bytes in front of the text, and the text. -/
structure Scratch where
  free : Nat
  text : List UInt8
  deriving DecidableEq, Repr

/-- `buf[i--] = c`; `none` is for a store in front of the buffer. -/
def Scratch.put (b : Scratch) (c : UInt8) : Option Scratch :=
  if b.free = 0 then none else some ⟨b.free - 1, c :: b.text⟩

/-- The loop over the digits. -/
def putDigits (uv : UInt64) (b : Scratch) : Option Scratch :=
  if _h : uv.toNat = 0 then some b
  else
    match b.put (UInt8.ofNat (0x30 + (uv % 10).toNat)) with
    | none => none
    | some b => putDigits (uv / 10) b
  termination_by uv.toNat
  decreasing_by
    rw [UInt64.toNat_div]
    exact Nat.div_lt_self (Nat.pos_of_ne_zero _h) (by decide)

def putMagnitude (uv : UInt64) (b : Scratch) : Option Scratch :=
  if uv = 0 then b.put 0x30 else putDigits uv b

def putSign (neg : Bool) (b : Scratch) : Option Scratch := if neg then b.put 0x2d else some b

/-- The returned string; `none` is for `abort` and for a store outside the buffer. -/
def forkSafeItoa (v : Int64) (bufsize : Nat) : Option (List UInt8) :=
  if bufsize < 32 then none
  else
    let neg := decide (v < 0)
    let uv := if neg then -v.toUInt64 else v.toUInt64
    -- the terminating NUL takes the last byte
    (putMagnitude uv ⟨bufsize - 1, []⟩).bind fun b => (putSign neg b).map (·.text)

/-! ## The environment -/

/-- `struct sact_var`: a name with its equals sign, and a value. -/
structure SactVar where
  name : CString
  value : CString
  deriving DecidableEq, Repr

/-- The variable for the pid, with a placeholder. -/
def pidVar : SactVar := ⟨str "LISTEN_PID=", str "xxxxxxxxxxxxxxxxxxxxxxxxxxxxxxxx"⟩

/-- The three variables. The offset of the first one is kept in `pid_ofs`. -/
def sactVars (sactName : Option CString) : List SactVar :=
  [pidVar,
   ⟨str "LISTEN_FDS=", str "1"⟩,
   ⟨str "LISTEN_FDNAMES=", sactName.getD (str "unknown")⟩]

/-- `strncmp (entry, name, strlen (name)) == 0`. -/
def startsWith (entry name : CString) : Bool := name.isPrefixOf entry

/-- Where memory is asked for. -/
inductive EnvAllocation where
  | var (i : Nat)
  | appendVar (i : Nat)
  | entry (i : Nat)
  | appendEntry (i : Nat)
  | appendNull
  deriving DecidableEq, Repr

section

variable (mem : EnvAllocation → Bool)

/-- Copy the variables to the front. -/
def copyVars (i : Nat) (env : List CString) : List SactVar → Except Failure (List CString)
  | [] => .ok env
  | var :: vars =>
    match (do addOverflow (← addOverflow var.name.length var.value.length) 1) with
    | none => .error (.errno eoverflow)
    | some _ =>
      if mem (.var i) && mem (.appendVar i) then
        copyVars (i + 1) (env ++ [var.name ++ var.value]) vars
      else .error (.errno enomem)

/-- Append what was inherited, without the variables. -/
def copyEnviron (vars : List SactVar) (i : Nat) (env : List CString) :
    List CString → Except Failure (List CString)
  | [] => if mem .appendNull then .ok env else .error (.errno enomem)
  | entry :: environ =>
    if vars.any fun var => startsWith entry var.name then copyEnviron vars (i + 1) env environ
    else if mem (.entry i) && mem (.appendEntry i) then
      copyEnviron vars (i + 1) (env ++ [entry]) environ
    else .error (.errno enomem)

/-- `prepare_socket_activation_environment`, without the terminating null pointer. -/
def prepareSocketActivationEnvironment (vars : List SactVar) (environ : List CString) :
    Except Failure (List CString) :=
  match copyVars mem 0 [] vars with
  | .error e => .error e
  | .ok env => copyEnviron mem vars 0 env environ

/-- What the child does with the environment before it starts the server. -/
def fillInPid (var : SactVar) (pid : Int64) (env : List CString) : Except Failure (List CString) :=
  match forkSafeItoa pid 32 with
  | none => .error .assertion
  | some v =>
    if v.length > var.value.length then .error .assertion
    else
      match env with
      | [] => .error .assertion
      | entry :: rest => .ok ((entry.take var.name.length ++ v) :: rest)

/-- The environment that the server is started with. -/
def serverEnvironment (environ : List CString) (sactName : Option CString) (pid : Int64) :
    Except Failure (List CString) :=
  match prepareSocketActivationEnvironment mem (sactVars sactName) environ with
  | .error e => .error e
  | .ok env => fillInPid pidVar pid env

end

/-! ## Numbers -/

/-- A number with its sign. -/
def signedDecimal (v : Int) : List UInt8 :=
  if v < 0 then 0x2d :: decimal v.natAbs else decimal v.natAbs

theorem putDigits_eq {uv : UInt64} {b : Scratch} (hne : uv.toNat ≠ 0)
    (hfit : (decimal uv.toNat).length ≤ b.free) :
    putDigits uv b =
      some ⟨b.free - (decimal uv.toNat).length, decimal uv.toNat ++ b.text⟩ := by
  have hdiv : (uv / 10).toNat = uv.toNat / 10 := by rw [UInt64.toNat_div]; rfl
  have hmod : (uv % 10).toNat = uv.toNat % 10 := by rw [UInt64.toNat_mod]; rfl
  have hdec := decimal.eq_1 uv.toNat
  have hput : b.put (UInt8.ofNat (0x30 + (uv % 10).toNat)) =
      some ⟨b.free - 1, UInt8.ofNat (0x30 + uv.toNat % 10) :: b.text⟩ := by
    have := List.length_pos_iff.mpr (decimal_ne_nil uv.toNat)
    unfold Scratch.put
    rw [if_neg (by omega), hmod]
  rw [putDigits, dif_neg hne, hput]
  by_cases hsmall : uv.toNat < 10
  · have hzero : (uv / 10).toNat = 0 := by omega
    rw [if_pos hsmall] at hdec
    rw [hdec]
    simp only
    rw [putDigits, dif_pos hzero]
    rfl
  · have hlt : (uv / 10).toNat < uv.toNat := by omega
    rw [if_neg hsmall] at hdec
    rw [hdec, List.length_append, List.length_singleton] at hfit
    have hnext := @putDigits_eq (uv / 10) ⟨b.free - 1, UInt8.ofNat (0x30 + uv.toNat % 10) :: b.text⟩
      (by omega) (by rw [hdiv]; simp only; omega)
    simp only
    rw [hnext, hdec, hdiv, List.length_append, List.length_singleton]
    simp only [List.append_assoc, List.singleton_append, Option.some.injEq, Scratch.mk.injEq,
      and_true]
    omega
  termination_by uv.toNat

/-- The magnitude of a `long`, the smallest one included. -/
theorem toNat_magnitude (v : Int64) :
    (if v < 0 then -v.toUInt64 else v.toUInt64).toNat = v.toInt.natAbs := by
  have hcond : v.toInt = if 2 * v.toUInt64.toNat < 2 ^ 64 then (v.toUInt64.toNat : Int)
      else (v.toUInt64.toNat : Int) - 2 ^ 64 := BitVec.toInt_eq_toNat_cond v.toBitVec
  have hlt := v.toUInt64.toNat_lt
  have hneg : v < 0 ↔ v.toInt < 0 := Int64.lt_iff_toInt_lt
  by_cases h : v < 0
  · have h' := hneg.mp h
    rw [if_pos h, UInt64.toNat_neg, hcond]
    rw [hcond] at h'
    split at h' <;> rename_i hc
    · omega
    · rw [if_neg hc]
      change (2 ^ 64 - _) % 2 ^ 64 = _
      omega
  · have h' := mt hneg.mpr h
    rw [if_neg h, hcond]
    rw [hcond] at h'
    split at h' <;> rename_i hc
    · rw [if_pos hc]
      omega
    · omega

/-- The digits leave room for a sign. -/
theorem putMagnitude_eq (uv : UInt64) {free : Nat} (hfree : 31 ≤ free) :
    ∃ left, 0 < left ∧ putMagnitude uv ⟨free, []⟩ = some ⟨left, decimal uv.toNat⟩ := by
  unfold putMagnitude
  by_cases hzero : uv = 0
  · subst hzero
    have hdec : decimal (0 : UInt64).toNat = [0x30] := by decide +kernel
    refine ⟨free - 1, by omega, ?_⟩
    rw [if_pos rfl, hdec, Scratch.put, if_neg (by simp only; omega)]
  · have hne : uv.toNat ≠ 0 := fun h => hzero (UInt64.toNat_inj.mp h)
    have hlen : (decimal uv.toNat).length ≤ 19 + 1 := by
      apply length_decimal_le
      have := uv.toNat_lt
      omega
    refine ⟨free - (decimal uv.toNat).length, by omega, ?_⟩
    rw [if_neg hzero, putDigits_eq hne (by simp only; omega), List.append_nil]

/-- Every `long` is written as its decimal text, and there is room for it. -/
theorem forkSafeItoa_eq (v : Int64) {bufsize : Nat} (hbuf : 32 ≤ bufsize) :
    forkSafeItoa v bufsize = some (signedDecimal v.toInt) := by
  have hneg : v < 0 ↔ v.toInt < 0 := Int64.lt_iff_toInt_lt
  have hmag := toNat_magnitude v
  unfold forkSafeItoa
  rw [if_neg (by omega)]
  simp only [decide_eq_true_eq]
  obtain ⟨left, hleft, hput⟩ :=
    putMagnitude_eq (if v < 0 then -v.toUInt64 else v.toUInt64) (show 31 ≤ bufsize - 1 by omega)
  rw [hput, hmag]
  unfold putSign signedDecimal
  by_cases h : v < 0
  · simp only [h, hneg.mp h, decide_true, if_true, Option.bind_some, Scratch.put]
    rw [if_neg (by omega)]
    rfl
  · simp [h, mt hneg.mpr h]

theorem length_signedDecimal_le (v : Int64) : (signedDecimal v.toInt).length ≤ 21 := by
  have hlen : (decimal v.toInt.natAbs).length ≤ 19 + 1 := by
    apply length_decimal_le
    rw [← toNat_magnitude]
    have := (if v < 0 then -v.toUInt64 else v.toUInt64).toNat_lt
    omega
  unfold signedDecimal
  split
  · rw [List.length_cons]
    omega
  · omega

/-! ## Entries -/

/-- Every variable fits, and memory for it is granted. -/
def VarsGranted (mem : EnvAllocation → Bool) (i : Nat) (vars : List SactVar) : Prop :=
  ∀ j var, vars[j]? = some var → var.name.length + var.value.length + 1 ≤ sizeMax ∧
    mem (.var (i + j)) = true ∧ mem (.appendVar (i + j)) = true

theorem varsGranted_cons {mem : EnvAllocation → Bool} {i : Nat} {var : SactVar}
    {vars : List SactVar} :
    VarsGranted mem i (var :: vars) ↔
      (var.name.length + var.value.length + 1 ≤ sizeMax ∧
        mem (.var i) = true ∧ mem (.appendVar i) = true) ∧ VarsGranted mem (i + 1) vars := by
  refine ⟨fun h => ⟨h 0 var rfl, fun j v hj => ?_⟩, fun h j v hj => ?_⟩
  · have := h (j + 1) v hj
    rwa [show i + (j + 1) = i + 1 + j by omega] at this
  · cases j with
    | zero =>
      cases hj
      exact h.1
    | succ j =>
      have := h.2 j v hj
      rwa [show i + 1 + j = i + (j + 1) by omega] at this

/-- The sum of the two lengths and one, unless it overflows. -/
theorem addOverflow_succ (a b : Nat) :
    (do addOverflow (← addOverflow a b) 1) =
      if a + b + 1 ≤ sizeMax then some (a + b + 1) else none := by
  unfold addOverflow
  by_cases h : a + b > sizeMax
  · rw [if_pos h, if_neg (by omega)]
    rfl
  · rw [if_neg h]
    show (if a + b + 1 > sizeMax then none else some (a + b + 1)) = _
    by_cases h' : a + b + 1 > sizeMax
    · rw [if_pos h', if_neg (by omega)]
    · rw [if_neg h', if_pos (by omega)]

theorem copyVars_spec (mem : EnvAllocation → Bool) (i : Nat) (env : List CString)
    (vars : List SactVar) :
    VarsGranted mem i vars ∧
        copyVars mem i env vars = .ok (env ++ vars.map fun var => var.name ++ var.value) ∨
      ¬ VarsGranted mem i vars ∧ ∃ e, copyVars mem i env vars = .error (.errno e) := by
  induction vars generalizing i env with
  | nil => exact .inl ⟨fun j var hj => (by cases hj), by simp [copyVars]⟩
  | cons var vars ih =>
    unfold copyVars
    rw [varsGranted_cons, addOverflow_succ]
    by_cases hfit : var.name.length + var.value.length + 1 ≤ sizeMax
    · simp only [hfit, if_true, true_and]
      by_cases hmem : mem (.var i) = true ∧ mem (.appendVar i) = true
      · simp only [hmem, Bool.and_self, if_true, true_and]
        have hnext := ih (i + 1) (env ++ [var.name ++ var.value])
        rwa [List.append_assoc, List.singleton_append] at hnext
      · have hfail : (mem (.var i) && mem (.appendVar i)) = false := by
          rw [Bool.eq_false_iff, ne_eq, Bool.and_eq_true]
          exact hmem
        simp only [hfail, Bool.false_eq_true, if_false]
        exact .inr ⟨fun h => hmem h.1, _, rfl⟩
    · simp only [hfit, if_false]
      exact .inr ⟨fun h => h.1.1, _, rfl⟩

/-- The inherited entries that are kept. -/
def inherited (vars : List SactVar) (environ : List CString) : List CString :=
  environ.filter fun entry => !vars.any fun var => startsWith entry var.name

/-- Memory for every entry that is kept is granted, and for the null pointer behind them. -/
def EntriesGranted (mem : EnvAllocation → Bool) (vars : List SactVar) (i : Nat)
    (environ : List CString) : Prop :=
  mem .appendNull = true ∧ ∀ j entry, environ[j]? = some entry →
    (vars.any fun var => startsWith entry var.name) = false →
    mem (.entry (i + j)) = true ∧ mem (.appendEntry (i + j)) = true

theorem entriesGranted_cons {mem : EnvAllocation → Bool} {vars : List SactVar} {i : Nat}
    {entry : CString} {environ : List CString} :
    EntriesGranted mem vars i (entry :: environ) ↔
      ((vars.any fun var => startsWith entry var.name) = false →
        mem (.entry i) = true ∧ mem (.appendEntry i) = true) ∧
      EntriesGranted mem vars (i + 1) environ := by
  refine ⟨fun h => ⟨h.2 0 entry rfl, h.1, fun j e hj hkeep => ?_⟩, fun h => ⟨h.2.1, fun j e hj hkeep => ?_⟩⟩
  · have := h.2 (j + 1) e hj hkeep
    rwa [show i + (j + 1) = i + 1 + j by omega] at this
  · cases j with
    | zero =>
      cases hj
      exact h.1 hkeep
    | succ j =>
      have := h.2.2 j e hj hkeep
      rwa [show i + 1 + j = i + (j + 1) by omega] at this

theorem copyEnviron_spec (mem : EnvAllocation → Bool) (vars : List SactVar) (i : Nat)
    (env environ : List CString) :
    EntriesGranted mem vars i environ ∧
        copyEnviron mem vars i env environ = .ok (env ++ inherited vars environ) ∨
      ¬ EntriesGranted mem vars i environ ∧
        ∃ e, copyEnviron mem vars i env environ = .error (.errno e) := by
  induction environ generalizing i env with
  | nil =>
    unfold copyEnviron
    split
    · rename_i hnull
      exact .inl ⟨⟨hnull, fun j entry hj => (by cases hj)⟩, by simp [inherited]⟩
    · rename_i hnull
      exact .inr ⟨fun h => hnull h.1, _, rfl⟩
  | cons entry environ ih =>
    unfold copyEnviron
    rw [entriesGranted_cons]
    split
    · rename_i hdrop
      have hkeep : inherited vars (entry :: environ) = inherited vars environ := by
        simp [inherited, hdrop]
      simp only [hkeep, hdrop, Bool.true_eq_false, false_imp_iff, true_and]
      exact ih (i + 1) env
    · rename_i hdrop
      have hkeep : inherited vars (entry :: environ) = entry :: inherited vars environ := by
        simp [inherited, hdrop]
      have hfalse : (vars.any fun var => startsWith entry var.name) = false := by simpa using hdrop
      simp only [hkeep, hfalse, true_imp_iff]
      by_cases hmem : mem (.entry i) = true ∧ mem (.appendEntry i) = true
      · simp only [hmem, Bool.and_self, if_true, true_and]
        have hnext := ih (i + 1) (env ++ [entry])
        rwa [List.append_assoc, List.singleton_append] at hnext
      · have hfail : (mem (.entry i) && mem (.appendEntry i)) = false := by
          rw [Bool.eq_false_iff, ne_eq, Bool.and_eq_true]
          exact hmem
        simp only [hfail, Bool.false_eq_true, if_false]
        exact .inr ⟨fun h => hmem h.1, _, rfl⟩

/-- The names of the variables. -/
def listenNames : List CString := [str "LISTEN_PID=", str "LISTEN_FDS=", str "LISTEN_FDNAMES="]

theorem inherited_sactVars (sactName : Option CString) (environ : List CString) :
    inherited (sactVars sactName) environ =
      environ.filter fun entry => !listenNames.any fun name => startsWith entry name := rfl

/-- An entry with one of the names does not start with another one. -/
theorem startsWith_listenName {m n v : CString} (hm : m ∈ listenNames) (hn : n ∈ listenNames) :
    startsWith (n ++ v) m = decide (m = n) := by
  have hapart : ∀ m ∈ listenNames, ∀ n ∈ listenNames, m ≠ n → ¬ m <+: n ∧ ¬ n <+: m := by decide
  unfold startsWith
  by_cases heq : m = n
  · subst heq
    rw [decide_eq_true rfl, List.isPrefixOf_iff_prefix]
    exact List.prefix_append _ _
  · rw [decide_eq_false heq, Bool.eq_false_iff, ne_eq, List.isPrefixOf_iff_prefix]
    intro hpre
    rcases List.prefix_or_prefix_of_prefix hpre (List.prefix_append n v) with h | h
    · exact (hapart m hm n hn heq).1 h
    · exact (hapart m hm n hn heq).2 h

/-- The environment of the server, as it should be. -/
def expectedEnvironment (environ : List CString) (sactName : Option CString) (pid : Int64) :
    List CString :=
  [str "LISTEN_PID=" ++ signedDecimal pid.toInt, str "LISTEN_FDS=" ++ str "1",
      str "LISTEN_FDNAMES=" ++ sactName.getD (str "unknown")] ++
    environ.filter fun entry => !listenNames.any fun name => startsWith entry name

/-- Each of the three variables is there once. -/
theorem countP_listenName (environ : List CString) (sactName : Option CString) (pid : Int64)
    {name : CString} (hname : name ∈ listenNames) :
    (expectedEnvironment environ sactName pid).countP (fun entry => startsWith entry name) = 1 := by
  have hnone : (environ.filter fun entry => !listenNames.any fun name => startsWith entry name).countP
      (fun entry => startsWith entry name) = 0 := by
    rw [List.countP_eq_zero]
    intro entry hentry hstart
    have hkeep := (List.mem_filter.mp hentry).2
    have hany : listenNames.any (fun name => startsWith entry name) = true :=
      List.any_eq_true.mpr ⟨name, hname, hstart⟩
    rw [hany] at hkeep
    cases hkeep
  have hone : ∀ m ∈ listenNames, ((decide (m = str "LISTEN_PID=")).toNat +
      (decide (m = str "LISTEN_FDS=")).toNat + (decide (m = str "LISTEN_FDNAMES=")).toNat) = 1 := by
    decide
  unfold expectedEnvironment
  rw [List.countP_append, hnone, Nat.add_zero, ← hone name hname]
  simp only [List.countP_cons, List.countP_nil, Nat.zero_add]
  rw [startsWith_listenName hname (by decide), startsWith_listenName hname (by decide),
    startsWith_listenName hname (by decide)]
  cases decide (name = str "LISTEN_PID=") <;> cases decide (name = str "LISTEN_FDS=") <;>
    cases decide (name = str "LISTEN_FDNAMES=") <;> rfl

/-- No allocation that is made fails: two for each variable, two for each inherited entry
that is kept and one for the null pointer; and no length overflows. -/
def Granted (mem : EnvAllocation → Bool) (environ : List CString) (sactName : Option CString) :
    Prop :=
  VarsGranted mem 0 (sactVars sactName) ∧ EntriesGranted mem (sactVars sactName) 0 environ

/-- **The environment of a socket-activated server** has the three variables once, in
order, and then exactly the inherited entries without these names. It is there whenever
memory for it is, and else there is an error. The pid fits into its placeholder,
whatever number it is. -/
theorem socket_activation_environment (mem : EnvAllocation → Bool) (environ : List CString)
    (sactName : Option CString) (pid : Int64) :
    forkSafeItoa pid 32 = some (signedDecimal pid.toInt) ∧
      (Granted mem environ sactName → serverEnvironment mem environ sactName pid =
        .ok (expectedEnvironment environ sactName pid)) ∧
      (¬ Granted mem environ sactName →
        ∃ e, serverEnvironment mem environ sactName pid = .error (.errno e)) ∧
      ∀ name ∈ listenNames, (expectedEnvironment environ sactName pid).countP
        (fun entry => startsWith entry name) = 1 := by
  have hitoa := forkSafeItoa_eq pid (Nat.le_refl 32)
  -- the environment is built, or something that it needs was refused
  have hbuilt : Granted mem environ sactName ∧ serverEnvironment mem environ sactName pid =
        .ok (expectedEnvironment environ sactName pid) ∨
      ¬ Granted mem environ sactName ∧
        ∃ e, serverEnvironment mem environ sactName pid = .error (.errno e) := by
    unfold serverEnvironment prepareSocketActivationEnvironment Granted
    rcases copyVars_spec mem 0 [] (sactVars sactName) with ⟨hgv, hvars⟩ | ⟨hgv, e, hvars⟩
    · rw [hvars]
      rcases copyEnviron_spec mem (sactVars sactName) 0
        ([] ++ (sactVars sactName).map fun var => var.name ++ var.value) environ
        with ⟨hge, henv⟩ | ⟨hge, e, henv⟩
      · refine .inl ⟨⟨hgv, hge⟩, ?_⟩
        simp only [henv, fillInPid, hitoa]
        have hlen := length_signedDecimal_le pid
        have hfit : ¬ (signedDecimal pid.toInt).length > pidVar.value.length := by
          have : pidVar.value.length = 32 := by decide
          omega
        rw [if_neg hfit, inherited_sactVars]
        rfl
      · refine .inr ⟨fun h => hge h.2, e, ?_⟩
        simp only [henv]
    · refine .inr ⟨fun h => hgv h.1, e, ?_⟩
      rw [hvars]
  refine ⟨hitoa, fun hgranted => ?_, fun hrefused => ?_,
    fun name hname => countP_listenName environ sactName pid hname⟩
  · rcases hbuilt with ⟨-, hok⟩ | ⟨hnot, -⟩
    · exact hok
    · exact absurd hgranted hnot
  · rcases hbuilt with ⟨hgranted, -⟩ | ⟨-, herr⟩
    · exact absurd hgranted hrefused
    · exact herr

/-- With all the memory there is, every environment is built. -/
theorem granted_of_short {environ : List CString} {sactName : Option CString}
    (h : ∀ var ∈ sactVars sactName, var.name.length + var.value.length + 1 ≤ sizeMax) :
    Granted (fun _ => true) environ sactName :=
  ⟨fun _ _ hj => ⟨h _ (List.mem_of_getElem? hj), rfl, rfl⟩, rfl, fun _ _ _ _ => ⟨rfl, rfl⟩⟩

/-- An inherited variable of the protocol goes, one whose name only begins like it stays. -/
theorem socket_activation_environment_inherited :
    serverEnvironment (fun _ => true)
        [str "LISTEN_FDS=7", str "HOME=/root", str "LISTEN_FDSX=1", str "LISTEN_PID"] none 42 =
      .ok [str "LISTEN_PID=42", str "LISTEN_FDS=1", str "LISTEN_FDNAMES=unknown",
        str "HOME=/root", str "LISTEN_FDSX=1", str "LISTEN_PID"] ∧
    ∃ e, serverEnvironment (fun a => decide (a ≠ .entry 1))
        [str "LISTEN_FDS=7", str "HOME=/root"] none 42 = .error (.errno e) := by
  have hall := (socket_activation_environment (fun _ => true)
    [str "LISTEN_FDS=7", str "HOME=/root", str "LISTEN_FDSX=1", str "LISTEN_PID"] none 42).2.1
    (granted_of_short (by decide))
  have hsome := (socket_activation_environment (fun a => decide (a ≠ .entry 1))
    [str "LISTEN_FDS=7", str "HOME=/root"] none 42).2.2.1
    (fun h => absurd (h.2.2 1 (str "HOME=/root") rfl (by decide)).1 (by decide))
  refine ⟨hall.trans (congrArg Except.ok ?_), hsome⟩
  decide +kernel

end Libnbd.Spawn
