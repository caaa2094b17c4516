import Libnbd.Negotiation.Handle
import Libnbd.Uri.Queries

/-!
Starting a program without `execvp` (`lib/utils.c`): `nbd_internal_execvpe_init`,
which lists the candidates before `fork`, and `nbd_internal_fork_safe_execvpe`, which
tries them in the child.

Sizes are numbers below `2 ^ 64`. A terminating null pointer of an argument vector is
`none`. The candidates are compared with the list that the comment above
`nbd_internal_execvpe_init` describes, the attempts with the shortest run of
candidates that ends at an error which is not about the path.
-/

namespace Libnbd.Spawn

open Negotiation (enoent enametoolong)
open Uri (str)

def slash : UInt8 := 0x2f
def colon : UInt8 := 0x3a
def dot : UInt8 := 0x2e

def enoexec : UInt32 := 8
def eacces : UInt32 := 13
def enotdir : UInt32 := 20
def eloop : UInt32 := 40

/-! ## Before the fork -/

/-- Where memory is asked for. -/
inductive Allocation where
  | path
  | pathname (scan : Nat)
  | append (scan : Nat)
  | shArgv
  deriving DecidableEq, Repr

/-- The environment variable `PATH`, the value of `_CS_PATH` or the `errno` of
`confstr`, and whether memory is found. -/
structure System where
  path : Option CString
  confstr : Except UInt32 CString
  mem : Allocation → Bool

inductive Failure where
  | errno (e : UInt32)
  | assertion
  deriving DecidableEq, Repr

def getPath (S : System) : Except Failure CString :=
  match S.path with
  | some path => if S.mem .path then .ok path else .error (.errno enomem)
  | none =>
    match S.confstr with
    | .error e => .error (.errno (if e = 0 then enoent else e))
    | .ok path => if S.mem .path then .ok path else .error (.errno enomem)

/-- `SIZE_MAX`. -/
def sizeMax : Nat := 2 ^ 64 - 1

/-- `ADD_OVERFLOW` and `MUL_OVERFLOW`; `none` on overflow. -/
def addOverflow (a b : Nat) : Option Nat := if a + b > sizeMax then none else some (a + b)
def mulOverflow (a b : Nat) : Option Nat := if a * b > sizeMax then none else some (a * b)

/-- The candidate for the element of the path that ends at `scan`. -/
def makePathname (S : System) (file path : CString) (element scan : Nat) :
    Except Failure CString :=
  let copy := if scan = element then [dot] else (path.drop element).take (scan - element)
  if copy.length < 1 then .error .assertion
  else
    let sep := if copy.getLast? = some slash then [] else [slash]
    match (do addOverflow (← addOverflow (← addOverflow copy.length sep.length) file.length) 1) with
    | none => .error (.errno eoverflow)
    | some _ =>
      if S.mem (.pathname scan) then .ok (copy ++ sep ++ file) else .error (.errno enomem)

/-- `string_vector_append`. -/
def append (S : System) (scan : Nat) (pathnames : List CString) (pathname : CString) :
    Except Failure (List CString) :=
  if S.mem (.append scan) then .ok (pathnames ++ [pathname]) else .error (.errno enomem)

/-- The loop over the path. An element is added at each colon and at the end. -/
def scanPath (S : System) (file path : CString) (element scan : Nat) (pathnames : List CString) :
    Except Failure (List CString) :=
  if element > scan then .error .assertion
  else if hend : scan < path.length then
    if path.get ⟨scan, hend⟩ = colon then
      match makePathname S file path element scan with
      | .error e => .error e
      | .ok pathname =>
        match append S scan pathnames pathname with
        | .error e => .error e
        | .ok pathnames => scanPath S file path (scan + 1) (scan + 1) pathnames
    else scanPath S file path element (scan + 1) pathnames
  else
    match makePathname S file path element scan with
    | .error e => .error e
    | .ok pathname => append S scan pathnames pathname
  termination_by path.length - scan

/-- The first phase of `nbd_internal_execvpe_init`. -/
def findPathnames (S : System) (file : CString) : Except Failure (List CString) :=
  if slash ∈ file then
    if S.mem (.pathname 0) then append S 0 [] file else .error (.errno enomem)
  else
    match getPath S with
    | .error e => .error e
    | .ok path =>
      if path = [] then .error (.errno enoent) else scanPath S file path 0 0 []

/-- `struct execvpe`; of `sh_argv` only the number of elements is known. -/
structure Execvpe where
  pathnames : List CString
  numShArgs : Nat
  deriving DecidableEq, Repr

/-- `nbd_internal_execvpe_init`. -/
def execvpeInit (S : System) (file : CString) (numArgs : Nat) : Except Failure Execvpe :=
  if file = [] then .error (.errno enoent)
  else
    match findPathnames S file with
    | .error e => .error e
    | .ok pathnames =>
      if numArgs < 2 then .error (.errno einval)
      else
        match (do let n ← addOverflow numArgs 1; let _ ← mulOverflow n 8; pure n) with
        | none => .error (.errno eoverflow)
        | some numShArgs =>
          if S.mem .shArgv then .ok ⟨pathnames, numShArgs⟩ else .error (.errno enomem)

/-! ## In the child -/

/-- A call of `execve`. -/
structure Attempt where
  path : CString
  argv : List (Option CString)
  deriving DecidableEq, Repr

/-- The `errno` of each attempt; `none` is for the one that succeeds. -/
structure Kernel where
  candidate : Nat → Option UInt32
  shell : Option UInt32

/-- How the child goes on: as another program, after a return, by a failing assertion,
or with an access outside an array. -/
inductive Ending where
  | replaced | returned | assertion | outOfBounds
  deriving DecidableEq, Repr

/-- The errors after which the next candidate is tried. -/
def isPathError (e : UInt32) : Bool :=
  e == eacces || e == eloop || e == enametoolong || e == enoent || e == enotdir

/-- How the loop is left. -/
inductive LoopExit where
  | replaced
  | outOfBounds
  | stopped (pathnameIdx : Nat) (errno : UInt32)
  deriving DecidableEq, Repr

/-- The loop over the candidates. -/
def tryCandidates (K : Kernel) (pathnames : List CString) (argv : List (Option CString))
    (pathnameIdx : Nat) : List Attempt × LoopExit :=
  match pathnames[pathnameIdx]? with
  | none => ([], .outOfBounds)
  | some path =>
    match K.candidate pathnameIdx with
    | none => ([⟨path, argv⟩], .replaced)
    | some e =>
      if !isPathError e then ([⟨path, argv⟩], .stopped pathnameIdx e)
      else if pathnameIdx + 1 < pathnames.length then
        let r := tryCandidates K pathnames argv (pathnameIdx + 1)
        (⟨path, argv⟩ :: r.1, r.2)
      else ([⟨path, argv⟩], .stopped (pathnameIdx + 1) e)
  termination_by pathnames.length - pathnameIdx

/-- `*sh_argp++ = arg` in an array of `size` elements. -/
def push (size : Nat) (args : List (Option CString)) (arg : Option CString) :
    Option (List (Option CString)) :=
  if args.length < size then some (args ++ [arg]) else none

/-- The arguments of the shell; `none` is for an access outside an array. -/
def shArgv (ctx : Execvpe) (argv : List (Option CString)) (pathnameIdx : Nat) :
    Option (List (Option CString)) := do
  let args ← push ctx.numShArgs [] (← argv[0]?)
  let args ← push ctx.numShArgs args (some (← ctx.pathnames[pathnameIdx]?))
  (argv.drop 1).foldlM (push ctx.numShArgs) args

/-- `nbd_internal_fork_safe_execvpe`. -/
def forkSafeExecvpe (K : Kernel) (ctx : Execvpe) (argv : List (Option CString)) :
    List Attempt × Ending :=
  if ctx.pathnames.length = 0 then ([], .assertion)
  else
    let r := tryCandidates K ctx.pathnames argv 0
    match r.2 with
    | .replaced => (r.1, .replaced)
    | .outOfBounds => (r.1, .outOfBounds)
    | .stopped pathnameIdx e =>
      if e = enoexec then
        if ctx.numShArgs < argv.length ∨ ctx.numShArgs - argv.length ≠ 1 then (r.1, .assertion)
        else
          match shArgv ctx argv pathnameIdx with
          | none => (r.1, .outOfBounds)
          | some args =>
            (r.1 ++ [⟨str "/bin/sh", args⟩], if K.shell = none then .replaced else .returned)
      else (r.1, .returned)

/-! ## What is to be tried -/

def curdir (x : CString) : CString := if x = [] then [dot] else x

def suffix (x : CString) : CString := if x.getLast? = some slash then x else x ++ [slash]

/-- One candidate for each element of the path. -/
def pathCandidates (path file : CString) : List CString :=
  (path.splitOn colon).map fun element => suffix (curdir element) ++ file

/-- The argument vector with its terminating null pointer. -/
def argvOf (args : List CString) : List (Option CString) := args.map some ++ [none]

/-- The search ends here. -/
def ends : Option UInt32 → Bool
  | none => true
  | some e => !isPathError e

/-- The candidates up to the first one at which the search ends, and the shell if that
one is not a binary. -/
def expectedRun (K : Kernel) (pathnames args : List CString) : List Attempt × Ending :=
  match (List.range pathnames.length).find? fun i => ends (K.candidate i) with
  | none => (pathnames.map fun path => ⟨path, argvOf args⟩, .returned)
  | some i =>
    let tried := (pathnames.take (i + 1)).map fun path => ⟨path, argvOf args⟩
    if K.candidate i = none then (tried, .replaced)
    else if K.candidate i = some enoexec then
      (tried ++ [⟨str "/bin/sh",
          argvOf (args.take 1 ++ (pathnames.drop i).take 1 ++ args.drop 1)⟩],
        if K.shell = none then .replaced else .returned)
    else (tried, .returned)

/-! ## The candidates -/

section

variable {S : System} {file path : CString} {element scan : Nat} {pathnames : List CString}

/-- The element of the path between two positions. -/
def elementAt (path : CString) (element scan : Nat) : CString :=
  (path.drop element).take (scan - element)

theorem makePathname_spec (S : System) (file : CString) (hle : element ≤ scan)
    (hscan : scan ≤ path.length) :
    makePathname S file path element scan =
        .ok (suffix (curdir (elementAt path element scan)) ++ file) ∨
      ∃ e, makePathname S file path element scan = .error (.errno e) := by
  have hlen : (elementAt path element scan).length = scan - element := by
    simp only [elementAt, List.length_take, List.length_drop]
    omega
  have hcopy : (if scan = element then [dot] else (path.drop element).take (scan - element)) =
      curdir (elementAt path element scan) := by
    unfold curdir
    by_cases heq : scan = element
    · rw [if_pos heq, if_pos (List.length_eq_zero_iff.mp (by omega))]
    · rw [if_neg heq, if_neg fun h => heq (by rw [h] at hlen; simp at hlen; omega)]
      rfl
  have hne : ¬ (curdir (elementAt path element scan)).length < 1 := by
    unfold curdir
    split
    · decide
    · rename_i h
      have := List.length_pos_iff.mpr h
      omega
  unfold makePathname
  simp only [hcopy, hne, if_false]
  split
  · exact .inr ⟨_, rfl⟩
  split
  · refine .inl ?_
    unfold suffix
    split <;> simp_all
  · exact .inr ⟨_, rfl⟩

theorem append_spec (S : System) (scan : Nat) (pathnames : List CString) (pathname : CString) :
    append S scan pathnames pathname = .ok (pathnames ++ [pathname]) ∨
      ∃ e, append S scan pathnames pathname = .error (.errno e) := by
  unfold append
  split
  · exact .inl rfl
  · exact .inr ⟨_, rfl⟩

theorem pathCandidates_last (h : colon ∉ path) :
    pathCandidates path file = [suffix (curdir path) ++ file] := by
  have hall : ∀ c ∈ path, (c == colon) = false := fun c hc => beq_false_of_ne fun he => h (he ▸ hc)
  unfold pathCandidates List.splitOn
  rw [List.splitOnP_eq_singleton hall]
  rfl

theorem pathCandidates_cons {x rest : CString} (h : colon ∉ x) :
    pathCandidates (x ++ colon :: rest) file =
      (suffix (curdir x) ++ file) :: pathCandidates rest file := by
  have hall : ∀ c ∈ x, (c == colon) = false := fun c hc => beq_false_of_ne fun he => h (he ▸ hc)
  unfold pathCandidates List.splitOn
  rw [List.splitOnP_append_cons_of_forall_mem hall colon (by decide) rest]
  rfl

/-- An element grows by the next character. -/
theorem elementAt_succ (hle : element ≤ scan) (hend : scan < path.length) :
    elementAt path element (scan + 1) = elementAt path element scan ++ [path.get ⟨scan, hend⟩] := by
  unfold elementAt
  have hget : (path.drop element)[scan - element]? = some (path.get ⟨scan, hend⟩) := by
    rw [List.getElem?_drop, show element + (scan - element) = scan by omega]
    exact List.getElem?_eq_getElem hend
  rw [show scan + 1 - element = scan - element + 1 by omega, List.take_add_one, hget]
  rfl

theorem elementAt_end (hscan : scan = path.length) : elementAt path element scan = path.drop element := by
  unfold elementAt
  rw [List.take_of_length_le]
  simp only [List.length_drop]
  omega

/-- The rest of the path, when the element ends at a colon. -/
theorem drop_element (hle : element ≤ scan) (hend : scan < path.length) :
    path.drop element = elementAt path element scan ++
      path.get ⟨scan, hend⟩ :: path.drop (scan + 1) := by
  have hdrop : (path.drop element).drop (scan - element) = path.drop scan := by
    rw [List.drop_drop]
    congr 1
    omega
  have hcons : path.drop scan = path.get ⟨scan, hend⟩ :: path.drop (scan + 1) :=
    List.drop_eq_getElem_cons hend
  rw [← hcons, ← hdrop]
  exact (List.take_append_drop _ _).symm

/-- The invariant of the loop: there is no colon in the current element. What is still
to be added are the candidates of the rest of the path. -/
theorem scanPath_spec (S : System) (file : CString) (hle : element ≤ scan)
    (hscan : scan ≤ path.length) (hcolon : colon ∉ elementAt path element scan) :
    scanPath S file path element scan pathnames =
        .ok (pathnames ++ pathCandidates (path.drop element) file) ∨
      ∃ e, scanPath S file path element scan pathnames = .error (.errno e) := by
  induction hn : path.length - scan generalizing element scan pathnames with
  | zero =>
    have hend : scan = path.length := by omega
    rw [scanPath, if_neg (by omega), dif_neg (by omega)]
    rw [elementAt_end hend] at hcolon
    rcases makePathname_spec S file hle hscan with h | ⟨e, h⟩
    · rw [h, elementAt_end hend, pathCandidates_last hcolon]
      exact append_spec ..
    · rw [h]
      exact .inr ⟨e, rfl⟩
  | succ n ih =>
    have hend : scan < path.length := by omega
    rw [scanPath, if_neg (by omega), dif_pos hend]
    split
    · rename_i hc
      have hdrop := drop_element hle hend
      rw [hc] at hdrop
      rcases makePathname_spec S file hle hscan with h | ⟨e, h⟩
      · rw [h, hdrop, pathCandidates_cons hcolon]
        rcases append_spec S scan pathnames
          (suffix (curdir (elementAt path element scan)) ++ file) with ha | ⟨e, ha⟩
        · simp only [ha]
          have hnext := @ih (scan + 1) (scan + 1)
            (pathnames ++ [suffix (curdir (elementAt path element scan)) ++ file])
            (Nat.le_refl _) hend (by simp [elementAt]) (by omega)
          rwa [List.append_assoc, List.singleton_append] at hnext
        · simp only [ha]
          exact .inr ⟨e, rfl⟩
      · rw [h]
        exact .inr ⟨e, rfl⟩
    · rename_i hc
      refine ih (by omega) hend ?_ (by omega)
      rw [elementAt_succ hle hend, List.mem_append, List.mem_singleton]
      rintro (h | h)
      · exact hcolon h
      · exact hc h.symm

/-- `PATH`, or the value of `_CS_PATH` if it is not set. -/
def systemPath (S : System) : Option CString :=
  match S.path, S.confstr with
  | some path, _ => some path
  | none, .ok path => some path
  | none, .error _ => none

theorem getPath_spec (S : System) :
    (∃ path, getPath S = .ok path ∧ systemPath S = some path) ∨
      ∃ e, getPath S = .error (.errno e) := by
  unfold getPath systemPath
  cases S.path with
  | some path =>
    cases S.mem .path with
    | true => exact .inl ⟨path, rfl, rfl⟩
    | false => exact .inr ⟨_, rfl⟩
  | none =>
    cases S.confstr with
    | error e => exact .inr ⟨_, rfl⟩
    | ok path =>
      cases S.mem .path with
      | true => exact .inl ⟨path, rfl, rfl⟩
      | false => exact .inr ⟨_, rfl⟩

/-- The candidates that the comment describes. -/
def Described (S : System) (file : CString) (pathnames : List CString) : Prop :=
  slash ∈ file ∧ pathnames = [file] ∨
    slash ∉ file ∧ ∃ path, systemPath S = some path ∧ path ≠ [] ∧
      pathnames = pathCandidates path file

theorem findPathnames_spec (S : System) (file : CString) :
    (∃ pathnames, findPathnames S file = .ok pathnames ∧ Described S file pathnames) ∨
      ∃ e, findPathnames S file = .error (.errno e) := by
  unfold findPathnames
  by_cases hs : slash ∈ file
  · rw [if_pos hs]
    cases S.mem (.pathname 0) with
    | true =>
      rcases append_spec S 0 [] file with h | ⟨e, h⟩
      · exact .inl ⟨[file], h, .inl ⟨hs, rfl⟩⟩
      · exact .inr ⟨e, h⟩
    | false => exact .inr ⟨_, rfl⟩
  · rw [if_neg hs]
    rcases getPath_spec S with ⟨path, h, hsys⟩ | ⟨e, h⟩
    · rw [h]
      by_cases hne : path = []
      · exact .inr ⟨enoent, by simp [hne]⟩
      · simp only [hne, if_false]
        rcases @scanPath_spec path 0 0 [] S file (Nat.le_refl _) (Nat.zero_le _)
          (by simp [elementAt]) with hscan | ⟨e, hscan⟩
        · exact .inl ⟨_, hscan, .inr ⟨hs, path, hsys, hne, rfl⟩⟩
        · exact .inr ⟨e, hscan⟩
    · rw [h]
      exact .inr ⟨e, rfl⟩

theorem addOverflow_some {a b n : Nat} (h : addOverflow a b = some n) : n = a + b := by
  unfold addOverflow at h
  split at h
  · cases h
  · cases h
    rfl

/-- `nbd_internal_execvpe_init` succeeds with the described candidates and room for one
more argument, or fails with an `errno`. -/
theorem execvpeInit_spec (S : System) (file : CString) (numArgs : Nat) :
    (∃ ctx, execvpeInit S file numArgs = .ok ctx ∧ Described S file ctx.pathnames ∧
        2 ≤ numArgs ∧ ctx.numShArgs = numArgs + 1) ∨
      ∃ e, execvpeInit S file numArgs = .error (.errno e) := by
  unfold execvpeInit
  split
  · exact .inr ⟨_, rfl⟩
  rcases findPathnames_spec S file with ⟨pathnames, h, hd⟩ | ⟨e, h⟩
  · simp only [h]
    split
    · exact .inr ⟨_, rfl⟩
    rename_i hnum
    split
    · exact .inr ⟨_, rfl⟩
    rename_i n hn
    obtain ⟨k, hk, hrest⟩ := Option.bind_eq_some_iff.mp hn
    obtain ⟨m, -, hm⟩ := Option.bind_eq_some_iff.mp hrest
    cases hm
    split
    · exact .inl ⟨_, rfl, hd, by omega, addOverflow_some hk⟩
    · exact .inr ⟨_, rfl⟩
  · simp only [h]
    exact .inr ⟨e, rfl⟩

theorem Described.ne_nil (h : Described S file pathnames) : pathnames ≠ [] := by
  rcases h with ⟨-, rfl⟩ | ⟨-, path, -, -, rfl⟩
  · exact List.cons_ne_nil _ _
  · unfold pathCandidates List.splitOn
    simp [List.splitOnP_ne_nil]

end

/-! ## The attempts -/

section

variable {K : Kernel} {pathnames : List CString}

/-- The candidates before the first one at which the search ends. -/
structure FirstEnd (K : Kernel) (i j : Nat) : Prop where
  le : i ≤ j
  before : ∀ k, i ≤ k → k < j → ends (K.candidate k) = false
  here : ends (K.candidate j) = true

/-- The loop goes on to the first candidate at which the search ends. -/
theorem tryCandidates_first (argv : List (Option CString)) {i j : Nat} (hf : FirstEnd K i j) (hj : j < pathnames.length) :
    tryCandidates K pathnames argv i =
      (((pathnames.drop i).take (j + 1 - i)).map fun path => ⟨path, argv⟩,
        match K.candidate j with
        | none => .replaced
        | some e => .stopped j e) := by
  obtain ⟨hle, hbefore, hhere⟩ := hf
  have hi : i < pathnames.length := by omega
  have hdrop : pathnames.drop i = pathnames[i] :: pathnames.drop (i + 1) :=
    List.drop_eq_getElem_cons hi
  rw [tryCandidates, List.getElem?_eq_getElem hi, hdrop]
  by_cases heq : i = j
  · subst heq
    rw [show i + 1 - i = 1 by omega]
    cases hK : K.candidate i with
    | none => rfl
    | some e =>
      rw [hK] at hhere
      simp only [show (!isPathError e) = true from hhere, if_true]
      rfl
  · have hi' := hbefore i (Nat.le_refl _) (by omega)
    cases hK : K.candidate i with
    | none =>
      rw [hK] at hi'
      cases hi'
    | some e =>
      rw [hK] at hi'
      have hf' : FirstEnd K (i + 1) j := ⟨by omega, fun k hk => hbefore k (by omega), hhere⟩
      have hnext := tryCandidates_first argv hf' hj
      simp only [show (!isPathError e) = false from hi', Bool.false_eq_true, if_false]
      rw [if_pos (by omega), hnext, show j + 1 - i = j + 1 - (i + 1) + 1 by omega]
      rfl
  termination_by j - i

/-- Where the search ends at no candidate, all of them are tried. -/
theorem tryCandidates_all (argv : List (Option CString)) {i : Nat} (hi : i < pathnames.length)
    (hall : ∀ k, i ≤ k → k < pathnames.length → ends (K.candidate k) = false) :
    ∃ e, isPathError e = true ∧ tryCandidates K pathnames argv i =
      ((pathnames.drop i).map fun path => ⟨path, argv⟩, .stopped pathnames.length e) := by
  have hdrop : pathnames.drop i = pathnames[i] :: pathnames.drop (i + 1) :=
    List.drop_eq_getElem_cons hi
  have hi' := hall i (Nat.le_refl _) hi
  rw [tryCandidates, List.getElem?_eq_getElem hi, hdrop]
  cases hK : K.candidate i with
  | none =>
    rw [hK] at hi'
    cases hi'
  | some e =>
    rw [hK] at hi'
    have he : (!isPathError e) = false := hi'
    simp only [he, Bool.false_eq_true, if_false]
    by_cases hlast : i + 1 < pathnames.length
    · obtain ⟨e', he', hnext⟩ := tryCandidates_all argv hlast fun k hk =>
        hall k (by omega)
      refine ⟨e', he', ?_⟩
      rw [if_pos hlast, hnext]
      rfl
    · refine ⟨e, by simpa using he, ?_⟩
      rw [if_neg hlast, List.drop_eq_nil_of_le (by omega), show i + 1 = pathnames.length by omega]
      rfl
  termination_by pathnames.length - i

theorem foldlM_push {size : Nat} (args more : List (Option CString))
    (h : args.length + more.length ≤ size) : more.foldlM (push size) args = some (args ++ more) := by
  induction more generalizing args with
  | nil => simp
  | cons a more ih =>
    rw [List.length_cons] at h
    rw [List.foldlM_cons, push, if_pos (by omega)]
    change List.foldlM (push size) (args ++ [a]) more = _
    rw [ih _ (by simp; omega)]
    simp

/-- The shell is given the candidate in front of the other arguments, and the array is
just long enough. -/
theorem shArgv_eq {ctx : Execvpe} {a : CString} {args : List CString} {i : Nat}
    (hnum : ctx.numShArgs = (argvOf (a :: args)).length + 1) (hi : i < ctx.pathnames.length) :
    shArgv ctx (argvOf (a :: args)) i =
      some (argvOf ([a] ++ (ctx.pathnames.drop i).take 1 ++ args)) := by
  have hdrop : (ctx.pathnames.drop i).take 1 = [ctx.pathnames[i]] := by
    rw [List.drop_eq_getElem_cons hi]
    rfl
  have hargv : argvOf (a :: args) = some a :: argvOf args := rfl
  have hlen : (argvOf (a :: args)).length = args.length + 2 := by simp [argvOf]
  unfold shArgv
  rw [hdrop, hargv, List.getElem?_eq_getElem hi]
  change (push ctx.numShArgs [] (some a)).bind _ = _
  rw [push, if_pos (by simp; omega)]
  change (push ctx.numShArgs [some a] (some ctx.pathnames[i])).bind _ = _
  rw [push, if_pos (by simp; omega)]
  change (argvOf args).foldlM (push ctx.numShArgs) [some a, some ctx.pathnames[i]] = _
  rw [foldlM_push _ _ (by simp [argvOf]; omega)]
  simp [argvOf]

end

/-- The child tries what it is to try. -/
theorem forkSafeExecvpe_eq (K : Kernel) {ctx : Execvpe} {args : List CString}
    (hne : ctx.pathnames ≠ []) (hargs : args ≠ [])
    (hnum : ctx.numShArgs = (argvOf args).length + 1) :
    forkSafeExecvpe K ctx (argvOf args) = expectedRun K ctx.pathnames args := by
  have hpos := List.length_pos_iff.mpr hne
  obtain ⟨a, args, rfl⟩ := List.exists_cons_of_ne_nil hargs
  unfold forkSafeExecvpe expectedRun
  rw [if_neg (by omega)]
  cases hfind : (List.range ctx.pathnames.length).find? fun i => ends (K.candidate i) with
  | none =>
    have hall : ∀ k, 0 ≤ k → k < ctx.pathnames.length → ends (K.candidate k) = false := by
      intro k _ hk
      simpa using List.find?_eq_none.mp hfind k (List.mem_range.mpr hk)
    obtain ⟨e, he, hrun⟩ := tryCandidates_all (argvOf (a :: args)) hpos hall
    have hnoexec : e ≠ enoexec := by
      rintro rfl
      exact absurd he (by decide)
    simp only [hrun, hnoexec, if_false, List.drop_zero]
  | some i =>
    obtain ⟨hends, hi⟩ := List.find?_range_eq_some.mp hfind
    have hlt : i < ctx.pathnames.length := List.mem_range.mp hi.1
    have hfirst : FirstEnd K 0 i :=
      ⟨Nat.zero_le _, fun k _ hk => by simpa using hi.2 k hk, hends⟩
    have hrun := tryCandidates_first (argvOf (a :: args)) hfirst hlt
    rw [List.drop_zero, Nat.sub_zero] at hrun
    cases hK : K.candidate i with
    | none =>
      rw [hK] at hrun
      simp only [hrun, hK, if_true]
    | some e =>
      rw [hK] at hrun
      simp only [hrun, hK, reduceCtorEq, if_false, Option.some.injEq]
      by_cases hexec : e = enoexec
      · have hassert : ¬ (ctx.numShArgs < (argvOf (a :: args)).length ∨
            ctx.numShArgs - (argvOf (a :: args)).length ≠ 1) := by omega
        simp only [hexec, if_true, hassert, if_false, shArgv_eq hnum hlt]
        rfl
      · simp only [hexec, if_false]

/-- **The search for a program.** The candidates are those that the comment describes
and no assertion fails before the fork. In the child the candidates are tried in order
up to the first error that is not about the path; after `ENOEXEC` the shell is given
that candidate. No assertion fails there and every access is inside its array. -/
theorem execvpe_search (S : System) (K : Kernel) (file : CString) (args : List CString) :
    execvpeInit S file (argvOf args).length ≠ .error .assertion ∧
      ∀ ctx, execvpeInit S file (argvOf args).length = .ok ctx →
        Described S file ctx.pathnames ∧
          forkSafeExecvpe K ctx (argvOf args) = expectedRun K ctx.pathnames args := by
  rcases execvpeInit_spec S file (argvOf args).length with ⟨ctx, hctx, hd, htwo, hnum⟩ | ⟨e, he⟩
  · rw [hctx]
    refine ⟨nofun, fun ctx' h => ?_⟩
    cases h
    have hargs : args ≠ [] := by
      rintro rfl
      exact absurd htwo (by decide)
    exact ⟨hd, forkSafeExecvpe_eq K hd.ne_nil hargs hnum⟩
  · rw [he]
    exact ⟨by simp, fun _ h => nomatch h⟩

/-- An empty first element and a trailing slash. -/
def smallSystem : System := ⟨some (str ":/opt/"), .error 0, fun _ => true⟩

/-- Nothing in the current directory; a script in `/opt`. -/
def scriptKernel : Kernel := ⟨fun i => if i = 0 then some enoent else some enoexec, none⟩

theorem execvpe_search_script :
    ∃ ctx, execvpeInit smallSystem (str "nbdkit") 3 = .ok ctx ∧
      ctx.pathnames = [str "./nbdkit", str "/opt/nbdkit"] ∧
      forkSafeExecvpe scriptKernel ctx (argvOf [str "nbdkit", str "-v"]) =
        ([⟨str "./nbdkit", argvOf [str "nbdkit", str "-v"]⟩,
          ⟨str "/opt/nbdkit", argvOf [str "nbdkit", str "-v"]⟩,
          ⟨str "/bin/sh", argvOf [str "nbdkit", str "/opt/nbdkit", str "-v"]⟩], .replaced) := by
  have hinit : execvpeInit smallSystem (str "nbdkit") 3 =
      .ok ⟨[str "./nbdkit", str "/opt/nbdkit"], 4⟩ := by decide +kernel
  refine ⟨_, hinit, rfl, ?_⟩
  rw [((execvpe_search smallSystem scriptKernel (str "nbdkit") [str "nbdkit", str "-v"]).2 _
    hinit).2]
  decide +kernel

end Libnbd.Spawn
