import Mathlib.Algebra.Order.Ring.Nat

/-!
Labelled transition systems with a partial, deterministic step function.

A run is a list of labels; `exec` executes it and is `none` as soon as one
label is not enabled. `exec_invariant` is the only induction over runs the
rest of the development needs: a predicate kept by every step that meets a
side condition holds at the end of every run whose steps all meet it.
-/

namespace Lib

universe u v

/-- A transition system: the initial states and what one label does. -/
structure System (σ : Type u) (ι : Type v) where
  init : σ → Prop
  step : σ → ι → Option σ

namespace System

variable {σ : Type u} {ι : Type v} (M : System σ ι)

/-- Execute a list of labels. -/
def exec (s : σ) : List ι → Option σ
  | [] => some s
  | l :: ls => (M.step s l).bind fun s' => exec s' ls

/-- Every step of the run that `ls` takes from `s` meets `cond`. -/
def Meets (cond : σ → ι → Prop) (s : σ) : List ι → Prop
  | [] => True
  | l :: ls => cond s l ∧ ∀ s', M.step s l = some s' → Meets cond s' ls

/-- `Meets` for a decidable condition, as a program. -/
def check (p : σ → ι → Bool) (s : σ) : List ι → Bool
  | [] => true
  | l :: ls => p s l && (match M.step s l with
    | none => true
    | some s' => check p s' ls)

/-- Sum of a quantity over the steps of a run. -/
def total (f : σ → ι → Nat) (s : σ) : List ι → Nat
  | [] => 0
  | l :: ls => f s l + (match M.step s l with
    | none => 0
    | some s' => total f s' ls)

/-- What the steps of a run record, in order. -/
def collect {α : Type*} (f : σ → ι → List α) (s : σ) : List ι → List α
  | [] => []
  | l :: ls => f s l ++ (match M.step s l with
    | none => []
    | some s' => collect f s' ls)

/-- States reached from an initial state by a run whose steps all meet `cond`. -/
def ReachableBy (cond : σ → ι → Prop) (s : σ) : Prop :=
  ∃ s₀ ls, M.init s₀ ∧ M.Meets cond s₀ ls ∧ M.exec s₀ ls = some s

/-- States reached from an initial state by any run. -/
def Reachable (s : σ) : Prop := ∃ s₀ ls, M.init s₀ ∧ M.exec s₀ ls = some s

@[simp] theorem exec_nil (s : σ) : M.exec s [] = some s := rfl

theorem exec_cons (s : σ) (l : ι) (ls : List ι) :
    M.exec s (l :: ls) = (M.step s l).bind fun s' => M.exec s' ls := rfl

theorem exec_append (s : σ) (ls ms : List ι) :
    M.exec s (ls ++ ms) = (M.exec s ls).bind fun s' => M.exec s' ms := by
  induction ls generalizing s with
  | nil => rfl
  | cons l ls ih =>
    simp only [List.cons_append, exec_cons, Option.bind_assoc]
    cases M.step s l with
    | none => rfl
    | some s' => exact ih s'

/-- **Invariant rule.** -/
theorem exec_invariant {cond : σ → ι → Prop} {P : σ → Prop}
    (hstep : ∀ s l s', P s → cond s l → M.step s l = some s' → P s')
    {s s' : σ} {ls : List ι} (hs : P s) (hm : M.Meets cond s ls)
    (he : M.exec s ls = some s') : P s' := by
  induction ls generalizing s with
  | nil => cases he; exact hs
  | cons l ls ih =>
    obtain ⟨t, ht, hrest⟩ := Option.bind_eq_some_iff.mp he
    exact ih (hstep s l t hs hm.1 ht) (hm.2 t ht) hrest

/-- Invariant rule for a state and a sum over the run. -/
theorem exec_total {f : σ → ι → Nat} {P : σ → Nat → Prop}
    (hstep : ∀ s l s' n, P s n → M.step s l = some s' → P s' (n + f s l))
    {s s' : σ} {ls : List ι} {n : Nat} (hs : P s n) (he : M.exec s ls = some s') :
    P s' (n + M.total f s ls) := by
  induction ls generalizing s n with
  | nil => cases he; exact hs
  | cons l ls ih =>
    obtain ⟨t, ht, hrest⟩ := Option.bind_eq_some_iff.mp he
    have hP := ih (hstep s l t n hs ht) hrest
    simpa only [total, ht, Nat.add_assoc] using hP

/-- Invariant rule for a state and a record of the run. -/
theorem exec_collect {α : Type*} {f : σ → ι → List α} {P : σ → List α → Prop}
    (hstep : ∀ s l s' xs, P s xs → M.step s l = some s' → P s' (xs ++ f s l))
    {s s' : σ} {ls : List ι} {xs : List α} (hs : P s xs) (he : M.exec s ls = some s') :
    P s' (xs ++ M.collect f s ls) := by
  induction ls generalizing s xs with
  | nil =>
    cases he
    simpa [collect] using hs
  | cons l ls ih =>
    obtain ⟨t, ht, hrest⟩ := Option.bind_eq_some_iff.mp he
    have hP := ih (hstep s l t xs hs ht) hrest
    simpa only [collect, ht, List.append_assoc] using hP

theorem meets_true (s : σ) (ls : List ι) : M.Meets (fun _ _ => True) s ls := by
  induction ls generalizing s with
  | nil => trivial
  | cons l ls ih => exact ⟨trivial, fun s' _ => ih s'⟩

theorem meets_of_forall {cond : σ → ι → Prop} (s : σ) (ls : List ι)
    (h : ∀ l ∈ ls, ∀ s, cond s l) : M.Meets cond s ls := by
  induction ls generalizing s with
  | nil => trivial
  | cons l ls ih =>
    exact ⟨h l List.mem_cons_self s, fun s' _ => ih s' fun k hk => h k (List.mem_cons_of_mem _ hk)⟩

theorem meets_and {p q : σ → ι → Prop} {s : σ} {ls : List ι} (hp : M.Meets p s ls)
    (hq : M.Meets q s ls) : M.Meets (fun s l => p s l ∧ q s l) s ls := by
  induction ls generalizing s with
  | nil => trivial
  | cons l ls ih => exact ⟨⟨hp.1, hq.1⟩, fun s' hs => ih (hp.2 s' hs) (hq.2 s' hs)⟩

theorem meets_of_check {cond : σ → ι → Prop} [∀ s l, Decidable (cond s l)] {s : σ} {ls : List ι}
    (h : M.check (fun s l => decide (cond s l)) s ls = true) : M.Meets cond s ls := by
  induction ls generalizing s with
  | nil => trivial
  | cons l ls ih =>
    simp only [check, Bool.and_eq_true, decide_eq_true_eq] at h
    refine ⟨h.1, fun s' hs => ih ?_⟩
    have := h.2
    rwa [hs] at this

theorem check_of_meets {cond : σ → ι → Prop} [∀ s l, Decidable (cond s l)] {s : σ} {ls : List ι}
    (h : M.Meets cond s ls) : M.check (fun s l => decide (cond s l)) s ls = true := by
  induction ls generalizing s with
  | nil => rfl
  | cons l ls ih =>
    simp only [check, Bool.and_eq_true, decide_eq_true_eq]
    refine ⟨h.1, ?_⟩
    cases hs : M.step s l with
    | none => rfl
    | some s' => exact ih (h.2 s' hs)

/-- A condition that an invariant gives for every step. -/
theorem meets_of_invariant {cond : σ → ι → Prop} {P : σ → Prop}
    (hstep : ∀ s l s', P s → M.step s l = some s' → cond s l ∧ P s')
    {s t : σ} {ls : List ι} (hs : P s) (he : M.exec s ls = some t) : M.Meets cond s ls := by
  induction ls generalizing s with
  | nil => trivial
  | cons l ls ih =>
    obtain ⟨s', hs', hrest⟩ := Option.bind_eq_some_iff.mp he
    refine ⟨(hstep s l s' hs hs').1, fun s₁ hs₁ => ?_⟩
    obtain rfl : s' = s₁ := Option.some.inj (hs'.symm.trans hs₁)
    exact ih (hstep s l s' hs hs').2 hrest

/-- Two conditions that agree on the steps of a run are met together. -/
theorem meets_congr {p q : σ → ι → Prop} (hpq : ∀ s l s', M.step s l = some s' → (p s l ↔ q s l))
    {s t : σ} {ls : List ι} (he : M.exec s ls = some t) : M.Meets p s ls ↔ M.Meets q s ls := by
  induction ls generalizing s with
  | nil => exact Iff.rfl
  | cons l ls ih =>
    obtain ⟨s', hs, hrest⟩ := Option.bind_eq_some_iff.mp he
    simp only [Meets, hs, Option.some.injEq, forall_eq']
    exact and_congr (hpq s l s' hs) (ih hrest)

theorem Reachable.reachableBy {s : σ} (h : M.Reachable s) :
    M.ReachableBy (fun _ _ => True) s := by
  obtain ⟨s₀, ls, hi, he⟩ := h
  exact ⟨s₀, ls, hi, M.meets_true s₀ ls, he⟩

theorem ReachableBy.reachable {cond : σ → ι → Prop} {s : σ} (h : M.ReachableBy cond s) :
    M.Reachable s := by
  obtain ⟨s₀, ls, hi, -, he⟩ := h
  exact ⟨s₀, ls, hi, he⟩

theorem Reachable.step {s s' : σ} {l : ι} (h : M.Reachable s) (hs : M.step s l = some s') :
    M.Reachable s' := by
  obtain ⟨s₀, ls, hi, he⟩ := h
  refine ⟨s₀, ls ++ [l], hi, ?_⟩
  rw [exec_append, he]
  simp [exec, hs]

theorem Reachable.exec {s s' : σ} {ls : List ι} (h : M.Reachable s) (he : M.exec s ls = some s') :
    M.Reachable s' := by
  obtain ⟨s₀, ms, hinit, hms⟩ := h
  refine ⟨s₀, ms ++ ls, hinit, ?_⟩
  rw [M.exec_append, hms]
  exact he

theorem reachableBy_invariant {cond : σ → ι → Prop} {P : σ → Prop}
    (hinit : ∀ s, M.init s → P s)
    (hstep : ∀ s l s', P s → cond s l → M.step s l = some s' → P s')
    {s : σ} (h : M.ReachableBy cond s) : P s := by
  obtain ⟨s₀, ls, hi, hm, he⟩ := h
  exact M.exec_invariant hstep (hinit s₀ hi) hm he

theorem reachable_invariant {P : σ → Prop} (hinit : ∀ s, M.init s → P s)
    (hstep : ∀ s l s', P s → M.step s l = some s' → P s')
    {s : σ} (h : M.Reachable s) : P s :=
  M.reachableBy_invariant hinit (fun s l s' hs _ => hstep s l s' hs)
    (Reachable.reachableBy M h)

end System

end Lib
