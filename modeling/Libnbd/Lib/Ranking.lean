import Libnbd.Lib.System

/-!
Ranking functions.

A quantity that every step of a run lowers bounds the length of the run. A step may bring
fuel, which raises it again; then the bound is the quantity at the start and all the fuel
that the run has brought.
-/

namespace Lib.System

universe u v

variable {σ : Type u} {ι : Type v} (M : System σ ι)

/-- Every step with a label in `L` keeps `I` and lowers `rank`, up to the fuel it brings. -/
structure Ranks (I : σ → Prop) (L : ι → Prop) (fuel : σ → ι → Nat) (rank : σ → Nat) : Prop where
  keeps : ∀ s l s', I s → L l → M.step s l = some s' → I s'
  lowers : ∀ s l s', I s → L l → M.step s l = some s' → rank s' < rank s + fuel s l

/-- The first `n` labels of a schedule. -/
def firstOf (sched : Nat → ι) (n : Nat) : List ι := (List.range n).map sched

theorem firstOf_succ (sched : Nat → ι) (n : Nat) :
    firstOf sched (n + 1) = firstOf sched n ++ [sched n] := by
  simp only [firstOf, List.range_succ, List.map_append, List.map_cons, List.map_nil]

@[simp] theorem length_firstOf (sched : Nat → ι) (n : Nat) : (firstOf sched n).length = n := by
  simp only [firstOf, List.length_map, List.length_range]

theorem mem_firstOf {sched : Nat → ι} {n : Nat} {l : ι} (h : l ∈ firstOf sched n) :
    ∃ i, l = sched i := by
  obtain ⟨i, -, rfl⟩ := List.mem_map.mp h
  exact ⟨i, rfl⟩

theorem total_mul (k : Nat) (f : σ → ι → Nat) (s : σ) (ls : List ι) :
    M.total (fun s l => k * f s l) s ls = k * M.total f s ls := by
  induction ls generalizing s with
  | nil => rfl
  | cons l ls ih =>
    simp only [total]
    cases M.step s l with
    | none => simp only [Nat.add_zero]
    | some s' => simp only [ih s', Nat.mul_add]

theorem total_eq_zero {f : σ → ι → Nat} {ls : List ι} (hf : ∀ l ∈ ls, ∀ s, f s l = 0) (s : σ) :
    M.total f s ls = 0 := by
  induction ls generalizing s with
  | nil => rfl
  | cons l ls ih =>
    simp only [total, hf l List.mem_cons_self s, Nat.zero_add]
    cases M.step s l with
    | none => rfl
    | some s' => exact ih (fun k hk => hf k (List.mem_cons_of_mem _ hk)) s'

theorem total_append (f : σ → ι → Nat) (s : σ) (ls ms : List ι) :
    M.total f s (ls ++ ms) = M.total f s ls + ((M.exec s ls).map fun t => M.total f t ms).getD 0 := by
  induction ls generalizing s with
  | nil => simp only [List.nil_append, total, exec_nil, Option.map_some, Option.getD_some, Nat.zero_add]
  | cons l ls ih =>
    simp only [List.cons_append, total, exec_cons]
    cases M.step s l with
    | none => rfl
    | some s' => simp only [ih s', Option.bind_some, Nat.add_assoc]

/-- Once a schedule has come to a label that is not enabled, nothing is added to a sum. -/
theorem total_firstOf_le {f : σ → ι → Nat} {sched : Nat → ι} {s t : σ} {k : Nat}
    (he : M.exec s (firstOf sched k) = some t) (hstep : M.step t (sched k) = none)
    (hf : f t (sched k) = 0) (n : Nat) :
    M.total f s (firstOf sched n) ≤ M.total f s (firstOf sched k) := by
  have hsplit : ∀ i j, firstOf sched (i + j) = firstOf sched i ++ firstOf (fun m => sched (i + m)) j := by
    intro i j
    simp only [firstOf, List.range_add, List.map_append, List.map_map]
    rfl
  rcases Nat.le_total n k with hle | hle
  · obtain ⟨j, rfl⟩ := Nat.exists_eq_add_of_le hle
    rw [hsplit, total_append]
    exact Nat.le_add_right _ _
  · obtain ⟨j, rfl⟩ := Nat.exists_eq_add_of_le hle
    rw [hsplit, total_append, he, Option.map_some, Option.getD_some]
    cases j with
    | zero => exact Nat.le_refl _
    | succ j =>
      have hcons : firstOf (fun m => sched (k + m)) (j + 1) =
          sched k :: (List.range j).map fun m => sched (k + (m + 1)) := by
        simp only [firstOf, List.range_succ_eq_map, List.map_cons, List.map_map, Nat.add_zero]
        rfl
      rw [hcons, total, hf, hstep]
      exact Nat.le_refl _

variable {M} {I : σ → Prop} {L : ι → Prop} {fuel : σ → ι → Nat} {rank : σ → Nat} {s s' : σ}

/-- **Ranking rule**: a run is no longer than the rank and the fuel allow. -/
theorem Ranks.length_le (hr : M.Ranks I L fuel rank) {ls : List ι} (hs : I s)
    (hl : ∀ l ∈ ls, L l) (he : M.exec s ls = some s') :
    ls.length + rank s' ≤ rank s + M.total fuel s ls := by
  induction ls generalizing s with
  | nil =>
    cases he
    simp only [List.length_nil, total]
    omega
  | cons l ls ih =>
    obtain ⟨t, ht, hrest⟩ := Option.bind_eq_some_iff.mp he
    have hl' := hl l List.mem_cons_self
    have hlow := hr.lowers s l t hs hl' ht
    have hlen := ih (hr.keeps s l t hs hl' ht) (fun k hk => hl k (List.mem_cons_of_mem _ hk)) hrest
    simp only [List.length_cons, total, ht]
    omega

/-- With bounded fuel every schedule comes to a label that is not enabled. -/
theorem Ranks.stops (hr : M.Ranks I L fuel rank) (hs : I s) (sched : Nat → ι)
    (hl : ∀ i, L (sched i)) {N : Nat} (hN : ∀ n, rank s + M.total fuel s (firstOf sched n) ≤ N) :
    ∃ n ≤ N, ∃ s', M.exec s (firstOf sched n) = some s' ∧ M.step s' (sched n) = none := by
  -- as long as no label is refused, the run goes on
  have hgoes : ∀ n, (∃ t, M.exec s (firstOf sched n) = some t) ∨
      ∃ m < n, ∃ t, M.exec s (firstOf sched m) = some t ∧ M.step t (sched m) = none := by
    intro n
    induction n with
    | zero => exact .inl ⟨s, rfl⟩
    | succ n ih =>
      obtain ⟨t, ht⟩ | ⟨m, hm, hstop⟩ := ih
      · cases hnext : M.step t (sched n) with
        | none => exact .inr ⟨n, Nat.lt_succ_self n, t, ht, hnext⟩
        | some t' =>
          refine .inl ⟨t', ?_⟩
          rw [firstOf_succ, exec_append, ht]
          simp only [Option.bind_some, exec_cons, hnext, exec_nil]
      · exact .inr ⟨m, Nat.lt_succ_of_lt hm, hstop⟩
  obtain ⟨t, ht⟩ | ⟨m, hm, hstop⟩ := hgoes (N + 1)
  · have hlen := hr.length_le hs (fun l hmem => ?_) ht
    · rw [length_firstOf] at hlen
      have := hN (N + 1)
      omega
    · obtain ⟨i, rfl⟩ := mem_firstOf hmem
      exact hl i
  · exact ⟨m, by omega, hstop⟩

end Lib.System
