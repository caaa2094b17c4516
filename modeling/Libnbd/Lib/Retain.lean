import Mathlib.Data.List.Basic
import Mathlib.Data.List.Perm.Basic

/-!
A vector scanned from the left, whose elements are taken out with
`swap_remove` when a visit says so.

The element that `swap_remove` puts into the gap comes from the end and has not
been visited, so the scan stays at its index. `retain_rule` is the only
induction over the scan: an invariant about what is kept and what is to come,
blind to the order of what is to come.
-/

namespace Lib

universe u v

variable {α : Type u} {σ : Type v}

/-- Take out the element at `i` and put the last one in its place. -/
def swapRemove (l : List α) (i : Nat) : List α :=
  match l.getLast? with
  | none => []
  | some x => (l.set i x).dropLast

/-- Visit the elements from index `i` on; those whose visit is `true` go. -/
def retain (visit : σ → α → Bool × σ) : Nat → Nat → List α → σ → List α × σ
  | 0, _, l, s => (l, s)
  | n + 1, i, l, s =>
    match l[i]? with
    | none => (l, s)
    | some x =>
      if (visit s x).1 then retain visit n i (swapRemove l i) (visit s x).2
      else retain visit n (i + 1) l (visit s x).2

theorem swapRemove_append (xs ys : List α) (x : α) :
    ∃ zs, swapRemove (xs ++ x :: ys) xs.length = xs ++ zs ∧ ys.Perm zs := by
  rcases List.eq_nil_or_concat ys with rfl | ⟨zs, z, rfl⟩
  · exact ⟨[], by simp [swapRemove], List.Perm.refl _⟩
  · refine ⟨z :: zs, ?_, ?_⟩
    · have hl : (xs ++ x :: (zs ++ [z])).getLast? = some z := by
        rw [show xs ++ x :: (zs ++ [z]) = (xs ++ x :: zs) ++ [z] by simp]
        exact List.getLast?_concat ..
      have hd : xs ++ z :: (zs ++ [z]) = (xs ++ z :: zs) ++ [z] := by simp
      simp only [swapRemove, List.concat_eq_append, hl, List.set_append_right _ _ (Nat.le_refl _),
        Nat.sub_self, List.set_cons_zero, hd, List.dropLast_concat]
    · rw [List.concat_eq_append]
      exact List.perm_append_singleton z zs

/-- **The rule of the scan.** -/
theorem retain_rule (visit : σ → α → Bool × σ) (xs ys : List α) {I : List α → List α → σ → Prop}
    (hperm : ∀ xs ys zs s, ys.Perm zs → I xs ys s → I xs zs s)
    (hgone : ∀ xs x ys s, I xs (x :: ys) s → (visit s x).1 = true → I xs ys (visit s x).2)
    (hkept : ∀ xs x ys s, I xs (x :: ys) s → (visit s x).1 = false →
      I (xs ++ [x]) ys (visit s x).2)
    {n : Nat} {s : σ} (hn : ys.length ≤ n) (h : I xs ys s) :
    I (retain visit n xs.length (xs ++ ys) s).1 [] (retain visit n xs.length (xs ++ ys) s).2 := by
  induction n generalizing xs ys s with
  | zero =>
    obtain rfl : ys = [] := List.length_eq_zero_iff.mp (Nat.le_zero.mp hn)
    simpa only [retain, List.append_nil] using h
  | succ n ih =>
    cases ys with
    | nil => simpa [retain] using h
    | cons x ys =>
      have hx : (xs ++ x :: ys)[xs.length]? = some x := by simp
      have hlen : ys.length ≤ n := Nat.le_of_succ_le_succ hn
      simp only [retain, hx]
      split
      next hv =>
        obtain ⟨zs, hz, hp⟩ := swapRemove_append xs ys x
        rw [hz]
        exact ih xs zs (hp.length_eq ▸ hlen) (hperm _ _ _ _ hp (hgone _ _ _ _ h hv))
      next hv =>
        have := ih (xs ++ [x]) ys hlen (hkept _ _ _ _ h (by simpa using hv))
        simpa only [List.length_append, List.length_cons, List.length_nil, List.append_assoc,
          List.cons_append, List.nil_append] using this

end Lib
