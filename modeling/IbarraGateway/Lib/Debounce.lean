import Mathlib.Algebra.Order.Monoid.Defs
import Mathlib.Data.List.Chain

/-!
# Debouncing

Of a train of moments, those that come at least `gap` after the last one kept. What is kept is `gap` apart, nothing that
could have been kept is left out, and no other choice of moments `gap` apart is longer: the count of a debounced input is
a number that depends on the moments alone.
-/

namespace IbarraGateway.Debounce
variable {α : Type} [Add α] [LinearOrder α] (gap : α)

/-- `last` stands for the moment kept before the first. -/
def kept : (last : α) → List α → List α
  | _, [] => []
  | last, x :: xs => if last + gap ≤ x then x :: kept x xs else kept last xs

/-- At least `gap` between neighbours. -/
def Apart (l : List α) : Prop := l.IsChain fun x y => x + gap ≤ y

variable {gap}

@[simp] theorem kept_nil (last : α) : kept gap last [] = [] := rfl

theorem kept_cons_of_le {last x : α} (h : last + gap ≤ x) (xs : List α) : kept gap last (x :: xs) = x :: kept gap x xs :=
  if_pos h

theorem kept_cons_of_not_le {last x : α} (h : ¬last + gap ≤ x) (xs : List α) :
    kept gap last (x :: xs) = kept gap last xs :=
  if_neg h

theorem kept_sublist (last : α) (xs : List α) : (kept gap last xs).Sublist xs := by
  induction xs generalizing last with
  | nil => exact List.Sublist.slnil
  | cons x xs ih =>
    by_cases h : last + gap ≤ x
    · rw [kept_cons_of_le h]
      exact (ih x).cons_cons x
    · rw [kept_cons_of_not_le h]
      exact (ih last).cons x

theorem kept_apart (last : α) (xs : List α) : Apart gap (last :: kept gap last xs) := by
  induction xs generalizing last with
  | nil => exact List.IsChain.singleton last
  | cons x xs ih =>
    by_cases h : last + gap ≤ x
    · rw [kept_cons_of_le h]
      exact List.isChain_cons_cons.mpr ⟨h, ih x⟩
    · rw [kept_cons_of_not_le h]
      exact ih last

/-- Neighbours that are apart leave all moments apart. -/
theorem Apart.pairwise {l : List α} (hgap : ∀ x : α, x ≤ x + gap) (h : Apart gap l) :
    l.Pairwise fun x y => x + gap ≤ y := by
  have htrans : IsTrans α fun x y => x + gap ≤ y := ⟨fun _ y _ hxy hyz => hxy.trans ((hgap y).trans hyz)⟩
  exact List.isChain_iff_pairwise.mp h

theorem kept_append (last : α) (xs ys : List α) :
    kept gap last (xs ++ ys) = kept gap last xs ++ kept gap ((kept gap last xs).getLastD last) ys := by
  induction xs generalizing last with
  | nil => rfl
  | cons x xs ih =>
    by_cases h : last + gap ≤ x
    · rw [List.cons_append, kept_cons_of_le h, kept_cons_of_le h, ih x, List.cons_append, List.getLastD_cons]
    · rw [List.cons_append, kept_cons_of_not_le h, kept_cons_of_not_le h, ih last]

/-- **The next moment** is kept exactly when it is `gap` after the last one kept. -/
theorem kept_snoc (last : α) (xs : List α) (x : α) :
    kept gap last (xs ++ [x]) =
      kept gap last xs ++ if (kept gap last xs).getLastD last + gap ≤ x then [x] else [] := by
  rw [kept_append, kept, kept_nil, kept_nil]

/-- **Best choice**: of a nondecreasing train, no moments `gap` apart are more than those kept. -/
theorem length_le_kept [AddRightMono α] {last : α} {xs ys : List α} (hsorted : xs.Pairwise (· ≤ ·))
    (hsub : ys.Sublist xs) (hapart : Apart gap (last :: ys)) : ys.length ≤ (kept gap last xs).length := by
  -- `last` may lie before the moment that `ys` continues: the greedy choice is never behind
  suffices h : ∀ first, first ≤ last → ys.length ≤ (kept gap first xs).length from h last le_rfl
  induction xs generalizing last ys with
  | nil =>
    intro first _
    rw [List.sublist_nil.mp hsub]
    exact Nat.zero_le _
  | cons x xs ih =>
    intro first hfirst
    obtain ⟨hx, hxs⟩ := List.pairwise_cons.mp hsorted
    by_cases h : first + gap ≤ x
    · rw [kept_cons_of_le h, List.length_cons]
      rcases ys with _ | ⟨y, ys⟩
      · exact Nat.zero_le _
      · obtain ⟨-, htail⟩ := List.isChain_cons_cons.mp hapart
        have hle : x ≤ y := by
          rcases List.mem_cons.mp (hsub.subset List.mem_cons_self) with rfl | hy
          · exact le_rfl
          · exact hx y hy
        exact Nat.succ_le_succ (ih hxs hsub.tail htail x hle)
    · rw [kept_cons_of_not_le h]
      have hskip : ys.Sublist xs := by
        rcases List.sublist_cons_iff.mp hsub with hskip | ⟨zs, rfl, -⟩
        · exact hskip
        · have hle := (List.isChain_cons_cons.mp hapart).1
          exact absurd ((add_le_add_left hfirst gap).trans hle) h
      exact ih hxs hskip hapart first hfirst

end IbarraGateway.Debounce
