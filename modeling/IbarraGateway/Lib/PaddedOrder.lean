import Mathlib

/-!
# Numbers in names

Numerals with zeros in front are in the order of their numbers, as long as they have the same width.

* `fixedDigits_lt` : the lexicographic order of numerals of one width.
* `sorted_map` : a sorted list of names is a list of their indices, in some order.
-/

namespace IbarraGateway.PaddedOrder

/-- The last `width` decimal digits. -/
def fixedDigits : Nat → Nat → List Char
  | 0, _ => []
  | width + 1, n => fixedDigits width (n / 10) ++ [Nat.digitChar (n % 10)]

@[simp] theorem length_fixedDigits (width n : Nat) : (fixedDigits width n).length = width := by
  induction width generalizing n with
  | zero => rfl
  | succ width ih => rw [fixedDigits, List.length_append, ih, List.length_singleton]

theorem fixedDigits_zero (width : Nat) : fixedDigits width 0 = List.replicate width '0' := by
  induction width with
  | zero => rfl
  | succ width ih =>
    rw [fixedDigits, Nat.zero_div, ih, List.replicate_succ']
    rfl

/-- A number that has at most `width` digits. -/
theorem replicate_append_toDigits {width n : Nat} (hwidth : 0 < width) (hn : n < 10 ^ width) :
    List.replicate (width - (Nat.toDigits 10 n).length) '0' ++ Nat.toDigits 10 n = fixedDigits width n := by
  induction width generalizing n with
  | zero => exact absurd hwidth (Nat.lt_irrefl 0)
  | succ width ih =>
    rw [fixedDigits]
    by_cases hsmall : n < 10
    · rw [Nat.toDigits_of_lt_base hsmall, Nat.div_eq_of_lt hsmall, Nat.mod_eq_of_lt hsmall, fixedDigits_zero]
      rfl
    · have hle : 10 ≤ n := Nat.le_of_not_lt hsmall
      have hdiv : n / 10 < 10 ^ width := by
        rw [Nat.div_lt_iff_lt_mul (by decide), ← pow_succ]
        exact hn
      have hpos : 0 < width := by
        by_contra hzero
        obtain rfl : width = 0 := by omega
        omega
      rw [Nat.toDigits_of_base_le (by decide) hle, List.length_append, List.length_singleton, Nat.add_sub_add_right,
        ← List.append_assoc, ih hpos hdiv]

/-- Of two words of one length, the first difference decides, whatever follows. -/
theorem append_lt_append {s t u v : List Char} (hlength : s.length = t.length) (h : s < t) : s ++ u < t ++ v := by
  induction s generalizing t with
  | nil =>
    obtain rfl := List.eq_nil_of_length_eq_zero hlength.symm
    exact absurd h (List.not_lt_nil _)
  | cons c s ih =>
    cases t with
    | nil => cases hlength
    | cons d t =>
      have hlength' : s.length = t.length := by simpa using hlength
      rw [List.cons_append, List.cons_append, List.cons_lt_cons_iff]
      rcases List.cons_lt_cons_iff.mp h with hhead | ⟨hhead, htail⟩
      · exact .inl hhead
      · exact .inr ⟨hhead, ih hlength' htail⟩

/-- Numerals of one width are in the order of their numbers. -/
theorem fixedDigits_lt {width m n : Nat} (hmn : m < n) (hn : n < 10 ^ width) : fixedDigits width m < fixedDigits width n := by
  induction width generalizing m n with
  | zero => omega
  | succ width ih =>
    have hdigit : ∀ j < 10, ∀ k < 10, j < k → Nat.digitChar j < Nat.digitChar k := by decide
    have hdiv : n / 10 < 10 ^ width := by
      rw [Nat.div_lt_iff_lt_mul (by decide), ← pow_succ]
      exact hn
    by_cases hsame : m / 10 = n / 10
    · have hlast := hdigit (m % 10) (Nat.mod_lt _ (by decide)) (n % 10) (Nat.mod_lt _ (by decide)) (by omega)
      rw [fixedDigits, fixedDigits, hsame]
      exact List.append_left_lt (List.cons_lt_cons_iff.mpr (.inl hlast))
    · exact append_lt_append (by simp) (ih (by omega) hdiv)

/-! ## Sorting -/

variable {β : Type} [LinearOrder β]

def sorted (names : List β) : List β := names.mergeSort fun a b => decide (a ≤ b)

theorem pairwise_sorted (names : List β) : (sorted names).Pairwise (· ≤ ·) := by
  have hpairwise := @List.pairwise_mergeSort β (fun a b => decide (a ≤ b))
    (fun a b c hab hbc => decide_eq_true ((of_decide_eq_true hab).trans (of_decide_eq_true hbc)))
    (fun a b => by simpa using le_total a b) names
  exact hpairwise.imp of_decide_eq_true

/-- Names that are listed in any order are sorted into the names of a list of indices; an ascending list stays as it is. -/
theorem sorted_map {name : Nat → β} {listing : List β} {indices : List Nat} (hperm : listing.Perm (indices.map name)) :
    ∃ order : List Nat, order.Perm indices ∧ sorted listing = order.map name ∧
      (indices.Pairwise (fun i j => name i ≤ name j) → order = indices) := by
  refine ⟨indices.mergeSort fun i j => decide (name i ≤ name j), List.mergeSort_perm _ _, ?_, fun hpairwise => ?_⟩
  · have horder := @List.pairwise_mergeSort Nat (fun i j => decide (name i ≤ name j))
      (fun a b c hab hbc => decide_eq_true ((of_decide_eq_true hab).trans (of_decide_eq_true hbc)))
      (fun a b => by simpa using le_total (name a) (name b)) indices
    refine List.Perm.eq_of_pairwise (fun a b _ _ => le_antisymm) (pairwise_sorted listing) ?_ ?_
    · exact List.pairwise_map.mpr (horder.imp of_decide_eq_true)
    · exact (List.mergeSort_perm _ _).trans (hperm.trans ((List.mergeSort_perm indices _).map name).symm)
  · exact List.mergeSort_of_pairwise (hpairwise.imp decide_eq_true)

end IbarraGateway.PaddedOrder
