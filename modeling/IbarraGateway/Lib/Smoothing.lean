import Mathlib.Algebra.Order.Field.Basic
import Mathlib.Tactic.GCongr
import Mathlib.Tactic.Ring

/-!
# Exponential smoothing

A new value takes the share `a` of the input and leaves the rest to the old value. For `a` between 0 and 1 the new value lies
between the two and grows with both, and against an input that stands still the distance shrinks by `1 - a`.
-/

namespace IbarraGateway.Smoothing
variable {K : Type} [Field K]

def blend (a input value : K) : K := a * input + (1 - a) * value

@[simp] theorem blend_self (a x : K) : blend a x x = x := by
  unfold blend
  ring

theorem blend_sub (a c value : K) : blend a c value - c = (1 - a) * (value - c) := by
  unfold blend
  ring

section Order
variable [LinearOrder K] [IsStrictOrderedRing K] {a : K}

theorem blend_mono (ha : a ∈ Set.Icc 0 1) {x y v w : K} (hinput : x ≤ y) (hvalue : v ≤ w) : blend a x v ≤ blend a y w := by
  have hpos : 0 ≤ a := ha.1
  have hrest : 0 ≤ 1 - a := sub_nonneg.mpr ha.2
  unfold blend
  gcongr

theorem le_blend (ha : a ∈ Set.Icc 0 1) {lo x v : K} (hinput : lo ≤ x) (hvalue : lo ≤ v) : lo ≤ blend a x v := by
  have h := blend_mono ha hinput hvalue
  rwa [blend_self] at h

theorem blend_le (ha : a ∈ Set.Icc 0 1) {hi x v : K} (hinput : x ≤ hi) (hvalue : v ≤ hi) : blend a x v ≤ hi := by
  have h := blend_mono ha hinput hvalue
  rwa [blend_self] at h

theorem abs_blend_sub (ha : a ∈ Set.Icc 0 1) (c value : K) : |blend a c value - c| = (1 - a) * |value - c| := by
  rw [blend_sub, abs_mul, abs_of_nonneg (sub_nonneg.mpr ha.2)]

end Order
end IbarraGateway.Smoothing
