import Mathlib

/-!
# A wrapped clock

A 32-bit counter that shows the time modulo `2 ^ 32`, and deadlines measured on it by subtraction: a deadline that passes
on the counter has passed, and one that has passed within a turn of the counter passes on it.
-/

namespace IbarraGateway.WrappedClock

/-- What the counter shows at time `t`. -/
def reading (t : Nat) : UInt32 := UInt32.ofNat t

variable {u t : Nat} {wait : UInt32}

@[simp] theorem toNat_reading (t : Nat) : (reading t).toNat = t % 2 ^ 32 := UInt32.toNat_ofNat'

theorem reading_eq_zero_iff : reading t = 0 ↔ 2 ^ 32 ∣ t := by
  rw [← UInt32.toNat_inj, toNat_reading, Nat.dvd_iff_mod_eq_zero]
  rfl

/-- The difference of two readings is the time between them, modulo the turn. -/
theorem toNat_sub_reading (h : u ≤ t) : (reading t - reading u).toNat = (t - u) % 2 ^ 32 := by
  rw [UInt32.toNat_sub, toNat_reading, toNat_reading]
  omega

/-- **No early deadline**, however long the counter has run. -/
theorem add_le_of_passed (h : u ≤ t) (hpassed : reading t - reading u ≥ wait) : u + wait.toNat ≤ t := by
  have hwait : wait.toNat ≤ (t - u) % 2 ^ 32 := by
    rw [← toNat_sub_reading h]
    exact UInt32.le_iff_toNat_le.mp hpassed
  have hmod := Nat.mod_le (t - u) (2 ^ 32)
  omega

/-- **No missed deadline** within a turn of the counter. -/
theorem passed_of_add_le (h : u + wait.toNat ≤ t) (hturn : t < u + 2 ^ 32) : reading t - reading u ≥ wait := by
  refine UInt32.le_iff_toNat_le.mpr ?_
  rw [toNat_sub_reading (by omega), Nat.mod_eq_of_lt (by omega)]
  omega

/-- A deadline not yet passed, on a reading taken within a turn. -/
theorem lt_of_not_passed (hturn : t < u + 2 ^ 32) (hnot : ¬ reading t - reading u ≥ wait) : t < u + wait.toNat := by
  by_contra hle
  exact hnot (passed_of_add_le (Nat.le_of_not_lt hle) hturn)

end IbarraGateway.WrappedClock
