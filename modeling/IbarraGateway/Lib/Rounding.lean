import IbarraGateway.Lib.StreamText

/-!
# Rounding to binary floating point

* `roundTo f x` : for an `x` that is not negative, the number with `f` bits behind its leading one that is nearest to it, the
  even one at a tie; `single` has 23 of them, `double` 52. The exponent has no bounds.
* `roundTo_natCast` : an integer with few enough bits is not rounded.
* `FloatValue.le`, `FloatValue.gt` : a threshold, which may be any floating-point number, against an exact value.
-/

namespace IbarraGateway

/-- The distance of neighbours around `x`. -/
def spacing (f : Nat) (x : ℚ) : ℚ := 2 ^ (Int.log 2 x - f)

def roundTo (f : Nat) (x : ℚ) : ℚ := Numeral.roundEven (x / spacing f x) * spacing f x

/-- A value as `float`. -/
def single (x : ℚ) : ℚ := roundTo 23 x

/-- A value as `double`. -/
def double (x : ℚ) : ℚ := roundTo 52 x

theorem spacing_pos (f : Nat) (x : ℚ) : 0 < spacing f x := zpow_pos two_pos _

theorem floor_le_roundEven (x : ℚ) : ⌊x⌋₊ ≤ Numeral.roundEven x := by
  unfold Numeral.roundEven
  simp only
  split_ifs <;> omega

theorem roundTo_zero (f : Nat) : roundTo f 0 = 0 := by simp [roundTo, Numeral.roundEven]

theorem roundEven_natCast (n : Nat) : Numeral.roundEven n = n := by simp [Numeral.roundEven]

theorem roundTo_natCast {f n : Nat} (h : n < 2 ^ (f + 1)) : roundTo f n = n := by
  rcases Nat.eq_zero_or_pos n with rfl | hpos
  · rw [Nat.cast_zero, roundTo_zero]
  have hlog : Nat.log 2 n ≤ f := Nat.lt_succ_iff.mp (Nat.log_lt_of_lt_pow hpos.ne' h)
  have hscaled : (n : ℚ) / spacing f n = ((n * 2 ^ (f - Nat.log 2 n) : Nat) : ℚ) := by
    have hexponent : ((Nat.log 2 n : Nat) : Int) - f = -((f - Nat.log 2 n : Nat) : Int) := by omega
    rw [spacing, Int.log_natCast, hexponent, zpow_neg, div_inv_eq_mul, zpow_natCast, Nat.cast_mul, Nat.cast_pow, Nat.cast_ofNat]
  rw [roundTo, hscaled, roundEven_natCast, ← hscaled, div_mul_cancel₀ _ (spacing_pos f n).ne']

theorem double_natCast {n : Nat} (h : n < 2 ^ 53) : double n = n := roundTo_natCast h

theorem roundTo_pos (f : Nat) {x : ℚ} (hx : 0 < x) : 0 < roundTo f x := by
  have hspacing : spacing f x ≤ x := by
    calc spacing f x ≤ 2 ^ Int.log 2 x := zpow_le_zpow_right₀ one_le_two (by omega)
      _ ≤ x := by exact_mod_cast Int.zpow_log_le_self one_lt_two hx
  have hfloor : 1 ≤ ⌊x / spacing f x⌋₊ := by
    apply Nat.le_floor
    rw [Nat.cast_one, one_le_div (spacing_pos f x)]
    exact hspacing
  have hround : 0 < Numeral.roundEven (x / spacing f x) := hfloor.trans (floor_le_roundEven _)
  exact mul_pos (Nat.cast_pos.mpr hround) (spacing_pos f x)

theorem single_zero : single 0 = 0 := roundTo_zero 23

theorem single_pos {x : ℚ} (hx : 0 < x) : 0 < single x := roundTo_pos 23 hx

namespace FloatValue

/-- The number a finite value stands for. -/
def magnitude (neg : Bool) (mantissa : Nat) (exponent : Int) : ℚ := (if neg then -1 else 1) * mantissa * 2 ^ exponent

/-- `x >= t`. -/
def le (t : FloatValue) (x : ℚ) : Bool :=
  match t with
  | nan _ => false
  | inf neg => neg
  | finite neg mantissa exponent => magnitude neg mantissa exponent ≤ x

/-- `x < t`. -/
def gt (t : FloatValue) (x : ℚ) : Bool :=
  match t with
  | nan _ => false
  | inf neg => !neg
  | finite neg mantissa exponent => x < magnitude neg mantissa exponent

/-- `std::isnan`. -/
def isNan : FloatValue → Bool
  | nan _ => true
  | _ => false

/-- A value that is not at least the threshold is below it, unless the threshold is no number. -/
theorem gt_iff {t : FloatValue} {x : ℚ} : t.gt x = true ↔ t.le x = false ∧ t.isNan = false := by
  cases t with
  | nan neg => simp [gt, isNan]
  | inf neg => simp [gt, le, isNan]
  | finite neg mantissa exponent => simp [gt, le, isNan]

end FloatValue

end IbarraGateway
