import IbarraGateway.Lib.DecimalText
import IbarraGateway.Lib.Numeral
import Mathlib.Data.Int.Log
import Mathlib.Data.List.DropRight
import Mathlib.Data.Rat.Floor

/-!
# Numbers on a stream

What `<<` prints with the settings a C++ stream starts with: integers in decimal, and floating-point numbers as `%g` does,
with six significant digits.

* `FloatValue.text_finite` : a finite value is printed as a numeral.
* `FloatValue.text_special` : the others are printed as words without a digit.
* `append_toDigits_inj` : a numeral behind a character that is no digit can be told from the text before it.
-/

namespace IbarraGateway

/-- A binary floating-point number. -/
inductive FloatValue
  | nan (neg : Bool)
  | inf (neg : Bool)
  | finite (neg : Bool) (mantissa : Nat) (exponent : Int)
  deriving DecidableEq, Repr

namespace Numeral

/-! ## Integers -/

theorem head_toDigits {n : Nat} (hn : 0 < n) : (Nat.toDigits 10 n).head? ≠ some '0' := by
  induction n using Nat.strongRecOn with
  | _ n ih =>
    by_cases hsmall : n < 10
    · have hall : ∀ k < 10, 0 < k → Nat.digitChar k ≠ '0' := by decide
      rw [Nat.toDigits_of_lt_base hsmall]
      intro heq
      exact hall n hsmall hn (Option.some.inj heq)
    · have hle : 10 ≤ n := Nat.le_of_not_lt hsmall
      rw [Nat.toDigits_of_base_le (by decide) hle, List.head?_append_of_ne_nil _ Nat.toDigits_ne_nil]
      exact ih (n / 10) (by omega) (by omega)

theorem lead_toDigits {n : Nat} (h : (Nat.toDigits 10 n).head? = some '0') : Nat.toDigits 10 n = ['0'] := by
  rcases Nat.eq_zero_or_pos n with rfl | hpos
  · rfl
  · exact absurd h (head_toDigits hpos)

def ofInt (z : Int) : Numeral where
  neg := z < 0
  int := Nat.toDigits 10 z.natAbs
  frac := []
  exponent := none
  int_ne := Nat.toDigits_ne_nil
  int_digits := DecimalText.digits_toDigits _
  int_lead := lead_toDigits
  frac_digits := nofun
  exponent_ne := nofun
  exponent_digits := nofun

/-! ## Six significant digits -/

/-- The nearest integer, and the even one of two. -/
def roundEven (r : ℚ) : Nat :=
  let below := ⌊r⌋₊
  if r - below < 1 / 2 ∨ (r - below = 1 / 2 ∧ below % 2 = 0) then below else below + 1

/-- The six digits of a positive number, and the exponent of the first of them. -/
def significand (q : ℚ) : Nat × Int :=
  let x := Int.log 10 q
  let m := roundEven (q * 10 ^ (5 - x))
  if m = 1000000 then (100000, x + 1) else (m, x)

def trimZeros (ds : List Char) : List Char := ds.rdropWhile (· = '0')

theorem mem_trimZeros {ds : List Char} {c : Char} (h : c ∈ trimZeros ds) : c ∈ ds := (List.rdropWhile_prefix _ ds).mem h

/-- An exponent has at least two digits. -/
def exponentDigits (x : Nat) : List Char := if x < 10 then '0' :: Nat.toDigits 10 x else Nat.toDigits 10 x

theorem exponentDigits_ne (x : Nat) : exponentDigits x ≠ [] := by
  unfold exponentDigits
  split
  · exact List.cons_ne_nil _ _
  · exact Nat.toDigits_ne_nil

theorem digits_exponentDigits (x : Nat) : ∀ c ∈ exponentDigits x, c.isDigit = true := by
  unfold exponentDigits
  split
  · exact List.forall_mem_cons.mpr ⟨rfl, DecimalText.digits_toDigits x⟩
  · exact DecimalText.digits_toDigits x

/-- Digits that do not begin with a zero. -/
structure Significant where
  digits : List Char
  digits_ne : digits ≠ []
  isDigit : ∀ c ∈ digits, c.isDigit = true
  lead : digits.head? ≠ some '0'

namespace Significant

def ofPos (n : Nat) (hn : 0 < n) : Significant :=
  ⟨Nat.toDigits 10 n, Nat.toDigits_ne_nil, DecimalText.digits_toDigits n, head_toDigits hn⟩

variable (d : Significant) (x : Int)

/-- In front of the point, the first digit being of exponent `x`. -/
def whole : List Char :=
  if 0 ≤ x ∧ x < 6 then d.digits.take (x.toNat + 1) else if -4 ≤ x ∧ x < 0 then ['0'] else d.digits.take 1

/-- Behind it. -/
def fraction : List Char :=
  if 0 ≤ x ∧ x < 6 then trimZeros (d.digits.drop (x.toNat + 1))
  else if -4 ≤ x ∧ x < 0 then trimZeros (List.replicate (-x - 1).toNat '0' ++ d.digits)
  else trimZeros (d.digits.drop 1)

theorem take_succ (k : Nat) : ∃ c rest, d.digits.take (k + 1) = c :: rest ∧ c ≠ '0' := by
  obtain ⟨c, rest, hdigits⟩ := List.exists_cons_of_ne_nil d.digits_ne
  refine ⟨c, rest.take k, by rw [hdigits, List.take_succ_cons], fun hc => d.lead ?_⟩
  rw [hdigits, hc]
  rfl

/-- The part in front of the point is the zero, or begins with another digit. -/
theorem whole_cases : d.whole x = ['0'] ∨ ∃ k, d.whole x = d.digits.take (k + 1) := by
  unfold whole
  split
  · exact .inr ⟨x.toNat, rfl⟩
  split
  · exact .inl rfl
  · exact .inr ⟨0, rfl⟩

theorem whole_ne : d.whole x ≠ [] := by
  rcases d.whole_cases x with heq | ⟨k, heq⟩
  · rw [heq]
    exact List.cons_ne_nil _ _
  · obtain ⟨c, rest, htake, -⟩ := d.take_succ k
    rw [heq, htake]
    exact List.cons_ne_nil _ _

theorem digits_whole : ∀ c ∈ d.whole x, c.isDigit = true := by
  rcases d.whole_cases x with heq | ⟨k, heq⟩
  · rw [heq]
    exact List.forall_mem_singleton.mpr rfl
  · rw [heq]
    exact fun c hc => d.isDigit c (List.mem_of_mem_take hc)

theorem lead_whole (h : (d.whole x).head? = some '0') : d.whole x = ['0'] := by
  rcases d.whole_cases x with heq | ⟨k, heq⟩
  · exact heq
  · obtain ⟨c, rest, htake, hc⟩ := d.take_succ k
    rw [heq, htake] at h
    exact absurd (Option.some.inj h) hc

theorem digits_fraction : ∀ c ∈ d.fraction x, c.isDigit = true := by
  unfold fraction
  intro c hc
  split at hc
  · exact d.isDigit c (List.mem_of_mem_drop (mem_trimZeros hc))
  split at hc
  · rcases List.mem_append.mp (mem_trimZeros hc) with hzero | hdigit
    · rw [(List.mem_replicate.mp hzero).2]
      rfl
    · exact d.isDigit c hdigit
  · exact d.isDigit c (List.mem_of_mem_drop (mem_trimZeros hc))

/-- With a point where that is near, else with an exponent. -/
def layout (neg : Bool) : Numeral where
  neg := neg
  int := d.whole x
  frac := d.fraction x
  exponent := if -4 ≤ x ∧ x < 6 then none else some (decide (x < 0), exponentDigits x.natAbs)
  int_ne := d.whole_ne x
  int_digits := d.digits_whole x
  int_lead := d.lead_whole x
  frac_digits := d.digits_fraction x
  exponent_ne := by
    intro e he
    split at he
    · cases he
    · cases he
      exact exponentDigits_ne _
  exponent_digits := by
    intro e he
    split at he
    · cases he
    · cases he
      exact digits_exponentDigits _

end Significant

/-- The digits of a positive number are not zero. -/
theorem significand_pos {q : ℚ} (hq : 0 < q) : 0 < (significand q).1 := by
  have hlow : (10 : ℚ) ^ (5 : Int) ≤ q * 10 ^ (5 - Int.log 10 q) := by
    have hlog : ((10 : Nat) : ℚ) ^ Int.log 10 q ≤ q := Int.zpow_log_le_self (by decide) hq
    calc (10 : ℚ) ^ (5 : Int) = 10 ^ (Int.log 10 q + (5 - Int.log 10 q)) := by rw [add_sub_cancel]
      _ = 10 ^ Int.log 10 q * 10 ^ (5 - Int.log 10 q) := zpow_add₀ (by norm_num) _ _
      _ ≤ q * 10 ^ (5 - Int.log 10 q) := mul_le_mul_of_nonneg_right hlog (zpow_nonneg (by norm_num) _)
  have hfloor : 1 ≤ ⌊q * 10 ^ (5 - Int.log 10 q)⌋₊ := by
    apply Nat.le_floor
    refine le_trans ?_ hlow
    norm_num
  have hround : 1 ≤ roundEven (q * 10 ^ (5 - Int.log 10 q)) := by
    unfold roundEven
    simp only
    split
    · exact hfloor
    · exact Nat.le_add_left 1 _
  unfold significand
  simp only
  split
  · exact Nat.zero_lt_succ _
  · exact hround

/-- `%g`, for a number of the given sign. -/
def general (neg : Bool) (q : ℚ) : Numeral :=
  if hq : 0 < q then (Significant.ofPos (significand q).1 (significand_pos hq)).layout (significand q).2 neg
  else { ofInt 0 with neg := neg }

end Numeral

/-! ## Text -/

namespace FloatValue

/-- `std::isfinite`. -/
def isFinite : FloatValue → Bool
  | finite .. => true
  | _ => false

def text : FloatValue → List Char
  | nan neg => if neg then ['-', 'n', 'a', 'n'] else ['n', 'a', 'n']
  | inf neg => if neg then ['-', 'i', 'n', 'f'] else ['i', 'n', 'f']
  | finite neg mantissa exponent => (Numeral.general neg (mantissa * 2 ^ exponent)).text

/-- The number that the text of a finite value stands for. -/
def printed : FloatValue → ℚ
  | finite neg mantissa exponent => (Numeral.general neg (mantissa * 2 ^ exponent)).value
  | _ => 0

theorem text_finite {x : FloatValue} (h : x.isFinite = true) : ∃ n : Numeral, x.text = n.text ∧ x.printed = n.value := by
  cases x with
  | nan neg => cases h
  | inf neg => cases h
  | finite neg mantissa exponent => exact ⟨_, rfl, rfl⟩

theorem text_special {x : FloatValue} (h : x.isFinite = false) :
    x.text ∈ [['n', 'a', 'n'], ['-', 'n', 'a', 'n'], ['i', 'n', 'f'], ['-', 'i', 'n', 'f']] := by
  cases x with
  | nan neg => cases neg <;> decide
  | inf neg => cases neg <;> decide
  | finite neg mantissa exponent => cases h

end FloatValue

def intText (z : Int) : List Char := (Numeral.ofInt z).text

def intValue (z : Int) : ℚ := (Numeral.ofInt z).value

theorem intValue_eq (z : Int) : intValue z = z := by
  have hsigned : Numeral.signed (decide (z < 0)) z.natAbs = z := by
    unfold Numeral.signed
    split
    · rename_i hneg
      have hlt := of_decide_eq_true hneg
      omega
    · rename_i hneg
      have hle := of_decide_eq_false (Bool.eq_false_iff.mpr hneg)
      omega
  have hdigits : Numeral.ofDigits (Nat.toDigits 10 z.natAbs ++ []) = z.natAbs := by
    rw [List.append_nil]
    exact Nat.ofDigitChars_ten_toDigits
  show (Numeral.signed (decide (z < 0)) (Numeral.ofDigits (Nat.toDigits 10 z.natAbs ++ [])) : ℚ) * 10 ^ ((0 : Int) - (0 : Nat)) = z
  rw [hdigits, hsigned]
  simp

/-! ## A numeral at the end of a text -/

theorem append_toDigits_inj {x y : List Char} {c d : Char} (hc : c.isDigit = false) (hd : d.isDigit = false) {n m : Nat}
    (h : x ++ c :: Nat.toDigits 10 n = y ++ d :: Nat.toDigits 10 m) : x = y ∧ n = m := by
  have hlast (z : List Char) {e : Char} (he : e.isDigit = false) (k : Nat) :
      (z ++ e :: Nat.toDigits 10 k).rtakeWhile Char.isDigit = Nat.toDigits 10 k := by
    have hdigits : ∀ a ∈ (Nat.toDigits 10 k).reverse, a.isDigit = true := fun a ha =>
      DecimalText.digits_toDigits k a (List.mem_reverse.mp ha)
    rw [List.rtakeWhile, List.reverse_append, List.reverse_cons, List.append_assoc, List.takeWhile_append_of_pos hdigits,
      List.singleton_append, List.takeWhile_cons_of_neg (by rw [he]; exact Bool.false_ne_true), List.append_nil,
      List.reverse_reverse]
  have hdigits : Nat.toDigits 10 n = Nat.toDigits 10 m := by rw [← hlast x hc n, h, hlast y hd m]
  have hvalue : n = m := by rw [← Nat.ofDigitChars_ten_toDigits (n := n), hdigits, Nat.ofDigitChars_ten_toDigits]
  have hlength := congrArg List.length hdigits
  exact ⟨(List.append_inj' h (by simp [hlength])).1, hvalue⟩

example : (FloatValue.finite false 3 (-2)).text = "0.75".toList := by decide +kernel

end IbarraGateway
