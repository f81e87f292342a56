import Mathlib.Data.Nat.Notation

/-!
# Decimal integers in a text

What C reads in front of the digits of an integer (`strtol`, `%d`, `std::stoi`), and what is printed for one.

* `scanSign_sign` : every sign is read with its factor; `scanSign_cases` : nothing else is.
* `toString_nat` : a natural number is printed as its digits.
-/

namespace IbarraGateway.DecimalText

/-- `isspace` of the C locale. -/
def isSpace (c : Char) : Bool := c = ' ' || '\t' ≤ c && c ≤ '\r'

/-- The sign in front of a number, with its factor. -/
def scanSign : List Char → Int × List Char
  | '-' :: s => (-1, s)
  | '+' :: s => (1, s)
  | s => (1, s)

/-- What may stand in front of the digits, with its factor. -/
def signs : List (List Char × Int) := [([], 1), (['+'], 1), (['-'], -1)]

theorem isSpace_digit {c : Char} (h : c.isDigit = true) : isSpace c = false := by
  have hdigit : '0' ≤ c := by
    simp only [Char.isDigit, Bool.and_eq_true, decide_eq_true_eq] at h
    exact h.1
  apply Bool.eq_false_iff.mpr
  intro hspace
  simp only [isSpace, Bool.or_eq_true, Bool.and_eq_true, decide_eq_true_eq] at hspace
  rcases hspace with rfl | ⟨-, hle⟩
  · exact absurd hdigit (by decide)
  · exact absurd (Char.le_trans hdigit hle) (by decide)

theorem scanSign_plain {c : Char} (hminus : c ≠ '-') (hplus : c ≠ '+') (s : List Char) : scanSign (c :: s) = (1, c :: s) := by
  simp [scanSign, hminus, hplus]

theorem scanSign_digit {c : Char} (hc : c.isDigit = true) (r : List Char) : scanSign (c :: r) = (1, c :: r) := by
  have hminus : c ≠ '-' := by
    rintro rfl
    exact absurd hc (by decide)
  have hplus : c ≠ '+' := by
    rintro rfl
    exact absurd hc (by decide)
  exact scanSign_plain hminus hplus r

theorem scanSign_sign {sign : List Char} {k : Int} (hsign : (sign, k) ∈ signs) {c : Char} {r : List Char}
    (hc : c.isDigit = true) : scanSign (sign ++ c :: r) = (k, c :: r) := by
  simp only [signs, List.mem_cons, Prod.mk.injEq, List.not_mem_nil, or_false] at hsign
  rcases hsign with ⟨rfl, rfl⟩ | ⟨rfl, rfl⟩ | ⟨rfl, rfl⟩
  · exact scanSign_digit hc r
  · rfl
  · rfl

theorem scanSign_cases (s : List Char) : ∃ sign, s = sign ++ (scanSign s).2 ∧ (sign, (scanSign s).1) ∈ signs := by
  unfold scanSign
  split
  · exact ⟨['-'], rfl, by simp [signs]⟩
  · exact ⟨['+'], rfl, by simp [signs]⟩
  · exact ⟨[], rfl, by simp [signs]⟩

theorem sign_noSpace {sign : List Char} {k : Int} (hsign : (sign, k) ∈ signs) : ∀ c ∈ sign, isSpace c = false := by
  simp only [signs, List.mem_cons, Prod.mk.injEq, List.not_mem_nil, or_false] at hsign
  rcases hsign with ⟨rfl, -⟩ | ⟨rfl, -⟩ | ⟨rfl, -⟩ <;> simp [isSpace]

/-! ## Printing -/

theorem toString_nat (n : Nat) : (toString (n : Int)).toList = Nat.toDigits 10 n := by
  show (toString n).toList = _
  exact Nat.toList_repr

theorem toString_neg (n : Nat) : (toString (-(n + 1 : Nat) : Int)).toList = '-' :: Nat.toDigits 10 (n + 1) := by
  have hrepr : (toString (n + 1)).toList = Nat.toDigits 10 (n + 1) := Nat.toList_repr
  show ("-" ++ toString (n + 1)).toList = _
  rw [String.toList_append, hrepr]
  rfl

theorem digits_toDigits (n : Nat) : ∀ c ∈ Nat.toDigits 10 n, c.isDigit = true :=
  fun _ hc => Nat.isDigit_of_mem_toDigits (by decide) (by decide) hc

end IbarraGateway.DecimalText
