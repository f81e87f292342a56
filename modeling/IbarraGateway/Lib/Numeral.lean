import Mathlib.Algebra.Order.Field.Basic
import Mathlib.Algebra.Field.Rat

/-!
# Decimal numerals

* `Numeral` : an integer part without zeros in front, a fraction, and an exponent; `Numeral.text` prints it and
  `Numeral.value` is the number it stands for.
* `readNumber` : the reader of such texts, as JSON has them; `readNumber_text` : it reads every numeral back.
-/

namespace IbarraGateway

structure Numeral where
  neg : Bool
  int : List Char
  frac : List Char
  /-- The sign and the digits. -/
  exponent : Option (Bool × List Char)
  int_ne : int ≠ []
  int_digits : ∀ c ∈ int, c.isDigit = true
  int_lead : int.head? = some '0' → int = ['0']
  frac_digits : ∀ c ∈ frac, c.isDigit = true
  exponent_ne : ∀ e ∈ exponent, e.2 ≠ []
  exponent_digits : ∀ e ∈ exponent, ∀ c ∈ e.2, c.isDigit = true

namespace Numeral

def ofDigits (ds : List Char) : Nat := Nat.ofDigitChars 10 ds 0

def signed (neg : Bool) (n : Nat) : Int := if neg then -n else n

/-- The number of a sign, digits with a point, and an exponent. -/
def number (neg : Bool) (int frac : List Char) (exponent : Int) : ℚ :=
  signed neg (ofDigits (int ++ frac)) * 10 ^ (exponent - frac.length)

section Text
variable (n : Numeral)

def exponentValue : Int := n.exponent.elim 0 fun e => signed e.1 (ofDigits e.2)

def value : ℚ := number n.neg n.int n.frac n.exponentValue

def sign : List Char := if n.neg then ['-'] else []

def fracText : List Char := if n.frac = [] then [] else '.' :: n.frac

def exponentText : List Char := n.exponent.elim [] fun e => 'e' :: (if e.1 then '-' else '+') :: e.2

def text : List Char := n.sign ++ (n.int ++ (n.fracText ++ n.exponentText))

end Text

/-! ## Reading -/

def readWhole (ds : List Char) : Option Nat := if ds ≠ [] ∧ ds.all Char.isDigit then some (ofDigits ds) else none

def readExponent : List Char → Option Int
  | [] => some 0
  | c :: w =>
    if c = 'e' ∨ c = 'E' then
      match w with
      | '-' :: ds => (readWhole ds).map (signed true)
      | '+' :: ds => (readWhole ds).map (signed false)
      | ds => (readWhole ds).map (signed false)
    else none

/-- The digits behind a point, and the rest. -/
def readFraction : List Char → Option (List Char × List Char)
  | '.' :: w => if w.takeWhile Char.isDigit = [] then none else some (w.takeWhile Char.isDigit, w.dropWhile Char.isDigit)
  | w => some ([], w)

def readUnsigned (neg : Bool) (w : List Char) : Option ℚ :=
  let int := w.takeWhile Char.isDigit
  if int = [] ∨ (int.head? = some '0' ∧ int ≠ ['0']) then none
  else
    (readFraction (w.dropWhile Char.isDigit)).bind fun parts =>
      (readExponent parts.2).map (number neg int parts.1)

/-- The number grammar of JSON. -/
def readNumber : List Char → Option ℚ
  | '-' :: w => readUnsigned true w
  | w => readUnsigned false w

/-- Digits up to the first character that is none. -/
theorem span_digits {ds rest : List Char} (hds : ∀ c ∈ ds, c.isDigit = true) (hrest : ∀ c ∈ rest.head?, c.isDigit = false) :
    (ds ++ rest).takeWhile Char.isDigit = ds ∧ (ds ++ rest).dropWhile Char.isDigit = rest := by
  induction ds with
  | nil =>
    cases rest with
    | nil => exact ⟨rfl, rfl⟩
    | cons c rest =>
      have hc := hrest c rfl
      exact ⟨List.takeWhile_cons_of_neg (by simp [hc]), List.dropWhile_cons_of_neg (by simp [hc])⟩
  | cons d ds ih =>
    have hd := hds d List.mem_cons_self
    obtain ⟨htake, hdrop⟩ := ih fun c hc => hds c (List.mem_cons_of_mem _ hc)
    refine ⟨?_, ?_⟩
    · rw [List.cons_append, List.takeWhile_cons_of_pos hd, htake]
    · rw [List.cons_append, List.dropWhile_cons_of_pos hd, hdrop]

theorem readWhole_digits {ds : List Char} (hne : ds ≠ []) (hds : ∀ c ∈ ds, c.isDigit = true) :
    readWhole ds = some (ofDigits ds) := if_pos ⟨hne, List.all_eq_true.mpr hds⟩

section Read
variable (n : Numeral)

theorem readExponent_text : readExponent n.exponentText = some n.exponentValue := by
  unfold exponentText exponentValue
  cases hexp : n.exponent with
  | none => rfl
  | some e =>
    have hwhole := readWhole_digits (n.exponent_ne e hexp) (n.exponent_digits e hexp)
    obtain ⟨neg, ds⟩ := e
    cases neg with
    | true =>
      show (readWhole ds).map (signed true) = _
      rw [hwhole]
      rfl
    | false =>
      show (readWhole ds).map (signed false) = _
      rw [hwhole]
      rfl

theorem head_exponentText : ∀ c ∈ n.exponentText.head?, c = 'e' := by
  unfold exponentText
  cases n.exponent with
  | none => nofun
  | some e =>
    intro c hc
    cases hc
    rfl

theorem readFraction_text : readFraction (n.fracText ++ n.exponentText) = some (n.frac, n.exponentText) := by
  have hend : ∀ c ∈ n.exponentText.head?, c.isDigit = false := fun c hc => by rw [n.head_exponentText c hc]; rfl
  unfold fracText
  split
  · rename_i hnil
    rw [hnil, List.nil_append]
    unfold readFraction
    split
    · rename_i w heq
      have hpoint := n.head_exponentText '.' (by rw [heq]; rfl)
      exact absurd hpoint (by decide)
    · rfl
  · rename_i hne
    obtain ⟨htake, hdrop⟩ := span_digits n.frac_digits hend
    rw [List.cons_append, readFraction, htake, hdrop, if_neg hne]

theorem head_rest : ∀ c ∈ (n.fracText ++ n.exponentText).head?, c.isDigit = false := by
  unfold fracText
  split
  · intro c hc
    rw [n.head_exponentText c hc]
    rfl
  · intro c hc
    cases hc
    rfl

theorem readUnsigned_text (neg : Bool) : readUnsigned neg (n.int ++ (n.fracText ++ n.exponentText)) =
    some (number neg n.int n.frac n.exponentValue) := by
  obtain ⟨htake, hdrop⟩ := span_digits n.int_digits n.head_rest
  have hint : ¬(n.int = [] ∨ (n.int.head? = some '0' ∧ n.int ≠ ['0'])) := by
    rintro (hnil | ⟨hlead, hlong⟩)
    · exact n.int_ne hnil
    · exact hlong (n.int_lead hlead)
  simp only [readUnsigned, htake, hdrop]
  rw [if_neg hint, n.readFraction_text, Option.bind_some, n.readExponent_text, Option.map_some]

/-- Every numeral is read as its number. -/
theorem readNumber_text : readNumber n.text = some n.value := by
  unfold text sign value
  cases hneg : n.neg with
  | true => exact n.readUnsigned_text true
  | false =>
    obtain ⟨d, ds, hint⟩ := List.exists_cons_of_ne_nil n.int_ne
    have hd : d.isDigit = true := n.int_digits d (by rw [hint]; exact List.mem_cons_self)
    rw [if_neg (by decide), List.nil_append, ← n.readUnsigned_text false, hint, List.cons_append]
    unfold readNumber
    split
    · rename_i w heq
      cases heq
      exact absurd hd (by decide)
    · rfl

/-- The characters of a numeral. -/
theorem mem_text : ∀ c ∈ n.text, c.isDigit = true ∨ c ∈ ['-', '+', '.', 'e'] := by
  intro c hc
  simp only [text, List.mem_append] at hc
  rcases hc with hsign | hint | hfrac | hexp
  · unfold sign at hsign
    split at hsign
    · rw [List.mem_singleton.mp hsign]
      exact .inr (by decide)
    · cases hsign
  · exact .inl (n.int_digits c hint)
  · unfold fracText at hfrac
    split at hfrac
    · cases hfrac
    · rcases List.mem_cons.mp hfrac with rfl | hdigit
      · exact .inr (by decide)
      · exact .inl (n.frac_digits c hdigit)
  · unfold exponentText at hexp
    cases hexponent : n.exponent with
    | none =>
      rw [hexponent] at hexp
      cases hexp
    | some e =>
      rw [hexponent] at hexp
      rcases List.mem_cons.mp hexp with rfl | hrest
      · exact .inr (by decide)
      rcases List.mem_cons.mp hrest with rfl | hdigit
      · cases e.1 <;> exact .inr (by decide)
      · exact .inl (n.exponent_digits e hexponent c hdigit)

theorem head_text : ∃ c rest, n.text = c :: rest ∧ (c = '-' ∨ c.isDigit = true) := by
  obtain ⟨d, ds, hint⟩ := List.exists_cons_of_ne_nil n.int_ne
  have hd : d.isDigit = true := n.int_digits d (by rw [hint]; exact List.mem_cons_self)
  unfold text sign
  rw [hint]
  cases n.neg with
  | true => exact ⟨'-', _, rfl, .inl rfl⟩
  | false => exact ⟨d, _, rfl, .inr hd⟩

end Read
end Numeral
end IbarraGateway
