import Mathlib.Data.List.DropRight
import Mathlib.Data.List.Basic

/-!
# Texts and labels of the training images

`generate_text_pair` on what it draws: a date, a template for each of the two lines, and a lot number.
-/

namespace IbarraGateway.Training

/-! ## Templates -/

inductive Field
  | d
  | m
  | y
  | n
  deriving DecidableEq, Repr

/-- A piece of a format string; `width` is that of `{d:02d}`, and 0 for `{n}`. -/
inductive Piece
  | text (s : List Char)
  | field (f : Field) (width : Nat)
  deriving DecidableEq, Repr

abbrev Template : Type := List Piece

/-- `{d:02d}`, `{m:02d}` and `{y:02d}` with what stands between them. -/
def dateFields (separator : List Char) : Template :=
  [.field .d 2, .text separator, .field .m 2, .text separator, .field .y 2]

def venceSlash : Template := .text ['V', 'E', 'N', 'C', 'E', ' '] :: dateFields ['/']
def vSlash : Template := .text ['V', ' '] :: dateFields ['/']
def venceColon : Template := .text ['V', 'E', 'N', 'C', 'E', ' '] :: dateFields [':']

/-- `LINE1_TEMPLATES`. -/
def line1Templates : List Template := [venceSlash, vSlash, venceColon]

def lote : Piece := .text ['L', 'O', 'T', 'E', ' ']

def loteNumber : Template := [lote, .field .n 0]
def lotePadded : Template := [lote, .field .n 4]
def loteDate : Template := lote :: dateFields []
def loteDateSlash : Template := lote :: dateFields ['/']

/-- `LINE2_TEMPLATES`. -/
def line2Templates : List Template := [loteNumber, lotePadded, loteDate, loteDateSlash]

/-- What `generate_text_pair` draws. -/
structure Draw where
  day : Nat
  month : Nat
  year : Nat
  line1 : Template
  line2 : Template
  lot : Nat
  day_range : 1 ≤ day ∧ day ≤ 28
  month_range : 1 ≤ month ∧ month ≤ 12
  year_range : 24 ≤ year ∧ year ≤ 29
  line1_mem : line1 ∈ line1Templates
  line2_mem : line2 ∈ line2Templates
  lot_le : lot ≤ 9999

/-- A number, with zeros in front up to the width. -/
def pad (width value : Nat) : List Char :=
  let digits := Nat.toDigits 10 value
  List.replicate (width - digits.length) '0' ++ digits

namespace Draw

def value (draw : Draw) : Field → Nat
  | .d => draw.day
  | .m => draw.month
  | .y => draw.year
  | .n => draw.lot

def format (draw : Draw) (template : Template) : List Char :=
  template.flatMap fun
    | .text s => s
    | .field f width => pad width (draw.value f)

end Draw

/-! ## Labels -/

/-- `replace`, for single characters. -/
def replaceChar (old new : Char) (s : List Char) : List Char := s.map fun c => if c = old then new else c

/-- `"::" in s`. -/
def hasDouble : List Char → Bool
  | a :: b :: s => (a == ':' && b == ':') || hasDouble (b :: s)
  | _ => false

/-- `s.replace("::", ":")`, from left to right. -/
def replaceDouble : List Char → List Char
  | [] => []
  | [a] => [a]
  | a :: b :: s => if a = ':' ∧ b = ':' then ':' :: replaceDouble s else a :: replaceDouble (b :: s)

/-- The loop that replaces as long as there is a double colon, at most `fuel` times. -/
def collapseColons : Nat → List Char → List Char
  | 0, s => s
  | fuel + 1, s => if hasDouble s then collapseColons fuel (replaceDouble s) else s

/-- `strip(":")`. -/
def stripColons (s : List Char) : List Char := (s.dropWhile (· = ':')).rdropWhile (· = ':')

namespace Draw

def visualText (draw : Draw) : List Char := draw.format draw.line1 ++ '\n' :: draw.format draw.line2

def label (draw : Draw) : List Char :=
  let label := replaceChar ' ' ':' (replaceChar '\n' ':' draw.visualText)
  stripColons (collapseColons label.length label)

/-- The text with its spaces, and the label. -/
def generateTextPair (draw : Draw) : List Char × List Char := (draw.visualText, draw.label)

end Draw

/-! ## The loop ends -/

theorem length_replaceDouble_le (s : List Char) : (replaceDouble s).length ≤ s.length := by
  fun_induction replaceDouble s with
  | case1 => exact Nat.le_refl 0
  | case2 a => exact Nat.le_refl 1
  | case3 a b s hboth ih =>
    rw [List.length_cons, List.length_cons, List.length_cons]
    omega
  | case4 a b s hnot ih =>
    rw [List.length_cons, List.length_cons]
    exact Nat.succ_le_succ ih

theorem length_replaceDouble_lt {s : List Char} (h : hasDouble s = true) : (replaceDouble s).length < s.length := by
  fun_induction replaceDouble s with
  | case1 => cases h
  | case2 a => cases h
  | case3 a b s hboth ih =>
    have hle := length_replaceDouble_le s
    rw [List.length_cons, List.length_cons, List.length_cons]
    omega
  | case4 a b s hnot ih =>
    rw [hasDouble, Bool.or_eq_true] at h
    have hrest : hasDouble (b :: s) = true := by
      refine h.resolve_left fun hhere => hnot ?_
      simpa using hhere
    exact Nat.succ_lt_succ (ih hrest)

/-- As many rounds as there are characters are enough. -/
theorem hasDouble_collapseColons {fuel : Nat} {s : List Char} (h : s.length ≤ fuel) :
    hasDouble (collapseColons fuel s) = false := by
  induction fuel generalizing s with
  | zero =>
    rw [List.eq_nil_of_length_eq_zero (Nat.le_zero.mp h)]
    rfl
  | succ fuel ih =>
    rw [collapseColons]
    split
    · rename_i hdouble
      have hlt := length_replaceDouble_lt hdouble
      exact ih (by omega)
    · rename_i hnot
      exact eq_false_of_ne_true hnot

end IbarraGateway.Training
