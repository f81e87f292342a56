import Mathlib.Data.List.Basic

/-!
# Values in shell command lines

A shell reads a command line with a quoting state (`Quoting`), and which characters mean something to it depends on that
state (`isActive`). A line that is built from fixed text and values (`Piece`) passes its values as data when no character
of theirs is active where it stands (`PassesData`).

`passesData_value_iff` : a value that is passed as data leaves the quoting of what follows as it was.

What `echo` writes of a text between double quotes depends on the shell where the text holds active characters; `Echo` is
any shell that takes the others for themselves and expands an empty command to nothing.
-/

namespace IbarraGateway.Shell

/-- How the shell reads the next character; in the two last states a backslash stands before it. -/
inductive Quoting
  | bare
  | single
  | double
  | bareEscape
  | doubleEscape
  deriving DecidableEq, Repr

namespace Quoting

def next : Quoting → Char → Quoting
  | bare, c => if c = '\'' then single else if c = '"' then double else if c = '\\' then bareEscape else bare
  | single, c => if c = '\'' then bare else single
  | double, c => if c = '"' then bare else if c = '\\' then doubleEscape else double
  | bareEscape, _ => bare
  | doubleEscape, _ => double

def after (q : Quoting) (text : List Char) : Quoting := text.foldl next q

/-- Characters that are not taken for themselves: outside of quotes blanks, quotes, operators, expansions and patterns;
between double quotes expansions and what ends them; between single quotes the quote. -/
def isActive : Quoting → Char → Bool
  | bare, c => c ∈ [' ', '\t', '\n', '\'', '"', '\\', '$', '`', '|', '&', ';', '<', '>', '(', ')', '*', '?', '[']
  | single, c => c = '\''
  | double, c => c ∈ ['"', '\\', '$', '`']
  | bareEscape, c => c = '\n'
  | doubleEscape, c => c = '\n'

/-- Not behind a backslash. -/
def Plain (q : Quoting) : Prop := q = bare ∨ q = single ∨ q = double

theorem next_of_inactive {q : Quoting} {c : Char} (hq : q.Plain) (hc : q.isActive c = false) : q.next c = q := by
  rcases hq with rfl | rfl | rfl <;> simp_all [isActive, next]

end Quoting

open Quoting

/-- No character of the text is active where it stands. -/
def Inert : Quoting → List Char → Prop
  | _, [] => True
  | q, c :: text => q.isActive c = false ∧ Inert (q.next c) text

instance decidableInert : (q : Quoting) → (text : List Char) → Decidable (Inert q text)
  | _, [] => inferInstanceAs (Decidable True)
  | q, c :: text => @instDecidableAnd _ _ _ (decidableInert (q.next c) text)

theorem inert_iff {q : Quoting} (hq : q.Plain) {text : List Char} :
    Inert q text ↔ ∀ c ∈ text, q.isActive c = false := by
  induction text with
  | nil => simp [Inert]
  | cons c text ih =>
    rw [Inert, List.forall_mem_cons]
    refine and_congr_right fun hc => ?_
    rw [next_of_inactive hq hc, ih]

theorem after_inert {q : Quoting} (hq : q.Plain) {text : List Char} (h : Inert q text) : q.after text = q := by
  induction text with
  | nil => rfl
  | cons c text ih =>
    obtain ⟨hc, hrest⟩ := h
    rw [next_of_inactive hq hc] at hrest
    show (q.next c).after text = q
    rw [next_of_inactive hq hc, ih hrest]

/-- A part of a command line: its author's text, or a value that is put in. -/
inductive Piece
  | fixed (text : List Char)
  | value (text : List Char)
  deriving DecidableEq, Repr

def Piece.text : Piece → List Char
  | fixed text => text
  | value text => text

def lineText (line : List Piece) : List Char := line.flatMap Piece.text

/-- Every value of the line is inert where it stands. -/
def PassesData : Quoting → List Piece → Prop
  | _, [] => True
  | q, .fixed text :: line => PassesData (q.after text) line
  | q, .value text :: line => Inert q text ∧ PassesData (q.after text) line

theorem passesData_value_iff {q : Quoting} (hq : q.Plain) {text : List Char} {line : List Piece} :
    PassesData q (.value text :: line) ↔ Inert q text ∧ PassesData q line := by
  rw [PassesData]
  refine and_congr_right fun h => ?_
  rw [after_inert hq h]

theorem passesData_fixed_iff {q q' : Quoting} {text : List Char} (h : q.after text = q') {line : List Piece} :
    PassesData q (.fixed text :: line) ↔ PassesData q' line := by
  rw [PassesData, h]

/-- Fixed text alone passes no value. -/
theorem passesData_last (q : Quoting) (text : List Char) : PassesData q [.fixed text] := trivial

/-! ## What is written of a text between double quotes -/

/-- Taken for itself between double quotes, in a line that a C function passes on: nothing active and no NUL. -/
def Verbatim (text : List Char) : Prop := ∀ c ∈ text, Quoting.double.isActive c = false ∧ c ≠ '\x00'

instance (text : List Char) : Decidable (Verbatim text) :=
  List.decidableBAll (fun c => Quoting.double.isActive c = false ∧ c ≠ '\x00') text

theorem verbatim_append_iff {a b : List Char} : Verbatim (a ++ b) ↔ Verbatim a ∧ Verbatim b := List.forall_mem_append

theorem verbatim_nil : Verbatim [] := nofun

/-- The substitution of a command that writes nothing. -/
def noOp : List Char := "$(:)".toList

/-- What a shell writes for `echo -n "text"`. -/
structure Echo where
  written : List Char → List Char
  verbatim : ∀ text, Verbatim text → written text = text
  noOp : ∀ a b, Verbatim a → Verbatim b → written (a ++ (noOp ++ b)) = a ++ b

def dropNoOps : List Char → List Char
  | '$' :: '(' :: ':' :: ')' :: text => dropNoOps text
  | c :: text => c :: dropNoOps text
  | [] => []

theorem dropNoOps_append {a : List Char} (ha : Verbatim a) (b : List Char) : dropNoOps (a ++ b) = a ++ dropNoOps b := by
  induction a with
  | nil => rfl
  | cons c a ih =>
    obtain ⟨hc, hrest⟩ := List.forall_mem_cons.mp ha
    have hdollar : c ≠ '$' := by
      rintro rfl
      exact absurd hc.1 (by decide)
    rw [List.cons_append, dropNoOps, ih hrest, List.cons_append]
    exact fun _ h => absurd h hdollar

theorem dropNoOps_verbatim (text : List Char) (h : Verbatim text) : dropNoOps text = text := by
  have hall := dropNoOps_append h []
  rw [List.append_nil] at hall
  exact hall.trans (List.append_nil text)

theorem dropNoOps_noOp (a b : List Char) (ha : Verbatim a) (hb : Verbatim b) :
    dropNoOps (a ++ (noOp ++ b)) = a ++ b := by
  rw [dropNoOps_append ha]
  exact congrArg (a ++ ·) (dropNoOps_verbatim b hb)

/-- A shell that expands nothing but the empty command. -/
def Echo.plain : Echo where
  written := dropNoOps
  verbatim := dropNoOps_verbatim
  noOp := dropNoOps_noOp

end IbarraGateway.Shell
