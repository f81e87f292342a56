import IbarraGateway.GemaVision.ConfigManager

/-!
# The calibrator and the calibration wizard

`SpatialCalibrator::load_from_file` and the text that the wizard writes. How `std::stof` rounds, and whether OpenCV takes a
matrix for regular, are left open.

* `loadFromFile_generateConfig` : the calibrator loads the nine numbers that the wizard has written.
* `loadFromFile_string` : of a text in quotes the calibrator sees what stands in the first string with a bracket, as if it
  were the whole file.
-/

namespace IbarraGateway.GemaVision

open TextSearch

/-! ## The calibrator -/

/-- What the calibrator calls: `std::stof`, which converts nothing that begins with a quote, and the range and determinant
check of a matrix. -/
structure Calibrator (F : Type) where
  stof : Text → Option F
  regular : List F → Bool
  stof_quote : ∀ t, stof ('"' :: t) = none

/-- The text between the first `[` and the first `]`. -/
def segment (content : Text) : Option Text :=
  match content.dropWhile fun c => c ≠ '[' with
  | [] => none
  | _ :: body =>
    if ']' ∈ content.takeWhile fun c => c ≠ '[' then none
    else if ']' ∈ body then some (body.takeWhile fun c => c ≠ ']') else none

/-- What `std::getline` makes of a text at commas; an empty item is skipped anyway. -/
def items : Text → List Text
  | [] => [[]]
  | c :: s =>
    if c = ',' then [] :: items s
    else
      match items s with
      | [] => [[c]]
      | item :: rest => (c :: item) :: rest

def trim (item : Text) : Text := ((item.dropWhile isBlank).reverse.dropWhile isBlank).reverse

namespace Calibrator
variable {F : Type} (cal : Calibrator F)

/-- The loop over the items. -/
def values : List Text → Option (List F)
  | [] => some []
  | item :: rest =>
    if item.all isBlank then values rest
    else
      match cal.stof (trim item) with
      | none => none
      | some v => (values rest).map fun vs => v :: vs

/-- `load_from_vector`: the matrix, if it is accepted. -/
def loadFromVector (h : List F) : Option (List F) :=
  if h.length ≠ 9 then none else if cal.regular h then some h else none

/-- `load_from_file`: the matrix that is set. -/
def loadFromFile (file : Option Text) : Option (List F) :=
  file.bind fun content => (segment content).bind fun seg => (cal.values (items seg)).bind cal.loadFromVector

end Calibrator

/-! ## The wizard -/

/-- What stands between the numbers of a list that `json.dump` writes with `indent=4`. -/
def joinNumbers : List Text → Text
  | [] => []
  | [t] => t
  | t :: ts => t ++ ",\n        ".toList ++ joinNumbers ts

def preamble : Text :=
  "\x7b\n    \"_comment\": \"GEMA Vision \\u2014 Configuraci\\u00f3n de calibraci\\u00f3n espacial\",\n".toList ++
  "    \"_description\": \"Generado por calibration_wizard.py. No modificar manualmente.\",\n".toList ++
  "    \"homography\": ".toList

/-- `generate_config`, as `json.dump` writes it, from the texts of the nine rounded numbers. -/
def generateConfig (numbers : List Text) : Text :=
  preamble ++ '[' :: ("\n        ".toList ++ joinNumbers numbers ++ "\n    ".toList ++
    ']' :: ",\n    \"product_height_mm\": 0.0,\n    \"camera_height_mm\": 500.0\n\x7d\n".toList)

/-- What a number looks like in JSON text. -/
def isNumberChar (c : Char) : Bool := c.isDigit || c ∈ "+-.eEINafinty".toList

def NumberText (t : Text) : Prop := t ≠ [] ∧ t.all isNumberChar = true

instance (t : Text) : Decidable (NumberText t) := inferInstanceAs (Decidable (_ ∧ _))

/-! ## Items -/

theorem items_ne_nil (s : Text) : items s ≠ [] := by
  cases s with
  | nil => exact List.cons_ne_nil _ _
  | cons c s =>
    unfold items
    split
    · exact List.cons_ne_nil _ _
    · split
      · exact List.cons_ne_nil _ _
      · exact List.cons_ne_nil _ _

/-- A character in front belongs to the first item. -/
theorem items_cons {c : Char} {s item : Text} {rest : List Text} (hc : c ≠ ',') (hs : items s = item :: rest) :
    items (c :: s) = (c :: item) :: rest := by
  rw [items, if_neg hc, hs]

theorem items_comma (s : Text) : items (',' :: s) = [] :: items s := by
  rw [items, if_pos rfl]

theorem items_append (a b : Text) : items (a ++ ',' :: b) = items a ++ items b := by
  induction a with
  | nil => exact items_comma b
  | cons c a ih =>
    by_cases hc : c = ','
    · subst hc
      rw [List.cons_append, items_comma, items_comma, ih, List.cons_append]
    · cases ha : items a with
      | nil => exact absurd ha (items_ne_nil a)
      | cons item rest =>
        rw [ha] at ih
        rw [List.cons_append, items_cons hc ih, items_cons hc ha]
        rfl

theorem items_of_noComma {s : Text} (h : ',' ∉ s) : items s = [s] := by
  induction s with
  | nil => rfl
  | cons c s ih =>
    rw [List.mem_cons, not_or] at h
    exact items_cons (Ne.symm h.1) (ih h.2)

/-- The first item begins like the text. -/
theorem items_prefix {pre : Text} (h : ',' ∉ pre) (s : Text) : ∃ item rest, items (pre ++ s) = (pre ++ item) :: rest := by
  induction pre with
  | nil =>
    cases hs : items s with
    | nil => exact absurd hs (items_ne_nil s)
    | cons item rest => exact ⟨item, rest, hs⟩
  | cons c pre ih =>
    rw [List.mem_cons, not_or] at h
    obtain ⟨item, rest, hitem⟩ := ih h.2
    exact ⟨item, rest, items_cons (Ne.symm h.1) hitem⟩

namespace Calibrator
variable {F : Type} (cal : Calibrator F)

theorem values_append (a b : List Text) :
    cal.values (a ++ b) = (cal.values a).bind fun x => (cal.values b).map fun y => x ++ y := by
  induction a with
  | nil => simp [values]
  | cons item a ih =>
    rw [List.cons_append, values, values]
    split
    · exact ih
    · split
      · rfl
      · rw [ih]
        cases cal.values a <;> cases cal.values b <;> rfl

/-- An item that begins with a quote is no number. -/
theorem values_quote {blanks item : Text} (hblanks : ∀ c ∈ blanks, isBlank c = true) (rest : List Text) :
    cal.values ((blanks ++ '"' :: item) :: rest) = none := by
  have hnot : (blanks ++ '"' :: item).all isBlank = false := by
    apply Bool.eq_false_iff.mpr
    intro hall
    have hquote := List.all_eq_true.mp hall '"' (by simp)
    exact absurd hquote (by decide)
  have hdrop : (blanks ++ '"' :: item).dropWhile isBlank = '"' :: item := by
    apply dropWhile_run hblanks
    intro c r hr
    cases hr
    decide
  have htrim : ∃ t, trim (blanks ++ '"' :: item) = '"' :: t := by
    rw [trim, hdrop, List.reverse_cons]
    refine ⟨(item.reverse.dropWhile isBlank).reverse, ?_⟩
    rw [List.dropWhile_append]
    split
    · rename_i hempty
      rw [List.isEmpty_iff.mp hempty]
      rfl
    · simp
  obtain ⟨t, ht⟩ := htrim
  rw [values, if_neg (by rw [hnot]; decide), ht, cal.stof_quote]

end Calibrator

/-! ## Brackets -/

def isBracket (c : Char) : Bool := c ∈ ['[', ']']

def NoBracket (s : Text) : Prop := ∀ c ∈ s, isBracket c = false

theorem noBracket_iff {s : Text} : NoBracket s ↔ s.any isBracket = false := by
  constructor
  · intro h
    apply List.any_eq_false.mpr
    intro c hc
    exact Bool.eq_false_iff.mp (h c hc)
  · exact forall_of_any

instance (s : Text) : Decidable (NoBracket s) := decidable_of_iff _ noBracket_iff.symm

theorem NoBracket.append {s t : Text} (hs : NoBracket s) (ht : NoBracket t) : NoBracket (s ++ t) := by
  intro c hc
  rcases List.mem_append.mp hc with hc | hc
  · exact hs c hc
  · exact ht c hc

theorem NoBracket.ne_open {s : Text} (h : NoBracket s) : ∀ c ∈ s, decide (c ≠ '[') = true :=
  forall_ne_of_not_mem fun hmem => absurd (h '[' hmem) (by decide)

theorem NoBracket.no_close {s : Text} (h : NoBracket s) : ']' ∉ s := by
  intro hmem
  exact absurd (h ']' hmem) (by decide)

/-- What stands in front of the first bracket does not matter. -/
theorem segment_skip {pre : Text} (h : NoBracket pre) (s : Text) : segment (pre ++ s) = segment s := by
  unfold segment
  rw [List.dropWhile_append_of_pos h.ne_open, List.takeWhile_append_of_pos h.ne_open]
  simp only [List.mem_append, h.no_close, false_or]

theorem segment_open (body : Text) :
    segment ('[' :: body) = if ']' ∈ body then some (body.takeWhile fun c => c ≠ ']') else none := by
  unfold segment
  rw [List.dropWhile_cons_of_neg (by decide), List.takeWhile_cons_of_neg (by decide)]
  dsimp only
  rw [if_neg List.not_mem_nil]

theorem segment_close (s : Text) : segment (']' :: s) = none := by
  unfold segment
  rw [List.takeWhile_cons_of_pos (by decide), List.dropWhile_cons_of_pos (by decide)]
  split
  · rfl
  · rw [if_pos List.mem_cons_self]

/-- A text is split at its first bracket. -/
theorem split_bracket {s : Text} (h : ¬NoBracket s) :
    ∃ a c b, s = a ++ c :: b ∧ NoBracket a ∧ (c = '[' ∨ c = ']') := by
  induction s with
  | nil => exact absurd (fun c hc => by cases hc) h
  | cons c s ih =>
    by_cases hc : isBracket c = true
    · refine ⟨[], c, s, rfl, ?_, ?_⟩
      · intro d hd
        cases hd
      · simpa [isBracket] using hc
    · have htail : ¬NoBracket s := by
        intro hs
        apply h
        intro d hd
        rcases List.mem_cons.mp hd with rfl | hd
        · exact Bool.eq_false_iff.mpr hc
        · exact hs d hd
      obtain ⟨a, d, b, rfl, ha, hd⟩ := ih htail
      refine ⟨c :: a, d, b, rfl, ?_, hd⟩
      intro e he
      rcases List.mem_cons.mp he with rfl | he
      · exact Bool.eq_false_iff.mpr hc
      · exact ha e he

theorem takeWhile_append_of_mem {s : Text} (h : ']' ∈ s) (t : Text) :
    (s ++ t).takeWhile (fun c => decide (c ≠ ']')) = s.takeWhile fun c => decide (c ≠ ']') := by
  induction s with
  | nil => cases h
  | cons c s ih =>
    rw [List.cons_append, List.takeWhile_cons, List.takeWhile_cons]
    split
    · rename_i hc
      rcases List.mem_cons.mp h with rfl | h
      · exact absurd hc (by decide)
      · rw [ih h]
    · rfl

namespace Calibrator
variable {F : Type} (cal : Calibrator F)

theorem loadFromFile_skip {pre : Text} (h : NoBracket pre) (s : Text) :
    cal.loadFromFile (some (pre ++ s)) = cal.loadFromFile (some s) := by
  rw [loadFromFile, loadFromFile, Option.bind_some, Option.bind_some, segment_skip h]

/-- An item that spans the end of a string is followed by one that begins with a quote. -/
theorem values_next_string {blanks : Text} (hblanks : ∀ c ∈ blanks, isBlank c = true) (s more : Text) :
    cal.values (items (s ++ '"' :: ',' :: (blanks ++ '"' :: more))) = none := by
  have hcomma : ',' ∉ blanks ++ ['"'] := by
    intro hmem
    have hblank : ',' ∉ blanks := fun hmem => absurd (hblanks _ hmem) (by decide)
    simp [hblank] at hmem
  have hsplit : s ++ '"' :: ',' :: (blanks ++ '"' :: more) = (s ++ ['"']) ++ ',' :: ((blanks ++ ['"']) ++ more) := by
    simp
  obtain ⟨item, rest, hitem⟩ := items_prefix hcomma more
  have hnone : cal.values ((blanks ++ ['"'] ++ item) :: rest) = none := by
    rw [List.append_assoc]
    exact cal.values_quote hblanks rest
  rw [hsplit, items_append, hitem, values_append, hnone]
  cases cal.values (items (s ++ ['"'])) <;> rfl

theorem takeWhile_next_string {s blanks : Text} (hs : ']' ∉ s) (hblanks : ∀ c ∈ blanks, isBlank c = true) (more : Text) :
    (s ++ '"' :: ',' :: (blanks ++ '"' :: more)).takeWhile (fun c => decide (c ≠ ']')) =
      s ++ '"' :: ',' :: (blanks ++ '"' :: more.takeWhile fun c => decide (c ≠ ']')) := by
  have hclose : ∀ x ∈ s ++ '"' :: ',' :: (blanks ++ ['"']), decide (x ≠ ']') = true := by
    have hblank : ']' ∉ blanks := fun hmem => absurd (hblanks _ hmem) (by decide)
    exact forall_ne_of_not_mem (by simp [hs, hblank])
  have hsplit : ∀ t, s ++ '"' :: ',' :: (blanks ++ '"' :: t) = (s ++ '"' :: ',' :: (blanks ++ ['"'])) ++ t := by
    simp
  rw [hsplit more, List.takeWhile_append_of_pos hclose]
  exact (hsplit _).symm

/-- Of a string with a bracket, followed by a quote, a comma and another quote, the rest of the text does not matter. -/
theorem loadFromFile_string {s blanks : Text} (hs : ¬NoBracket s) (hblanks : ∀ c ∈ blanks, isBlank c = true)
    (more : Text) :
    cal.loadFromFile (some (s ++ '"' :: ',' :: (blanks ++ '"' :: more))) = cal.loadFromFile (some s) := by
  obtain ⟨a, c, b, rfl, ha, hc⟩ := split_bracket hs
  rw [List.append_assoc, cal.loadFromFile_skip ha, cal.loadFromFile_skip ha]
  unfold loadFromFile
  rw [Option.bind_some, Option.bind_some]
  rcases hc with rfl | rfl
  · rw [List.cons_append, segment_open, segment_open]
    by_cases hb : ']' ∈ b
    · rw [if_pos hb, if_pos (List.mem_append_left _ hb), takeWhile_append_of_mem hb]
    · rw [if_neg hb]
      split
      · rw [Option.bind_some, takeWhile_next_string hb hblanks, cal.values_next_string hblanks]
        rfl
      · rfl
  · rw [List.cons_append, segment_close, segment_close]

end Calibrator

/-! ## What the wizard writes -/

theorem mapM_option_cons {α β : Type} (f : α → Option β) (a : α) (l : List α) :
    (a :: l).mapM f = (f a).bind fun v => (l.mapM f).map fun vs => v :: vs := by
  rw [List.mapM_cons]
  cases f a with
  | none => rfl
  | some v => cases l.mapM f <;> rfl

/-- No comma, bracket or blank. -/
theorem NumberText.plain {t : Text} (h : NumberText t) {c : Char} (hc : c ∈ t) :
    c ≠ ',' ∧ isBlank c = false ∧ isBracket c = false := by
  have hnumber := forall_of_all h.2 c hc
  refine ⟨?_, decide_eq_false (not_mem_of_any (by decide) hnumber), decide_eq_false (not_mem_of_any (by decide) hnumber)⟩
  rintro rfl
  exact absurd hnumber (by decide)

theorem trim_exact {pre t post : Text} (hpre : ∀ c ∈ pre, isBlank c = true) (hpost : ∀ c ∈ post, isBlank c = true)
    (hne : t ≠ []) (ht : ∀ c ∈ t, isBlank c = false) : trim (pre ++ (t ++ post)) = t := by
  have hfront : (pre ++ (t ++ post)).dropWhile isBlank = t ++ post := by
    apply dropWhile_run hpre
    intro c r hr
    rcases t with _ | ⟨d, t⟩
    · exact absurd rfl hne
    · cases hr
      exact ht c List.mem_cons_self
  have hback : (post.reverse ++ t.reverse).dropWhile isBlank = t.reverse := by
    apply dropWhile_run
    · intro c hc
      exact hpost c (List.mem_reverse.mp hc)
    · intro c r hr
      apply ht
      rw [← List.mem_reverse, hr]
      exact List.mem_cons_self
  rw [trim, hfront, List.reverse_append, hback, List.reverse_reverse]

theorem preamble_noBracket : NoBracket preamble := by decide +kernel

theorem joinNumbers_noBracket {numbers : List Text} (h : ∀ t ∈ numbers, NumberText t) : NoBracket (joinNumbers numbers) := by
  induction numbers with
  | nil =>
    intro c hc
    cases hc
  | cons t ts ih =>
    have ht : NoBracket t := fun c hc => ((h t List.mem_cons_self).plain hc).2.2
    have hrest := ih fun t ht => h t (List.mem_cons_of_mem _ ht)
    rcases ts with _ | ⟨t', ts⟩
    · exact ht
    · have hsep : NoBracket ",\n        ".toList := by decide
      exact (ht.append hsep).append hrest

namespace Calibrator
variable {F : Type} (cal : Calibrator F)

theorem values_word {pre t post : Text} (hne : t ≠ []) (ht : ∀ c ∈ t, isBlank c = false)
    (hpre : ∀ c ∈ pre, isBlank c = true) (hpost : ∀ c ∈ post, isBlank c = true) :
    cal.values [pre ++ (t ++ post)] = (cal.stof t).map fun v => [v] := by
  have hnot : (pre ++ (t ++ post)).all isBlank = false := by
    obtain ⟨c, r, hcons⟩ := List.exists_cons_of_ne_nil hne
    apply Bool.eq_false_iff.mpr
    intro hall
    have hc := List.all_eq_true.mp hall c (by simp [hcons])
    rw [ht c (by simp [hcons])] at hc
    cases hc
  rw [values, if_neg (by rw [hnot]; decide), trim_exact hpre hpost hne ht]
  cases cal.stof t <;> rfl

theorem values_number {pre t post : Text} (ht : NumberText t) (hpre : ∀ c ∈ pre, isBlank c = true)
    (hpost : ∀ c ∈ post, isBlank c = true) :
    cal.values [pre ++ (t ++ post)] = (cal.stof t).map fun v => [v] :=
  cal.values_word ht.1 (fun _ hc => (ht.plain hc).2.1) hpre hpost

/-- The items of a list of numbers, with blanks on both sides. -/
theorem values_joinNumbers {numbers : List Text} (hnumbers : ∀ t ∈ numbers, NumberText t) (hne : numbers ≠ [])
    {pre post : Text} (hpre : ∀ c ∈ pre, isBlank c = true) (hpost : ∀ c ∈ post, isBlank c = true) :
    cal.values (items (pre ++ (joinNumbers numbers ++ post))) = numbers.mapM cal.stof := by
  have hcomma : ∀ {s : Text}, (∀ c ∈ s, isBlank c = true) → ',' ∉ s := by
    intro s hs hmem
    exact absurd (hs _ hmem) (by decide)
  induction numbers generalizing pre with
  | nil => exact absurd rfl hne
  | cons t ts ih =>
    have ht := hnumbers t List.mem_cons_self
    have htcomma : ',' ∉ t := fun hmem => (ht.plain hmem).1 rfl
    rcases ts with _ | ⟨t', ts⟩
    · have hplain : ',' ∉ pre ++ (t ++ post) := by
        simp [hcomma hpre, hcomma hpost, htcomma]
      show cal.values (items (pre ++ (t ++ post))) = _
      rw [items_of_noComma hplain, cal.values_number ht hpre hpost, mapM_option_cons, List.mapM_nil]
      cases cal.stof t <;> rfl
    · have hsep : ∀ c ∈ "\n        ".toList, isBlank c = true := forall_of_all (by decide)
      have hsplit : pre ++ (joinNumbers (t :: t' :: ts) ++ post) =
          (pre ++ (t ++ [])) ++ ',' :: ("\n        ".toList ++ (joinNumbers (t' :: ts) ++ post)) := by
        show pre ++ ((t ++ ',' :: "\n        ".toList ++ joinNumbers (t' :: ts)) ++ post) = _
        simp only [List.append_assoc, List.cons_append, List.append_nil]
      have hplain : ',' ∉ pre ++ (t ++ []) := by
        simp [hcomma hpre, htcomma]
      rw [hsplit, items_append, values_append, items_of_noComma hplain, cal.values_number ht hpre (by simp),
        ih (fun t ht => hnumbers t (List.mem_cons_of_mem _ ht)) (by simp) hsep, mapM_option_cons cal.stof t]
      cases cal.stof t <;> rfl

/-- The calibrator loads the numbers that the wizard has written. -/
theorem loadFromFile_generateConfig {numbers : List Text} (hnumbers : ∀ t ∈ numbers, NumberText t) (hne : numbers ≠ []) :
    cal.loadFromFile (some (generateConfig numbers)) = (numbers.mapM cal.stof).bind cal.loadFromVector := by
  have hbefore : ∀ x ∈ "\n        ".toList ++ joinNumbers numbers ++ "\n    ".toList, decide (x ≠ ']') = true := by
    have hfront : NoBracket "\n        ".toList := by decide
    have hback : NoBracket "\n    ".toList := by decide
    exact forall_ne_of_not_mem ((hfront.append (joinNumbers_noBracket hnumbers)).append hback).no_close
  unfold generateConfig
  rw [cal.loadFromFile_skip preamble_noBracket, loadFromFile, Option.bind_some, segment_open, if_pos (by simp),
    List.takeWhile_append_of_pos hbefore, List.takeWhile_cons_of_neg (by decide), List.append_nil, Option.bind_some,
    List.append_assoc, cal.values_joinNumbers hnumbers hne (forall_of_all (by decide)) (forall_of_all (by decide))]

end Calibrator

end IbarraGateway.GemaVision
