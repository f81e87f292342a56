import Mathlib.Data.List.DropRight

/-!
# Columns of a line

Words with runs of blanks between them, and the usual way to take them apart: every run becomes one space, the ends are trimmed,
and the line is split at its spaces.

* `trim_frame` : what trimming leaves.
* `columns_of_row` : a row is taken apart into its columns, whatever the blanks between them and behind them.
-/

namespace IbarraGateway.Columns

variable {α : Type} (blank : α → Bool)

def trim (s : List α) : List α := (s.dropWhile blank).rdropWhile blank

/-- Every run of blanks as one `space`. -/
def collapse (space : α) : List α → List α
  | [] => []
  | c :: s =>
    if blank c then (if s.head?.any blank then collapse space s else space :: collapse space s) else c :: collapse space s

def Blanks (s : List α) : Prop := ∀ c ∈ s, blank c = true

/-- A text that neither begins nor ends with a blank. -/
def Framed (s : List α) : Prop :=
  (∃ c rest, s = c :: rest ∧ blank c = false) ∧ ∃ front c, s = front ++ [c] ∧ blank c = false

structure Word (w : List α) : Prop where
  ne : w ≠ []
  solid : ∀ c ∈ w, blank c = false

structure Gap (g : List α) : Prop where
  ne : g ≠ []
  blanks : Blanks blank g

/-- The first column, and the others with what stands in front of them. -/
def rowText (first : List α) (others : List (List α × List α)) : List α := first ++ others.flatMap fun x => x.1 ++ x.2

def columns (first : List α) (others : List (List α × List α)) : List (List α) := first :: others.map Prod.snd

structure IsRow (first : List α) (others : List (List α × List α)) : Prop where
  first : Word blank first
  others : ∀ x ∈ others, Gap blank x.1 ∧ Word blank x.2

variable {blank} {space : α} {first w g lead s tail rest : List α} {others : List (List α × List α)}

theorem Word.framed (h : Word blank w) : Framed blank w := by
  refine ⟨?_, ?_⟩
  · obtain ⟨c, rest, rfl⟩ := List.exists_cons_of_ne_nil h.ne
    exact ⟨c, rest, rfl, h.solid c List.mem_cons_self⟩
  · obtain ⟨front, c, rfl⟩ := List.eq_nil_or_concat w |>.resolve_left h.ne
    exact ⟨front, c, List.concat_eq_append, h.solid c (by simp)⟩

/-- Whatever is framed by words at its ends. -/
theorem Framed.append {a b : List α} (ha : Framed blank a) (hb : Framed blank b) (between : List α) :
    Framed blank (a ++ (between ++ b)) := by
  obtain ⟨c, rest, rfl, hc⟩ := ha.1
  obtain ⟨front, d, rfl, hd⟩ := hb.2
  exact ⟨⟨c, rest ++ (between ++ (front ++ [d])), rfl, hc⟩, c :: rest ++ (between ++ front), d, by simp, hd⟩

theorem trim_frame (hlead : Blanks blank lead) (hs : Framed blank s) (htail : Blanks blank tail) :
    trim blank (lead ++ (s ++ tail)) = s := by
  have hdrop : (lead ++ (s ++ tail)).dropWhile blank = s ++ tail := by
    obtain ⟨c, rest, rfl, hc⟩ := hs.1
    rw [List.dropWhile_append_of_pos hlead, List.cons_append, List.dropWhile_cons_of_neg (by simp [hc])]
  obtain ⟨front, c, rfl, hc⟩ := hs.2
  rw [trim, hdrop, List.rdropWhile, List.reverse_append, List.dropWhile_append_of_pos fun x hx => htail x (List.mem_reverse.mp hx),
    List.reverse_append, List.reverse_singleton, List.singleton_append, List.dropWhile_cons_of_neg (by simp [hc]),
    List.reverse_cons, List.reverse_reverse]

theorem collapse_word (hw : ∀ c ∈ w, blank c = false) (rest : List α) :
    collapse blank space (w ++ rest) = w ++ collapse blank space rest := by
  induction w with
  | nil => rfl
  | cons c w ih =>
    obtain ⟨hc, hw⟩ := List.forall_mem_cons.mp hw
    rw [List.cons_append, collapse, if_neg (by simp [hc]), ih hw, List.cons_append]

theorem collapse_gap (hg : Gap blank g) (hrest : rest.head?.any blank = false) :
    collapse blank space (g ++ rest) = space :: collapse blank space rest := by
  obtain ⟨hne, hblanks⟩ := hg
  induction g with
  | nil => exact absurd rfl hne
  | cons c g ih =>
    obtain ⟨hc, hg⟩ := List.forall_mem_cons.mp hblanks
    rw [List.cons_append, collapse, if_pos hc]
    cases g with
    | nil => rw [List.nil_append, if_neg (by simp [hrest])]
    | cons d g =>
      have hd : ((d :: g ++ rest).head?.any blank) = true := hg d List.mem_cons_self
      rw [if_pos hd, ih (List.cons_ne_nil _ _) hg]

/-- What is left of the blanks behind a row. -/
theorem blanks_collapse (hspace : blank space = true) (htail : Blanks blank tail) : Blanks blank (collapse blank space tail) := by
  rcases eq_or_ne tail [] with rfl | hne
  · exact htail
  · have hcollapse : collapse blank space (tail ++ []) = space :: collapse blank space [] := collapse_gap ⟨hne, htail⟩ rfl
    rw [List.append_nil] at hcollapse
    rw [hcollapse]
    exact List.forall_mem_singleton.mpr hspace

theorem IsRow.framed (h : IsRow blank first others) : Framed blank (rowText first others) := by
  obtain ⟨hfirst, hothers⟩ := h
  induction others generalizing first with
  | nil =>
    rw [rowText, List.flatMap_nil, List.append_nil]
    exact hfirst.framed
  | cons x others ih =>
    obtain ⟨⟨hgap, hword⟩, hothers⟩ := List.forall_mem_cons.mp hothers
    have hrest := ih hword hothers
    have heq : rowText first (x :: others) = first ++ (x.1 ++ rowText x.2 others) := by
      simp [rowText, List.append_assoc]
    rw [heq]
    exact hfirst.framed.append hrest x.1

theorem collapse_row (h : IsRow blank first others) (tail : List α) :
    collapse blank space (rowText first others ++ tail) =
      [space].intercalate (columns first others) ++ collapse blank space tail := by
  obtain ⟨hfirst, hothers⟩ := h
  induction others generalizing first with
  | nil =>
    rw [rowText, List.flatMap_nil, List.append_nil, collapse_word hfirst.solid]
    simp [columns, List.intercalate]
  | cons x others ih =>
    obtain ⟨⟨hgap, hword⟩, hothers⟩ := List.forall_mem_cons.mp hothers
    have heq : rowText first (x :: others) ++ tail = first ++ (x.1 ++ (rowText x.2 others ++ tail)) := by
      simp [rowText, List.append_assoc]
    have hhead : (rowText x.2 others ++ tail).head?.any blank = false := by
      obtain ⟨c, rest, hcons⟩ := List.exists_cons_of_ne_nil hword.ne
      rw [rowText, hcons]
      exact hword.solid c (by rw [hcons]; exact List.mem_cons_self)
    rw [heq, collapse_word hfirst.solid, collapse_gap hgap hhead, ih hword hothers]
    simp [columns, List.intercalate]

/-- The columns with one space between them are a row as well. -/
theorem framed_intercalate (h : IsRow blank first others) (hspace : blank space = true) :
    Framed blank ([space].intercalate (columns first others)) := by
  have hgap : Gap blank [space] := ⟨List.cons_ne_nil _ _, List.forall_mem_singleton.mpr hspace⟩
  have hrow : IsRow blank first (others.map fun x => ([space], x.2)) :=
    ⟨h.first, List.forall_mem_map.mpr fun x hx => ⟨hgap, (h.others x hx).2⟩⟩
  have heq : [space].intercalate (columns first others) = rowText first (others.map fun x => ([space], x.2)) := by
    clear h hrow
    induction others generalizing first with
    | nil => simp [columns, rowText, List.intercalate]
    | cons x others ih =>
      have hrest := @ih x.2
      simp only [columns, rowText, List.intercalate, List.map_cons, List.flatMap_cons] at hrest ⊢
      simp [hrest]
  rw [heq]
  exact hrow.framed

/-- **A row is taken apart into its columns.** -/
theorem columns_of_row [DecidableEq α] (h : IsRow blank first others) (hspace : blank space = true) (htail : Blanks blank tail) :
    (trim blank (collapse blank space (rowText first others ++ tail))).splitOn space = columns first others := by
  have hnot : ∀ w ∈ columns first others, space ∉ w := by
    refine List.forall_mem_cons.mpr ⟨fun hmem => ?_, List.forall_mem_map.mpr fun x hx hmem => ?_⟩
    · have hsolid := h.first.solid space hmem
      simp [hspace] at hsolid
    · have hsolid := (h.others x hx).2.solid space hmem
      simp [hspace] at hsolid
  have htrim := trim_frame (show Blanks blank [] by simp [Blanks]) (framed_intercalate h hspace) (blanks_collapse hspace htail)
  rw [List.nil_append] at htrim
  rw [collapse_row h, htrim]
  exact List.splitOn_intercalate space hnot (List.cons_ne_nil _ _)

end IbarraGateway.Columns
