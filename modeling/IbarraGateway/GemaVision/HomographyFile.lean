import IbarraGateway.GemaVision.Projection
import IbarraGateway.Lib.JsonReading

/-!
# Which homography a file gives

`load_from_file` looks for brackets, wherever they stand; a reader of JSON would look for the member.

* `segment_eq_some_iff`, `values_eq_some_iff` : what the loader takes of a text.
* `Calibrator.values_array` : in an array of numbers it finds these numbers.
* `loadFromFile_homography_iff` : when it loads the numbers of the member.
-/

namespace IbarraGateway.GemaVision

open JsonText TextSearch

def homographyKey : Units := units "homography".toList

/-- `pre` ends where the value of a member `homography` begins, with the members `ms` before it. -/
def InFront (pre : Text) (ms : List (Units × Value)) : Prop :=
  ∃ ts, lexer.run .between pre = some (.between, ts) ∧
    ts.foldlM parseStep ⟨.value, []⟩ = some ⟨.value, [.obj ms homographyKey]⟩

/-- What stands between the commas is read as the numbers; blanks alone are passed over. -/
def Calibrator.Spells {F : Type} (cal : Calibrator F) (body : Text) (h : List F) : Prop :=
  List.Forall₂ (fun item v => cal.stof (trim item) = some v) ((items body).filter fun item => !item.all isBlank) h

/-- The first bracket is a `[` in front of the homography, and up to the next `]` the text spells the same numbers. -/
def Calibrator.SpelledBefore {F : Type} (cal : Calibrator F) (pre rest : Text) (h : List F) : Prop :=
  ∃ front mid body back, pre = front ++ '[' :: mid ∧ NoBracket front ∧ mid ++ '[' :: rest = body ++ ']' :: back ∧
    ']' ∉ body ∧ cal.Spells body h

/-! ## What the loader takes -/

theorem segment_of_noBracket {content : Text} (h : NoBracket content) : segment content = none := by
  have hskip := segment_skip h []
  rw [List.append_nil] at hskip
  exact hskip

theorem segment_eq_some_iff {content seg : Text} :
    segment content = some seg ↔
      ∃ front back, content = front ++ '[' :: (seg ++ ']' :: back) ∧ NoBracket front ∧ ']' ∉ seg := by
  constructor
  · intro h
    have hnot : ¬NoBracket content := by
      intro hnone
      rw [segment_of_noBracket hnone] at h
      cases h
    obtain ⟨front, c, b, rfl, hfront, rfl | rfl⟩ := split_bracket hnot
    · rw [segment_skip hfront, segment_open] at h
      split at h
      · rename_i hclose
        obtain ⟨body, back, rfl, hbody⟩ := List.eq_append_cons_of_mem hclose
        rw [List.takeWhile_append_of_pos (forall_ne_of_not_mem hbody), List.takeWhile_cons_of_neg (by decide),
          List.append_nil] at h
        cases h
        exact ⟨front, back, rfl, hfront, hbody⟩
      · cases h
    · rw [segment_skip hfront, segment_close] at h
      cases h
  · rintro ⟨front, back, rfl, hfront, hseg⟩
    rw [segment_skip hfront, segment_open, if_pos (by simp), List.takeWhile_append_of_pos (forall_ne_of_not_mem hseg),
      List.takeWhile_cons_of_neg (by decide), List.append_nil]

namespace Calibrator
variable {F : Type} (cal : Calibrator F)

theorem values_eq_some_iff {l : List Text} {h : List F} :
    cal.values l = some h ↔
      List.Forall₂ (fun item v => cal.stof (trim item) = some v) (l.filter fun item => !item.all isBlank) h := by
  induction l generalizing h with
  | nil => simp [values, eq_comm]
  | cons item l ih =>
    rw [values]
    by_cases hblank : item.all isBlank = true
    · rw [if_pos hblank, List.filter_cons_of_neg (by simpa using hblank)]
      exact ih
    · rw [if_neg hblank, List.filter_cons_of_pos (by simpa using hblank), List.forall₂_cons_left_iff]
      cases hv : cal.stof (trim item) with
      | none => simp
      | some v =>
        rw [Option.map_eq_some_iff]
        constructor
        · rintro ⟨vs, hvs, rfl⟩
          exact ⟨v, vs, rfl, ih.mp hvs, rfl⟩
        · rintro ⟨v', vs, hv', hvs, rfl⟩
          cases hv'
          exact ⟨vs, ih.mpr hvs, rfl⟩

theorem loadFromVector_eq_some_iff {values h : List F} :
    cal.loadFromVector values = some h ↔ values = h ∧ h.length = 9 ∧ cal.regular h = true := by
  unfold loadFromVector
  split
  · rename_i hlength
    simp only [reduceCtorEq, false_iff]
    rintro ⟨rfl, hnine, -⟩
    exact hlength hnine
  · rename_i hlength
    rw [Decidable.not_not] at hlength
    split
    · rename_i hregular
      rw [Option.some.injEq]
      constructor
      · rintro rfl
        exact ⟨rfl, hlength, hregular⟩
      · exact And.left
    · rename_i hregular
      simp only [reduceCtorEq, false_iff]
      rintro ⟨rfl, -, hr⟩
      exact hregular hr

/-- What is loaded stands behind the first bracket, which is a `[`, up to the next `]`. -/
theorem loadFromFile_eq_some_iff {content : Text} {h : List F} :
    cal.loadFromFile (some content) = some h ↔ h.length = 9 ∧ cal.regular h = true ∧
      ∃ front body back, content = front ++ '[' :: (body ++ ']' :: back) ∧ NoBracket front ∧ ']' ∉ body ∧ cal.Spells body h := by
  rw [loadFromFile, Option.bind_some, Option.bind_eq_some_iff]
  constructor
  · rintro ⟨body, hseg, hvalues⟩
    obtain ⟨front, back, hcontent, hfront, hbody⟩ := segment_eq_some_iff.mp hseg
    obtain ⟨values, hread, hvector⟩ := Option.bind_eq_some_iff.mp hvalues
    obtain ⟨rfl, hnine, hregular⟩ := cal.loadFromVector_eq_some_iff.mp hvector
    exact ⟨hnine, hregular, front, body, back, hcontent, hfront, hbody, cal.values_eq_some_iff.mp hread⟩
  · rintro ⟨hnine, hregular, front, body, back, hcontent, hfront, hbody, hspells⟩
    refine ⟨body, segment_eq_some_iff.mpr ⟨front, back, hcontent, hfront, hbody⟩, ?_⟩
    rw [cal.values_eq_some_iff.mpr hspells, Option.bind_some]
    exact cal.loadFromVector_eq_some_iff.mpr ⟨rfl, hnine, hregular⟩

/-! ## The array of the member -/

section Characters
variable {s : Text}

theorem isBlank_of_isSpace (h : ∀ c ∈ s, JsonText.isSpace c = true) : ∀ c ∈ s, isBlank c = true := by
  intro c hc
  have hspace := h c hc
  simp only [JsonText.isSpace, Bool.or_eq_true, decide_eq_true_eq] at hspace
  rcases hspace with ((rfl | rfl) | rfl) | rfl <;> decide

theorem isBlank_of_word (h : ∀ c ∈ s, isDelimiter c = false) : ∀ c ∈ s, isBlank c = false := by
  intro c hc
  have hblanks : ∀ b ∈ [' ', '\t', '\r', '\n'], isDelimiter b = true := forall_of_all (by decide)
  apply decide_eq_false
  intro hmem
  have hnot := h c hc
  rw [hblanks c hmem] at hnot
  cases hnot

/-- Neither spaces nor words have marks. -/
theorem not_mem_spaces {c : Char} (hc : JsonText.isSpace c = false) (h : ∀ c ∈ s, JsonText.isSpace c = true) : c ∉ s := by
  intro hmem
  rw [h c hmem] at hc
  cases hc

theorem not_mem_word {c : Char} (hc : isDelimiter c = true) (h : ∀ c ∈ s, isDelimiter c = false) : c ∉ s := by
  intro hmem
  rw [h c hmem] at hc
  cases hc

end Characters

section Array
variable {nearest : ℚ → Option F} (hstof : ∀ w q, Numeral.readNumber w = some q → cal.stof w = nearest q)
include hstof

/-- A number and the mark behind it. -/
theorem values_item {q : ℚ} {t : JsonText.Token} (ht : t.isMark = true) {text : Text} {ts : List JsonText.Token}
    (h : lexFrom .between text = some (.num q :: t :: ts)) :
    ∃ item back, text = item ++ t.char :: back ∧ ']' ∉ item ∧ items item = [item] ∧
      cal.values [item] = (nearest q).map (fun v => [v]) ∧ lexFrom .between back = some ts := by
  obtain ⟨before, w, b, hbefore, rfl, hne, hw, hread, hb⟩ := lexFrom_number h
  obtain ⟨behind, c, back, hbehind, rfl, hc, hback⟩ := lexFrom_mark ht hb
  cases char_of_punctuation hc
  have hplain : ∀ m, JsonText.isSpace m = false → isDelimiter m = true → m ∉ before ++ (w ++ behind) := by
    intro m hspace hdelimiter
    simp [not_mem_spaces hspace hbefore, not_mem_spaces hspace hbehind, not_mem_word hdelimiter hw]
  refine ⟨before ++ (w ++ behind), back, by simp, hplain ']' rfl rfl, items_of_noComma (hplain ',' rfl rfl), ?_, hback⟩
  rw [cal.values_word hne (isBlank_of_word hw) (isBlank_of_isSpace hbefore) (isBlank_of_isSpace hbehind), hstof w q hread]

/-- Numbers in brackets, as JSON has them, are what the loader reads up to the closing bracket. -/
theorem values_array {q : ℚ} {qs : List ℚ} {text : Text} {ts : List JsonText.Token}
    (h : lexFrom .between text = some (.num q :: (itemTokens (qs.map .num) ++ ts))) :
    ∃ body back, text = body ++ ']' :: back ∧ ']' ∉ body ∧ cal.values (items body) = (q :: qs).mapM nearest := by
  induction qs generalizing q text with
  | nil =>
    obtain ⟨item, back, rfl, hclose, hitems, hvalues, -⟩ := cal.values_item hstof rfl h
    refine ⟨item, back, rfl, hclose, ?_⟩
    rw [hitems, hvalues, mapM_option_cons, List.mapM_nil]
    cases nearest q <;> rfl
  | cons q' qs ih =>
    obtain ⟨item, rest, rfl, hclose, hitems, hvalues, hrest⟩ := cal.values_item hstof rfl h
    obtain ⟨body, back, rfl, hbody, hread⟩ := ih hrest
    refine ⟨item ++ ',' :: body, back, by simp [JsonText.Token.char], by simp [hclose, hbody], ?_⟩
    rw [items_append, values_append, hitems, hvalues, hread, mapM_option_cons nearest q]
    cases nearest q <;> rfl

end Array

end Calibrator

/-! ## The file -/

section File
variable {content : Text} {ms after : List (Units × Value)} {v : Value}

theorem frame_tokens : ParseState.tokens ⟨.value, [.obj ms homographyKey]⟩ = Frame.tokens (.obj ms homographyKey) := by
  simp [ParseState.tokens, stackTokens, Mode.tokens]

/-- Behind `pre` stands the member's value. -/
theorem InFront.value {pre rest : Text} (hpre : InFront pre ms) (hcontent : content = pre ++ rest)
    (hreads : parseText content = some (.obj (ms ++ (homographyKey, v) :: after))) :
    lexFrom .between rest = some (tokens v ++ memberTokens after) := by
  obtain ⟨ts, hrun, hparse⟩ := hpre
  obtain ⟨all, hlex, hall⟩ := Option.bind_eq_some_iff.mp hreads
  have hts := parse_run_tokens hparse
  rw [frame_tokens] at hts
  rw [parse_eq_some_iff, tokens_obj, hts] at hall
  rw [hcontent, lex, lexFrom_append, hrun, Option.bind_some] at hlex
  obtain ⟨ts', hrest, heq⟩ := Option.map_eq_some_iff.mp hlex
  rw [hall] at heq
  rw [hrest, List.append_cancel_left heq]

/-- There is such a place. -/
theorem exists_inFront {items : List Value}
    (hreads : parseText content = some (.obj (ms ++ (homographyKey, .arr items) :: after))) :
    ∃ pre rest, content = pre ++ '[' :: rest ∧ InFront pre ms := by
  obtain ⟨all, hlex, hall⟩ := Option.bind_eq_some_iff.mp hreads
  have hbefore : Frame.tokens (.obj ms homographyKey) =
      .lbrace :: (openMembers ms ++ [.str homographyKey]) ++ [.colon] := by simp [Frame.tokens]
  have hvalue : ∃ ts, tokens (.arr items) = .lbracket :: ts := by
    cases items with
    | nil => exact ⟨_, rfl⟩
    | cons v items => exact ⟨_, rfl⟩
  obtain ⟨ts, hts⟩ := hvalue
  rw [parse_eq_some_iff, tokens_obj, hbefore, hts, List.append_assoc] at hall
  rw [hall] at hlex
  obtain ⟨a, c, b, rfl, hc, hrun, hb⟩ := split_mark rfl hlex
  obtain ⟨blanks, c', rest, hblanks, rfl, hc', -⟩ := lexFrom_mark rfl hb
  cases char_of_punctuation hc'
  refine ⟨a ++ c :: blanks, rest, by simp [JsonText.Token.char], Frame.tokens (.obj ms homographyKey), ?_, parse_obj_frame _ _ _⟩
  have hall := lexer.run_append_iff.mpr ⟨_, _, _, hrun, run_spaces hblanks, rfl⟩
  rw [List.append_assoc, List.append_nil, ← hbefore] at hall
  exact hall

end File

/-- A text has one first bracket. -/
theorem first_bracket {a b x y : Text} {c d : Char} (ha : NoBracket a) (hb : NoBracket b) (hc : isBracket c = true)
    (hd : isBracket d = true) (h : a ++ c :: x = b ++ d :: y) : a = b ∧ c = d ∧ x = y := by
  induction a generalizing b with
  | nil =>
    cases b with
    | nil => exact ⟨rfl, List.cons.inj h⟩
    | cons e b =>
      rw [(List.cons.inj h).1, hb e List.mem_cons_self] at hc
      cases hc
  | cons e a ih =>
    cases b with
    | nil =>
      rw [← (List.cons.inj h).1, ha e List.mem_cons_self] at hd
      cases hd
    | cons e' b =>
      obtain ⟨rfl, htail⟩ := List.cons.inj h
      obtain ⟨rfl, hrest⟩ := ih (fun c hc => ha c (List.mem_cons_of_mem _ hc)) (fun c hc => hb c (List.mem_cons_of_mem _ hc)) htail
      exact ⟨rfl, hrest⟩

namespace CalibratorState
variable {F : Type} (cal : Calibrator F)

theorem loadFromFile_eq_iff (s : CalibratorState F) {file : Option Text} {h : List F} :
    s.loadFromFile cal file = (true, { h, calibrated := true }) ↔ cal.loadFromFile file = some h := by
  rw [s.loadFromFile_eq cal]
  cases cal.loadFromFile file <;> simp

/-- A load that fails leaves the calibrator as it was. -/
theorem loadFromFile_failed {s : CalibratorState F} {file : Option Text} (h : (s.loadFromFile cal file).1 = false) :
    (s.loadFromFile cal file).2 = s := by
  rw [s.loadFromFile_eq cal] at h ⊢
  cases hload : cal.loadFromFile file with
  | none => rfl
  | some h' =>
    rw [hload] at h
    cases h

variable {nearest : ℚ → Option F}

theorem length_mapM {α : Type} {f : α → Option F} {l : List α} {h : List F} (hmap : l.mapM f = some h) : h.length = l.length := by
  induction l generalizing h with
  | nil =>
    cases hmap
    rfl
  | cons a l ih =>
    rw [mapM_option_cons] at hmap
    obtain ⟨v, -, hrest⟩ := Option.bind_eq_some_iff.mp hmap
    obtain ⟨vs, hvs, rfl⟩ := Option.map_eq_some_iff.mp hrest
    rw [List.length_cons, List.length_cons, ih hvs]

section Member
variable {content : Text} {ms after : List (Units × Value)} {numbers : List ℚ} {pre rest : Text}

/-- With no bracket in front of it, the array is what stands behind the first bracket. -/
theorem spells_array (hstof : ∀ w q, Numeral.readNumber w = some q → cal.stof w = nearest q)
    (hreads : parseText content = some (.obj (ms ++ (homographyKey, .arr (numbers.map .num)) :: after)))
    (hcontent : content = pre ++ '[' :: rest) (hpre : InFront pre ms) (hne : numbers ≠ []) {h : List F}
    (hnumbers : numbers.mapM nearest = some h) :
    ∃ body back, rest = body ++ ']' :: back ∧ ']' ∉ body ∧ cal.Spells body h := by
  obtain ⟨q, qs, rfl⟩ := List.exists_cons_of_ne_nil hne
  have harray := hpre.value hcontent hreads
  rw [lexFrom_cons (show lexStep .between '[' = some (.between, [.lbracket]) from rfl)] at harray
  obtain ⟨ts, hts, heq⟩ := Option.map_eq_some_iff.mp harray
  have htail : ts = .num q :: (itemTokens (qs.map .num) ++ memberTokens after) := List.append_cancel_left heq
  rw [htail] at hts
  obtain ⟨body, back, hrest, hbody, hvalues⟩ := cal.values_array hstof hts
  rw [hnumbers] at hvalues
  exact ⟨body, back, hrest, hbody, cal.values_eq_some_iff.mp hvalues⟩

/-- The first bracket is the array's own, or it is a bracket in front of it. -/
theorem first_bracket_iff (hcontent : content = pre ++ '[' :: rest) {h : List F} :
    (∃ front body back, content = front ++ '[' :: (body ++ ']' :: back) ∧ NoBracket front ∧ ']' ∉ body ∧ cal.Spells body h) ↔
      (NoBracket pre ∧ ∃ body back, rest = body ++ ']' :: back ∧ ']' ∉ body ∧ cal.Spells body h) ∨
        cal.SpelledBefore pre rest h := by
  constructor
  · rintro ⟨front, body, back, hfirst, hfront, hbody, hspells⟩
    by_cases hnone : NoBracket pre
    · obtain ⟨rfl, -, hrest⟩ := first_bracket hnone hfront rfl rfl (hcontent.symm.trans hfirst)
      exact .inl ⟨hnone, body, back, hrest, hbody, hspells⟩
    · obtain ⟨front', c, mid, rfl, hfront', hc⟩ := split_bracket hnone
      have hbracket : isBracket c = true := by
        rcases hc with rfl | rfl <;> rfl
      rw [hcontent, List.append_assoc] at hfirst
      obtain ⟨rfl, rfl, hmid⟩ := first_bracket hfront' hfront hbracket rfl hfirst
      exact .inr ⟨front', mid, body, back, rfl, hfront', hmid, hbody, hspells⟩
  · rintro (⟨hnone, body, back, rfl, hbody, hspells⟩ | ⟨front, mid, body, back, rfl, hfront, hmid, hbody, hspells⟩)
    · exact ⟨pre, body, back, hcontent, hnone, hbody, hspells⟩
    · refine ⟨front, body, back, ?_, hfront, hbody, hspells⟩
      rw [hcontent, List.append_assoc, List.cons_append, hmid]

/-- A file whose member `homography` is an array of nine numbers: they are loaded exactly when each has a `float`, these make a
regular matrix, and no bracket stands in front of the array, or what stands behind the first one spells the same numbers.
Whenever a load fails, the calibrator stays as it was. -/
theorem loadFromFile_homography_iff (hstof : ∀ w q, Numeral.readNumber w = some q → cal.stof w = nearest q)
    (hreads : parseText content = some (.obj (ms ++ (homographyKey, .arr (numbers.map .num)) :: after)))
    (hnine : numbers.length = 9) :
    (∃ pre rest, content = pre ++ '[' :: rest ∧ InFront pre ms) ∧
    (∀ pre rest, content = pre ++ '[' :: rest → InFront pre ms → ∀ s : CalibratorState F,
      (∃ h, numbers.mapM nearest = some h ∧ s.loadFromFile cal (some content) = (true, { h, calibrated := true })) ↔
        ∃ h, numbers.mapM nearest = some h ∧ cal.regular h = true ∧ (NoBracket pre ∨ cal.SpelledBefore pre rest h)) ∧
    ∀ (s : CalibratorState F) (file : Option Text), (s.loadFromFile cal file).1 = false → (s.loadFromFile cal file).2 = s := by
  refine ⟨exists_inFront hreads, fun pre rest hcontent hpre s => ?_, fun s file hfail => loadFromFile_failed cal hfail⟩
  refine exists_congr fun h => and_congr_right fun hnumbers => ?_
  rw [s.loadFromFile_eq_iff cal, cal.loadFromFile_eq_some_iff, and_iff_right ((length_mapM hnumbers).trans hnine),
    first_bracket_iff cal hcontent]
  have hne : numbers ≠ [] := by
    rintro rfl
    cases hnine
  have harray := spells_array cal hstof hreads hcontent hpre hne hnumbers
  rw [and_iff_left harray]

end Member

/-! ## A file -/

/-- A calibrator without rounding. -/
def exact : Calibrator ℚ where
  stof := Numeral.readNumber
  regular h := 1 / 10 ^ 9 ≤ |h.getD 0 0 * (h.getD 4 0 * h.getD 8 0 - h.getD 5 0 * h.getD 7 0) -
    h.getD 1 0 * (h.getD 3 0 * h.getD 8 0 - h.getD 5 0 * h.getD 6 0) +
    h.getD 2 0 * (h.getD 3 0 * h.getD 7 0 - h.getD 4 0 * h.getD 6 0)|
  stof_quote _ := rfl

def identity : List ℚ := [1, 0, 0, 0, 1, 0, 0, 0, 1]

/-- The identity, with other members in front. -/
def fileText (members : String) : Text :=
  "\x7b".toList ++ members.toList ++ "\"homography\": [1, 0, 0, 0, 1, 0, 0, 0, 1]\x7d".toList

theorem fileText_reads {members : String} {ms : List (Units × Value)}
    (h : lex (fileText members) = some (tokens (.obj (ms ++ [(homographyKey, .arr (identity.map .num))])))) :
    parseText (fileText members) = some (.obj (ms ++ [(homographyKey, .arr (identity.map .num))])) := by
  rw [parseText, h, Option.bind_some, parse_tokens]

theorem loadFromFile_alone :
    ({} : CalibratorState ℚ).loadFromFile exact (some (fileText "")) = (true, { h := identity, calibrated := true }) := by
  have hreads : parseText (fileText "") = some (.obj ([] ++ [(homographyKey, .arr (identity.map .num))])) :=
    fileText_reads (by decide +kernel)
  have hpre : InFront "\x7b\"homography\": ".toList [] := ⟨[.lbrace, .str homographyKey, .colon], rfl, rfl⟩
  obtain ⟨h, hh, hload⟩ := ((loadFromFile_homography_iff exact (fun _ _ hw => hw) hreads rfl).2.1 _ _ rfl hpre {}).mpr
    ⟨identity, rfl, by decide +kernel, .inl (by decide)⟩
  cases hh
  exact hload

/-- Another array in front of it: its two numbers are read, and the load fails. -/
theorem loadFromFile_roi :
    parseText (fileText "\"roi\": [4, 2], ") = some (.obj ([(units "roi".toList, .arr [.num 4, .num 2])] ++
      [(homographyKey, .arr (identity.map .num))])) ∧
    identity.length = 9 ∧ exact.regular identity = true ∧
    ({} : CalibratorState ℚ).loadFromFile exact (some (fileText "\"roi\": [4, 2], ")) = (false, {}) :=
  ⟨fileText_reads (by decide +kernel), rfl, by decide +kernel, by decide +kernel⟩

end CalibratorState

end IbarraGateway.GemaVision
