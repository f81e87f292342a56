import IbarraGateway.Training.DatasetGen
import IbarraGateway.Training.Train
import Mathlib

/-!
# Which labels can be learned

* `label_learnable_iff` : every label can be encoded; the network has timesteps enough for it exactly when the first line is
  the short one, the second line has a lot number of one or two digits, and few enough of the digits are doubled.
* `vence_too_long` : a label that needs more.
-/

namespace IbarraGateway.Training

/-! ## What is stated -/

/-- The label is encoded, and each index stands for its character. -/
def Encodable (label : List Char) : Prop :=
  ∃ indices, encodeLabel label = .ok indices ∧ indices.map (chars[·]?) = label.map some

/-- The two digits are the same. -/
def Doubled (k : Nat) : Prop := k / 10 = k % 10

instance (k : Nat) : Decidable (Doubled k) := inferInstanceAs (Decidable (_ = _))

/-- The draws whose labels fit into the timesteps. -/
def Fits (draw : Draw) : Prop :=
  draw.line1 = vSlash ∧ draw.line2 = loteNumber ∧
    (draw.lot < 10 ∧ ¬(Doubled draw.day ∧ Doubled draw.month) ∨
      10 ≤ draw.lot ∧ draw.lot < 100 ∧ ¬Doubled draw.day ∧ ¬Doubled draw.month ∧ ¬Doubled draw.lot)

/-! ## Digits -/

/-- Digits are no separators and no letters. -/
theorem digit_ne {c e : Char} (hc : c.isDigit = true) (he : e.isDigit = false) : c ≠ e := by
  rintro rfl
  rw [hc] at he
  cases he

theorem digitChar_inj {j k : Nat} (hj : j < 10) (hk : k < 10) : Nat.digitChar j = Nat.digitChar k ↔ j = k := by
  have hall : ∀ j < 10, ∀ k < 10, (Nat.digitChar j = Nat.digitChar k ↔ j = k) := by decide
  exact hall j hj k hk

theorem mem_chars_of_isDigit {c : Char} (hc : c.isDigit = true) : c ∈ chars := by
  have hall : ∀ k < 10, Char.ofNat (48 + k) ∈ chars := by decide
  simp only [Char.isDigit, Bool.and_eq_true, decide_eq_true_eq] at hc
  have hrange : 48 ≤ c.toNat ∧ c.toNat ≤ 57 := hc
  have hmem := hall (c.toNat - 48) (by omega)
  rwa [Nat.add_sub_cancel' hrange.1, Char.ofNat_toNat] at hmem

theorem pad_two {k : Nat} (hk : k < 100) : pad 2 k = [Nat.digitChar (k / 10), Nat.digitChar (k % 10)] := by
  by_cases hlt : k < 10
  · rw [pad, Nat.toDigits_of_lt_base hlt, Nat.div_eq_of_lt hlt, Nat.mod_eq_of_lt hlt]
    rfl
  · rw [pad, Nat.toDigits_of_base_le (by decide) (Nat.le_of_not_lt hlt), Nat.toDigits_of_lt_base (by omega)]
    rfl

/-- The adjacent pair of a number of two digits. -/
theorem repeats_pad {k : Nat} (hk : k < 100) : Ctc.repeats (pad 2 k) = if Doubled k then 1 else 0 := by
  rw [pad_two hk, Ctc.repeats]
  exact if_congr (digitChar_inj (by omega) (by omega)) rfl rfl

theorem toDigits_eq_pad {k : Nat} (hle : 10 ≤ k) (hk : k < 100) : Nat.toDigits 10 k = pad 2 k := by
  rw [pad_two hk, Nat.toDigits_of_base_le (by decide) hle, Nat.toDigits_of_lt_base (by omega)]
  rfl

theorem length_pad_two {k : Nat} (hk : k < 100) : (pad 2 k).length = 2 := by
  rw [pad_two hk]
  rfl

theorem le_length_toDigits {k : Nat} (hle : 100 ≤ k) : 3 ≤ (Nat.toDigits 10 k).length := by
  by_contra hlt
  have hpow := (Nat.length_toDigits_le_iff (b := 10) (k := 2) (n := k) (by decide) (by decide)).mp (by omega)
  omega

theorem isDigit_pad {width k : Nat} {c : Char} (hc : c ∈ pad width k) : c.isDigit = true := by
  rcases List.mem_append.mp hc with hzero | hdigit
  · rw [(List.mem_replicate.mp hzero).2]
    rfl
  · exact Nat.isDigit_of_mem_toDigits (by decide) (by decide) hdigit

theorem le_length_pad (width k : Nat) : width ≤ (pad width k).length := by
  rw [pad, List.length_append, List.length_replicate]
  omega

theorem pad_zero (k : Nat) : pad 0 k = Nat.toDigits 10 k := by
  rw [pad, Nat.zero_sub]
  rfl

/-! ## Words -/

/-- What stands between two colons of a label. -/
structure Word (w : List Char) : Prop where
  ne_nil : w ≠ []
  chars : ∀ c ∈ w, c ∈ chars ∧ c ≠ ':'

def joinColons : List (List Char) → List Char
  | [] => []
  | [w] => w
  | w :: w' :: ws => w ++ ':' :: joinColons (w' :: ws)

theorem Word.of_digits {w : List Char} (hne : w ≠ []) (h : ∀ c ∈ w, c.isDigit = true) : Word w :=
  ⟨hne, fun c hc => ⟨mem_chars_of_isDigit (h c hc), digit_ne (h c hc) rfl⟩⟩

theorem Word.append {w w' : List Char} (hw : Word w) (hw' : Word w') : Word (w ++ w') :=
  ⟨List.append_ne_nil_of_left_ne_nil hw.ne_nil _, fun c hc => (List.mem_append.mp hc).elim (hw.chars c) (hw'.chars c)⟩

theorem joinColons_append {ws ws' : List (List Char)} (hne : ws ≠ []) (hne' : ws' ≠ []) :
    joinColons (ws ++ ws') = joinColons ws ++ ':' :: joinColons ws' := by
  fun_induction joinColons ws with
  | case1 => exact absurd rfl hne
  | case2 w =>
    obtain ⟨w', ws', rfl⟩ := List.exists_cons_of_ne_nil hne'
    rfl
  | case3 w w' ws ih =>
    show w ++ ':' :: joinColons (w' :: ws ++ ws') = _
    rw [ih (List.cons_ne_nil _ _), List.append_assoc, List.cons_append]

section Joined
variable {ws : List (List Char)}

theorem mem_chars_joinColons (hws : ∀ w ∈ ws, Word w) : ∀ c ∈ joinColons ws, c ∈ chars := by
  fun_induction joinColons ws with
  | case1 => exact fun c hc => absurd hc List.not_mem_nil
  | case2 w => exact fun c hc => ((hws w List.mem_cons_self).chars c hc).1
  | case3 w w' ws ih =>
    intro c hc
    rcases List.mem_append.mp hc with hw | hrest
    · exact ((hws w List.mem_cons_self).chars c hw).1
    · rcases List.mem_cons.mp hrest with rfl | hrest
      · decide
      · exact ih (fun w hw => hws w (List.mem_cons_of_mem _ hw)) c hrest

theorem head_joinColons (hne : ws ≠ []) (hws : ∀ w ∈ ws, Word w) : ∃ c s, joinColons ws = c :: s ∧ c ≠ ':' := by
  obtain ⟨w, ws, rfl⟩ := List.exists_cons_of_ne_nil hne
  have hw := hws w List.mem_cons_self
  obtain ⟨c, s, rfl⟩ := List.exists_cons_of_ne_nil hw.ne_nil
  have hc := (hw.chars c List.mem_cons_self).2
  cases ws with
  | nil => exact ⟨c, s, rfl, hc⟩
  | cons w' ws => exact ⟨c, s ++ ':' :: joinColons (w' :: ws), rfl, hc⟩

theorem last_joinColons (hne : ws ≠ []) (hws : ∀ w ∈ ws, Word w) : ∃ s c, joinColons ws = s ++ [c] ∧ c ≠ ':' := by
  fun_induction joinColons ws with
  | case1 => exact absurd rfl hne
  | case2 w =>
    have hw := hws w List.mem_cons_self
    refine ⟨w.dropLast, w.getLast hw.ne_nil, (List.dropLast_append_getLast hw.ne_nil).symm, ?_⟩
    exact (hw.chars _ (List.getLast_mem hw.ne_nil)).2
  | case3 w w' ws ih =>
    obtain ⟨s, c, hjoin, hc⟩ := ih (List.cons_ne_nil _ _) fun w hw => hws w (List.mem_cons_of_mem _ hw)
    exact ⟨w ++ ':' :: s, c, by rw [hjoin, List.append_assoc, List.cons_append], hc⟩

theorem hasDouble_cons {c : Char} (hc : c ≠ ':') (s : List Char) : hasDouble (c :: s) = hasDouble s := by
  cases s with
  | nil => rfl
  | cons d s =>
    rw [hasDouble, beq_false_of_ne hc]
    rfl

theorem hasDouble_word {w : List Char} (hw : ∀ c ∈ w, c ≠ ':') (s : List Char) : hasDouble (w ++ s) = hasDouble s := by
  induction w with
  | nil => rfl
  | cons c w ih =>
    rw [List.cons_append, hasDouble_cons (hw c List.mem_cons_self)]
    exact ih fun d hd => hw d (List.mem_cons_of_mem _ hd)

theorem hasDouble_joinColons (hws : ∀ w ∈ ws, Word w) : hasDouble (joinColons ws) = false := by
  fun_induction joinColons ws with
  | case1 => rfl
  | case2 w =>
    have hfree := hasDouble_word (fun c hc => ((hws w List.mem_cons_self).chars c hc).2) []
    rw [List.append_nil] at hfree
    exact hfree
  | case3 w w' ws ih =>
    have hrest : ∀ w ∈ w' :: ws, Word w := fun w hw => hws w (List.mem_cons_of_mem _ hw)
    obtain ⟨c, s, hjoin, hc⟩ := head_joinColons (List.cons_ne_nil _ _) hrest
    have hnone := ih hrest
    rw [hasDouble_word fun c hc => ((hws w List.mem_cons_self).chars c hc).2]
    rw [hjoin] at hnone ⊢
    rw [hasDouble, hnone, beq_false_of_ne hc]
    rfl

/-- Words with single colons between them are left as they are. -/
theorem strip_joinColons (hne : ws ≠ []) (hws : ∀ w ∈ ws, Word w) (fuel : Nat) :
    stripColons (collapseColons fuel (joinColons ws)) = joinColons ws := by
  have hcollapse : collapseColons fuel (joinColons ws) = joinColons ws := by
    cases fuel with
    | zero => rfl
    | succ fuel =>
      rw [collapseColons, hasDouble_joinColons hws]
      rfl
  obtain ⟨c, rest, hhead, hc⟩ := head_joinColons hne hws
  obtain ⟨front, d, hlast, hd⟩ := last_joinColons hne hws
  rw [hcollapse, stripColons]
  have hdrop : (joinColons ws).dropWhile (· = ':') = joinColons ws := by
    rw [hhead]
    exact List.dropWhile_cons_of_neg (by simpa using hc)
  rw [hdrop, hlast]
  exact List.rdropWhile_concat_neg _ _ _ (by simpa using hd)

theorem repeats_joinColons (hws : ∀ w ∈ ws, Word w) : Ctc.repeats (joinColons ws) = (ws.map Ctc.repeats).sum := by
  fun_induction joinColons ws with
  | case1 => rfl
  | case2 w => exact (Nat.add_zero _).symm
  | case3 w w' ws ih =>
    have hrest : ∀ w ∈ w' :: ws, Word w := fun w hw => hws w (List.mem_cons_of_mem _ hw)
    obtain ⟨c, s, hjoin, hc⟩ := head_joinColons (List.cons_ne_nil _ _) hrest
    have hhead : ∀ b ∈ (joinColons (w' :: ws)).head?, b ≠ ':' := by
      rw [hjoin]
      intro b hb
      cases hb
      exact hc
    rw [Ctc.repeats_separated (fun c hc => ((hws w List.mem_cons_self).chars c hc).2) hhead, ih hrest]
    rfl

end Joined

/-! ## The words of a label -/

/-- The separators of the text become colons. -/
def colonize (s : List Char) : List Char := replaceChar ' ' ':' (replaceChar '\n' ':' s)

theorem colonize_append (s t : List Char) : colonize (s ++ t) = colonize s ++ colonize t := by
  unfold colonize replaceChar
  rw [List.map_append, List.map_append]

theorem colonize_of_chars {s : List Char} (h : ∀ c ∈ s, c ∈ chars) : colonize s = s := by
  have hsame : ∀ c ∈ s, (if (if c = '\n' then ':' else c) = ' ' then ':' else if c = '\n' then ':' else c) = c := by
    intro c hc
    have hspace : c ≠ ' ' := fun heq => absurd (heq ▸ h c hc) (by decide)
    have hnewline : c ≠ '\n' := fun heq => absurd (heq ▸ h c hc) (by decide)
    rw [if_neg hnewline, if_neg hspace]
  unfold colonize replaceChar
  rw [List.map_map]
  exact (List.map_congr_left hsame).trans (List.map_id s)

theorem Word.colonize {w : List Char} (hw : Word w) : colonize w = w := colonize_of_chars fun c hc => (hw.chars c hc).1

theorem word_of_all {w : List Char} (hne : w ≠ []) (h : w.all (fun c => chars.contains c && c != ':') = true) : Word w := by
  refine ⟨hne, fun c hc => ?_⟩
  have hboth := Bool.and_eq_true_iff.mp (List.all_eq_true.mp h c hc)
  exact ⟨List.contains_iff_mem.mp hboth.1, bne_iff_ne.mp hboth.2⟩

theorem word_pad {width k : Nat} (hne : pad width k ≠ []) : Word (pad width k) := .of_digits hne fun _ hc => isDigit_pad hc

theorem word_pad_two (k : Nat) : Word (pad 2 k) := by
  apply word_pad
  intro hnil
  have hle := le_length_pad 2 k
  rw [hnil] at hle
  cases hle

namespace Draw
variable (draw : Draw)

/-- The date in one word. -/
def dateWord (separator : List Char) : List Char :=
  pad 2 draw.day ++ (separator ++ (pad 2 draw.month ++ (separator ++ pad 2 draw.year)))

theorem format_dateFields (separator : List Char) : draw.format (dateFields separator) = draw.dateWord separator := by
  show pad 2 draw.day ++ (separator ++ (pad 2 draw.month ++ (separator ++ (pad 2 draw.year ++ [])))) = _
  rw [List.append_nil]
  rfl

theorem word_dateWord {separator : List Char} (h : separator = [] ∨ Word separator) : Word (draw.dateWord separator) := by
  have hyear : Word (separator ++ pad 2 draw.year) := by
    rcases h with rfl | h
    · exact word_pad_two _
    · exact h.append (word_pad_two _)
  have hmonth : Word (separator ++ (pad 2 draw.month ++ (separator ++ pad 2 draw.year))) := by
    rcases h with rfl | h
    · exact (word_pad_two _).append hyear
    · exact h.append ((word_pad_two _).append hyear)
  exact (word_pad_two _).append hmonth

theorem length_dateWord (separator : List Char) : (draw.dateWord separator).length = 6 + 2 * separator.length := by
  have hday := length_pad_two (Nat.lt_of_le_of_lt draw.day_range.2 (by decide))
  have hmonth := length_pad_two (Nat.lt_of_le_of_lt draw.month_range.2 (by decide))
  have hyear := length_pad_two (Nat.lt_of_le_of_lt draw.year_range.2 (by decide))
  simp only [dateWord, List.length_append, hday, hmonth, hyear]
  omega

/-- A word, its separator, and a date in one word. -/
theorem colonize_dateFields {w separator : List Char} (hw : Word w) (h : separator = [] ∨ Word separator) :
    colonize (w ++ [' '] ++ draw.format (dateFields separator)) = joinColons [w, draw.dateWord separator] := by
  rw [format_dateFields, colonize_append, colonize_append, hw.colonize, (draw.word_dateWord h).colonize, List.append_assoc]
  rfl

/-- The first line: the short one is two words of one and eight characters, the others have fourteen characters. -/
theorem line1_words : ∃ ws, (∀ w ∈ ws, Word w) ∧ ws ≠ [] ∧ colonize (draw.format draw.line1) = joinColons ws ∧
    (draw.line1 = vSlash → ws = [['V'], draw.dateWord ['/']]) ∧ (draw.line1 ≠ vSlash → 14 ≤ (joinColons ws).length) := by
  have hseparator : Word ['/'] := word_of_all (List.cons_ne_nil _ _) rfl
  have hslash : Word (draw.dateWord ['/']) := draw.word_dateWord (.inr hseparator)
  have hvence : Word ['V', 'E', 'N', 'C', 'E'] := word_of_all (List.cons_ne_nil _ _) rfl
  have hv : Word ['V'] := word_of_all (List.cons_ne_nil _ _) rfl
  have hline1 := draw.line1_mem
  simp only [line1Templates, List.mem_cons, List.not_mem_nil, or_false] at hline1
  rcases hline1 with hline1 | hline1 | hline1
  · refine ⟨[['V', 'E', 'N', 'C', 'E'], draw.dateWord ['/']], ?_, List.cons_ne_nil _ _, ?_, ?_, fun _ => ?_⟩
    · exact List.forall_mem_cons.mpr ⟨hvence, List.forall_mem_singleton.mpr hslash⟩
    · rw [hline1]
      exact draw.colonize_dateFields hvence (.inr hseparator)
    · rw [hline1]
      intro heq
      exact absurd heq (by decide)
    · show 14 ≤ (['V', 'E', 'N', 'C', 'E'] ++ ':' :: draw.dateWord ['/']).length
      simp only [List.length_append, List.length_cons, draw.length_dateWord]
      decide
  · refine ⟨[['V'], draw.dateWord ['/']], ?_, List.cons_ne_nil _ _, ?_, fun _ => rfl, fun hne => absurd hline1 hne⟩
    · exact List.forall_mem_cons.mpr ⟨hv, List.forall_mem_singleton.mpr hslash⟩
    · rw [hline1]
      exact draw.colonize_dateFields hv (.inr hseparator)
  · refine ⟨[['V', 'E', 'N', 'C', 'E'], pad 2 draw.day, pad 2 draw.month, pad 2 draw.year], ?_, List.cons_ne_nil _ _, ?_, ?_,
      fun _ => ?_⟩
    · exact List.forall_mem_cons.mpr ⟨hvence, List.forall_mem_cons.mpr ⟨word_pad_two _,
        List.forall_mem_cons.mpr ⟨word_pad_two _, List.forall_mem_singleton.mpr (word_pad_two _)⟩⟩⟩
    · rw [hline1]
      show colonize (['V', 'E', 'N', 'C', 'E', ' '] ++ draw.format (dateFields [':'])) = _
      have hcolons : ∀ c ∈ draw.dateWord [':'], c ∈ chars := by
        have hpad : ∀ k, ∀ c ∈ pad 2 k, c ∈ chars := fun k c hc => mem_chars_of_isDigit (isDigit_pad hc)
        have hcolon : ∀ c ∈ [':'], c ∈ chars := List.forall_mem_singleton.mpr (by decide)
        simp only [dateWord, List.forall_mem_append]
        exact ⟨hpad _, hcolon, hpad _, hcolon, hpad _⟩
      rw [format_dateFields, colonize_append, colonize_of_chars hcolons]
      rfl
    · rw [hline1]
      intro heq
      exact absurd heq (by decide)
    · show 14 ≤ (['V', 'E', 'N', 'C', 'E'] ++ ':' :: draw.dateWord [':']).length
      simp only [List.length_append, List.length_cons, draw.length_dateWord]
      decide

/-- The second line: two words, of which only a lot number without padding can have less than four characters. -/
theorem line2_words : ∃ w, Word w ∧ colonize (draw.format draw.line2) = joinColons [['L', 'O', 'T', 'E'], w] ∧
    (draw.line2 = loteNumber → w = Nat.toDigits 10 draw.lot) ∧ (draw.line2 ≠ loteNumber → 4 ≤ w.length) := by
  have hlote : Word ['L', 'O', 'T', 'E'] := word_of_all (List.cons_ne_nil _ _) rfl
  have hseparator : Word ['/'] := word_of_all (List.cons_ne_nil _ _) rfl
  have hnumber : ∀ {width}, Word (pad width draw.lot) →
      colonize (draw.format [lote, .field .n width]) = joinColons [['L', 'O', 'T', 'E'], pad width draw.lot] := by
    intro width hword
    show colonize (['L', 'O', 'T', 'E', ' '] ++ (pad width draw.lot ++ [])) = _
    rw [List.append_nil, colonize_append, hword.colonize]
    rfl
  have hline2 := draw.line2_mem
  simp only [line2Templates, List.mem_cons, List.not_mem_nil, or_false] at hline2
  rcases hline2 with hline2 | hline2 | hline2 | hline2
  · have hword : Word (pad 0 draw.lot) := word_pad (by rw [pad_zero]; exact Nat.toDigits_ne_nil)
    refine ⟨pad 0 draw.lot, hword, ?_, fun _ => pad_zero _, fun hne => absurd hline2 hne⟩
    rw [hline2]
    exact hnumber hword
  · have hlength := le_length_pad 4 draw.lot
    have hword : Word (pad 4 draw.lot) := word_pad (List.ne_nil_of_length_pos (by omega))
    refine ⟨pad 4 draw.lot, hword, ?_, ?_, fun _ => hlength⟩
    · rw [hline2]
      exact hnumber hword
    · rw [hline2]
      intro heq
      exact absurd heq (by decide)
  · refine ⟨draw.dateWord [], draw.word_dateWord (.inl rfl), ?_, ?_, fun _ => ?_⟩
    · rw [hline2]
      exact draw.colonize_dateFields hlote (.inl rfl)
    · rw [hline2]
      intro heq
      exact absurd heq (by decide)
    · rw [draw.length_dateWord]
      decide
  · refine ⟨draw.dateWord ['/'], draw.word_dateWord (.inr hseparator), ?_, ?_, fun _ => ?_⟩
    · rw [hline2]
      exact draw.colonize_dateFields hlote (.inr hseparator)
    · rw [hline2]
      intro heq
      exact absurd heq (by decide)
    · rw [draw.length_dateWord]
      decide

/-! ## The label -/

/-- The words of the two lines, in one list. -/
theorem label_words : ∃ ws w, (∀ v ∈ ws, Word v) ∧ ws ≠ [] ∧ Word w ∧
    draw.label = joinColons (ws ++ [['L', 'O', 'T', 'E'], w]) ∧
    (draw.line1 = vSlash → ws = [['V'], draw.dateWord ['/']]) ∧ (draw.line1 ≠ vSlash → 14 ≤ (joinColons ws).length) ∧
    (draw.line2 = loteNumber → w = Nat.toDigits 10 draw.lot) ∧ (draw.line2 ≠ loteNumber → 4 ≤ w.length) := by
  obtain ⟨ws, hws, hne, hline1, hshort, hlong⟩ := draw.line1_words
  obtain ⟨w, hw, hline2, hnumber, hother⟩ := draw.line2_words
  refine ⟨ws, w, hws, hne, hw, ?_, hshort, hlong, hnumber, hother⟩
  have hlote : Word ['L', 'O', 'T', 'E'] := word_of_all (List.cons_ne_nil _ _) rfl
  have hall : ∀ v ∈ ws ++ [['L', 'O', 'T', 'E'], w], Word v :=
    List.forall_mem_append.mpr ⟨hws, List.forall_mem_cons.mpr ⟨hlote, List.forall_mem_singleton.mpr hw⟩⟩
  have htext : colonize draw.visualText = joinColons (ws ++ [['L', 'O', 'T', 'E'], w]) := by
    rw [joinColons_append hne (List.cons_ne_nil _ _), ← hline1, ← hline2, visualText, colonize_append]
    rfl
  show stripColons (collapseColons (colonize draw.visualText).length (colonize draw.visualText)) = _
  rw [htext]
  exact strip_joinColons (List.append_ne_nil_of_left_ne_nil hne _) hall _

/-- The adjacent equal pairs of a date: its years have none. -/
theorem repeats_dateWord : Ctc.repeats (draw.dateWord ['/']) =
    (if Doubled draw.day then 1 else 0) + if Doubled draw.month then 1 else 0 := by
  have hday : draw.day < 100 := Nat.lt_of_le_of_lt draw.day_range.2 (by decide)
  have hmonth : draw.month < 100 := Nat.lt_of_le_of_lt draw.month_range.2 (by decide)
  have hyear : ¬Doubled draw.year := by
    have hrange := draw.year_range
    unfold Doubled
    omega
  have hfree : ∀ k, ∀ c ∈ pad 2 k, c ≠ '/' := fun k c hc => digit_ne (isDigit_pad hc) rfl
  have hhead : ∀ k s, ∀ c ∈ (pad 2 k ++ s).head?, c ≠ '/' := by
    intro k s c hc
    rw [List.head?_append_of_ne_nil _ (word_pad_two k).ne_nil] at hc
    exact hfree k c (List.mem_of_mem_head? hc)
  have hyearHead : ∀ c ∈ (pad 2 draw.year).head?, c ≠ '/' := fun c hc => hfree _ c (List.mem_of_mem_head? hc)
  show Ctc.repeats (pad 2 draw.day ++ '/' :: (pad 2 draw.month ++ '/' :: pad 2 draw.year)) = _
  rw [Ctc.repeats_separated (hfree _) (hhead _ _), Ctc.repeats_separated (hfree _) hyearHead, repeats_pad hday,
    repeats_pad hmonth, repeats_pad (Nat.lt_of_le_of_lt draw.year_range.2 (by decide)), if_neg hyear]
  rfl

end Draw

/-- The timesteps of a short date and a lot number: sixteen, one for each digit of the lot, and one for each pair. -/
theorem short_label_iff (day month lot : Nat) :
    16 + (Nat.toDigits 10 lot).length +
        ((if Doubled day then 1 else 0) + (if Doubled month then 1 else 0) + Ctc.repeats (Nat.toDigits 10 lot)) ≤ timesteps ↔
      lot < 10 ∧ ¬(Doubled day ∧ Doubled month) ∨ 10 ≤ lot ∧ lot < 100 ∧ ¬Doubled day ∧ ¬Doubled month ∧ ¬Doubled lot := by
  have hbound : timesteps = 18 := rfl
  rw [hbound]
  by_cases hsmall : lot < 10
  · rw [Nat.toDigits_of_lt_base hsmall]
    show 16 + 1 + (_ + 0) ≤ 18 ↔ _
    by_cases hday : Doubled day <;> by_cases hmonth : Doubled month <;> simp [hsmall, hday, hmonth]
  have hle : 10 ≤ lot := Nat.le_of_not_lt hsmall
  by_cases htwo : lot < 100
  · rw [toDigits_eq_pad hle htwo, length_pad_two htwo, repeats_pad htwo]
    by_cases hday : Doubled day <;> by_cases hmonth : Doubled month <;> by_cases hlot : Doubled lot <;>
      simp [hle, htwo, hday, hmonth, hlot]
  · have hlen := le_length_toDigits (Nat.le_of_not_lt htwo)
    exact iff_of_false (by omega) (by omega)

/-- A label is encoded without loss, and the timesteps are enough for it just in the cases of `Fits`. -/
theorem label_learnable_iff (draw : Draw) : Encodable draw.label ∧ (Producible timesteps draw.label ↔ Fits draw) := by
  obtain ⟨ws, w, hws, hne, hw, hlabel, hshort, hlong, hnumber, hother⟩ := draw.label_words
  have hlote : Word ['L', 'O', 'T', 'E'] := word_of_all (List.cons_ne_nil _ _) rfl
  have hall : ∀ v ∈ ws ++ [['L', 'O', 'T', 'E'], w], Word v :=
    List.forall_mem_append.mpr ⟨hws, List.forall_mem_cons.mpr ⟨hlote, List.forall_mem_singleton.mpr hw⟩⟩
  have hchars := mem_chars_joinColons hall
  have hlength : (joinColons (ws ++ [['L', 'O', 'T', 'E'], w])).length = (joinColons ws).length + 6 + w.length := by
    rw [joinColons_append hne (List.cons_ne_nil _ _)]
    simp only [joinColons, List.length_append, List.length_cons, List.length_nil]
    omega
  have hbound : timesteps = 18 := rfl
  rw [hlabel]
  refine ⟨encodeLabel_ok hchars, ?_⟩
  rw [producible_iff hchars, hlength]
  by_cases hline1 : draw.line1 = vSlash
  case neg =>
    have hlen1 := hlong hline1
    exact iff_of_false (by omega) fun hfits => hline1 hfits.1
  have hlen1 : (joinColons ws).length = 10 := by
    rw [hshort hline1]
    show (['V'] ++ ':' :: draw.dateWord ['/']).length = 10
    simp only [List.length_append, List.length_cons, List.length_nil, draw.length_dateWord]
  by_cases hline2 : draw.line2 = loteNumber
  case neg =>
    have hlen2 := hother hline2
    exact iff_of_false (by omega) fun hfits => hline2 hfits.2.1
  have hpairs : Ctc.repeats (joinColons (ws ++ [['L', 'O', 'T', 'E'], w])) =
      (if Doubled draw.day then 1 else 0) + (if Doubled draw.month then 1 else 0) + Ctc.repeats w := by
    rw [repeats_joinColons hall, hshort hline1]
    show 0 + (Ctc.repeats (draw.dateWord ['/']) + (0 + (Ctc.repeats w + 0))) = _
    rw [draw.repeats_dateWord]
    omega
  rw [hpairs, hlen1, hnumber hline2, Fits, eq_true hline1, eq_true hline2, true_and, true_and]
  exact short_label_iff draw.day draw.month draw.lot

/-- `VENCE 15/08/25` over `LOTE 2405`. -/
def venceDraw : Draw where
  day := 15
  month := 8
  year := 25
  line1 := venceSlash
  line2 := loteNumber
  lot := 2405
  day_range := by decide
  month_range := by decide
  year_range := by decide
  line1_mem := by decide
  line2_mem := by decide
  lot_le := by decide

/-- Twenty-four characters do not fit into the timesteps. -/
theorem vence_too_long : venceDraw.label = "VENCE:15/08/25:LOTE:2405".toList ∧ ¬Producible timesteps venceDraw.label := by
  have hlabel : venceDraw.label = "VENCE:15/08/25:LOTE:2405".toList := rfl
  have hchars : venceDraw.label.all (chars.contains ·) = true := by rw [hlabel]; decide
  have hlong : ¬venceDraw.label.length + Ctc.repeats venceDraw.label ≤ timesteps := by rw [hlabel]; decide
  exact ⟨hlabel, fun h => hlong ((producible_iff fun c hc => List.contains_iff_mem.mp (List.all_eq_true.mp hchars c hc)).mp h)⟩

end IbarraGateway.Training
