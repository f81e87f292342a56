import Mathlib.Data.List.Basic
import Mathlib.Data.List.Infix
import Mathlib.Data.List.TakeWhile

/-!
# Searching a text

* `findAfter pat s` : what follows the first occurrence of `pat` in `s` (`findAfter_eq_some_iff`, `findAfter_eq_none_iff`).
* `mark_cases` : a text cut twice at a mark, a word whose first character does not come again in it.
* `quote key` : a key in quotes. Where strings hold no quote, a key can only be found where it is a whole token
  (`findAfter_quote_token`).
* `spell` : a flat object as text, each member with its own spacing. A search for a quoted key stops at the first name
  *or string value* that is the key (`findAfter_spell`).
-/

namespace IbarraGateway.TextSearch

/-! ## First occurrences -/

section Find
variable {α : Type} [DecidableEq α]

/-- What follows the first occurrence of the pattern. -/
def findAfter (pat : List α) : List α → Option (List α)
  | [] => if pat = [] then some [] else none
  | c :: s => if pat.isPrefixOf (c :: s) then some ((c :: s).drop pat.length) else findAfter pat s

/-- The pattern stands behind `before`, and not earlier. -/
structure FirstAt (pat s before rest : List α) : Prop where
  split : s = before ++ pat ++ rest
  first : ∀ b r, s = b ++ pat ++ r → before.length ≤ b.length

theorem findAfter_prefix (pat rest : List α) : findAfter pat (pat ++ rest) = some rest := by
  cases hs : pat ++ rest with
  | nil =>
    obtain ⟨rfl, rfl⟩ := List.append_eq_nil_iff.mp hs
    rfl
  | cons c s =>
    have hprefix : pat.isPrefixOf (c :: s) = true := by
      rw [← hs]
      exact List.isPrefixOf_iff_prefix.mpr (List.prefix_append pat rest)
    rw [findAfter, if_pos hprefix, ← hs, List.drop_left]

theorem findAfter_cons {pat : List α} {c : α} {s : List α} (h : ¬pat <+: c :: s) :
    findAfter pat (c :: s) = findAfter pat s := by
  rw [findAfter, if_neg]
  intro hprefix
  exact h (List.isPrefixOf_iff_prefix.mp hprefix)

theorem FirstAt.findAfter_eq {pat s before rest : List α} (h : FirstAt pat s before rest) :
    findAfter pat s = some rest := by
  obtain ⟨rfl, hfirst⟩ := h
  induction before with
  | nil => exact findAfter_prefix pat rest
  | cons c before ih =>
    have hnot : ¬pat <+: c :: (before ++ pat ++ rest) := by
      rintro ⟨r, hr⟩
      have hle := hfirst [] r hr.symm
      simp at hle
    show findAfter pat (c :: (before ++ pat ++ rest)) = some rest
    rw [findAfter_cons hnot]
    apply ih
    intro b r hb
    have hle := hfirst (c :: b) r (by rw [List.cons_append, List.cons_append, hb]; rfl)
    rw [List.length_cons, List.length_cons] at hle
    omega

theorem findAfter_eq_some_iff {pat s rest : List α} : findAfter pat s = some rest ↔ ∃ before, FirstAt pat s before rest := by
  constructor
  · intro h
    induction s with
    | nil =>
      unfold findAfter at h
      split at h
      · rename_i hpat
        cases h
        subst hpat
        exact ⟨[], rfl, fun b r _ => Nat.zero_le _⟩
      · cases h
    | cons c s ih =>
      by_cases hprefix : pat <+: c :: s
      · obtain ⟨r, hr⟩ := hprefix
        rw [← hr, findAfter_prefix] at h
        cases h
        exact ⟨[], hr.symm, fun b r _ => Nat.zero_le _⟩
      · rw [findAfter_cons hprefix] at h
        obtain ⟨before, hsplit, hfirst⟩ := ih h
        refine ⟨c :: before, by rw [hsplit]; rfl, ?_⟩
        rintro (_ | ⟨d, b⟩) r hb
        · exact absurd ⟨r, hb.symm⟩ hprefix
        · have htail : s = b ++ pat ++ r := (List.cons.inj hb).2
          have hle := hfirst b r htail
          rw [List.length_cons, List.length_cons]
          omega
  · rintro ⟨before, h⟩
    exact h.findAfter_eq

theorem findAfter_eq_none_iff {pat s : List α} : findAfter pat s = none ↔ ¬pat <:+: s := by
  constructor
  · rintro h ⟨b, r, hb⟩
    induction s generalizing b with
    | nil =>
      unfold findAfter at h
      split at h
      · cases h
      · rename_i hpat
        have hnil := (List.append_eq_nil_iff.mp (List.append_eq_nil_iff.mp hb).1).2
        exact hpat hnil
    | cons c s ih =>
      by_cases hprefix : pat <+: c :: s
      · obtain ⟨t, ht⟩ := hprefix
        rw [← ht, findAfter_prefix] at h
        cases h
      · rw [findAfter_cons hprefix] at h
        rcases b with _ | ⟨d, b⟩
        · exact hprefix ⟨r, hb⟩
        · exact ih h b (List.cons.inj hb).2
  · intro h
    cases hfind : findAfter pat s with
    | none => rfl
    | some rest =>
      obtain ⟨before, hsplit, -⟩ := findAfter_eq_some_iff.mp hfind
      exact absurd ⟨before, rest, hsplit.symm⟩ h

/-- Nothing is found before the first character of the pattern. -/
theorem findAfter_skip {p : α} {pat skipped : List α} (h : p ∉ skipped) (s : List α) :
    findAfter (p :: pat) (skipped ++ s) = findAfter (p :: pat) s := by
  induction skipped with
  | nil => rfl
  | cons c skipped ih =>
    rw [List.mem_cons, not_or] at h
    rw [List.cons_append, findAfter_cons, ih h.2]
    intro hprefix
    exact h.1 (List.cons_prefix_cons.mp hprefix).1

theorem findAfter_char {c : α} {gap : List α} (h : c ∉ gap) (rest : List α) :
    findAfter [c] (gap ++ c :: rest) = some rest := by
  rw [findAfter_skip h]
  exact findAfter_prefix [c] rest

theorem findAfter_char_eq_some_iff {c : α} {s rest : List α} :
    findAfter [c] s = some rest ↔ ∃ gap, s = gap ++ c :: rest ∧ c ∉ gap := by
  constructor
  · intro h
    obtain ⟨before, hsplit, hfirst⟩ := findAfter_eq_some_iff.mp h
    refine ⟨before, by rw [hsplit, List.append_assoc]; rfl, ?_⟩
    intro hmem
    obtain ⟨b, r, hb⟩ := List.append_of_mem hmem
    have hle := hfirst b (r ++ c :: rest) (by rw [hsplit, hb]; simp)
    rw [hb, List.length_append, List.length_cons] at hle
    omega
  · rintro ⟨gap, rfl, hgap⟩
    exact findAfter_char hgap rest

end Find

/-! ## Runs of characters -/

section Runs
variable {α : Type} {p : α → Bool} {s rest : List α}

theorem forall_of_any (h : s.any p = false) : ∀ c ∈ s, p c = false := by
  intro c hc
  exact Bool.eq_false_iff.mpr (List.any_eq_false.mp h c hc)

theorem forall_of_all (h : s.all p = true) : ∀ c ∈ s, p c = true := List.all_eq_true.mp h

/-- A character of one kind is none of a list of others. -/
theorem not_mem_of_any {c : α} (h : s.any p = false) (hc : p c = true) : c ∉ s := by
  intro hmem
  rw [forall_of_any h c hmem] at hc
  cases hc

theorem forall_ne_of_not_mem [DecidableEq α] {c : α} (h : c ∉ s) : ∀ x ∈ s, decide (x ≠ c) = true := by
  intro x hx
  apply decide_eq_true
  rintro rfl
  exact h hx

theorem takeWhile_ne_eq_self_iff [DecidableEq α] {c : α} : (s.takeWhile fun x => decide (x ≠ c)) = s ↔ c ∉ s := by
  rw [List.takeWhile_eq_self_iff]
  exact ⟨fun h hmem => of_decide_eq_true (h c hmem) rfl, forall_ne_of_not_mem⟩

theorem dropWhile_run (hs : ∀ c ∈ s, p c = true) (hrest : ∀ c r, rest = c :: r → p c = false) :
    (s ++ rest).dropWhile p = rest := by
  rw [List.dropWhile_append_of_pos hs]
  rcases rest with _ | ⟨c, r⟩
  · rfl
  · rw [List.dropWhile_cons_of_neg]
    rw [hrest c r rfl]
    decide

theorem takeWhile_run (hs : ∀ c ∈ s, p c = true) (hrest : ∀ c r, rest = c :: r → p c = false) :
    (s ++ rest).takeWhile p = s := by
  rw [List.takeWhile_append_of_pos hs]
  rcases rest with _ | ⟨c, r⟩
  · simp
  · rw [List.takeWhile_cons_of_neg, List.append_nil]
    rw [hrest c r rfl]
    decide

theorem takeWhile_stop {c : α} (hc : p c = false) (s rest : List α) : (s ++ c :: rest).takeWhile p = s.takeWhile p := by
  induction s with
  | nil => simp [hc]
  | cons d s ih => rw [List.cons_append, List.takeWhile_cons, List.takeWhile_cons, ih]

theorem dropWhile_stop {c : α} (hc : p c = false) (s rest : List α) :
    (s ++ c :: rest).dropWhile p = s.dropWhile p ++ c :: rest := by
  induction s with
  | nil => simp [hc]
  | cons d s ih =>
    rw [List.cons_append, List.dropWhile_cons, List.dropWhile_cons, ih]
    split <;> rfl

end Runs

/-! ## Marks -/

section Marks
variable {α : Type} {d : α} {D a b a' b' : List α}

/-- A text is cut in two at a mark. Another cut at the mark is the same, or beyond the mark on one side. -/
theorem mark_cases (hd : d ∉ D) (h : a ++ (d :: D ++ b) = a' ++ (d :: D ++ b')) :
    (a = a' ∧ b = b') ∨ (∃ x, a' = a ++ (d :: D ++ x) ∧ b = x ++ (d :: D ++ b')) ∨
      ∃ x, a = a' ++ (d :: D ++ x) ∧ b' = x ++ (d :: D ++ b) := by
  have hcross : ∀ {a b a' b' : List α}, (∃ x, a' = a ++ x ∧ d :: D ++ b = x ++ (d :: D ++ b')) →
      (a = a' ∧ b = b') ∨ ∃ x, a' = a ++ (d :: D ++ x) ∧ b = x ++ (d :: D ++ b') := by
    rintro a b a' b' ⟨x, rfl, hx⟩
    rcases x with _ | ⟨e, x⟩
    · exact .inl ⟨(List.append_nil a).symm, List.append_cancel_left hx⟩
    obtain ⟨rfl, htail⟩ := List.cons.inj hx
    rcases List.append_eq_append_iff.mp htail with ⟨y, rfl, hy⟩ | ⟨y, hy, hb⟩
    · exact .inr ⟨y, rfl, hy⟩
    · rcases y with _ | ⟨f, y⟩
      · refine .inr ⟨[], ?_, hb.symm⟩
        rw [List.append_nil] at hy
        rw [hy, List.append_nil]
      · obtain ⟨rfl, -⟩ := List.cons.inj hb
        exact absurd (hy ▸ List.mem_append_right x List.mem_cons_self) hd
  rcases List.append_eq_append_iff.mp h with hx | ⟨x, ha, hx⟩
  · rcases hcross hx with hsame | hbeyond
    · exact .inl hsame
    · exact .inr (.inl hbeyond)
  · rcases hcross ⟨x, ha, hx⟩ with ⟨rfl, rfl⟩ | hbeyond
    · exact .inl ⟨rfl, rfl⟩
    · exact .inr (.inr hbeyond)

end Marks

/-! ## Quoted keys -/

def quote (key : List Char) : List Char := '"' :: (key ++ ['"'])

theorem findAfter_quote_token {key token : List Char} (hkey : '"' ∉ key) (htoken : '"' ∉ token) (rest : List Char) :
    findAfter (quote key) (quote token ++ rest) = if token = key then some rest else findAfter (quote key) ('"' :: rest) := by
  split
  · rename_i heq
    subst heq
    exact findAfter_prefix (quote token) rest
  · rename_i hne
    have hnot : ¬quote key <+: quote token ++ rest := by
      rintro ⟨r, hr⟩
      have hsplit : key ++ '"' :: r = token ++ '"' :: rest := by
        simpa [quote] using hr
      rcases List.append_eq_append_iff.mp hsplit with ⟨x, htok, hx⟩ | ⟨x, hk, hx⟩
      · rcases x with _ | ⟨c, x⟩
        · rw [List.append_nil] at htok
          exact hne htok
        · cases hx
          simp [htok] at htoken
      · rcases x with _ | ⟨c, x⟩
        · rw [List.append_nil] at hk
          exact hne hk.symm
        · cases hx
          simp [hk] at hkey
    have hcons : quote token ++ rest = '"' :: (token ++ '"' :: rest) := by simp [quote]
    rw [hcons] at hnot ⊢
    rw [findAfter_cons hnot]
    exact findAfter_skip htoken _

/-- A closing quote does not open the key. -/
theorem findAfter_close {key : List Char} {c : Char} {skipped : List Char} (hc : c ∈ skipped) (hkey : c ∉ key)
    (hskipped : '"' ∉ skipped) (rest : List Char) :
    findAfter (quote key) ('"' :: (skipped ++ rest)) = findAfter (quote key) rest := by
  rw [findAfter_cons]
  · exact findAfter_skip hskipped rest
  · rintro ⟨r, hr⟩
    have hsplit : (key ++ ['"']) ++ r = skipped ++ rest := (List.cons.inj hr).2
    rcases List.append_eq_append_iff.mp hsplit with ⟨x, hx, -⟩ | ⟨x, hx, -⟩
    · apply hskipped
      rw [hx]
      simp
    · have hmem : c ∈ key ++ ['"'] := by
        rw [hx]
        exact List.mem_append_left x hc
      rcases List.mem_append.mp hmem with hmem | hmem
      · exact hkey hmem
      · rw [List.mem_singleton.mp hmem] at hc
        exact hskipped hc

/-! ## Flat objects -/

/-- `' '`, `'\t'`, `'\r'`, `'\n'`. -/
def isBlank (c : Char) : Bool := c ∈ [' ', '\t', '\r', '\n']

/-- What ends a number or a literal. -/
def isEnd (c : Char) : Bool := c ∈ [',', '\n', '\r', '}']

inductive Scalar
  | string (s : List Char)
  | bare (t : List Char)
  deriving DecidableEq, Repr

namespace Scalar

/-- The value without its quotes. -/
def content : Scalar → List Char
  | string s => s
  | bare t => t

def text : Scalar → List Char
  | string s => quote s
  | bare t => t

/-- A string without quotes, or a text that neither looks like a string nor ends early. -/
structure Plain (v : Scalar) : Prop where
  noQuote : '"' ∉ v.content
  bare : ∀ t, v = .bare t → (∀ c ∈ t, isEnd c = false) ∧ ∃ c r, t = c :: r ∧ isBlank c = false

end Scalar

/-- A member with its spacing: `"name" gap : blanks value sep`. -/
structure Member where
  name : List Char
  gap : List Char
  blanks : List Char
  value : Scalar
  sep : List Char
  deriving DecidableEq, Repr

/-- The name and the spacing are what they look like. -/
structure Member.Spaced (m : Member) : Prop where
  name : '"' ∉ m.name ∧ ':' ∉ m.name
  gap : '"' ∉ m.gap ∧ ':' ∉ m.gap
  blanks : ∀ c ∈ m.blanks, isBlank c = true
  sep : '"' ∉ m.sep ∧ ':' ∉ m.sep ∧ ∃ c r, m.sep = c :: r ∧ isEnd c = true

/-- A key that no separator looks like. -/
structure PlainKey (key : List Char) : Prop where
  noQuote : '"' ∉ key
  noColon : ':' ∉ key
  noEnd : ∀ c ∈ key, isEnd c = false

/-- The members one after the other, and what follows them. -/
def spell (tail : List Char) : List Member → List Char
  | [] => tail
  | m :: ms => quote m.name ++ (m.gap ++ ':' :: (m.blanks ++ (m.value.text ++ (m.sep ++ spell tail ms))))

/-- The member whose value follows the quoted key: the one with this name, or, when a string value is the key, the one
after it. -/
def reached (key : List Char) : List Member → Option Member
  | [] => none
  | m :: ms => if m.name = key then some m else if m.value = .string key then ms.head? else reached key ms

theorem reached_mem {key : List Char} {m : Member} {ms : List Member} (h : reached key ms = some m) : m ∈ ms := by
  induction ms with
  | nil => cases h
  | cons m₁ ms ih =>
    rw [reached] at h
    split at h
    · cases h
      exact List.mem_cons_self
    split at h
    · exact List.mem_cons_of_mem _ (List.mem_of_mem_head? h)
    · exact List.mem_cons_of_mem _ (ih h)

/-- The values that the search passes are plain. -/
def Clear (key : List Char) : List Member → Prop
  | [] => True
  | m :: ms => m.name = key ∨ m.value.Plain ∧ (m.value = .string key ∨ Clear key ms)

theorem clear_of_plain (key : List Char) {ms : List Member} (h : ∀ m ∈ ms, m.value.Plain) : Clear key ms := by
  induction ms with
  | nil => trivial
  | cons m ms ih => exact .inr ⟨h m List.mem_cons_self, .inr (ih fun m hm => h m (List.mem_cons_of_mem _ hm))⟩

section Spell
variable {key tail : List Char} {m : Member} {ms : List Member}

theorem not_mem_blanks (h : ∀ c ∈ m.blanks, isBlank c = true) : '"' ∉ m.blanks := by
  intro hmem
  exact absurd (h '"' hmem) (by decide)

/-- At a name. -/
theorem findAfter_spell_name (hkey : PlainKey key) (hname : m.name = key) :
    findAfter (quote key) (spell tail (m :: ms)) =
      some (m.gap ++ ':' :: (m.blanks ++ (m.value.text ++ (m.sep ++ spell tail ms)))) := by
  rw [spell, findAfter_quote_token hkey.noQuote (hname ▸ hkey.noQuote), if_pos hname]

/-- Past a member of another name: its value may be taken for the key. -/
theorem findAfter_spell_cons (hkey : PlainKey key) (hm : m.Spaced) (hplain : m.value.Plain) (hname : m.name ≠ key) :
    findAfter (quote key) (spell tail (m :: ms)) =
      if m.value = .string key then some (m.sep ++ spell tail ms) else findAfter (quote key) (spell tail ms) := by
  obtain ⟨hsepQuote, -, c, r, hsep, hc⟩ := hm.sep
  have hcolon : '"' ∉ m.gap ++ ':' :: m.blanks := by
    rw [List.mem_append, List.mem_cons, not_or, not_or]
    exact ⟨hm.gap.1, by decide, not_mem_blanks hm.blanks⟩
  have hend : c ∉ key := by
    intro hmem
    rw [hkey.noEnd c hmem] at hc
    cases hc
  have hmem : c ∈ m.sep := by
    rw [hsep]
    exact List.mem_cons_self
  have hassoc : ∀ x, m.gap ++ ':' :: (m.blanks ++ x) = (m.gap ++ ':' :: m.blanks) ++ x := by
    intro x
    rw [List.append_assoc, List.cons_append]
  rw [spell, findAfter_quote_token hkey.noQuote hm.name.1, if_neg hname, hassoc]
  cases hvalue : m.value with
  | string s =>
    have hs : '"' ∉ s := by
      have hcontent := hplain.noQuote
      rwa [hvalue] at hcontent
    rw [findAfter_close (c := ':') (by simp) hkey.noColon hcolon, Scalar.text, findAfter_quote_token hkey.noQuote hs]
    by_cases heq : s = key
    · rw [if_pos heq, if_pos (congrArg Scalar.string heq)]
    · rw [if_neg heq, if_neg fun h => heq (Scalar.string.inj h), findAfter_close hmem hend hsepQuote]
  | bare t =>
    have ht : '"' ∉ t := by
      have hcontent := hplain.noQuote
      rwa [hvalue] at hcontent
    have hskip : '"' ∉ (m.gap ++ ':' :: m.blanks) ++ (t ++ m.sep) := by
      intro hmem
      rcases List.mem_append.mp hmem with hmem | hmem
      · exact hcolon hmem
      · exact (List.mem_append.mp hmem).elim ht hsepQuote
    have hsplit : m.gap ++ ':' :: m.blanks ++ (Scalar.text (.bare t) ++ (m.sep ++ spell tail ms)) =
        (m.gap ++ ':' :: m.blanks ++ (t ++ m.sep)) ++ spell tail ms := by
      simp [Scalar.text]
    rw [hsplit, findAfter_close (c := ':') (by simp) hkey.noColon hskip, if_neg (by simp)]

/-- A key that is neither a name nor a string value is not found. -/
theorem findAfter_spell_none (hkey : PlainKey key) (hms : ∀ m ∈ ms, m.Spaced) (hplain : ∀ m ∈ ms, m.value.Plain)
    (hnot : ∀ m ∈ ms, m.name ≠ key ∧ m.value ≠ .string key) (htail : '"' ∉ tail) :
    findAfter (quote key) (spell tail ms) = none := by
  induction ms with
  | nil =>
    rw [findAfter_eq_none_iff]
    intro hstands
    exact htail (hstands.subset List.mem_cons_self)
  | cons m ms ih =>
    obtain ⟨hname, hvalue⟩ := hnot m List.mem_cons_self
    rw [findAfter_spell_cons hkey (hms m List.mem_cons_self) (hplain m List.mem_cons_self) hname, if_neg hvalue]
    apply ih
    · exact fun m hm => hms m (List.mem_cons_of_mem _ hm)
    · exact fun m hm => hplain m (List.mem_cons_of_mem _ hm)
    · exact fun m hm => hnot m (List.mem_cons_of_mem _ hm)

/-- What a search comes to after the key and the next colon. -/
theorem findAfter_spell (tail : List Char) (hkey : PlainKey key) (hms : ∀ m ∈ ms, m.Spaced) (hclear : Clear key ms)
    (hreached : reached key ms = some m) :
    ∃ more, (findAfter (quote key) (spell tail ms)).bind (findAfter [':']) =
      some (m.blanks ++ (m.value.text ++ (m.sep ++ more))) := by
  induction ms with
  | nil => cases hreached
  | cons m₁ ms ih =>
    rw [reached] at hreached
    by_cases hname : m₁.name = key
    · rw [if_pos hname] at hreached
      cases hreached
      rw [findAfter_spell_name hkey hname, Option.bind_some, findAfter_char (hms m List.mem_cons_self).gap.2]
      exact ⟨_, rfl⟩
    rw [if_neg hname] at hreached
    obtain ⟨hplain, hclear⟩ := hclear.resolve_left hname
    have hspaced := hms m₁ List.mem_cons_self
    have hrest : ∀ m ∈ ms, m.Spaced := fun m hm => hms m (List.mem_cons_of_mem _ hm)
    rw [findAfter_spell_cons hkey hspaced hplain hname]
    by_cases hvalue : m₁.value = .string key
    · rw [if_pos hvalue] at hreached
      rcases ms with _ | ⟨m₂, ms⟩
      · cases hreached
      cases hreached
      have hm := hrest m List.mem_cons_self
      have hgap : ':' ∉ m₁.sep ++ quote m.name ++ m.gap := by
        have hsep := hspaced.sep.2.1
        have hname := hm.name.2
        have hgap := hm.gap.2
        simp [quote, hsep, hname, hgap]
      rw [if_pos hvalue, Option.bind_some, spell, ← List.append_assoc, ← List.append_assoc, findAfter_char hgap]
      exact ⟨_, rfl⟩
    · rw [if_neg hvalue] at hreached ⊢
      exact ih hrest (hclear.resolve_left hvalue) hreached

end Spell

end IbarraGateway.TextSearch
