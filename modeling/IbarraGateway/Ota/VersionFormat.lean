import IbarraGateway.Lib.TextSearch
import IbarraGateway.Ota.Manager

/-!
# The format of a version

`scanVersion_eq_some_iff` : what `sscanf` takes, as a grammar. It is more than `MAJOR.MINOR.PATCH` (`Spells`), and more
than what `Version.toText` writes: `version_format_iff`.
-/

namespace IbarraGateway.Ota

open DecimalText (isSpace isSpace_digit scanSign scanSign_sign scanSign_cases signs sign_noSpace toString_nat)
open TextSearch

/-! ## The grammar of `%d.%d.%d` -/

/-- A run of decimal digits. -/
structure Digits (ds : Text) : Prop where
  ne_nil : ds ≠ []
  digits : ∀ c ∈ ds, c.isDigit = true

/-- No digit follows. -/
def EndsDigits (rest : Text) : Prop := ∀ c r, rest = c :: r → c.isDigit = false

/-- A text begins with a `%d`. -/
def Number (s : Text) (v : Int) (rest : Text) : Prop :=
  ∃ blanks sign k ds, s = blanks ++ (sign ++ (ds ++ rest)) ∧ (∀ c ∈ blanks, isSpace c = true) ∧ (sign, k) ∈ signs ∧
    Digits ds ∧ EndsDigits rest ∧ v = saturate (k * natOfDigits ds)

/-- A text begins with `%d.%d.%d`. -/
def Numbers (s : Text) (v : Version) : Prop :=
  ∃ s₁ s₂ rest, Number s v.major ('.' :: s₁) ∧ Number s₁ v.minor ('.' :: s₂) ∧ Number s₂ v.patch rest

theorem Digits.head {ds : Text} (h : Digits ds) (rest : Text) : ∃ c r, ds ++ rest = c :: r ∧ c.isDigit = true := by
  cases hds : ds with
  | nil => exact absurd hds h.ne_nil
  | cons c r =>
    refine ⟨c, r ++ rest, rfl, h.digits c ?_⟩
    rw [hds]
    exact List.mem_cons_self

theorem Digits.takeWhile {ds rest : Text} (h : Digits ds) (hrest : EndsDigits rest) :
    (ds ++ rest).takeWhile Char.isDigit = ds :=
  takeWhile_run h.digits hrest

theorem Digits.dropWhile {ds rest : Text} (h : Digits ds) (hrest : EndsDigits rest) :
    (ds ++ rest).dropWhile Char.isDigit = rest :=
  dropWhile_run h.digits hrest

theorem scanInt_eq_some_iff {s rest : Text} {v : Int} : scanInt s = some (v, rest) ↔ Number s v rest := by
  constructor
  · intro h
    obtain ⟨sign, hsplit, hsign⟩ := scanSign_cases (s.dropWhile isSpace)
    unfold scanInt at h
    dsimp only at h
    split at h
    · cases h
    rename_i hne
    cases h
    refine ⟨s.takeWhile isSpace, sign, _, _, ?_, fun c hc => List.mem_takeWhile_imp hc, hsign, ?_, ?_, rfl⟩
    · rw [List.takeWhile_append_dropWhile, ← hsplit, List.takeWhile_append_dropWhile]
    · exact ⟨hne, fun c hc => List.mem_takeWhile_imp hc⟩
    · intro c r hr
      have hhead := List.head?_dropWhile_not Char.isDigit (scanSign (s.dropWhile isSpace)).2
      rw [hr] at hhead
      simpa using hhead
  · rintro ⟨blanks, sign, k, ds, rfl, hblanks, hsign, hds, hrest, rfl⟩
    obtain ⟨c, r, hcons, hc⟩ := hds.head rest
    have hdrop : (blanks ++ (sign ++ (ds ++ rest))).dropWhile isSpace = sign ++ (ds ++ rest) := by
      apply dropWhile_run hblanks
      intro d t hd
      cases sign with
      | nil =>
        rw [List.nil_append, hcons] at hd
        cases hd
        exact isSpace_digit hc
      | cons x xs =>
        cases hd
        exact sign_noSpace hsign _ List.mem_cons_self
    unfold scanInt
    rw [hdrop, hcons, scanSign_sign hsign hc, ← hcons]
    dsimp only
    rw [hds.takeWhile hrest, hds.dropWhile hrest]
    split
    · exact absurd rfl hds.ne_nil
    · rfl

theorem scanDot_eq_some_iff {s rest : Text} : scanDot s = some rest ↔ s = '.' :: rest := by
  unfold scanDot
  split
  · simp
  · rename_i hno
    simp only [reduceCtorEq, false_iff]
    exact hno rest

theorem scanVersion_eq_some_iff {s : Text} {v : Version} : scanVersion s = some v ↔ Numbers s v := by
  unfold scanVersion Numbers
  simp only [Option.bind_eq_some_iff, Option.map_eq_some_iff, Prod.exists, scanInt_eq_some_iff, scanDot_eq_some_iff]
  constructor
  · rintro ⟨major, _, hmajor, s₁, rfl, minor, _, hminor, s₂, rfl, patch, rest, hpatch, rfl⟩
    exact ⟨s₁, s₂, rest, hmajor, hminor, hpatch⟩
  · rintro ⟨s₁, s₂, rest, hmajor, hminor, hpatch⟩
    exact ⟨v.major, _, hmajor, s₁, rfl, v.minor, _, hminor, s₂, rfl, v.patch, rest, hpatch, rfl⟩

/-! ## MAJOR.MINOR.PATCH -/

/-- Three runs of digits with single dots between them, whose values fit an `int`. -/
def Spells (s : Text) (v : Version) : Prop :=
  ∃ a b c, Digits a ∧ Digits b ∧ Digits c ∧ s = a ++ '.' :: (b ++ '.' :: c) ∧
    (natOfDigits a < 2 ^ 31 ∧ natOfDigits b < 2 ^ 31 ∧ natOfDigits c < 2 ^ 31) ∧
    v = ⟨natOfDigits a, natOfDigits b, natOfDigits c⟩

/-- The text of a version without negative numbers. -/
def Rendered (s : Text) : Prop :=
  ∃ a b c : Nat, (a < 2 ^ 31 ∧ b < 2 ^ 31 ∧ c < 2 ^ 31) ∧ s = Version.toText ⟨a, b, c⟩

theorem endsDigits_dot (s : Text) : EndsDigits ('.' :: s) := by
  intro c r h
  cases h
  decide

theorem Digits.number {ds rest : Text} (h : Digits ds) (hrange : natOfDigits ds < 2 ^ 31) (hrest : EndsDigits rest) :
    Number (ds ++ rest) (natOfDigits ds) rest := by
  refine ⟨[], [], 1, ds, rfl, by simp, by simp [signs], h, hrest, ?_⟩
  unfold saturate
  omega

theorem Spells.numbers {s : Text} {v : Version} (h : Spells s v) : Numbers s v := by
  obtain ⟨a, b, c, ha, hb, hc, rfl, ⟨hma, hmb, hmc⟩, rfl⟩ := h
  have hlast : Number (c ++ []) (natOfDigits c) [] := hc.number hmc nofun
  rw [List.append_nil] at hlast
  exact ⟨_, _, [], ha.number hma (endsDigits_dot _), hb.number hmb (endsDigits_dot _), hlast⟩

theorem Digits.noNul {ds : Text} (h : Digits ds) : '\x00' ∉ ds := fun hmem => absurd (h.digits _ hmem) (by decide)

theorem Spells.cStr_eq {s : Text} {v : Version} (h : Spells s v) : cStr s = s := by
  obtain ⟨a, b, c, ha, hb, hc, rfl, -, -⟩ := h
  have hnul : '\x00' ∉ a ++ '.' :: (b ++ '.' :: c) := by
    simp [ha.noNul, hb.noNul, hc.noNul]
  exact takeWhile_ne_eq_self_iff.mpr hnul

theorem parseVersion_of_numbers {s : Text} {v : Version} (h : Numbers (cStr s) v) : parseVersion s = v := by
  rw [parseVersion, scanVersion_eq_some_iff.mpr h, Option.getD_some]

theorem Spells.parse {s : Text} {v : Version} (h : Spells s v) : parseVersion s = v := by
  apply parseVersion_of_numbers
  rw [h.cStr_eq]
  exact h.numbers

theorem digits_toDigits (n : Nat) : Digits (Nat.toDigits 10 n) :=
  ⟨Nat.toDigits_ne_nil, DecimalText.digits_toDigits n⟩

theorem natOfDigits_toDigits (n : Nat) : natOfDigits (Nat.toDigits 10 n) = n := by
  rw [natOfDigits, ← Nat.ofDigitChars_eq_foldl, Nat.ofDigitChars_ten_toDigits]

theorem spells_toText {a b c : Nat} (h : a < 2 ^ 31 ∧ b < 2 ^ 31 ∧ c < 2 ^ 31) :
    Spells (Version.toText ⟨a, b, c⟩) ⟨a, b, c⟩ := by
  refine ⟨_, _, _, digits_toDigits a, digits_toDigits b, digits_toDigits c, ?_, ?_, ?_⟩
  · simp only [Version.toText, toString_nat, List.append_assoc, List.cons_append, List.nil_append]
  · simpa only [natOfDigits_toDigits] using h
  · simp only [natOfDigits_toDigits]

/-- Rendering and parsing are inverse to each other. -/
theorem parseVersion_toText {a b c : Nat} (h : a < 2 ^ 31 ∧ b < 2 ^ 31 ∧ c < 2 ^ 31) :
    parseVersion (Version.toText ⟨a, b, c⟩) = ⟨a, b, c⟩ :=
  (spells_toText h).parse

/-! ## When a version is what it looks like -/

/-- `parse_version` gives what is spelled and rejects the rest, and a version that passes the anti-rollback check is the
text of what is compared. -/
structure VersionExact (s : Text) : Prop where
  spelled : ∀ v, Spells s v → parseVersion s = v
  rejected : (∀ v, ¬Spells s v) → parseVersion s = ⟨0, 0, 0⟩
  compared : ∀ current cmd, cmd.version = s → versionError current cmd = none → (parseVersion s).toText = s

/-- What `sscanf` takes is greater than some version. -/
theorem exists_versionError_none (cmd : OtaCommand) (h : parseVersion cmd.version ≠ ⟨0, 0, 0⟩) :
    ∃ current, versionError current cmd = none := by
  refine ⟨⟨(parseVersion cmd.version).major - 1, 0, 0⟩, ?_⟩
  have hgreater : (parseVersion cmd.version).greater ⟨(parseVersion cmd.version).major - 1, 0, 0⟩ = true := by
    unfold Version.greater
    dsimp only
    rw [if_pos (by omega)]
    exact decide_eq_true (by omega)
  rw [versionError, if_neg h, hgreater]
  rfl

theorem parseVersion_eq_zero {s : Text} (h : ∀ v, Numbers (cStr s) v → v = ⟨0, 0, 0⟩) : parseVersion s = ⟨0, 0, 0⟩ := by
  rw [parseVersion]
  cases hscan : scanVersion (cStr s) with
  | none => rfl
  | some v => exact h v (scanVersion_eq_some_iff.mp hscan)

/-- **Versions.** `parse_version` is exact on a text precisely when `sscanf` takes nothing from it but zeros, or the text
is that of a version. -/
theorem version_format_iff (s : Text) :
    VersionExact s ↔ ((∃ v, Numbers (cStr s) v ∧ v ≠ ⟨0, 0, 0⟩) → Rendered s) := by
  constructor
  · rintro ⟨-, hrejected, hcompared⟩ ⟨v, hv, hne⟩
    have hparse := parseVersion_of_numbers hv
    obtain ⟨w, hw⟩ : ∃ w, Spells s w := by
      by_contra hnone
      exact hne (hparse.symm.trans (hrejected fun w hw => hnone ⟨w, hw⟩))
    obtain ⟨current, hcurrent⟩ := exists_versionError_none ⟨s, [], [], [], []⟩ (hparse ▸ hne)
    have htext := hcompared current _ rfl hcurrent
    rw [hw.parse] at htext
    obtain ⟨a, b, c, -, -, -, -, hrange, rfl⟩ := hw
    exact ⟨_, _, _, hrange, htext.symm⟩
  · intro h
    refine ⟨fun v hv => hv.parse, ?_, ?_⟩
    · intro hnone
      apply parseVersion_eq_zero
      intro v hv
      by_contra hne
      obtain ⟨a, b, c, hrange, rfl⟩ := h ⟨v, hv, hne⟩
      exact hnone _ (spells_toText hrange)
    · rintro current cmd rfl hcurrent
      have hne : parseVersion cmd.version ≠ ⟨0, 0, 0⟩ := by
        intro hzero
        rw [versionError, if_pos hzero] at hcurrent
        cases hcurrent
      obtain ⟨v, hv, hv0⟩ : ∃ v, Numbers (cStr cmd.version) v ∧ v ≠ ⟨0, 0, 0⟩ := by
        by_contra hnone
        exact hne (parseVersion_eq_zero fun v hv => by_contra fun hv0 => hnone ⟨v, hv, hv0⟩)
      obtain ⟨a, b, c, hrange, htext⟩ := h ⟨v, hv, hv0⟩
      rw [htext, parseVersion_toText hrange]

/-- A text behind the numbers is not rejected. -/
theorem release_candidate_accepted : ¬∀ s, VersionExact s := by
  intro h
  have htext := (h "1.2.3rc".toList).compared ⟨1, 0, 0⟩ ⟨"1.2.3rc".toList, [], [], [], []⟩ rfl (by decide)
  exact absurd htext (by decide)

end IbarraGateway.Ota
