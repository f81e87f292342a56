import Mathlib.Data.List.Basic

/-!
# Greedy decoding of connectionist temporal classification

A path has one class for each timestep: a symbol, or `none` for the blank. Decoding drops the blanks and the repetitions of
the class before.

The words that some path of length `T` decodes to are those whose length and number of adjacent equal pairs add up to `T` at
most (`length_collapse_add_repeats_le`, `exists_path`), since a blank has to stand between two equal symbols.
-/

namespace IbarraGateway.Ctc
variable {α : Type} [DecidableEq α]

/-- `prev` is the class before, `none` as well at the start. -/
def decode (prev : Option α) : List (Option α) → List α
  | [] => []
  | none :: path => decode none path
  | some a :: path => if prev = some a then decode (some a) path else a :: decode (some a) path

def collapse (path : List (Option α)) : List α := decode none path

/-- The number of adjacent equal pairs. -/
def repeats : List α → Nat
  | [] => 0
  | [_] => 0
  | a :: b :: s => (if a = b then 1 else 0) + repeats (b :: s)

/-- The timesteps that a word takes behind the class `prev`. -/
def cost (prev : Option α) : List α → Nat
  | [] => 0
  | a :: s => (if prev = some a then 2 else 1) + cost (some a) s

theorem cost_none (s : List α) : cost none s = s.length + repeats s := by
  cases s with
  | nil => rfl
  | cons a s =>
    show 1 + cost (some a) s = _
    induction s generalizing a with
    | nil => rfl
    | cons b s ih =>
      have hb := ih b
      simp only [cost, repeats, List.length_cons, Option.some.injEq] at hb ⊢
      split <;> omega

theorem cost_le_cost_none (prev : Option α) (s : List α) : cost prev s ≤ cost none s + 1 := by
  cases s with
  | nil => exact Nat.zero_le _
  | cons a s =>
    show (if prev = some a then 2 else 1) + _ ≤ 1 + _ + 1
    split <;> omega

/-- A path is at least as long as its word takes. -/
theorem cost_decode_le (prev : Option α) (path : List (Option α)) : cost prev (decode prev path) ≤ path.length := by
  induction path generalizing prev with
  | nil => exact Nat.le_refl 0
  | cons c path ih =>
    cases c with
    | none =>
      have hle := cost_le_cost_none prev (decode none path)
      have hpath := ih none
      show cost prev (decode none path) ≤ path.length + 1
      omega
    | some a =>
      have hpath := ih (some a)
      show cost prev (if prev = some a then decode (some a) path else a :: decode (some a) path) ≤ path.length + 1
      split
      · rename_i hprev
        rw [hprev]
        omega
      · rename_i hprev
        rw [cost, if_neg hprev]
        omega

/-- The shortest path of a word. -/
def shortest (prev : Option α) : List α → List (Option α)
  | [] => []
  | a :: s => if prev = some a then none :: some a :: shortest (some a) s else some a :: shortest (some a) s

theorem length_shortest (prev : Option α) (s : List α) : (shortest prev s).length = cost prev s := by
  induction s generalizing prev with
  | nil => rfl
  | cons a s ih =>
    have hs := ih (some a)
    rw [shortest, cost]
    split
    · rw [List.length_cons, List.length_cons]
      omega
    · rw [List.length_cons]
      omega

/-- The word comes back, with any number of blanks behind it. -/
theorem decode_shortest (prev : Option α) (s : List α) (k : Nat) :
    decode prev (shortest prev s ++ List.replicate k none) = s := by
  induction s generalizing prev with
  | nil =>
    induction k generalizing prev with
    | zero => rfl
    | succ k ih => exact ih none
  | cons a s ih =>
    rw [shortest]
    split
    · show decode none (some a :: (shortest (some a) s ++ List.replicate k none)) = _
      rw [decode, if_neg nofun, ih]
    · rename_i hprev
      show decode prev (some a :: (shortest (some a) s ++ List.replicate k none)) = _
      rw [decode, if_neg hprev, ih]

theorem mem_shortest {prev : Option α} {s : List α} {a : α} (h : some a ∈ shortest prev s) : a ∈ s := by
  induction s generalizing prev with
  | nil => cases h
  | cons b s ih =>
    rw [shortest] at h
    have hrest : some a = some b ∨ some a ∈ shortest (some b) s := by
      split at h
      · exact List.mem_cons.mp ((List.mem_cons.mp h).resolve_left nofun)
      · exact List.mem_cons.mp h
    rcases hrest with heq | hmem
    · cases heq
      exact List.mem_cons_self
    · exact List.mem_cons_of_mem _ (ih hmem)

theorem length_collapse_add_repeats_le (path : List (Option α)) :
    (collapse path).length + repeats (collapse path) ≤ path.length := by
  rw [← cost_none]
  exact cost_decode_le none path

/-- A word that takes no more timesteps than there are has a path, of its own symbols. -/
theorem exists_path {T : Nat} {s : List α} (hle : s.length + repeats s ≤ T) :
    ∃ path, path.length = T ∧ (∀ a, some a ∈ path → a ∈ s) ∧ collapse path = s := by
  rw [← cost_none] at hle
  refine ⟨shortest none s ++ List.replicate (T - cost none s) none, ?_, ?_, decode_shortest none s _⟩
  · rw [List.length_append, length_shortest, List.length_replicate]
    omega
  · intro a ha
    rcases List.mem_append.mp ha with hmem | hblank
    · exact mem_shortest hmem
    · cases (List.mem_replicate.mp hblank).2

/-! ## Counting pairs -/

/-- Two words that meet in different symbols. -/
theorem repeats_append {s t : List α} (h : ∀ a ∈ s.getLast?, ∀ b ∈ t.head?, a ≠ b) :
    repeats (s ++ t) = repeats s + repeats t := by
  induction s with
  | nil => exact (Nat.zero_add _).symm
  | cons a s ih =>
    cases s with
    | nil =>
      cases t with
      | nil => rfl
      | cons b t =>
        have hab : a ≠ b := h a rfl b rfl
        show (if a = b then 1 else 0) + repeats (b :: t) = 0 + repeats (b :: t)
        rw [if_neg hab]
    | cons b s =>
      have hrest := ih h
      show (if a = b then 1 else 0) + repeats (b :: s ++ t) = (if a = b then 1 else 0) + repeats (b :: s) + repeats t
      rw [hrest, Nat.add_assoc]

/-- A symbol that neither side has where it stands. -/
theorem repeats_separated {s t : List α} {a : α} (hs : ∀ b ∈ s, b ≠ a) (ht : ∀ b ∈ t.head?, b ≠ a) :
    repeats (s ++ a :: t) = repeats s + repeats t := by
  have hmeet : ∀ b ∈ s.getLast?, ∀ c ∈ (a :: t).head?, b ≠ c := by
    intro b hb c hc
    cases hc
    exact hs b (List.mem_of_mem_getLast? hb)
  have hrest : repeats (a :: t) = repeats t := by
    cases t with
    | nil => rfl
    | cons b t =>
      have hab : a ≠ b := Ne.symm (ht b rfl)
      rw [repeats, if_neg hab, Nat.zero_add]
  rw [repeats_append hmeet, hrest]

end IbarraGateway.Ctc
