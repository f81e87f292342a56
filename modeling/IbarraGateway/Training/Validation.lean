import IbarraGateway.Training.Train
import Mathlib

/-!
# Validation and early stopping

`character_accuracy`, the rates of `validate`, and the loop over the epochs in `main` of the training. A loss is a number, an
infinity, or `none` where it is not a number.

* `full_rates_iff` : what it means that a rate is 1, whatever the batches.
* `early_stopping` : when the loop ends, and what it has found by then.
-/

namespace IbarraGateway.Training

/-! ## The rates -/

/-- The places at which a decoded text and the label have the same character. -/
def countEqual (pred gt : List Char) : Nat := (pred.zip gt).countP fun x => x.1 = x.2

/-- `total_chars` and `correct_chars`. -/
def characterCounts : List (List Char × List Char) → Nat × Nat
  | [] => (0, 0)
  | (pred, gt) :: pairs =>
    let counts := characterCounts pairs
    (counts.1 + gt.length, counts.2 + countEqual pred gt)

def characterAccuracy (pairs : List (List Char × List Char)) : ℚ :=
  let counts := characterCounts pairs
  if counts.1 = 0 then 1 else counts.2 / counts.1

def exactMatchRate (pairs : List (List Char × List Char)) : ℚ :=
  let total := pairs.length
  if 0 < total then (pairs.countP fun x => x.1 = x.2 : Nat) / total else 0

/-- What the loader gives and what the network answers: one matrix and one label for each item, of indices into `CHARS`. -/
structure Batch (K : Type) where
  logProbs : List (List (Fin numClasses → K))
  targets : List (List (Fin chars.length))

section Validate
variable {K : Type} (argmax : (Fin numClasses → K) → Fin numClasses)

def decodeItem (rows : List (Fin numClasses → K)) : List Char := decodeCtc (rows.map fun row => (argmax row).val)

/-- `"".join(CHARS[i] for i in gt_tensor.tolist())`. -/
def targetText (target : List (Fin chars.length)) : List Char := target.map chars.get

/-- The texts that `validate` compares, over all batches. -/
def validatePairs (batches : List (Batch K)) : List (List Char × List Char) :=
  let fullLogProbs := batches.flatMap Batch.logProbs
  let allTargetLists := batches.flatMap Batch.targets
  (fullLogProbs.map (decodeItem argmax)).zip (allTargetLists.map targetText)

end Validate

theorem countEqual_le (pred gt : List Char) : countEqual pred gt ≤ gt.length := by
  have hle : (pred.zip gt).countP (fun x => x.1 = x.2) ≤ (pred.zip gt).length := List.countP_le_length
  rw [List.length_zip] at hle
  exact hle.trans (Nat.min_le_right _ _)

/-- All places are equal when the label begins the decoded text. -/
theorem countEqual_eq_iff (pred gt : List Char) : countEqual pred gt = gt.length ↔ gt <+: pred := by
  induction gt generalizing pred with
  | nil => simp [countEqual]
  | cons g gt ih =>
    cases pred with
    | nil => simp [countEqual]
    | cons c pred =>
      have hle := countEqual_le pred gt
      have hcount : countEqual (c :: pred) (g :: gt) = countEqual pred gt + if c = g then 1 else 0 := by
        simp [countEqual, List.countP_cons]
      rw [hcount, List.length_cons, List.cons_prefix_cons, ← ih]
      split
      · rename_i heq
        simp [heq]
      · rename_i hne
        simp only [Nat.add_zero, show ¬g = c from fun heq => hne heq.symm, false_and, iff_false]
        omega

theorem characterCounts_le (pairs : List (List Char × List Char)) : (characterCounts pairs).2 ≤ (characterCounts pairs).1 := by
  induction pairs with
  | nil => exact Nat.le_refl 0
  | cons x pairs ih =>
    have hle := countEqual_le x.1 x.2
    show (characterCounts pairs).2 + countEqual x.1 x.2 ≤ (characterCounts pairs).1 + x.2.length
    omega

theorem characterCounts_eq_iff (pairs : List (List Char × List Char)) :
    (characterCounts pairs).2 = (characterCounts pairs).1 ↔ ∀ x ∈ pairs, x.2 <+: x.1 := by
  induction pairs with
  | nil => simp [characterCounts]
  | cons x pairs ih =>
    have hle := countEqual_le x.1 x.2
    have hrest := characterCounts_le pairs
    rw [List.forall_mem_cons, ← ih, ← countEqual_eq_iff]
    show (characterCounts pairs).2 + countEqual x.1 x.2 = (characterCounts pairs).1 + x.2.length ↔ _
    omega

theorem characterAccuracy_eq_one_iff (pairs : List (List Char × List Char)) :
    characterAccuracy pairs = 1 ↔ ∀ x ∈ pairs, x.2 <+: x.1 := by
  have hle := characterCounts_le pairs
  rw [← characterCounts_eq_iff]
  unfold characterAccuracy
  dsimp only
  split
  · rename_i hzero
    exact iff_of_true rfl (by omega)
  · rename_i hne
    rw [div_eq_one_iff_eq (Nat.cast_ne_zero.mpr hne), Nat.cast_inj]

theorem exactMatchRate_eq_one_iff (pairs : List (List Char × List Char)) :
    exactMatchRate pairs = 1 ↔ pairs ≠ [] ∧ ∀ x ∈ pairs, x.1 = x.2 := by
  unfold exactMatchRate
  dsimp only
  split
  · rename_i hpos
    rw [div_eq_one_iff_eq (Nat.cast_ne_zero.mpr hpos.ne'), Nat.cast_inj, List.countP_eq_length,
      and_iff_right (List.ne_nil_of_length_pos hpos)]
    simp
  · rename_i hzero
    have hnil : pairs = [] := List.eq_nil_of_length_eq_zero (by omega)
    simp [hnil]

/-- Batches are put together item by item. -/
theorem zip_flatMap {α β γ : Type} {f : α → List β} {g : α → List γ} {xs : List α} (h : ∀ x ∈ xs, (f x).length = (g x).length) :
    (xs.flatMap f).zip (xs.flatMap g) = xs.flatMap fun x => (f x).zip (g x) := by
  induction xs with
  | nil => rfl
  | cons x xs ih =>
    obtain ⟨hx, hxs⟩ := List.forall_mem_cons.mp h
    rw [List.flatMap_cons, List.flatMap_cons, List.flatMap_cons, List.zip_append hx, ih hxs]

section Validate
variable {K : Type} (argmax : (Fin numClasses → K) → Fin numClasses)

/-- An item of a batch, decoded, and its label. -/
def Batch.pairs (b : Batch K) : List (List Char × List Char) :=
  (b.logProbs.map (decodeItem argmax)).zip (b.targets.map targetText)

theorem validatePairs_eq {batches : List (Batch K)} (h : ∀ b ∈ batches, b.logProbs.length = b.targets.length) :
    validatePairs argmax batches = batches.flatMap (Batch.pairs argmax) := by
  have hlength : ∀ b ∈ batches, (b.logProbs.map (decodeItem argmax)).length = (b.targets.map targetText).length := by
    simpa using h
  show ((batches.flatMap Batch.logProbs).map (decodeItem argmax)).zip ((batches.flatMap Batch.targets).map targetText) = _
  rw [List.map_flatMap, List.map_flatMap, zip_flatMap hlength]
  rfl

theorem forall_pairs_iff {R : List Char → List Char → Prop} {b : Batch K} (h : b.logProbs.length = b.targets.length) :
    (∀ x ∈ b.pairs argmax, R x.2 x.1) ↔
      List.Forall₂ R (b.targets.map targetText) (b.logProbs.map (decodeItem argmax)) := by
  have hswap : b.pairs argmax =
      ((b.targets.map targetText).zip (b.logProbs.map (decodeItem argmax))).map Prod.swap := (List.zip_swap _ _).symm
  rw [List.forall₂_iff_zip, and_iff_right (by simp [h]), hswap, List.forall_mem_map, Prod.forall]
  rfl

/-- **What a rate of 1 means**, however the test set is cut into batches: all labels are decoded for the exact matches, and for
the characters only that every decoded text begins with its label. -/
theorem full_rates_iff (batches : List (Batch K)) (h : ∀ b ∈ batches, b.logProbs.length = b.targets.length) :
    (exactMatchRate (validatePairs argmax batches) = 1 ↔
        (∃ b ∈ batches, b.targets ≠ []) ∧ ∀ b ∈ batches, b.targets.map targetText = b.logProbs.map (decodeItem argmax)) ∧
      (characterAccuracy (validatePairs argmax batches) = 1 ↔ ∀ b ∈ batches,
        List.Forall₂ (fun gt pred => gt <+: pred) (b.targets.map targetText) (b.logProbs.map (decodeItem argmax))) := by
  have hall {R : List Char → List Char → Prop} : (∀ x ∈ batches.flatMap (Batch.pairs argmax), R x.2 x.1) ↔
      ∀ b ∈ batches, List.Forall₂ R (b.targets.map targetText) (b.logProbs.map (decodeItem argmax)) := by
    rw [List.forall_mem_flatMap]
    exact forall₂_congr fun b hb => forall_pairs_iff argmax (h b hb)
  rw [exactMatchRate_eq_one_iff, characterAccuracy_eq_one_iff, validatePairs_eq argmax h]
  refine ⟨and_congr ?_ ?_, hall⟩
  · rw [ne_eq, List.flatMap_eq_nil_iff]
    push Not
    refine exists_congr fun b => and_congr_right fun hb => ?_
    have hb := h b hb
    rw [← List.length_pos_iff, ← List.length_pos_iff, Batch.pairs, List.length_zip, List.length_map, List.length_map, hb,
      Nat.min_self]
  · simpa only [List.forall₂_eq_eq_eq, eq_comm] using hall (R := fun gt pred => gt = pred)

end Validate

theorem zero_lt_numClasses : 0 < numClasses := by decide

theorem one_lt_numClasses : 1 < numClasses := by decide

theorem zero_lt_chars : 0 < chars.length := by decide

/-- The class that a matrix has everywhere in its row. -/
def zeroOrOne (row : Fin numClasses → Bool) : Fin numClasses :=
  if row ⟨1, one_lt_numClasses⟩ then ⟨1, one_lt_numClasses⟩ else ⟨0, zero_lt_numClasses⟩

/-- The text `01`, for the label `0`. -/
def longer : Batch Bool := ⟨[[fun _ => false, fun _ => true]], [[⟨0, zero_lt_chars⟩]]⟩

/-- A character too many is not counted. -/
theorem longer_rates : characterAccuracy (validatePairs zeroOrOne [longer]) = 1 ∧
    exactMatchRate (validatePairs zeroOrOne [longer]) ≠ 1 := by
  have hiff := full_rates_iff zeroOrOne [longer] (List.forall_mem_singleton.mpr rfl)
  constructor
  · exact hiff.2.mpr (List.forall_mem_singleton.mpr (.cons ⟨['1'], rfl⟩ .nil))
  · intro hexact
    have heq := List.forall_mem_singleton.mp (hiff.1.mp hexact).2
    revert heq
    decide

/-! ## The loop over the epochs -/

section Stopping
variable {K : Type} [LinearOrder K]

/-- `best_val_loss`, `best_epoch` and `patience_counter`. -/
structure Stopping (K : Type) where
  bestValLoss : WithTop K
  bestEpoch : Int
  patienceCounter : Nat

def Stopping.start : Stopping K := ⟨⊤, -1, 0⟩

/-- An epoch without an improvement. -/
def Stopping.wait (s : Stopping K) (patience : Int) : Stopping K × Bool :=
  let patienceCounter := s.patienceCounter + 1
  ({ s with patienceCounter }, decide (patience ≤ patienceCounter))

/-- The end of an epoch, and whether the loop is left; a comparison with what is not a number fails. -/
def Stopping.after (s : Stopping K) (patience : Int) (epoch : Nat) (valLoss : Option (WithTop K)) : Stopping K × Bool :=
  match valLoss with
  | some loss => if loss < s.bestValLoss then (⟨loss, epoch, 0⟩, false) else s.wait patience
  | none => s.wait patience

/-- The loop, `epoch` epochs after its start, when `left` are left: the last epoch, and the state. -/
def trainLoop (patience : Int) (valLoss : Nat → Option (WithTop K)) : Nat → Nat → Stopping K → Nat × Stopping K
  | 0, epoch, s => (epoch, s)
  | left + 1, epoch, s =>
    let (s', stopped) := s.after patience (epoch + 1) (valLoss (epoch + 1))
    if stopped then (epoch + 1, s') else trainLoop patience valLoss left (epoch + 1) s'

/-- The smallest loss of the first `n` epochs, and the first epoch that had it; where none was below infinity, -1. -/
structure FirstBest (valLoss : Nat → Option (WithTop K)) (n : Nat) (s : Stopping K) : Prop where
  best_le : ∀ e loss, 1 ≤ e → e ≤ n → valLoss e = some loss → s.bestValLoss ≤ loss
  best_epoch : (s.bestEpoch = -1 ∧ s.bestValLoss = ⊤ ∧ ∀ e loss, 1 ≤ e → e ≤ n → valLoss e = some loss → loss = ⊤) ∨
    ∃ e : Nat, s.bestEpoch = e ∧ s.bestValLoss ≠ ⊤ ∧ 1 ≤ e ∧ e ≤ n ∧ valLoss e = some s.bestValLoss ∧
      ∀ e' loss, 1 ≤ e' → e' < e → valLoss e' = some loss → s.bestValLoss < loss
  counter : (s.patienceCounter : Int) = n - max s.bestEpoch 0

section Loop
variable {valLoss : Nat → Option (WithTop K)} {n : Nat} {s : Stopping K}

theorem firstBest_start : FirstBest valLoss 0 .start :=
  ⟨fun e loss hpos hle => by omega, .inl ⟨rfl, rfl, fun e loss hpos hle => by omega⟩, rfl⟩

theorem FirstBest.improved (h : FirstBest valLoss n s) {loss : WithTop K} (hloss : valLoss (n + 1) = some loss)
    (hlt : loss < s.bestValLoss) : FirstBest valLoss (n + 1) ⟨loss, (n + 1 : Nat), 0⟩ := by
  refine ⟨fun e loss' hpos hle he => ?_, .inr ⟨n + 1, rfl, hlt.ne_top, by omega, le_rfl, hloss,
    fun e loss' hpos hlt' he => ?_⟩, ?_⟩
  · rcases Nat.lt_or_eq_of_le hle with hbefore | rfl
    · exact hlt.le.trans (h.best_le e loss' hpos (by omega) he)
    · rw [hloss] at he
      exact (Option.some.inj he).le
  · exact hlt.trans_le (h.best_le e loss' hpos (by omega) he)
  · show ((0 : Nat) : Int) = (n + 1 : Nat) - max ((n + 1 : Nat) : Int) 0
    omega

theorem FirstBest.waited (h : FirstBest valLoss n s) (hnot : ∀ loss, valLoss (n + 1) = some loss → s.bestValLoss ≤ loss) :
    FirstBest valLoss (n + 1) { s with patienceCounter := s.patienceCounter + 1 } := by
  have hbest_le : ∀ e loss, 1 ≤ e → e ≤ n + 1 → valLoss e = some loss → s.bestValLoss ≤ loss := by
    intro e loss hpos hle he
    rcases Nat.lt_or_eq_of_le hle with hbefore | rfl
    · exact h.best_le e loss hpos (by omega) he
    · exact hnot loss he
  refine ⟨hbest_le, ?_, ?_⟩
  · rcases h.best_epoch with ⟨hnone, htop, -⟩ | ⟨e, he, hfinite, hpos, hle, hbest, hfirst⟩
    · exact .inl ⟨hnone, htop, fun e loss hpos hle he => top_le_iff.mp (htop ▸ hbest_le e loss hpos hle he)⟩
    · exact .inr ⟨e, he, hfinite, hpos, by omega, hbest, hfirst⟩
  · have hcounter := h.counter
    show ((s.patienceCounter + 1 : Nat) : Int) = (n + 1 : Nat) - max s.bestEpoch 0
    omega

/-- **Step lemma**: the loop is left when the patience is at its end, and then only. -/
theorem FirstBest.after (h : FirstBest valLoss n s) (patience : Int) :
    let r := s.after patience (n + 1) (valLoss (n + 1))
    FirstBest valLoss (n + 1) r.1 ∧ max s.bestEpoch 0 ≤ max r.1.bestEpoch 0 ∧
      (r.2 = true ↔ max r.1.bestEpoch 0 + max patience 1 ≤ (n + 1 : Nat)) := by
  have hcounter := h.counter
  have hwait (hnot : ∀ loss, valLoss (n + 1) = some loss → s.bestValLoss ≤ loss) :
      FirstBest valLoss (n + 1) (s.wait patience).1 ∧ max s.bestEpoch 0 ≤ max (s.wait patience).1.bestEpoch 0 ∧
        ((s.wait patience).2 = true ↔ max (s.wait patience).1.bestEpoch 0 + max patience 1 ≤ (n + 1 : Nat)) := by
    refine ⟨h.waited hnot, le_rfl, ?_⟩
    show decide (patience ≤ (s.patienceCounter + 1 : Nat)) = true ↔ max s.bestEpoch 0 + max patience 1 ≤ (n + 1 : Nat)
    rw [decide_eq_true_iff]
    omega
  unfold Stopping.after
  cases hloss : valLoss (n + 1) with
  | none => exact hwait fun loss heq => by rw [hloss] at heq; cases heq
  | some loss =>
    dsimp only
    split
    · rename_i hlt
      refine ⟨h.improved hloss hlt, ?_, iff_of_false (by simp) ?_⟩
      · show max s.bestEpoch 0 ≤ max ((n + 1 : Nat) : Int) 0
        omega
      · show ¬max ((n + 1 : Nat) : Int) 0 + max patience 1 ≤ (n + 1 : Nat)
        omega
    · rename_i hnot
      refine hwait fun loss' heq => ?_
      rw [hloss] at heq
      exact (Option.some.inj heq) ▸ not_lt.mp hnot

end Loop

/-- After `k` epochs, the patience is not at its end. -/
def Patient (patience : Int) (valLoss : Nat → Option (WithTop K)) (k : Nat) : Prop :=
  ∃ s, FirstBest valLoss k s ∧ k < max s.bestEpoch 0 + max patience 1

/-- **Run lemma**, by induction on the epochs that are left. -/
theorem trainLoop_spec (patience : Int) (valLoss : Nat → Option (WithTop K)) (left epoch : Nat) (s : Stopping K)
    (h : FirstBest valLoss epoch s) (hpatient : (epoch : Int) < max s.bestEpoch 0 + max patience 1)
    (hbefore : ∀ k < epoch, Patient patience valLoss k) :
    let r := trainLoop patience valLoss left epoch s
    FirstBest valLoss r.1 r.2 ∧ (r.1 : Int) = min ((epoch + left : Nat) : Int) (max r.2.bestEpoch 0 + max patience 1) ∧
      ∀ k < r.1, Patient patience valLoss k := by
  induction left generalizing epoch s with
  | zero => exact ⟨h, (min_eq_left hpatient.le).symm, hbefore⟩
  | succ left ih =>
    obtain ⟨hafter, hlater, hstopped⟩ := h.after patience
    have hbefore' : ∀ k < epoch + 1, Patient patience valLoss k := by
      intro k hk
      rcases Nat.lt_or_eq_of_le (Nat.le_of_lt_succ hk) with hlt | rfl
      · exact hbefore k hlt
      · exact ⟨s, h, hpatient⟩
    rw [trainLoop]
    dsimp only
    split
    · rename_i hstop
      have hend := hstopped.mp hstop
      refine ⟨hafter, ?_, hbefore'⟩
      show ((epoch + 1 : Nat) : Int) = min ((epoch + (left + 1) : Nat) : Int)
        (max (s.after patience (epoch + 1) (valLoss (epoch + 1))).1.bestEpoch 0 + max patience 1)
      omega
    · rename_i hgoes
      have hrest := ih (epoch + 1) _ hafter (not_le.mp fun hle => hgoes (hstopped.mpr hle)) hbefore'
      rw [show epoch + 1 + left = epoch + (left + 1) by omega] at hrest
      exact hrest

/-- **Early stopping.** The loop runs through all epochs, or leaves off after the first one at which the smallest loss so far is
`patience` epochs old (at least one); the state then has the smallest loss of the epochs that were run and the first epoch that
had it, or the epoch -1 where no loss was below infinity. -/
theorem early_stopping (patience : Int) (valLoss : Nat → Option (WithTop K)) (epochs last : Nat) (s : Stopping K)
    (hrun : trainLoop patience valLoss epochs 0 .start = (last, s)) :
    FirstBest valLoss last s ∧ (last : Int) = min (epochs : Int) (max s.bestEpoch 0 + max patience 1) ∧
      ∀ k < last, Patient patience valLoss k := by
  have hspec := trainLoop_spec patience valLoss epochs 0 .start firstBest_start
    (show (0 : Int) < max (-1) 0 + max patience 1 by omega) (by simp)
  rw [hrun, Nat.zero_add] at hspec
  exact hspec

/-- The loss goes down, is no number once, and goes up. -/
def bumpy (e : Nat) : Option (WithTop Nat) := if e = 3 then none else if e ≤ 4 then some (10 - e : Nat) else some (e + 10 : Nat)

/-- The loop leaves off at the sixth epoch, two behind the best one. -/
theorem bumpy_stops : FirstBest bumpy 6 ⟨(6 : Nat), 4, 2⟩ :=
  (early_stopping 2 bumpy 100 6 ⟨(6 : Nat), 4, 2⟩ rfl).1

end Stopping

end IbarraGateway.Training
