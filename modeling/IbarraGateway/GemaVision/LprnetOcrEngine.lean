import IbarraGateway.Training.Train
import Mathlib

/-!
# The decoder of the OCR engine

`greedy_ctc_decode` on the network's logits, `decode_ctc` of the training on the same ones.

* `argmax_spec` : the loop over the classes finds the first maximum.
* `greedyCtcDecode_eq` : the loop over the timesteps is the greedy decoding of the class each timestep has; a timestep with a
  logit that is not finite has none.
-/

namespace IbarraGateway.GemaVision

/-- A logit: finite, or what `std::isfinite` refuses. -/
inductive Logit (K : Type)
  | finite (v : K)
  | nonFinite
  deriving DecidableEq, Repr

namespace LprnetOcrEngine

/-- `kCharMap`; the last one is the blank. -/
def kCharMap : List Char :=
  ['0', '1', '2', '3', '4', '5', '6', '7', '8', '9', '/', ':', 'L', 'O', 'T', 'E', 'V', 'N', 'C', '\x00']

def kNumClasses : Nat := 20

def kBlankIdx : Nat := 19

/-! ## `greedy_ctc_decode` -/

section Decode
variable {K : Type}

def isFinite : Logit K → Bool
  | .finite _ => true
  | .nonFinite => false

/-- `logits[t * num_classes + c]`. -/
def logitAt (logits : List (Logit K)) (numClasses t c : Nat) : Logit K := logits.getD (t * numClasses + c) .nonFinite

/-- The guard of a timestep. -/
def corrupt (logits : List (Logit K)) (numClasses t : Nat) : Bool :=
  (List.range numClasses).any fun c => !isFinite (logitAt logits numClasses t c)

variable [LinearOrder K]

/-- `a > b`, which is only asked of finite logits. -/
def greater : Logit K → Logit K → Bool
  | .finite a, .finite b => decide (b < a)
  | _, _ => false

/-- One turn of the loop over the classes, on `max_idx` and `max_val`. -/
def argmaxStep (row : Nat → Logit K) (best : Nat × Logit K) (c : Nat) : Nat × Logit K :=
  if greater (row c) best.2 then (c, row c) else best

def argmax (row : Nat → Logit K) (numClasses : Nat) : Nat :=
  ((List.range' 1 (numClasses - 1)).foldl (argmaxStep row) (0, row 0)).1

/-- The variables of the loop over the timesteps; `prevChar` is `none` for -1. -/
structure DecodeState where
  prevChar : Option Nat := none
  result : List Char := []
  deriving DecidableEq, Repr

/-- The end of a turn: the class is not put out where it is the blank or the one before. -/
def DecodeState.push (s : DecodeState) (maxIdx : Nat) : DecodeState where
  prevChar := some maxIdx
  result := if maxIdx ≠ kBlankIdx ∧ some maxIdx ≠ s.prevChar then s.result ++ [kCharMap.getD maxIdx '\x00'] else s.result

/-- One turn of the loop over the timesteps. -/
def decodeStep (logits : List (Logit K)) (numClasses : Nat) (s : DecodeState) (t : Nat) : DecodeState :=
  if corrupt logits numClasses t then { s with prevChar := none }
  else s.push (argmax (logitAt logits numClasses t) numClasses)

/-- `greedy_ctc_decode`; the null pointer is `none`. -/
def greedyCtcDecode (logits : Option (List (Logit K))) (timesteps numClasses : Int) : List Char :=
  match logits with
  | none => []
  | some logits =>
    if timesteps ≤ 0 ∨ numClasses ≤ 0 then []
    else ((List.range timesteps.toNat).foldl (decodeStep logits numClasses.toNat) {}).result

end Decode

/-! ## The first maximum -/

section Argmax
variable {K : Type}

/-- A row of finite logits as the loop reads it. -/
def finiteRow {n : Nat} (row : Fin n → K) (c : Nat) : Logit K :=
  if h : c < n then .finite (row ⟨c, h⟩) else .nonFinite

theorem finiteRow_of_lt {n : Nat} {row : Fin n → K} {c : Nat} (h : c < n) : finiteRow row c = .finite (row ⟨c, h⟩) :=
  dif_pos h

variable [LinearOrder K]

/-- The index of the first maximum. -/
structure FirstMaximum {n : Nat} (row : Fin n → K) (i : Fin n) : Prop where
  le : ∀ j, row j ≤ row i
  lt : ∀ j < i, row j < row i

theorem FirstMaximum.unique {n : Nat} {row : Fin n → K} {i j : Fin n} (hi : FirstMaximum row i) (hj : FirstMaximum row j) :
    i = j := by
  rcases lt_trichotomy i j with hlt | heq | hgt
  · exact absurd (hi.le j) (not_le.mpr (hj.lt i hlt))
  · exact heq
  · exact absurd (hj.le i) (not_le.mpr (hi.lt j hgt))

/-- What holds before the turn of class `c`: `best` is the first maximum of the classes so far. -/
structure BestOf {n : Nat} (row : Fin n → K) (c : Nat) (best : Nat × Logit K) : Prop where
  before : best.1 < c
  value : best.2 = finiteRow row best.1
  le : ∀ (j : Fin n) (i : Fin n), j.val < c → i.val = best.1 → row j ≤ row i
  lt : ∀ (j : Fin n) (i : Fin n), j.val < best.1 → i.val = best.1 → row j < row i

theorem BestOf.step {n : Nat} {row : Fin n → K} {c : Nat} {best : Nat × Logit K} (h : BestOf row c best) (hc : c < n) :
    BestOf row (c + 1) (argmaxStep (finiteRow row) best c) := by
  have hbest : best.1 < n := Nat.lt_trans h.before hc
  have hvalue : best.2 = .finite (row ⟨best.1, hbest⟩) := by rw [h.value, finiteRow_of_lt hbest]
  have hgreater : greater (finiteRow row c) best.2 = decide (row ⟨best.1, hbest⟩ < row ⟨c, hc⟩) := by
    rw [finiteRow_of_lt hc, hvalue, greater]
  have hsofar : ∀ j : Fin n, j.val < c → row j ≤ row ⟨best.1, hbest⟩ := fun j hj => h.le j _ hj rfl
  rw [argmaxStep, hgreater]
  by_cases hlt : row ⟨best.1, hbest⟩ < row ⟨c, hc⟩
  · rw [if_pos (decide_eq_true hlt)]
    refine ⟨Nat.lt_succ_self c, rfl, ?_, ?_⟩
    · intro j i hj hi
      obtain rfl : i = ⟨c, hc⟩ := Fin.ext hi
      rcases Nat.lt_succ_iff_lt_or_eq.mp hj with hbefore | hsame
      · exact (lt_of_le_of_lt (hsofar j hbefore) hlt).le
      · exact le_of_eq (congrArg row (Fin.ext hsame))
    · intro j i hj hi
      obtain rfl : i = ⟨c, hc⟩ := Fin.ext hi
      exact lt_of_le_of_lt (hsofar j hj) hlt
  · rw [if_neg (by rw [decide_eq_true_eq]; exact hlt)]
    refine ⟨Nat.lt_succ_of_lt h.before, h.value, ?_, h.lt⟩
    intro j i hj hi
    rcases Nat.lt_succ_iff_lt_or_eq.mp hj with hbefore | hsame
    · exact h.le j i hbefore hi
    · obtain rfl : i = ⟨best.1, hbest⟩ := Fin.ext hi
      obtain rfl : j = ⟨c, hc⟩ := Fin.ext hsame
      exact not_lt.mp hlt

theorem BestOf.foldl {n : Nat} {row : Fin n → K} {k c : Nat} {best : Nat × Logit K} (h : BestOf row c best)
    (hk : c + k ≤ n) : BestOf row (c + k) ((List.range' c k).foldl (argmaxStep (finiteRow row)) best) := by
  induction k generalizing c best with
  | zero => exact h
  | succ k ih =>
    have hrest := ih (h.step (by omega)) (by omega)
    rw [List.range'_succ, List.foldl_cons]
    rwa [show c + (k + 1) = c + 1 + k by omega]

/-- The loop over the classes finds the first maximum of a row of finite logits. -/
theorem argmax_spec {n : Nat} (row : Fin (n + 1) → K) :
    ∃ i, FirstMaximum row i ∧ argmax (finiteRow row) (n + 1) = i.val := by
  have hstart : BestOf row 1 (0, finiteRow row 0) := by
    refine ⟨Nat.one_pos, rfl, ?_, fun j i hj => absurd hj (Nat.not_lt_zero _)⟩
    intro j i hj hi
    exact le_of_eq (congrArg row (Fin.ext (by omega)))
  have hend := hstart.foldl (k := n) (by omega)
  have hlt : argmax (finiteRow row) (n + 1) < n + 1 := by
    have hbefore : argmax (finiteRow row) (n + 1) < 1 + n := hend.before
    omega
  refine ⟨⟨_, hlt⟩, ⟨fun j => hend.le j _ (by omega) rfl, fun j hj => hend.lt j _ hj rfl⟩, rfl⟩

/-- The first maximum of a row. -/
def firstMaximum {n : Nat} (row : Fin (n + 1) → K) : Fin (n + 1) :=
  ⟨argmax (finiteRow row) (n + 1), by
    obtain ⟨i, -, hi⟩ := argmax_spec row
    rw [hi]
    exact i.isLt⟩

theorem firstMaximum_spec {n : Nat} (row : Fin (n + 1) → K) : FirstMaximum row (firstMaximum row) := by
  obtain ⟨i, hfirst, hi⟩ := argmax_spec row
  rwa [show firstMaximum row = i from Fin.ext hi]

end Argmax

/-! ## Rows -/

/-- A row of the matrix: the logits of one timestep. -/
abbrev Row (K : Type) := Fin kNumClasses → Logit K

section Rows
variable {K : Type}

/-- A matrix as it lies in memory. -/
def flat (rows : List (Row K)) : List (Logit K) := rows.flatMap List.ofFn

/-- A row as the loops read it. -/
def Row.at (row : Row K) (c : Nat) : Logit K := if h : c < kNumClasses then row ⟨c, h⟩ else .nonFinite

/-- The row of finite logits. -/
def finite (row : Fin kNumClasses → K) : Row K := fun c => .finite (row c)

theorem finite_at (row : Fin kNumClasses → K) : Row.at (finite row) = finiteRow row := rfl

theorem flat_getD {rows : List (Row K)} {t c : Nat} (ht : t < rows.length) (hc : c < kNumClasses) :
    logitAt (flat rows) kNumClasses t c = Row.at rows[t] c := by
  induction rows generalizing t with
  | nil => exact absurd ht (Nat.not_lt_zero t)
  | cons row rows ih =>
    have hlength : (List.ofFn row).length = kNumClasses := List.length_ofFn
    unfold logitAt flat at *
    rw [List.flatMap_cons, List.getD_eq_getElem?_getD]
    cases t with
    | zero =>
      rw [Nat.zero_mul, Nat.zero_add, List.getElem?_append_left (by omega), List.getElem?_ofFn]
      show (if h : c < kNumClasses then some (row ⟨c, h⟩) else none).getD _ = Row.at row c
      rw [Row.at, dif_pos hc, dif_pos hc]
      rfl
    | succ t =>
      rw [List.getElem?_append_right (by rw [hlength, Nat.succ_mul]; omega), hlength]
      rw [show (t + 1) * kNumClasses + c - kNumClasses = t * kNumClasses + c by rw [Nat.succ_mul]; omega]
      exact ih (Nat.lt_of_succ_lt_succ ht)

variable [LinearOrder K]

/-- The class that a row is decoded as; none where a logit is not finite. -/
def rowClass (row : Row K) : Option Nat :=
  if (List.range kNumClasses).any fun c => !isFinite (Row.at row c) then none else some (argmax (Row.at row) kNumClasses)

/-- A turn of the loop on the class of its row. -/
def classStep (s : DecodeState) : Option Nat → DecodeState
  | none => { s with prevChar := none }
  | some maxIdx => s.push maxIdx

theorem argmax_congr {v w : Nat → Logit K} {n : Nat} (h : ∀ c < n + 1, v c = w c) : argmax v (n + 1) = argmax w (n + 1) := by
  have hstep : ∀ (best : Nat × Logit K), ∀ c ∈ List.range' 1 n, argmaxStep v best c = argmaxStep w best c := by
    intro best c hc
    have hlt := (List.mem_range'_1.mp hc).2
    rw [argmaxStep, argmaxStep, h c (by omega)]
  unfold argmax
  rw [h 0 (Nat.succ_pos n)]
  exact congrArg Prod.fst (List.foldl_ext _ _ _ hstep)

theorem decodeStep_flat {rows : List (Row K)} {t : Nat} (ht : t < rows.length) (s : DecodeState) :
    decodeStep (flat rows) kNumClasses s t = classStep s (rowClass rows[t]) := by
  have hany : corrupt (flat rows) kNumClasses t = (List.range kNumClasses).any fun c => !isFinite (Row.at rows[t] c) := by
    unfold corrupt
    rw [Bool.eq_iff_iff, List.any_eq_true, List.any_eq_true]
    refine exists_congr fun c => and_congr_right fun hc => ?_
    rw [flat_getD ht (List.mem_range.mp hc)]
  have hargmax : argmax (logitAt (flat rows) kNumClasses t) kNumClasses = argmax (Row.at rows[t]) kNumClasses :=
    argmax_congr fun c hc => flat_getD ht hc
  rw [decodeStep, rowClass, hany, hargmax]
  split <;> rfl

/-- The loop over the timesteps, on the classes of the rows. -/
theorem foldl_decodeStep (rows : List (Row K)) (s : DecodeState) :
    (List.range rows.length).foldl (decodeStep (flat rows) kNumClasses) s = (rows.map rowClass).foldl classStep s := by
  have hclasses : rows.map rowClass = (List.range rows.length).map fun t => rows[t]?.bind rowClass := by
    apply List.ext_getElem
    · simp
    · intro t ht _
      have hlt : t < rows.length := by simpa using ht
      simp [hlt]
  rw [hclasses, List.foldl_map]
  apply List.foldl_ext
  intro s t ht
  have hlt := List.mem_range.mp ht
  rw [decodeStep_flat hlt, List.getElem?_eq_getElem hlt]
  rfl

theorem rowClass_lt {row : Row K} {c : Nat} (h : c ∈ rowClass row) : c < kNumClasses := by
  unfold rowClass at h
  split at h
  · cases h
  · cases h
    rename_i hfinite
    have hrow : ∃ values : Fin kNumClasses → K, row = finite values := by
      have hcell : ∀ c, ∃ v, row c = .finite v := by
        intro c
        cases hc : row c with
        | finite v => exact ⟨v, rfl⟩
        | nonFinite =>
          refine absurd (List.any_eq_true.mpr ⟨c.val, List.mem_range.mpr c.isLt, ?_⟩) hfinite
          rw [Row.at, dif_pos c.isLt, hc]
          rfl
      choose values hvalues using hcell
      exact ⟨values, funext hvalues⟩
    obtain ⟨values, rfl⟩ := hrow
    exact (firstMaximum values).isLt

/-- A row of finite logits has the class of its first maximum. -/
theorem rowClass_finite (row : Fin kNumClasses → K) : rowClass (finite row) = some (firstMaximum row).val := by
  have hnone : ((List.range kNumClasses).any fun c => !isFinite (Row.at (finite row) c)) = false := by
    rw [List.any_eq_false]
    intro c hc
    rw [finite_at, finiteRow_of_lt (List.mem_range.mp hc)]
    exact Bool.false_ne_true
  rw [rowClass, hnone]
  rfl

theorem rowClass_nonFinite {row : Row K} (h : ∃ c, row c = .nonFinite) : rowClass row = none := by
  obtain ⟨c, hc⟩ := h
  have hany : ((List.range kNumClasses).any fun c => !isFinite (Row.at row c)) = true := by
    refine List.any_eq_true.mpr ⟨c.val, List.mem_range.mpr c.isLt, ?_⟩
    rw [Row.at, dif_pos c.isLt, hc]
    rfl
  rw [rowClass, if_pos hany]

end Rows

/-! ## The loop over the timesteps -/

open Training (symbol)

theorem kCharMap_eq {c : Nat} (hc : c < kNumClasses) (hblank : c ≠ kBlankIdx) :
    symbol c = some (kCharMap.getD c '\x00') := by
  have hall : ∀ c < kNumClasses, c ≠ kBlankIdx → symbol c = some (kCharMap.getD c '\x00') := by decide
  exact hall c hc hblank

/-- The turns put out the greedy decoding of the classes. -/
theorem foldl_classStep {classes : List (Option Nat)} (hclasses : ∀ c ∈ classes, ∀ i ∈ c, i < kNumClasses)
    (s : DecodeState) (hprev : ∀ i ∈ s.prevChar, i < kNumClasses) :
    (classes.foldl classStep s).result =
      s.result ++ Ctc.decode (s.prevChar.bind symbol) (classes.map (·.bind symbol)) := by
  induction classes generalizing s with
  | nil => exact (List.append_nil _).symm
  | cons c classes ih =>
    have hrest : ∀ s' : DecodeState, (∀ i ∈ s'.prevChar, i < kNumClasses) → (classes.foldl classStep s').result =
        s'.result ++ Ctc.decode (s'.prevChar.bind symbol) (classes.map (·.bind symbol)) :=
      ih fun d hd => hclasses d (List.mem_cons_of_mem _ hd)
    rw [List.foldl_cons, List.map_cons]
    cases c with
    | none => exact hrest _ nofun
    | some c =>
      have hc := hclasses _ List.mem_cons_self c rfl
      rw [classStep, hrest (s.push c) (fun i hi => by cases hi; exact hc), Option.bind_some]
      show (if c ≠ kBlankIdx ∧ some c ≠ s.prevChar then _ else _) ++ Ctc.decode (symbol c) _ = _
      by_cases hblank : c = kBlankIdx
      · have hsymbol := (Training.symbol_eq_none_iff hc).mpr hblank
        rw [if_neg (fun h => h.1 hblank), hsymbol]
        rfl
      · have hsymbol := kCharMap_eq hc hblank
        have hsame := Training.prev_eq_some_iff hsymbol s.prevChar
        rw [hsymbol, Ctc.decode]
        by_cases hrepeat : s.prevChar = some c
        · rw [if_neg (fun h => h.2 hrepeat.symm), if_pos (hsame.mp hrepeat)]
        · rw [if_pos ⟨hblank, Ne.symm hrepeat⟩, if_neg (fun h => hrepeat (hsame.mpr h)), List.append_assoc]
          rfl

/-! ## What classes stand for -/

/-- Blanks are dropped, the rest is looked up. -/
def lookUp (classes : List Nat) : List Char := (classes.filter (· ≠ kBlankIdx)).map (kCharMap.getD · '\x00')

/-- What the classes of the timesteps stand for: adjacent repeats are collapsed first. -/
def ctcText (classes : List Nat) : List Char := lookUp (classes.destutter (· ≠ ·))

theorem lookUp_cons {c : Nat} (hc : c < kNumClasses) (classes : List Nat) :
    lookUp (c :: classes) = (symbol c).toList ++ lookUp classes := by
  unfold lookUp
  by_cases hblank : c = kBlankIdx
  · rw [List.filter_cons_of_neg (by simpa using hblank), (Training.symbol_eq_none_iff hc).mpr hblank]
    rfl
  · rw [List.filter_cons_of_pos (by simpa using hblank), kCharMap_eq hc hblank]
    rfl

theorem lookUp_destutter' {p : Nat} (hp : p < kNumClasses) {classes : List Nat} (hclasses : ∀ c ∈ classes, c < kNumClasses) :
    lookUp (classes.destutter' (· ≠ ·) p) = (symbol p).toList ++ Ctc.decode (symbol p) (classes.map symbol) := by
  induction classes generalizing p with
  | nil => exact lookUp_cons hp []
  | cons c classes ih =>
    have hc := hclasses c List.mem_cons_self
    have hrest : ∀ {q}, q < kNumClasses → lookUp (classes.destutter' (· ≠ ·) q) = _ :=
      fun hq => ih hq fun d hd => hclasses d (List.mem_cons_of_mem _ hd)
    rw [List.map_cons]
    by_cases hsame : p = c
    · obtain rfl := hsame
      rw [List.destutter'_cons_neg _ (not_not.mpr rfl), hrest hp]
      cases symbol p with
      | none => rfl
      | some a => rw [Ctc.decode, if_pos rfl]
    · rw [List.destutter'_cons_pos _ hsame, lookUp_cons hp, hrest hc]
      cases hsymbol : symbol c with
      | none => rfl
      | some a =>
        have hnot : symbol p ≠ some a := fun h => hsame (Training.symbol_inj (h ▸ Option.some_ne_none a) (h.trans hsymbol.symm))
        rw [Ctc.decode, if_neg hnot]
        rfl

theorem ctcText_eq {classes : List Nat} (hclasses : ∀ c ∈ classes, c < kNumClasses) :
    ctcText classes = Ctc.collapse (classes.map symbol) := by
  cases classes with
  | nil => rfl
  | cons p classes =>
    have hrest := lookUp_destutter' (hclasses p List.mem_cons_self) fun c hc => hclasses c (List.mem_cons_of_mem _ hc)
    show lookUp (classes.destutter' (· ≠ ·) p) = Ctc.decode none (symbol p :: classes.map symbol)
    rw [hrest]
    cases symbol p <;> rfl

theorem decodeCtc_eq_ctcText {classes : List Nat} (hclasses : ∀ c ∈ classes, c < kNumClasses) :
    Training.decodeCtc classes = ctcText classes := by
  rw [Training.decodeCtc, Training.decodeLoop_eq hclasses none (by simp), ctcText_eq hclasses]
  rfl

theorem classes_lt {W : Nat} (classes : Fin W → Fin kNumClasses) :
    ∀ c ∈ List.ofFn fun t => (classes t).val, c < kNumClasses := by
  intro c hc
  obtain ⟨t, rfl⟩ := List.mem_ofFn.mp hc
  exact (classes t).isLt

section Text
variable {K : Type} [LinearOrder K]

/-- The text of a matrix. -/
def text (rows : List (Row K)) : List Char := greedyCtcDecode (some (flat rows)) rows.length kNumClasses

/-- The loop over the timesteps is the greedy decoding of the classes of the rows. -/
theorem text_eq (rows : List (Row K)) : text rows = Ctc.collapse (rows.map fun row => (rowClass row).bind symbol) := by
  have hclasses : ∀ c ∈ rows.map rowClass, ∀ i ∈ c, i < kNumClasses := by
    intro c hc i hi
    obtain ⟨row, -, rfl⟩ := List.mem_map.mp hc
    exact rowClass_lt hi
  have hloop := foldl_classStep hclasses {} nofun
  rw [List.map_map, ← foldl_decodeStep] at hloop
  by_cases hnone : rows.length = 0
  · obtain rfl := List.length_eq_zero_iff.mp hnone
    rfl
  · have hguard : ¬((rows.length : Int) ≤ 0 ∨ (kNumClasses : Int) ≤ 0) := by
      rw [show kNumClasses = 20 from rfl]
      omega
    show (if (rows.length : Int) ≤ 0 ∨ (kNumClasses : Int) ≤ 0 then _ else _) = _
    rw [if_neg hguard]
    exact hloop

/-! ## Agreement with the training -/

/-- The text of finite logits. -/
theorem text_finite {argmax : (Fin kNumClasses → K) → Fin kNumClasses} (hargmax : ∀ row, FirstMaximum row (argmax row))
    {W : Nat} (logits : Fin W → Fin kNumClasses → K) :
    text (List.ofFn fun t => finite (logits t)) = ctcText (List.ofFn fun t => (argmax (logits t)).val) := by
  rw [text_eq, ctcText_eq (classes_lt fun t => argmax (logits t)), List.map_ofFn, List.map_ofFn]
  refine congrArg (fun f => Ctc.collapse (List.ofFn f)) (funext fun t => ?_)
  show (rowClass (finite (logits t))).bind symbol = symbol (argmax (logits t)).val
  rw [rowClass_finite, (firstMaximum_spec (logits t)).unique (hargmax (logits t))]
  rfl

/-- The engine reads from a matrix what the training's decoder reads from it, whatever batch it is in; a timestep with a
logit that is not finite is read as any timestep whose first maximum is the blank. -/
theorem greedyCtcDecode_agrees {argmax : (Fin kNumClasses → K) → Fin kNumClasses}
    (hargmax : ∀ row, FirstMaximum row (argmax row)) :
    (∀ (W B : Nat) (logProbs : Fin W → Fin B → Fin kNumClasses → K),
      Training.decodeBatch argmax logProbs =
        List.ofFn fun b => greedyCtcDecode (some (flat (List.ofFn fun t => finite (logProbs t b)))) W kNumClasses) ∧
    (∀ (W : Nat) (logits : Fin W → Fin kNumClasses → K),
      greedyCtcDecode (some (flat (List.ofFn fun t => finite (logits t)))) W kNumClasses =
        ctcText (List.ofFn fun t => (argmax (logits t)).val)) ∧
    ∀ (before after : List (Row K)) (corrupt : Row K) (blank : Fin kNumClasses → K), (∃ c, corrupt c = .nonFinite) →
      (argmax blank).val = kBlankIdx → text (before ++ corrupt :: after) = text (before ++ finite blank :: after) := by
  have htext : ∀ (W : Nat) (logits : Fin W → Fin kNumClasses → K),
      greedyCtcDecode (some (flat (List.ofFn fun t => finite (logits t)))) W kNumClasses =
        ctcText (List.ofFn fun t => (argmax (logits t)).val) := by
    intro W logits
    have hfinite := text_finite hargmax logits
    rwa [text, List.length_ofFn] at hfinite
  refine ⟨?_, htext, ?_⟩
  · intro W B logProbs
    refine congrArg List.ofFn (funext fun b => ?_)
    rw [htext W fun t => logProbs t b, decodeCtc_eq_ctcText (classes_lt fun t => argmax (logProbs t b))]
  · intro before after corrupt blank hcorrupt hblank
    have hclass : (rowClass (finite blank)).bind symbol = none := by
      rw [rowClass_finite, (firstMaximum_spec blank).unique (hargmax blank)]
      exact (Training.symbol_eq_none_iff (argmax blank).isLt).mpr hblank
    rw [text_eq, text_eq, List.map_append, List.map_append, List.map_cons, List.map_cons, rowClass_nonFinite hcorrupt, hclass]
    rfl

end Text

/-- Two timesteps of class 3 in a batch of one. -/
theorem greedyCtcDecode_agrees_three :
    Training.decodeBatch firstMaximum (fun (_ : Fin 2) (_ : Fin 1) c => if c.val = 3 then (1 : ℚ) else 0) = [['3']] :=
  ((greedyCtcDecode_agrees (K := ℚ) firstMaximum_spec).1 2 1 _).trans (by decide +kernel)

/-! ## Which texts there are -/

section Image
variable {K : Type} [Ring K] [LinearOrder K] [IsStrictOrderedRing K]

/-- The logits of one class. -/
def oneHot (i c : Fin kNumClasses) : K := if c = i then 1 else 0

theorem oneHot_spec (i : Fin kNumClasses) : FirstMaximum (oneHot (K := K) i) i := by
  constructor
  · intro j
    rw [oneHot, oneHot, if_pos rfl]
    split
    · exact le_refl 1
    · exact zero_le_one
  · intro j hj
    rw [oneHot, oneHot, if_pos rfl, if_neg hj.ne]
    exact zero_lt_one

/-- Classes are the first maxima of their own logits. -/
theorem text_oneHot {W : Nat} (classes : Fin W → Fin kNumClasses) :
    text (List.ofFn fun t => finite (oneHot (K := K) (classes t))) =
      Training.decodeCtc (List.ofFn fun t => (classes t).val) := by
  rw [text_finite firstMaximum_spec, decodeCtc_eq_ctcText (classes_lt classes)]
  refine congrArg (fun f => ctcText (List.ofFn f)) (funext fun t => ?_)
  rw [(firstMaximum_spec _).unique (oneHot_spec (classes t))]

/-- A text takes as many timesteps as it has characters, and one more for each adjacent pair of equal ones, whether or not
the logits are finite. -/
theorem greedyCtcDecode_image (T : Nat) {s : List Char} (hs : ∀ ch ∈ s, ch ∈ kCharMap.take kBlankIdx) :
    ((∃ logits : Fin T → Fin kNumClasses → K,
        greedyCtcDecode (some (flat (List.ofFn fun t => finite (logits t)))) T kNumClasses = s) ↔
      s.length + Ctc.repeats s ≤ T) ∧
    ((∃ rows : Fin T → Row K, greedyCtcDecode (some (flat (List.ofFn rows))) T kNumClasses = s) ↔
      s.length + Ctc.repeats s ≤ T) := by
  have hbound : ∀ rows : Fin T → Row K, greedyCtcDecode (some (flat (List.ofFn rows))) T kNumClasses = s →
      s.length + Ctc.repeats s ≤ T := by
    rintro rows rfl
    have htext := text_eq (List.ofFn rows)
    have hle := Ctc.length_collapse_add_repeats_le ((List.ofFn rows).map fun row => (rowClass row).bind symbol)
    rw [← htext, text, List.length_map, List.length_ofFn] at hle
    exact hle
  have hlogits : s.length + Ctc.repeats s ≤ T → ∃ logits : Fin T → Fin kNumClasses → K,
      greedyCtcDecode (some (flat (List.ofFn fun t => finite (logits t)))) T kNumClasses = s := by
    intro hle
    obtain ⟨preds, rfl, hpreds, rfl⟩ := (Training.producible_iff hs).mpr hle
    have htext := text_oneHot (K := K) fun t => ⟨preds[t], hpreds _ (List.getElem_mem t.isLt)⟩
    rw [text, List.length_ofFn] at htext
    refine ⟨_, htext.trans ?_⟩
    exact congrArg Training.decodeCtc List.ofFn_getElem
  exact ⟨⟨fun ⟨logits, h⟩ => hbound _ h, hlogits⟩,
    ⟨fun ⟨rows, h⟩ => hbound rows h, fun hle => (hlogits hle).elim fun logits h => ⟨_, h⟩⟩⟩

/-- The doubled digit takes three timesteps. -/
theorem greedyCtcDecode_image_pair :
    ¬∃ logits : Fin 2 → Fin kNumClasses → ℚ,
      greedyCtcDecode (some (flat (List.ofFn fun t => finite (logits t)))) 2 kNumClasses = ['1', '1'] := by
  have hone : '1' ∈ kCharMap.take kBlankIdx := by decide
  have hs : ∀ ch ∈ ['1', '1'], ch ∈ kCharMap.take kBlankIdx :=
    List.forall_mem_cons.mpr ⟨hone, List.forall_mem_singleton.mpr hone⟩
  intro h
  exact absurd ((greedyCtcDecode_image 2 hs).1.mp h) (by decide)

end Image

end LprnetOcrEngine

end IbarraGateway.GemaVision
