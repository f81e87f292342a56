import IbarraGateway.Lib.Smoothing
import Mathlib.Algebra.Order.Ring.Rat
import Mathlib.Data.Finset.Max
import Mathlib.Data.List.Induction

/-!
# The filter of the analog input

`EMAFilter.h`, with exact fractions for its floats, and the use that `vTaskAnalog` makes of it. A history is any sequence of
calls of the object; what an output depends on are the inputs since construction or the last `reset`.

* `ema_laws` : the outputs stay between the extremes of the inputs, grow with each of them, and approach a constant input
  by the factor `1 - alpha`.
* `constant_input_distance` : the distance after any number of steps.
* `filtered_volts_between` : the voltage that the task reports.
-/

namespace IbarraGateway.Norvi

structure EMAFilter where
  alpha : ℚ
  value : ℚ
  initialized : Bool
deriving DecidableEq, Repr

namespace EMAFilter

/-- `explicit EMAFilter(float alpha)`. -/
def new (alpha : ℚ) : EMAFilter where
  alpha := alpha
  value := 0
  initialized := false

def filter (f : EMAFilter) (raw : ℚ) : EMAFilter × ℚ :=
  let f' :=
    if f.initialized = false then { f with value := raw, initialized := true }
    else { f with value := f.alpha * raw + (1 - f.alpha) * f.value }
  (f', f'.value)

def getValue (f : EMAFilter) : ℚ := f.value

def reset (f : EMAFilter) : EMAFilter := { f with initialized := false, value := 0 }

def setAlpha (f : EMAFilter) (newAlpha : ℚ) : EMAFilter := { f with alpha := newAlpha }

end EMAFilter

/-! ## Histories -/

/-- The calls that change the object. -/
inductive EMACall
  | filter (raw : ℚ)
  | reset
  | setAlpha (newAlpha : ℚ)

def EMAFilter.call (f : EMAFilter) : EMACall → EMAFilter
  | .filter raw => (f.filter raw).1
  | .reset => f.reset
  | .setAlpha newAlpha => f.setAlpha newAlpha

def EMAFilter.after (f : EMAFilter) (calls : List EMACall) : EMAFilter := calls.foldl EMAFilter.call f

/-- The inputs since construction or the last `reset`. -/
def inputsSeen (calls : List EMACall) : List ℚ :=
  calls.foldl
    (fun inputs call =>
      match call with
      | .filter raw => inputs ++ [raw]
      | .reset => []
      | .setAlpha _ => inputs)
    []

/-- The coefficients of the history are between 0 and 1. -/
def AlphasInRange (calls : List EMACall) : Prop := ∀ newAlpha, .setAlpha newAlpha ∈ calls → newAlpha ∈ Set.Icc (0 : ℚ) 1

/-- The same calls, with inputs at least as large. -/
def EMACall.Le : EMACall → EMACall → Prop
  | .filter raw, .filter raw' => raw ≤ raw'
  | .reset, .reset => True
  | .setAlpha newAlpha, .setAlpha newAlpha' => newAlpha = newAlpha'
  | _, _ => False

/-- The filter is fed `c` for `k` steps. -/
def feed (c : ℚ) (k : ℕ) : List EMACall := List.replicate k (.filter c)

namespace EMAFilter
open Smoothing

/-! ## One call -/

theorem filter_first {f : EMAFilter} (h : f.initialized = false) (raw : ℚ) :
    f.filter raw = ({ f with value := raw, initialized := true }, raw) := by
  simp only [filter, h, if_true]

theorem filter_later {f : EMAFilter} (h : f.initialized = true) (raw : ℚ) :
    f.filter raw = ({ f with value := blend f.alpha raw f.value }, blend f.alpha raw f.value) := by
  simp [filter, h, blend]

/-- `getValue` repeats the last output. -/
theorem getValue_filter (f : EMAFilter) (raw : ℚ) : (f.filter raw).1.getValue = (f.filter raw).2 := rfl

@[simp] theorem filter_alpha (f : EMAFilter) (raw : ℚ) : (f.filter raw).1.alpha = f.alpha := by
  unfold filter
  split
  · rfl
  · rfl

@[simp] theorem filter_initialized (f : EMAFilter) (raw : ℚ) : (f.filter raw).1.initialized = true := by
  cases h : f.initialized with
  | false => rw [filter_first h]
  | true =>
    rw [filter_later h]
    exact h

theorem after_snoc (f : EMAFilter) (calls : List EMACall) (call : EMACall) :
    f.after (calls ++ [call]) = (f.after calls).call call := by
  rw [after, List.foldl_append]
  rfl

end EMAFilter

theorem inputsSeen_snoc (calls : List EMACall) (call : EMACall) :
    inputsSeen (calls ++ [call]) =
      match call with
      | .filter raw => inputsSeen calls ++ [raw]
      | .reset => []
      | .setAlpha _ => inputsSeen calls := by
  rw [inputsSeen, List.foldl_append]
  rfl

namespace EMAFilter
open Smoothing

/-! ## What a history leaves -/

theorem after_alpha {alpha : ℚ} (halpha : alpha ∈ Set.Icc 0 1) {calls : List EMACall} (hcalls : AlphasInRange calls) :
    ((new alpha).after calls).alpha ∈ Set.Icc 0 1 := by
  induction calls using List.reverseRecOn with
  | nil => exact halpha
  | append_singleton calls call ih =>
    have hbefore := ih fun a ha => hcalls a (List.mem_append_left _ ha)
    rw [after_snoc]
    cases call with
    | filter raw =>
      show (filter _ raw).1.alpha ∈ _
      rwa [filter_alpha]
    | reset => exact hbefore
    | setAlpha newAlpha => exact hcalls newAlpha (List.mem_append_right _ (List.mem_singleton_self _))

/-- The first sample is told from the later ones by the inputs seen. -/
theorem after_initialized (alpha : ℚ) (calls : List EMACall) :
    ((new alpha).after calls).initialized = true ↔ inputsSeen calls ≠ [] := by
  induction calls using List.reverseRecOn with
  | nil => exact iff_of_false Bool.false_ne_true fun h => h rfl
  | append_singleton calls call ih =>
    rw [after_snoc, inputsSeen_snoc]
    cases call with
    | filter raw => exact iff_of_true (filter_initialized _ raw) (List.append_ne_nil_of_right_ne_nil _ (List.cons_ne_nil _ _))
    | reset => exact iff_of_false Bool.false_ne_true fun h => h rfl
    | setAlpha newAlpha => exact ih

/-- `P` is a bound that the filter cannot leave: closed under its step. -/
theorem value_of_inputs {alpha : ℚ} (halpha : alpha ∈ Set.Icc 0 1) {P : ℚ → Prop}
    (hblend : ∀ a ∈ Set.Icc (0 : ℚ) 1, ∀ x v, P x → P v → P (blend a x v)) {calls : List EMACall}
    (hcalls : AlphasInRange calls) (hinputs : ∀ x ∈ inputsSeen calls, P x) (hseen : inputsSeen calls ≠ []) :
    P ((new alpha).after calls).value := by
  induction calls using List.reverseRecOn with
  | nil => exact absurd rfl hseen
  | append_singleton calls call ih =>
    have hbefore : AlphasInRange calls := fun a ha => hcalls a (List.mem_append_left _ ha)
    rw [inputsSeen_snoc] at hinputs hseen
    rw [after_snoc]
    cases call with
    | filter raw =>
      obtain ⟨hold, hraw⟩ := List.forall_mem_append.mp hinputs
      have hraw : P raw := List.forall_mem_singleton.mp hraw
      show P (filter _ raw).1.value
      cases hinit : ((new alpha).after calls).initialized with
      | false =>
        rw [filter_first hinit]
        exact hraw
      | true =>
        rw [filter_later hinit]
        exact hblend _ (after_alpha halpha hbefore) _ _ hraw (ih hbefore hold ((after_initialized alpha calls).mp hinit))
    | reset => exact absurd rfl hseen
    | setAlpha newAlpha => exact ih hbefore hinputs hseen

theorem output_of_inputs {alpha : ℚ} (halpha : alpha ∈ Set.Icc 0 1) {P : ℚ → Prop}
    (hblend : ∀ a ∈ Set.Icc (0 : ℚ) 1, ∀ x v, P x → P v → P (blend a x v)) {calls : List EMACall}
    (hcalls : AlphasInRange calls) {raw : ℚ} (hinputs : ∀ x ∈ inputsSeen calls ++ [raw], P x) :
    P (((new alpha).after calls).filter raw).2 := by
  have hlast : AlphasInRange (calls ++ [.filter raw]) := by
    intro a ha
    rcases List.mem_append.mp ha with ha | ha
    · exact hcalls a ha
    · cases List.mem_singleton.mp ha
  have hseen : inputsSeen (calls ++ [.filter raw]) = inputsSeen calls ++ [raw] := inputsSeen_snoc calls (.filter raw)
  have h := value_of_inputs halpha hblend hlast (by rwa [hseen]) (by simp [hseen])
  rwa [after_snoc] at h

/-- **Between the extremes** of the inputs seen. -/
theorem output_between {alpha : ℚ} (halpha : alpha ∈ Set.Icc 0 1) {calls : List EMACall} (hcalls : AlphasInRange calls)
    (raw : ℚ) :
    ∃ lo hi, IsLeast {x | x ∈ inputsSeen calls ++ [raw]} lo ∧ IsGreatest {x | x ∈ inputsSeen calls ++ [raw]} hi ∧
      (((new alpha).after calls).filter raw).2 ∈ Set.Icc lo hi := by
  have hinputs : {x | x ∈ inputsSeen calls ++ [raw]} = ((inputsSeen calls ++ [raw]).toFinset : Set ℚ) :=
    (List.coe_toFinset _).symm
  have hne : (inputsSeen calls ++ [raw]).toFinset.Nonempty := ⟨raw, by simp⟩
  have hleast := Finset.isLeast_min' _ hne
  have hgreatest := Finset.isGreatest_max' _ hne
  rw [← hinputs] at hleast hgreatest
  refine ⟨_, _, hleast, hgreatest, ?_, ?_⟩
  · exact output_of_inputs (P := fun y => _ ≤ y) halpha (fun a ha x v hx hv => le_blend ha hx hv) hcalls fun x hx => hleast.2 hx
  · exact output_of_inputs (P := fun y => y ≤ _) halpha (fun a ha x v hx hv => blend_le ha hx hv) hcalls fun x hx => hgreatest.2 hx

/-! ## Two histories -/

/-- The same filter with a value at least as large. -/
structure Below (f g : EMAFilter) : Prop where
  alpha : g.alpha = f.alpha
  initialized : g.initialized = f.initialized
  value : f.value ≤ g.value

theorem Below.filter {f g : EMAFilter} (h : Below f g) (halpha : f.alpha ∈ Set.Icc 0 1) {raw raw' : ℚ} (hraw : raw ≤ raw') :
    Below (f.filter raw).1 (g.filter raw').1 := by
  have hg := h.initialized
  cases hf : f.initialized with
  | false =>
    rw [hf] at hg
    rw [filter_first hf, filter_first hg]
    exact ⟨h.alpha, rfl, hraw⟩
  | true =>
    rw [hf] at hg
    rw [filter_later hf, filter_later hg, h.alpha]
    exact ⟨rfl, h.initialized, blend_mono halpha hraw h.value⟩

theorem Below.call {f g : EMAFilter} (h : Below f g) (halpha : f.alpha ∈ Set.Icc 0 1) {c c' : EMACall} (hc : c.Le c') :
    Below (f.call c) (g.call c') := by
  cases c with
  | filter raw =>
    cases c' with
    | filter raw' => exact h.filter halpha hc
    | reset => exact hc.elim
    | setAlpha newAlpha' => exact hc.elim
  | reset =>
    cases c' with
    | filter raw' => exact hc.elim
    | reset => exact ⟨h.alpha, rfl, le_rfl⟩
    | setAlpha newAlpha' => exact hc.elim
  | setAlpha newAlpha =>
    cases c' with
    | filter raw' => exact hc.elim
    | reset => exact hc.elim
    | setAlpha newAlpha' => exact ⟨hc.symm, h.initialized, h.value⟩

theorem Below.after {f g : EMAFilter} (h : Below f g) {calls calls' : List EMACall} (hcalls : AlphasInRange calls)
    (hle : List.Forall₂ EMACall.Le calls calls') (halpha : f.alpha ∈ Set.Icc 0 1) :
    Below (f.after calls) (g.after calls') ∧ (f.after calls).alpha ∈ Set.Icc 0 1 := by
  induction hle generalizing f g with
  | nil => exact ⟨h, halpha⟩
  | @cons call call' calls calls' hcall _ ih =>
    have hnext : (f.call call).alpha ∈ Set.Icc 0 1 := by
      cases call with
      | filter raw =>
        show (EMAFilter.filter f raw).1.alpha ∈ _
        rwa [filter_alpha]
      | reset => exact halpha
      | setAlpha newAlpha => exact hcalls newAlpha List.mem_cons_self
    exact ih (h.call halpha hcall) (fun a ha => hcalls a (List.mem_cons_of_mem _ ha)) hnext

/-- **Monotone** in every input of the history. -/
theorem output_mono {alpha : ℚ} (halpha : alpha ∈ Set.Icc 0 1) {calls calls' : List EMACall} (hcalls : AlphasInRange calls)
    (hle : List.Forall₂ EMACall.Le calls calls') {raw raw' : ℚ} (hraw : raw ≤ raw') :
    (((new alpha).after calls).filter raw).2 ≤ (((new alpha).after calls').filter raw').2 := by
  have hrefl : Below (new alpha) (new alpha) := ⟨rfl, rfl, le_rfl⟩
  obtain ⟨hbelow, hafter⟩ := hrefl.after hcalls hle halpha
  exact (hbelow.filter hafter hraw).value

/-! ## A constant input -/

theorem after_feed_succ (f : EMAFilter) (c : ℚ) (k : ℕ) : f.after (feed c (k + 1)) = ((f.after (feed c k)).filter c).1 := by
  rw [feed, List.replicate_succ', after_snoc]
  rfl

theorem after_feed {f : EMAFilter} (hinit : f.initialized = true) (c : ℚ) (k : ℕ) :
    (f.after (feed c k)).alpha = f.alpha ∧ (f.after (feed c k)).initialized = true := by
  induction k with
  | zero => exact ⟨rfl, hinit⟩
  | succ k ih =>
    rw [after_feed_succ, filter_alpha, filter_initialized]
    exact ⟨ih.1, rfl⟩

/-- **One step** towards a constant. -/
theorem feed_distance {f : EMAFilter} (halpha : f.alpha ∈ Set.Icc 0 1) (hinit : f.initialized = true) (c : ℚ) (k : ℕ) :
    |(f.after (feed c (k + 1))).getValue - c| = (1 - f.alpha) * |(f.after (feed c k)).getValue - c| := by
  obtain ⟨hsame, hlater⟩ := after_feed hinit c k
  rw [after_feed_succ, getValue_filter, filter_later hlater, hsame]
  exact abs_blend_sub halpha c _

end EMAFilter
open EMAFilter

/-! ## The laws -/

/-- **The laws of the filter**, in every history with coefficients between 0 and 1: an output lies between the least and the
greatest input seen; it grows with every input; and from any output on, each step of a constant input takes the output
nearer to the constant by the factor `1 - alpha`. -/
theorem ema_laws (alpha : ℚ) (halpha : alpha ∈ Set.Icc 0 1) (calls : List EMACall) (hcalls : AlphasInRange calls) (raw : ℚ) :
    (∃ lo hi, IsLeast {x | x ∈ inputsSeen calls ++ [raw]} lo ∧ IsGreatest {x | x ∈ inputsSeen calls ++ [raw]} hi ∧
      (((new alpha).after calls).filter raw).2 ∈ Set.Icc lo hi) ∧
    (∀ calls' raw', List.Forall₂ EMACall.Le calls calls' → raw ≤ raw' →
      (((new alpha).after calls).filter raw).2 ≤ (((new alpha).after calls').filter raw').2) ∧
    ∀ c k, let f := (((new alpha).after calls).filter raw).1
      |(f.after (feed c (k + 1))).getValue - c| = (1 - f.alpha) * |(f.after (feed c k)).getValue - c| := by
  refine ⟨output_between halpha hcalls raw, fun calls' raw' hle hraw => output_mono halpha hcalls hle hraw, ?_⟩
  intro c k f
  have hf : f.alpha ∈ Set.Icc 0 1 := by
    rw [filter_alpha]
    exact after_alpha halpha hcalls
  exact feed_distance hf (filter_initialized _ raw) c k

/-- The samples 100 and 200 at `alpha = 0.1`, against 100 and 300, and then a constant 50. -/
theorem ema_laws_samples :
    (((new (1 / 10)).after [.filter 100]).filter 200).2 = 110 ∧
    (((new (1 / 10)).after [.filter 100]).filter 200).2 ≤ (((new (1 / 10)).after [.filter 100]).filter 300).2 ∧
    let f := (((new (1 / 10)).after [.filter 100]).filter 200).1
    |(f.after (feed 50 1)).getValue - 50| = (1 - f.alpha) * |(f.after (feed 50 0)).getValue - 50| := by
  have halpha : (1 / 10 : ℚ) ∈ Set.Icc 0 1 := ⟨by decide +kernel, by decide +kernel⟩
  have hcalls : AlphasInRange [.filter 100] := by
    intro newAlpha hmem
    cases List.mem_singleton.mp hmem
  obtain ⟨-, hmono, hstep⟩ := ema_laws (1 / 10) halpha [.filter 100] hcalls 200
  refine ⟨by decide +kernel, hmono [.filter 100] 300 ?_ (by decide +kernel), hstep 50 0⟩
  exact List.Forall₂.cons (le_refl (100 : ℚ)) List.Forall₂.nil

/-- The distance after `k` steps of a constant input. -/
theorem constant_input_distance (alpha : ℚ) (halpha : alpha ∈ Set.Icc 0 1) (calls : List EMACall)
    (hcalls : AlphasInRange calls) (raw c : ℚ) (k : ℕ) :
    let f := (((new alpha).after calls).filter raw).1
    |(f.after (feed c k)).getValue - c| = (1 - f.alpha) ^ k * |f.getValue - c| := by
  intro f
  have hf : f.alpha ∈ Set.Icc 0 1 := by
    rw [filter_alpha]
    exact after_alpha halpha hcalls
  induction k with
  | zero =>
    rw [pow_zero, one_mul]
    rfl
  | succ k ih => rw [feed_distance hf (filter_initialized _ raw), ih, pow_succ', mul_assoc]

/-! ## The analog task -/

/-- `EMAFilter emaFilter(0.1f)`: the float next to one tenth. -/
def emaFilter : EMAFilter := new (13421773 / 134217728)

/-- What `vTaskAnalog` reports, turn by turn, of the voltages it reads. -/
def vTaskAnalog (f : EMAFilter) : List ℚ → List ℚ
  | [] => []
  | volts :: rest => (f.filter volts).2 :: vTaskAnalog (f.filter volts).1 rest

theorem vTaskAnalog_append (f : EMAFilter) (before : List ℚ) (v : ℚ) (later : List ℚ) :
    (vTaskAnalog f (before ++ v :: later))[before.length]? = some ((f.after (before.map .filter)).filter v).2 := by
  induction before generalizing f with
  | nil => rfl
  | cons w before ih =>
    rw [List.cons_append, vTaskAnalog, List.length_cons, List.getElem?_cons_succ, ih]
    rfl

theorem inputsSeen_filters (volts : List ℚ) : inputsSeen (volts.map .filter) = volts := by
  induction volts using List.reverseRecOn with
  | nil => rfl
  | append_singleton volts v ih =>
    rw [List.map_append, List.map_singleton, inputsSeen_snoc]
    dsimp only
    rw [ih]

/-- **The analog task**: every voltage reported lies between the least and the greatest read so far. -/
theorem filtered_volts_between (before : List ℚ) (v : ℚ) (later : List ℚ) :
    ∃ lo hi filtered, IsLeast {x | x ∈ before ++ [v]} lo ∧ IsGreatest {x | x ∈ before ++ [v]} hi ∧
      (vTaskAnalog emaFilter (before ++ v :: later))[before.length]? = some filtered ∧ filtered ∈ Set.Icc lo hi := by
  have halpha : (13421773 / 134217728 : ℚ) ∈ Set.Icc 0 1 := ⟨by decide +kernel, by decide +kernel⟩
  have hcalls : AlphasInRange (before.map .filter) := by
    intro newAlpha hmem
    obtain ⟨_, -, heq⟩ := List.mem_map.mp hmem
    cases heq
  obtain ⟨lo, hi, hlo, hhi, hmem⟩ := output_between halpha hcalls v
  rw [inputsSeen_filters] at hlo hhi
  exact ⟨lo, hi, _, hlo, hhi, vTaskAnalog_append emaFilter before v later, hmem⟩

end IbarraGateway.Norvi
