import IbarraGateway.Lib.ScalarCode
import Mathlib.Algebra.Order.Field.Basic
import Mathlib.Tactic.Ring
import Mathlib.Tactic.Linarith
import Mathlib.Tactic.FieldSimp

/-!
# The sub-pixel peak

`vision_edge/src/engine.cpp`: `calculateSubPixelPeak` as the inline assembly of the aarch64 build and as the C++ of every
other build, over the exact arithmetic of any field, and `processDefectBuffer` over either.

* `builds_agree_iff` : when the two builds return the same.
* `peak_subpixel` : what they return where the samples have a peak.
* `reads_inside_iff` : when `processDefectBuffer` stays inside its buffer.
-/

namespace IbarraGateway.VisionEdge
open ScalarCode

/-! ## The two builds -/

section Builds
variable {K : Type} [Field K] [DecidableEq K]

/-- The operands `%w0` (result) to `%w3` of the `asm` statement, and the registers it clobbers. -/
inductive Register
  | w0 | w1 | w2 | w3 | s0 | s1 | s2 | s3
deriving DecidableEq, Repr

/-- The text of the `asm` statement. -/
def devernay : List (Instr Register K) :=
  [.fsub .s0 .w1 .w3,
   .fmov .s1 2,
   .fmul .s2 .s1 .w2,
   .fadd .s3 .w1 .w3,
   .fsub .s3 .s3 .s2,
   .fmul .s3 .s1 .s3,
   .fdiv .w0 .s0 .s3]

/-- The inputs; everything else holds what it held before. -/
def operands (before : Register → Option K) (left center right : K) : Register → Option K
  | .w1 => some left
  | .w2 => some center
  | .w3 => some right
  | r => before r

/-- `calculateSubPixelPeak` under `__aarch64__`. -/
def calculateSubPixelPeakAarch64 (before : Register → Option K) (left center right : K) : Option K :=
  run (operands before left center right) devernay .w0

/-- `calculateSubPixelPeak` in every other build. -/
def calculateSubPixelPeakPortable (left center right : K) : Option K :=
  let denominator := 2 * (left - 2 * center + right)
  if denominator = 0 then some 0 else quotient (left - right) denominator

/-- **Symbolic execution**: the assembly is the formula, with no guard in front of the division. -/
theorem aarch64_eq (before : Register → Option K) (left center right : K) :
    calculateSubPixelPeakAarch64 before left center right =
      quotient (left - right) (2 * (left - 2 * center + right)) := by
  have hsum : 2 * (left + right - 2 * center) = 2 * (left - 2 * center + right) := by ring
  rw [← hsum]
  simp [calculateSubPixelPeakAarch64, devernay, operands, exec, Function.update]

/-- **The builds agree** exactly where the denominator of the parabola is not zero. -/
theorem builds_agree_iff (before : Register → Option K) (left center right : K) :
    calculateSubPixelPeakAarch64 before left center right = calculateSubPixelPeakPortable left center right ↔
      2 * (left - 2 * center + right) ≠ 0 := by
  rw [aarch64_eq, calculateSubPixelPeakPortable]
  by_cases hzero : 2 * (left - 2 * center + right) = 0
  · rw [if_pos hzero, hzero, quotient_zero]
    exact iff_of_false nofun fun hne => hne rfl
  · rw [if_neg hzero]
    exact iff_of_true rfl hzero

/-- Three equal samples, the flat stretch of a buffer: one build has no result, the other returns 0. -/
theorem builds_differ_on_flat :
    calculateSubPixelPeakAarch64 (fun _ => none) (1 / 2 : ℚ) (1 / 2) (1 / 2) = none ∧
      calculateSubPixelPeakPortable (1 / 2 : ℚ) (1 / 2) (1 / 2) = some 0 := by
  constructor
  · decide +kernel
  · decide +kernel

end Builds

/-! ## The buffer -/

section Buffer
variable {K : Type}

inductive Fault
  | undefined | outOfBounds
deriving DecidableEq, Repr

/-- `processDefectBuffer` over one of the builds; sizes and indices are `std::size_t`. -/
def processDefectBuffer [Zero K] (calculateSubPixelPeak : K → K → K → Option K) (buffer : List K) (peakIndex : UInt64) :
    Except Fault K :=
  if peakIndex = 0 ∨ peakIndex ≥ UInt64.ofNat buffer.length - 1 then .ok 0
  else
    match buffer[(peakIndex - 1).toNat]?, buffer[peakIndex.toNat]?, buffer[(peakIndex + 1).toNat]? with
    | some left, some center, some right =>
      match calculateSubPixelPeak left center right with
      | none => .error .undefined
      | some delta => .ok delta
    | _, _, _ => .error .outOfBounds

/-- Past the guard the three samples are there, unless the buffer is empty: then `size() - 1` wraps. -/
theorem samples_of_guard {buffer : List K} {peakIndex : UInt64} (hsize : buffer.length < 2 ^ 64) (hne : buffer ≠ [])
    (hguard : ¬(peakIndex = 0 ∨ peakIndex ≥ UInt64.ofNat buffer.length - 1)) :
    0 < peakIndex.toNat ∧ peakIndex.toNat + 1 < buffer.length ∧ (peakIndex - 1).toNat = peakIndex.toNat - 1 ∧
      (peakIndex + 1).toNat = peakIndex.toNat + 1 := by
  have hlength : 0 < buffer.length := List.length_pos_iff.mpr hne
  have hlast : (UInt64.ofNat buffer.length - 1).toNat = buffer.length - 1 := by
    rw [UInt64.toNat_sub_of_le, UInt64.toNat_ofNat_of_lt' hsize]
    · rfl
    · rw [UInt64.le_iff_toNat_le, UInt64.toNat_ofNat_of_lt' hsize]
      exact hlength
  rw [not_or, ge_iff_le, UInt64.le_iff_toNat_le, hlast] at hguard
  obtain ⟨hzero, hlt⟩ := hguard
  have hpos : 0 < peakIndex.toNat := by
    apply Nat.pos_of_ne_zero
    intro h
    exact hzero (UInt64.toNat_inj.mp h)
  refine ⟨hpos, by omega, ?_, ?_⟩
  · rw [UInt64.toNat_sub_of_le]
    · rfl
    · rw [UInt64.le_iff_toNat_le]
      exact hpos
  · rw [UInt64.toNat_add]
    exact Nat.mod_eq_of_lt (by simp; omega)

/-- **Bounds**: the guard keeps every read inside the buffer, except for the empty buffer. -/
theorem outOfBounds_iff [Zero K] (calculateSubPixelPeak : K → K → K → Option K) {buffer : List K} (hsize : buffer.length < 2 ^ 64)
    (peakIndex : UInt64) :
    processDefectBuffer calculateSubPixelPeak buffer peakIndex = .error .outOfBounds ↔
      buffer = [] ∧ peakIndex ≠ 0 ∧ peakIndex.toNat < 2 ^ 64 - 1 := by
  have hwrap : (UInt64.ofNat ([] : List K).length - 1).toNat = 2 ^ 64 - 1 := rfl
  unfold processDefectBuffer
  by_cases hguard : peakIndex = 0 ∨ peakIndex ≥ UInt64.ofNat buffer.length - 1
  · rw [if_pos hguard]
    apply iff_of_false nofun
    rintro ⟨rfl, hzero, hlt⟩
    rcases hguard with h | h
    · exact hzero h
    · rw [ge_iff_le, UInt64.le_iff_toNat_le, hwrap] at h
      omega
  · rw [if_neg hguard]
    by_cases hne : buffer = []
    · subst hne
      rw [not_or, ge_iff_le, UInt64.le_iff_toNat_le, hwrap, Nat.not_le] at hguard
      exact iff_of_true rfl ⟨rfl, hguard⟩
    · obtain ⟨hpos, hlt, hbefore, hafter⟩ := samples_of_guard hsize hne hguard
      have hleft : (peakIndex - 1).toNat < buffer.length := by omega
      have hright : (peakIndex + 1).toNat < buffer.length := by omega
      rw [List.getElem?_eq_getElem hleft, List.getElem?_eq_getElem (Nat.lt_of_succ_lt hlt), List.getElem?_eq_getElem hright]
      apply iff_of_false
      · dsimp only
        split
        · nofun
        · nofun
      · exact fun h => hne h.1

/-- No index reaches outside a buffer that has more elements than an index can count. -/
theorem inside_of_long [Zero K] (calculateSubPixelPeak : K → K → K → Option K) {buffer : List K} (hsize : 2 ^ 64 ≤ buffer.length)
    (peakIndex : UInt64) : processDefectBuffer calculateSubPixelPeak buffer peakIndex ≠ .error .outOfBounds := by
  have hlt (i : UInt64) : i.toNat < buffer.length := Nat.lt_of_lt_of_le i.toNat_lt hsize
  unfold processDefectBuffer
  rw [List.getElem?_eq_getElem (hlt _), List.getElem?_eq_getElem (hlt _), List.getElem?_eq_getElem (hlt _)]
  split
  · nofun
  · dsimp only
    split
    · nofun
    · nofun

/-- **Inside the buffer**: what is read is in the buffer unless the buffer is empty; then the indices 0 and `SIZE_MAX` are the
only ones that the guard turns away. -/
theorem reads_inside_iff [Zero K] (calculateSubPixelPeak : K → K → K → Option K) (buffer : List K) (peakIndex : UInt64) :
    processDefectBuffer calculateSubPixelPeak buffer peakIndex ≠ .error .outOfBounds ↔
      buffer ≠ [] ∨ peakIndex = 0 ∨ peakIndex.toNat = 2 ^ 64 - 1 := by
  have hindex := peakIndex.toNat_lt
  by_cases hsize : buffer.length < 2 ^ 64
  · rw [ne_eq, outOfBounds_iff calculateSubPixelPeak hsize, not_and_or, not_and_or, not_not, Nat.not_lt]
    apply or_congr Iff.rfl
    apply or_congr Iff.rfl
    constructor
    · intro h
      omega
    · intro h
      omega
  · have hlong : 2 ^ 64 ≤ buffer.length := Nat.le_of_not_lt hsize
    apply iff_of_true (inside_of_long calculateSubPixelPeak hlong peakIndex)
    left
    intro hnil
    subst hnil
    exact hsize (Nat.two_pow_pos 64)

/-- An empty buffer, with an index that a caller may well pass. -/
theorem empty_buffer_read_outside :
    processDefectBuffer calculateSubPixelPeakPortable ([] : List ℚ) 1 = .error .outOfBounds ∧
      ¬∀ (buffer : List ℚ) (peakIndex : UInt64),
        processDefectBuffer calculateSubPixelPeakPortable buffer peakIndex ≠ .error .outOfBounds := by
  have houtside : processDefectBuffer calculateSubPixelPeakPortable ([] : List ℚ) 1 = .error .outOfBounds := by decide +kernel
  exact ⟨houtside, fun h => h [] 1 houtside⟩

end Buffer

/-! ## The peak of the parabola -/

section Peak
variable {K : Type} [Field K] [LinearOrder K] [IsStrictOrderedRing K]

/-- The parabola through the samples at -1, 0 and 1. -/
def parabola (left center right x : K) : K :=
  center + (right - left) / 2 * x + (left - 2 * center + right) / 2 * x ^ 2

theorem parabola_samples (left center right : K) :
    parabola left center right (-1) = left ∧ parabola left center right 0 = center ∧ parabola left center right 1 = right := by
  unfold parabola
  refine ⟨?_, ?_, ?_⟩
  · ring
  · ring
  · ring

/-- **A sampled peak**: where the middle sample is a maximum and the three are not equal, every build returns the abscissa of
the vertex, at most half a pixel away. -/
theorem peak_subpixel (before : Register → Option K) {left center right : K} (hleft : left ≤ center) (hright : right ≤ center)
    (hpeak : left ≠ center ∨ right ≠ center) :
    ∃ delta, calculateSubPixelPeakAarch64 before left center right = some delta ∧
      calculateSubPixelPeakPortable left center right = some delta ∧ |delta| ≤ 1 / 2 ∧
      ∀ x, parabola left center right x ≤ parabola left center right delta := by
  have hneg : left - 2 * center + right < 0 := by
    rcases hpeak with h | h
    · linarith [lt_of_le_of_ne hleft h]
    · linarith [lt_of_le_of_ne hright h]
  have hne : 2 * (left - 2 * center + right) ≠ 0 := by
    intro h
    linarith
  have hportable : calculateSubPixelPeakPortable left center right =
      some ((left - right) / (2 * (left - 2 * center + right))) := by
    rw [calculateSubPixelPeakPortable, if_neg hne, quotient_of_ne _ hne]
  refine ⟨_, ((builds_agree_iff before left center right).mpr hne).trans hportable, hportable, ?_, fun x => ?_⟩
  · have hsize : |left - right| ≤ -(left - 2 * center + right) := by
      rw [abs_le]
      constructor
      · linarith
      · linarith
    have hdenominator : |2 * (left - 2 * center + right)| = -(2 * (left - 2 * center + right)) := abs_of_neg (by linarith)
    rw [abs_div, hdenominator, div_le_iff₀ (by linarith)]
    linarith
  · set d := left - 2 * center + right with hd
    have hd0 : d ≠ 0 := hneg.ne
    have hsquare : parabola left center right ((left - right) / (2 * d)) - parabola left center right x =
        -(d / 2) * (x - (left - right) / (2 * d)) ^ 2 := by
      unfold parabola
      rw [← hd]
      field_simp
      ring
    have hpos : 0 ≤ -(d / 2) * (x - (left - right) / (2 * d)) ^ 2 := mul_nonneg (by linarith) (sq_nonneg _)
    linarith

/-- The builds of `processDefectBuffer` agree at a sampled peak. -/
theorem processDefectBuffer_builds_agree (before : Register → Option K) (buffer : List K) (peakIndex : UInt64)
    (hpeak : ∀ left center right, buffer[(peakIndex - 1).toNat]? = some left → buffer[peakIndex.toNat]? = some center →
      buffer[(peakIndex + 1).toNat]? = some right → left ≤ center ∧ right ≤ center ∧ (left ≠ center ∨ right ≠ center)) :
    processDefectBuffer (calculateSubPixelPeakAarch64 before) buffer peakIndex =
      processDefectBuffer calculateSubPixelPeakPortable buffer peakIndex := by
  unfold processDefectBuffer
  split
  · rfl
  · split
    · rename_i left center right hleft hcenter hright
      obtain ⟨hle, hre, hne⟩ := hpeak left center right hleft hcenter hright
      obtain ⟨delta, haarch64, hportable, -⟩ := peak_subpixel before hle hre hne
      rw [haarch64, hportable]
    · rfl

end Peak
end IbarraGateway.VisionEdge
