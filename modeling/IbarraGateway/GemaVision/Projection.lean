import IbarraGateway.GemaVision.InferenceResult
import IbarraGateway.GemaVision.SpatialCalibrator
import Mathlib.LinearAlgebra.Matrix.Determinant.Basic
import Mathlib.LinearAlgebra.Matrix.Notation
import Mathlib.Tactic.FinCases
import Mathlib.Tactic.NormNum

/-!
# What the calibrator projects

The state that `load_from_file` sets, and `apply` on it, over the rationals. The flag of a primitive is set whether or not
`project` found a point.

* `project_spec` : off the line that the homography sends to infinity, the projective image.
* `applyBatch_flagged_iff` : when the flag says what it stands for.
-/

namespace IbarraGateway.GemaVision

/-- `H_`, row by row, and `calibrated_`. -/
structure CalibratorState (F : Type) where
  h : List F := []
  calibrated : Bool := false
  deriving DecidableEq, Repr

/-! ## Loading -/

section Load
variable {F : Type} (cal : Calibrator F) (s : CalibratorState F)

/-- `load_from_vector`, on the state. -/
def CalibratorState.loadFromVector (h : List F) : Bool × CalibratorState F :=
  if h.length ≠ 9 then (false, s) else if cal.regular h then (true, { h, calibrated := true }) else (false, s)

/-- `load_from_file`, on the state. -/
def CalibratorState.loadFromFile (file : Option Text) : Bool × CalibratorState F :=
  match file with
  | none => (false, s)
  | some content =>
    match segment content with
    | none => (false, s)
    | some seg =>
      match cal.values (items seg) with
      | none => (false, s)
      | some values => s.loadFromVector cal values

theorem CalibratorState.loadFromVector_eq (h : List F) :
    s.loadFromVector cal h = match cal.loadFromVector h with
      | none => (false, s)
      | some h => (true, { h, calibrated := true }) := by
  unfold loadFromVector Calibrator.loadFromVector
  split
  · rfl
  · split <;> rfl

/-- A load that succeeds sets the matrix that was read and the flag, one that fails sets nothing. -/
theorem CalibratorState.loadFromFile_eq (file : Option Text) :
    s.loadFromFile cal file = match cal.loadFromFile file with
      | none => (false, s)
      | some h => (true, { h, calibrated := true }) := by
  unfold loadFromFile Calibrator.loadFromFile
  cases file with
  | none => rfl
  | some content =>
    cases hseg : segment content with
    | none => simp [hseg]
    | some seg =>
      cases hvalues : cal.values (items seg) with
      | none => simp [hseg, hvalues]
      | some values => simp [hseg, hvalues, loadFromVector_eq]

end Load

/-! ## Projecting -/

/-- A primitive with the fields that `apply` looks at or sets; `rest` is what else it carries. -/
structure Primitive (Rest : Type) where
  bbox : Rect
  physicalCoordsMm : ℚ × ℚ := (-1, -1)
  hasPhysicalCoords : Bool := false
  rest : Rest
  deriving DecidableEq, Repr

/-- The bottom centre of a box. -/
def anchor (bbox : Rect) : ℚ × ℚ := (bbox.x + bbox.width / 2, bbox.y + bbox.height)

namespace CalibratorState
variable (s : CalibratorState ℚ)

/-- `H_.at<double>(r, c)`. -/
def entry (r c : Nat) : ℚ := s.h.getD (r * 3 + c) 0

/-- The denominator of a point. -/
def denominator (u v : ℚ) : ℚ := s.entry 2 0 * u + s.entry 2 1 * v + s.entry 2 2

def project (u v : ℚ) : ℚ × ℚ :=
  let w := s.denominator u v
  if |w| < 1 / 10 ^ 9 then (-1, -1)
  else ((s.entry 0 0 * u + s.entry 0 1 * v + s.entry 0 2) / w, (s.entry 1 0 * u + s.entry 1 1 * v + s.entry 1 2) / w)

variable {Rest : Type}

def apply (primitive : Primitive Rest) : Primitive Rest :=
  if s.calibrated = false then primitive
  else
    let (u, v) := anchor primitive.bbox
    { primitive with physicalCoordsMm := s.project u v, hasPhysicalCoords := true }

def applyBatch (batch : List (Primitive Rest)) : List (Primitive Rest) :=
  if s.calibrated = false then batch else batch.map s.apply

/-! ## What the flag stands for -/

/-- The matrix of the homography. -/
def matrix : Matrix (Fin 3) (Fin 3) ℚ := .of fun r c => s.entry r c

/-- The point `b` is where the homography takes the point `a`. -/
def IsImage (H : Matrix (Fin 3) (Fin 3) ℚ) (a b : ℚ × ℚ) : Prop :=
  ∃ w : ℚ, w ≠ 0 ∧ H.mulVec ![a.1, a.2, 1] = w • ![b.1, b.2, 1]

/-- The bottom centre of the box is too near the line that is sent to infinity. -/
def Degenerate (bbox : Rect) : Prop := |s.denominator (anchor bbox).1 (anchor bbox).2| < 1 / 10 ^ 9

instance (bbox : Rect) : Decidable (s.Degenerate bbox) := inferInstanceAs (Decidable (_ < _))

/-- A primitive as it should come out. -/
structure Flagged (before after : Primitive Rest) : Prop where
  flag : after.hasPhysicalCoords = true ↔ s.calibrated = true ∧ ¬s.Degenerate before.bbox
  image : after.hasPhysicalCoords = true → IsImage s.matrix (anchor before.bbox) after.physicalCoordsMm
  bbox : after.bbox = before.bbox
  rest : after.rest = before.rest

theorem matrix_mulVec (u v : ℚ) : s.matrix.mulVec ![u, v, 1] =
    ![s.entry 0 0 * u + s.entry 0 1 * v + s.entry 0 2, s.entry 1 0 * u + s.entry 1 1 * v + s.entry 1 2, s.denominator u v] := by
  ext r
  fin_cases r <;>
    simp [matrix, denominator, Matrix.mulVec, dotProduct, Fin.sum_univ_three]

/-- Where the denominator is large enough, the point is the image. -/
theorem project_spec {u v : ℚ} (h : ¬|s.denominator u v| < 1 / 10 ^ 9) : IsImage s.matrix (u, v) (s.project u v) := by
  have hw : s.denominator u v ≠ 0 := by
    intro hzero
    rw [hzero, abs_zero] at h
    exact h (by norm_num)
  refine ⟨s.denominator u v, hw, ?_⟩
  rw [project]
  dsimp only
  rw [if_neg h, s.matrix_mulVec]
  ext r
  fin_cases r <;> simp [mul_div_cancel₀, hw]

theorem apply_calibrated (hs : s.calibrated = true) (p : Primitive Rest) :
    s.apply p = { p with physicalCoordsMm := s.project (anchor p.bbox).1 (anchor p.bbox).2, hasPhysicalCoords := true } := by
  rw [apply, if_neg (by rw [hs]; decide)]

/-- The flag of a primitive stands for a point exactly when there is one, or nothing is calibrated. -/
theorem flagged_apply_iff {p : Primitive Rest} (hp : p.hasPhysicalCoords = false) :
    s.Flagged p (s.apply p) ↔ (s.calibrated = true → ¬s.Degenerate p.bbox) := by
  cases hs : s.calibrated with
  | false =>
    have hsame : s.apply p = p := if_pos hs
    rw [hsame]
    refine ⟨fun _ => nofun, fun _ => ⟨?_, ?_, rfl, rfl⟩⟩
    · rw [hp, hs]
      simp
    · rw [hp]
      nofun
  | true =>
    rw [s.apply_calibrated hs]
    constructor
    · exact fun h _ => (h.flag.mp rfl).2
    · intro h
      exact ⟨⟨fun _ => ⟨hs, h rfl⟩, fun _ => rfl⟩, fun _ => s.project_spec (h rfl), rfl, rfl⟩

/-- A batch is flagged rightly exactly when, with a calibration, no box has its bottom centre near the line that is sent to
infinity. -/
theorem applyBatch_flagged_iff {batch : List (Primitive Rest)}
    (hdefault : ∀ p ∈ batch, p.physicalCoordsMm = (-1, -1) ∧ p.hasPhysicalCoords = false) :
    List.Forall₂ s.Flagged batch (s.applyBatch batch) ↔ (s.calibrated = true → ∀ p ∈ batch, ¬s.Degenerate p.bbox) := by
  have hmap : s.applyBatch batch = batch.map s.apply := by
    unfold applyBatch
    split
    · rename_i hs
      have hid : ∀ p : Primitive Rest, s.apply p = p := fun p => if_pos hs
      rw [List.map_congr_left fun p _ => hid p, List.map_id']
    · rfl
  have hall : List.Forall₂ s.Flagged batch (batch.map s.apply) ↔ ∀ p ∈ batch, s.Flagged p (s.apply p) := by
    rw [List.forall₂_map_right_iff, List.forall₂_same]
  rw [hmap, hall]
  constructor
  · exact fun h hs p hp => (s.flagged_apply_iff (hdefault p hp).2).mp (h p hp) hs
  · exact fun h p hp => (s.flagged_apply_iff (hdefault p hp).2).mpr fun hs => h hs p hp

/-! ## A box on the line -/

/-- A homography that sends the line `u = 1` to infinity. -/
def tilted : CalibratorState ℚ := { h := [1, 0, 0, 0, 1, 0, 1, 0, -1], calibrated := true }

/-- A box whose bottom centre stands at the point with abscissa `x + 1`. -/
def boxAt (x : Int) : Primitive Unit := { bbox := ⟨x, 0, 2, 5⟩, rest := () }

theorem applyBatch_flagged_one : List.Forall₂ tilted.Flagged [boxAt 1] (tilted.applyBatch [boxAt 1]) :=
  (tilted.applyBatch_flagged_iff (by decide +kernel)).mpr fun _ => by decide +kernel

/-- The bottom centre of the box lies on the line: it is flagged, with the coordinates of no point. -/
theorem applyBatch_flags_no_point :
    tilted.matrix.det = -1 ∧ tilted.applyBatch [boxAt 0] = [{ boxAt 0 with hasPhysicalCoords := true }] ∧
      ¬List.Forall₂ tilted.Flagged [boxAt 0] (tilted.applyBatch [boxAt 0]) := by
  have hdegenerate : tilted.Degenerate (boxAt 0).bbox := by decide +kernel
  refine ⟨?_, by decide +kernel, fun h => ?_⟩
  · rw [Matrix.det_fin_three]
    decide +kernel
  · cases h with
    | cons hflagged _ => exact (hflagged.flag.mp rfl).2 hdegenerate

end CalibratorState

end IbarraGateway.GemaVision
