import IbarraGateway.GemaVision.InferenceResult
import IbarraGateway.Lib.Rounding
import IbarraGateway.Lib.UnorderedMap

/-!
# Colour validator

`configure` keeps one range for each class, in a map whose order of iteration is its own; `validate` looks at a region and
takes the range that comes first. OpenCV's conversion of a pixel is a parameter. The product of rows and columns is an `int`
in the code; no region has that many pixels.

* `verdict` : what a given range makes of a region.
* `judges_by_own_range_iff` : whose range is taken.
-/

namespace IbarraGateway.GemaVision

/-! ## Images -/

structure Bgr where
  b : UInt8
  g : UInt8
  r : UInt8
  deriving DecidableEq, Repr

structure Hsv where
  h : UInt8
  s : UInt8
  v : UInt8
  deriving DecidableEq, Repr

/-- `cv::Mat` with three 8-bit channels. -/
structure Mat where
  rows : Nat
  cols : Nat
  pixel : Fin rows → Fin cols → Bgr

namespace Mat

/-- `cv::Mat{}`. -/
def none : Mat := ⟨0, 0, fun i => i.elim0⟩

def empty (m : Mat) : Bool := m.rows * m.cols = 0

def pixels (m : Mat) : List Bgr := (List.finRange m.rows).flatMap fun i => (List.finRange m.cols).map (m.pixel i)

/-- An image of one colour. -/
def filled (rows cols : Nat) (colour : Bgr) : Mat := ⟨rows, cols, fun _ _ => colour⟩

/-- What `cv::Mat::operator()` asserts of a box. -/
def Holds (m : Mat) (box : Rect) : Prop :=
  0 ≤ box.x ∧ 0 ≤ box.width ∧ box.x + box.width ≤ m.cols ∧ 0 ≤ box.y ∧ 0 ≤ box.height ∧ box.y + box.height ≤ m.rows

instance (m : Mat) (box : Rect) : Decidable (m.Holds box) := by unfold Holds; infer_instance

/-- `m(box).clone()`; the assertion throws. -/
def crop (m : Mat) (box : Rect) : Option Mat :=
  if h : m.Holds box then
    some ⟨box.height.toNat, box.width.toNat, fun i j =>
      m.pixel ⟨box.y.toNat + i, by obtain ⟨-, -, -, hy, hheight, hbottom⟩ := h; omega⟩
        ⟨box.x.toNat + j, by obtain ⟨hx, hwidth, hright, -⟩ := h; omega⟩⟩
  else .none

theorem crop_eq_none_iff {m : Mat} {box : Rect} : m.crop box = .none ↔ ¬m.Holds box := by simp [crop]

theorem length_pixels (m : Mat) : m.pixels.length = m.rows * m.cols := by simp [pixels]

end Mat

/-- `VisualPrimitive` with its region of interest. -/
structure Detection extends VisualPrimitive where
  roi : Mat

/-- `cv::inRange` at one pixel. -/
def inRange (lowH lowS lowV highH highS highV : Int) (p : Hsv) : Bool :=
  (lowH ≤ p.h.toNat ∧ p.h.toNat ≤ highH) ∧ (lowS ≤ p.s.toNat ∧ p.s.toNat ≤ highS) ∧ (lowV ≤ p.v.toNat ∧ p.v.toNat ≤ highV)

def glareMask (p : Hsv) : Bool := inRange 0 0 240 180 30 255 p

/-! ## Ranges -/

/-- The arguments of `configure` behind the class. -/
structure ColorRange where
  hLo : Int := 0
  hHi : Int := 180
  hLo2 : Int := 0
  hHi2 : Int := 0
  sMin : Int := 50
  vMin : Int := 50
  passRatio : FloatValue := .finite false 13421773 (-24)
  deriving DecidableEq, Repr

structure ColorConfig extends ColorRange where
  configured : Bool := false
  deriving DecidableEq, Repr

/-- The entry `configure` writes. -/
def ColorRange.config (range : ColorRange) : ColorConfig := { range with configured := true }

structure ColorValidationResult where
  pass : Bool := false
  ratio : ℚ := 0
  skipped : Bool := false
  skipReason : String := ""
  deriving DecidableEq, Repr

/-- The range's own pixels, those of the second range among them. -/
def ColorRange.colorMask (cfg : ColorRange) (p : Hsv) : Bool :=
  inRange cfg.hLo cfg.sMin cfg.vMin cfg.hHi 255 255 p ||
    (cfg.hLo2 ≠ cfg.hHi2 && inRange cfg.hLo2 cfg.sMin cfg.vMin cfg.hHi2 255 255 p)

structure ColorValidator (order : IterationOrder Int) where
  configs : UnorderedMap order ColorConfig

section Verdict
variable (toHsv : Bgr → Hsv) (roi : Mat)

def totalPx : Nat := roi.rows * roi.cols

def glarePx : Nat := roi.pixels.countP fun p => glareMask (toHsv p)

def validPx : Nat := totalPx roi - glarePx toHsv roi

/-- Why no range is consulted, when the region alone decides it. -/
def skipOfRegion : Option String :=
  if roi.empty then some "empty_roi"
  else if single (single (totalPx roi) * single (7 / 10)) < single (glarePx toHsv roi) then some "excessive_glare"
  else if single (validPx toHsv roi) < single (single (totalPx roi) * single (3 / 10)) then some "insufficient_valid_pixels"
  else none

def matchingPx (cfg : ColorRange) : Nat := roi.pixels.countP fun p => cfg.colorMask (toHsv p) && !glareMask (toHsv p)

def matchRatio (cfg : ColorRange) : ℚ := single (single (matchingPx toHsv roi cfg) / single (validPx toHsv roi))

/-- The result for a region, with the range that is taken. -/
def verdict (cfg : Option ColorConfig) : ColorValidationResult :=
  match skipOfRegion toHsv roi with
  | some reason => { skipped := true, skipReason := reason }
  | none =>
    match cfg with
    | none => { pass := true, skipped := true, skipReason := "unconfigured" }
    | some cfg =>
      { pass := cfg.passRatio.le (matchRatio toHsv roi cfg.toColorRange), ratio := matchRatio toHsv roi cfg.toColorRange }

end Verdict

namespace ColorValidator
variable {order : IterationOrder Int}

def create : ColorValidator order := ⟨.empty⟩

def configure (v : ColorValidator order) (classId : Int) (range : ColorRange) : ColorValidator order :=
  ⟨v.configs.assign classId range.config⟩

def isConfigured (v : ColorValidator order) (classId : Int) : Bool :=
  match v.configs.find classId with
  | none => false
  | some cfg => cfg.configured

/-- The range is that of the entry `begin()` is at. -/
def validate (v : ColorValidator order) (toHsv : Bgr → Hsv) (roi : Mat) : ColorValidationResult :=
  verdict toHsv roi v.configs.first

/-- The validator after a sequence of calls. -/
def configureAll (order : IterationOrder Int) (calls : List (Int × ColorRange)) : ColorValidator order :=
  calls.foldl (fun v c => v.configure c.1 c.2) create

/-- The range the last call for the class gave. -/
def lastConfigured (calls : List (Int × ColorRange)) (classId : Int) : Option ColorConfig :=
  (UnorderedMap.lastAssigned calls classId).map ColorRange.config

/-! ## The range that is taken -/

theorem configs_configureAll (calls : List (Int × ColorRange)) :
    (configureAll order calls).configs = .assignAll order (calls.map fun c => (c.1, c.2.config)) := by
  induction calls using List.reverseRecOn with
  | nil => rfl
  | append_singleton calls c ih =>
    rw [List.map_append, List.map_singleton, UnorderedMap.assignAll_append_singleton, ← ih, configureAll, List.foldl_append]
    rfl

theorem first_configureAll (calls : List (Int × ColorRange)) :
    (configureAll order calls).configs.first =
      (order.keysAfter (calls.map Prod.fst)).head?.bind (lastConfigured calls) := by
  rw [configs_configureAll, UnorderedMap.first_assignAll, List.map_map]
  congr 1
  funext classId
  exact UnorderedMap.lastAssigned_mapValue _ calls classId

theorem isConfigured_iff (calls : List (Int × ColorRange)) (classId : Int) :
    (configureAll order calls).isConfigured classId = true ↔ classId ∈ calls.map Prod.fst := by
  have hfind : (configureAll order calls).configs.find classId = lastConfigured calls classId := by
    rw [configs_configureAll, UnorderedMap.find_assignAll]
    exact UnorderedMap.lastAssigned_mapValue _ calls classId
  rw [isConfigured, hfind, lastConfigured]
  cases hlast : UnorderedMap.lastAssigned calls classId with
  | none => exact iff_of_false Bool.false_ne_true (UnorderedMap.lastAssigned_eq_none_iff.mp hlast)
  | some range =>
    refine iff_of_true rfl (Decidable.not_not.mp fun hmem => ?_)
    rw [UnorderedMap.lastAssigned_eq_none_iff.mpr hmem] at hlast
    cases hlast

end ColorValidator

/-! ## Verdicts -/

section Verdict
variable {toHsv : Bgr → Hsv} {roi : Mat}

theorem verdict_of_skip {reason : String} (h : skipOfRegion toHsv roi = some reason) (cfg : Option ColorConfig) :
    verdict toHsv roi cfg = { skipped := true, skipReason := reason } := by
  unfold verdict
  rw [h]

theorem verdict_none (h : skipOfRegion toHsv roi = none) :
    verdict toHsv roi none = { pass := true, skipped := true, skipReason := "unconfigured" } := by
  unfold verdict
  rw [h]

theorem verdict_some (h : skipOfRegion toHsv roi = none) (cfg : ColorConfig) :
    verdict toHsv roi (some cfg) =
      { pass := cfg.passRatio.le (matchRatio toHsv roi cfg.toColorRange), ratio := matchRatio toHsv roi cfg.toColorRange } := by
  unfold verdict
  rw [h]

/-- The difference `validPx` is not cut off at 0. -/
theorem glarePx_le (toHsv : Bgr → Hsv) (roi : Mat) : glarePx toHsv roi ≤ totalPx roi := by
  rw [totalPx, ← Mat.length_pixels]
  exact List.countP_le_length

/-- A range is consulted only where there are pixels to count. -/
theorem validPx_pos (h : skipOfRegion toHsv roi = none) : 0 < validPx toHsv roi := by
  simp only [skipOfRegion] at h
  split_ifs at h with hempty hglare hvalid
  have htotal : 0 < totalPx roi := by
    rw [Mat.empty, decide_eq_true_eq] at hempty
    exact Nat.pos_of_ne_zero hempty
  have hbound : 0 < single (single (totalPx roi) * single (3 / 10)) :=
    single_pos (mul_pos (single_pos (Nat.cast_pos.mpr htotal)) (single_pos (by norm_num)))
  apply Nat.pos_of_ne_zero
  intro hzero
  rw [hzero, Nat.cast_zero, single_zero] at hvalid
  exact hvalid hbound

/-- A range without pixels has no matching ones. -/
theorem matchRatio_eq_zero {cfg : ColorRange} (h : ∀ p, cfg.colorMask p = false) : matchRatio toHsv roi cfg = 0 := by
  have hcount : matchingPx toHsv roi cfg = 0 := by simp [matchingPx, h]
  rw [matchRatio, hcount, Nat.cast_zero, single_zero, zero_div, single_zero]

end Verdict

/-- No saturation is as high as this range asks. -/
def unmatched (passRatio : FloatValue) : ColorRange := { sMin := 256, passRatio := passRatio }

theorem colorMask_unmatched (passRatio : FloatValue) (p : Hsv) : (unmatched passRatio).colorMask p = false := by
  have hsat : p.s.toNat < 256 := p.s.toNat_lt
  have hlow (lowH highH : Int) : inRange lowH 256 50 highH 255 255 p = false := by
    simp only [inRange, decide_eq_false_iff_not]
    omega
  simp only [ColorRange.colorMask, unmatched, hlow, Bool.and_false, Bool.or_false]

open ColorValidator in
/-- Whatever the ranges of the classes are, the verdict is that of the primitive's own one just where the region alone decides,
where nothing was configured, and where the primitive's class is the first in the map's order. -/
theorem judges_by_own_range_iff (order : IterationOrder Int) (toHsv : Bgr → Hsv) (classIds : List Int) (prim : Detection) :
    (∀ calls : List (Int × ColorRange), calls.map Prod.fst = classIds →
      (configureAll order calls).validate toHsv prim.roi = verdict toHsv prim.roi (lastConfigured calls prim.classId)) ↔
    (skipOfRegion toHsv prim.roi).isSome = true ∨ classIds = [] ∨ (order.keysAfter classIds).head? = some prim.classId := by
  constructor
  · intro hall
    by_contra hnot
    rw [not_or, not_or, Bool.not_eq_true, Option.isSome_eq_false_iff, Option.isNone_iff_eq_none] at hnot
    obtain ⟨hregion, hids, hfirst⟩ := hnot
    obtain ⟨k, hk⟩ := Option.ne_none_iff_exists'.mp
      (mt List.head?_eq_none_iff.mp (mt (order.keysAfter_eq_nil_iff).mp hids))
    have hmem : k ∈ classIds := order.mem_keysAfter.mp (List.mem_of_head? hk)
    have hne : prim.classId ≠ k := fun heq => hfirst (heq ▸ hk)
    -- only the first class lets a region without matching pixels pass
    let range (j : Int) : ColorRange := unmatched (if j = k then .finite false 0 0 else .finite false 1 0)
    have hratio (j : Int) : matchRatio toHsv prim.roi (range j).config.toColorRange = 0 :=
      matchRatio_eq_zero (colorMask_unmatched _)
    have hverdict := hall (classIds.map fun j => (j, range j)) (by simp [Function.comp_def])
    rw [validate, first_configureAll, List.map_map, show Prod.fst ∘ (fun j => (j, range j)) = id from rfl, List.map_id, hk,
      Option.bind_some, lastConfigured, UnorderedMap.lastAssigned_map range hmem, Option.map_some, verdict_some hregion, hratio]
      at hverdict
    by_cases hc : prim.classId ∈ classIds
    · rw [lastConfigured, UnorderedMap.lastAssigned_map range hc, Option.map_some, verdict_some hregion, hratio] at hverdict
      have hpass := congrArg ColorValidationResult.pass hverdict
      simp only [range, unmatched, ColorRange.config, if_true, if_neg hne, FloatValue.le, FloatValue.magnitude]
        at hpass
      norm_num at hpass
    · have hunknown : UnorderedMap.lastAssigned (classIds.map fun j => (j, range j)) prim.classId = none := by
        rw [UnorderedMap.lastAssigned_eq_none_iff, List.map_map]
        simpa using hc
      rw [lastConfigured, hunknown, Option.map_none, verdict_none hregion] at hverdict
      exact absurd (congrArg ColorValidationResult.skipped hverdict) Bool.false_ne_true
  · rintro (hregion | rfl | hfirst) calls hcalls
    · obtain ⟨reason, hreason⟩ := Option.isSome_iff_exists.mp hregion
      rw [validate, verdict_of_skip hreason, verdict_of_skip hreason]
    · rw [List.map_eq_nil_iff] at hcalls
      rw [hcalls]
      rfl
    · rw [validate, first_configureAll, hcalls, hfirst, Option.bind_some]

/-- OpenCV's conversion at pure red and pure blue. -/
def sampleHsv (p : Bgr) : Hsv := if p.b < p.r then ⟨0, 255, p.r⟩ else ⟨120, 255, p.b⟩

def redRange : ColorRange := { hLo := 0, hHi := 10, hLo2 := 170, hHi2 := 180, sMin := 70, vMin := 50 }

def blueRange : ColorRange := { hLo := 110, hHi := 130, sMin := 70, vMin := 50 }

/-- A red text zone of one pixel. -/
def redZone : Detection := { bbox := ⟨0, 0, 1, 1⟩, classId := 1, roi := .filled 1 1 ⟨0, 0, 200⟩ }

/-- Text zones red, then colour zones blue: a red text zone fails by the range of the colour zones. -/
theorem judged_by_other_range :
    ¬∀ (order : IterationOrder Int) (toHsv : Bgr → Hsv) (calls : List (Int × ColorRange)) (prim : Detection),
      (ColorValidator.configureAll order calls).validate toHsv prim.roi =
        verdict toHsv prim.roi (ColorValidator.lastConfigured calls prim.classId) := by
  intro h
  have hverdict := h (.newestFirst Int) sampleHsv [(1, redRange), (2, blueRange)] redZone
  have hpass := congrArg ColorValidationResult.pass hverdict
  revert hpass
  decide +kernel

end IbarraGateway.GemaVision
