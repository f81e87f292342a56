import IbarraGateway.GemaVision.ColorValidator

/-!
# Post-processing

`process` : the filters of each primitive's class, in the order of the batch. A box outside the frame throws out of the call.
The engine is any implementation of the interface, with a state of its own.

* `processOne_eq` : the region shown to the filters, and what they make of it.
* `skipped_never_rejects_iff`, `stages_independent_iff` : a skipped check against a mark, and one stage against the other.
-/

namespace IbarraGateway.GemaVision

/-- An implementation of `OcrEngine::infer`. -/
structure OcrEngine (σ : Type) where
  infer : σ → Mat → List UInt8 × σ

/-- Either pointer may be null. -/
structure PostProcessDispatcher (σ : Type) (order : IterationOrder Int) where
  ocr : Option (OcrEngine σ)
  color : Option (ColorValidator order)

namespace Detection

/-- `if (prim.roi.empty()) prim.roi = source_frame(prim.bbox).clone();` -/
def extractRoi (prim : Detection) (frame : Mat) : Option Detection :=
  if prim.roi.empty then (frame.crop prim.bbox).map fun roi => { prim with roi := roi } else some prim

end Detection

namespace PostProcessDispatcher
variable {σ : Type} {order : IterationOrder Int} (d : PostProcessDispatcher σ order) (toHsv : Bgr → Hsv) (frame : Mat)

def readText (st : σ) (prim : Detection) : Detection × σ :=
  match d.ocr with
  | none => (prim, st)
  | some engine => ({ prim with ocrText := (engine.infer st prim.roi).1 }, (engine.infer st prim.roi).2)

def checkColor (prim : Detection) : Detection :=
  match d.color with
  | none => prim
  | some v => { prim with colorPass := (v.validate toHsv prim.roi).pass }

/-- One round of the loop. -/
def processOne (st : σ) (prim : Detection) : Option (Detection × σ) :=
  if prim.classId = 1 then
    (if d.ocr.isSome then prim.extractRoi frame else some prim).map fun prim =>
      (d.checkColor toHsv (d.readText st prim).1, (d.readText st prim).2)
  else if prim.classId = 2 then
    (if d.color.isSome then prim.extractRoi frame else some prim).map fun prim => (d.checkColor toHsv prim, st)
  else some (prim, st)

def process (st : σ) : List Detection → Option (List Detection × σ)
  | [] => some ([], st)
  | prim :: batch =>
    (d.processOne toHsv frame st prim).bind fun r => (process r.2 batch).map fun rest => (r.1 :: rest.1, rest.2)

/-! ## One primitive -/

/-- The primitive is one whose box is cut out of the frame. -/
def Crops (prim : Detection) : Prop :=
  (prim.classId = 1 ∧ d.ocr.isSome = true ∨ prim.classId = 2 ∧ d.color.isSome = true) ∧ prim.roi.empty = true

instance (prim : Detection) : Decidable (d.Crops prim) := by unfold Crops; infer_instance

/-- The region shown to the filters. -/
def shown (prim : Detection) : Option Mat := if d.Crops prim then frame.crop prim.bbox else some prim.roi

/-- The mark a primitive gets for a region. -/
def colourOf (prim : Detection) (roi : Mat) : Bool :=
  match d.color with
  | none => prim.colorPass
  | some v => if prim.classId = 1 ∨ prim.classId = 2 then (v.validate toHsv roi).pass else prim.colorPass

/-- The text, and the engine's next state. -/
def textOf (st : σ) (prim : Detection) (roi : Mat) : List UInt8 × σ :=
  match d.ocr with
  | none => (prim.ocrText, st)
  | some engine => if prim.classId = 1 then engine.infer st roi else (prim.ocrText, st)

def outcome (st : σ) (prim : Detection) (roi : Mat) : Detection × σ :=
  ({ prim with roi := roi, ocrText := (d.textOf st prim roi).1, colorPass := d.colourOf toHsv prim roi },
    (d.textOf st prim roi).2)

variable {d}

theorem extractRoi_eq (guard : Bool) (prim : Detection) :
    (if guard then prim.extractRoi frame else some prim) =
      (if guard = true ∧ prim.roi.empty = true then frame.crop prim.bbox else some prim.roi).map
        fun roi => { prim with roi := roi } := by
  cases guard with
  | false => rfl
  | true =>
    by_cases hroi : prim.roi.empty
    · simp [Detection.extractRoi, hroi]
    · simp [Detection.extractRoi, hroi]

theorem checkColor_eq {prim : Detection} (h : prim.classId = 1 ∨ prim.classId = 2) :
    d.checkColor toHsv prim = { prim with colorPass := d.colourOf toHsv prim prim.roi } := by
  unfold checkColor colourOf
  cases d.color with
  | none => rfl
  | some v => simp [h]

theorem readText_eq (st : σ) {prim : Detection} (h : prim.classId = 1) :
    d.readText st prim = ({ prim with ocrText := (d.textOf st prim prim.roi).1 }, (d.textOf st prim prim.roi).2) := by
  unfold readText textOf
  cases d.ocr with
  | none => rfl
  | some engine => simp [h]

theorem shown_of_class1 {prim : Detection} (h : prim.classId = 1) :
    d.shown frame prim = if d.ocr.isSome = true ∧ prim.roi.empty = true then frame.crop prim.bbox else some prim.roi := by
  simp [shown, Crops, h]

theorem shown_of_class2 {prim : Detection} (h : prim.classId = 2) :
    d.shown frame prim = if d.color.isSome = true ∧ prim.roi.empty = true then frame.crop prim.bbox else some prim.roi := by
  simp [shown, Crops, h]

/-- The region is chosen first, and text and mark are both taken from it. -/
theorem processOne_eq (st : σ) (prim : Detection) :
    d.processOne toHsv frame st prim = (d.shown frame prim).map (d.outcome toHsv st prim) := by
  unfold processOne
  by_cases h1 : prim.classId = 1
  · rw [if_pos h1, extractRoi_eq, shown_of_class1 frame h1, Option.map_map]
    congr 1
    funext roi
    rw [Function.comp_apply, readText_eq, checkColor_eq]
    · rfl
    · exact Or.inl h1
    · exact h1
  · have htext (roi : Mat) : d.textOf st prim roi = (prim.ocrText, st) := by
      unfold textOf
      cases d.ocr <;> simp [h1]
    rw [if_neg h1]
    by_cases h2 : prim.classId = 2
    · rw [if_pos h2, extractRoi_eq, shown_of_class2 frame h2, Option.map_map]
      congr 1
      funext roi
      rw [Function.comp_apply, checkColor_eq, outcome, htext]
      · rfl
      · exact Or.inr h2
    · have hshown : d.shown frame prim = some prim.roi := by simp [shown, Crops, h1, h2]
      have hcolour : d.colourOf toHsv prim prim.roi = prim.colorPass := by
        unfold colourOf
        cases d.color <;> simp [h1, h2]
      rw [if_neg h2, hshown, Option.map_some, outcome, htext, hcolour]

theorem shown_eq_none_iff {prim : Detection} : d.shown frame prim = none ↔ d.Crops prim ∧ ¬frame.Holds prim.bbox := by
  rw [shown]
  split_ifs with hcrops
  · rw [Mat.crop_eq_none_iff, and_iff_right hcrops]
  · simp [hcrops]

/-! ## The batch -/

theorem process_cons (st : σ) (prim : Detection) (batch : List Detection) :
    d.process toHsv frame st (prim :: batch) =
      (d.shown frame prim).bind fun roi =>
        (d.process toHsv frame (d.textOf st prim roi).2 batch).map fun rest =>
          ((d.outcome toHsv st prim roi).1 :: rest.1, rest.2) := by
  rw [process, processOne_eq, Option.bind_map]
  rfl

theorem process_eq_none_iff {st : σ} {batch : List Detection} :
    d.process toHsv frame st batch = none ↔ ∃ prim ∈ batch, d.shown frame prim = none := by
  induction batch generalizing st with
  | nil => simp [process]
  | cons prim batch ih =>
    rw [process_cons]
    cases hshown : d.shown frame prim with
    | none => simp [hshown]
    | some roi => simp [hshown, ih]

theorem process_ne_none (st : σ) {batch : List Detection} (h : ∀ prim ∈ batch, d.shown frame prim ≠ none) :
    d.process toHsv frame st batch ≠ none := by
  intro hnone
  obtain ⟨prim, hprim, hshown⟩ := (process_eq_none_iff toHsv frame).mp hnone
  exact h prim hprim hshown

theorem process_throws (st : σ) {batch : List Detection} {prim : Detection} (hprim : prim ∈ batch) (hcrops : d.Crops prim)
    (hbox : ¬frame.Holds prim.bbox) : d.process toHsv frame st batch = none :=
  (process_eq_none_iff toHsv frame).mpr ⟨prim, hprim, (shown_eq_none_iff frame).mpr ⟨hcrops, hbox⟩⟩

/-- What the filters leave of a primitive, its text apart. -/
def viewOf (prim : Detection) : Option (Int × Mat × Bool) :=
  (d.shown frame prim).map fun roi => (prim.classId, roi, d.colourOf toHsv prim roi)

theorem views_process {st : σ} {batch : List Detection} {r : List Detection × σ}
    (h : d.process toHsv frame st batch = some r) :
    (r.1.map fun prim => some (prim.classId, prim.roi, prim.colorPass)) = batch.map fun prim => d.viewOf toHsv frame prim := by
  induction batch generalizing st r with
  | nil =>
    rw [process, Option.some.injEq] at h
    rw [← h]
    rfl
  | cons prim batch ih =>
    rw [process_cons, Option.bind_eq_some_iff] at h
    obtain ⟨roi, hshown, hrest⟩ := h
    obtain ⟨rest, hprocess, rfl⟩ := Option.map_eq_some_iff.mp hrest
    rw [List.map_cons, List.map_cons, ih hprocess, viewOf, hshown]
    rfl

/-- What becomes of a primitive. -/
theorem exists_processed {st : σ} {batch : List Detection} {r : List Detection × σ}
    (h : d.process toHsv frame st batch = some r) {prim : Detection} (hprim : prim ∈ batch) {roi : Mat}
    (hroi : d.shown frame prim = some roi) :
    ∃ q ∈ r.1, q.classId = prim.classId ∧ q.roi = roi ∧ q.colorPass = d.colourOf toHsv prim roi := by
  have hmem : d.viewOf toHsv frame prim ∈ r.1.map fun q => some (q.classId, q.roi, q.colorPass) :=
    views_process toHsv frame h ▸ List.mem_map_of_mem hprim
  obtain ⟨q, hq, hview⟩ := List.mem_map.mp hmem
  rw [viewOf, hroi, Option.map_some, Option.some.injEq, Prod.mk.injEq, Prod.mk.injEq] at hview
  exact ⟨q, hq, hview⟩

/-- Where a primitive of the result comes from. -/
theorem exists_original {st : σ} {batch : List Detection} {r : List Detection × σ}
    (h : d.process toHsv frame st batch = some r) {q : Detection} (hq : q ∈ r.1) :
    ∃ prim ∈ batch, q.classId = prim.classId ∧ d.shown frame prim = some q.roi ∧ q.colorPass = d.colourOf toHsv prim q.roi := by
  have hmem : some (q.classId, q.roi, q.colorPass) ∈ batch.map fun prim => d.viewOf toHsv frame prim :=
    views_process toHsv frame h ▸ List.mem_map_of_mem hq
  obtain ⟨prim, hprim, hview⟩ := List.mem_map.mp hmem
  obtain ⟨roi, hroi, heq⟩ := Option.map_eq_some_iff.mp hview
  rw [Prod.mk.injEq, Prod.mk.injEq] at heq
  obtain ⟨hid, rfl, hpass⟩ := heq
  exact ⟨prim, hprim, hid.symm, hroi, hpass.symm⟩

/-- The marks of the batch; none when the call throws. -/
def marks (result : Option (List Detection × σ)) : Option (List Bool) := result.map fun r => r.1.map fun prim => prim.colorPass

def texts (result : Option (List Detection × σ)) : Option (List (List UInt8)) :=
  result.map fun r => r.1.map fun prim => prim.ocrText

theorem marks_eq_none_iff {result : Option (List Detection × σ)} : marks result = none ↔ result = none := Option.map_eq_none_iff

theorem texts_eq_none_iff {result : Option (List Detection × σ)} : texts result = none ↔ result = none := Option.map_eq_none_iff

theorem texts_process_cons {st : σ} {prim : Detection} {batch : List Detection} {roi : Mat} (h : d.shown frame prim = some roi) :
    texts (d.process toHsv frame st (prim :: batch)) =
      (texts (d.process toHsv frame (d.textOf st prim roi).2 batch)).map fun rest => (d.textOf st prim roi).1 :: rest := by
  rw [process_cons, h, Option.bind_some, texts, texts, Option.map_map, Option.map_map]
  rfl

/-- The text of a primitive is taken from a region that the validator has no part in. -/
theorem texts_eq {d d' : PostProcessDispatcher σ order} (hocr : d.ocr = d'.ocr) {st : σ} {batch : List Detection}
    (h : ∀ prim ∈ batch, d.shown frame prim ≠ none) (h' : ∀ prim ∈ batch, d'.shown frame prim ≠ none) :
    texts (d.process toHsv frame st batch) = texts (d'.process toHsv frame st batch) := by
  induction batch generalizing st with
  | nil => rfl
  | cons prim batch ih =>
    obtain ⟨roi, hroi⟩ := Option.ne_none_iff_exists'.mp (h prim List.mem_cons_self)
    obtain ⟨roi', hroi'⟩ := Option.ne_none_iff_exists'.mp (h' prim List.mem_cons_self)
    have htext : d.textOf st prim roi = d'.textOf st prim roi' := by
      by_cases h1 : prim.classId = 1
      · rw [shown_of_class1 frame h1, hocr] at hroi
        rw [shown_of_class1 frame h1, hroi, Option.some.injEq] at hroi'
        rw [textOf, textOf, hocr, hroi']
      · rw [textOf, textOf, hocr]
        simp [h1]
    rw [texts_process_cons toHsv frame hroi, texts_process_cons toHsv frame hroi', htext,
      ih (fun q hq => h q (List.mem_cons_of_mem _ hq)) fun q hq => h' q (List.mem_cons_of_mem _ hq)]

/-! ## Skipped checks -/

/-- No mark of a check that was skipped, and none without a ratio below the threshold. -/
def MarksJustly (v : ColorValidator order) (prim : Detection) : Prop :=
  ((v.validate toHsv prim.roi).skipped = true → prim.colorPass = true) ∧
  (prim.colorPass = false → (v.validate toHsv prim.roi).skipped = false ∧
    ∃ cfg, v.configs.first = some cfg ∧ cfg.passRatio.gt (v.validate toHsv prim.roi).ratio = true)

theorem marksJustly_iff {v : ColorValidator order} {prim : Detection}
    (h : prim.colorPass = (v.validate toHsv prim.roi).pass) :
    MarksJustly toHsv v prim ↔
      skipOfRegion toHsv prim.roi = none ∧ ∀ cfg, v.configs.first = some cfg → cfg.passRatio.isNan = false := by
  rw [MarksJustly, h, ColorValidator.validate]
  cases hregion : skipOfRegion toHsv prim.roi with
  | some reason => simp [verdict_of_skip hregion]
  | none =>
    cases hcfg : v.configs.first with
    | none => simp [verdict_none hregion]
    | some cfg =>
      rw [verdict_some hregion]
      cases hle : cfg.passRatio.le (matchRatio toHsv prim.roi cfg.toColorRange) with
      | true =>
        have hnan : cfg.passRatio.isNan = false := by
          cases hthreshold : cfg.passRatio <;> simp_all [FloatValue.le, FloatValue.isNan]
        simp [hnan]
      | false => simp [FloatValue.gt_iff, hle]

/-- A call that returns has marked justly just where no region was left unjudged for its pixels and the threshold is a number. -/
theorem skipped_never_rejects_iff (ocr : Option (OcrEngine σ)) (v : ColorValidator order) (st : σ) (batch : List Detection) :
    (∀ r, (PostProcessDispatcher.mk ocr (some v)).process toHsv frame st batch = some r →
      ∀ prim ∈ r.1, prim.classId = 1 ∨ prim.classId = 2 → MarksJustly toHsv v prim) ↔
    (∃ prim ∈ batch, (PostProcessDispatcher.mk ocr (some v)).Crops prim ∧ ¬frame.Holds prim.bbox) ∨
      ∀ prim ∈ batch, prim.classId = 1 ∨ prim.classId = 2 →
        ∀ roi, (PostProcessDispatcher.mk ocr (some v)).shown frame prim = some roi →
          skipOfRegion toHsv roi = none ∧ ∀ cfg, v.configs.first = some cfg → cfg.passRatio.isNan = false := by
  let d := PostProcessDispatcher.mk ocr (some v)
  have hmark {prim : Detection} (hclass : prim.classId = 1 ∨ prim.classId = 2) (roi : Mat) :
      d.colourOf toHsv prim roi = (v.validate toHsv roi).pass := if_pos hclass
  cases hprocess : d.process toHsv frame st batch with
  | none =>
    obtain ⟨prim, hprim, hshown⟩ := (process_eq_none_iff toHsv frame).mp hprocess
    exact iff_of_true (fun r hr => nomatch hr) (Or.inl ⟨prim, hprim, (shown_eq_none_iff frame).mp hshown⟩)
  | some r =>
    constructor
    · intro hall
      refine Or.inr fun prim hprim hclass roi hroi => ?_
      obtain ⟨q, hq, hid, rfl, hpass⟩ := exists_processed toHsv frame hprocess hprim hroi
      rw [hmark hclass] at hpass
      exact (marksJustly_iff toHsv hpass).mp (hall r rfl q hq (hid ▸ hclass))
    · rintro hcond r' hr' q hq hclass
      rw [Option.some.injEq] at hr'
      subst hr'
      obtain ⟨prim, hprim, hid, hroi, hpass⟩ := exists_original toHsv frame hprocess hq
      rw [hid] at hclass
      rw [hmark hclass] at hpass
      refine (marksJustly_iff toHsv hpass).mpr ?_
      rcases hcond with ⟨p, hp, hcrops, hbox⟩ | hcond
      · have hnone := process_throws (d := d) toHsv frame st hp hcrops hbox
        exact absurd (hprocess.symm.trans hnone) (Option.some_ne_none _)
      · exact hcond prim hprim hclass q.roi hroi

/-- A text zone without a region, as the inference may leave it. -/
def textZone : Detection := { bbox := ⟨0, 0, 1, 1⟩, classId := 1, roi := .none }

/-- Without an engine the zone is not cut out; its check is skipped, and it is marked as failed. -/
theorem skipped_check_rejects :
    ¬∀ (ocr : Option (OcrEngine Unit)) (v : ColorValidator (.newestFirst Int)) (frame : Mat) (batch : List Detection) r,
      (PostProcessDispatcher.mk ocr (some v)).process sampleHsv frame () batch = some r →
        ∀ prim ∈ r.1, prim.classId = 1 ∨ prim.classId = 2 → MarksJustly sampleHsv v prim := by
  intro h
  have hmarked := h none .create (.filled 1 1 ⟨0, 0, 200⟩) [textZone] ([textZone], ()) rfl textZone
    (List.mem_singleton_self _) (Or.inl rfl)
  exact Bool.false_ne_true (hmarked.1 rfl)

/-! ## Two dispatchers -/

/-- Every box that may have to be cut out lies in the frame. -/
def BoxesHold (batch : List Detection) : Prop :=
  ∀ prim ∈ batch, prim.roi.empty = true → prim.classId = 1 ∨ prim.classId = 2 → frame.Holds prim.bbox

theorem shown_ne_none {batch : List Detection} (h : BoxesHold frame batch) : ∀ prim ∈ batch, d.shown frame prim ≠ none := by
  intro prim hprim hnone
  obtain ⟨⟨hclass, hempty⟩, hbox⟩ := (shown_eq_none_iff frame).mp hnone
  exact hbox (h prim hprim hempty (hclass.imp And.left And.left))

theorem marks_eq_iff {d d' : PostProcessDispatcher σ order} {st : σ} {batch : List Detection}
    (h : ∀ prim ∈ batch, d.shown frame prim ≠ none) (h' : ∀ prim ∈ batch, d'.shown frame prim ≠ none) :
    marks (d.process toHsv frame st batch) = marks (d'.process toHsv frame st batch) ↔
      ∀ prim ∈ batch, (d.viewOf toHsv frame prim).map (·.2.2) = (d'.viewOf toHsv frame prim).map (·.2.2) := by
  have marked {d : PostProcessDispatcher σ order} {r : List Detection × σ} (hr : d.process toHsv frame st batch = some r) :
      (r.1.map fun prim => prim.colorPass).map some = batch.map fun prim => (d.viewOf toHsv frame prim).map (·.2.2) := by
    have hviews := congrArg (List.map (Option.map (·.2.2))) (views_process toHsv frame hr)
    rw [List.map_map, List.map_map] at hviews
    rw [List.map_map]
    exact hviews
  obtain ⟨r, hr⟩ := Option.ne_none_iff_exists'.mp (process_ne_none toHsv frame st h)
  obtain ⟨r', hr'⟩ := Option.ne_none_iff_exists'.mp (process_ne_none toHsv frame st h')
  rw [← List.map_inj_left, ← marked hr, ← marked hr', (List.map_injective_iff.mpr (Option.some_injective Bool)).eq_iff, hr, hr',
    marks, marks, Option.map_some, Option.map_some, Option.some.injEq]

theorem pass_of_empty {v : ColorValidator order} {roi : Mat} (h : roi.empty = true) : (v.validate toHsv roi).pass = false := by
  have hregion : skipOfRegion toHsv roi = some "empty_roi" := if_pos h
  rw [ColorValidator.validate, verdict_of_skip hregion]

/-- Without an engine the text zones are not cut out, without a validator the colour zones are not. -/
theorem shown_ne_none_of_parts {batch : List Detection} (hocr : d.ocr = none)
    (h : d.color = none ∨ ∀ prim ∈ batch, prim.roi.empty = true → prim.classId = 2 → frame.Holds prim.bbox) :
    ∀ prim ∈ batch, d.shown frame prim ≠ none := by
  intro prim hprim hnone
  obtain ⟨⟨hclass, hempty⟩, hbox⟩ := (shown_eq_none_iff frame).mp hnone
  rcases hclass with ⟨-, hsome⟩ | ⟨hid, hsome⟩
  · rw [hocr] at hsome
    exact Bool.false_ne_true hsome
  · rcases h with hcolor | hall
    · rw [hcolor] at hsome
      exact Bool.false_ne_true hsome
    · exact hbox (hall prim hprim hempty hid)

/-- The engine leaves every mark alone, and the validator every text, just where each box to be cut out lies in the frame and
no text zone without a region of its own would pass. -/
theorem stages_independent_iff (engine : OcrEngine σ) (color : Option (ColorValidator order)) (st : σ) (batch : List Detection) :
    (marks ((PostProcessDispatcher.mk (some engine) color).process toHsv frame st batch) =
        marks ((PostProcessDispatcher.mk none color).process toHsv frame st batch) ∧
      ∀ (ocr : Option (OcrEngine σ)) (color' : Option (ColorValidator order)), ocr = some engine ∨ ocr = none →
        texts ((PostProcessDispatcher.mk ocr color).process toHsv frame st batch) =
          texts ((PostProcessDispatcher.mk ocr color').process toHsv frame st batch)) ↔
    BoxesHold frame batch ∧ ∀ v, color = some v → ∀ prim ∈ batch, prim.classId = 1 → prim.roi.empty = true →
      ∀ roi, frame.crop prim.bbox = some roi → (v.validate toHsv roi).pass = false := by
  constructor
  · rintro ⟨hmarks, htexts⟩
    -- a colour zone outside the frame throws with a validator and not without one
    have hcolour : ∀ prim ∈ batch, prim.roi.empty = true → prim.classId = 2 → frame.Holds prim.bbox := by
      intro prim hprim hempty hid
      by_contra hbox
      let without : PostProcessDispatcher σ order := ⟨none, none⟩
      have hreturns : without.process toHsv frame st batch ≠ none :=
        process_ne_none toHsv frame st (shown_ne_none_of_parts frame rfl (Or.inl rfl))
      have hthrows (v : ColorValidator order) : (PostProcessDispatcher.mk none (some v)).process toHsv frame st batch = none :=
        process_throws toHsv frame st hprim ⟨Or.inr ⟨hid, rfl⟩, hempty⟩ hbox
      have hsame (v : ColorValidator order) :
          texts (without.process toHsv frame st batch) =
            texts ((PostProcessDispatcher.mk none (some v)).process toHsv frame st batch) := by
        cases color with
        | none => exact htexts none (some v) (Or.inr rfl)
        | some w => exact (htexts none none (Or.inr rfl)).symm.trans (htexts none (some v) (Or.inr rfl))
      have hnone := hsame .create
      rw [hthrows, (texts_eq_none_iff (σ := σ)).mpr rfl, texts_eq_none_iff] at hnone
      exact hreturns hnone
    have hwithout : ∀ prim ∈ batch, (PostProcessDispatcher.mk (σ := σ) none color).shown frame prim ≠ none :=
      shown_ne_none_of_parts frame rfl (Or.inr hcolour)
    have hboxes : BoxesHold frame batch := by
      intro prim hprim hempty hclass
      rcases hclass with hid | hid
      · by_contra hbox
        have hthrows : (PostProcessDispatcher.mk (some engine) color).process toHsv frame st batch = none :=
          process_throws toHsv frame st hprim ⟨Or.inl ⟨hid, rfl⟩, hempty⟩ hbox
        rw [hthrows, (marks_eq_none_iff (σ := σ)).mpr rfl] at hmarks
        exact process_ne_none toHsv frame st hwithout (marks_eq_none_iff.mp hmarks.symm)
      · exact hcolour prim hprim hempty hid
    refine ⟨hboxes, ?_⟩
    rintro v rfl prim hprim hid hempty roi hroi
    have hview := (marks_eq_iff toHsv frame (shown_ne_none frame hboxes) hwithout).mp hmarks prim hprim
    rw [viewOf, viewOf, shown_of_class1 frame hid, shown_of_class1 frame hid, if_pos ⟨rfl, hempty⟩, hroi] at hview
    simp only [Option.isSome_none, Bool.false_eq_true, false_and, if_false, Option.map_some, colourOf, hid, true_or, if_true,
      Option.some.injEq, pass_of_empty toHsv hempty] at hview
    exact hview
  · rintro ⟨hboxes, hpass⟩
    constructor
    · refine (marks_eq_iff toHsv frame (shown_ne_none frame hboxes) (shown_ne_none frame hboxes)).mpr fun prim hprim => ?_
      by_cases hid : prim.classId = 1
      · by_cases hempty : prim.roi.empty = true
        · obtain ⟨roi, hroi⟩ := Option.ne_none_iff_exists'.mp
            (mt Mat.crop_eq_none_iff.mp (not_not.mpr (hboxes prim hprim hempty (Or.inl hid))))
          rw [viewOf, viewOf, shown_of_class1 frame hid, shown_of_class1 frame hid, if_pos ⟨rfl, hempty⟩, hroi]
          cases color with
          | none => simp [colourOf]
          | some v => simp [colourOf, hid, pass_of_empty toHsv hempty, hpass v rfl prim hprim hid hempty roi hroi]
        · simp [viewOf, shown_of_class1 frame hid, hempty, colourOf]
      · simp [viewOf, shown, Crops, hid, colourOf]
    · intro ocr color' _
      have hocr : (PostProcessDispatcher.mk ocr color).ocr = (PostProcessDispatcher.mk ocr color').ocr := rfl
      exact texts_eq toHsv frame hocr (shown_ne_none frame hboxes) (shown_ne_none frame hboxes)

/-- The engine's presence turns the mark of a text zone around. -/
theorem engine_changes_mark :
    ¬∀ (engine : OcrEngine Unit) (color : Option (ColorValidator (.newestFirst Int))) (frame : Mat) (batch : List Detection),
      marks ((PostProcessDispatcher.mk (some engine) color).process sampleHsv frame () batch) =
        marks ((PostProcessDispatcher.mk none color).process sampleHsv frame () batch) := by
  intro h
  have hmarks := h ⟨fun _ _ => ([], ())⟩ (some .create) (.filled 1 1 ⟨0, 0, 200⟩) [textZone]
  revert hmarks
  decide +kernel

end PostProcessDispatcher
end IbarraGateway.GemaVision
