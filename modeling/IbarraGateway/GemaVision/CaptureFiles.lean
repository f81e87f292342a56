import IbarraGateway.GemaVision.DataCollector
import IbarraGateway.Lib.StreamText

/-!
# The files of the data collector

`set_mode` and `infer` called one after another. A call is a sequence of steps of the two threads (`calls_refine`); here it is
one step, and a run is any sequence of calls.

* `call_cases` : what a call does to the counters and to the files.
* `collection_bounded` : how many files a calibration run has, and that no two files have the same name.
-/

namespace IbarraGateway.GemaVision

/-- `build_filename`; `putTime` is how the clock's time is written. -/
def FileName.path (outputDir : List Char) (putTime : Nat → List Char) (name : FileName) : List Char :=
  outputDir ++ ("frame_".toList ++ (putTime name.timestamp ++ ("_batch".toList ++ (Nat.toDigits 10 name.batch ++
    ("_cap".toList ++ (Nat.toDigits 10 name.capture ++ ".jpg".toList))))))

inductive CollectorCall
  | setMode (mode : Mode)
  | infer (now : Nat) (written : Bool)
  deriving DecidableEq, Repr

namespace DataCollector
variable (s : DataCollector)

def setMode : Mode → DataCollector × List CollectorEvent
  | .calibration =>
    ({ s with mode := .calibration, captureCount := 0, batchId := s.batchId + 1 }, [.status "calibration_started"])
  | .idle => ({ s with mode := .idle }, if s.mode = .calibration then [s.complete] else [])

/-- The name of the next file. -/
def buildFilename (now : Nat) : FileName := ⟨now, s.batchId, s.captureCount⟩

/-- The capture stops at the limit. -/
def stopAtLimit : DataCollector × List CollectorEvent := if kCaptureLimit ≤ s.captureCount then s.setMode .idle else (s, [])

def saveFrame (now : Nat) (written : Bool) : DataCollector × List CollectorEvent :=
  if kCaptureLimit ≤ s.captureCount then s.setMode .idle
  else if written then
    let counted := { s with captureCount := s.captureCount + 1 }
    (counted.stopAtLimit.1,
      .saved (s.buildFilename now) :: (progress counted.captureCount ++ counted.stopAtLimit.2))
  else ((s.setMode .idle).1, .failed (s.buildFilename now) :: .status "error:write_failed" :: (s.setMode .idle).2)

def infer (now : Nat) (written : Bool) : DataCollector × List CollectorEvent :=
  if s.mode = .calibration then ((s.saveFrame now written).1, .began :: (s.saveFrame now written).2) else (s, [])

def call : CollectorCall → DataCollector × List CollectorEvent
  | .setMode mode => ((s.setMode mode).1, .commanded mode :: (s.setMode mode).2)
  | .infer now written => s.infer now written

end DataCollector

/-- One call after another. -/
def collectorCalls : Machine DataCollector CollectorCall CollectorEvent where
  step s c := some (s.call c)

/-! ## Calls and threads -/

/-- Both threads are between two calls. -/
def DataCollector.Idle (s : DataCollector) : Prop := s.commander = .idle ∧ s.collector = .ready

/-- The consumer's thread takes `n` steps, at one time and with one answer of `imwrite`. -/
def collectorSteps (n now : Nat) (written : Bool) : List CollectorInput := List.replicate n (.collector now written)

theorem setMode_refines {s : DataCollector} (hs : s.Idle) (mode : Mode) :
    ∃ inputs, dataCollector.run s inputs = some (s.call (.setMode mode)) := by
  obtain ⟨old, captureCount, batchId, commander, collector⟩ := s
  obtain ⟨rfl, rfl⟩ : commander = .idle ∧ collector = .ready := hs
  cases mode with
  | calibration => exact ⟨[.command .calibration, .commander, .commander, .commander], rfl⟩
  | idle =>
    cases old with
    | idle => exact ⟨[.command .idle], rfl⟩
    | calibration => exact ⟨[.command .idle, .commander], rfl⟩

theorem infer_refines {s : DataCollector} (hs : s.Idle) (now : Nat) (written : Bool) :
    ∃ n, dataCollector.run s (collectorSteps n now written) = some (s.infer now written) := by
  obtain ⟨mode, captureCount, batchId, commander, collector⟩ := s
  obtain ⟨rfl, rfl⟩ : commander = .idle ∧ collector = .ready := hs
  cases mode with
  | idle => exact ⟨0, rfl⟩
  | calibration =>
    simp only [collectorSteps]
    by_cases hlimit : kCaptureLimit ≤ captureCount
    · refine ⟨4, ?_⟩
      simp [Machine.run, dataCollector, DataCollector.collectorStep, DataCollector.infer, DataCollector.saveFrame,
        DataCollector.setMode, DataCollector.complete, hlimit, List.replicate]
    · cases written with
      | false =>
        refine ⟨7, ?_⟩
        simp [Machine.run, dataCollector, DataCollector.collectorStep, DataCollector.infer, DataCollector.saveFrame,
          DataCollector.setMode, DataCollector.buildFilename, DataCollector.complete, hlimit, List.replicate]
      | true =>
        by_cases hlast : kCaptureLimit ≤ captureCount + 1
        · refine ⟨8, ?_⟩
          simp [Machine.run, dataCollector, DataCollector.collectorStep, DataCollector.infer, DataCollector.saveFrame,
            DataCollector.stopAtLimit, DataCollector.setMode, DataCollector.buildFilename, DataCollector.complete, hlimit, hlast,
            List.replicate]
        · refine ⟨6, ?_⟩
          simp [Machine.run, dataCollector, DataCollector.collectorStep, DataCollector.infer, DataCollector.saveFrame,
            DataCollector.stopAtLimit, DataCollector.buildFilename, hlimit, hlast, List.replicate]

theorem idle_call {s : DataCollector} (hs : s.Idle) (c : CollectorCall) : (s.call c).1.Idle := by
  have hset (t : DataCollector) (ht : t.Idle) (mode : Mode) : (t.setMode mode).1.Idle := by
    cases mode <;> exact ht
  have hstop (t : DataCollector) (ht : t.Idle) : t.stopAtLimit.1.Idle := by
    unfold DataCollector.stopAtLimit
    split_ifs
    · exact hset t ht .idle
    · exact ht
  cases c with
  | setMode mode => exact hset s hs mode
  | infer now written =>
    simp only [DataCollector.call, DataCollector.infer, DataCollector.saveFrame]
    split_ifs
    · exact hset s hs .idle
    · exact hstop _ hs
    · exact hset s hs .idle
    · exact hs

/-- A sequence of calls is a run of the threads. -/
theorem calls_refine {s t : DataCollector} {h : List CollectorEvent} (hs : s.Idle) {calls : List CollectorCall}
    (hrun : collectorCalls.run s calls = some (t, h)) : ∃ inputs, dataCollector.run s inputs = some (t, h) := by
  induction calls generalizing s h with
  | nil => exact ⟨[], hrun⟩
  | cons c calls ih =>
    obtain ⟨u, out, outs, hstep, hcalls, rfl⟩ := collectorCalls.run_cons_iff.mp hrun
    have hcall : s.call c = (u, out) := Option.some.inj hstep
    have hu : u.Idle := by
      have hidle := idle_call hs c
      rwa [hcall] at hidle
    have hfirst : ∃ inputs, dataCollector.run s inputs = some (u, out) := by
      cases c with
      | setMode mode => exact hcall ▸ setMode_refines hs mode
      | infer now written =>
        obtain ⟨n, hn⟩ := infer_refines hs now written
        exact ⟨_, hn.trans (congrArg some hcall)⟩
    obtain ⟨inputs, hinputs⟩ := hfirst
    obtain ⟨rest, hrest⟩ := ih hu hcalls
    exact ⟨inputs ++ rest, dataCollector.run_append_iff.mpr ⟨u, out, outs, hinputs, hrest, rfl⟩⟩

/-! ## What a call does -/

def savedName : CollectorEvent → Option FileName
  | .saved name => some name
  | _ => none

/-- The files of a history, in the order in which they were written. -/
def savedNames (h : List CollectorEvent) : List FileName := h.filterMap savedName

@[simp] theorem savedNames_append (h h' : List CollectorEvent) : savedNames (h ++ h') = savedNames h ++ savedNames h' :=
  List.filterMap_append

namespace DataCollector
variable (s : DataCollector)

@[simp] theorem savedNames_progress (count : Nat) : savedNames (progress count) = [] := by
  unfold progress
  split_ifs <;> rfl

@[simp] theorem savedNames_setMode (mode : Mode) : savedNames (s.setMode mode).2 = [] := by
  unfold setMode
  cases mode with
  | calibration => rfl
  | idle => dsimp only; split_ifs <;> rfl

@[simp] theorem savedNames_stopAtLimit : savedNames s.stopAtLimit.2 = [] := by
  unfold stopAtLimit
  split_ifs
  · exact s.savedNames_setMode .idle
  · rfl

@[simp] theorem captureCount_stopAtLimit : s.stopAtLimit.1.captureCount = s.captureCount := by
  unfold stopAtLimit
  split_ifs <;> rfl

@[simp] theorem batchId_stopAtLimit : s.stopAtLimit.1.batchId = s.batchId := by
  unfold stopAtLimit
  split_ifs <;> rfl

theorem mode_stopAtLimit (h : s.stopAtLimit.1.mode = .calibration) : s.captureCount < kCaptureLimit := by
  unfold stopAtLimit at h
  split_ifs at h with hlimit
  · exact nomatch h
  · exact Nat.lt_of_not_le hlimit

end DataCollector

/-- A new run, a file, or neither. -/
inductive CallEffect (s : DataCollector) (c : CollectorCall) (t : DataCollector) (names : List FileName) : Prop
  | begun (hc : c = .setMode .calibration) (hcount : t.captureCount = 0) (hbatch : t.batchId = s.batchId + 1)
      (hnames : names = [])
  | saved (now : Nat) (hc : c ≠ .setMode .calibration) (hroom : s.captureCount < kCaptureLimit)
      (hcount : t.captureCount = s.captureCount + 1) (hbatch : t.batchId = s.batchId)
      (hmode : t.mode = .calibration → t.captureCount < kCaptureLimit) (hnames : names = [s.buildFilename now])
  | kept (hc : c ≠ .setMode .calibration) (hcount : t.captureCount = s.captureCount) (hbatch : t.batchId = s.batchId)
      (hmode : t.mode = .calibration → s.mode = .calibration) (hnames : names = [])

theorem call_cases (s : DataCollector) (c : CollectorCall) : CallEffect s c (s.call c).1 (savedNames (s.call c).2) := by
  cases c with
  | setMode mode =>
    have hnames : savedNames (s.call (.setMode mode)).2 = [] := s.savedNames_setMode mode
    cases mode with
    | calibration => exact .begun rfl rfl rfl hnames
    | idle => exact .kept nofun rfl rfl nofun hnames
  | infer now written =>
    by_cases hmode : s.mode = .calibration
    · have hcall : s.call (.infer now written) = ((s.saveFrame now written).1, .began :: (s.saveFrame now written).2) :=
        if_pos hmode
      have hnames : savedNames (s.call (.infer now written)).2 = savedNames (s.saveFrame now written).2 := by rw [hcall]; rfl
      rw [hnames, hcall, DataCollector.saveFrame]
      split_ifs with hlimit hwritten
      · exact .kept nofun rfl rfl nofun (s.savedNames_setMode .idle)
      · let counted := { s with captureCount := s.captureCount + 1 }
        refine .saved now nofun (Nat.lt_of_not_le hlimit) counted.captureCount_stopAtLimit counted.batchId_stopAtLimit ?_ ?_
        · intro hcal
          rw [counted.captureCount_stopAtLimit]
          exact counted.mode_stopAtLimit hcal
        · show s.buildFilename now :: savedNames (DataCollector.progress counted.captureCount ++ counted.stopAtLimit.2) = _
          rw [savedNames_append, DataCollector.savedNames_progress, DataCollector.savedNames_stopAtLimit, List.append_nil]
      · exact .kept nofun rfl rfl nofun (s.savedNames_setMode .idle)
    · have hcall : s.call (.infer now written) = (s, []) := if_neg hmode
      rw [hcall]
      exact .kept nofun rfl rfl id rfl

/-! ## The files -/

/-- The files of the current run have the numbers below the counter, those of earlier runs another batch. -/
structure Collected (h : List CollectorEvent) (s : DataCollector) : Prop where
  limit : s.captureCount ≤ kCaptureLimit
  mode : s.mode = .calibration → s.captureCount < kCaptureLimit
  names : ∀ n ∈ savedNames h, n.batch < s.batchId ∨ n.batch = s.batchId ∧ n.capture < s.captureCount
  distinct : (savedNames h).Pairwise fun n n' => ¬(n.batch = n'.batch ∧ n.capture = n'.capture)

theorem Collected.start : Collected [] .start := ⟨Nat.zero_le _, nofun, nofun, List.Pairwise.nil⟩

theorem Collected.step {h : List CollectorEvent} {s t : DataCollector} {c : CollectorCall} {out : List CollectorEvent}
    (hs : Collected h s) (hstep : collectorCalls.step s c = some (t, out)) : Collected (h ++ out) t := by
  have hcall : s.call c = (t, out) := Option.some.inj hstep
  have heffect := call_cases s c
  rw [hcall] at heffect
  dsimp only at heffect
  cases heffect with
  | begun hc hcount hbatch hnames =>
    refine ⟨by omega, fun _ => by rw [hcount]; decide, ?_, ?_⟩
    · intro n hn
      rw [savedNames_append, hnames, List.append_nil] at hn
      have := hs.names n hn
      omega
    · rw [savedNames_append, hnames, List.append_nil]
      exact hs.distinct
  | saved now hc hroom hcount hbatch hmode hnames =>
    refine ⟨by omega, hmode, ?_, ?_⟩
    · intro n hn
      rw [savedNames_append, hnames, List.mem_append, List.mem_singleton] at hn
      rcases hn with hn | rfl
      · have := hs.names n hn
        omega
      · have hbatch' : (s.buildFilename now).batch = s.batchId := rfl
        have hcapture : (s.buildFilename now).capture = s.captureCount := rfl
        omega
    · rw [savedNames_append, hnames, List.pairwise_append]
      refine ⟨hs.distinct, List.pairwise_singleton _ _, fun n hn n' hn' => ?_⟩
      rw [List.mem_singleton] at hn'
      subst hn'
      rintro ⟨hb, hc'⟩
      have hbatch' : (s.buildFilename now).batch = s.batchId := rfl
      have hcapture : (s.buildFilename now).capture = s.captureCount := rfl
      have := hs.names n hn
      omega
  | kept hc hcount hbatch hmode hnames =>
    refine ⟨hcount ▸ hs.limit, fun hcal => hcount ▸ hs.mode (hmode hcal), ?_, ?_⟩
    · rw [savedNames_append, hnames, List.append_nil, hcount, hbatch]
      exact hs.names
    · rw [savedNames_append, hnames, List.append_nil]
      exact hs.distinct

theorem collected_run {calls : List CollectorCall} {s : DataCollector} {h : List CollectorEvent}
    (hrun : collectorCalls.run .start calls = some (s, h)) : Collected h s :=
  collectorCalls.run_induction (I := Collected) (fun _ _ _ _ _ hs _ hstep => hs.step hstep) .start
    (collectorCalls.along_true _ _) hrun

/-- Within a run the counter counts the files. -/
theorem captureCount_run {calls : List CollectorCall} {s t : DataCollector} {h : List CollectorEvent}
    (hcalls : .setMode .calibration ∉ calls) (hrun : collectorCalls.run s calls = some (t, h)) :
    t.captureCount = s.captureCount + (savedNames h).length := by
  induction calls generalizing s h with
  | nil =>
    obtain ⟨rfl, rfl⟩ := Prod.mk.inj (Option.some.inj hrun)
    rfl
  | cons c calls ih =>
    obtain ⟨u, out, outs, hstep, hrest, rfl⟩ := collectorCalls.run_cons_iff.mp hrun
    have hcall : s.call c = (u, out) := Option.some.inj hstep
    have hlater := ih (fun hmem => hcalls (List.mem_cons_of_mem _ hmem)) hrest
    have heffect := call_cases s c
    rw [hcall] at heffect
    dsimp only at heffect
    rw [savedNames_append, List.length_append, hlater]
    cases heffect with
    | begun hc => exact absurd (hc ▸ List.mem_cons_self) hcalls
    | saved now hc hroom hcount hbatch hmode hnames => rw [hcount, hnames, List.length_singleton, Nat.add_assoc]
    | kept hc hcount hbatch hmode hnames => rw [hcount, hnames, List.length_nil, Nat.zero_add]

/-! ## The names -/

/-- Batch and number can be read off a path, whatever stands for the time. -/
theorem FileName.path_inj {outputDir : List Char} {putTime : Nat → List Char} {n n' : FileName}
    (h : n.path outputDir putTime = n'.path outputDir putTime) : n.batch = n'.batch ∧ n.capture = n'.capture := by
  have hbatch : "_batch".toList = "_batc".toList ++ ['h'] := by decide
  have hcap : "_cap".toList = "_ca".toList ++ ['p'] := by decide
  let front (n : FileName) : List Char := outputDir ++ ("frame_".toList ++ (putTime n.timestamp ++ "_batc".toList))
  have hpath (n : FileName) : n.path outputDir putTime =
      (((front n ++ 'h' :: Nat.toDigits 10 n.batch) ++ "_ca".toList) ++ 'p' :: Nat.toDigits 10 n.capture) ++ ".jpg".toList := by
    simp only [FileName.path, front, hbatch, hcap, List.append_assoc, List.cons_append, List.nil_append]
  rw [hpath, hpath] at h
  obtain ⟨hfront, hcapture⟩ := append_toDigits_inj rfl rfl (List.append_cancel_right h)
  exact ⟨(append_toDigits_inj rfl rfl (List.append_cancel_right hfront)).2, hcapture⟩

/-- **The collected files**: a calibration run has as many as the counter says and at most 200, the mode is `CALIBRATION` only
below that, and all files have different paths. -/
theorem collection_bounded (outputDir : List Char) (putTime : Nat → List Char) {calls : List CollectorCall} {s : DataCollector}
    {h : List CollectorEvent} (hrun : collectorCalls.run .start calls = some (s, h)) :
    (∀ before during after, calls = before ++ .setMode .calibration :: (during ++ after) → .setMode .calibration ∉ during →
      ∃ u hu t out, collectorCalls.run .start (before ++ [.setMode .calibration]) = some (u, hu) ∧
        collectorCalls.run u during = some (t, out) ∧ t.captureCount = (savedNames out).length ∧
        (savedNames out).length ≤ kCaptureLimit) ∧
    (s.mode = .calibration → s.captureCount < kCaptureLimit) ∧
    ((savedNames h).map (FileName.path outputDir putTime)).Nodup := by
  refine ⟨?_, (collected_run hrun).mode, ?_⟩
  · rintro before during after rfl hduring
    rw [← List.singleton_append, ← List.append_assoc, ← List.append_assoc] at hrun
    obtain ⟨t, ht, -, hfirst, -, -⟩ := collectorCalls.run_append_iff.mp hrun
    obtain ⟨u, hu, out, hbegin, hcalls, rfl⟩ := collectorCalls.run_append_iff.mp hfirst
    refine ⟨u, hu, t, out, hbegin, hcalls, ?_⟩
    obtain ⟨v, hv, houts, -, hlast, -⟩ := collectorCalls.run_append_iff.mp hbegin
    have hzero : u.captureCount = 0 := congrArg (fun r => r.1.captureCount) (Option.some.inj hlast.symm)
    have hcount := captureCount_run hduring hcalls
    have hlimit := (collected_run hfirst).limit
    rw [hzero, Nat.zero_add] at hcount
    exact ⟨hcount, hcount ▸ hlimit⟩
  · apply List.pairwise_map.mpr
    exact (collected_run hrun).distinct.imp fun hne heq => hne (FileName.path_inj heq)

/-- Two files of one second, and a new run. -/
theorem two_runs_collected :
    ∃ s h, collectorCalls.run .start [.setMode .calibration, .infer 0 true, .infer 0 true, .setMode .calibration, .infer 0 true] =
        some (s, h) ∧ (savedNames h).length = 3 ∧
      ((savedNames h).map (FileName.path "/tmp/".toList fun _ => "19700101_000000".toList)).Nodup := by
  have hend : (collectorCalls.run .start
      [.setMode .calibration, .infer 0 true, .infer 0 true, .setMode .calibration, .infer 0 true]).map
      (fun (_, h) => (savedNames h).length) = some 3 := by decide
  obtain ⟨⟨s, h⟩, hrun, hlength⟩ := Option.map_eq_some_iff.mp hend
  exact ⟨s, h, hrun, hlength, (collection_bounded _ _ hrun).2.2⟩

end IbarraGateway.GemaVision
