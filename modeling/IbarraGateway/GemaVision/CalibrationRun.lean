import IbarraGateway.GemaVision.DataCollector

/-!
# A new calibration run and the frames of the previous one

`set_mode` changes the mode first and resets the counter afterwards, and a frame that was begun in the previous run goes on to
count, or to end the run.

* `run_kept` : a run that is commanded goes on until it has saved its frames or has failed to write one, if no such step
  comes in between.
* `stale_count_cancels` : the count of a finished run ends the next one.
-/

namespace IbarraGateway.GemaVision

/-! ## What is stated -/

/-- What belongs to the last command: whether a frame was begun since, and what was saved or failed of the frames begun
since. -/
structure CalibrationRun where
  command : Option Mode
  begun : Bool
  saved : Nat
  failed : Bool
  deriving DecidableEq, Repr

def CalibrationRun.next (r : CalibrationRun) : CollectorEvent → CalibrationRun
  | .commanded mode => ⟨some mode, false, 0, false⟩
  | .began => { r with begun := true }
  | .saved _ => if r.begun then { r with saved := r.saved + 1 } else r
  | .failed _ => if r.begun then { r with failed := true } else r
  | .status _ => r

def lastRun (h : List CollectorEvent) : CalibrationRun := h.foldl CalibrationRun.next ⟨none, false, 0, false⟩

/-- The run has saved its frames, or has failed to write one. -/
def CalibrationRun.Ended (r : CalibrationRun) : Prop := kCaptureLimit ≤ r.saved ∨ r.failed = true

/-- When the last command is `CALIBRATION`, this is the mode until that run has ended. -/
def RunKept (h : List CollectorEvent) (s : DataCollector) : Prop :=
  (lastRun h).command = some .calibration → s.mode = .calibration ∨ (lastRun h).Ended

/-- After a command `CALIBRATION`: a frame that was begun before it neither ends the run nor is counted after the counter's
reset, and until that no count at the limit is seen that is not the run's own. -/
def NoRace (h : List CollectorEvent) (s : DataCollector) : CollectorInput → Prop
  | .collector _ _ => (lastRun h).command = some .calibration →
      (s.collector = .stopping → (lastRun h).begun = true) ∧
      (∀ name, s.collector = .adding name → (lastRun h).begun = true ∨ s.commander = .resetting) ∧
      (s.commander = .resetting →
        (s.collector = .counting → s.captureCount < kCaptureLimit ∨ kCaptureLimit ≤ (lastRun h).saved) ∧
        (∀ name, s.collector = .adding name →
          s.captureCount + 1 < kCaptureLimit ∨ kCaptureLimit ≤ ((lastRun h).next (.saved name)).saved))
  | _ => True

def Collector.added : Collector → Option FileName
  | .adding name => some name
  | _ => none

theorem Collector.added_eq_some {c : Collector} {name : FileName} : c.added = some name ↔ c = .adding name := by
  cases c <;> simp [added]

theorem Collector.forall_added {c : Collector} {P : FileName → Prop} :
    (∀ name ∈ c.added, P name) ↔ ∀ name, c = .adding name → P name := by
  simp only [Option.mem_def, Collector.added_eq_some]

instance (c : Collector) (P : FileName → Prop) [DecidablePred P] : Decidable (∀ name, c = .adding name → P name) :=
  decidable_of_iff (∀ name ∈ c.added, P name) Collector.forall_added

instance (h : List CollectorEvent) (s : DataCollector) (a : CollectorInput) : Decidable (NoRace h s a) := by
  unfold NoRace
  split <;> infer_instance

/-! ## The run of the last command -/

theorem lastRun_append (h out : List CollectorEvent) : lastRun (h ++ out) = out.foldl CalibrationRun.next (lastRun h) :=
  List.foldl_append

/-- Statuses do not matter. -/
theorem lastRun_status (h : List CollectorEvent) (message : String) : lastRun (h ++ [.status message]) = lastRun h :=
  lastRun_append h _

theorem foldl_progress (r : CalibrationRun) (count : Nat) : (DataCollector.progress count).foldl CalibrationRun.next r = r := by
  unfold DataCollector.progress
  split <;> rfl

structure Tracked (h : List CollectorEvent) (s : DataCollector) : Prop where
  kept : RunKept h s
  count : (lastRun h).command = some .calibration → s.commander ≠ .resetting → s.captureCount ≤ (lastRun h).saved
  stopping : (lastRun h).command = some .calibration → s.collector = .stopping → (lastRun h).begun = true → (lastRun h).Ended

theorem Tracked.start : Tracked [] .start := ⟨nofun, nofun, nofun⟩

theorem Tracked.command {h : List CollectorEvent} {s : DataCollector} {mode : Mode} {t : DataCollector} {out : List CollectorEvent}
    (hstep : s.command mode = some (t, out)) : Tracked (h ++ out) t := by
  unfold DataCollector.command at hstep
  split at hstep
  · cases hstep
    have hrun : lastRun (h ++ [.commanded mode]) = ⟨some mode, false, 0, false⟩ := lastRun_append h _
    constructor
    · unfold RunKept
      rw [hrun]
      exact fun hcommand => .inl (Option.some.inj hcommand)
    · rw [hrun]
      intro hcommand hnot
      cases hcommand
      exact absurd rfl hnot
    · rw [hrun]
      nofun
  · cases hstep

namespace Tracked
variable {h : List CollectorEvent} {s : DataCollector}

/-- A step after which the last run is what it was. -/
theorem quiet (ht : Tracked h s) {s' : DataCollector} {out : List CollectorEvent} (hout : lastRun (h ++ out) = lastRun h)
    (hmode : s'.mode = s.mode) (hcount : s'.captureCount = s.captureCount)
    (hcommander : s'.commander ≠ .resetting → s.commander ≠ .resetting)
    (hstopping : (lastRun h).command = some .calibration → s'.collector = .stopping → (lastRun h).begun = true →
      (lastRun h).Ended) : Tracked (h ++ out) s' := by
  constructor
  · unfold RunKept
    rw [hout, hmode]
    exact ht.kept
  · rw [hout, hcount]
    exact fun hcommand hnot => ht.count hcommand (hcommander hnot)
  · rw [hout]
    exact hstopping

theorem commanderStep (ht : Tracked h s) {t : DataCollector} {out : List CollectorEvent}
    (hstep : s.commanderStep = some (t, out)) : Tracked (h ++ out) t := by
  unfold DataCollector.commanderStep at hstep
  split at hstep
  · cases hstep
  · cases hstep
    rw [List.append_nil]
    exact ⟨ht.kept, fun _ _ => Nat.zero_le _, ht.stopping⟩
  · rename_i hpc
    cases hstep
    exact ht.quiet (by rw [List.append_nil]) rfl rfl (fun _ => by rw [hpc]; nofun) ht.stopping
  · rename_i hpc
    cases hstep
    exact ht.quiet (lastRun_status h _) rfl rfl (fun _ => by rw [hpc]; nofun) ht.stopping
  · rename_i hpc
    cases hstep
    exact ht.quiet (lastRun_status h _) rfl rfl (fun _ => by rw [hpc]; nofun) ht.stopping

/-- A frame is counted: for the run that it was begun in, or before the counter is reset. -/
theorem added (ht : Tracked h s) {name : FileName}
    (hok : (lastRun h).command = some .calibration → ((lastRun h).begun = true ∨ s.commander = .resetting) ∧
      (s.commander = .resetting →
        s.captureCount + 1 < kCaptureLimit ∨ kCaptureLimit ≤ ((lastRun h).next (.saved name)).saved)) :
    Tracked (h ++ .saved name :: DataCollector.progress (s.captureCount + 1))
      { s with
        captureCount := s.captureCount + 1
        collector := if kCaptureLimit ≤ s.captureCount + 1 then .stopping else .ready } := by
  have hrun : lastRun (h ++ .saved name :: DataCollector.progress (s.captureCount + 1)) = (lastRun h).next (.saved name) := by
    rw [lastRun_append, List.foldl_cons, foldl_progress]
  have hcommand : ((lastRun h).next (.saved name)).command = (lastRun h).command := by
    unfold CalibrationRun.next
    dsimp only
    split <;> rfl
  have hended : (lastRun h).Ended → ((lastRun h).next (.saved name)).Ended := by
    unfold CalibrationRun.next
    dsimp only
    split
    · exact fun hended => hended.imp_left Nat.le_succ_of_le
    · exact id
  constructor
  · unfold RunKept
    rw [hrun, hcommand]
    exact fun hcal => (ht.kept hcal).imp_right hended
  · rw [hrun, hcommand]
    intro hcal hnot
    have hbegun := (hok hcal).1.resolve_right hnot
    show s.captureCount + 1 ≤ _
    rw [CalibrationRun.next, if_pos hbegun]
    exact Nat.succ_le_succ (ht.count hcal hnot)
  · rw [hrun, hcommand]
    intro hcal hstopping _
    by_cases hreset : s.commander = .resetting
    · rcases (hok hcal).2 hreset with hlt | hsaved
      · dsimp only at hstopping
        rw [if_neg (by omega)] at hstopping
        cases hstopping
      · exact .inl hsaved
    · have hbegun := (hok hcal).1.resolve_right hreset
      have hcount := ht.count hcal hreset
      dsimp only at hstopping
      split at hstopping
      · rename_i hlimit
        refine .inl ?_
        rw [CalibrationRun.next, if_pos hbegun]
        exact Nat.le_trans hlimit (Nat.succ_le_succ hcount)
      · cases hstopping

/-- A write fails: the run that the frame was begun in has failed. -/
theorem writeFailed (ht : Tracked h s) (name : FileName) :
    Tracked (h ++ [.failed name, .status "error:write_failed"]) { s with collector := .stopping } := by
  have hrun : lastRun (h ++ [.failed name, .status "error:write_failed"]) = (lastRun h).next (.failed name) :=
    lastRun_append h _
  have hsame : ((lastRun h).next (.failed name)).command = (lastRun h).command ∧
      ((lastRun h).next (.failed name)).begun = (lastRun h).begun ∧
      ((lastRun h).next (.failed name)).saved = (lastRun h).saved := by
    unfold CalibrationRun.next
    dsimp only
    split <;> exact ⟨rfl, rfl, rfl⟩
  obtain ⟨hcommand, hbegun, hsaved⟩ := hsame
  constructor
  · unfold RunKept
    rw [hrun, hcommand]
    refine fun hcal => (ht.kept hcal).imp_right fun hended => ?_
    unfold CalibrationRun.next
    dsimp only
    split
    · exact .inr rfl
    · exact hended
  · rw [hrun, hcommand, hsaved]
    exact ht.count
  · rw [hrun, hcommand, hbegun]
    intro _ _ hown
    rw [CalibrationRun.next, if_pos hown]
    exact .inr rfl

theorem collectorStep (ht : Tracked h s) {now : Nat} {written : Bool} (hok : NoRace h s (.collector now written))
    {t : DataCollector} {out : List CollectorEvent} (hstep : s.collectorStep now written = (t, out)) :
    Tracked (h ++ out) t := by
  unfold DataCollector.collectorStep at hstep
  split at hstep
  · rename_i hpc
    split at hstep
    · cases hstep
      have hrun : lastRun (h ++ [.began]) = { lastRun h with begun := true } := lastRun_append h _
      constructor
      · unfold RunKept
        rw [hrun]
        exact ht.kept
      · rw [hrun]
        exact ht.count
      · rw [hrun]
        nofun
    · cases hstep
      rw [List.append_nil]
      exact ht
  · rename_i hpc
    cases hstep
    refine ht.quiet (by rw [List.append_nil]) rfl rfl id fun hcal hstopping _ => ?_
    dsimp only at hstopping
    split at hstopping
    · rename_i hlimit
      by_cases hreset : s.commander = .resetting
      · exact .inl ((((hok hcal).2.2 hreset).1 hpc).resolve_left (Nat.not_lt.mpr hlimit))
      · exact .inl (Nat.le_trans hlimit (ht.count hcal hreset))
    · cases hstopping
  · cases hstep
    exact ht.quiet (by rw [List.append_nil]) rfl rfl id nofun
  · cases hstep
    exact ht.quiet (by rw [List.append_nil]) rfl rfl id nofun
  · rename_i name hpc
    split at hstep
    · cases hstep
      exact ht.quiet (by rw [List.append_nil]) rfl rfl id nofun
    · cases hstep
      exact ht.writeFailed name
  · rename_i name hpc
    cases hstep
    exact ht.added fun hcal => ⟨(hok hcal).2.1 name hpc, fun hreset => ((hok hcal).2.2 hreset).2 name hpc⟩
  · rename_i hpc
    cases hstep
    rw [List.append_nil]
    have hended : (lastRun h).command = some .calibration → (lastRun h).Ended :=
      fun hcal => ht.stopping hcal hpc ((hok hcal).1 hpc)
    refine ⟨fun hcal => .inr (hended hcal), ht.count, fun hcal _ _ => hended hcal⟩
  · cases hstep
    exact ht.quiet (lastRun_status h _) rfl rfl id nofun

theorem step (ht : Tracked h s) {a : CollectorInput} (hok : NoRace h s a) {t : DataCollector} {out : List CollectorEvent}
    (hstep : dataCollector.step s a = some (t, out)) : Tracked (h ++ out) t := by
  cases a with
  | command mode => exact .command hstep
  | commander => exact ht.commanderStep hstep
  | collector now written => exact ht.collectorStep hok (Option.some.inj hstep)

end Tracked

/-- **A new calibration run** is not ended by the previous one, in every run of the two threads in which no step of a frame
begun before the command interferes. -/
theorem run_kept {inputs : List CollectorInput} {s : DataCollector} {h : List CollectorEvent}
    (hrun : dataCollector.run .start inputs = some (s, h)) (hok : dataCollector.AlongHistory NoRace [] .start inputs) :
    RunKept h s := by
  have ht : Tracked ([] ++ h) s := dataCollector.run_history_induction (I := Tracked)
    (fun _ _ _ _ _ ht hok hstep => ht.step hok hstep) .start hok hrun
  exact ht.kept

/-- A frame: the steps of `infer` when it is saved. -/
def frame : List CollectorInput := List.replicate 6 (.collector 0 true)

/-- A command and a frame; then a new command, and a frame that is begun before the counter is reset, and saved after it. -/
def commandedAgain : List CollectorInput :=
  [.command .calibration, .commander, .commander, .commander] ++ frame ++
    [.command .calibration, .collector 0 true, .collector 0 true, .commander] ++ List.replicate 4 (.collector 0 true)

/-- Both runs have saved a frame; the new one has counted its own only. -/
theorem run_kept_again :
    ∃ s h, dataCollector.run .start commandedAgain = some (s, h) ∧ s.captureCount = 1 ∧
      lastRun h = ⟨some .calibration, true, 1, false⟩ ∧ [.saved ⟨0, 1, 0⟩, .saved ⟨0, 1, 0⟩].Sublist h ∧ RunKept h s := by
  have hend : (dataCollector.run .start commandedAgain).map (fun (s, h) => (s.captureCount, lastRun h, h)) =
      some (1, ⟨some .calibration, true, 1, false⟩, [.commanded .calibration, .status "calibration_started", .began,
        .saved ⟨0, 1, 0⟩, .commanded .calibration, .began, .saved ⟨0, 1, 0⟩]) := by decide +kernel
  obtain ⟨⟨s, h⟩, hrun, hout⟩ := Option.map_eq_some_iff.mp hend
  simp only [Prod.mk.injEq] at hout
  obtain ⟨hcount, hlast, hevents⟩ := hout
  refine ⟨s, h, hrun, hcount, hlast, ?_, run_kept hrun (by decide +kernel)⟩
  rw [hevents]
  decide

/-- A command, 200 frames and the end of the run; then a new command, and a frame before the counter is reset. -/
def staleCount : List CollectorInput :=
  [.command .calibration, .commander, .commander, .commander] ++ (List.replicate 200 frame).flatten ++
    [.collector 0 true, .collector 0 true] ++
    [.command .calibration, .collector 0 true, .collector 0 true, .collector 0 true]

/-- The new run has saved nothing, and the mode is `IDLE`. -/
theorem stale_count_cancels :
    ∃ s h, dataCollector.run .start staleCount = some (s, h) ∧ s.mode = .idle ∧
      lastRun h = ⟨some .calibration, true, 0, false⟩ ∧ ¬RunKept h s := by
  have hend : (dataCollector.run .start staleCount).map (fun (s, h) => (s.mode, lastRun h)) =
      some (.idle, ⟨some .calibration, true, 0, false⟩) := by decide +kernel
  obtain ⟨⟨s, h⟩, hrun, hout⟩ := Option.map_eq_some_iff.mp hend
  obtain ⟨hmode, hlast⟩ := Prod.mk.inj hout
  refine ⟨s, h, hrun, hmode, hlast, fun hkept => ?_⟩
  unfold RunKept at hkept
  rw [hlast, hmode] at hkept
  rcases hkept rfl with hcal | hlimit | hfailed
  · cases hcal
  · exact absurd hlimit (by decide)
  · cases hfailed

end IbarraGateway.GemaVision
