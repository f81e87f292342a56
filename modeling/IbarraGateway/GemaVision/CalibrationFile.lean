import IbarraGateway.GemaVision.ConfigRoundTrip
import IbarraGateway.GemaVision.SpatialCalibrator
import IbarraGateway.Lib.Machine

/-!
# One file for the configuration and the calibration

`ConfigManager` with its flush thread over the file that the wizard has written and the calibrator reads.

* `loadFromFile_serialize` : what the calibrator loads from a text that the manager has written.
* `disk_of_run` : the file is what was flushed last.
* `calibration_survives_iff` : the calibration is still there exactly when nothing was flushed, or a string of the
  configuration holds the matrix.
* `calibration_lost` : `start` alone schedules a flush.
-/

namespace IbarraGateway.GemaVision

open TextSearch

/-! ## The written text -/

/-- The first string of the configuration with a bracket, in the order of the text. -/
def firstBracketed (c : ConfigState) : Option Text :=
  [c.mqtt.host, c.mode, c.inferenceTopic, c.telemetryTopic].find? fun s => s.any isBracket

theorem number_noBracket (v : Int) : NoBracket (number v) := by
  intro c hc
  exact decide_eq_false (not_mem_of_any (by decide) (number_chars hc))

/-- The end of a string and the start of the next key. -/
def nextKey (s : Text) : Text := '"' :: (",\n".toList ++ ("  ".toList ++ '"' :: s))

theorem nextKey_append (s t : Text) : nextKey (s ++ t) = nextKey s ++ t := by
  simp only [nextKey, List.cons_append, List.append_assoc]

def beforeHost : Text := "\x7b\n".toList ++ "  ".toList ++ quote "mqtt_host".toList ++ ": ".toList ++ ['"']

def beforeMode (c : ConfigState) : Text :=
  "mqtt_port".toList ++ '"' :: (": ".toList ++ number c.mqtt.port ++ ",\n".toList ++
    intLine "camera_index".toList c.cameraIndex ++
    intLine "inference_interval_ms".toList c.inferenceIntervalMs ++
    intLine "watchdog_interval_sec".toList c.watchdogIntervalSec ++
    "  ".toList ++ quote "mode".toList ++ ": ".toList ++ ['"'])

def beforeInferenceTopic : Text := "inference_topic".toList ++ '"' :: (": ".toList ++ ['"'])

def beforeTelemetryTopic : Text := "telemetry_topic".toList ++ '"' :: (": ".toList ++ ['"'])

def thresholdsText (c : ConfigState) : Text :=
  "color_thresholds".toList ++ '"' :: (": [\n".toList ++ thresholdLines c.colorThresholds ++ "  ]\n".toList ++
    "\x7d\n".toList)

/-- The text as its four strings and what stands between them. -/
theorem serialize_eq_strings (c : ConfigState) :
    serialize c = beforeHost ++ (c.mqtt.host ++ nextKey (beforeMode c ++ (c.mode ++ nextKey (beforeInferenceTopic ++
      (c.inferenceTopic ++ nextKey (beforeTelemetryTopic ++ (c.telemetryTopic ++ nextKey (thresholdsText c)))))))) := by
  unfold serialize beforeHost beforeMode beforeInferenceTopic beforeTelemetryTopic thresholdsText textLine intLine
  simp only [quote, nextKey, List.append_assoc, List.cons_append, List.nil_append]

theorem intLine_noBracket (key : Text) (hkey : NoBracket ("  ".toList ++ quote key ++ ": ".toList)) (value : Int) :
    NoBracket (intLine key value) :=
  (hkey.append (number_noBracket value)).append (by decide)

theorem beforeMode_noBracket (c : ConfigState) : NoBracket (nextKey (beforeMode c)) := by
  have hport : NoBracket ('"' :: (",\n".toList ++ ("  ".toList ++ '"' :: ("mqtt_port".toList ++ '"' :: ": ".toList)))) := by
    decide +kernel
  have hcamera := intLine_noBracket "camera_index".toList (by decide +kernel) c.cameraIndex
  have hinterval := intLine_noBracket "inference_interval_ms".toList (by decide +kernel) c.inferenceIntervalMs
  have hwatchdog := intLine_noBracket "watchdog_interval_sec".toList (by decide +kernel) c.watchdogIntervalSec
  have hmode : NoBracket ("  ".toList ++ quote "mode".toList ++ ": ".toList ++ ['"']) := by decide
  have hcomma : NoBracket ",\n".toList := by decide
  have hall := hport.append ((((((number_noBracket c.mqtt.port).append hcomma).append hcamera).append hinterval).append
    hwatchdog).append hmode)
  unfold nextKey beforeMode
  simpa only [List.append_assoc, List.cons_append] using hall

/-- The last part holds an empty pair of brackets. -/
theorem segment_thresholds {c : ConfigState} (hc : c.colorThresholds = []) :
    segment (nextKey (thresholdsText c)) = some "\n  ".toList := by
  unfold thresholdsText
  rw [hc]
  decide +kernel

namespace Calibrator
variable {F : Type} (cal : Calibrator F)

/-- One string of the text: it is the whole file for the calibrator, or it does not matter. -/
theorem loadFromFile_step {pre : Text} (hpre : NoBracket pre) (s more : Text) :
    cal.loadFromFile (some (pre ++ (s ++ nextKey more))) =
      if s.any isBracket then cal.loadFromFile (some s) else cal.loadFromFile (some (nextKey more)) := by
  rw [cal.loadFromFile_skip hpre]
  split
  · rename_i hs
    have hblanks : ∀ c ∈ "\n".toList ++ "  ".toList, isBlank c = true := forall_of_all (by decide)
    refine cal.loadFromFile_string ?_ hblanks more
    intro hno
    rw [noBracket_iff.mp hno] at hs
    cases hs
  · rename_i hs
    exact cal.loadFromFile_skip (noBracket_iff.mpr (Bool.eq_false_iff.mpr hs)) _

theorem loadFromFile_thresholds {c : ConfigState} (hc : c.colorThresholds = []) :
    cal.loadFromFile (some (nextKey (thresholdsText c))) = none := by
  rw [loadFromFile, Option.bind_some, segment_thresholds hc]
  rfl

/-- Of a written configuration the calibrator reads the first string with a bracket. -/
theorem loadFromFile_serialize {c : ConfigState} (hc : c.colorThresholds = []) :
    cal.loadFromFile (some (serialize c)) = (firstBracketed c).bind fun s => cal.loadFromFile (some s) := by
  have hhost : NoBracket beforeHost := by decide +kernel
  have hinference : NoBracket (nextKey beforeInferenceTopic) := by decide +kernel
  have htelemetry : NoBracket (nextKey beforeTelemetryTopic) := by decide +kernel
  rw [serialize_eq_strings, cal.loadFromFile_step hhost, nextKey_append, cal.loadFromFile_step (beforeMode_noBracket c),
    nextKey_append, cal.loadFromFile_step hinference, nextKey_append, cal.loadFromFile_step htelemetry,
    cal.loadFromFile_thresholds hc, firstBracketed]
  simp only [List.find?_cons, List.find?_nil]
  cases c.mqtt.host.any isBracket <;> cases c.mode.any isBracket <;> cases c.inferenceTopic.any isBracket <;>
    cases c.telemetryTopic.any isBracket <;> rfl

end Calibrator

/-! ## The manager over the file -/

/-- The file, and `ConfigManager` as far as the file goes. -/
structure Vision where
  disk : Option Text
  config : ConfigState
  configPath : Bool
  flushRunning : Bool
  flushPending : Bool
  deriving DecidableEq

def Vision.fresh (disk : Option Text) : Vision where
  disk := disk
  config := {}
  configPath := false
  flushRunning := false
  flushPending := false

/-- Calls of the manager, and a round of the flush thread, with whether the temporary file was written and renamed. -/
inductive Call
  | start
  | applyJson (jsonStr : Text)
  | flushLoop (replaced : Bool)
  | stop (replaced : Bool)
  deriving DecidableEq

/-- `flush_to_disk`, with the configuration that is written. -/
def flushToDisk (v : Vision) (replaced : Bool) : Vision × List ConfigState :=
  if v.configPath && replaced then ({ v with disk := some (serialize v.config) }, [v.config]) else (v, [])

def manager : Machine Vision Call ConfigState where
  step v
    | .start =>
      some ({ v with
        config := loadFile v.config v.disk
        configPath := true
        flushRunning := true
        flushPending := v.flushPending || v.disk.isSome }, [])
    | .applyJson jsonStr => some ({ v with config := applyJson v.config jsonStr, flushPending := true }, [])
    | .flushLoop replaced =>
      if v.flushRunning then
        if v.flushPending then some (flushToDisk { v with flushPending := false } replaced) else some (v, [])
      else none
    | .stop replaced =>
      if v.flushRunning then some (flushToDisk { v with flushPending := false, flushRunning := false } replaced)
      else some ({ v with flushPending := false }, [])

/-- What the configurations written so far say of the file. -/
structure Filed (disk : Option Text) (h : List ConfigState) (v : Vision) : Prop where
  sound : Sound v.config
  written : ∀ c ∈ h, Sound c
  disk : v.disk = (h.getLast?.map serialize).or disk

namespace Filed
variable {disk : Option Text} {h : List ConfigState} {v : Vision}

theorem config (hv : Filed disk h v) {config : ConfigState} (hconfig : Sound config) (path running pending : Bool) :
    Filed disk (h ++ []) ⟨v.disk, config, path, running, pending⟩ := by
  rw [List.append_nil]
  exact ⟨hconfig, hv.written, hv.disk⟩

theorem flush (hv : Filed disk h v) {replaced : Bool} {v' : Vision} {out : List ConfigState}
    (hflush : flushToDisk v replaced = (v', out)) : Filed disk (h ++ out) v' := by
  unfold flushToDisk at hflush
  split at hflush
  · cases hflush
    refine ⟨hv.sound, ?_, ?_⟩
    · intro c hc
      rcases List.mem_append.mp hc with hc | hc
      · exact hv.written c hc
      · rw [List.mem_singleton.mp hc]
        exact hv.sound
    · rw [List.getLast?_append_of_ne_nil _ (List.cons_ne_nil _ _)]
      rfl
  · cases hflush
    exact hv.config hv.sound _ _ _

theorem sound_loadFile (hv : Filed disk h v) : Sound (loadFile v.config v.disk) := by
  unfold loadFile
  split
  · exact hv.sound
  · exact sound_applyJson hv.sound _

theorem step (hv : Filed disk h v) {call : Call} {v' : Vision} {out : List ConfigState}
    (hstep : manager.step v call = some (v', out)) : Filed disk (h ++ out) v' := by
  cases call with
  | start =>
    cases hstep
    exact hv.config hv.sound_loadFile _ _ _
  | applyJson jsonStr =>
    cases hstep
    exact hv.config (sound_applyJson hv.sound jsonStr) _ _ _
  | flushLoop replaced =>
    simp only [manager] at hstep
    split at hstep
    · split at hstep
      · refine flush (v := { v with flushPending := false }) ?_ (Option.some.inj hstep)
        exact ⟨hv.sound, hv.written, hv.disk⟩
      · cases hstep
        exact hv.config hv.sound _ _ _
    · cases hstep
  | stop replaced =>
    simp only [manager] at hstep
    split at hstep
    · refine flush (v := { v with flushPending := false, flushRunning := false }) ?_ (Option.some.inj hstep)
      exact ⟨hv.sound, hv.written, hv.disk⟩
    · cases hstep
      exact hv.config hv.sound _ _ _

end Filed

/-- After any calls the file is what was written last. -/
theorem disk_of_run {disk : Option Text} {calls : List Call} {v : Vision} {h : List ConfigState}
    (hrun : manager.run (.fresh disk) calls = some (v, h)) : Filed disk h v := by
  have hstart : Filed disk [] (.fresh disk) := ⟨sound_default, by simp, rfl⟩
  have hfinal : Filed disk ([] ++ h) v := by
    apply manager.run_induction (I := Filed disk) ?_ hstart (manager.along_true _ _) hrun
    exact fun h v call v' out hv _ hstep => hv.step hstep
  exact hfinal

section Calibration
variable {F : Type} (cal : Calibrator F) {numbers : List Text} {calls : List Call} {v : Vision} {h : List ConfigState}
  {H : List F}

/-- **Calibration.** After any calls the calibrator still loads the matrix of the wizard exactly when nothing was written,
or the configuration that was written last holds the matrix in its first string with a bracket. -/
theorem calibration_survives_iff (hnumbers : ∀ t ∈ numbers, NumberText t)
    (haccept : (numbers.mapM cal.stof).bind cal.loadFromVector = some H)
    (hrun : manager.run (.fresh (some (generateConfig numbers))) calls = some (v, h)) :
    cal.loadFromFile v.disk = some H ↔
      ∀ c, h.getLast? = some c → ∃ s, firstBracketed c = some s ∧ cal.loadFromFile (some s) = some H := by
  have hne : numbers ≠ [] := by
    rintro rfl
    cases haccept
  obtain ⟨-, hwritten, hdisk⟩ := disk_of_run hrun
  cases hlast : h.getLast? with
  | none =>
    rw [hlast] at hdisk
    have hloads : cal.loadFromFile v.disk = some H := by
      rw [hdisk]
      exact (cal.loadFromFile_generateConfig hnumbers hne).trans haccept
    exact iff_of_true hloads fun c hc => by cases hc
  | some c =>
    rw [hlast] at hdisk
    have hc := hwritten c (List.mem_of_getLast? hlast)
    have hload : cal.loadFromFile v.disk = (firstBracketed c).bind fun s => cal.loadFromFile (some s) := by
      rw [hdisk]
      exact cal.loadFromFile_serialize hc.colorThresholds
    rw [hload, Option.bind_eq_some_iff]
    constructor
    · rintro ⟨s, hs, hH⟩ d hd
      cases hd
      exact ⟨s, hs, hH⟩
    · exact fun hall => hall c rfl

/-- A configuration without brackets leaves nothing to load. -/
theorem calibration_gone {c : ConfigState} (hrun : manager.run (.fresh (some (generateConfig numbers))) calls = some (v, h))
    (hlast : h.getLast? = some c) (hc : firstBracketed c = none) : cal.loadFromFile v.disk = none := by
  obtain ⟨-, hwritten, hdisk⟩ := disk_of_run hrun
  rw [hlast] at hdisk
  have hload := cal.loadFromFile_serialize (hwritten c (List.mem_of_getLast? hlast)).colorThresholds
  rw [hc] at hload
  rw [hdisk]
  exact hload

end Calibration

/-- A calibrator for whole numbers. -/
def wholeNumbers : Calibrator Int where
  stof := stoi
  regular
    | [a, b, c, d, e, f, g, h, i] => a * (e * i - f * h) - b * (d * i - f * g) + c * (d * h - e * g) ≠ 0
    | _ => false
  stof_quote _ := rfl

def identityNumbers : List Text := ["1.0", "0.0", "0.0", "0.0", "1.0", "0.0", "0.0", "0.0", "1.0"].map String.toList

/-- An update, and nothing is flushed yet. -/
theorem calibration_survives_update :
    ∃ v h, manager.run (.fresh (some (generateConfig identityNumbers))) [.start, .applyJson "\x7b\x7d".toList] = some (v, h) ∧
      wholeNumbers.loadFromFile v.disk = some [1, 0, 0, 0, 1, 0, 0, 0, 1] := by
  obtain ⟨v, hrun⟩ : ∃ v, manager.run (.fresh (some (generateConfig identityNumbers)))
      [.start, .applyJson "\x7b\x7d".toList] = some (v, []) := ⟨_, rfl⟩
  have hnumbers : ∀ t ∈ identityNumbers, NumberText t := by
    have hall : (identityNumbers.all fun t => decide (NumberText t)) = true := by decide +kernel
    exact fun t ht => of_decide_eq_true (forall_of_all hall t ht)
  have haccept : (identityNumbers.mapM wholeNumbers.stof).bind wholeNumbers.loadFromVector =
      some [1, 0, 0, 0, 1, 0, 0, 0, 1] := by decide +kernel
  refine ⟨v, [], hrun, (calibration_survives_iff wholeNumbers hnumbers haccept hrun).mpr ?_⟩
  intro c hc
  cases hc

/-- `start` and one round of the flush thread. -/
theorem calibration_lost :
    wholeNumbers.loadFromFile (some (generateConfig identityNumbers)) = some [1, 0, 0, 0, 1, 0, 0, 0, 1] ∧
      ∃ v h, manager.run (.fresh (some (generateConfig identityNumbers))) [.start, .flushLoop true] = some (v, h) ∧
        wholeNumbers.loadFromFile v.disk = none := by
  refine ⟨by decide +kernel, ?_⟩
  have hload : (manager.run (.fresh (some (generateConfig identityNumbers))) [.start, .flushLoop true]).map
      (fun r => wholeNumbers.loadFromFile r.1.disk) = some none := by decide +kernel
  obtain ⟨⟨v, h⟩, hrun, hnone⟩ := Option.map_eq_some_iff.mp hload
  exact ⟨v, h, hrun, hnone⟩

end IbarraGateway.GemaVision
