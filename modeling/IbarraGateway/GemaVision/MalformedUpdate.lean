import IbarraGateway.GemaVision.CalibrationFile
import IbarraGateway.GemaVision.ConfigFrame
import IbarraGateway.Lib.JsonText

/-!
# Updates that are no objects

`apply_json` returns false when `parse_json` returns no state, and `parse_json` always makes one: it searches for the keys one
by one, and nothing in it can reject a text. So every text is applied, and one without the keys is the update to the defaults.

* `malformed_update_iff` : on a text that is no object the call is never rejected; what it does there, by fields.
* `keyless_resets` : the configuration after a text without the keys.
* `flushed_of_applied` : the file after the next round of the flush thread.
-/

namespace IbarraGateway.GemaVision

open TextSearch

/-- `parse_json`, as a pointer. -/
def parsePointer (json : Text) : Option ConfigState := some (parseJson json)

namespace Vision

/-- `apply_json`: what it returns, and the manager afterwards. -/
def applyJson (v : Vision) (jsonStr : Text) : Bool × Vision :=
  match parsePointer jsonStr with
  | none => (false, v)
  | some _ => (true, { v with config := GemaVision.applyJson v.config jsonStr, flushPending := true })

/-- The call is the one of `manager`. -/
theorem applyJson_step (v : Vision) (jsonStr : Text) :
    manager.step v (.applyJson jsonStr) = some ((v.applyJson jsonStr).2, []) := rfl

end Vision

/-- The text is a JSON object. -/
def IsObject (text : Text) : Prop := ∃ members, JsonText.parseText text = some (.obj members)

/-- The call returns false, and nothing of it is left: not in the configuration, not in the flag, and not in the file after
any later calls. -/
structure Rejected (v : Vision) (jsonStr : Text) : Prop where
  returned : (v.applyJson jsonStr).1 = false
  config : (v.applyJson jsonStr).2.config = v.config
  flushPending : (v.applyJson jsonStr).2.flushPending = v.flushPending
  disk : ∀ calls, ((manager.run (v.applyJson jsonStr).2 calls).map fun r => r.1.disk) =
    (manager.run v calls).map fun r => r.1.disk

/-- What is no object is rejected. -/
def Atomic (v : Vision) (jsonStr : Text) : Prop := ¬IsObject jsonStr → Rejected v jsonStr

/-- **Malformed updates.** No text that is not an object is rejected. Whatever the text is, the call returns true and sets the
flag, and it leaves the configuration alone only where every field takes from the text the value that it has. -/
theorem malformed_update_iff (v : Vision) (jsonStr : Text) :
    (Atomic v jsonStr ↔ IsObject jsonStr) ∧ (v.applyJson jsonStr).1 = true ∧ (v.applyJson jsonStr).2.flushPending = true ∧
      ((v.applyJson jsonStr).2.config = v.config ↔ ∀ f, Takes v.config jsonStr f (v.config.get f)) := by
  refine ⟨⟨fun h => ?_, fun h hnot => absurd h hnot⟩, rfl, rfl, ?_⟩
  · by_contra hnot
    have hreturned : true = false := (h hnot).returned
    cases hreturned
  · show GemaVision.applyJson v.config jsonStr = v.config ↔ _
    simp only [← applyJson_get_iff]
    exact ⟨fun h f => by rw [h], ConfigState.get_ext⟩

/-- Where no key stands in quotes, all that was configured is gone. -/
theorem keyless_resets {jsonStr : Text} (h : ∀ f : Field, ¬quote f.key <:+: jsonStr) (v : Vision) :
    (v.applyJson jsonStr).2.config = {} := by
  apply ConfigState.get_ext
  intro f
  exact (applyJson_get_iff v.config jsonStr f _).mpr ((takes_default_iff (fun s _ => not_reads (h f) s) v.config _).mpr rfl)

/-- And the next round of the flush thread writes that to the file. -/
theorem flushed_of_applied {v : Vision} (hrunning : v.flushRunning = true) (hpath : v.configPath = true) (jsonStr : Text) :
    ((manager.run (v.applyJson jsonStr).2 [.flushLoop true]).map fun r => r.1.disk) =
      some (some (serialize (v.applyJson jsonStr).2.config)) := by
  have hflush : manager.step (v.applyJson jsonStr).2 (.flushLoop true) =
      some ({ (v.applyJson jsonStr).2 with flushPending := false, disk := some (serialize (v.applyJson jsonStr).2.config) },
        [(v.applyJson jsonStr).2.config]) := by
    simp [manager, flushToDisk, Vision.applyJson, parsePointer, hrunning, hpath]
  rw [(manager.run_cons_iff).mpr ⟨_, _, [], hflush, rfl, rfl⟩]
  rfl

/-- `[]` is no object, and takes the camera back to the first. -/
theorem array_resets_camera : ¬∀ v jsonStr, Atomic v jsonStr := by
  intro h
  have harray : ¬IsObject "[]".toList := by
    rintro ⟨members, hmembers⟩
    have hparsed : JsonText.parseText "[]".toList = some (.arr []) := by rfl
    rw [hparsed] at hmembers
    cases hmembers
  have hconfig := (h ⟨none, { cameraIndex := 3 }, true, true, false⟩ "[]".toList harray).config
  exact absurd (congrArg ConfigState.cameraIndex hconfig) (by decide)

end IbarraGateway.GemaVision
