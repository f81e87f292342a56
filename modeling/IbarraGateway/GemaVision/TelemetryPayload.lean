import IbarraGateway.GemaVision.ResultRoundTrip
import IbarraGateway.Lib.JsonPrint

/-!
# What the camera reports

`build_payload` of the telemetry collector puts its JSON together by hand, with the device's name between quotes as it is.

* `payload_reads` : what the payload is read as, for a name that stands for itself.
* `payload_determines` : so the payload determines all that went into it.
-/

namespace IbarraGateway.GemaVision.TelemetryPayload
open JsonText (Value Plain Quoted Doc units)

/-- The arguments of `build_payload` that it prints, and what the two clocks say. -/
structure Metrics where
  framesTotal : UInt64
  fps : FloatValue
  dropped : UInt64
  tempC : Int32
  vmrssKb : UInt64
  defectsTotal : UInt64
  uptime : Int64
  time : Tm

def telemetryTopic : String := "novamex/vision/telemetry"

def nodeHealth (tempC : Int32) : String := if tempC > 75 then "WARNING" else "ONLINE"

/-- An entry of `metrics`, from its name to its unit. -/
def metricText (name value unit : List Char) : List Char :=
  "\x7b\"name\":\"".toList ++ (name ++ ("\",\"value\":".toList ++ (value ++ (",\"unit\":\"".toList ++ (unit ++
    "\"\x7d".toList)))))

def uint64Text (n : UInt64) : List Char := intText n.toNat

/-- Behind the timestamp. -/
def afterTimestamp (m : Metrics) : List Char :=
  "\",".toList ++ ("\"node_health\":\"".toList ++ ((nodeHealth m.tempC).toList ++ ("\",".toList ++ ("\"metrics\":[".toList ++
    (metricText "uptime_sec".toList (intText m.uptime.toInt) "s".toList ++ (",".toList ++
    (metricText "fps".toList m.fps.text "fps".toList ++ (",".toList ++
    (metricText "frames_processed".toList (uint64Text m.framesTotal) "count".toList ++ (",".toList ++
    (metricText "frames_dropped".toList (uint64Text m.dropped) "count".toList ++ (",".toList ++
    (metricText "soc_temp_c".toList (intText m.tempC.toInt) "\\u00b0C".toList ++ (",".toList ++
    (metricText "heap_resident_kb".toList (uint64Text m.vmrssKb) "kB".toList ++ (",".toList ++
    (metricText "defects_total".toList (uint64Text m.defectsTotal) "count".toList ++ "]\x7d".toList)))))))))))))))))

def buildPayload (deviceId : List UInt8) (m : Metrics) : List UInt8 :=
  Utf8.ascii ("\x7b".toList ++ "\"device_id\":\"".toList) ++ (deviceId ++
    (Utf8.ascii ("\",".toList ++ ("\"device_type\":\"camera\",".toList ++ "\"timestamp\":\"".toList)) ++
      (currentTimestampIso8601 m.time ++ Utf8.ascii (afterTimestamp m))))

/-! ## What it is read as -/

def textValue (s : String) : Value := .str (units s.toList)

def metricValue (name : String) (value : ℚ) (unit : String) : Value :=
  .obj [(units "name".toList, textValue name), (units "value".toList, .num value), (units "unit".toList, textValue unit)]

def telemetryValue (deviceId : List UInt8) (m : Metrics) : Value :=
  .obj [(units "device_id".toList, .str (units (Utf8.decode deviceId))),
    (units "device_type".toList, textValue "camera"),
    (units "timestamp".toList, .str (units (Utf8.decode (currentTimestampIso8601 m.time)))),
    (units "node_health".toList, textValue (nodeHealth m.tempC)),
    (units "metrics".toList, .arr [
      metricValue "uptime_sec" m.uptime.toInt "s",
      metricValue "fps" m.fps.printed "fps",
      metricValue "frames_processed" m.framesTotal.toNat "count",
      metricValue "frames_dropped" m.dropped.toNat "count",
      metricValue "soc_temp_c" m.tempC.toInt "°C",
      metricValue "heap_resident_kb" m.vmrssKb.toNat "kB",
      metricValue "defects_total" m.defectsTotal.toNat "count"])]

/-- `\\u00b0C`. -/
def celsius : Quoted where
  raw := "\\u00b0C".toList
  string := units "°C".toList
  reads := rfl

def metricDoc (name : Quoted) (value : Numeral) (unit : Quoted) : Doc :=
  .obj [(.literal "name", .str name), (.literal "value", .num value), (.literal "unit", .str unit)]

theorem plain_nodeHealth (tempC : Int32) : (nodeHealth tempC).toList.all (fun c => decide (Plain c)) = true := by
  unfold nodeHealth
  split <;> rfl

def telemetryDoc (deviceId timestamp : Quoted) (fps : Numeral) (m : Metrics) : Doc :=
  .obj [(.literal "device_id", .str deviceId), (.literal "device_type", .str (.literal "camera")),
    (.literal "timestamp", .str timestamp),
    (.literal "node_health", .str (.literal (nodeHealth m.tempC))),
    (.literal "metrics", .arr [
      metricDoc (.literal "uptime_sec") (.ofInt m.uptime.toInt) (.literal "s"),
      metricDoc (.literal "fps") fps (.literal "fps"),
      metricDoc (.literal "frames_processed") (.ofInt m.framesTotal.toNat) (.literal "count"),
      metricDoc (.literal "frames_dropped") (.ofInt m.dropped.toNat) (.literal "count"),
      metricDoc (.literal "soc_temp_c") (.ofInt m.tempC.toInt) celsius,
      metricDoc (.literal "heap_resident_kb") (.ofInt m.vmrssKb.toNat) (.literal "kB"),
      metricDoc (.literal "defects_total") (.ofInt m.defectsTotal.toNat) (.literal "count")])]

theorem metricDoc_text (name : Quoted) (value : Numeral) (unit : Quoted) :
    (metricDoc name value unit).text [] = metricText name.raw value.text unit.raw := by
  unfold metricText
  simp (disch := decide) [metricDoc, Doc.text, JsonText.membersText, Quoted.text, Quoted.literal_raw]

theorem telemetryDoc_text (deviceId timestamp : Quoted) {fps : Numeral} {m : Metrics} (hfps : m.fps.text = fps.text) :
    (telemetryDoc deviceId timestamp fps m).text [] =
      "\x7b".toList ++ "\"device_id\":\"".toList ++ (deviceId.raw ++
        ("\",".toList ++ ("\"device_type\":\"camera\",".toList ++ "\"timestamp\":\"".toList) ++
          (timestamp.raw ++ afterTimestamp m))) := by
  have hhealth := Quoted.literal_raw (plain_nodeHealth m.tempC)
  simp (disch := decide) only [telemetryDoc, Doc.text, JsonText.membersText, JsonText.itemsText, Quoted.text, metricDoc_text,
    hhealth, Quoted.literal_raw]
  unfold afterTimestamp
  simp [celsius, uint64Text, intText, hfps]

section Payload
variable {deviceId : List UInt8} {m : Metrics}

theorem isAscii_metricText {name value unit : List Char} (hname : Utf8.IsAscii name) (hvalue : Utf8.IsAscii value)
    (hunit : Utf8.IsAscii unit) : Utf8.IsAscii (metricText name value unit) := by
  unfold metricText
  simp only [Utf8.isAscii_append]
  exact ⟨rfl, hname, rfl, hvalue, rfl, hunit, rfl⟩

theorem isAscii_afterTimestamp (m : Metrics) : Utf8.IsAscii (afterTimestamp m) := by
  have hint (z : Int) : Utf8.IsAscii (intText z) := isAscii_int z
  have hhealth : Utf8.IsAscii (nodeHealth m.tempC).toList := by
    unfold nodeHealth
    split <;> rfl
  unfold afterTimestamp
  simp only [Utf8.isAscii_append]
  exact ⟨rfl, rfl, hhealth, rfl, rfl, isAscii_metricText rfl (hint _) rfl, rfl, isAscii_metricText rfl (isAscii_float _) rfl,
    rfl, isAscii_metricText rfl (hint _) rfl, rfl, isAscii_metricText rfl (hint _) rfl, rfl, isAscii_metricText rfl (hint _) rfl,
    rfl, isAscii_metricText rfl (hint _) rfl, rfl, isAscii_metricText rfl (hint _) rfl, rfl⟩

theorem decode_buildPayload : Utf8.decode (buildPayload deviceId m) =
    "\x7b".toList ++ "\"device_id\":\"".toList ++ (Utf8.decode deviceId ++
      ("\",".toList ++ ("\"device_type\":\"camera\",".toList ++ "\"timestamp\":\"".toList) ++
        (Utf8.decode (currentTimestampIso8601 m.time) ++ afterTimestamp m))) := by
  have hafter : Utf8.decode (currentTimestampIso8601 m.time ++ Utf8.ascii (afterTimestamp m)) =
      Utf8.decode (currentTimestampIso8601 m.time) ++ afterTimestamp m := by
    obtain ⟨c, rest, heq⟩ : ∃ c rest, afterTimestamp m = c :: rest := ⟨_, _, rfl⟩
    have hascii := isAscii_afterTimestamp m
    rw [heq] at hascii ⊢
    have hdecode := Utf8.decode_append (currentTimestampIso8601 m.time) hascii []
    rw [List.append_nil] at hdecode
    rw [hdecode]
    exact congrArg (Utf8.decode (currentTimestampIso8601 m.time) ++ ·) (List.append_nil _)
  rw [buildPayload, Utf8.decode_ascii (by decide), ← hafter]
  exact congrArg _ (Utf8.decode_append deviceId (by decide) _)

theorem telemetryDoc_value (deviceId timestamp : Quoted) (fps : Numeral) (m : Metrics) :
    (telemetryDoc deviceId timestamp fps m).value =
      .obj [(units "device_id".toList, .str deviceId.string), (units "device_type".toList, textValue "camera"),
        (units "timestamp".toList, .str timestamp.string), (units "node_health".toList, textValue (nodeHealth m.tempC)),
        (units "metrics".toList, .arr [
          metricValue "uptime_sec" m.uptime.toInt "s",
          metricValue "fps" fps.value "fps",
          metricValue "frames_processed" m.framesTotal.toNat "count",
          metricValue "frames_dropped" m.dropped.toNat "count",
          metricValue "soc_temp_c" m.tempC.toInt "°C",
          metricValue "heap_resident_kb" m.vmrssKb.toNat "kB",
          metricValue "defects_total" m.defectsTotal.toNat "count"])] := by
  have hcast (n : Nat) : (n : ℚ) = intValue n := by rw [intValue_eq, Int.cast_natCast]
  simp only [hcast, ← intValue_eq]
  rfl

/-- The payload is read back, for a name that stands for itself and a rate that is a number. -/
theorem payload_reads (hdevice : ∀ c ∈ Utf8.decode deviceId, Plain c) (hfps : m.fps.isFinite = true) :
    JsonText.parseText (Utf8.decode (buildPayload deviceId m)) = some (telemetryValue deviceId m) := by
  obtain ⟨fps, htext, hvalue⟩ := FloatValue.text_finite hfps
  have hgap : ∀ c ∈ ([] : List Char), JsonText.isSpace c = true := by simp
  have hparse := JsonText.parse_text hgap (telemetryDoc (.plain _ hdevice) (.plain _ (plain_timestamp m.time)) fps m)
  rw [telemetryDoc_text _ _ htext, telemetryDoc_value, ← hvalue] at hparse
  rw [decode_buildPayload]
  exact hparse

end Payload

/-! ## Nothing is lost -/

/-- What a reader of the payload knows. -/
structure Shown where
  deviceId : List Char
  timestamp : List Char
  uptime : Int64
  fps : ℚ
  framesTotal : UInt64
  dropped : UInt64
  tempC : Int32
  vmrssKb : UInt64
  defectsTotal : UInt64

def shown (deviceId : List UInt8) (m : Metrics) : Shown :=
  ⟨Utf8.decode deviceId, Utf8.decode (currentTimestampIso8601 m.time), m.uptime, m.fps.printed, m.framesTotal, m.dropped, m.tempC,
    m.vmrssKb, m.defectsTotal⟩

theorem uint64_of_cast {a b : UInt64} (h : (a.toNat : ℚ) = b.toNat) : a = b := UInt64.toNat_inj.mp (Nat.cast_injective h)

/-- The value determines what is shown. -/
theorem shown_of_value {deviceId deviceId' : List UInt8} {m m' : Metrics}
    (h : telemetryValue deviceId m = telemetryValue deviceId' m') : shown deviceId m = shown deviceId' m' := by
  unfold telemetryValue metricValue at h
  simp only [Value.obj.injEq, Value.arr.injEq, Value.str.injEq, Value.num.injEq, List.cons.injEq, Prod.mk.injEq, true_and,
    and_true] at h
  obtain ⟨hdevice, htimestamp, -, huptime, hfps, hframes, hdropped, htemp, hvmrss, hdefects⟩ := h
  unfold shown
  rw [JsonText.units_inj hdevice, JsonText.units_inj htimestamp, Int64.toInt_inj.mp (Int.cast_injective huptime), hfps,
    uint64_of_cast hframes, uint64_of_cast hdropped, Int32.toInt_inj.mp (Int.cast_injective htemp), uint64_of_cast hvmrss,
    uint64_of_cast hdefects]

/-- **Nothing is lost**: two payloads that are the same text report the same, every counter to its last bit. -/
theorem payload_determines {deviceId deviceId' : List UInt8} {m m' : Metrics} (hdevice : ∀ c ∈ Utf8.decode deviceId, Plain c)
    (hdevice' : ∀ c ∈ Utf8.decode deviceId', Plain c) (hfps : m.fps.isFinite = true) (hfps' : m'.fps.isFinite = true)
    (heq : Utf8.decode (buildPayload deviceId m) = Utf8.decode (buildPayload deviceId' m')) :
    shown deviceId m = shown deviceId' m' := by
  have hreads := payload_reads hdevice hfps
  rw [heq, payload_reads hdevice' hfps'] at hreads
  exact shown_of_value (Option.some.inj hreads).symm

/-- A camera that has just started. -/
def started (dropped : UInt64) : Metrics := ⟨0, .finite false 0 0, dropped, 45, 20480, 0, 1, ⟨2026, 1, 1, 0, 0, 0⟩⟩

def cameraId : List UInt8 := Utf8.ascii ['c', 'a', 'm']

/-- One frame that was dropped is seen. -/
theorem dropped_determines :
    Utf8.decode (buildPayload cameraId (started 0)) ≠ Utf8.decode (buildPayload cameraId (started 1)) := by
  have hdevice : ∀ c ∈ Utf8.decode cameraId, Plain c := JsonText.plain_of_all rfl
  intro heq
  have hshown : shown cameraId (started 0) = shown cameraId (started 1) := payload_determines hdevice hdevice rfl rfl heq
  exact absurd (congrArg Shown.dropped hshown) (show (0 : UInt64) ≠ 1 by decide)

end IbarraGateway.GemaVision.TelemetryPayload
