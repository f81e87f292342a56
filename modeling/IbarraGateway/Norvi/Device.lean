import IbarraGateway.Lib.Machine
import IbarraGateway.Lib.Records

/-!
# The Norvi node: events, the interrupt and the spool file

The data of `edge_nodes/norvi_monitor/src/main.cpp`: the queue element `ProductionEvent`, the file record `SpooledEvent`,
the globals of the interrupt handler and the locals of `vTaskNetworking`, in one `Node`. `/spool.dat` is its bytes, or
`none` when `LittleFS.exists` answers false.

`unsigned long` is 32 bits wide on the ESP32 and `time_t` 64.
-/

namespace IbarraGateway.Norvi

structure ProductionEvent where
  cycleCount : UInt32
  timestamp : UInt32
  pinId : UInt8
deriving DecidableEq, Repr

structure SpooledEvent where
  cycleCount : UInt32
  epochTime : Int64
deriving DecidableEq, Repr

/-! ## The image of a `SpooledEvent` in the file -/

/-- Four bytes of `cycleCount`, four bytes of padding, eight bytes of `epochTime`. -/
def SpooledEvent.toBytes (se : SpooledEvent) : List UInt8 :=
  leBytes 4 se.cycleCount.toNat ++ leBytes 4 0 ++ leBytes 8 se.epochTime.toUInt64.toNat

/-- The padding is not looked at. -/
def SpooledEvent.ofBytes (bs : List UInt8) : SpooledEvent where
  cycleCount := UInt32.ofNat (leNat (bs.take 4))
  epochTime := (UInt64.ofNat (leNat ((bs.drop 8).take 8))).toInt64

theorem SpooledEvent.ofBytes_toBytes (se : SpooledEvent) : ofBytes se.toBytes = se := by
  obtain ⟨cycleCount, epochTime⟩ := se
  have hc : leNat (leBytes 4 cycleCount.toNat) = cycleCount.toNat :=
    leNat_leBytes 4 _ (lt_of_lt_of_eq cycleCount.toNat_lt (by norm_num))
  have he : leNat (leBytes 8 epochTime.toUInt64.toNat) = epochTime.toUInt64.toNat :=
    leNat_leBytes 8 _ (lt_of_lt_of_eq epochTime.toUInt64.toNat_lt (by norm_num))
  have htake : (toBytes ⟨cycleCount, epochTime⟩).take 4 = leBytes 4 cycleCount.toNat := by
    rw [toBytes, List.append_assoc, List.take_left' (leBytes_length 4 _)]
  have hdrop : ((toBytes ⟨cycleCount, epochTime⟩).drop 8).take 8 = leBytes 8 epochTime.toUInt64.toNat := by
    rw [toBytes, List.drop_left' (by simp), List.take_of_length_le (by simp)]
  rw [ofBytes, htake, hdrop, hc, he]
  simp

/-- `sizeof(SpooledEvent)`, the write of one record and its read. -/
def spooledEvent : RecordCodec SpooledEvent where
  size := 16
  encode := SpooledEvent.toBytes
  decode := SpooledEvent.ofBytes
  size_pos := by decide
  length_encode se := by simp [SpooledEvent.toBytes]
  decode_encode := SpooledEvent.ofBytes_toBytes

/-! ## The state of the node -/

inductive ConnectionState
  | disconnected | connectingWifi | syncingTime | connectingMqtt | connected
deriving DecidableEq, Repr

/-- The globals of the interrupt handler, the file, and the locals that `vTaskNetworking` carries from pass to pass. -/
structure Node where
  lastInterruptTime : Int64
  globalCycleCount : UInt32
  productionEventQueue : List ProductionEvent
  spool : Option (List UInt8)
  currentState : ConnectionState
  lastWifiRetryMs : UInt32
  wifiConnectStartMs : UInt32
  lastMqttRetryMs : UInt32
  ntpSynced : Bool

/-- Power-up: only the file survives. -/
def Node.boot (spool : Option (List UInt8)) : Node where
  lastInterruptTime := 0
  globalCycleCount := 0
  productionEventQueue := []
  spool := spool
  currentState := .disconnected
  lastWifiRetryMs := 0
  wifiConnectStartMs := 0
  lastMqttRetryMs := 0
  ntpSynced := false

/-- The records waiting in `/spool.dat`. -/
def Node.spooled (n : Node) : List SpooledEvent :=
  match n.spool with
  | none => []
  | some bytes => spooledEvent.records bytes

/-- `/spool.dat` is absent or holds whole records only. -/
def Node.SpoolWhole (n : Node) : Prop := ∀ bytes, n.spool = some bytes → spooledEvent.Whole bytes

/-! ## The interrupt handler -/

/-- `INPUT_PIN`. -/
def inputPin : UInt8 := 18

/-- `xQueueCreate(50, ...)`. -/
def queueLength : Nat := 50

/-- `xQueueSendFromISR`: a full queue keeps its elements and loses the new one. -/
def xQueueSendFromISR (queue : List ProductionEvent) (event : ProductionEvent) : List ProductionEvent :=
  if queue.length < queueLength then queue ++ [event] else queue

/-- An edge at boot time `currentTime` in microseconds, with the 50 ms debounce. -/
def inputISR (n : Node) (currentTime : Int64) : Node :=
  if currentTime - n.lastInterruptTime ≥ 50000 then
    { n with
      lastInterruptTime := currentTime
      globalCycleCount := n.globalCycleCount + 1
      productionEventQueue := xQueueSendFromISR n.productionEventQueue
        { cycleCount := n.globalCycleCount + 1
          timestamp := (currentTime / 1000).toUInt64.toUInt32
          pinId := inputPin } }
  else n

/-- The handler touches its own globals and the queue, nothing of the networking task. -/
theorem inputISR_frame (n : Node) (currentTime : Int64) :
    (inputISR n currentTime).spool = n.spool ∧ (inputISR n currentTime).currentState = n.currentState ∧
      (inputISR n currentTime).ntpSynced = n.ntpSynced := by
  unfold inputISR
  split
  · exact ⟨rfl, rfl, rfl⟩
  · exact ⟨rfl, rfl, rfl⟩

@[simp] theorem inputISR_spool (n : Node) (currentTime : Int64) : (inputISR n currentTime).spool = n.spool :=
  (inputISR_frame n currentTime).1

@[simp] theorem inputISR_currentState (n : Node) (currentTime : Int64) :
    (inputISR n currentTime).currentState = n.currentState :=
  (inputISR_frame n currentTime).2.1

@[simp] theorem inputISR_ntpSynced (n : Node) (currentTime : Int64) :
    (inputISR n currentTime).ntpSynced = n.ntpSynced :=
  (inputISR_frame n currentTime).2.2

end IbarraGateway.Norvi
