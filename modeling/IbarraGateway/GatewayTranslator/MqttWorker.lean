import IbarraGateway.Lib.Proto3

/-!
# The gateway: decoding a payload into telemetry entries

The schema that `telemetry_pb2` carries as a serialised descriptor, and `mqtt_worker`: the status table, the buffer that
drops its oldest entry when full, and the message callback.

In this descriptor `node_id` is a string and `status` an `OperatingStatus`. An enum of proto3 is open: any 32-bit number
comes through.
-/

namespace IbarraGateway.GatewayTranslator

open Proto3

/-- `ibarra.telemetry.ModbusNodeState` as `telemetry_pb2` describes it. -/
structure ModbusNodeState where
  nodeId : String
  cycleCount : Nat
  status : Int
  deriving DecidableEq, Repr

/-- One node: `string node_id = 1`, `uint32 cycle_count = 2`, `OperatingStatus status = 3`. A string that is not UTF-8
fails the parse. -/
def parseNode (bytes : List UInt8) : Option ModbusNodeState :=
  (decodeFields bytes).bind fun fs =>
    (String.fromUTF8? ⟨(lastLen 1 fs).toArray⟩).map fun nodeId =>
      ⟨nodeId, lastVarint 2 fs % 2 ^ 32, (BitVec.ofNat 32 (lastVarint 3 fs)).toInt⟩

/-- `ModbusBridgePayload.ParseFromString`: `repeated ModbusNodeState nodes = 1`. -/
def parsePayload (bytes : List UInt8) : Option (List ModbusNodeState) :=
  (decodeFields bytes).bind fun fs => (allLen 1 fs).mapM parseNode

/-! ## The worker -/

/-- `_STATUS_MAP`. -/
def statusMap : List (Int × String) :=
  [(0, "UNKNOWN"), (1, "RUNNING"), (2, "STOPPED"), (3, "ALARM"), (4, "MAINTENANCE")]

/-- `_status_to_string`. -/
def statusToString (value : Int) : String := (statusMap.lookup value).getD (toString value)

/-- A telemetry entry of the buffer. -/
structure Entry where
  eventTs : String
  nodeId : String
  cycleCount : Nat
  status : String
  deriving DecidableEq, Repr

/-- What the `GatewayWorker` keeps between callbacks. -/
structure GatewayWorker where
  buffer : List Entry
  maxBuffer : Int
  droppedCount : Nat
  deriving DecidableEq, Repr

namespace GatewayWorker

/-- `enqueue_telemetry`: a full buffer loses its oldest entry; only a positive bound counts. -/
def enqueueTelemetry (w : GatewayWorker) (data : Entry) : GatewayWorker :=
  if 0 < w.maxBuffer ∧ w.maxBuffer ≤ w.buffer.length then
    { w with buffer := w.buffer.tail ++ [data], droppedCount := w.droppedCount + 1 }
  else { w with buffer := w.buffer ++ [data] }

/-- `drain_buffer`: the buffer, swapped for an empty one. -/
def drainBuffer (w : GatewayWorker) : GatewayWorker × List Entry := ({ w with buffer := [] }, w.buffer)

/-- The entry of one node. -/
def entry (nowIso : String) (node : ModbusNodeState) : Entry :=
  ⟨nowIso, node.nodeId, node.cycleCount, statusToString node.status⟩

/-- What `_on_message` enqueues, in order; a payload that does not parse is logged and dropped. -/
def entries (nowIso : String) (payload : List UInt8) : List Entry :=
  match parsePayload payload with
  | none => []
  | some nodes => nodes.map (entry nowIso)

/-- `_on_message`. -/
def onMessage (w : GatewayWorker) (nowIso : String) (payload : List UInt8) : GatewayWorker :=
  (entries nowIso payload).foldl enqueueTelemetry w

/-- Where there is room for all of them, or no bound, the entries are appended. -/
theorem foldl_enqueueTelemetry (w : GatewayWorker) (added : List Entry)
    (h : w.maxBuffer ≤ 0 ∨ w.buffer.length + added.length ≤ w.maxBuffer) :
    added.foldl enqueueTelemetry w = { w with buffer := w.buffer ++ added } := by
  induction added generalizing w with
  | nil => simp
  | cons e added ih =>
    rw [List.length_cons] at h
    have hroom : ¬ (0 < w.maxBuffer ∧ w.maxBuffer ≤ w.buffer.length) := by omega
    rw [List.foldl_cons, enqueueTelemetry, if_neg hroom, ih]
    · simp
    · simp only [List.length_append, List.length_singleton]
      omega

/-- What a message adds to a buffer that has room for it. -/
theorem onMessage_buffer (w : GatewayWorker) (nowIso : String) (payload : List UInt8)
    (h : w.maxBuffer ≤ 0 ∨ w.buffer.length + (entries nowIso payload).length ≤ w.maxBuffer) :
    (w.onMessage nowIso payload).buffer = w.buffer ++ entries nowIso payload := by
  rw [onMessage, foldl_enqueueTelemetry w _ h]

end GatewayWorker
end IbarraGateway.GatewayTranslator
