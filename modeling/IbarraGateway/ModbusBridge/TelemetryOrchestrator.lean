import IbarraGateway.Lib.Proto3

/-!
# The bridge: polling the slaves and publishing one payload

`proto/telemetry.proto` of the bridge, and `TelemetryOrchestrator::periodic_poll_and_publish`. What the Modbus master
answers for a slave is an argument: the registers read, or an exception.
-/

namespace IbarraGateway.ModbusBridge

open Proto3

/-- `NodeStatus` of the bridge's schema. -/
inductive NodeStatus
  | offline
  | online
  | error
  deriving DecidableEq, Repr

/-- The number of a status on the wire. -/
def NodeStatus.number : NodeStatus → Nat
  | offline => 0
  | online => 1
  | error => 2

theorem NodeStatus.number_lt (status : NodeStatus) : status.number < 3 := by
  cases status <;> decide

/-- `ModbusNodeState` of the bridge's schema. -/
structure ModbusNodeState where
  nodeId : UInt32
  cycleCount : UInt32
  status : NodeStatus
  deriving DecidableEq, Repr

/-- A node as fields on the wire: all three are scalars. -/
def ModbusNodeState.fields (node : ModbusNodeState) : List WireField :=
  scalar 1 node.nodeId.toNat ++ scalar 2 node.cycleCount.toNat ++ scalar 3 node.status.number

/-- `ModbusBridgePayload`: `repeated ModbusNodeState nodes = 1`. -/
def payloadFields (nodes : List ModbusNodeState) : List WireField :=
  nodes.map fun node => ⟨1, .len (encodeFields node.fields)⟩

/-- `SerializeToArray`: a payload of more than `INT_MAX` bytes is refused. -/
def serializeToArray (nodes : List ModbusNodeState) : Option (List UInt8) :=
  let wire := encodeFields (payloadFields nodes)
  if wire.length < 2 ^ 31 then some wire else none

/-! ## Polling -/

/-- What `read_input_registers` does: returns registers or throws a `ModbusException`. -/
inductive ReadResult
  | registers (regs : List UInt16)
  | modbusException
  deriving DecidableEq, Repr

/-- The loop body for one slave. -/
def nodeState (slave : Nat) (answer : ReadResult) : ModbusNodeState :=
  match answer with
  | .registers (r :: _) => ⟨UInt32.ofNat slave, r.toUInt32, .online⟩
  | .registers [] => ⟨UInt32.ofNat slave, 0, .offline⟩
  | .modbusException => ⟨UInt32.ofNat slave, 0, .error⟩

/-- Slaves 1 through 5, in order. -/
def pollNodes (answers : Nat → ReadResult) : List ModbusNodeState :=
  [1, 2, 3, 4, 5].map fun slave => nodeState slave (answers slave)

/-- A call of `mqtt_.publish`. -/
structure Publication where
  topic : String
  payload : List UInt8
  qos : Nat
  messageExpiry : Nat
  deriving DecidableEq, Repr

/-- `TelemetryOrchestrator::periodic_poll_and_publish`; nothing is published when the serialisation fails. -/
def periodicPollAndPublish (answers : Nat → ReadResult) : Option Publication :=
  (serializeToArray (pollNodes answers)).map fun wire => ⟨"novamex/linea1/telemetry", wire, 1, 3⟩

/-! ## What is on the wire -/

theorem nodeState_nodeId (slave : Nat) (answer : ReadResult) : (nodeState slave answer).nodeId = UInt32.ofNat slave := by
  unfold nodeState
  split <;> rfl

theorem pollNodes_nodeIds (answers : Nat → ReadResult) :
    (pollNodes answers).map ModbusNodeState.nodeId = [1, 2, 3, 4, 5] := by
  simp only [pollNodes, List.map_cons, List.map_nil, nodeState_nodeId]
  rfl

theorem ModbusNodeState.fields_fits (node : ModbusNodeState) : ∀ f ∈ node.fields, f.Fits := by
  have hid := node.nodeId.toNat_lt
  have hcount := node.cycleCount.toNat_lt
  have hstatus := node.status.number_lt
  intro f hf
  rw [fields, List.mem_append, List.mem_append] at hf
  rcases hf with (hf | hf) | hf
  · exact scalar_fits (by decide) (by decide) (by omega) f hf
  · exact scalar_fits (by decide) (by decide) (by omega) f hf
  · exact scalar_fits (by decide) (by decide) (by omega) f hf

theorem serializeToArray_eq_some {nodes : List ModbusNodeState} {wire : List UInt8}
    (h : serializeToArray nodes = some wire) :
    wire = encodeFields (payloadFields nodes) ∧ (encodeFields (payloadFields nodes)).length < 2 ^ 31 := by
  simp only [serializeToArray] at h
  split at h
  · cases h
    exact ⟨rfl, ‹_›⟩
  · cases h

/-- Every field of a payload that was serialised fits the wire. -/
theorem payloadFields_fits {nodes : List ModbusNodeState} {wire : List UInt8} (h : serializeToArray nodes = some wire) :
    ∀ f ∈ payloadFields nodes, f.Fits := by
  obtain ⟨-, hlen⟩ := serializeToArray_eq_some h
  intro f hf
  obtain ⟨node, -, rfl⟩ := List.mem_map.mp hf
  exact WireField.len_fits (by decide) (by decide) hf (by omega)

end IbarraGateway.ModbusBridge
