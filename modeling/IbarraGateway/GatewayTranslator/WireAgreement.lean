import IbarraGateway.GatewayTranslator.MqttWorker
import IbarraGateway.ModbusBridge.TelemetryOrchestrator

/-!
# What the gateway makes of the bridge's bytes

The two sides write and read field 1 with different wire types, and give the numbers of field 3 different names. So every
node arrives without its id (`parseNode_fields`), and `NODE_ERROR` arrives as `STATUS_STOPPED`: the agreement holds
exactly of the lists in which neither shows.
-/

namespace IbarraGateway.GatewayTranslator

open Proto3 ModbusBridge GatewayWorker

/-- The statuses of a node that works, or rests on purpose. -/
def operatingStatuses : List String := ["RUNNING", "STOPPED", "MAINTENANCE"]

/-- The entries tell of the nodes what the bridge said: one entry a node, no two ids merged, the count as it was, and no
operating status for a node that the bridge could not read. -/
structure WireAgreement (nodes : List ModbusBridge.ModbusNodeState) (entries : List Entry) : Prop where
  one_per_node : entries.length = nodes.length
  distinct_ids : ∀ p ∈ nodes.zip entries, ∀ q ∈ nodes.zip entries, p.1.nodeId ≠ q.1.nodeId → p.2.nodeId ≠ q.2.nodeId
  cycle_count : ∀ p ∈ nodes.zip entries, p.2.cycleCount = p.1.cycleCount.toNat
  status : ∀ p ∈ nodes.zip entries, p.1.status = .offline ∨ p.1.status = .error → p.2.status ∉ operatingStatuses

/-- A node of the bridge as the gateway's descriptor reads it. -/
def received (node : ModbusBridge.ModbusNodeState) : ModbusNodeState :=
  ⟨"", node.cycleCount.toNat, node.status.number⟩

theorem parseNode_fields (node : ModbusBridge.ModbusNodeState) :
    parseNode (encodeFields node.fields) = some (received node) := by
  have hcount := node.cycleCount.toNat_lt
  have hid : lastLen 1 node.fields = [] := by
    rw [ModbusBridge.ModbusNodeState.fields, lastLen_scalar, lastLen_scalar, lastLen_scalar_first]
  have hcycle : lastVarint 2 node.fields = node.cycleCount.toNat := by
    simp only [ModbusBridge.ModbusNodeState.fields, lastVarint_scalar, lastVarint_scalar_first]
    by_cases h0 : node.cycleCount.toNat = 0 <;> simp [h0]
  have hstatus : lastVarint 3 node.fields = node.status.number := by
    simp only [ModbusBridge.ModbusNodeState.fields, lastVarint_scalar, lastVarint_scalar_first]
    by_cases h0 : node.status.number = 0 <;> simp [h0]
  have hname : String.fromUTF8? ⟨([] : List UInt8).toArray⟩ = some "" := by decide
  have hnumber : (BitVec.ofNat 32 node.status.number).toInt = node.status.number := by
    cases node.status <;> decide
  rw [parseNode, decodeFields_encodeFields _ node.fields_fits, Option.bind_some, hid, hcycle, hstatus, hname,
    Option.map_some, Nat.mod_eq_of_lt hcount, hnumber, received]

theorem mapM_parseNode (nodes : List ModbusBridge.ModbusNodeState) :
    (nodes.map fun node => encodeFields node.fields).mapM parseNode = some (nodes.map received) := by
  induction nodes with
  | nil => rfl
  | cons node nodes ih =>
    rw [List.map_cons, List.mapM_cons, parseNode_fields, ih]
    rfl

theorem allLen_payloadFields (nodes : List ModbusBridge.ModbusNodeState) :
    allLen 1 (payloadFields nodes) = nodes.map fun node => encodeFields node.fields := by
  have h := allLen_messages 1 (nodes.map fun node => encodeFields node.fields)
  rw [List.map_map] at h
  exact h

/-- The entries of a payload, node by node. -/
theorem entries_of_wire {nodes : List ModbusBridge.ModbusNodeState} {wire : List UInt8} (nowIso : String)
    (h : serializeToArray nodes = some wire) : entries nowIso wire = nodes.map fun node => entry nowIso (received node) := by
  have hfits := payloadFields_fits h
  obtain ⟨rfl, -⟩ := serializeToArray_eq_some h
  have hparse : parsePayload (encodeFields (payloadFields nodes)) = some (nodes.map received) := by
    rw [parsePayload, decodeFields_encodeFields _ hfits, Option.bind_some, allLen_payloadFields, mapM_parseNode]
  rw [entries, hparse]
  show (nodes.map received).map (entry nowIso) = _
  rw [List.map_map]
  rfl

theorem mem_zip_entries (nodes : List ModbusBridge.ModbusNodeState) (f : ModbusBridge.ModbusNodeState → Entry)
    (p : ModbusBridge.ModbusNodeState × Entry) : p ∈ nodes.zip (nodes.map f) ↔ ∃ node ∈ nodes, (node, f node) = p := by
  have h : (nodes.map id).zip (nodes.map f) = nodes.map fun node => (id node, f node) := List.zip_map'
  rw [List.map_id] at h
  rw [h, List.mem_map]
  rfl

theorem received_operating_iff (nowIso : String) (node : ModbusBridge.ModbusNodeState) :
    (entry nowIso (received node)).status ∈ operatingStatuses ↔ node.status ≠ .offline := by
  show statusToString node.status.number ∈ operatingStatuses ↔ _
  cases node.status <;> decide

/-- No two ids survive: agreement leaves room for one only. -/
theorem WireAgreement.nodeId_eq {nowIso : String} {nodes : List ModbusBridge.ModbusNodeState}
    (h : WireAgreement nodes (nodes.map fun node => entry nowIso (received node))) {n m : ModbusBridge.ModbusNodeState}
    (hn : n ∈ nodes) (hm : m ∈ nodes) : n.nodeId = m.nodeId := by
  by_contra hne
  exact h.distinct_ids _ ((mem_zip_entries _ _ _).mpr ⟨n, hn, rfl⟩) _ ((mem_zip_entries _ _ _).mpr ⟨m, hm, rfl⟩) hne rfl

/-- **Wire agreement.** The gateway's entries agree with the bridge's nodes exactly when the nodes share one id, so that
no two can be mixed up, and none of them is in error. -/
theorem wire_agreement_iff (nowIso : String) (nodes : List ModbusBridge.ModbusNodeState) (wire : List UInt8)
    (h : serializeToArray nodes = some wire) :
    WireAgreement nodes (entries nowIso wire) ↔
      (∀ n ∈ nodes, ∀ m ∈ nodes, n.nodeId = m.nodeId) ∧ ∀ n ∈ nodes, n.status ≠ .error := by
  rw [entries_of_wire nowIso h]
  constructor
  · intro hagree
    refine ⟨fun n hn m hm => hagree.nodeId_eq hn hm, fun n hn herror => ?_⟩
    apply hagree.status _ ((mem_zip_entries _ _ _).mpr ⟨n, hn, rfl⟩) (Or.inr herror)
    rw [received_operating_iff, herror]
    decide
  · rintro ⟨hids, hstatus⟩
    refine ⟨by rw [List.length_map], ?_, ?_, ?_⟩
    · intro p hp q hq hne
      obtain ⟨n, hn, rfl⟩ := (mem_zip_entries _ _ _).mp hp
      obtain ⟨m, hm, rfl⟩ := (mem_zip_entries _ _ _).mp hq
      exact absurd (hids n hn m hm) hne
    · intro p hp
      obtain ⟨n, -, rfl⟩ := (mem_zip_entries _ _ _).mp hp
      rfl
    · intro p hp hbad
      obtain ⟨n, hn, rfl⟩ := (mem_zip_entries _ _ _).mp hp
      rw [received_operating_iff, not_not]
      exact hbad.resolve_right (hstatus n hn)

/-- Two readings of one node, of which the second is offline and counts nothing. -/
theorem one_id_agrees :
    WireAgreement [⟨7, 3, .online⟩, ⟨7, 0, .offline⟩]
      (entries "2026-01-01T00:00:00+00:00" [10, 6, 8, 7, 16, 3, 24, 1, 10, 2, 8, 7]) :=
  (wire_agreement_iff _ [⟨7, 3, .online⟩, ⟨7, 0, .offline⟩] [10, 6, 8, 7, 16, 3, 24, 1, 10, 2, 8, 7] (by decide)).mpr
    (by decide)

/-- Slave 2 does not answer, the others count 100. -/
def slaveTwoSilent (slave : Nat) : ReadResult := if slave = 2 then .modbusException else .registers [100]

/-- One poll with a silent slave: five entries without a node id, the silent one reported as stopped. -/
theorem silent_slave_reads_stopped :
    ¬ ∀ nowIso answers wire, serializeToArray (pollNodes answers) = some wire →
      WireAgreement (pollNodes answers) (entries nowIso wire) := by
  intro h
  have hagree := h "2026-01-01T00:00:00+00:00" slaveTwoSilent _ rfl
  exact hagree.status (⟨2, 0, .error⟩, ⟨"2026-01-01T00:00:00+00:00", "", 0, "STOPPED"⟩) (by decide) (Or.inr rfl)
    (by decide)

/-- What the bridge polls never agrees: its five slaves have five ids. -/
theorem polled_never_agrees (nowIso : String) (answers : Nat → ReadResult) (p : Publication)
    (h : periodicPollAndPublish answers = some p) :
    ¬ WireAgreement (pollNodes answers) (entries nowIso p.payload) := by
  obtain ⟨wire, hwire, rfl⟩ := Option.map_eq_some_iff.mp h
  show ¬ WireAgreement (pollNodes answers) (entries nowIso wire)
  rw [entries_of_wire nowIso hwire]
  intro hagree
  have hids := pollNodes_nodeIds answers
  have h1 : (1 : UInt32) ∈ (pollNodes answers).map ModbusBridge.ModbusNodeState.nodeId := by rw [hids]; decide
  have h2 : (2 : UInt32) ∈ (pollNodes answers).map ModbusBridge.ModbusNodeState.nodeId := by rw [hids]; decide
  obtain ⟨n, hn, hn1⟩ := List.mem_map.mp h1
  obtain ⟨m, hm, hm2⟩ := List.mem_map.mp h2
  have heq := hagree.nodeId_eq hn hm
  rw [hn1, hm2] at heq
  exact absurd heq (by decide)

end IbarraGateway.GatewayTranslator
