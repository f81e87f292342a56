import IbarraGateway.EdgeWorker.StoreAndForward
import IbarraGateway.EdgeWorker.VisionContract
import IbarraGateway.GemaVision.DataCollector
import IbarraGateway.GemaVision.TelemetryPayload
import IbarraGateway.ModbusBridge.TelemetryOrchestrator
import IbarraGateway.Norvi.PayloadSerializer
import IbarraGateway.Simulation.Simulator
import IbarraGateway.SystemMonitor.SystemMonitorLogic
import IbarraGateway.VisionEdge.DefectReport

/-!
# The fleet at the edge worker

Everything that the programs of the repository publish goes through one subscription, as JSON of four printers, as text and as
protobuf. What the worker makes of it:

* `Published.reads` : the reports are read back with their health, and nothing else is taken for a report.
* `fleet_rows` : in any interleaving with cloud_sync, the table is the list of the reports.
-/

namespace IbarraGateway.EdgeWorker
open CloudSync (Sync Effect buildMutation)
open GemaVision (InferenceResult CollectorInput CollectorEvent DataCollector dataCollector inferenceTopic)
open GemaVision.TelemetryPayload (Metrics)
open JsonText (Value Doc Quoted units)

/-- What the programs publish. -/
inductive Published
  /-- `TelemetryCollector::collection_loop`. -/
  | camera (deviceId : List UInt8) (m : Metrics)
  /-- `InferenceOrchestrator::publish`. -/
  | inference (r : InferenceResult)
  /-- `DataCollectorEngine::publish_status`. -/
  | status (message : String)
  /-- The main loop of the vision node. -/
  | defect (subpixelDefect : FloatValue)
  /-- `vTaskNetworking`. -/
  | norvi (cycleCount : UInt32) (isoTimestamp deviceId : Quoted) (uptimeS : UInt32)
  /-- The will of the Norvi node. -/
  | norviWill
  /-- `pollMetrics`. -/
  | monitor (params : SystemMonitor.Params)
  /-- `TelemetryOrchestrator::periodic_poll_and_publish`. -/
  | bridge (x : ModbusBridge.Publication)
  /-- The loop of a simulated machine. -/
  | simulated (area machine : String) (heartbeat : Int) (draws : List Simulator.Draw)
  /-- The first message of a simulated machine. -/
  | simulatedHealth (area machine : String) (timestamp : Int)
  /-- The will of a simulated machine. -/
  | simulatedWill (area machine : String) (timestamp : Int)

namespace Published

def topic : Published → String
  | camera _ _ => GemaVision.TelemetryPayload.telemetryTopic
  | inference _ => inferenceTopic
  | status _ => "novamex/vision/status"
  | defect _ => VisionEdge.defectTopic
  | norvi _ _ _ _ => Norvi.lwtTopic
  | norviWill => Norvi.lwtTopic
  | monitor _ => SystemMonitor.topic
  | bridge x => x.topic
  | simulated area machine _ _ => Simulator.dataTopic area machine
  | simulatedHealth area machine _ => Simulator.healthTopic area machine
  | simulatedWill area machine _ => Simulator.dataTopic area machine

def payload : Published → List UInt8
  | camera deviceId m => GemaVision.TelemetryPayload.buildPayload deviceId m
  | inference r => r.serializeToJson
  | status message => Utf8.encode message.toList
  | defect x => VisionEdge.defectPayload x
  | norvi cycleCount isoTimestamp deviceId uptimeS => Norvi.serializePayload cycleCount isoTimestamp deviceId uptimeS
  | norviWill => Norvi.lwtPayload
  | monitor params => SystemMonitor.payload params
  | bridge x => x.payload
  | simulated _ _ heartbeat draws => Simulator.dumps (Simulator.buildPayload heartbeat draws)
  | simulatedHealth _ _ timestamp => Simulator.dumps (Simulator.healthDoc "ONLINE" timestamp)
  | simulatedWill _ _ timestamp => Simulator.dumps (Simulator.healthDoc "OFFLINE" timestamp)

/-- A health, and the document that it was reported in. -/
def report : Published → Option (String × Value)
  | camera deviceId m =>
    some (GemaVision.TelemetryPayload.nodeHealth m.tempC, GemaVision.TelemetryPayload.telemetryValue deviceId m)
  | inference _ => none
  | status _ => none
  | defect _ => none
  | norvi cycleCount isoTimestamp deviceId uptimeS =>
    some ("ONLINE", (Norvi.payloadDoc cycleCount isoTimestamp deviceId uptimeS).value)
  | norviWill => some ("OFFLINE", Norvi.lwtDoc.value)
  | monitor params =>
    some (SystemMonitor.evaluateHealthState params.cpuTemp params.ramUsage, (SystemMonitor.buildTelemetryPayload params).value)
  | bridge _ => none
  | simulated _ _ heartbeat draws => some ("ONLINE", (Simulator.buildPayload heartbeat draws).value)
  | simulatedHealth _ _ timestamp => some ("ONLINE", (Simulator.healthDoc "ONLINE" timestamp).value)
  | simulatedWill _ _ timestamp => some ("OFFLINE", (Simulator.healthDoc "OFFLINE" timestamp).value)

/-- What the programs promise of what they publish. -/
def Sound : Published → Prop
  | camera deviceId m => (∀ c ∈ Utf8.decode deviceId, JsonText.Plain c) ∧ m.fps.isFinite = true
  | inference r => ∀ text ∈ r.texts, quote ∉ text
  | status message => ∃ inputs s h, dataCollector.run .start inputs = some (s, h) ∧ .status message ∈ h
  | bridge x => ∃ answers, ModbusBridge.periodicPollAndPublish answers = some x
  | _ => True

end Published

/-! ## Texts that are no JSON -/

theorem wordToken_none {c : Char} (hc : c ∉ ['n', 't', 'f', '-']) (hdigit : c.isDigit = false) (w : List Char) :
    JsonText.wordToken (c :: w) = none := by
  have hnumber : Numeral.readNumber (c :: w) = none := by
    have hminus : c ≠ '-' := by
      rintro rfl
      simp at hc
    have hread : Numeral.readNumber (c :: w) = Numeral.readUnsigned false (c :: w) := by
      unfold Numeral.readNumber
      split
      · rename_i heq
        exact absurd (List.cons.inj heq).1 hminus
      · rfl
    rw [hread]
    simp [Numeral.readUnsigned, hdigit]
  have hword {d : Char} (hd : d ∈ ['n', 't', 'f', '-']) (v : List Char) : c :: w ≠ d :: v := by
    rintro heq
    rw [(List.cons.inj heq).1] at hc
    exact hc hd
  rw [JsonText.wordToken, if_neg (hword (by simp) _), if_neg (hword (by simp) _), if_neg (hword (by simp) _), hnumber]
  rfl

/-- A word that is no token spoils the text that it begins. -/
theorem parseText_word (blanks : List Char) {c : Char} {text : List Char} (hblanks : ∀ b ∈ blanks, JsonText.isSpace b = true)
    (hc : JsonText.isDelimiter c = false) (hword : ∀ w, JsonText.wordToken (c :: w) = none) :
    JsonText.parseText (blanks ++ c :: text) = none := by
  have hlexes := JsonText.Lexes.of_run (JsonText.run_spaces hblanks) (c :: text)
  have hfail : JsonText.lexFrom .between (c :: text) = none ∨ JsonText.lexFrom .between (c :: text) = some [] := by
    cases hlex : JsonText.lexFrom .between (c :: text) with
    | none => exact .inl rfl
    | some ts =>
      cases ts with
      | nil => exact .inr rfl
      | cons t ts =>
        obtain ⟨w, b, heq, hne, -, htoken, -⟩ := JsonText.lexFrom_wordStart hc hlex
        obtain ⟨d, w, rfl⟩ := List.exists_cons_of_ne_nil hne
        obtain ⟨rfl, -⟩ := List.cons.inj heq
        rw [hword w] at htoken
        cases htoken
  rw [JsonText.parseText, JsonText.lex, hlexes]
  rcases hfail with hfail | hfail <;> rw [hfail] <;> rfl

/-! ## What is read -/

/-- A payload is read as a report, or not as one. -/
def Reads (payload : List UInt8) : Option (String × Value) → Prop
  | some (health, v) =>
    JsonText.parseText (Utf8.decode payload) = some v ∧ v.get nodeHealthKey = some (.str (units health.toList))
  | none => ∀ v, JsonText.parseText (Utf8.decode payload) = some v → v ≠ .null ∧ v.get nodeHealthKey = none

theorem reads_none {payload : List UInt8} (h : JsonText.parseText (Utf8.decode payload) = none) : Reads payload none := by
  intro v hv
  rw [h] at hv
  cases hv

theorem space_gap : ∀ c ∈ [' '], JsonText.isSpace c = true := List.forall_mem_singleton.mpr rfl

theorem no_gap : ∀ c ∈ ([] : List Char), JsonText.isSpace c = true := by simp

theorem decode_encode (text : List Char) : Utf8.decode (Utf8.encode text) = text := by
  have hdecode := Utf8.decode_encode text []
  rwa [List.append_nil, show Utf8.decode [] = [] from rfl, List.append_nil] at hdecode

theorem parse_encode {gap : List Char} (hgap : ∀ c ∈ gap, JsonText.isSpace c = true) (d : Doc) :
    JsonText.parseText (Utf8.decode (Utf8.encode (d.text gap))) = some d.value := by
  rw [decode_encode]
  exact JsonText.parse_text hgap d

theorem reads_doc {gap : List Char} (hgap : ∀ c ∈ gap, JsonText.isSpace c = true) {d : Doc} {health : String}
    (hget : d.value.get nodeHealthKey = some (.str (units health.toList))) :
    Reads (Utf8.encode (d.text gap)) (some (health, d.value)) := ⟨parse_encode hgap d, hget⟩

theorem reads_inference {r : InferenceResult} (h : ∀ text ∈ r.texts, quote ∉ text) : Reads r.serializeToJson none := by
  have hquote : ∀ text ∈ r.texts, '"' ∉ Utf8.decode text := fun text htext hmem =>
    h text htext (Utf8.mem_of_mem_decode (by decide) (by decide) hmem)
  intro v hv
  rw [GemaVision.parse_payload] at hv
  obtain ⟨ts, hts, hparse⟩ := Option.bind_eq_some_iff.mp hv
  obtain ⟨timestamp, primitives, rfl⟩ := GemaVision.result_value hquote hts
  rw [JsonText.parse_tokens] at hparse
  obtain rfl := Option.some.inj hparse
  refine ⟨?_, get_resultValue r timestamp primitives⟩
  intro hnull
  cases hnull

theorem reads_defect (x : FloatValue) : Reads (VisionEdge.defectPayload x) none := by
  by_cases hx : x.isFinite = true
  · obtain ⟨n, hn⟩ : ∃ n : Numeral, VisionEdge.toStringText x = n.text := by
      cases x with
      | finite neg mantissa exponent => exact ⟨_, rfl⟩
      | nan neg => cases hx
      | inf neg => cases hx
    intro v hv
    rw [VisionEdge.defectPayload, hn, ← VisionEdge.defectDoc_text, parse_encode space_gap] at hv
    obtain rfl := Option.some.inj hv
    refine ⟨?_, rfl⟩
    intro hnull
    cases hnull
  · have htext : VisionEdge.toStringText x = x.text := by
      cases x with
      | finite neg mantissa exponent => exact absurd rfl hx
      | nan neg => rfl
      | inf neg => rfl
    have hopen : JsonText.Lexes .between ['\x7b'] [.lbrace] .between := .of_run rfl
    have hcolon : JsonText.Lexes .between [':', ' '] [.colon] .between := .of_run rfl
    have hfront := hopen.append ((Quoted.literal "defect_subpixel").lexes.append hcolon)
    have hsplit : "\x7b\"defect_subpixel\": ".toList = ['\x7b'] ++ ((Quoted.literal "defect_subpixel").text ++ [':', ' ']) := by
      rw [Quoted.text, Quoted.literal_raw rfl]
      rfl
    have hspecial := GemaVision.lexFrom_special (Bool.eq_false_iff.mpr hx) (show JsonText.isDelimiter '\x7d' = true from rfl) []
    refine reads_none ?_
    rw [VisionEdge.defectPayload, decode_encode, JsonText.parseText, JsonText.lex, hsplit, hfront, htext,
      show "\x7d".toList = ['\x7d'] from rfl, hspecial]
    rfl

/-! ### The statuses of the data collector -/

/-- A status begins with a word. -/
def StatusWord : CollectorEvent → Prop
  | .status message => ∃ c text, message.toList = c :: text ∧ (c = 'c' ∨ c = 'e')
  | _ => True

theorem statusWord_append (message : String) (h : StatusWord (.status message)) (rest : String) :
    StatusWord (.status (message ++ rest)) := by
  obtain ⟨c, text, heq, hc⟩ := h
  exact ⟨c, text ++ rest.toList, by rw [String.toList_append, heq, List.cons_append], hc⟩

theorem statusWord_complete (s : DataCollector) : StatusWord s.complete :=
  statusWord_append "calibration_complete:" ⟨'c', _, rfl, .inl rfl⟩ _

theorem statusWord_progress (count : Nat) : ∀ e ∈ DataCollector.progress count, StatusWord e := by
  unfold DataCollector.progress
  split
  · have hcapturing : StatusWord (.status "capturing:") := ⟨'c', _, rfl, .inl rfl⟩
    exact List.forall_mem_singleton.mpr (statusWord_append _ (statusWord_append _ (statusWord_append _ hcapturing _) _) _)
  · exact fun e he => absurd he List.not_mem_nil

theorem statusWord_commander {s t : DataCollector} {out : List CollectorEvent} (h : s.commanderStep = some (t, out)) :
    ∀ e ∈ out, StatusWord e := by
  unfold DataCollector.commanderStep at h
  cases hcommander : s.commander with
  | idle =>
    rw [hcommander] at h
    cases h
  | resetting =>
    rw [hcommander] at h
    cases h
    simp
  | batching =>
    rw [hcommander] at h
    cases h
    simp
  | announcing =>
    rw [hcommander] at h
    cases h
    exact List.forall_mem_singleton.mpr ⟨'c', _, rfl, .inl rfl⟩
  | completing =>
    rw [hcommander] at h
    cases h
    exact List.forall_mem_singleton.mpr (statusWord_complete s)

theorem statusWord_collector (s : DataCollector) (now : Nat) (written : Bool) :
    ∀ e ∈ (s.collectorStep now written).2, StatusWord e := by
  unfold DataCollector.collectorStep
  cases s.collector with
  | ready =>
    dsimp only
    split
    · exact List.forall_mem_singleton.mpr trivial
    · simp
  | counting => simp
  | naming => simp
  | namingBatch timestamp capture => simp
  | writing name =>
    cases written with
    | true => simp
    | false =>
      refine List.forall_mem_cons.mpr ⟨trivial, List.forall_mem_singleton.mpr ?_⟩
      exact ⟨'e', _, rfl, .inr rfl⟩
  | adding name => exact List.forall_mem_cons.mpr ⟨trivial, statusWord_progress _⟩
  | stopping => simp
  | completing => exact List.forall_mem_singleton.mpr (statusWord_complete s)

theorem statusWord_step {s t : DataCollector} {a : CollectorInput} {out : List CollectorEvent}
    (hstep : dataCollector.step s a = some (t, out)) : ∀ e ∈ out, StatusWord e := by
  cases a with
  | command mode =>
    have hstep : s.command mode = some (t, out) := hstep
    unfold DataCollector.command at hstep
    split at hstep
    · cases hstep
      exact List.forall_mem_singleton.mpr trivial
    · cases hstep
  | commander => exact statusWord_commander hstep
  | collector now written =>
    have hall := statusWord_collector s now written
    have hout : s.collectorStep now written = (t, out) := Option.some.inj hstep
    rw [hout] at hall
    exact hall

theorem statusWord_run {inputs : List CollectorInput} {s t : DataCollector} {h : List CollectorEvent}
    (hrun : dataCollector.run s inputs = some (t, h)) : ∀ e ∈ h, StatusWord e :=
  dataCollector.run_induction (I := fun h _ => ∀ e ∈ h, StatusWord e)
    (fun _ _ _ _ _ hI _ hstep => List.forall_mem_append.mpr ⟨hI, statusWord_step hstep⟩) (h := [])
    (by simp) (dataCollector.along_true _ inputs) hrun

theorem reads_status {message : String} (h : StatusWord (.status message)) : Reads (Utf8.encode message.toList) none := by
  obtain ⟨c, text, heq, hc⟩ := h
  refine reads_none ?_
  rw [decode_encode, heq]
  have hword : c ∉ ['n', 't', 'f', '-'] ∧ c.isDigit = false ∧ JsonText.isDelimiter c = false := by
    rcases hc with rfl | rfl <;> decide
  exact parseText_word [] no_gap hword.2.2 (wordToken_none hword.1 hword.2.1)

/-! ### The bridge -/

theorem length_encodeVarint_le {k v : Nat} (m : Nat) (hk : 0 < k) (hv : v < 128 ^ k) : (Proto3.encodeVarint m v).length ≤ k := by
  induction m generalizing k v with
  | zero => simp [Proto3.encodeVarint]
  | succ m ih =>
    rw [Proto3.encodeVarint]
    split
    · exact hk
    · rename_i hlarge
      obtain ⟨k, rfl⟩ := Nat.exists_eq_succ_of_ne_zero hk.ne'
      have hdiv : v / 128 < 128 ^ k := by
        rw [Nat.div_lt_iff_lt_mul (by decide), ← pow_succ]
        exact hv
      have hpos : 0 < k := by
        by_contra hzero
        obtain rfl : k = 0 := by omega
        rw [pow_succ, pow_zero, one_mul] at hv
        omega
      simpa using ih hpos hdiv

theorem length_scalar_le (number v k : Nat) (hnumber : number < 16) (hk : 0 < k) (hv : v < 128 ^ k) :
    (Proto3.encodeFields (Proto3.scalar number v)).length ≤ 1 + k := by
  unfold Proto3.scalar
  split
  · simp [Proto3.encodeFields]
  · have htag := length_encodeVarint_le (k := 1) (v := Proto3.WireField.tag ⟨number, .varint v⟩) 5 (by decide)
      (by simp [Proto3.WireField.tag, Proto3.WireValue.wireType]; omega)
    have hvalue := length_encodeVarint_le 10 hk hv
    simp [Proto3.encodeFields, Proto3.WireField.encode, Proto3.WireValue.encode]
    omega

/-- The fields of a slave that was polled: an id below 128, a count of 16 bits and a status. -/
theorem length_fields (slave : Nat) (hslave : slave ≠ 0 ∧ slave < 128) (answer : ModbusBridge.ReadResult) :
    let n := (Proto3.encodeFields (ModbusBridge.nodeState slave answer).fields).length
    n ≠ 0 ∧ n ≤ 8 := by
  have hid : (ModbusBridge.nodeState slave answer).nodeId.toNat = slave := by
    rw [ModbusBridge.nodeState_nodeId, UInt32.toNat_ofNat_of_lt' (hslave.2.trans (by decide))]
  have hcount : (ModbusBridge.nodeState slave answer).cycleCount.toNat < 128 ^ 3 := by
    unfold ModbusBridge.nodeState
    split
    · rename_i r rest
      have hr := r.toNat_lt
      show r.toUInt32.toNat < _
      rw [UInt16.toNat_toUInt32]
      omega
    · exact Nat.pow_pos (by decide)
    · exact Nat.pow_pos (by decide)
  have hstatus := (ModbusBridge.nodeState slave answer).status.number_lt
  have hfirst := length_scalar_le 1 slave 1 (by decide) (by decide) (by omega)
  have hsecond := length_scalar_le 2 _ 3 (by decide) (by decide) hcount
  have hthird := length_scalar_le 3 _ 1 (by decide) (by decide) (show _ < 128 ^ 1 from hstatus.trans (by decide))
  have hsome : (Proto3.encodeFields (Proto3.scalar 1 slave)).length ≠ 0 := by
    simp [Proto3.scalar, hslave.1, Proto3.encodeFields, Proto3.WireField.encode, Proto3.WireField.tag, Proto3.WireValue.wireType,
      Proto3.encodeVarint]
  have hsplit : Proto3.encodeFields (ModbusBridge.nodeState slave answer).fields =
      Proto3.encodeFields (Proto3.scalar 1 slave) ++
        (Proto3.encodeFields (Proto3.scalar 2 (ModbusBridge.nodeState slave answer).cycleCount.toNat) ++
          Proto3.encodeFields (Proto3.scalar 3 (ModbusBridge.nodeState slave answer).status.number)) := by
    simp [ModbusBridge.ModbusNodeState.fields, Proto3.encodeFields, hid]
  rw [hsplit]
  simp only [List.length_append]
  omega

/-- The payload begins with a line feed, and then with a control character. -/
theorem encode_pollNodes (answers : Nat → ModbusBridge.ReadResult) : ∃ n rest, n ≠ 0 ∧ n ≤ 8 ∧
    Proto3.encodeFields (ModbusBridge.payloadFields (ModbusBridge.pollNodes answers)) =
      0x0A :: UInt8.ofNat n :: rest := by
  obtain ⟨hpos, hle⟩ := length_fields 1 (by decide) (answers 1)
  obtain ⟨node, nodes, hnode, hnodes⟩ : ∃ node nodes, node = ModbusBridge.nodeState 1 (answers 1) ∧
      ModbusBridge.pollNodes answers = node :: nodes := ⟨_, _, rfl, rfl⟩
  rw [← hnode] at hpos hle
  have htag : Proto3.encodeVarint 5 (Proto3.WireField.tag ⟨1, .len (Proto3.encodeFields node.fields)⟩) = [0x0A] := rfl
  have hlength : Proto3.encodeVarint 10 (Proto3.encodeFields node.fields).length =
      [UInt8.ofNat (Proto3.encodeFields node.fields).length] := if_pos (by omega)
  refine ⟨(Proto3.encodeFields node.fields).length,
    Proto3.encodeFields node.fields ++ Proto3.encodeFields (ModbusBridge.payloadFields nodes), hpos, hle, ?_⟩
  rw [hnodes, ModbusBridge.payloadFields, List.map_cons, Proto3.encodeFields, List.flatMap_cons, Proto3.WireField.encode, htag,
    Proto3.WireValue.encode, hlength]
  rfl

theorem reads_bridge {answers : Nat → ModbusBridge.ReadResult} {x : ModbusBridge.Publication}
    (h : ModbusBridge.periodicPollAndPublish answers = some x) : Reads x.payload none := by
  obtain ⟨wire, hwire, rfl⟩ := Option.map_eq_some_iff.mp h
  obtain ⟨rfl, -⟩ := ModbusBridge.serializeToArray_eq_some hwire
  obtain ⟨n, rest, hpos, hle, heq⟩ := encode_pollNodes answers
  have hcontrol : ∀ n ≤ 8, n ≠ 0 → UInt8.ofNat n = UInt8.ofNat (Char.ofNat n).toNat ∧ (Char.ofNat n).toNat < 0x80 ∧
    Char.ofNat n ∉ ['n', 't', 'f', '-'] ∧ (Char.ofNat n).isDigit = false ∧ JsonText.isDelimiter (Char.ofNat n) = false := by
      decide
  obtain ⟨hbyte, hascii, hword, hdigit, hdelimiter⟩ := hcontrol n hle hpos
  have hfront : (0x0A :: UInt8.ofNat n :: rest : List UInt8) = Utf8.ascii ['\n', Char.ofNat n] ++ rest := by
    rw [hbyte]
    rfl
  refine reads_none ?_
  show JsonText.parseText (Utf8.decode (Proto3.encodeFields _)) = none
  rw [heq, hfront, Utf8.decode_ascii (by simp [Utf8.IsAscii, hascii])]
  exact parseText_word ['\n'] (List.forall_mem_singleton.mpr rfl) hdelimiter (wordToken_none hword hdigit)

/-! ### All of them -/

/-- **Every payload is read as what it is**: a report with its health, or nothing with a health. -/
theorem Published.reads {x : Published} (hx : x.Sound) : Reads x.payload x.report := by
  cases x with
  | camera deviceId m => exact ⟨GemaVision.TelemetryPayload.payload_reads hx.1 hx.2, rfl⟩
  | inference r => exact reads_inference hx
  | status message =>
    obtain ⟨inputs, s, h, hrun, hmem⟩ := hx
    exact reads_status (statusWord_run hrun _ hmem)
  | defect x => exact reads_defect x
  | norvi cycleCount isoTimestamp deviceId uptimeS => exact reads_doc no_gap rfl
  | norviWill => exact reads_doc no_gap (d := Norvi.lwtDoc) rfl
  | monitor params => exact reads_doc no_gap rfl
  | bridge x =>
    obtain ⟨answers, hanswers⟩ := hx
    exact reads_bridge hanswers
  | simulated area machine heartbeat draws => exact reads_doc space_gap rfl
  | simulatedHealth area machine timestamp => exact reads_doc space_gap rfl
  | simulatedWill area machine timestamp => exact reads_doc space_gap rfl

/-- The topics that a plant has. -/
def UnderPrefix (topic : String) : Prop := "novamex/".toList <+: topic.toList

theorem UnderPrefix.append {topic : String} (h : UnderPrefix topic) (rest : String) : UnderPrefix (topic ++ rest) := by
  unfold UnderPrefix
  rw [String.toList_append]
  exact h.trans (List.prefix_append _ _)

theorem UnderPrefix.topicMatches {topic : String} (h : UnderPrefix topic) : topicMatches topicPrefix topic = true := by
  obtain ⟨rest, heq⟩ := h
  have hnot : '/' ∉ "novamex".toList := by decide
  have hsplit : topic.toList.splitOn '/' = "novamex".toList :: rest.splitOn '/' := by
    rw [← heq]
    exact List.splitOn_append_cons_self_of_not_mem hnot rest
  unfold EdgeWorker.topicMatches
  rw [hsplit]
  rfl

theorem Published.underPrefix {x : Published} (hx : x.Sound) : UnderPrefix x.topic := by
  have hplant : UnderPrefix "novamex/ibarra/" := by
    unfold UnderPrefix
    decide
  have hmachine (area machine kind : String) : UnderPrefix ("novamex/ibarra/" ++ area ++ "/" ++ machine ++ kind) :=
    (((hplant.append area).append "/").append machine).append kind
  cases x with
  | camera deviceId m => exact show UnderPrefix ("novamex/" ++ "vision/telemetry") from .append (List.prefix_refl _) _
  | inference r => exact show UnderPrefix ("novamex/" ++ "vision/inference") from .append (List.prefix_refl _) _
  | status message => exact show UnderPrefix ("novamex/" ++ "vision/status") from .append (List.prefix_refl _) _
  | defect x => exact hplant.append "quality/vision_001"
  | norvi cycleCount isoTimestamp deviceId uptimeS => exact hplant.append "production/norvi_001"
  | norviWill => exact hplant.append "production/norvi_001"
  | monitor params => exact hplant.append "it_infra/rpi5_001"
  | bridge x =>
    obtain ⟨answers, hanswers⟩ := hx
    obtain ⟨wire, -, rfl⟩ := Option.map_eq_some_iff.mp hanswers
    exact show UnderPrefix ("novamex/" ++ "linea1/telemetry") from .append (List.prefix_refl _) _
  | simulated area machine heartbeat draws => exact hmachine area machine "/data"
  | simulatedHealth area machine timestamp => exact hmachine area machine "/health"
  | simulatedWill area machine timestamp => exact hmachine area machine "/data"

/-! ## At the worker -/

/-- What a message of a program leaves in the table. -/
def Published.record (p : Platform) (x : Published) (now : String) : Option CloudSync.Record :=
  x.report.bind fun r => (p.stringify r.2).map fun payload => ⟨x.topic, payload, r.1, now⟩

/-- Reports are metrics in a list in an object, which any platform prints. -/
theorem Published.depth_le {x : Published} : ∀ r ∈ x.report, r.2.depth ≤ 3 := by
  intro r hr
  cases x with
  | camera deviceId m => cases hr; exact le_refl 3
  | norvi cycleCount isoTimestamp deviceId uptimeS => cases hr; exact le_refl 3
  | norviWill => cases hr; exact Nat.le_succ 2
  | monitor params =>
    cases hr
    have hmetric (name : String) (value : SystemMonitor.Number) (unit : Option String) :
        (SystemMonitor.metricDoc name value unit).value.depth = 1 := by
      cases value <;> cases unit <;> rfl
    show max 0 (max 0 (max 0 (max 0 (max (max (SystemMonitor.metricDoc _ _ _).value.depth
      (max (SystemMonitor.metricDoc _ _ _).value.depth (max (SystemMonitor.metricDoc _ _ _).value.depth 0)) + 1) 0)))) + 1 ≤ 3
    rw [hmetric, hmetric, hmetric]
    exact le_refl 3
  | simulated area machine heartbeat draws =>
    cases hr
    have hmetrics : JsonText.depthItems (JsonText.itemValues (draws.map Simulator.metricDoc)) ≤ 1 := by
      induction draws with
      | nil => exact Nat.zero_le 1
      | cons draw draws ih => exact max_le (le_refl 1) ih
    show max 0 (max 0 (max (JsonText.depthItems (JsonText.itemValues (draws.map Simulator.metricDoc)) + 1) 0)) + 1 ≤ 3
    omega
  | simulatedHealth area machine timestamp => cases hr; exact Nat.le_of_ble_eq_true rfl
  | simulatedWill area machine timestamp => cases hr; exact Nat.le_of_ble_eq_true rfl
  | inference r => cases hr
  | status message => cases hr
  | defect x => cases hr
  | bridge x => cases hr

/-- Every report is recorded. -/
theorem Published.record_isSome (p : Platform) (x : Published) (now : String) :
    (x.record p now).isSome = x.report.isSome := by
  unfold record
  cases hreport : x.report with
  | none => rfl
  | some r =>
    have hprinted := p.shallow r.2 (depth_le r hreport)
    rw [Option.bind_some, Option.isSome_map, hprinted]
    rfl

theorem storedBy_reads {p : Platform} {topic now : String} {payload : List UInt8} {report : Option (String × Value)}
    (htopic : topicMatches topicPrefix topic = true) (h : Reads payload report) (hne : ∀ r ∈ report, r.1 ≠ "") :
    storedBy p (.message ⟨topic, payload, now⟩ none) =
      report.bind fun r => (p.stringify r.2).map fun text => ⟨topic, text, r.1, now⟩ := by
  rw [storedBy, if_pos htopic]
  cases report with
  | none =>
    cases hpassing : passing p ⟨topic, payload, now⟩ with
    | none => rfl
    | some y =>
      obtain ⟨v, hparsed, hget, -⟩ := validate_iff.mp (passing_eq_some_iff.mp hpassing).2
      rw [(h v hparsed).2] at hget
      cases hget
  | some r =>
    obtain ⟨health, v⟩ := r
    have htruthy : truthy (.str (units health.toList)) = true := by
      have hunits : units health.toList ≠ [] := by
        intro hnil
        have hempty := JsonText.units_inj (hnil.trans (show [] = units [] from rfl))
        exact hne (health, v) rfl (String.toList_eq_nil_iff.mp hempty)
      simpa [truthy] using hunits
    rw [Option.bind_some]
    dsimp only
    cases htext : p.stringify v with
    | none =>
      cases hpassing : passing p ⟨topic, payload, now⟩ with
      | none => rfl
      | some y =>
        obtain ⟨w, hparsed, -, -, -, hprinted⟩ := validate_iff.mp (passing_eq_some_iff.mp hpassing).2
        obtain rfl := Option.some.inj (h.1.symm.trans hparsed)
        rw [htext] at hprinted
        cases hprinted
    | some text =>
      have hvalidate : validate p topic payload = .ok (some ⟨topic, text, .str (units health.toList)⟩, []) :=
        validate_iff.mpr ⟨v, h.1, h.2, htruthy, rfl, htext⟩
      have hpassing := (passing_eq_some_iff (p := p) (m := ⟨topic, payload, now⟩) (x := (_, _))).mpr ⟨rfl, hvalidate⟩
      rw [hpassing, Option.bind_some, inserted, bindText, JsonText.ofUnits_units, String.ofList_toList]
      rfl

/-- Only an exception of `validate` stops the worker. -/
theorem receive_ok {p : Platform} (m : Message) (error : Option String) (t : CloudSync.TelemetryBuffer)
    (hkept : ¬Escapes p m) : ∃ r, receive p ⟨m.now, error⟩ m.topic m.payload t = .ok r := by
  unfold receive handleMessage
  split
  · rcases validate_cases (p := p) m with ⟨hescapes, -⟩ | ⟨⟨logs, hvalidate⟩, -⟩ | ⟨record, hvalidate, -⟩
    · exact absurd hescapes hkept
    · rw [hvalidate]
      exact ⟨_, rfl⟩
    · rw [hvalidate]
      dsimp only
      split <;> exact ⟨_, rfl⟩
  · exact ⟨_, rfl⟩

/-- What is read as a report that is printed, or as none, does not stop it. -/
theorem Reads.kept {p : Platform} {m : Message} {report : Option (String × Value)} (h : Reads m.payload report)
    (hprinted : ∀ r ∈ report, (p.stringify r.2).isSome = true) : ¬Escapes p m := by
  rw [Escapes, validate_error_iff]
  rintro ⟨v, hparsed, hescapes⟩
  cases report with
  | none =>
    obtain ⟨hnull, hget⟩ := h v hparsed
    rcases hescapes with hv | ⟨health, hhealth, -⟩
    · exact hnull hv
    · rw [hget] at hhealth
      cases hhealth
  | some r =>
    obtain rfl := Option.some.inj (h.1.symm.trans hparsed)
    rcases hescapes with hv | ⟨-, -, -, hdeep⟩
    · have hget := h.2
      rw [hv] at hget
      cases hget
    · have hprinted := hprinted r rfl
      rw [hdeep] at hprinted
      cases hprinted

def healths : List String := ["ONLINE", "WARNING", "OFFLINE"]

theorem Published.health_mem {x : Published} : ∀ r ∈ x.report, r.1 ∈ healths := by
  have hmem : "ONLINE" ∈ healths ∧ "WARNING" ∈ healths ∧ "OFFLINE" ∈ healths := by decide
  intro r hr
  cases x with
  | camera deviceId m =>
    obtain rfl := Option.some.inj hr
    show GemaVision.TelemetryPayload.nodeHealth m.tempC ∈ healths
    unfold GemaVision.TelemetryPayload.nodeHealth
    split
    · exact hmem.2.1
    · exact hmem.1
  | monitor params =>
    obtain rfl := Option.some.inj hr
    show SystemMonitor.evaluateHealthState params.cpuTemp params.ramUsage ∈ healths
    unfold SystemMonitor.evaluateHealthState
    split
    · exact hmem.2.1
    · exact hmem.1
  | norvi cycleCount isoTimestamp deviceId uptimeS => cases hr; exact hmem.1
  | norviWill => cases hr; exact hmem.2.2
  | simulated area machine heartbeat draws => cases hr; exact hmem.1
  | simulatedHealth area machine timestamp => cases hr; exact hmem.1
  | simulatedWill area machine timestamp => cases hr; exact hmem.2.2
  | inference r => cases hr
  | status message => cases hr
  | defect x => cases hr
  | bridge x => cases hr

/-! ## The fleet -/

/-- A message of a program at the worker, or a step of cloud_sync. -/
inductive FleetInput
  | published (x : Published) (now : String) (error : Option String)
  | poll
  | respond (i : Nat) (result : CloudSync.FetchResult)
  | wake (i : Nat)
  | restartSync

namespace FleetInput

def edge : FleetInput → EdgeInput
  | published x now error => .message ⟨x.topic, x.payload, now⟩ error
  | poll => .poll
  | respond i result => .respond i result
  | wake i => .wake i
  | restartSync => .restartSync

def Sound : FleetInput → Prop
  | published x _ _ => x.Sound
  | _ => True

def record (p : Platform) : FleetInput → Option CloudSync.Record
  | published x now none => x.record p now
  | _ => none

theorem storedBy_edge {p : Platform} {a : FleetInput} (ha : a.Sound) : storedBy p a.edge = a.record p := by
  cases a with
  | published x now error =>
    cases error with
    | none =>
      refine storedBy_reads (Published.underPrefix ha).topicMatches (Published.reads ha) fun r hr hempty => ?_
      have hmem := Published.health_mem r hr
      rw [hempty] at hmem
      revert hmem
      decide
    | some e => rfl
  | poll => rfl
  | respond i result => rfl
  | wake i => rfl
  | restartSync => rfl

theorem health_record {p : Platform} {a : FleetInput} {r : CloudSync.Record} (h : a.record p = some r) : r.nodeHealth ∈ healths := by
  cases a with
  | published x now error =>
    cases error with
    | none =>
      obtain ⟨y, hy, hrecord⟩ := Option.bind_eq_some_iff.mp h
      obtain ⟨payload, -, rfl⟩ := Option.map_eq_some_iff.mp hrecord
      exact Published.health_mem y hy
    | some e => cases h
  | poll => cases h
  | respond i result => cases h
  | wake i => cases h
  | restartSync => cases h

end FleetInput

/-- The table of a fleet: its reports, one row each. -/
structure FleetRows (p : Platform) (inputs : List FleetInput) (s : Sync) (h : List Effect) : Prop where
  survives : ∀ x now error, .published x now error ∈ inputs → ∀ t, ∃ r, receive p ⟨now, error⟩ x.topic x.payload t = .ok r
  recorded : ∀ (x : Published) now, (x.record p now).isSome = x.report.isSome
  rows : s.table.rows.map buildMutation = (inputs.filterMap (FleetInput.record p)).map recordMutation
  posts : ∀ id m, .post id m ∈ h → ∃ r ∈ inputs.filterMap (FleetInput.record p), m = recordMutation r
  health : ∀ r ∈ inputs.filterMap (FleetInput.record p), r.nodeHealth ∈ healths

/-- **The fleet.** In any interleaving of what the programs publish with the polls, the answers and the restarts of cloud_sync,
no message stops the worker; the table holds the reports that reached the database, one row each, in their order, and nothing
else; only they are uploaded, and their health is `ONLINE`, `WARNING` or `OFFLINE`. -/
theorem fleet_rows (p : Platform) (cfg : CloudSync.Config) (inputs : List FleetInput) (hsound : ∀ a ∈ inputs, a.Sound) (s : Sync)
    (h : List Effect) (hrun : (edge p cfg).run (.boot emptyTable) (inputs.map FleetInput.edge) = some (s, h)) :
    FleetRows p inputs s h := by
  have hstored : (inputs.map FleetInput.edge).filterMap (storedBy p) = inputs.filterMap (FleetInput.record p) := by
    rw [List.filterMap_map]
    exact List.filterMap_congr fun a ha => FleetInput.storedBy_edge (hsound a ha)
  have hI := rowsAreMessages_run hrun
  have hcontents := hI.contents
  rw [hstored] at hcontents
  refine ⟨fun x now error hmem t => ?_, Published.record_isSome p, hcontents, fun id m hmem => ?_, fun r hr => ?_⟩
  · refine receive_ok ⟨x.topic, x.payload, now⟩ error t (Reads.kept (Published.reads (hsound _ hmem)) fun r hr => ?_)
    exact p.shallow r.2 (Published.depth_le r hr)
  · obtain ⟨row, hrow, -, rfl⟩ := hI.posts id m hmem
    have hmutation : buildMutation row ∈ s.table.rows.map buildMutation := List.mem_map_of_mem hrow
    rw [hcontents] at hmutation
    obtain ⟨r, hr, heq⟩ := List.mem_map.mp (show _ ∈ (inputs.filterMap (FleetInput.record p)).map recordMutation from hmutation)
    exact ⟨r, hr, heq.symm⟩
  · obtain ⟨a, -, ha⟩ := List.mem_filterMap.mp hr
    exact FleetInput.health_record ha

/-- The will of the Norvi node, a defect that is no number, and an upload. -/
def willRun : List FleetInput :=
  [.published .norviWill "2026-01-01 00:00:00" none, .published (.defect (.nan false)) "2026-01-01 00:00:01" none, .poll]

def willRecord : CloudSync.Record :=
  ⟨"novamex/ibarra/production/norvi_001", "ok", "OFFLINE", "2026-01-01 00:00:00"⟩

theorem will_rows : ∃ s, FleetRows okPlatform willRun s [.post 1 (recordMutation willRecord)] :=
  ⟨_, fleet_rows okPlatform acceptsAll willRun (by simp [willRun, FleetInput.Sound, Published.Sound]) _ _ rfl⟩

end IbarraGateway.EdgeWorker
