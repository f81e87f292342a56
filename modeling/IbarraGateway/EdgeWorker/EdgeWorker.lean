import IbarraGateway.CloudSync.Sync
import IbarraGateway.Lib.JsonText
import IbarraGateway.Lib.Utf8

/-!
# The edge worker

`validate` and `handleMessage`, from the bytes of a message to the row of `telemetry_buffer`.
-/

namespace IbarraGateway.EdgeWorker
open JsonText (Value Units units)
open CloudSync (TelemetryBuffer)

/-! ## The platform -/

/-- The texts of values: `JSON.stringify`, which throws a `RangeError` for values that are nested too deeply for the stack,
but not for objects in an array in an object; and the text that the column gives to a number. -/
structure Platform where
  stringify : Value → Option String
  realText : ℚ → String
  shallow : ∀ v, v.depth ≤ 3 → (stringify v).isSome = true

theorem printed_ok : ∀ v : Value, v.depth ≤ 3 → (some "ok").isSome = true := fun _ _ => rfl

/-- A platform with one text for all values. -/
def okPlatform : Platform := ⟨fun _ => some "ok", fun _ => "0", printed_ok⟩

/-- What the database's calls for one message come to: the time, and the message of the error where one throws. -/
structure Answer where
  now : String
  error : Option String

/-- `!value` is false. A number below half the least positive double is read as zero. -/
def truthy : Value → Bool
  | .null => false
  | .bool b => b
  | .num q => 1 < |q| * 2 ^ 1075
  | .str s => s ≠ []
  | .arr _ => true
  | .obj _ => true

/-- The text that a parameter of a statement binds to a column of texts: of strings and numbers only. -/
def bindText (p : Platform) : Value → Option String
  | .str s => some (String.ofList (JsonText.ofUnits s))
  | .num q => some (p.realText q)
  | _ => none

/-- A parameter of a statement can be a string or a number. -/
def bindable : Value → Bool
  | .str _ => true
  | .num _ => true
  | _ => false

def bindError : String := "SQLite3 can only bind numbers, strings, bigints, buffers, and null"

/-- An exception that leaves `validate`: of a property of `null`, or of `JSON.stringify`. -/
inductive Exception
  | typeError
  | rangeError
  deriving DecidableEq, Repr

/-- What is logged. -/
inductive Log
  /-- `Discarding malformed JSON on topic`. -/
  | malformed (topic : String)
  /-- `Discarding message without node_health on topic`. -/
  | noNodeHealth (topic : String)
  /-- `Inserted record from topic`. -/
  | inserted (topic : String) (nodeHealth : Value)
  /-- `Failed to insert record:`. -/
  | insertFailed (message : String)

/-! ## Messages -/

/-- What `validate` returns. -/
structure Record where
  topic : String
  payload : String
  nodeHealth : Value

def nodeHealthKey : Units := units "node_health".toList

def validate (p : Platform) (topic : String) (raw : List UInt8) : Except Exception (Option Record × List Log) :=
  match JsonText.parseText (Utf8.decode raw) with
  | none => .ok (none, [.malformed topic])
  | some .null => .error .typeError
  | some parsed =>
    match parsed.get nodeHealthKey with
    | none => .ok (none, [.noNodeHealth topic])
    | some health =>
      if truthy health then
        match p.stringify parsed with
        | none => .error .rangeError
        | some payload => .ok (some ⟨topic, payload, health⟩, [])
      else .ok (none, [.noNodeHealth topic])

/-- `insertStmt.run`, or the exception's message. -/
def insert (p : Platform) (answer : Answer) (t : TelemetryBuffer) (record : Record) : Except String TelemetryBuffer :=
  match answer.error with
  | some message => .error message
  | none =>
    match bindText p record.nodeHealth with
    | none => .error bindError
    | some health => .ok (t.insert ⟨record.topic, record.payload, health, answer.now⟩)

def handleMessage (p : Platform) (answer : Answer) (topic : String) (rawPayload : List UInt8) (t : TelemetryBuffer) :
    Except Exception (TelemetryBuffer × List Log) :=
  match validate p topic rawPayload with
  | .error e => .error e
  | .ok (none, logs) => .ok (t, logs)
  | .ok (some record, logs) =>
    match insert p answer t record with
    | .ok t' => .ok (t', logs ++ [.inserted topic record.nodeHealth])
    | .error message => .ok (t, logs ++ [.insertFailed message])

/-! ## What is validated -/

section Validate
variable {p : Platform} {topic : String} {raw : List UInt8}

theorem validate_of_parsed {v : Value} (hparsed : JsonText.parseText (Utf8.decode raw) = some v) (hnull : v ≠ .null) :
    validate p topic raw = match v.get nodeHealthKey with
      | none => .ok (none, [.noNodeHealth topic])
      | some health =>
        if truthy health then
          match p.stringify v with
          | none => .error .rangeError
          | some payload => .ok (some ⟨topic, payload, health⟩, [])
        else .ok (none, [.noNodeHealth topic]) := by
  unfold validate
  rw [hparsed]
  cases v with
  | null => exact absurd rfl hnull
  | _ => rfl

/-- What the worker validates. -/
theorem validate_iff {record : Record} : validate p topic raw = .ok (some record, []) ↔
    ∃ v, JsonText.parseText (Utf8.decode raw) = some v ∧ v.get nodeHealthKey = some record.nodeHealth ∧
      truthy record.nodeHealth = true ∧ record.topic = topic ∧ p.stringify v = some record.payload := by
  constructor
  · intro h
    cases hparsed : JsonText.parseText (Utf8.decode raw) with
    | none =>
      rw [validate, hparsed] at h
      cases h
    | some v =>
      by_cases hnull : v = .null
      · subst hnull
        rw [validate, hparsed] at h
        cases h
      rw [validate_of_parsed hparsed hnull] at h
      split at h
      · cases h
      · rename_i health hget
        split at h
        · rename_i htruthy
          split at h
          · cases h
          · rename_i hpayload
            cases h
            exact ⟨v, rfl, hget, htruthy, rfl, hpayload⟩
        · cases h
  · rintro ⟨v, hparsed, hget, htruthy, rfl, hpayload⟩
    have hnull : v ≠ .null := by
      rintro rfl
      cases hget
    rw [validate_of_parsed hparsed hnull, hget]
    dsimp only
    rw [if_pos htruthy, hpayload]

/-- A record is returned without a line in the log. -/
theorem validate_logs {record : Record} {logs : List Log} (h : validate p topic raw = .ok (some record, logs)) : logs = [] := by
  unfold validate at h
  split at h
  · cases h
  · cases h
  split at h
  · cases h
  split at h
  · split at h
    · cases h
    · cases h
      rfl
  · cases h

/-- What the worker does not survive. -/
theorem validate_error_iff : (∃ e, validate p topic raw = .error e) ↔
    ∃ v, JsonText.parseText (Utf8.decode raw) = some v ∧
      (v = .null ∨ ∃ health, v.get nodeHealthKey = some health ∧ truthy health = true ∧ p.stringify v = none) := by
  constructor
  · rintro ⟨e, h⟩
    cases hparsed : JsonText.parseText (Utf8.decode raw) with
    | none =>
      rw [validate, hparsed] at h
      cases h
    | some v =>
      by_cases hnull : v = .null
      · exact ⟨v, rfl, .inl hnull⟩
      rw [validate_of_parsed hparsed hnull] at h
      split at h
      · cases h
      · rename_i health hget
        split at h
        · rename_i htruthy
          split at h
          · rename_i hdeep
            exact ⟨v, rfl, .inr ⟨health, hget, htruthy, hdeep⟩⟩
          · cases h
        · cases h
  · rintro ⟨v, hparsed, rfl | ⟨health, hget, htruthy, hdeep⟩⟩
    · exact ⟨.typeError, by rw [validate, hparsed]⟩
    · have hnull : v ≠ .null := by
        rintro rfl
        cases hget
      refine ⟨.rangeError, ?_⟩
      rw [validate_of_parsed hparsed hnull, hget]
      dsimp only
      rw [if_pos htruthy, hdeep]

theorem bindText_iff {v : Value} : (∃ text, bindText p v = some text) ↔ bindable v = true := by
  cases v with
  | str s => exact iff_of_true ⟨_, rfl⟩ rfl
  | num q => exact iff_of_true ⟨_, rfl⟩ rfl
  | _ => exact iff_of_false (by rintro ⟨text, h⟩; cases h) nofun

/-- A message that is validated, at a database that works. -/
theorem handleMessage_of_validate {record : Record} (now : String) (t : TelemetryBuffer)
    (h : validate p topic raw = .ok (some record, [])) : handleMessage p ⟨now, none⟩ topic raw t =
      match bindText p record.nodeHealth with
      | some health => .ok (t.insert ⟨record.topic, record.payload, health, now⟩, [.inserted topic record.nodeHealth])
      | none => .ok (t, [.insertFailed bindError]) := by
  rw [handleMessage, h]
  show (match insert p ⟨now, none⟩ t record with | .ok t' => _ | .error message => _) = _
  unfold insert
  cases bindText p record.nodeHealth <;> rfl

end Validate

/-! ## The subscription -/

/-- The default of `topicPrefix`. -/
def topicPrefix : String := "novamex/#"

/-- The levels of a topic against those of a filter. -/
def levelsMatch : List (List Char) → List (List Char) → Bool
  | [['#']], _ => true
  | ['+'] :: filter, _ :: topic => levelsMatch filter topic
  | f :: filter, t :: topic => f == t && levelsMatch filter topic
  | [], [] => true
  | _, _ => false

/-- A subscription takes a topic. -/
def topicMatches (filter topic : String) : Bool := levelsMatch (filter.toList.splitOn '/') (topic.toList.splitOn '/')

/-- A message that is published, as the worker gets it. -/
def receive (p : Platform) (answer : Answer) (topic : String) (payload : List UInt8) (t : TelemetryBuffer) :
    Except Exception (TelemetryBuffer × List Log) :=
  if topicMatches topicPrefix topic then handleMessage p answer topic payload t else .ok (t, [])

end IbarraGateway.EdgeWorker
