import IbarraGateway.EdgeWorker.EdgeWorker

/-!
# Ingestion

The messages of the subscription in order, at a database whose calls throw for a value that cannot be bound and for nothing
else. Three kinds of payloads get behind `JSON.parse` and are not seen to: `null`, whose property is read outside of the `try`;
what is nested too deeply for `JSON.stringify`, which is called outside of it too; and an object whose `node_health` is `true`,
an array or an object, which no column takes (`ingestion_iff`).
-/

namespace IbarraGateway.EdgeWorker
open CloudSync (TelemetryBuffer SyncStatus)
open JsonText (Value)

/-- A message, and the time at the database. -/
structure Message where
  topic : String
  payload : List UInt8
  now : String

variable (p : Platform)

/-- `handleMessage` on each message, up to the first exception. -/
def ingest : List Message → TelemetryBuffer → Except Exception (TelemetryBuffer × List Log)
  | [], t => .ok (t, [])
  | m :: messages, t =>
    match handleMessage p ⟨m.now, none⟩ m.topic m.payload t with
    | .error e => .error e
    | .ok (t', logs) =>
      match ingest messages t' with
      | .error e => .error e
      | .ok (t'', logs') => .ok (t'', logs ++ logs')

/-- A message that passes validation, with its record. -/
def passing (m : Message) : Option (Message × Record) :=
  match validate p m.topic m.payload with
  | .ok (some record, _) => some (m, record)
  | _ => none

/-- No exception leaves the handler, and the table has one new pending row for each message that passes validation, in the
order of the messages, and no other. -/
def Ingested (messages : List Message) (t : TelemetryBuffer) : Prop :=
  ∃ t' logs rows, ingest p messages t = .ok (t', logs) ∧ t'.rows = t.rows ++ rows ∧
    rows.map (fun row => (row.topic, row.payload, row.syncStatus, row.retryCount)) =
      (messages.filterMap (passing p)).map fun x => (x.2.topic, x.2.payload, .pending, 0)

/-- The payload is not `null`, and what is let through can be printed and has a string or a number as its `node_health`. -/
def Storable (payload : List UInt8) : Prop :=
  ∀ v, JsonText.parseText (Utf8.decode payload) = some v →
    v ≠ .null ∧ ∀ health, v.get nodeHealthKey = some health → truthy health = true →
      (p.stringify v).isSome = true ∧ bindable health = true

/-! ## One message -/

/-- What is inserted for a message that passes, if its `node_health` can be bound. -/
def inserted (x : Message × Record) : Option CloudSync.Record :=
  (bindText p x.2.nodeHealth).map fun health => ⟨x.2.topic, x.2.payload, health, x.1.now⟩

variable {p}

/-- An exception leaves `validate` for the message. -/
def Escapes (p : Platform) (m : Message) : Prop := ∃ e, validate p m.topic m.payload = .error e

/-- An exception; or a payload that is discarded; or a record. -/
theorem validate_cases (m : Message) :
    ((∃ e, validate p m.topic m.payload = .error e) ∧ passing p m = none) ∨
      ((∃ logs, validate p m.topic m.payload = .ok (none, logs)) ∧ passing p m = none) ∨
      ∃ record, validate p m.topic m.payload = .ok (some record, []) ∧ passing p m = some (m, record) := by
  unfold passing
  cases hvalidate : validate p m.topic m.payload with
  | error e => exact .inl ⟨⟨e, rfl⟩, rfl⟩
  | ok r =>
    obtain ⟨record, logs⟩ := r
    cases record with
    | none => exact .inr (.inl ⟨⟨logs, rfl⟩, rfl⟩)
    | some record =>
      have hlogs := validate_logs hvalidate
      subst hlogs
      exact .inr (.inr ⟨record, rfl, rfl⟩)

theorem passing_eq_some_iff {m : Message} {x : Message × Record} :
    passing p m = some x ↔ x.1 = m ∧ validate p m.topic m.payload = .ok (some x.2, []) := by
  rcases validate_cases (p := p) m with ⟨⟨e, hvalidate⟩, hpassing⟩ | ⟨⟨logs, hvalidate⟩, hpassing⟩ |
    ⟨record, hvalidate, hpassing⟩
  · rw [hvalidate, hpassing]
    exact iff_of_false nofun fun h => nomatch h.2
  · rw [hvalidate, hpassing]
    exact iff_of_false nofun fun h => nomatch h.2
  · rw [hvalidate, hpassing]
    constructor
    · rintro ⟨⟩
      exact ⟨rfl, rfl⟩
    · rintro ⟨rfl, hrecord⟩
      cases hrecord
      rfl

/-- What one message does: nothing happens to the table, or the row of its record is new. -/
theorem handleMessage_ok_iff {m : Message} {t t' : TelemetryBuffer} :
    (∃ logs, handleMessage p ⟨m.now, none⟩ m.topic m.payload t = .ok (t', logs)) ↔
      ¬Escapes p m ∧ t' = (([m].filterMap (passing p)).filterMap (inserted p)).foldl TelemetryBuffer.insert t := by
  have hone (r : TelemetryBuffer × List Log) : (∃ logs, Except.ok (ε := Exception) r = .ok (t', logs)) ↔ t' = r.1 := by
    constructor
    · rintro ⟨logs, ⟨⟩⟩
      rfl
    · rintro rfl
      exact ⟨_, rfl⟩
  rcases validate_cases (p := p) m with ⟨⟨e, hvalidate⟩, -⟩ | ⟨⟨logs, hvalidate⟩, hpassing⟩ | ⟨record, hvalidate, hpassing⟩
  · rw [handleMessage, hvalidate]
    apply iff_of_false
    · rintro ⟨logs, hlogs⟩
      cases hlogs
    · exact fun h => h.1 ⟨e, hvalidate⟩
  · have hkept : ¬Escapes p m := by
      rintro ⟨e, herror⟩
      rw [hvalidate] at herror
      cases herror
    rw [handleMessage, hvalidate, List.filterMap_cons_none hpassing, and_iff_right hkept]
    exact hone _
  have hkept : ¬Escapes p m := by
    rintro ⟨e, herror⟩
    rw [hvalidate] at herror
    cases herror
  rw [handleMessage_of_validate m.now t hvalidate, List.filterMap_cons_some hpassing, and_iff_right hkept]
  cases hbind : bindText p record.nodeHealth with
  | none =>
    have hinserted : inserted p (m, record) = none := by rw [inserted, hbind, Option.map_none]
    rw [List.filterMap_nil, List.filterMap_cons_none hinserted]
    exact hone _
  | some health =>
    have hinserted : inserted p (m, record) = some ⟨record.topic, record.payload, health, m.now⟩ := by
      rw [inserted, hbind, Option.map_some]
    rw [List.filterMap_nil, List.filterMap_cons_some hinserted]
    exact hone _

/-! ## A sequence of messages -/

theorem ingest_cons_iff {m : Message} {messages : List Message} {t t' : TelemetryBuffer} {logs : List Log} :
    ingest p (m :: messages) t = .ok (t', logs) ↔
      ∃ t₁ first rest, handleMessage p ⟨m.now, none⟩ m.topic m.payload t = .ok (t₁, first) ∧
        ingest p messages t₁ = .ok (t', rest) ∧ logs = first ++ rest := by
  constructor
  · intro h
    rw [ingest] at h
    split at h
    · cases h
    · rename_i t₁ first hfirst
      split at h
      · cases h
      · rename_i t₂ rest hrest
        cases h
        exact ⟨t₁, first, rest, hfirst, hrest, rfl⟩
  · rintro ⟨t₁, first, rest, hfirst, hrest, rfl⟩
    rw [ingest, hfirst]
    dsimp only
    rw [hrest]

/-- What a sequence does: every message that passes brings its row, if its `node_health` can be bound. -/
theorem ingest_ok_iff {messages : List Message} {t t' : TelemetryBuffer} :
    (∃ logs, ingest p messages t = .ok (t', logs)) ↔
      (∀ m ∈ messages, ¬Escapes p m) ∧
        t' = ((messages.filterMap (passing p)).filterMap (inserted p)).foldl TelemetryBuffer.insert t := by
  induction messages generalizing t with
  | nil =>
    constructor
    · rintro ⟨_, ⟨⟩⟩
      exact ⟨by simp, rfl⟩
    · rintro ⟨-, rfl⟩
      exact ⟨_, rfl⟩
  | cons m messages ih =>
    have hcons : m :: messages = [m] ++ messages := rfl
    rw [List.forall_mem_cons, hcons, List.filterMap_append, List.filterMap_append, List.foldl_append]
    constructor
    · rintro ⟨logs, h⟩
      obtain ⟨t₁, first, rest, hfirst, hrest, -⟩ := ingest_cons_iff.mp h
      obtain ⟨hm, rfl⟩ := handleMessage_ok_iff.mp ⟨first, hfirst⟩
      obtain ⟨hmessages, rfl⟩ := ih.mp ⟨rest, hrest⟩
      exact ⟨⟨hm, hmessages⟩, rfl⟩
    · rintro ⟨⟨hm, hmessages⟩, rfl⟩
      obtain ⟨first, hfirst⟩ := handleMessage_ok_iff.mpr ⟨hm, rfl⟩
      obtain ⟨rest, hrest⟩ := ih.mpr ⟨hmessages, rfl⟩
      exact ⟨first ++ rest, ingest_cons_iff.mpr ⟨_, first, rest, hfirst, hrest, rfl⟩⟩

/-- New rows stand behind the others. -/
theorem foldl_insert_rows (records : List CloudSync.Record) (t : TelemetryBuffer) :
    ∃ rows, (records.foldl TelemetryBuffer.insert t).rows = t.rows ++ rows ∧
      rows.map (fun row => (row.topic, row.payload, row.syncStatus, row.retryCount)) =
        records.map fun r => (r.topic, r.payload, .pending, 0) := by
  induction records generalizing t with
  | nil => exact ⟨[], (List.append_nil _).symm, rfl⟩
  | cons r records ih =>
    obtain ⟨rows, hrows, hmap⟩ := ih (t.insert r)
    refine ⟨r.row t.nextKey :: rows, ?_, ?_⟩
    · rw [List.foldl_cons, hrows]
      exact List.append_assoc _ _ _
    · rw [List.map_cons, List.map_cons, hmap]
      rfl

/-- Every message that passes brings a row exactly when all their values can be bound. -/
theorem length_inserted_iff {passed : List (Message × Record)} :
    (passed.filterMap (inserted p)).length = passed.length ↔ ∀ x ∈ passed, bindable x.2.nodeHealth = true := by
  rw [List.filterMap_length_eq_length]
  refine forall₂_congr fun x _ => ?_
  rw [← bindText_iff (p := p), inserted, Option.isSome_map, Option.isSome_iff_exists]

theorem map_inserted {passed : List (Message × Record)} (h : ∀ x ∈ passed, bindable x.2.nodeHealth = true) :
    (passed.filterMap (inserted p)).map (fun r => (r.topic, r.payload, SyncStatus.pending, 0)) =
      passed.map fun x => (x.2.topic, x.2.payload, SyncStatus.pending, 0) := by
  induction passed with
  | nil => rfl
  | cons x passed ih =>
    obtain ⟨hx, hpassed⟩ := List.forall_mem_cons.mp h
    obtain ⟨health, hbind⟩ := bindText_iff.mpr hx
    have hinserted : inserted p x = some ⟨x.2.topic, x.2.payload, health, x.1.now⟩ := by
      rw [inserted, hbind, Option.map_some]
    rw [List.filterMap_cons_some hinserted, List.map_cons, List.map_cons, ih hpassed]

theorem storable_iff (m : Message) : Storable p m.payload ↔
    ¬Escapes p m ∧ ∀ x, passing p m = some x → bindable x.2.nodeHealth = true := by
  rw [Escapes, validate_error_iff]
  constructor
  · intro h
    refine ⟨?_, fun x hx => ?_⟩
    · rintro ⟨v, hparsed, hnull | ⟨health, hget, htruthy, hdeep⟩⟩
      · exact (h v hparsed).1 hnull
      · have hprinted := ((h v hparsed).2 health hget htruthy).1
        rw [hdeep] at hprinted
        cases hprinted
    · obtain ⟨v, hparsed, hget, htruthy, -, -⟩ := validate_iff.mp (passing_eq_some_iff.mp hx).2
      exact ((h v hparsed).2 _ hget htruthy).2
  · rintro ⟨hkept, hpassing⟩ v hparsed
    refine ⟨fun hnull => hkept ⟨v, hparsed, .inl hnull⟩, fun health hget htruthy => ?_⟩
    cases hpayload : p.stringify v with
    | none => exact absurd ⟨v, hparsed, .inr ⟨health, hget, htruthy, hpayload⟩⟩ hkept
    | some payload =>
      have hvalidate : validate p m.topic m.payload = .ok (some ⟨m.topic, payload, health⟩, []) :=
        validate_iff.mpr ⟨v, hparsed, hget, htruthy, rfl, hpayload⟩
      exact ⟨rfl, hpassing (m, ⟨m.topic, payload, health⟩) (passing_eq_some_iff.mpr ⟨rfl, hvalidate⟩)⟩

theorem storable_all_iff {messages : List Message} :
    (∀ m ∈ messages, Storable p m.payload) ↔
      (∀ m ∈ messages, ¬Escapes p m) ∧ ∀ x ∈ messages.filterMap (passing p), bindable x.2.nodeHealth = true := by
  simp only [storable_iff, List.mem_filterMap, forall_exists_index, and_imp]
  constructor
  · exact fun h => ⟨fun m hm => (h m hm).1, fun x m hm hx => (h m hm).2 x hx⟩
  · rintro ⟨hkept, hbindable⟩ m hm
    exact ⟨hkept m hm, fun x hx => hbindable x m hm hx⟩

/-- **Ingestion.** For every sequence of messages, no exception leaves the handler and the table has exactly the rows of the
messages that pass validation, if and only if every payload is storable. -/
theorem ingestion_iff (messages : List Message) (t : TelemetryBuffer) :
    Ingested p messages t ↔ ∀ m ∈ messages, Storable p m.payload := by
  rw [storable_all_iff]
  constructor
  · rintro ⟨t', logs, rows, hok, hrows, hmap⟩
    obtain ⟨hnull, rfl⟩ := ingest_ok_iff.mp ⟨logs, hok⟩
    refine ⟨hnull, (length_inserted_iff (p := p)).mp ?_⟩
    obtain ⟨rows', hrows', hmap'⟩ :=
      foldl_insert_rows ((messages.filterMap (passing p)).filterMap (inserted p)) t
    rw [hrows', List.append_cancel_left_eq] at hrows
    have hlength := congrArg List.length hmap
    have hlength' := congrArg List.length hmap'
    rw [List.length_map, List.length_map] at hlength hlength'
    rw [← hlength, ← hlength', hrows]
  · rintro ⟨hnull, hbindable⟩
    obtain ⟨logs, hok⟩ := ingest_ok_iff.mpr ⟨hnull, rfl⟩
    obtain ⟨rows, hrows, hmap⟩ := foldl_insert_rows ((messages.filterMap (passing p)).filterMap (inserted p)) t
    exact ⟨_, logs, rows, hok, hrows, hmap.trans (map_inserted hbindable)⟩

/-- The payload `null`. -/
def nullMessage : Message := ⟨"novamex/ibarra", [0x6E, 0x75, 0x6C, 0x6C], "2026-01-01 00:00:00"⟩

/-- The handler does not survive the payload `null`. -/
theorem null_escapes : ¬∀ p messages t, Ingested p messages t := by
  intro h
  obtain ⟨t', logs, rows, hok, -⟩ := h okPlatform [nullMessage] ⟨[], by simp⟩
  have hnull : JsonText.parseText (Utf8.decode nullMessage.payload) = some .null := rfl
  exact (ingest_ok_iff.mp ⟨logs, hok⟩).1 nullMessage (List.mem_singleton_self _)
    (validate_error_iff.mpr ⟨.null, hnull, .inl rfl⟩)

end IbarraGateway.EdgeWorker
