import IbarraGateway.Lib.Json
import IbarraGateway.Lib.KeyedTable
import IbarraGateway.Lib.Machine
import Mathlib

/-!
# cloud_sync: the outbox table and the coroutines that upload it

`syncRecord` suspends at two places, in the fetch and in the backoff, and is cut there: `beginSync` runs to the fetch,
`resumeFetch` from the answer to the end or to the backoff, `resumeSleep` from the end of the backoff. Between two
suspensions the event loop runs nothing else, so an interleaving of the coroutines is a list of inputs of the machine
`cloudSync`. Every coroutine works from the row that it read (`Call.row`), while the table moves on.

The statements of SQLite succeed. Whether a text is JSON is a parameter (`Config.parses`).
-/

namespace IbarraGateway.CloudSync

structure Config where
  maxRetries : Nat
  baseDelayMs : Nat
  /-- The texts that `JSON.parse` accepts. -/
  parses : String → Bool

/-! ## The table -/

inductive SyncStatus
  | pending
  | synced
  | failed
  deriving DecidableEq, Repr

/-- A row of `telemetry_buffer`. -/
structure Row where
  id : Nat
  topic : String
  payload : String
  nodeHealth : String
  receivedAt : String
  syncStatus : SyncStatus
  retryCount : Nat
  lastError : Option String
  deriving DecidableEq, Repr

abbrev TelemetryBuffer := KeyedTable Row.id

/-- The `SET` clauses of the four `UPDATE … WHERE id = ?` statements. -/
inductive Update
  | lastError (lastError : String)
  | synced
  | failed (retryCount : Nat) (lastError : String)
  | retried (retryCount : Nat) (lastError : String)

def Update.apply : Update → Row → Row
  | lastError e, r => { r with lastError := some e }
  | synced, r => { r with syncStatus := .synced }
  | failed n e, r => { r with syncStatus := .failed, retryCount := n, lastError := some e }
  | retried n e, r => { r with retryCount := n, lastError := some e }

@[simp] theorem Update.apply_id (u : Update) (r : Row) : (u.apply r).id = r.id := by
  cases u <;> rfl

/-- What a client of the table inserts; `id`, `sync_status` and `retry_count` take their defaults. -/
structure Record where
  topic : String
  payload : String
  nodeHealth : String
  receivedAt : String

def Record.row (r : Record) (id : Nat) : Row :=
  ⟨id, r.topic, r.payload, r.nodeHealth, r.receivedAt, .pending, 0, none⟩

@[simp] theorem Record.row_id (r : Record) (id : Nat) : (r.row id).id = id := rfl

namespace TelemetryBuffer

def update (t : TelemetryBuffer) (id : Nat) (u : Update) : TelemetryBuffer := t.modify id u.apply u.apply_id

def insert (t : TelemetryBuffer) (r : Record) : TelemetryBuffer := t.append (r.row t.nextKey) (r.row_id t.nextKey)

/-- `SELECT * … WHERE sync_status = 'PENDING' ORDER BY id ASC LIMIT 10`. -/
def firstPending (t : TelemetryBuffer) : List Row := t.first 10 fun r => r.syncStatus = .pending

end TelemetryBuffer

/-! ## The exchange with Hasura -/

/-- The body of a POST: one object of `insert_telemetry`. -/
structure Mutation where
  query : String
  topic : String
  payload : String
  nodeHealth : String
  receivedAt : String
  deriving DecidableEq, Repr

def buildMutation (row : Row) : Mutation where
  query := "mutation InsertTelemetry($objects: [telemetry_insert_input!]!) \x7b
        insert_telemetry(objects: $objects) \x7b returning \x7b id \x7d \x7d
      \x7d"
  topic := row.topic
  payload := row.payload
  nodeHealth := row.nodeHealth
  receivedAt := row.receivedAt

/-- What a fetch comes to: a response with its status and its body (`none` when that is no JSON), or an error. -/
inductive FetchResult
  | response (status : Nat) (body : Option Json)
  | rejected (message : String)

/-- A response with `response.ok`. -/
def FetchResult.Ok : FetchResult → Prop
  | response status _ => 200 ≤ status ∧ status < 300
  | rejected _ => False

/-- A body with the `errors` member of a failed mutation. -/
def FetchResult.ReportsErrors : FetchResult → Prop
  | response _ (some body) => body.hasMember "errors"
  | _ => False

instance : DecidablePred FetchResult.Ok
  | .response status _ => inferInstanceAs (Decidable (200 ≤ status ∧ status < 300))
  | .rejected _ => inferInstanceAs (Decidable False)

instance : DecidablePred FetchResult.ReportsErrors
  | .response _ (some body) => inferInstanceAs (Decidable (body.hasMember "errors" = true))
  | .response _ none => inferInstanceAs (Decidable False)
  | .rejected _ => inferInstanceAs (Decidable False)

/-- Hasura took the row: a success status, and no errors in the body. -/
def FetchResult.Accepted (r : FetchResult) : Prop := r.Ok ∧ ¬ r.ReportsErrors

instance : DecidablePred FetchResult.Accepted := fun r => inferInstanceAs (Decidable (r.Ok ∧ ¬ r.ReportsErrors))

/-! ## The coroutines -/

/-- Where a `syncRecord` is suspended. -/
inductive Phase
  | fetching
  | sleeping (delay : Nat)
  deriving DecidableEq, Repr

/-- A suspended `syncRecord` and the row it works from. -/
structure Call where
  row : Row
  phase : Phase
  deriving DecidableEq, Repr

structure Sync where
  table : TelemetryBuffer
  calls : List Call

/-- A process that starts on the table. -/
def Sync.boot (table : TelemetryBuffer) : Sync := ⟨table, []⟩

inductive Effect
  | post (id : Nat) (mutation : Mutation)
  | answered (id : Nat) (mutation : Mutation) (result : FetchResult)

namespace Sync

def update (s : Sync) (id : Nat) (u : Update) : Sync := { s with table := s.table.update id u }

def suspend (s : Sync) (c : Call) : Sync := { s with calls := s.calls ++ [c] }

end Sync

/-- `syncRecord` up to the fetch; a payload that is no JSON is noted and never sent. -/
def beginSync (cfg : Config) (s : Sync) (row : Row) : Sync × List Effect :=
  if cfg.parses row.payload then (s.suspend ⟨row, .fetching⟩, [.post row.id (buildMutation row)])
  else (s.update row.id (.lastError "Invalid JSON payload"), [])

/-- `syncRecord` from the answer on. -/
def resumeFetch (cfg : Config) (s : Sync) (row : Row) : FetchResult → Sync
  | .response status _ =>
    if 200 ≤ status ∧ status < 300 then s.update row.id .synced
    else if 500 ≤ status then
      let attempt := row.retryCount + 1
      let lastError := "HTTP " ++ toString status
      if cfg.maxRetries ≤ attempt then s.update row.id (.failed attempt lastError)
      else
        let delay := min (cfg.baseDelayMs * 2 ^ (attempt - 1)) 60000
        (s.update row.id (.retried attempt lastError)).suspend ⟨row, .sleeping delay⟩
    else s.update row.id (.lastError ("HTTP " ++ toString status))
  | .rejected message => s.update row.id (.lastError message)

/-- `syncRecord` after the backoff: the row is read again, and tried again while it is `PENDING`. -/
def resumeSleep (cfg : Config) (s : Sync) (row : Row) : Sync × List Effect :=
  match s.table.find row.id with
  | none => (s, [])
  | some updated => if updated.syncStatus = .pending then beginSync cfg s updated else (s, [])

def beginAll (cfg : Config) (s : Sync) : List Row → Sync × List Effect
  | [] => (s, [])
  | row :: rows =>
    let r := beginSync cfg s row
    let rest := beginAll cfg r.1 rows
    (rest.1, r.2 ++ rest.2)

def pollOnce (cfg : Config) (s : Sync) : Sync × List Effect := beginAll cfg s s.table.firstPending

/-- What the event loop can run next: an insertion by another process, a tick of the interval, and the continuation of
the `i`-th suspended coroutine. -/
inductive Input
  | insert (record : Record)
  | poll
  | respond (i : Nat) (result : FetchResult)
  | wake (i : Nat)

def step (cfg : Config) (s : Sync) : Input → Option (Sync × List Effect)
  | .insert record => some ({ s with table := s.table.insert record }, [])
  | .poll => some (pollOnce cfg s)
  | .respond i result =>
    match s.calls[i]? with
    | some ⟨row, .fetching⟩ =>
      some (resumeFetch cfg { s with calls := s.calls.eraseIdx i } row result,
        [.answered row.id (buildMutation row) result])
    | _ => none
  | .wake i =>
    match s.calls[i]? with
    | some ⟨row, .sleeping _⟩ => some (resumeSleep cfg { s with calls := s.calls.eraseIdx i } row)
    | _ => none

def cloudSync (cfg : Config) : Machine Sync Input Effect := ⟨step cfg⟩

end IbarraGateway.CloudSync
