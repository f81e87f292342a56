import IbarraGateway.Lib.Json

/-!
# `HasuraClient`: one batch, three attempts

`insert_telemetry_batch` over what the attempts meet. A reply is what `requests` makes of the answer: an exception, or a
status code with a body, whose text may not be decodable. Not every reply ends in a boolean: the client guards the call and
the reading of the JSON only, not the decoding of the text, and calls `get` on what may be no object
(`insertTelemetryBatch_returns_iff`).
-/

namespace IbarraGateway.GatewayTranslator

/-- What `response.json()` makes of a body: `ValueError`, `RecursionError`, or a value. -/
inductive Body
  | notJson
  | tooDeep
  | json (data : Json)

/-- An exception of `requests.post`, a `RequestException` or not; a response whose `text` raises, as with a charset that
decodes nothing; or a response. -/
inductive Reply
  | requestException
  | otherException
  | unreadable (statusCode : Nat)
  | response (statusCode : Nat) (body : Body)

/-- How an attempt ends: `return True`, `return False`, `continue`, or an exception that nothing catches. -/
inductive Verdict
  | accepted
  | rejected
  | retry
  | raises
  deriving DecidableEq, Repr

namespace HasuraClient

/-- `d.get(key, {})`: no value when `d` is not an object; of members with one name the last counts. -/
def get (d : Json) (key : String) : Option Json :=
  match d with
  | .obj members => some ((members.reverse.lookup key).getD (.obj []))
  | _ => none

/-- The part of an attempt that follows `data = response.json()`. -/
def readData (data : Json) : Verdict :=
  match data with
  | .obj members =>
    match members.reverse.lookup "errors" with
    | some (.arr (first :: _)) => if (get first "message").isSome then .retry else .raises
    | some _ => .retry
    | none =>
      let affected := ((get data "data").bind fun d => get d "insert_norvi_telemetry").bind fun d => get d "affected_rows"
      if affected.isSome then .accepted else .raises
  | _ => .raises

def readBody : Body → Verdict
  | .notJson => .retry
  | .tooDeep => .raises
  | .json data => readData data

/-- `400 <= status_code < 500`. -/
def ClientError : Reply → Prop
  | .unreadable statusCode => 400 ≤ statusCode ∧ statusCode < 500
  | .response statusCode _ => 400 ≤ statusCode ∧ statusCode < 500
  | _ => False

/-- A client error that is found out: the text is read before the status is looked at. -/
def Rejected : Reply → Prop
  | .response statusCode _ => 400 ≤ statusCode ∧ statusCode < 500
  | _ => False

/-- One attempt. `response.ok` is false from 400 to 599. -/
def attempt : Reply → Verdict
  | .requestException => .retry
  | .otherException => .raises
  | .unreadable _ => .raises
  | .response statusCode body =>
    if 400 ≤ statusCode ∧ statusCode < 500 then .rejected
    else if 400 ≤ statusCode ∧ statusCode < 600 then .retry
    else readBody body

/-- `_RETRY_BACKOFFS`. -/
def retryBackoffs : List Nat := [2, 4, 8]

/-- The attempts in order; `none` for an exception. -/
def attempts : List Reply → Option Bool
  | [] => some false
  | reply :: replies =>
    match attempt reply with
    | .accepted => some true
    | .rejected => some false
    | .retry => attempts replies
    | .raises => none

/-- `insert_telemetry_batch`, where the `i`-th attempt meets `replies i`. -/
def insertTelemetryBatch {α : Type} (telemetryList : List α) (replies : Nat → Reply) : Option Bool :=
  if telemetryList = [] then some true else attempts ((List.range retryBackoffs.length).map replies)

/-! ## When a boolean is returned -/

def IsObject (v : Json) : Prop := ∃ members, v = .obj members

/-- The JSON bodies that `insert_telemetry_batch` calls `get` on in vain. -/
inductive BadShape : Json → Prop
  | noObject {data : Json} (h : ¬ IsObject data) : BadShape data
  | firstError {members : List (String × Json)} {first : Json} {rest : List Json}
    (herrors : members.reverse.lookup "errors" = some (.arr (first :: rest))) (h : ¬ IsObject first) :
    BadShape (.obj members)
  | data {members : List (String × Json)} {v : Json} (herrors : members.reverse.lookup "errors" = none)
    (hdata : members.reverse.lookup "data" = some v) (h : ¬ IsObject v) : BadShape (.obj members)
  | insert {members inner : List (String × Json)} {v : Json} (herrors : members.reverse.lookup "errors" = none)
    (hdata : members.reverse.lookup "data" = some (.obj inner))
    (hinsert : inner.reverse.lookup "insert_norvi_telemetry" = some v) (h : ¬ IsObject v) : BadShape (.obj members)

/-- A reply that cannot be dealt with: an exception that is not caught, a text that cannot be decoded, or one that is read
as JSON (`response.ok`) and has no use. -/
inductive BadReply : Reply → Prop
  | otherException : BadReply .otherException
  | unreadable (statusCode : Nat) : BadReply (.unreadable statusCode)
  | tooDeep {statusCode : Nat} (hok : statusCode < 400 ∨ 600 ≤ statusCode) : BadReply (.response statusCode .tooDeep)
  | shape {statusCode : Nat} {data : Json} (hok : statusCode < 400 ∨ 600 ≤ statusCode) (h : BadShape data) :
    BadReply (.response statusCode (.json data))

theorem get_eq_none_iff (d : Json) (key : String) : get d key = none ↔ ¬ IsObject d := by
  cases d <;> simp [get, IsObject]

theorem not_isObject_getD (v : Option Json) : ¬ IsObject (v.getD (.obj [])) ↔ ∃ d, v = some d ∧ ¬ IsObject d := by
  cases v with
  | none => simp [IsObject]
  | some d => simp

theorem readData_of_errors {members : List (String × Json)} {errors : Json}
    (h : members.reverse.lookup "errors" = some errors) :
    readData (.obj members) = .raises ↔ ∃ first rest, errors = .arr (first :: rest) ∧ ¬ IsObject first := by
  simp only [readData, h]
  split
  · rename_i first rest heq
    cases heq
    cases hget : get first "message" with
    | none => simpa using (get_eq_none_iff first "message").mp hget
    | some message =>
      have hobj : IsObject first := by
        by_contra hno
        rw [(get_eq_none_iff first "message").mpr hno] at hget
        cases hget
      simp [hobj]
  · rename_i hne heq
    cases heq
    simp only [reduceCtorEq, false_iff]
    rintro ⟨first, rest, rfl, -⟩
    exact hne first rest rfl
  · rename_i heq
    cases heq

/-- A response without errors is read down to the number of rows. -/
theorem readData_of_no_errors {members : List (String × Json)} (h : members.reverse.lookup "errors" = none) :
    readData (.obj members) = .raises ↔
      (∃ v, members.reverse.lookup "data" = some v ∧ ¬ IsObject v) ∨
        ∃ inner v, members.reverse.lookup "data" = some (.obj inner) ∧
          inner.reverse.lookup "insert_norvi_telemetry" = some v ∧ ¬ IsObject v := by
  have hverdict (affected : Option Json) :
      (if affected.isSome then Verdict.accepted else Verdict.raises) = .raises ↔ affected = none := by
    cases affected <;> simp
  have hread : readData (.obj members) = .raises ↔
      (get ((members.reverse.lookup "data").getD (.obj [])) "insert_norvi_telemetry").bind
        (fun d => get d "affected_rows") = none := by
    simp only [readData, h]
    exact hverdict _
  rw [hread]
  cases hdata : members.reverse.lookup "data" with
  | none => simp [get]
  | some v =>
    rw [Option.getD_some]
    by_cases hobj : IsObject v
    · obtain ⟨inner, rfl⟩ := hobj
      have hinsert := not_isObject_getD (inner.reverse.lookup "insert_norvi_telemetry")
      rw [← get_eq_none_iff _ "affected_rows"] at hinsert
      rw [get, Option.bind_some, hinsert]
      constructor
      · rintro ⟨d, hd, hno⟩
        exact Or.inr ⟨inner, d, rfl, hd, hno⟩
      · rintro (⟨w, hw, hno⟩ | ⟨inner', d, hw, hd, hno⟩)
        · cases hw
          exact absurd ⟨inner, rfl⟩ hno
        · cases hw
          exact ⟨d, hd, hno⟩
    · rw [(get_eq_none_iff v _).mpr hobj]
      exact ⟨fun _ => Or.inl ⟨v, rfl, hobj⟩, fun _ => rfl⟩

theorem readData_raises_iff (data : Json) : readData data = .raises ↔ BadShape data := by
  by_cases hobj : IsObject data
  · obtain ⟨members, rfl⟩ := hobj
    cases herrors : members.reverse.lookup "errors" with
    | some errors =>
      rw [readData_of_errors herrors]
      constructor
      · rintro ⟨first, rest, rfl, hfirst⟩
        exact .firstError herrors hfirst
      · intro h
        cases h with
        | noObject hno => exact absurd ⟨members, rfl⟩ hno
        | firstError herrors' hfirst => exact ⟨_, _, Option.some.inj (herrors.symm.trans herrors'), hfirst⟩
        | data herrors' => cases herrors.symm.trans herrors'
        | insert herrors' => cases herrors.symm.trans herrors'
    | none =>
      rw [readData_of_no_errors herrors]
      constructor
      · rintro (⟨v, hdata, hno⟩ | ⟨inner, v, hdata, hinsert, hno⟩)
        · exact .data herrors hdata hno
        · exact .insert herrors hdata hinsert hno
      · intro h
        cases h with
        | noObject hno => exact absurd ⟨members, rfl⟩ hno
        | firstError herrors' => cases herrors.symm.trans herrors'
        | data _ hdata hno => exact Or.inl ⟨_, hdata, hno⟩
        | insert _ hdata hinsert hno => exact Or.inr ⟨_, _, hdata, hinsert, hno⟩
  · have hraises : readData data = .raises := by
      cases data with
      | obj members => exact absurd ⟨members, rfl⟩ hobj
      | _ => rfl
    exact ⟨fun _ => .noObject hobj, fun _ => hraises⟩

theorem attempt_raises_iff (reply : Reply) : attempt reply = .raises ↔ BadReply reply := by
  cases reply with
  | requestException => exact ⟨nofun, nofun⟩
  | otherException => exact ⟨fun _ => .otherException, fun _ => rfl⟩
  | unreadable statusCode => exact ⟨fun _ => .unreadable statusCode, fun _ => rfl⟩
  | response statusCode body =>
    rw [attempt]
    split
    · rename_i hclient
      refine ⟨nofun, fun h => ?_⟩
      cases h <;> omega
    split
    · rename_i hserver
      refine ⟨nofun, fun h => ?_⟩
      cases h <;> omega
    have hok : statusCode < 400 ∨ 600 ≤ statusCode := by omega
    cases body with
    | notJson => exact ⟨nofun, nofun⟩
    | tooDeep => exact ⟨fun _ => .tooDeep hok, fun _ => rfl⟩
    | json data =>
      rw [readBody, readData_raises_iff]
      refine ⟨fun h => .shape hok h, fun h => ?_⟩
      cases h with
      | shape _ hshape => exact hshape

theorem readData_ne_rejected (data : Json) : readData data ≠ .rejected := by
  unfold readData
  split
  · split
    · split <;> exact nofun
    · exact nofun
    · dsimp only
      split <;> exact nofun
  · exact nofun

theorem attempt_rejected_iff (reply : Reply) : attempt reply = .rejected ↔ Rejected reply := by
  cases reply with
  | requestException => exact ⟨nofun, nofun⟩
  | otherException => exact ⟨nofun, nofun⟩
  | unreadable statusCode => exact ⟨nofun, nofun⟩
  | response statusCode body =>
    rw [attempt, Rejected]
    split
    · rename_i hclient
      exact ⟨fun _ => hclient, fun _ => rfl⟩
    rename_i hclient
    refine ⟨fun h => ?_, fun h => absurd h hclient⟩
    split at h
    · cases h
    · cases body with
      | json data => exact absurd h (readData_ne_rejected data)
      | _ => cases h

theorem Rejected.clientError {reply : Reply} (h : Rejected reply) : ClientError reply := by
  cases reply with
  | response statusCode body => exact h
  | _ => cases h

/-- A client error is rejected, or ends the process. -/
theorem attempt_of_clientError {reply : Reply} (h : ClientError reply) :
    attempt reply = .rejected ∨ attempt reply = .raises := by
  cases reply with
  | requestException => cases h
  | otherException => cases h
  | unreadable statusCode => exact .inr rfl
  | response statusCode body => exact .inl ((attempt_rejected_iff _).mpr h)

/-- The attempts end in an exception at the first that raises, when all before it were retried. -/
theorem attempts_eq_none_iff (replies : List Reply) :
    attempts replies = none ↔
      ∃ i : Nat, (∀ j < i, replies[j]?.map attempt = some .retry) ∧ replies[i]?.map attempt = some .raises := by
  induction replies with
  | nil => simp [attempts]
  | cons first rest ih =>
    have hfirst : (∃ i : Nat, (∀ j < i, (first :: rest)[j]?.map attempt = some .retry) ∧
        (first :: rest)[i]?.map attempt = some .raises) ↔
        attempt first = .raises ∨ attempt first = .retry ∧
          ∃ i : Nat, (∀ j < i, rest[j]?.map attempt = some .retry) ∧ rest[i]?.map attempt = some .raises := by
      constructor
      · rintro ⟨i, hbefore, hraises⟩
        cases i with
        | zero => exact Or.inl (by simpa using hraises)
        | succ i =>
          refine Or.inr ⟨by simpa using hbefore 0 (by omega), i, fun j hj => ?_, by simpa using hraises⟩
          simpa using hbefore (j + 1) (by omega)
      · rintro (hraises | ⟨hretry, i, hbefore, hraises⟩)
        · exact ⟨0, fun j hj => by omega, by simpa using hraises⟩
        · refine ⟨i + 1, fun j hj => ?_, by simpa using hraises⟩
          cases j with
          | zero => simpa using hretry
          | succ j => simpa using hbefore j (by omega)
    rw [hfirst, attempts, ← ih]
    cases attempt first <;> simp

/-- A boolean is returned unless an attempt that is made meets a bad reply. -/
theorem insertTelemetryBatch_returns_iff {α : Type} {telemetryList : List α} (hne : telemetryList ≠ [])
    (replies : Nat → Reply) :
    (insertTelemetryBatch telemetryList replies).isSome = true ↔
      ∀ i < retryBackoffs.length, (∀ j < i, attempt (replies j) = .retry) → ¬ BadReply (replies i) := by
  have hreply (i : Nat) (v : Verdict) (hi : i < retryBackoffs.length) :
      ((List.range retryBackoffs.length).map replies)[i]?.map attempt = some v ↔ attempt (replies i) = v := by
    rw [List.getElem?_map, List.getElem?_range hi]
    simp
  rw [insertTelemetryBatch, if_neg hne, ← not_iff_not, Bool.not_eq_true, Option.isSome_eq_false_iff,
    Option.isNone_iff_eq_none, attempts_eq_none_iff]
  push Not
  constructor
  · rintro ⟨i, hbefore, hraises⟩
    have hi : i < retryBackoffs.length := by
      by_contra hlarge
      rw [List.getElem?_eq_none (by simpa using hlarge)] at hraises
      cases hraises
    refine ⟨i, hi, fun j hj => (hreply j _ (by omega)).mp (hbefore j hj), ?_⟩
    rw [← attempt_raises_iff]
    exact (hreply i _ hi).mp hraises
  · rintro ⟨i, hi, hbefore, hbad⟩
    rw [← attempt_raises_iff] at hbad
    exact ⟨i, fun j hj => (hreply j _ (by omega)).mpr (hbefore j hj), (hreply i _ hi).mpr hbad⟩

end HasuraClient
end IbarraGateway.GatewayTranslator
