import IbarraGateway.EdgeWorker.EdgeWorker
import IbarraGateway.GemaVision.ResultTokens

/-!
# Results of the inference at the edge worker

The texts of a result stand between quotes as they are, and the payload has no member `node_health` of its own. So a result is
stored exactly when its texts bring the member with them.

* `stored_iff` : when a result is stored as a pending row; never without a quote in its texts (`not_stored_of_no_quote`).
* `discarded` : the result without a detection.
-/

namespace IbarraGateway.EdgeWorker
open CloudSync (TelemetryBuffer)
open GemaVision (InferenceResult inferenceTopic countTokens listOpen resultTokens resultValue result_value parse_payload)
open JsonText (Value Token units stringTokens)

/-! ## What is stated -/

/-- The byte of a double quote. -/
def quote : UInt8 := 0x22

/-- Some text has a quote in it, and the tokens of the texts make the payload an object with a `node_health` that is neither
empty nor zero, and that is not nested too deeply. -/
def BringsHealth (p : Platform) (r : InferenceResult) : Prop :=
  (∃ text ∈ r.texts, quote ∈ text) ∧
    ∃ ts v health, resultTokens r = some ts ∧ JsonText.parse ts = some v ∧ v.get nodeHealthKey = some health ∧
      truthy health = true ∧ bindable health = true ∧ (p.stringify v).isSome = true

/-- The worker validates the payload, and one pending row is new in the table. -/
def Stored (p : Platform) (now : String) (t : TelemetryBuffer) (r : InferenceResult) : Prop :=
  ∃ record t' row logs, validate p inferenceTopic r.serializeToJson = .ok (some record, []) ∧
    receive p ⟨now, none⟩ inferenceTopic r.serializeToJson t = .ok (t', logs) ∧ t'.rows = t.rows ++ [row] ∧
    row.syncStatus = .pending ∧ row.retryCount = 0 ∧ row.topic = inferenceTopic ∧ row.payload = record.payload

/-! ## The contract -/

theorem get_resultValue (r : InferenceResult) (timestamp : JsonText.Units) (primitives : List Value) :
    (resultValue r timestamp primitives).get nodeHealthKey = none := rfl

/-- A payload with a `node_health` has it from a text with a quote. -/
theorem exists_quote {r : InferenceResult} {ts : List Token} {v health : Value} (hts : resultTokens r = some ts)
    (hv : JsonText.parse ts = some v) (hhealth : v.get nodeHealthKey = some health) :
    ∃ text ∈ r.texts, quote ∈ text := by
  by_contra hnone
  have hquote : ∀ text ∈ r.texts, '"' ∉ Utf8.decode text := fun text htext hmem =>
    hnone ⟨text, htext, Utf8.mem_of_mem_decode (by decide) (by decide) hmem⟩
  obtain ⟨timestamp, primitives, rfl⟩ := result_value hquote hts
  rw [JsonText.parse_tokens] at hv
  cases hv
  rw [get_resultValue] at hhealth
  cases hhealth

variable {p : Platform} {topic : String} {raw : List UInt8}

theorem receive_of_validate {record : Record} (now : String) (t : TelemetryBuffer)
    (h : validate p inferenceTopic raw = .ok (some record, [])) : receive p ⟨now, none⟩ inferenceTopic raw t =
      match bindText p record.nodeHealth with
      | some health => .ok (t.insert ⟨record.topic, record.payload, health, now⟩, [.inserted inferenceTopic record.nodeHealth])
      | none => .ok (t, [.insertFailed bindError]) := by
  have htopic : topicMatches topicPrefix inferenceTopic = true := by decide
  rw [receive, if_pos htopic]
  exact handleMessage_of_validate now t h

theorem Stored.brings {now : String} {t : TelemetryBuffer} {r : InferenceResult} (h : Stored p now t r) :
    BringsHealth p r := by
  obtain ⟨record, t', row, logs, hvalidate, hreceive, hrows, -⟩ := h
  obtain ⟨v, hparsed, hhealth, htruthy, -, hpayload⟩ := validate_iff.mp hvalidate
  rw [parse_payload] at hparsed
  obtain ⟨ts, hts, hv⟩ := Option.bind_eq_some_iff.mp hparsed
  refine ⟨exists_quote hts hv hhealth, ts, v, record.nodeHealth, hts, hv, hhealth, htruthy, ?_, by rw [hpayload]; rfl⟩
  apply bindText_iff.mp
  rw [receive_of_validate _ _ hvalidate] at hreceive
  cases hbind : bindText p record.nodeHealth with
  | some text => exact ⟨text, rfl⟩
  | none =>
    rw [hbind] at hreceive
    cases hreceive
    exact absurd (congrArg List.length hrows) (by rw [List.length_append]; exact Nat.ne_of_lt (Nat.lt_succ_self _))

/-- So a result whose texts have no quotes is never stored. -/
theorem not_stored_of_no_quote {now : String} {t : TelemetryBuffer} {r : InferenceResult} (h : ∀ text ∈ r.texts, quote ∉ text) :
    ¬Stored p now t r := by
  intro hstored
  obtain ⟨⟨text, htext, hquote⟩, -⟩ := hstored.brings
  exact h text htext hquote

/-- A result is stored exactly when its texts bring a `node_health` with them, and no more than can be printed. -/
theorem stored_iff (p : Platform) (now : String) (t : TelemetryBuffer) (r : InferenceResult) :
    Stored p now t r ↔ BringsHealth p r := by
  constructor
  · exact Stored.brings
  · rintro ⟨-, ts, v, health, hts, hv, hhealth, htruthy, hbindable, hprinted⟩
    obtain ⟨payload, hpayload⟩ := Option.isSome_iff_exists.mp hprinted
    obtain ⟨text, hbind⟩ := bindText_iff.mpr hbindable
    have hparsed : JsonText.parseText (Utf8.decode r.serializeToJson) = some v := by
      rw [parse_payload, hts]
      exact hv
    have hvalidate : validate p inferenceTopic r.serializeToJson = .ok (some ⟨inferenceTopic, payload, health⟩, []) :=
      validate_iff.mpr ⟨v, hparsed, hhealth, htruthy, rfl, hpayload⟩
    have hreceive := receive_of_validate now t hvalidate
    rw [hbind] at hreceive
    exact ⟨_, _, _, _, hvalidate, hreceive, rfl, rfl, rfl, rfl, rfl⟩

/-- A timestamp that ends its string and goes on with members of its own. -/
def injected : InferenceResult where
  captureTimestamp := Utf8.ascii "\",\"node_health\":\"ok\",\"x\":\"".toList
  primitives := []

def injectedTokens : List Token :=
  [.str [], .comma, .str nodeHealthKey, .colon, .str (units "ok".toList), .comma, .str (units "x".toList), .colon, .str []]

example (p : Platform) : BringsHealth p injected := by
  have htext : stringTokens (Utf8.decode injected.captureTimestamp) = some injectedTokens := rfl
  have htokens : resultTokens injected = some (countTokens injected ++ (injectedTokens ++ listOpen ++ [.rbracket, .rbrace])) := by
    unfold resultTokens
    rw [htext]
    rfl
  exact ⟨⟨_, List.mem_cons_self, List.mem_cons_self⟩, _, _, .str (units "ok".toList), htokens, rfl, rfl, rfl, rfl,
    p.shallow _ (by decide)⟩

/-- A frame without a detection. -/
def emptyResult : InferenceResult where
  captureTimestamp := Utf8.ascii "2026-01-01T00:00:00Z".toList
  primitives := []

/-- Its payload has no `node_health`, and no row is stored. -/
theorem discarded : ¬Stored okPlatform "2026-01-01 00:00:00" ⟨[], List.Pairwise.nil⟩ emptyResult := by
  apply not_stored_of_no_quote
  intro text htext
  rw [List.mem_singleton.mp htext]
  decide

end IbarraGateway.EdgeWorker
