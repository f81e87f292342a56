import IbarraGateway.GemaVision.ResultTokens
import IbarraGateway.Lib.JsonReading
import Mathlib.Algebra.Order.BigOperators.Group.List

/-!
# What a published result is read as

`serialize_to_json` sees to coordinates that are not finite; confidences and texts it puts down as they are.

* `Recovers`, `DecodesBack` : what a reader of JSON finds in a payload that is right.
* `parse_clean` : a payload whose confidences are finite and whose texts stand for themselves.
* `exists_longer` : another text would have to come out of a longer one.
* `decodesBack_iff` : so the payloads that decode back are these.
-/

namespace IbarraGateway.GemaVision

open JsonText (Value Plain units stringTokens)

/-! ## What is stated -/

/-- An object that gives the primitive back: what is finite as it was printed. -/
structure Recovers (p : VisualPrimitive) (v : Value) : Prop where
  classId : v.get (units "class_id".toList) = some (.num p.classId)
  bbox : v.get (units "bbox".toList) = some (.arr [.num p.bbox.x, .num p.bbox.y, .num p.bbox.width, .num p.bbox.height])
  confidence : p.confidence.isFinite = true → v.get (units "confidence".toList) = some (.num p.confidence.printed)
  coords : ∃ x y, v.get (units "physical_coords_mm".toList) = some (.arr [.num x, .num y]) ∧
    (p.physicalX.isFinite = true → x = p.physicalX.printed) ∧ (p.physicalY.isFinite = true → y = p.physicalY.printed)
  hasPhysicalCoords : v.get (units "has_physical_coords".toList) = some (.bool p.hasPhysicalCoords)
  ocrText : v.get (units "ocr_text".toList) = some (.str (units (Utf8.decode p.ocrText)))
  colorPass : v.get (units "color_pass".toList) = some (.bool p.colorPass)

/-- The payload is one object, with the counts and the primitives of the result. -/
def DecodesBack (r : InferenceResult) : Prop :=
  ∃ members items, JsonText.parseText (Utf8.decode r.serializeToJson) = some (.obj members) ∧
    (Value.obj members).get (units "primitive_count".toList) = some (.num r.primitiveCount) ∧
    (Value.obj members).get (units "defect_count".toList) = some (.num r.defectCount) ∧
    (Value.obj members).get (units "ocr_count".toList) = some (.num r.ocrCount) ∧
    (Value.obj members).get (units "color_count".toList) = some (.num r.colorCount) ∧
    (Value.obj members).get (units "primitives".toList) = some (.arr items) ∧ List.Forall₂ Recovers r.primitives items

/-- A finite confidence, and a text without quotes, backslashes and control characters. -/
def VisualPrimitive.Clean (p : VisualPrimitive) : Prop := p.confidence.isFinite = true ∧ ∀ c ∈ Utf8.decode p.ocrText, Plain c

instance (p : VisualPrimitive) : Decidable p.Clean := inferInstanceAs (Decidable (_ ∧ _))

/-! ## The timestamp -/

/-- A broken-down time, with the year and the month as they are printed. -/
structure Tm where
  year : Int
  mon : Nat
  mday : Nat
  hour : Nat
  min : Nat
  sec : Nat

/-- Two digits or more. -/
def padded (n : Nat) : List Char := Numeral.exponentDigits n

def timestampText (t : Tm) : List Char :=
  intText t.year ++ '-' :: (padded t.mon ++ '-' :: (padded t.mday ++ 'T' :: (padded t.hour ++ ':' :: (padded t.min ++ ':' ::
    (padded t.sec ++ ['Z'])))))

/-- `current_timestamp_iso8601`, which fills the timestamp of every result. -/
def currentTimestampIso8601 (t : Tm) : List UInt8 := Utf8.ascii (timestampText t)

theorem plain_digit {c : Char} (hc : c.isDigit = true) : Plain c ∧ c.toNat < 0x80 := by
  have hall : ∀ k < 10, Plain (Char.ofNat (48 + k)) := by decide
  simp only [Char.isDigit, Bool.and_eq_true, decide_eq_true_eq] at hc
  have hrange : 48 ≤ c.toNat ∧ c.toNat ≤ 57 := hc
  have hplain := hall (c.toNat - 48) (by omega)
  rw [Nat.add_sub_cancel' hrange.1, Char.ofNat_toNat] at hplain
  exact ⟨hplain, by omega⟩

/-- The timestamp of a result needs no escapes. -/
theorem plain_timestamp (t : Tm) : ∀ c ∈ Utf8.decode (currentTimestampIso8601 t), Plain c := by
  have hyear : ∀ c ∈ intText t.year, Plain c ∧ c.toNat < 0x80 := by
    intro c hc
    rcases (Numeral.ofInt t.year).mem_text c hc with hdigit | hsymbol
    · exact plain_digit hdigit
    · have hall : ['-', '+', '.', 'e'].all (fun c => decide (Plain c ∧ c.toNat < 0x80)) = true := by decide
      exact of_decide_eq_true (List.all_eq_true.mp hall c hsymbol)
  have hpadded : ∀ n, ∀ c ∈ padded n, Plain c ∧ c.toNat < 0x80 :=
    fun n c hc => plain_digit (Numeral.digits_exponentDigits n c hc)
  have hall : ∀ c ∈ timestampText t, Plain c ∧ c.toNat < 0x80 := by
    simp only [timestampText, List.forall_mem_append, List.forall_mem_cons]
    exact ⟨hyear, by decide, hpadded _, by decide, hpadded _, by decide, hpadded _, by decide, hpadded _, by decide, hpadded _,
      by decide, by simp⟩
  have hascii : Utf8.IsAscii (timestampText t) := List.all_eq_true.mpr fun c hc => decide_eq_true (hall c hc).2
  have hdecode := Utf8.decode_ascii hascii []
  rw [List.append_nil] at hdecode
  rw [currentTimestampIso8601, hdecode]
  intro c hc
  rw [show Utf8.decode [] = [] from rfl, List.append_nil] at hc
  exact (hall c hc).1

/-! ## Clean results -/

def recovered (p : VisualPrimitive) : Value := primitiveValue p (units (Utf8.decode p.ocrText))

theorem recovers_recovered (p : VisualPrimitive) : Recovers p (recovered p) where
  classId := by
    rw [← intValue_eq]
    rfl
  bbox := by
    simp only [← intValue_eq]
    rfl
  confidence _ := rfl
  coords := by
    refine ⟨_, _, rfl, fun h => ?_, fun h => ?_⟩
    · rw [orMinusOne, if_pos h]
    · rw [orMinusOne, if_pos h]
  hasPhysicalCoords := rfl
  ocrText := rfl
  colorPass := rfl

theorem primitiveTokens_clean {p : VisualPrimitive} (h : p.Clean) : primitiveTokens p = some (JsonText.tokens (recovered p)) := by
  rw [primitiveTokens, if_pos h.1, JsonText.stringTokens_plain h.2]
  rfl

theorem listTokens_clean {p : VisualPrimitive} {ps : List VisualPrimitive} (h : ∀ q ∈ p :: ps, q.Clean) :
    ∃ ts, listTokens (p :: ps) = some ts ∧
      ts ++ [.rbracket] = JsonText.tokens (recovered p) ++ JsonText.itemTokens (ps.map recovered) := by
  induction ps generalizing p with
  | nil => exact ⟨_, primitiveTokens_clean (h p List.mem_cons_self), rfl⟩
  | cons q ps ih =>
    obtain ⟨ts, hts, heq⟩ := ih fun q' hq' => h q' (List.mem_cons_of_mem _ hq')
    refine ⟨JsonText.tokens (recovered p) ++ .comma :: ts, ?_, ?_⟩
    · rw [listTokens, primitiveTokens_clean (h p List.mem_cons_self), hts]
      rfl
    · rw [List.append_assoc, List.cons_append, heq]
      rfl

theorem resultTokens_clean {r : InferenceResult} (htimestamp : ∀ c ∈ Utf8.decode r.captureTimestamp, Plain c)
    (h : ∀ p ∈ r.primitives, p.Clean) : resultTokens r =
      some (JsonText.tokens (resultValue r (units (Utf8.decode r.captureTimestamp)) (r.primitives.map recovered))) := by
  have hitems : ∃ ts, listTokens r.primitives = some ts ∧
      .lbracket :: (ts ++ [.rbracket]) = JsonText.tokens (.arr (r.primitives.map recovered)) := by
    cases hps : r.primitives with
    | nil => exact ⟨[], rfl, rfl⟩
    | cons p ps =>
      rw [hps] at h
      obtain ⟨ts, hts, heq⟩ := listTokens_clean h
      exact ⟨ts, hts, congrArg (.lbracket :: ·) heq⟩
  obtain ⟨ts, hts, heq⟩ := hitems
  rw [resultTokens, JsonText.stringTokens_plain htimestamp, hts, Option.bind_some, Option.map_some]
  exact congrArg some (tokens_resultValue r _ heq)

theorem parse_clean {r : InferenceResult} (htimestamp : ∀ c ∈ Utf8.decode r.captureTimestamp, Plain c)
    (h : ∀ p ∈ r.primitives, p.Clean) : JsonText.parseText (Utf8.decode r.serializeToJson) =
      some (resultValue r (units (Utf8.decode r.captureTimestamp)) (r.primitives.map recovered)) := by
  rw [parse_payload, resultTokens_clean htimestamp h, Option.bind_some, JsonText.parse_tokens]

theorem decodesBack_of_clean {r : InferenceResult} (htimestamp : ∀ c ∈ Utf8.decode r.captureTimestamp, Plain c)
    (h : ∀ p ∈ r.primitives, p.Clean) : DecodesBack r := by
  have hitems : List.Forall₂ Recovers r.primitives (r.primitives.map recovered) := by
    rw [List.forall₂_map_right_iff, List.forall₂_same]
    exact fun p _ => recovers_recovered p
  refine ⟨_, _, parse_clean htimestamp h, ?_, ?_, ?_, ?_, rfl, hitems⟩
  · have hcast : ((r.primitiveCount : Int) : ℚ) = r.primitiveCount := Int.cast_natCast _
    rw [← hcast, ← intValue_eq]
    rfl
  all_goals
    rw [← intValue_eq]
    rfl

/-! ## Where a string comes from -/

theorem mem_listTokens {ps : List VisualPrimitive} {ts : List JsonText.Token} (h : listTokens ps = some ts)
    {t : JsonText.Token} (ht : t ∈ ts) : t = .comma ∨ ∃ p ∈ ps, ∃ us, primitiveTokens p = some us ∧ t ∈ us := by
  fun_induction listTokens ps generalizing ts with
  | case1 =>
    cases h
    cases ht
  | case2 p => exact .inr ⟨p, List.mem_cons_self, ts, h, ht⟩
  | case3 p q ps ih =>
    obtain ⟨us, hus, hrest⟩ := Option.bind_eq_some_iff.mp h
    obtain ⟨us', hus', rfl⟩ := Option.map_eq_some_iff.mp hrest
    rcases List.mem_append.mp ht with hfirst | hlater
    · exact .inr ⟨p, List.mem_cons_self, us, hus, hfirst⟩
    rcases List.mem_cons.mp hlater with rfl | hlater
    · exact .inl rfl
    · exact (ih hus' hlater).imp_right fun ⟨p', hp', hrest⟩ => ⟨p', List.mem_cons_of_mem _ hp', hrest⟩

theorem isFinite_of_primitiveTokens {p : VisualPrimitive} {ts : List JsonText.Token} (h : primitiveTokens p = some ts) :
    p.confidence.isFinite = true := by
  unfold primitiveTokens at h
  split at h
  · assumption
  · cases h

/-- The confidences of a payload that is read are finite. -/
theorem isFinite_of_listTokens {ps : List VisualPrimitive} {ts : List JsonText.Token} (h : listTokens ps = some ts) :
    ∀ p ∈ ps, p.confidence.isFinite = true := by
  fun_induction listTokens ps generalizing ts with
  | case1 => exact fun p hp => absurd hp List.not_mem_nil
  | case2 p => exact List.forall_mem_singleton.mpr (isFinite_of_primitiveTokens h)
  | case3 p q ps ih =>
    obtain ⟨us, hus, hrest⟩ := Option.bind_eq_some_iff.mp h
    obtain ⟨us', hus', -⟩ := Option.map_eq_some_iff.mp hrest
    exact List.forall_mem_cons.mpr ⟨isFinite_of_primitiveTokens hus, ih hus'⟩

/-- The keys are plain. -/
theorem isPlain_fieldTokens (p : VisualPrimitive) : (fieldTokens p).all JsonText.Token.isPlain = true := rfl

theorem isPlain_countTokens (r : InferenceResult) : (countTokens r).all JsonText.Token.isPlain = true := rfl

section Longer
variable {r : InferenceResult} {ts : List JsonText.Token} {text : List Char}

theorem not_mem_of_isPlain {us : List JsonText.Token} (h : us.all JsonText.Token.isPlain = true) (hnot : ¬∀ c ∈ text, Plain c) :
    .str (units text) ∉ us := fun hmem => hnot (JsonText.plain_of_units (List.all_eq_true.mp h _ hmem))

/-- Between the quotes of a text, another text that needs escapes comes out of a longer one only. -/
theorem length_lt_of_mem {other : List Char} (hts : stringTokens other = some ts) (hnot : ¬∀ c ∈ text, Plain c)
    (hmem : .str (units text) ∈ ts) : (¬∀ c ∈ other, Plain c) ∧ (units text).length < (units other).length := by
  by_cases hplain : ∀ c ∈ other, Plain c
  · rw [JsonText.stringTokens_plain hplain] at hts
    cases hts
    have heq : units text = units other := JsonText.Token.str.inj (List.mem_singleton.mp hmem)
    exact absurd (JsonText.units_inj heq ▸ hplain) hnot
  · exact ⟨hplain, JsonText.length_lt_of_not_plain hplain hts hmem⟩

/-- A text that needs escapes is a string of the payload only when some primitive has a longer such text. -/
theorem exists_longer (htimestamp : ∀ c ∈ Utf8.decode r.captureTimestamp, Plain c) (hts : resultTokens r = some ts)
    (hnot : ¬∀ c ∈ text, Plain c) (hmem : .str (units text) ∈ ts) :
    ∃ p ∈ r.primitives, (¬∀ c ∈ Utf8.decode p.ocrText, Plain c) ∧
      (units text).length < (units (Utf8.decode p.ocrText)).length := by
  obtain ⟨timestamp, hstamp, hrest⟩ := Option.bind_eq_some_iff.mp hts
  obtain ⟨primitives, hlist, rfl⟩ := Option.map_eq_some_iff.mp hrest
  simp only [List.mem_append] at hmem
  rcases hmem with hcount | (hstring | hopen) | hitem | hend
  · exact absurd hcount (not_mem_of_isPlain (isPlain_countTokens r) hnot)
  · exact absurd htimestamp (length_lt_of_mem hstamp hnot hstring).1
  · exact absurd hopen (not_mem_of_isPlain rfl hnot)
  · rcases mem_listTokens hlist hitem with hcomma | ⟨p, hp, us, hus, hmem⟩
    · cases hcomma
    · unfold primitiveTokens at hus
      split at hus
      · obtain ⟨strings, hstrings, rfl⟩ := Option.map_eq_some_iff.mp hus
        simp only [List.mem_append] at hmem
        rcases hmem with hfield | hstring | hlast
        · exact absurd hfield (not_mem_of_isPlain (isPlain_fieldTokens p) hnot)
        · exact ⟨p, hp, length_lt_of_mem hstrings hnot hstring⟩
        · exact absurd hlast (not_mem_of_isPlain rfl hnot)
      · cases hus
  · exact absurd hend (not_mem_of_isPlain rfl hnot)

end Longer

/-! ## The payloads that decode back -/

theorem mem_of_forall₂ {α β : Type} {R : α → β → Prop} {l : List α} {l' : List β} (h : List.Forall₂ R l l') :
    ∀ a ∈ l, ∃ b ∈ l', R a b := by
  induction h with
  | nil => nofun
  | cons hab _ ih =>
    refine List.forall_mem_cons.mpr ⟨⟨_, List.mem_cons_self, hab⟩, fun a ha => ?_⟩
    obtain ⟨b, hb, hR⟩ := ih a ha
    exact ⟨b, List.mem_cons_of_mem _ hb, hR⟩

/-- For a timestamp such as the consumer fills in: the payload decodes back exactly when every confidence is finite and every
text stands for itself between quotes. -/
theorem decodesBack_iff {r : InferenceResult} (htimestamp : ∀ c ∈ Utf8.decode r.captureTimestamp, Plain c) :
    DecodesBack r ↔ ∀ p ∈ r.primitives, p.Clean := by
  constructor
  · rintro ⟨members, items, hparse, -, -, -, -, hget, hitems⟩
    rw [parse_payload] at hparse
    obtain ⟨ts, hts, hvalue⟩ := Option.bind_eq_some_iff.mp hparse
    rw [JsonText.parse_eq_some_iff] at hvalue
    have hstring : ∀ p ∈ r.primitives, .str (units (Utf8.decode p.ocrText)) ∈ ts := by
      intro p hp
      obtain ⟨item, hitem, hrecovers⟩ := mem_of_forall₂ hitems p hp
      rw [hvalue]
      refine JsonText.mem_tokens_get hget (JsonText.mem_tokens_item hitem ?_)
      exact JsonText.mem_tokens_get hrecovers.ocrText (List.mem_singleton_self _)
    -- one text that needs escapes would lead to another, longer one, and so on
    have hgrow : ∀ n, ∀ p ∈ r.primitives, (¬∀ c ∈ Utf8.decode p.ocrText, Plain c) →
        ∃ q ∈ r.primitives, (¬∀ c ∈ Utf8.decode q.ocrText, Plain c) ∧ n ≤ (units (Utf8.decode q.ocrText)).length := by
      intro n p hp hnot
      induction n with
      | zero => exact ⟨p, hp, hnot, Nat.zero_le _⟩
      | succ n ih =>
        obtain ⟨q, hq, hnotq, hle⟩ := ih
        obtain ⟨q', hq', hnotq', hlt⟩ := exists_longer htimestamp hts hnotq (hstring q hq)
        exact ⟨q', hq', hnotq', Nat.lt_of_le_of_lt hle hlt⟩
    obtain ⟨timestamp, -, hrest⟩ := Option.bind_eq_some_iff.mp hts
    obtain ⟨primitives, hlist, -⟩ := Option.map_eq_some_iff.mp hrest
    refine fun p hp => ⟨isFinite_of_listTokens hlist p hp, ?_⟩
    by_contra hnot
    obtain ⟨q, hq, -, hle⟩ := hgrow ((r.primitives.map fun p => (units (Utf8.decode p.ocrText)).length).sum + 1) p hp hnot
    have hsum := List.le_sum_of_mem (List.mem_map_of_mem (f := fun p => (units (Utf8.decode p.ocrText)).length) hq)
    omega
  · exact decodesBack_of_clean htimestamp

/-- A frame with one primitive. -/
def oneShown (confidence : FloatValue) (ocrText : String) : InferenceResult where
  primitiveCount := 1
  ocrCount := 1
  captureTimestamp := Utf8.ascii "2026-01-01T00:00:00Z".toList
  primitives := [{ bbox := ⟨0, 0, 8, 4⟩, confidence, classId := 1, ocrText := Utf8.ascii ocrText.toList }]

theorem decodesBack_shown : DecodesBack (oneShown (.finite false 3 (-2)) "1AB23") :=
  (decodesBack_iff (JsonText.plain_of_all (by decide))).mpr
    (List.forall_mem_singleton.mpr ⟨rfl, JsonText.plain_of_all (by decide)⟩)

/-- A confidence that is not a number, or a text with a quote: the payload is no JSON. -/
theorem shown_unreadable :
    JsonText.parseText (Utf8.decode (oneShown (.nan false) "1AB23").serializeToJson) = none ∧
    JsonText.parseText (Utf8.decode (oneShown (.finite false 3 (-2)) "1\"2").serializeToJson) = none ∧
    ¬DecodesBack (oneShown (.nan false) "1AB23") ∧ ¬DecodesBack (oneShown (.finite false 3 (-2)) "1\"2") := by
  have hnan : JsonText.parseText (Utf8.decode (oneShown (.nan false) "1AB23").serializeToJson) = none := by
    rw [parse_payload]
    rfl
  have hquote : JsonText.parseText (Utf8.decode (oneShown (.finite false 3 (-2)) "1\"2").serializeToJson) = none := by
    rw [parse_payload]
    rfl
  refine ⟨hnan, hquote, ?_, ?_⟩
  · rintro ⟨members, items, hparse, -⟩
    rw [hnan] at hparse
    cases hparse
  · rintro ⟨members, items, hparse, -⟩
    rw [hquote] at hparse
    cases hparse

end IbarraGateway.GemaVision
