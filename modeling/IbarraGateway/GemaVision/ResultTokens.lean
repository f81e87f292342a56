import IbarraGateway.GemaVision.InferenceResult
import IbarraGateway.Lib.JsonText

/-!
# The tokens of a published result

What a reader of JSON sees of a payload of `serialize_to_json`: fixed tokens around those of its texts.

* `lex_payload` : the tokens of every payload.
* `result_value` : without a quote in its texts, a payload that is JSON is an object with the members of the result only.
-/

namespace IbarraGateway.GemaVision
open JsonText (Value LexState Lexes units lexFrom isDelimiter stringTokens)

/-- The tokens in front of a primitive's text. -/
def fieldTokens (p : VisualPrimitive) : List JsonText.Token :=
  [.lbrace, .str (units "class_id".toList), .colon, .num (intValue p.classId), .comma,
    .str (units "confidence".toList), .colon, .num p.confidence.printed, .comma,
    .str (units "bbox".toList), .colon, .lbracket, .num (intValue p.bbox.x), .comma, .num (intValue p.bbox.y), .comma,
      .num (intValue p.bbox.width), .comma, .num (intValue p.bbox.height), .rbracket, .comma,
    .str (units "physical_coords_mm".toList), .colon, .lbracket, .num (orMinusOne p.physicalX).printed, .comma,
      .num (orMinusOne p.physicalY).printed, .rbracket, .comma,
    .str (units "has_physical_coords".toList), .colon, .bool p.hasPhysicalCoords, .comma,
    .str (units "ocr_text".toList), .colon]

/-- The tokens behind it. -/
def endTokens (p : VisualPrimitive) : List JsonText.Token :=
  [.comma, .str (units "color_pass".toList), .colon, .bool p.colorPass, .rbrace]

/-- The tokens of a primitive, with those of its text where the text stands. -/
def primitiveTokens (p : VisualPrimitive) : Option (List JsonText.Token) :=
  if p.confidence.isFinite then
    (stringTokens (Utf8.decode p.ocrText)).map fun text => fieldTokens p ++ (text ++ endTokens p)
  else none

/-- With commas between them. -/
def listTokens : List VisualPrimitive → Option (List JsonText.Token)
  | [] => some []
  | [p] => primitiveTokens p
  | p :: q :: ps => (primitiveTokens p).bind fun ts => (listTokens (q :: ps)).map fun ts' => ts ++ .comma :: ts'

/-- The tokens in front of the timestamp. -/
def countTokens (r : InferenceResult) : List JsonText.Token :=
  [.lbrace, .str (units "primitive_count".toList), .colon, .num (intValue r.primitiveCount), .comma,
    .str (units "defect_count".toList), .colon, .num (intValue r.defectCount), .comma,
    .str (units "ocr_count".toList), .colon, .num (intValue r.ocrCount), .comma,
    .str (units "color_count".toList), .colon, .num (intValue r.colorCount), .comma,
    .str (units "capture_timestamp".toList), .colon]

/-- The tokens between the timestamp and the primitives. -/
def listOpen : List JsonText.Token := [.comma, .str (units "primitives".toList), .colon, .lbracket]

/-- The tokens of a result, with those of its texts where the texts stand. -/
def resultTokens (r : InferenceResult) : Option (List JsonText.Token) :=
  (stringTokens (Utf8.decode r.captureTimestamp)).bind fun timestamp =>
    (listTokens r.primitives).map fun primitives =>
      countTokens r ++ (timestamp ++ listOpen ++ (primitives ++ [.rbracket, .rbrace]))

/-! ## Tokens of the payload -/

section Frame
variable {text : List Char} {ts : List JsonText.Token} {s : LexState}

theorem lexes_int (z : Int) (hd : text.head?.map isDelimiter = some true) (h : Lexes .between text ts s) :
    Lexes .between (intText z ++ text) (.num (intValue z) :: ts) s := .numeral _ hd h

theorem lexes_float {x : FloatValue} (hx : x.isFinite = true) (hd : text.head?.map isDelimiter = some true)
    (h : Lexes .between text ts s) : Lexes .between (x.text ++ text) (.num x.printed :: ts) s := by
  obtain ⟨n, htext, hvalue⟩ := FloatValue.text_finite hx
  rw [htext, hvalue]
  exact .numeral n hd h

/-- What is not finite is no token. -/
theorem lexFrom_special {x : FloatValue} (hx : x.isFinite = false) {d : Char} (hd : isDelimiter d = true) (rest : List Char) :
    lexFrom .between (x.text ++ d :: rest) = none := by
  have hmem := FloatValue.text_special hx
  have hwords : [['n', 'a', 'n'], ['-', 'n', 'a', 'n'], ['i', 'n', 'f'], ['-', 'i', 'n', 'f']].all
      (fun w => w ≠ [] ∧ w.all (fun c => !isDelimiter c) ∧ (JsonText.wordToken w).isNone) = true := by decide
  obtain ⟨hne, hword, htoken⟩ := of_decide_eq_true (List.all_eq_true.mp hwords _ hmem)
  rw [JsonText.lexFrom_word hne (fun c hc => by simpa using List.all_eq_true.mp hword c hc) hd,
    Option.isNone_iff_eq_none.mp htoken]
  rfl

theorem lexes_bool (b : Bool) (hd : text.head?.map isDelimiter = some true) (h : Lexes .between text ts s) :
    Lexes .between (boolText b ++ text) (.bool b :: ts) s := by
  cases b with
  | true => exact .trueWord hd h
  | false => exact .falseWord hd h

theorem finite_orMinusOne (x : FloatValue) : (orMinusOne x).isFinite = true := by
  unfold orMinusOne
  split
  · assumption
  · rfl

end Frame

theorem lexes_beforeText {p : VisualPrimitive} (hp : p.confidence.isFinite = true) :
    Lexes .between p.beforeText (fieldTokens p) (.inString []) := by
  have hcomma : Lexes .between ",\n".toList [.comma] .between := .of_run rfl
  have hclose : Lexes .between "],\n".toList [.rbracket, .comma] .between := .of_run rfl
  have hbetween : Lexes .between ",".toList [.comma] .between := .of_run rfl
  have hopen : Lexes .between "    \x7b\n".toList [.lbrace] .between := .of_run rfl
  have hclass : Lexes .between "      \"class_id\": ".toList [.str (units "class_id".toList), .colon] .between := .of_run rfl
  have hconfidence : Lexes .between "      \"confidence\": ".toList [.str (units "confidence".toList), .colon] .between :=
    .of_run rfl
  have hbox : Lexes .between "      \"bbox\": [".toList [.str (units "bbox".toList), .colon, .lbracket] .between := .of_run rfl
  have hcoords : Lexes .between "      \"physical_coords_mm\": [".toList
    [.str (units "physical_coords_mm".toList), .colon, .lbracket] .between := .of_run rfl
  have hspace : Lexes .between ", ".toList [.comma] .between := .of_run rfl
  have hhas : Lexes .between "      \"has_physical_coords\": ".toList
    [.str (units "has_physical_coords".toList), .colon] .between := .of_run rfl
  have htext : Lexes .between "      \"ocr_text\": \"".toList [.str (units "ocr_text".toList), .colon] (.inString []) :=
    .of_run rfl
  have hflag := hhas.append (lexes_bool p.hasPhysicalCoords rfl (hcomma.append htext))
  have hy := lexes_float (finite_orMinusOne p.physicalY) rfl (hclose.append hflag)
  have hpoint := hcoords.append (lexes_float (finite_orMinusOne p.physicalX) rfl (hspace.append hy))
  have hheight := lexes_int p.bbox.height rfl (hclose.append hpoint)
  have hwidth := lexes_int p.bbox.width rfl (hbetween.append hheight)
  have hrect := hbox.append (lexes_int p.bbox.x rfl (hbetween.append (lexes_int p.bbox.y rfl (hbetween.append hwidth))))
  have hfrom := hconfidence.append (lexes_float hp rfl (hcomma.append hrect))
  exact hopen.append (hclass.append (lexes_int p.classId rfl (hcomma.append hfrom)))

/-- A confidence that is not finite spoils the primitive. -/
theorem lexFrom_beforeText {p : VisualPrimitive} (hp : p.confidence.isFinite = false) (rest : List Char) :
    lexFrom .between (p.beforeText ++ rest) = none := by
  have hopen : Lexes .between "    \x7b\n".toList [.lbrace] .between := .of_run rfl
  have hclass : Lexes .between "      \"class_id\": ".toList [.str (units "class_id".toList), .colon] .between := .of_run rfl
  have hfield : Lexes .between (",\n".toList ++ "      \"confidence\": ".toList)
    [.comma, .str (units "confidence".toList), .colon] .between := .of_run rfl
  have hfront := hopen.append (hclass.append (lexes_int p.classId rfl hfield))
  have hsplit : ∃ tail, p.beforeText ++ rest = "    \x7b\n".toList ++ ("      \"class_id\": ".toList ++ (intText p.classId ++
      (",\n".toList ++ "      \"confidence\": ".toList))) ++ (p.confidence.text ++ ',' :: tail) := by
    unfold VisualPrimitive.beforeText
    simp only [List.append_assoc]
    exact ⟨_, rfl⟩
  obtain ⟨tail, hsplit⟩ := hsplit
  rw [hsplit, hfront, lexFrom_special hp rfl]
  rfl

/-- A primitive, whatever follows it. -/
theorem lexFrom_primitive (p : VisualPrimitive) (rest : List Char) :
    lexFrom .between (p.beforeText ++ (Utf8.decode p.ocrText ++ (p.afterText ++ rest))) =
      (primitiveTokens p).bind fun ts => (lexFrom .between rest).map fun ts' => ts ++ ts' := by
  unfold primitiveTokens
  cases hp : p.confidence.isFinite with
  | false =>
    rw [lexFrom_beforeText hp]
    rfl
  | true =>
    have hafter : Lexes .between ("      \"color_pass\": ".toList ++ (boolText p.colorPass ++ ("\n".toList ++ "    \x7d".toList)))
        [.str (units "color_pass".toList), .colon, .bool p.colorPass, .rbrace] .between := by
      have hkey : Lexes .between "      \"color_pass\": ".toList [.str (units "color_pass".toList), .colon] .between := .of_run rfl
      have hend : Lexes .between ("\n".toList ++ "    \x7d".toList) [.rbrace] .between := .of_run rfl
      exact hkey.append (lexes_bool p.colorPass rfl hend)
    have hline : p.afterText ++ rest = '"' :: ',' :: '\n' ::
        ("      \"color_pass\": ".toList ++ (boolText p.colorPass ++ ("\n".toList ++ "    \x7d".toList)) ++ rest) := rfl
    rw [lexes_beforeText hp, hline, JsonText.lexFrom_string, hafter, if_pos rfl]
    cases stringTokens (Utf8.decode p.ocrText) with
    | none => rfl
    | some ts =>
      cases lexFrom .between rest with
      | none => rfl
      | some ts' =>
        have hassoc : fieldTokens p ++ (ts ++ (endTokens p ++ ts')) = fieldTokens p ++ (ts ++ endTokens p) ++ ts' := by
          rw [List.append_assoc, List.append_assoc]
        exact congrArg some hassoc

/-! ## The text of the payload -/

theorem isAscii_numeral (n : Numeral) : Utf8.IsAscii n.text := by
  apply List.all_eq_true.mpr
  intro c hc
  rcases n.mem_text c hc with hdigit | hsymbol
  · simp only [Char.isDigit, Bool.and_eq_true, decide_eq_true_eq] at hdigit
    have hle : c.toNat ≤ 57 := hdigit.2
    exact decide_eq_true (by omega)
  · have hall : ['-', '+', '.', 'e'].all (fun c => decide (c.toNat < 0x80)) = true := by decide
    exact List.all_eq_true.mp hall c hsymbol

theorem isAscii_int (z : Int) : Utf8.IsAscii (intText z) := isAscii_numeral _

theorem isAscii_float (x : FloatValue) : Utf8.IsAscii x.text := by
  cases x with
  | nan neg => cases neg <;> decide
  | inf neg => cases neg <;> decide
  | finite neg mantissa exponent => exact isAscii_numeral _

theorem isAscii_bool (b : Bool) : Utf8.IsAscii (boolText b) := by
  cases b <;> decide

theorem isAscii_beforeText (p : VisualPrimitive) : Utf8.IsAscii p.beforeText := by
  unfold VisualPrimitive.beforeText
  simp only [Utf8.isAscii_append]
  exact ⟨rfl, rfl, isAscii_int _, rfl, rfl, isAscii_float _, rfl, rfl, isAscii_int _, rfl, isAscii_int _, rfl, isAscii_int _, rfl,
    isAscii_int _, rfl, rfl, isAscii_float _, rfl, isAscii_float _, rfl, rfl, isAscii_bool _, rfl, rfl⟩

theorem isAscii_afterText (p : VisualPrimitive) : Utf8.IsAscii p.afterText := by
  unfold VisualPrimitive.afterText
  simp only [Utf8.isAscii_append]
  exact ⟨rfl, rfl, isAscii_bool _, rfl, rfl⟩

theorem decode_json (p : VisualPrimitive) (rest : List UInt8) : Utf8.decode (p.json ++ rest) =
    p.beforeText ++ (Utf8.decode p.ocrText ++ (p.afterText ++ Utf8.decode rest)) := by
  rw [VisualPrimitive.json, List.append_assoc, List.append_assoc, Utf8.decode_ascii (isAscii_beforeText p)]
  exact congrArg (p.beforeText ++ ·) (Utf8.decode_append p.ocrText (isAscii_afterText p) rest)

theorem lexFrom_primitivesJson (ps : List VisualPrimitive) (rest : List UInt8) :
    lexFrom .between (Utf8.decode (primitivesJson ps ++ rest)) =
      (listTokens ps).bind fun ts => (lexFrom .between (Utf8.decode rest)).map fun ts' => ts ++ ts' := by
  fun_induction primitivesJson ps with
  | case1 =>
    show lexFrom .between (Utf8.decode rest) = (lexFrom .between (Utf8.decode rest)).map fun ts' => ts'
    rw [Option.map_id']
  | case2 p =>
    have hline : Lexes .between "\n".toList [] .between := .of_run rfl
    rw [List.append_assoc, decode_json, Utf8.decode_ascii (by decide), lexFrom_primitive, hline]
    simp only [List.nil_append, Option.map_id']
    rfl
  | case3 p q ps ih =>
    have hline : Lexes .between ",\n".toList [.comma] .between := .of_run rfl
    rw [List.append_assoc, decode_json, List.append_assoc, Utf8.decode_ascii (by decide), lexFrom_primitive, hline, ih, listTokens]
    cases primitiveTokens p with
    | none => rfl
    | some ts =>
      cases listTokens (q :: ps) with
      | none => rfl
      | some ts' =>
        cases lexFrom .between (Utf8.decode rest) with
        | none => rfl
        | some rest => simp only [Option.bind_some, Option.map_some, List.append_assoc, List.cons_append, List.nil_append]

theorem isAscii_beforeTimestamp (r : InferenceResult) : Utf8.IsAscii r.beforeTimestamp := by
  unfold InferenceResult.beforeTimestamp
  simp only [Utf8.isAscii_append]
  exact ⟨rfl, rfl, isAscii_int _, rfl, rfl, isAscii_int _, rfl, rfl, isAscii_int _, rfl, rfl, isAscii_int _, rfl, rfl⟩

theorem lexes_beforeTimestamp (r : InferenceResult) : Lexes .between r.beforeTimestamp (countTokens r) (.inString []) := by
  have hcomma : Lexes .between ",\n".toList [.comma] .between := .of_run rfl
  have hopen : Lexes .between "\x7b\n".toList [.lbrace] .between := .of_run rfl
  have hprimitive : Lexes .between "  \"primitive_count\": ".toList [.str (units "primitive_count".toList), .colon] .between :=
    .of_run rfl
  have hdefect : Lexes .between "  \"defect_count\": ".toList [.str (units "defect_count".toList), .colon] .between :=
    .of_run rfl
  have hocr : Lexes .between "  \"ocr_count\": ".toList [.str (units "ocr_count".toList), .colon] .between := .of_run rfl
  have hcolor : Lexes .between "  \"color_count\": ".toList [.str (units "color_count".toList), .colon] .between := .of_run rfl
  have htimestamp : Lexes .between "  \"capture_timestamp\": \"".toList
    [.str (units "capture_timestamp".toList), .colon] (.inString []) := .of_run rfl
  have hlast := hcolor.append (lexes_int r.colorCount rfl (hcomma.append htimestamp))
  have hcounts := hdefect.append (lexes_int r.defectCount rfl (hcomma.append
    (hocr.append (lexes_int r.ocrCount rfl (hcomma.append hlast)))))
  exact hopen.append (hprimitive.append (lexes_int r.primitiveCount rfl (hcomma.append hcounts)))

/-- The pieces of a document put together. -/
theorem splice (front between last : List JsonText.Token) (text items : Option (List JsonText.Token)) :
    (text.bind fun ts => ((items.bind fun us => (some last).map fun ts' => us ++ ts').map fun ts' => between ++ ts').map
      fun ts' => ts ++ .comma :: ts').map (fun ts' => front ++ ts') =
      text.bind fun ts => items.map fun us => front ++ (ts ++ .comma :: between ++ (us ++ last)) := by
  cases text with
  | none => rfl
  | some ts =>
    cases items with
    | none => rfl
    | some us => simp only [Option.bind_some, Option.map_some, List.append_assoc, List.cons_append]

/-- The tokens of every payload. -/
theorem lex_payload (r : InferenceResult) : JsonText.lex (Utf8.decode r.serializeToJson) = resultTokens r := by
  have hdecode : Utf8.decode r.serializeToJson = r.beforeTimestamp ++ (Utf8.decode r.captureTimestamp ++
      ('"' :: ',' :: '\n' :: ("  \"primitives\": [\n".toList ++
        Utf8.decode (primitivesJson r.primitives ++ Utf8.ascii ("  ]\n".toList ++ "\x7d\n".toList))))) := by
    rw [InferenceResult.serializeToJson, Utf8.decode_ascii (isAscii_beforeTimestamp r)]
    exact congrArg (r.beforeTimestamp ++ ·) (Utf8.decode_append _ (by decide) _)
  have hkey : Lexes .between "  \"primitives\": [\n".toList [.str (units "primitives".toList), .colon, .lbracket] .between :=
    .of_run rfl
  have hend : lexFrom .between (Utf8.decode (Utf8.ascii ("  ]\n".toList ++ "\x7d\n".toList))) = some [.rbracket, .rbrace] := rfl
  rw [JsonText.lex, hdecode, lexes_beforeTimestamp, JsonText.lexFrom_string, hkey, lexFrom_primitivesJson, hend, resultTokens]
  exact splice _ _ _ _ _

theorem parse_payload (r : InferenceResult) :
    JsonText.parseText (Utf8.decode r.serializeToJson) = (resultTokens r).bind JsonText.parse := by
  rw [JsonText.parseText, lex_payload]

/-! ## Texts without quotes -/

def primitiveValue (p : VisualPrimitive) (text : JsonText.Units) : Value :=
  .obj [(units "class_id".toList, .num (intValue p.classId)),
    (units "confidence".toList, .num p.confidence.printed),
    (units "bbox".toList, .arr [.num (intValue p.bbox.x), .num (intValue p.bbox.y), .num (intValue p.bbox.width),
      .num (intValue p.bbox.height)]),
    (units "physical_coords_mm".toList, .arr [.num (orMinusOne p.physicalX).printed, .num (orMinusOne p.physicalY).printed]),
    (units "has_physical_coords".toList, .bool p.hasPhysicalCoords),
    (units "ocr_text".toList, .str text),
    (units "color_pass".toList, .bool p.colorPass)]

def resultValue (r : InferenceResult) (timestamp : JsonText.Units) (primitives : List Value) : Value :=
  .obj [(units "primitive_count".toList, .num (intValue r.primitiveCount)),
    (units "defect_count".toList, .num (intValue r.defectCount)),
    (units "ocr_count".toList, .num (intValue r.ocrCount)),
    (units "color_count".toList, .num (intValue r.colorCount)),
    (units "capture_timestamp".toList, .str timestamp),
    (units "primitives".toList, .arr primitives)]

theorem primitive_value {p : VisualPrimitive} {ts : List JsonText.Token} (hquote : '"' ∉ Utf8.decode p.ocrText)
    (h : primitiveTokens p = some ts) : ∃ text, ts = JsonText.tokens (primitiveValue p text) := by
  unfold primitiveTokens at h
  split at h
  · obtain ⟨us, hus, rfl⟩ := Option.map_eq_some_iff.mp h
    obtain ⟨text, rfl⟩ := JsonText.stringTokens_of_no_quote hquote hus
    exact ⟨text, rfl⟩
  · cases h

theorem list_values {p : VisualPrimitive} {ps : List VisualPrimitive} {ts : List JsonText.Token}
    (hquote : ∀ q ∈ p :: ps, '"' ∉ Utf8.decode q.ocrText) (h : listTokens (p :: ps) = some ts) :
    ∃ v vs, ts ++ [.rbracket] = JsonText.tokens v ++ JsonText.itemTokens vs := by
  induction ps generalizing p ts with
  | nil =>
    obtain ⟨text, rfl⟩ := primitive_value (hquote p List.mem_cons_self) h
    exact ⟨primitiveValue p text, [], rfl⟩
  | cons q ps ih =>
    obtain ⟨us, hus, hrest⟩ := Option.bind_eq_some_iff.mp h
    obtain ⟨us', hus', rfl⟩ := Option.map_eq_some_iff.mp hrest
    obtain ⟨text, rfl⟩ := primitive_value (hquote p List.mem_cons_self) hus
    obtain ⟨v, vs, heq⟩ := ih (fun q' hq' => hquote q' (List.mem_cons_of_mem _ hq')) hus'
    refine ⟨primitiveValue p text, v :: vs, ?_⟩
    rw [List.append_assoc, List.cons_append, heq]
    rfl

theorem array_tokens {v : Value} {vs : List Value} :
    JsonText.tokens (.arr (v :: vs)) = .lbracket :: (JsonText.tokens v ++ JsonText.itemTokens vs) := rfl

/-- One string and an array between the tokens of the object. -/
theorem tokens_resultValue (r : InferenceResult) (timestamp : JsonText.Units) {ts : List JsonText.Token}
    {primitives : List Value} (h : .lbracket :: (ts ++ [.rbracket]) = JsonText.tokens (.arr primitives)) :
    countTokens r ++ ([.str timestamp] ++ listOpen ++ (ts ++ [.rbracket, .rbrace])) =
      JsonText.tokens (resultValue r timestamp primitives) := by
  have hobject : JsonText.tokens (resultValue r timestamp primitives) =
      countTokens r ++ (.str timestamp :: .comma :: .str (units "primitives".toList) :: .colon ::
        (JsonText.tokens (.arr primitives) ++ [.rbrace])) := by
    simp only [resultValue, countTokens, JsonText.tokens, JsonText.memberTokens, List.cons_append, List.nil_append]
  rw [hobject, ← h]
  simp only [listOpen, List.append_assoc, List.cons_append, List.nil_append]

/-- Without a quote in the texts, the payload is the object that it was meant to be. -/
theorem result_value {r : InferenceResult} {ts : List JsonText.Token} (hquote : ∀ text ∈ r.texts, '"' ∉ Utf8.decode text)
    (h : resultTokens r = some ts) : ∃ timestamp primitives, ts = JsonText.tokens (resultValue r timestamp primitives) := by
  obtain ⟨us, hus, hrest⟩ := Option.bind_eq_some_iff.mp h
  obtain ⟨us', hus', rfl⟩ := Option.map_eq_some_iff.mp hrest
  obtain ⟨timestamp, rfl⟩ := JsonText.stringTokens_of_no_quote (hquote _ List.mem_cons_self) hus
  have hprimitives : ∃ primitives, .lbracket :: (us' ++ [.rbracket]) = JsonText.tokens (.arr primitives) := by
    cases hps : r.primitives with
    | nil =>
      rw [hps] at hus'
      cases hus'
      exact ⟨[], rfl⟩
    | cons p ps =>
      rw [hps] at hus'
      have hmem : ∀ q ∈ p :: ps, '"' ∉ Utf8.decode q.ocrText := fun q hq =>
        hquote _ (List.mem_cons_of_mem _ (List.mem_map.mpr ⟨q, by rw [hps]; exact hq, rfl⟩))
      obtain ⟨v, vs, heq⟩ := list_values hmem hus'
      exact ⟨v :: vs, by rw [heq, array_tokens]⟩
  obtain ⟨primitives, heq⟩ := hprimitives
  exact ⟨timestamp, primitives, tokens_resultValue r timestamp heq⟩

end IbarraGateway.GemaVision
