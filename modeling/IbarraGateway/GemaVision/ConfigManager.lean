import IbarraGateway.Lib.DecimalText
import IbarraGateway.Lib.TextSearch
import Mathlib

/-!
# The configuration of the vision module

`ConfigState`, `parse_json`, `serialize` and `apply_json` of `ConfigManager`. A text is the list of its characters; the
pass ratio of a colour threshold is the text that the stream prints for it.

`extractStr_eq_iff` : what the reader finds under a key, without the reader. It is the token after the first colon behind
the first place where the key stands in quotes, be it a name or a value.
-/

namespace IbarraGateway.GemaVision

open DecimalText TextSearch

abbrev Text := List Char

/-! ## The state -/

structure MqttConfig where
  host : Text := "localhost".toList
  port : Int := 1883
  deriving DecidableEq, Repr

structure ColorThreshold where
  classId : Int := 0
  hueLow : Int := 0
  hueHigh : Int := 10
  satMin : Int := 70
  valMin : Int := 50
  passRatio : Text := "0.8".toList
  deriving DecidableEq, Repr

structure ConfigState where
  mqtt : MqttConfig := {}
  cameraIndex : Int := 0
  inferenceIntervalMs : Int := 666
  watchdogIntervalSec : Int := 5
  mode : Text := "inspection".toList
  colorThresholds : List ColorThreshold := []
  inferenceTopic : Text := "novamex/vision/inference".toList
  telemetryTopic : Text := "novamex/vision/telemetry".toList
  configTopic : Text := "novamex/vision/config/update".toList
  deriving DecidableEq, Repr

/-! ## Reading -/

/-- `std::stoi`; `none` where it throws. -/
def stoi (s : Text) : Option Int :=
  let r := scanSign (s.dropWhile isSpace)
  match r.2.takeWhile Char.isDigit with
  | [] => none
  | ds =>
    let v := r.1 * Nat.ofDigitChars 10 ds 0
    if -2 ^ 31 ≤ v ∧ v < 2 ^ 31 then some v else none

/-- The end of `extract_str`: a string up to the next quote, or a number. -/
def token : Text → Text
  | [] => []
  | '"' :: value => if '"' ∈ value then value.takeWhile fun c => c ≠ '"' else []
  | value => value.takeWhile fun c => !isEnd c

/-- `extract_str`: empty when there is nothing to read. -/
def extractStr (json key : Text) : Text :=
  match findAfter (quote key) json with
  | none => []
  | some rest =>
    match findAfter [':'] rest with
    | none => []
    | some rest => token (rest.dropWhile isBlank)

/-- `extract_int`. -/
def extractInt (json key : Text) (defaultVal : Int) : Int := (stoi (extractStr json key)).getD defaultVal

/-- A string that is read, or what the new state holds already. -/
def extractOr (json key defaultVal : Text) : Text :=
  if extractStr json key = [] then defaultVal else extractStr json key

def parseJson (json : Text) : ConfigState :=
  let cfg : ConfigState := {}
  { cfg with
    mqtt := ⟨extractOr json "mqtt_host".toList cfg.mqtt.host, extractInt json "mqtt_port".toList 1883⟩
    cameraIndex := extractInt json "camera_index".toList 0
    inferenceIntervalMs := extractInt json "inference_interval_ms".toList 666
    watchdogIntervalSec := extractInt json "watchdog_interval_sec".toList 5
    mode := extractOr json "mode".toList cfg.mode
    inferenceTopic := extractOr json "inference_topic".toList cfg.inferenceTopic
    telemetryTopic := extractOr json "telemetry_topic".toList cfg.telemetryTopic }

/-- `apply_json`: the new state. -/
def applyJson (cur : ConfigState) (jsonStr : Text) : ConfigState :=
  let newState := parseJson jsonStr
  { newState with
    mqtt := ⟨if newState.mqtt.host = [] then cur.mqtt.host else newState.mqtt.host,
      if newState.mqtt.port = 0 then cur.mqtt.port else newState.mqtt.port⟩
    inferenceTopic := if newState.inferenceTopic = [] then cur.inferenceTopic else newState.inferenceTopic
    telemetryTopic := if newState.telemetryTopic = [] then cur.telemetryTopic else newState.telemetryTopic }

theorem extractOr_ne_nil {json key defaultVal : Text} (h : defaultVal ≠ []) : extractOr json key defaultVal ≠ [] := by
  unfold extractOr
  split
  · exact h
  · assumption

/-- Of the current state only the port is ever used: the strings that are parsed are never empty. -/
theorem applyJson_eq (cur : ConfigState) (jsonStr : Text) :
    applyJson cur jsonStr = { parseJson jsonStr with
      mqtt := ⟨(parseJson jsonStr).mqtt.host,
        if (parseJson jsonStr).mqtt.port = 0 then cur.mqtt.port else (parseJson jsonStr).mqtt.port⟩ } := by
  have hhost : (parseJson jsonStr).mqtt.host ≠ [] := extractOr_ne_nil (by decide)
  have hinference : (parseJson jsonStr).inferenceTopic ≠ [] := extractOr_ne_nil (by decide)
  have htelemetry : (parseJson jsonStr).telemetryTopic ≠ [] := extractOr_ne_nil (by decide)
  unfold applyJson
  dsimp only
  rw [if_neg hhost, if_neg hinference, if_neg htelemetry]

/-- `load_file`: nothing is changed when the file cannot be opened. -/
def loadFile (cur : ConfigState) (file : Option Text) : ConfigState :=
  match file with
  | none => cur
  | some text => applyJson cur text

/-! ## Printing -/

def number (v : Int) : Text := (toString v).toList

/-- `  "key": value,` with a string. -/
def textLine (key value : Text) : Text := "  ".toList ++ quote key ++ ": ".toList ++ quote value ++ ",\n".toList

/-- `  "key": value,` with a number. -/
def intLine (key : Text) (value : Int) : Text := "  ".toList ++ quote key ++ ": ".toList ++ number value ++ ",\n".toList

def ColorThreshold.text (ct : ColorThreshold) : Text :=
  "    \x7b\n".toList ++
  "      \"class_id\": ".toList ++ number ct.classId ++ ",\n".toList ++
  "      \"hue_low\": ".toList ++ number ct.hueLow ++ ",\n".toList ++
  "      \"hue_high\": ".toList ++ number ct.hueHigh ++ ",\n".toList ++
  "      \"sat_min\": ".toList ++ number ct.satMin ++ ",\n".toList ++
  "      \"val_min\": ".toList ++ number ct.valMin ++ ",\n".toList ++
  "      \"pass_ratio\": ".toList ++ ct.passRatio ++ "\n".toList ++
  "    \x7d".toList

def thresholdLines : List ColorThreshold → Text
  | [] => []
  | [ct] => ct.text ++ "\n".toList
  | ct :: cts => ct.text ++ ",\n".toList ++ thresholdLines cts

def serialize (cfg : ConfigState) : Text :=
  "\x7b\n".toList ++
  textLine "mqtt_host".toList cfg.mqtt.host ++
  intLine "mqtt_port".toList cfg.mqtt.port ++
  intLine "camera_index".toList cfg.cameraIndex ++
  intLine "inference_interval_ms".toList cfg.inferenceIntervalMs ++
  intLine "watchdog_interval_sec".toList cfg.watchdogIntervalSec ++
  textLine "mode".toList cfg.mode ++
  textLine "inference_topic".toList cfg.inferenceTopic ++
  textLine "telemetry_topic".toList cfg.telemetryTopic ++
  "  ".toList ++ quote "color_thresholds".toList ++ ": [\n".toList ++ thresholdLines cfg.colorThresholds ++ "  ]\n".toList ++ "\x7d\n".toList

/-! ## What is read -/

/-- A text begins with a token: a string, or what stands before the next comma, brace or end of a line. -/
inductive Token : Text → Text → Prop
  | quoted {s after : Text} (hs : '"' ∉ s) : Token ('"' :: (s ++ '"' :: after)) s
  | bare {s after : Text} (hhead : ∀ c r, s ++ after = c :: r → c ≠ '"') (hs : ∀ c ∈ s, isEnd c = false)
    (hafter : ∀ c r, after = c :: r → isEnd c = true) : Token (s ++ after) s

/-- The token after the first colon behind the first place where the key stands in quotes. -/
def Reads (json key s : Text) : Prop :=
  ∃ before gap blanks rest, FirstAt (quote key) json before (gap ++ ':' :: (blanks ++ rest)) ∧ ':' ∉ gap ∧
    (∀ c ∈ blanks, isBlank c = true) ∧ (∀ c r, rest = c :: r → isBlank c = false) ∧ Token rest s

/-- The text up to the first quote. -/
def beforeQuote (s : Text) : Text := s.takeWhile fun c => c ≠ '"'

theorem beforeQuote_eq_self_iff {s : Text} : beforeQuote s = s ↔ '"' ∉ s := takeWhile_ne_eq_self_iff

/-- A string is read up to its first quote. -/
theorem token_quoted (s after : Text) : token ('"' :: (s ++ '"' :: after)) = beforeQuote s := by
  rw [token, if_pos (by simp), beforeQuote]
  induction s with
  | nil => rfl
  | cons c s ih =>
    rw [List.cons_append, List.takeWhile_cons, List.takeWhile_cons, ih]

theorem token_string {s : Text} (hs : '"' ∉ s) (after : Text) : token ('"' :: (s ++ '"' :: after)) = s := by
  rw [token_quoted, beforeQuote_eq_self_iff.mpr hs]

theorem token_number {rest : Text} (h : ∀ r, rest ≠ '"' :: r) : token rest = rest.takeWhile fun c => !isEnd c := by
  unfold token
  split
  · rfl
  · rename_i value
    exact absurd rfl (h value)
  · rfl

/-- A string that was read is a token. -/
theorem Token.of_string {value s : Text} (hs : s ≠ []) (h : token ('"' :: value) = s) : Token ('"' :: value) s := by
  rw [token] at h
  split at h
  · rename_i hmem
    obtain ⟨before, after, rfl, hbefore⟩ := List.eq_append_cons_of_mem hmem
    have hvalue := token_string hbefore after
    rw [token, if_pos hmem, h] at hvalue
    rw [hvalue]
    exact .quoted hbefore
  · exact absurd h.symm hs

/-- What is read up to the end of a number is a token. -/
theorem Token.of_number {rest : Text} (hno : ∀ r, rest ≠ '"' :: r) : Token rest (token rest) := by
  have hsplit : rest = token rest ++ rest.dropWhile fun c => !isEnd c := by
    rw [token_number hno, List.takeWhile_append_dropWhile]
  have hbare : Token (token rest ++ rest.dropWhile fun c => !isEnd c) (token rest) := by
    refine .bare ?_ ?_ ?_
    · intro c r hr
      rw [← hsplit] at hr
      rintro rfl
      exact hno r hr
    · intro c hc
      rw [token_number hno] at hc
      have hpass := List.mem_takeWhile_imp hc
      simpa using hpass
    · intro c r hr
      have hhead := List.head?_dropWhile_not (fun c => !isEnd c) rest
      rw [hr] at hhead
      simpa using hhead
  rwa [← hsplit] at hbare

theorem Token.token_eq {rest s : Text} (h : Token rest s) : token rest = s := by
  cases h with
  | quoted hs => exact token_string hs _
  | bare hhead hplain hafter =>
    rw [token_number]
    · apply takeWhile_run
      · intro c hc
        rw [hplain c hc]
        rfl
      · intro c r hr
        rw [hafter c r hr]
        rfl
    · intro r hr
      exact hhead _ r hr rfl

theorem token_eq_iff {rest s : Text} (hs : s ≠ []) : token rest = s ↔ Token rest s := by
  constructor
  · intro h
    by_cases hquote : ∃ value, rest = '"' :: value
    · obtain ⟨value, rfl⟩ := hquote
      exact .of_string hs h
    · rw [← h]
      exact .of_number fun r hr => hquote ⟨r, hr⟩
  · exact Token.token_eq

theorem extractStr_eq_iff {json key s : Text} (hs : s ≠ []) : extractStr json key = s ↔ Reads json key s := by
  constructor
  · intro h
    unfold extractStr at h
    split at h
    · exact absurd h.symm hs
    rename_i rest hkey
    split at h
    · exact absurd h.symm hs
    rename_i rest' hcolon
    obtain ⟨before, hfirst⟩ := findAfter_eq_some_iff.mp hkey
    obtain ⟨gap, hgap, hnot⟩ := findAfter_char_eq_some_iff.mp hcolon
    refine ⟨before, gap, rest'.takeWhile isBlank, rest'.dropWhile isBlank, ?_, hnot, ?_, ?_, (token_eq_iff hs).mp h⟩
    · rw [List.takeWhile_append_dropWhile, ← hgap]
      exact hfirst
    · exact fun c hc => List.mem_takeWhile_imp hc
    · intro c r hr
      have hhead := List.head?_dropWhile_not isBlank rest'
      rw [hr] at hhead
      simpa using hhead
  · rintro ⟨before, gap, blanks, rest, hfirst, hgap, hblanks, hrest, htoken⟩
    unfold extractStr
    rw [hfirst.findAfter_eq]
    dsimp only
    rw [findAfter_char hgap]
    dsimp only
    rw [dropWhile_run hblanks hrest]
    exact (token_eq_iff hs).mpr htoken

/-! ## Flat objects -/

theorem extractStr_eq_bind (json key : Text) :
    extractStr json key =
      (((findAfter (quote key) json).bind (findAfter [':'])).map fun rest => token (rest.dropWhile isBlank)).getD [] := by
  unfold extractStr
  cases findAfter (quote key) json with
  | none => rfl
  | some rest =>
    show (match findAfter [':'] rest with | none => [] | some rest => token (rest.dropWhile isBlank)) = _
    rw [Option.bind_some]
    cases findAfter [':'] rest with
    | none => rfl
    | some rest => rfl

theorem token_text_string (s more : Text) : token ((Scalar.string s).text ++ more) = beforeQuote s := by
  have htext : (Scalar.string s).text ++ more = '"' :: (s ++ '"' :: more) := by
    simp [Scalar.text, quote]
  rw [htext]
  exact token_quoted s more

theorem token_text_bare {t more : Text} (hplain : (Scalar.bare t).Plain) (hmore : ∀ c r, more = c :: r → isEnd c = true) :
    token ((Scalar.bare t).text ++ more) = beforeQuote t := by
  obtain ⟨hends, d, r, ht, -⟩ := hplain.bare t rfl
  have hquote : '"' ∉ t := hplain.noQuote
  show token (t ++ more) = beforeQuote t
  rw [beforeQuote_eq_self_iff.mpr hquote, token_number]
  · apply takeWhile_run
    · intro c hc
      rw [hends c hc]
      rfl
    · intro c r hr
      rw [hmore c r hr]
      rfl
  · intro r' hr
    rw [ht] at hr hquote
    cases hr
    exact hquote List.mem_cons_self

/-- A value does not begin with a blank. -/
theorem text_noBlank {value : Scalar} (hbare : ∀ t, value = .bare t → value.Plain) {more : Text} {c : Char} {r : Text}
    (h : value.text ++ more = c :: r) : isBlank c = false := by
  cases value with
  | string s =>
    cases h
    decide
  | bare t =>
    obtain ⟨-, d, r', ht, hd⟩ := (hbare t rfl).bare t rfl
    subst ht
    cases h
    exact hd

/-- A value is read with its spacing taken off, a string up to its first quote. -/
theorem token_value {m : Member} (hm : m.Spaced) (hbare : ∀ t, m.value = .bare t → m.value.Plain) (more : Text) :
    token ((m.blanks ++ (m.value.text ++ (m.sep ++ more))).dropWhile isBlank) = beforeQuote m.value.content := by
  obtain ⟨-, -, c, r, hsep, hc⟩ := hm.sep
  rw [dropWhile_run hm.blanks fun c r hr => text_noBlank hbare hr]
  cases hvalue : m.value with
  | string s => exact token_text_string s _
  | bare t =>
    have hplain := hbare t hvalue
    rw [hvalue] at hplain
    apply token_text_bare hplain
    intro d r' hr
    rw [hsep] at hr
    cases hr
    exact hc

section Spell
variable {key opening tail : Text} {ms : List Member} {m : Member}

/-- What is read from a flat object. -/
theorem extractStr_spell (hkey : PlainKey key) (hopening : '"' ∉ opening) (hms : ∀ m ∈ ms, m.Spaced)
    (hclear : Clear key ms) (hreached : reached key ms = some m) (hbare : ∀ t, m.value = .bare t → m.value.Plain) :
    extractStr (opening ++ spell tail ms) key = beforeQuote m.value.content := by
  obtain ⟨more, hmore⟩ := findAfter_spell tail hkey hms hclear hreached
  rw [extractStr_eq_bind, quote, findAfter_skip hopening, ← quote, hmore, Option.map_some, Option.getD_some]
  exact token_value (hms m (reached_mem hreached)) hbare more

theorem extractStr_spell_plain (hkey : PlainKey key) (hopening : '"' ∉ opening) (hms : ∀ m ∈ ms, m.Spaced)
    (hplain : ∀ m ∈ ms, m.value.Plain) (hreached : reached key ms = some m) :
    extractStr (opening ++ spell tail ms) key = m.value.content := by
  have hm := hplain m (reached_mem hreached)
  rw [extractStr_spell hkey hopening hms (clear_of_plain key hplain) hreached fun _ _ => hm]
  exact beforeQuote_eq_self_iff.mpr hm.noQuote

end Spell

end IbarraGateway.GemaVision
