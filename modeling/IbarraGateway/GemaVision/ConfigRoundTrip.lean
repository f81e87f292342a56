import IbarraGateway.GemaVision.ConfigFrame

/-!
# Writing the configuration and reading it back

* `stoi_number` : integers are read as they are printed.
* `serialize_eq_spell` : the text of a configuration as a flat object, so that `extractStr_spell` reads it.
* `Sound` : what holds of every configuration that `apply_json` has made (`sound_foldl`).
* `loadFile_serialize_iff` : a configuration is read back as it was written exactly when no string holds a quote and no
  string stands for a later key (`RoundTrips`).
-/

namespace IbarraGateway.GemaVision

open DecimalText TextSearch

/-! ## Numbers -/

def InRange (v : Int) : Prop := -2 ^ 31 ≤ v ∧ v < 2 ^ 31

instance (v : Int) : Decidable (InRange v) := inferInstanceAs (Decidable (_ ∧ _))

theorem toDigits_eq_cons (n : Nat) : ∃ d r, Nat.toDigits 10 n = d :: r ∧ d.isDigit = true := by
  cases hds : Nat.toDigits 10 n with
  | nil => exact absurd hds Nat.toDigits_ne_nil
  | cons d r =>
    refine ⟨d, r, rfl, digits_toDigits n d ?_⟩
    rw [hds]
    exact List.mem_cons_self

def isNumberPart (c : Char) : Bool := c.isDigit || c = '-'

/-- The characters of a printed number. -/
theorem number_chars {v : Int} {c : Char} (h : c ∈ number v) : isNumberPart c = true := by
  have hdigit : ∀ {n : Nat}, c ∈ Nat.toDigits 10 n → isNumberPart c = true := by
    intro n hn
    rw [isNumberPart, digits_toDigits _ _ hn, Bool.true_or]
  rcases Int.eq_nat_or_neg v with ⟨n, rfl | rfl⟩
  · rw [number, toString_nat] at h
    exact hdigit h
  · rcases n with _ | n
    · exact hdigit (n := 0) h
    · rw [number, toString_neg] at h
      rcases List.mem_cons.mp h with rfl | h
      · decide
      · exact hdigit h

theorem number_ne_nil (v : Int) : number v ≠ [] := by
  rcases Int.eq_nat_or_neg v with ⟨n, rfl | rfl⟩
  · rw [number, toString_nat]
    exact Nat.toDigits_ne_nil
  · rcases n with _ | n
    · decide
    · rw [number, toString_neg]
      exact List.cons_ne_nil _ _

theorem number_noQuote (v : Int) : '"' ∉ number v := by
  intro h
  exact absurd (number_chars h) (by decide)

theorem number_noEnd {v : Int} {c : Char} (h : c ∈ number v) : isEnd c = false :=
  decide_eq_false (not_mem_of_any (by decide) (number_chars h))

theorem number_noBlank {v : Int} {c : Char} (h : c ∈ number v) : isBlank c = false :=
  decide_eq_false (not_mem_of_any (by decide) (number_chars h))

theorem number_plain (v : Int) : (Scalar.bare (number v)).Plain where
  noQuote := number_noQuote v
  bare t ht := by
    cases ht
    refine ⟨fun c hc => number_noEnd hc, ?_⟩
    cases hnum : number v with
    | nil => exact absurd hnum (number_ne_nil v)
    | cons c r =>
      refine ⟨c, r, rfl, number_noBlank (v := v) ?_⟩
      rw [hnum]
      exact List.mem_cons_self

theorem stoi_of_digits {s ds : Text} {sign : Int} (hscan : scanSign (s.dropWhile isSpace) = (sign, ds)) (hne : ds ≠ [])
    (hds : ∀ c ∈ ds, c.isDigit = true) (hrange : InRange (sign * Nat.ofDigitChars 10 ds 0)) :
    stoi s = some (sign * Nat.ofDigitChars 10 ds 0) := by
  unfold stoi
  dsimp only
  rw [hscan]
  dsimp only
  rw [List.takeWhile_eq_self_iff.mpr hds]
  cases ds with
  | nil => exact absurd rfl hne
  | cons d r => exact if_pos hrange

/-- An integer is read as it is printed. -/
theorem stoi_number {v : Int} (h : InRange v) : stoi (number v) = some v := by
  rcases Int.eq_nat_or_neg v with ⟨n, rfl | rfl⟩
  · obtain ⟨d, r, hds, hd⟩ := toDigits_eq_cons n
    have hscan : scanSign ((number n).dropWhile isSpace) = (1, Nat.toDigits 10 n) := by
      rw [number, toString_nat, hds, List.dropWhile_cons_of_neg (by rw [isSpace_digit hd]; decide), scanSign_digit hd r]
    have hvalue : (1 : Int) * Nat.ofDigitChars 10 (Nat.toDigits 10 n) 0 = n := by
      rw [Nat.ofDigitChars_ten_toDigits, Int.one_mul]
    rw [stoi_of_digits hscan Nat.toDigits_ne_nil (digits_toDigits _) (hvalue ▸ h), hvalue]
  · rcases n with _ | n
    · decide
    · have hscan : scanSign ((number (-(n + 1 : Nat))).dropWhile isSpace) = (-1, Nat.toDigits 10 (n + 1)) := by
        rw [number, toString_neg, List.dropWhile_cons_of_neg (by decide)]
        rfl
      have hvalue : (-1 : Int) * Nat.ofDigitChars 10 (Nat.toDigits 10 (n + 1)) 0 = -(n + 1 : Nat) := by
        rw [Nat.ofDigitChars_ten_toDigits]
        omega
      rw [stoi_of_digits hscan Nat.toDigits_ne_nil (digits_toDigits _) (hvalue ▸ h), hvalue]

/-! ## The text as an object -/

/-- A member as it is printed. -/
def member (f : Field) (value : Scalar) : Member := ⟨f.key, [], " ".toList, value, ",\n".toList ++ "  ".toList⟩

def members (c : ConfigState) : List Member := [
  member .mqttHost (.string c.mqtt.host),
  member .mqttPort (.bare (number c.mqtt.port)),
  member .cameraIndex (.bare (number c.cameraIndex)),
  member .inferenceIntervalMs (.bare (number c.inferenceIntervalMs)),
  member .watchdogIntervalSec (.bare (number c.watchdogIntervalSec)),
  member .mode (.string c.mode),
  member .inferenceTopic (.string c.inferenceTopic),
  member .telemetryTopic (.string c.telemetryTopic)]

def opening : Text := "\x7b\n".toList ++ "  ".toList

/-- The last member, which is not read. -/
def closing (c : ConfigState) : Text :=
  quote "color_thresholds".toList ++ ": [\n".toList ++ thresholdLines c.colorThresholds ++ "  ]\n".toList ++ "\x7d\n".toList

theorem colon_blank (s : Text) : ':' :: (" ".toList ++ s) = ": ".toList ++ s := rfl

theorem spell_member (tail : Text) (f : Field) (value : Scalar) (ms : List Member) :
    "  ".toList ++ spell tail (member f value :: ms) =
      "  ".toList ++ quote f.key ++ ": ".toList ++ value.text ++ ",\n".toList ++ ("  ".toList ++ spell tail ms) := by
  unfold member
  simp only [spell, List.nil_append, colon_blank, List.append_assoc]

theorem serialize_eq_spell (c : ConfigState) : serialize c = opening ++ spell (closing c) (members c) := by
  unfold serialize opening closing members textLine intLine
  simp only [List.append_assoc, spell_member]
  rfl

theorem opening_noQuote : '"' ∉ opening := by decide

theorem member_spaced (f : Field) (value : Scalar) : (member f value).Spaced where
  name := ⟨f.plainKey.noQuote, f.plainKey.noColon⟩
  gap := ⟨List.not_mem_nil, List.not_mem_nil⟩
  blanks := by
    have hall : " ".toList.all isBlank = true := by decide
    exact forall_of_all hall
  sep := by
    show '"' ∉ ",\n".toList ++ "  ".toList ∧ ':' ∉ ",\n".toList ++ "  ".toList ∧ ∃ c r, _ = c :: r ∧ isEnd c = true
    exact ⟨by decide, by decide, ',', _, rfl, by decide⟩

theorem members_spaced (c : ConfigState) : ∀ m ∈ members c, m.Spaced := by
  intro m hm
  simp only [members, List.mem_cons, List.not_mem_nil, or_false] at hm
  rcases hm with rfl | rfl | rfl | rfl | rfl | rfl | rfl | rfl
  all_goals exact member_spaced _ _

theorem members_bare (c : ConfigState) : ∀ m ∈ members c, ∀ t, m.value = .bare t → m.value.Plain := by
  intro m hm t ht
  simp only [members, List.mem_cons, List.not_mem_nil, or_false] at hm
  rcases hm with rfl | rfl | rfl | rfl | rfl | rfl | rfl | rfl
  all_goals first | cases ht; done | exact number_plain _

theorem string_plain {s : Text} (h : '"' ∉ s) : (Scalar.string s).Plain where
  noQuote := h
  bare t ht := by cases ht

/-- What is read of a field, from the member that the search comes to. -/
theorem extractStr_serialize {c : ConfigState} {f : Field} {m : Member} (hclear : Clear f.key (members c))
    (hreached : reached f.key (members c) = some m) : extractStr (serialize c) f.key = beforeQuote m.value.content := by
  rw [serialize_eq_spell]
  exact extractStr_spell f.plainKey opening_noQuote (members_spaced c) hclear hreached
    (members_bare c m (reached_mem hreached))

/-- The members between the port and the topics. -/
def behindPort (c : ConfigState) : List (Field × Scalar) := [
  (.cameraIndex, .bare (number c.cameraIndex)),
  (.inferenceIntervalMs, .bare (number c.inferenceIntervalMs)),
  (.watchdogIntervalSec, .bare (number c.watchdogIntervalSec)),
  (.mode, .string c.mode)]

section Reads
variable {c : ConfigState}

theorem read_mqttHost : extractStr (serialize c) Field.mqttHost.key = beforeQuote c.mqtt.host := by
  have hreached : reached Field.mqttHost.key (members c) = some (member .mqttHost (.string c.mqtt.host)) := if_pos rfl
  rw [extractStr_serialize (.inl rfl) hreached]
  rfl

theorem read_mqttPort (hhost : '"' ∉ c.mqtt.host) :
    extractStr (serialize c) Field.mqttPort.key = number c.mqtt.port := by
  have hreached : reached Field.mqttPort.key (members c) = some (member .mqttPort (.bare (number c.mqtt.port))) := by
    simp [reached, members, member, Field.key_inj]
  have hclear : Clear Field.mqttPort.key (members c) := by
    simp [Clear, members, member, Field.key_inj, string_plain hhost]
  rw [extractStr_serialize hclear hreached]
  exact beforeQuote_eq_self_iff.mpr (number_noQuote _)

/-- The numbers behind the port and the mode: the host may stand for the key, and then the port is read. -/
theorem read_behind_port (f : Field) (value : Scalar) (hhost : '"' ∉ c.mqtt.host)
    (hf : (f, value) ∈ behindPort c) :
    extractStr (serialize c) f.key = if c.mqtt.host = f.key then number c.mqtt.port else beforeQuote value.content := by
  have hreached : reached f.key (members c) =
      some (if c.mqtt.host = f.key then member .mqttPort (.bare (number c.mqtt.port)) else member f value) := by
    simp only [behindPort, List.mem_cons, Prod.mk.injEq, List.not_mem_nil, or_false] at hf
    rcases hf with ⟨rfl, rfl⟩ | ⟨rfl, rfl⟩ | ⟨rfl, rfl⟩ | ⟨rfl, rfl⟩
    all_goals
      simp only [reached, members, member, Field.key_inj, Scalar.string.injEq, reduceCtorEq, if_false, if_true,
        List.head?_cons]
      split <;> rfl
  have hclear : Clear f.key (members c) := by
    simp only [behindPort, List.mem_cons, Prod.mk.injEq, List.not_mem_nil, or_false] at hf
    rcases hf with ⟨rfl, rfl⟩ | ⟨rfl, rfl⟩ | ⟨rfl, rfl⟩ | ⟨rfl, rfl⟩
    all_goals simp [Clear, members, member, Field.key_inj, string_plain hhost, number_plain]
  rw [extractStr_serialize hclear hreached]
  split
  · exact beforeQuote_eq_self_iff.mpr (number_noQuote _)
  · rfl

/-- The mode may stand for this key too, and then the right value is read. -/
theorem read_inferenceTopic (hhost : '"' ∉ c.mqtt.host) (hmode : '"' ∉ c.mode) :
    extractStr (serialize c) Field.inferenceTopic.key =
      if c.mqtt.host = Field.inferenceTopic.key then number c.mqtt.port else beforeQuote c.inferenceTopic := by
  have hreached : reached Field.inferenceTopic.key (members c) =
      some (if c.mqtt.host = Field.inferenceTopic.key then member .mqttPort (.bare (number c.mqtt.port))
        else member .inferenceTopic (.string c.inferenceTopic)) := by
    simp only [reached, members, member, Field.key_inj, Scalar.string.injEq, reduceCtorEq, if_false, if_true,
      List.head?_cons, ite_self]
    split <;> rfl
  have hclear : Clear Field.inferenceTopic.key (members c) := by
    simp [Clear, members, member, Field.key_inj, string_plain hhost, string_plain hmode, number_plain]
  rw [extractStr_serialize hclear hreached]
  split
  · exact beforeQuote_eq_self_iff.mpr (number_noQuote _)
  · rfl

/-- When the mode stands for this key, the topic before it is read. -/
theorem read_telemetryTopic (hhost : '"' ∉ c.mqtt.host) (hmode : '"' ∉ c.mode) (htopic : '"' ∉ c.inferenceTopic) :
    extractStr (serialize c) Field.telemetryTopic.key =
      if c.mqtt.host = Field.telemetryTopic.key then number c.mqtt.port
      else if c.mode = Field.telemetryTopic.key then c.inferenceTopic else beforeQuote c.telemetryTopic := by
  have hreached : reached Field.telemetryTopic.key (members c) =
      some (if c.mqtt.host = Field.telemetryTopic.key then member .mqttPort (.bare (number c.mqtt.port))
        else if c.mode = Field.telemetryTopic.key then member .inferenceTopic (.string c.inferenceTopic)
        else member .telemetryTopic (.string c.telemetryTopic)) := by
    simp only [reached, members, member, Field.key_inj, Scalar.string.injEq, reduceCtorEq, if_false, if_true,
      List.head?_cons, ite_self]
    split
    · rfl
    · split <;> rfl
  have hclear : Clear Field.telemetryTopic.key (members c) := by
    simp [Clear, members, member, Field.key_inj, string_plain hhost, string_plain hmode, string_plain htopic, number_plain]
  rw [extractStr_serialize hclear hreached]
  split
  · exact beforeQuote_eq_self_iff.mpr (number_noQuote _)
  · split
    · exact beforeQuote_eq_self_iff.mpr htopic
    · rfl

end Reads

/-! ## Reachable configurations -/

theorem stoi_inRange {s : Text} {v : Int} (h : stoi s = some v) : InRange v := by
  unfold stoi at h
  dsimp only at h
  split at h
  · cases h
  split at h
  · rename_i hrange
    cases h
    exact hrange
  · cases h

theorem extractInt_inRange {json key : Text} {defaultVal : Int} (h : InRange defaultVal) :
    InRange (extractInt json key defaultVal) := by
  unfold extractInt
  cases hstoi : stoi (extractStr json key) with
  | none => exact h
  | some v => exact stoi_inRange hstoi

/-- What holds of every configuration that is loaded or applied. -/
structure Sound (c : ConfigState) : Prop where
  host : c.mqtt.host ≠ []
  port : c.mqtt.port ≠ 0
  mode : c.mode ≠ []
  inferenceTopic : c.inferenceTopic ≠ []
  telemetryTopic : c.telemetryTopic ≠ []
  portRange : InRange c.mqtt.port
  cameraIndex : InRange c.cameraIndex
  inferenceIntervalMs : InRange c.inferenceIntervalMs
  watchdogIntervalSec : InRange c.watchdogIntervalSec
  colorThresholds : c.colorThresholds = []
  configTopic : c.configTopic = "novamex/vision/config/update".toList

theorem sound_default : Sound {} := by
  constructor <;> decide

theorem sound_applyJson {cur : ConfigState} (hcur : Sound cur) (text : Text) : Sound (applyJson cur text) := by
  have hport : InRange (parseJson text).mqtt.port := extractInt_inRange (by decide)
  rw [applyJson_eq]
  refine ⟨extractOr_ne_nil (by decide), ?_, extractOr_ne_nil (by decide), extractOr_ne_nil (by decide),
    extractOr_ne_nil (by decide), ?_, extractInt_inRange (by decide), extractInt_inRange (by decide),
    extractInt_inRange (by decide), rfl, rfl⟩
  · dsimp only
    split
    · exact hcur.port
    · assumption
  · dsimp only
    split
    · exact hcur.portRange
    · exact hport

theorem sound_foldl (texts : List Text) {c : ConfigState} (hc : Sound c) : Sound (texts.foldl applyJson c) := by
  induction texts generalizing c with
  | nil => exact hc
  | cons text texts ih => exact ih (sound_applyJson hc text)

/-! ## The round trip -/

/-- No string holds a quote, and no string that is printed before a key stands for it, unless what is read in its place is
the same. -/
structure RoundTrips (c : ConfigState) : Prop where
  host : '"' ∉ c.mqtt.host
  mode : '"' ∉ c.mode
  inferenceTopic : '"' ∉ c.inferenceTopic
  telemetryTopic : '"' ∉ c.telemetryTopic
  hostCameraIndex : c.mqtt.host = Field.cameraIndex.key → c.cameraIndex = c.mqtt.port
  hostInferenceIntervalMs : c.mqtt.host = Field.inferenceIntervalMs.key → c.inferenceIntervalMs = c.mqtt.port
  hostWatchdogIntervalSec : c.mqtt.host = Field.watchdogIntervalSec.key → c.watchdogIntervalSec = c.mqtt.port
  hostMode : c.mqtt.host = Field.mode.key → c.mode = number c.mqtt.port
  hostInferenceTopic : c.mqtt.host = Field.inferenceTopic.key → c.inferenceTopic = number c.mqtt.port
  hostTelemetryTopic : c.mqtt.host = Field.telemetryTopic.key → c.telemetryTopic = number c.mqtt.port
  modeTelemetryTopic : c.mqtt.host ≠ Field.telemetryTopic.key → c.mode = Field.telemetryTopic.key →
    c.telemetryTopic = c.inferenceTopic

section RoundTrip
variable {json key defaultVal w : Text}

/-- A string that was read up to its first quote. -/
theorem extractOr_beforeQuote_iff (h : extractStr json key = beforeQuote w) (hw : w ≠ []) (hdefault : '"' ∉ defaultVal) :
    extractOr json key defaultVal = w ↔ '"' ∉ w := by
  unfold extractOr
  rw [h]
  constructor
  · intro heq
    split at heq
    · rwa [← heq]
    · exact beforeQuote_eq_self_iff.mp heq
  · intro hquote
    rw [beforeQuote_eq_self_iff.mpr hquote, if_neg hw]

theorem extractOr_of_read {r : Text} (h : extractStr json key = r) (hr : r ≠ []) : extractOr json key defaultVal = r := by
  rw [extractOr, h, if_neg hr]

theorem extractInt_of_read {v d : Int} (h : extractStr json key = number v) (hv : InRange v) :
    extractInt json key d = v := by
  rw [extractInt, h, stoi_number hv, Option.getD_some]

end RoundTrip

/-- A number behind the port is read back, or the port is read in its place. -/
theorem extractInt_behind_port {c : ConfigState} (hport : InRange c.mqtt.port) (hhost : '"' ∉ c.mqtt.host) (f : Field)
    {v : Int} (hv : InRange v) (d : Int)
    (hf : (f, .bare (number v)) ∈ behindPort c) :
    extractInt (serialize c) f.key d = v ↔ (c.mqtt.host = f.key → v = c.mqtt.port) := by
  have hread := read_behind_port f (.bare (number v)) hhost hf
  by_cases hkey : c.mqtt.host = f.key
  · rw [if_pos hkey] at hread
    rw [extractInt_of_read hread hport]
    constructor
    · exact fun h _ => h.symm
    · exact fun h => (h hkey).symm
  · have hself : beforeQuote (Scalar.bare (number v)).content = number v :=
      beforeQuote_eq_self_iff.mpr (number_noQuote v)
    rw [if_neg hkey, hself] at hread
    exact iff_of_true (extractInt_of_read hread hv) fun h => absurd h hkey

/-- A string behind the port is read back, or the port is read in its place. -/
theorem extractOr_behind_port {c : ConfigState} {f : Field} {w d : Text} (hw : w ≠ []) (hd : '"' ∉ d)
    (hread : extractStr (serialize c) f.key = if c.mqtt.host = f.key then number c.mqtt.port else beforeQuote w) :
    extractOr (serialize c) f.key d = w ↔ '"' ∉ w ∧ (c.mqtt.host = f.key → w = number c.mqtt.port) := by
  by_cases hhost : c.mqtt.host = f.key
  · rw [if_pos hhost] at hread
    rw [extractOr_of_read hread (number_ne_nil _)]
    constructor
    · rintro rfl
      exact ⟨number_noQuote _, fun _ => rfl⟩
    · exact fun h => (h.2 hhost).symm
  · rw [if_neg hhost] at hread
    rw [extractOr_beforeQuote_iff hread hw hd]
    exact ⟨fun h => ⟨h, fun heq => absurd heq hhost⟩, fun h => h.1⟩

theorem extractOr_telemetryTopic {c : ConfigState} (hc : Sound c) (hhost : '"' ∉ c.mqtt.host) (hmode : '"' ∉ c.mode)
    (htopic : '"' ∉ c.inferenceTopic) {d : Text} (hd : '"' ∉ d) :
    extractOr (serialize c) Field.telemetryTopic.key d = c.telemetryTopic ↔ '"' ∉ c.telemetryTopic ∧
      (c.mqtt.host = Field.telemetryTopic.key → c.telemetryTopic = number c.mqtt.port) ∧
      (c.mqtt.host ≠ Field.telemetryTopic.key → c.mode = Field.telemetryTopic.key →
        c.telemetryTopic = c.inferenceTopic) := by
  have hread := read_telemetryTopic hhost hmode htopic
  by_cases hmodeKey : c.mqtt.host ≠ Field.telemetryTopic.key ∧ c.mode = Field.telemetryTopic.key
  · rw [if_neg hmodeKey.1, if_pos hmodeKey.2] at hread
    rw [extractOr_of_read hread hc.inferenceTopic]
    constructor
    · intro h
      rw [← h]
      exact ⟨htopic, fun heq => absurd heq hmodeKey.1, fun _ _ => rfl⟩
    · exact fun h => (h.2.2 hmodeKey.1 hmodeKey.2).symm
  · have hread' : extractStr (serialize c) Field.telemetryTopic.key =
        if c.mqtt.host = Field.telemetryTopic.key then number c.mqtt.port else beforeQuote c.telemetryTopic := by
      rw [hread]
      split
      · rfl
      · rename_i hne
        rw [if_neg fun heq => hmodeKey ⟨hne, heq⟩]
    rw [extractOr_behind_port hc.telemetryTopic hd hread', and_congr_right_iff]
    intro _
    exact ⟨fun h => ⟨h, fun hne heq => absurd ⟨hne, heq⟩ hmodeKey⟩, fun h => h.1⟩

section Fields
variable {c : ConfigState} (hc : Sound c) (cur : ConfigState)
include hc

theorem mqttHost_kept_iff :
    (applyJson cur (serialize c)).get .mqttHost = c.get .mqttHost ↔ '"' ∉ c.mqtt.host := by
  rw [applyJson_get]
  show extractOr (serialize c) Field.mqttHost.key "localhost".toList = c.mqtt.host ↔ _
  rw [extractOr_beforeQuote_iff read_mqttHost hc.host (by decide)]

theorem mqttPort_kept (hhost : '"' ∉ c.mqtt.host) :
    (applyJson cur (serialize c)).get .mqttPort = c.get .mqttPort := by
  rw [applyJson_get]
  show (if extractInt (serialize c) Field.mqttPort.key 1883 = 0 then cur.mqtt.port
    else extractInt (serialize c) Field.mqttPort.key 1883) = c.mqtt.port
  rw [extractInt_of_read (read_mqttPort hhost) hc.portRange, if_neg hc.port]

theorem mode_kept_iff (hhost : '"' ∉ c.mqtt.host) :
    (applyJson cur (serialize c)).get .mode = c.get .mode ↔
      '"' ∉ c.mode ∧ (c.mqtt.host = Field.mode.key → c.mode = number c.mqtt.port) := by
  rw [applyJson_get]
  show extractOr (serialize c) Field.mode.key "inspection".toList = c.mode ↔ _
  have hread := read_behind_port .mode (.string c.mode) hhost (by simp [behindPort])
  rw [extractOr_behind_port hc.mode (by decide) hread]

theorem cameraIndex_kept_iff (hhost : '"' ∉ c.mqtt.host) :
    (applyJson cur (serialize c)).get .cameraIndex = c.get .cameraIndex ↔
      (c.mqtt.host = Field.cameraIndex.key → c.cameraIndex = c.mqtt.port) := by
  rw [applyJson_get]
  show extractInt (serialize c) Field.cameraIndex.key 0 = c.cameraIndex ↔ _
  exact extractInt_behind_port hc.portRange hhost .cameraIndex hc.cameraIndex 0 (by simp [behindPort])

theorem inferenceIntervalMs_kept_iff (hhost : '"' ∉ c.mqtt.host) :
    (applyJson cur (serialize c)).get .inferenceIntervalMs = c.get .inferenceIntervalMs ↔
      (c.mqtt.host = Field.inferenceIntervalMs.key → c.inferenceIntervalMs = c.mqtt.port) := by
  rw [applyJson_get]
  show extractInt (serialize c) Field.inferenceIntervalMs.key 666 = c.inferenceIntervalMs ↔ _
  exact extractInt_behind_port hc.portRange hhost .inferenceIntervalMs hc.inferenceIntervalMs 666 (by simp [behindPort])

theorem watchdogIntervalSec_kept_iff (hhost : '"' ∉ c.mqtt.host) :
    (applyJson cur (serialize c)).get .watchdogIntervalSec = c.get .watchdogIntervalSec ↔
      (c.mqtt.host = Field.watchdogIntervalSec.key → c.watchdogIntervalSec = c.mqtt.port) := by
  rw [applyJson_get]
  show extractInt (serialize c) Field.watchdogIntervalSec.key 5 = c.watchdogIntervalSec ↔ _
  exact extractInt_behind_port hc.portRange hhost .watchdogIntervalSec hc.watchdogIntervalSec 5 (by simp [behindPort])

theorem inferenceTopic_kept_iff (hhost : '"' ∉ c.mqtt.host) (hmode : '"' ∉ c.mode) :
    (applyJson cur (serialize c)).get .inferenceTopic = c.get .inferenceTopic ↔ '"' ∉ c.inferenceTopic ∧
      (c.mqtt.host = Field.inferenceTopic.key → c.inferenceTopic = number c.mqtt.port) := by
  rw [applyJson_get]
  show extractOr (serialize c) Field.inferenceTopic.key "novamex/vision/inference".toList = c.inferenceTopic ↔ _
  rw [extractOr_behind_port hc.inferenceTopic (by decide) (read_inferenceTopic hhost hmode)]

theorem telemetryTopic_kept_iff (hhost : '"' ∉ c.mqtt.host) (hmode : '"' ∉ c.mode) (htopic : '"' ∉ c.inferenceTopic) :
    (applyJson cur (serialize c)).get .telemetryTopic = c.get .telemetryTopic ↔ '"' ∉ c.telemetryTopic ∧
      (c.mqtt.host = Field.telemetryTopic.key → c.telemetryTopic = number c.mqtt.port) ∧
      (c.mqtt.host ≠ Field.telemetryTopic.key → c.mode = Field.telemetryTopic.key →
        c.telemetryTopic = c.inferenceTopic) := by
  rw [applyJson_get]
  show extractOr (serialize c) Field.telemetryTopic.key "novamex/vision/telemetry".toList = c.telemetryTopic ↔ _
  rw [extractOr_telemetryTopic hc hhost hmode htopic (by decide)]

theorem applyJson_serialize_iff : applyJson cur (serialize c) = c ↔ RoundTrips c := by
  constructor
  · intro h
    have hget : ∀ f, (applyJson cur (serialize c)).get f = c.get f := fun f => by rw [h]
    have hhost := (mqttHost_kept_iff hc cur).mp (hget _)
    obtain ⟨hmode, hhostMode⟩ := (mode_kept_iff hc cur hhost).mp (hget _)
    obtain ⟨htopic, hhostTopic⟩ := (inferenceTopic_kept_iff hc cur hhost hmode).mp (hget _)
    obtain ⟨htelemetry, hhostTelemetry, hmodeTelemetry⟩ :=
      (telemetryTopic_kept_iff hc cur hhost hmode htopic).mp (hget _)
    exact ⟨hhost, hmode, htopic, htelemetry, (cameraIndex_kept_iff hc cur hhost).mp (hget _),
      (inferenceIntervalMs_kept_iff hc cur hhost).mp (hget _), (watchdogIntervalSec_kept_iff hc cur hhost).mp (hget _),
      hhostMode, hhostTopic, hhostTelemetry, hmodeTelemetry⟩
  · intro h
    apply ConfigState.get_ext
    intro f
    cases f with
    | mqttHost => exact (mqttHost_kept_iff hc cur).mpr h.host
    | mqttPort => exact mqttPort_kept hc cur h.host
    | cameraIndex => exact (cameraIndex_kept_iff hc cur h.host).mpr h.hostCameraIndex
    | inferenceIntervalMs => exact (inferenceIntervalMs_kept_iff hc cur h.host).mpr h.hostInferenceIntervalMs
    | watchdogIntervalSec => exact (watchdogIntervalSec_kept_iff hc cur h.host).mpr h.hostWatchdogIntervalSec
    | mode => exact (mode_kept_iff hc cur h.host).mpr ⟨h.mode, h.hostMode⟩
    | colorThresholds =>
      rw [applyJson_get]
      exact hc.colorThresholds.symm
    | inferenceTopic =>
      exact (inferenceTopic_kept_iff hc cur h.host h.mode).mpr ⟨h.inferenceTopic, h.hostInferenceTopic⟩
    | telemetryTopic =>
      exact (telemetryTopic_kept_iff hc cur h.host h.mode h.inferenceTopic).mpr
        ⟨h.telemetryTopic, h.hostTelemetryTopic, h.modeTelemetryTopic⟩
    | configTopic =>
      rw [applyJson_get]
      exact hc.configTopic.symm

end Fields

/-- **Round trip.** A configuration that any sequence of updates has made is loaded as it was written exactly when no
string holds a quote and no string stands for a later key. -/
theorem loadFile_serialize_iff (texts : List Text) (cur : ConfigState) :
    loadFile cur (some (serialize (texts.foldl applyJson {}))) = texts.foldl applyJson {} ↔
      RoundTrips (texts.foldl applyJson {}) :=
  applyJson_serialize_iff (sound_foldl texts sound_default) cur

/-- A host that is called like a later key. -/
theorem host_taken_for_key :
    let c := applyJson {} "\x7b\"mqtt_host\": \"camera_index\"\x7d".toList
    loadFile {} (some (serialize c)) ≠ c ∧ c.cameraIndex = 0 ∧
      (loadFile {} (some (serialize c))).cameraIndex = 1883 := by
  decide +kernel

/-- A mode with a quote in it. -/
example :
    let c := applyJson {} "\x7b\"mode\": [\"a\", \"b\"]\x7d".toList
    c.mode = "[\"a\"".toList ∧ (loadFile {} (some (serialize c))).mode = "[".toList := by
  decide +kernel

end IbarraGateway.GemaVision
