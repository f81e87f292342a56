import IbarraGateway.GemaVision.ConfigManager
import IbarraGateway.Lib.JsonText

/-!
# Partial updates of the configuration

* `Update`, `Update.apply` : what a partial update is for. The keys that are present and valid take the given value, the
  others keep theirs; updates of different keys commute (`apply_comm`).
* `Takes` : the value that `apply_json` gives a field, as a condition on the text (`applyJson_get_iff`).
* `UpdateOf` : the updates that a JSON object can stand for.
* `absent_kept_iff` : a key that is absent gets the default of a fresh `ConfigState`, not the current value.
* `framed_plain_iff` : a flat object that is written plainly is a frame exactly over the configurations that have the defaults
  elsewhere.
* `applyJson_framed_iff` : when `apply_json` is such an update, for any text and for plain objects.
-/

namespace IbarraGateway.GemaVision

open TextSearch
open JsonText (Value units)

/-! ## Fields -/

inductive Field
  | mqttHost
  | mqttPort
  | cameraIndex
  | inferenceIntervalMs
  | watchdogIntervalSec
  | mode
  | colorThresholds
  | inferenceTopic
  | telemetryTopic
  | configTopic
  deriving DecidableEq, Repr

namespace Field

def Value : Field → Type
  | mqttPort | cameraIndex | inferenceIntervalMs | watchdogIntervalSec => Int
  | mqttHost | mode | inferenceTopic | telemetryTopic | configTopic => Text
  | colorThresholds => List ColorThreshold

def key : Field → Text
  | mqttHost => "mqtt_host".toList
  | mqttPort => "mqtt_port".toList
  | cameraIndex => "camera_index".toList
  | inferenceIntervalMs => "inference_interval_ms".toList
  | watchdogIntervalSec => "watchdog_interval_sec".toList
  | mode => "mode".toList
  | colorThresholds => "color_thresholds".toList
  | inferenceTopic => "inference_topic".toList
  | telemetryTopic => "telemetry_topic".toList
  | configTopic => "config_topic".toList

theorem key_inj {f g : Field} : f.key = g.key ↔ f = g := by
  constructor
  · cases f <;> cases g <;> decide
  · intro h
    rw [h]

theorem plainKey (f : Field) : PlainKey f.key := by
  constructor
  · cases f <;> decide
  · cases f <;> decide
  · apply forall_of_any
    cases f <;> decide

end Field

namespace ConfigState

def get (c : ConfigState) : (f : Field) → f.Value
  | .mqttHost => c.mqtt.host
  | .mqttPort => c.mqtt.port
  | .cameraIndex => c.cameraIndex
  | .inferenceIntervalMs => c.inferenceIntervalMs
  | .watchdogIntervalSec => c.watchdogIntervalSec
  | .mode => c.mode
  | .colorThresholds => c.colorThresholds
  | .inferenceTopic => c.inferenceTopic
  | .telemetryTopic => c.telemetryTopic
  | .configTopic => c.configTopic

def ofFields (v : (f : Field) → f.Value) : ConfigState where
  mqtt := ⟨v .mqttHost, v .mqttPort⟩
  cameraIndex := v .cameraIndex
  inferenceIntervalMs := v .inferenceIntervalMs
  watchdogIntervalSec := v .watchdogIntervalSec
  mode := v .mode
  colorThresholds := v .colorThresholds
  inferenceTopic := v .inferenceTopic
  telemetryTopic := v .telemetryTopic
  configTopic := v .configTopic

theorem get_ofFields (v : (f : Field) → f.Value) (f : Field) : (ofFields v).get f = v f := by
  cases f <;> rfl

theorem get_ext {c d : ConfigState} (h : ∀ f, c.get f = d.get f) : c = d := by
  have hof : ∀ c : ConfigState, c = ofFields c.get := fun _ => rfl
  rw [hof c, hof d, funext h]

end ConfigState

/-! ## Updates -/

/-- What an object says about a key. -/
inductive Given (α : Type)
  | absent
  | value (v : α)
  | invalid

/-- What a field is to be after the update; nothing is said of an invalid value. -/
def Given.wanted {α : Type} (old : α) : Given α → Option α
  | absent => some old
  | value v => some v
  | invalid => none

abbrev Update : Type := (f : Field) → Given f.Value

namespace Update

def Valid (u : Update) : Prop := ∀ f, u f ≠ .invalid

def Disjoint (u u' : Update) : Prop := ∀ f, u f = .absent ∨ u' f = .absent

def apply (u : Update) (cur : ConfigState) : ConfigState :=
  .ofFields fun f => ((u f).wanted (cur.get f)).getD (cur.get f)

theorem apply_get (u : Update) (cur : ConfigState) (f : Field) :
    (u.apply cur).get f = ((u f).wanted (cur.get f)).getD (cur.get f) :=
  ConfigState.get_ofFields _ f

theorem apply_get_absent {u : Update} {f : Field} (h : u f = .absent) (cur : ConfigState) :
    (u.apply cur).get f = cur.get f := by
  rw [apply_get, h]
  rfl

/-- Updates of different keys commute. -/
theorem apply_comm {u u' : Update} (h : Disjoint u u') (cur : ConfigState) :
    u'.apply (u.apply cur) = u.apply (u'.apply cur) := by
  apply ConfigState.get_ext
  intro f
  rcases h f with hu | hu'
  · rw [apply_get, apply_get_absent hu, apply_get_absent hu, apply_get]
  · rw [apply_get_absent hu', apply_get, apply_get, apply_get_absent hu']

end Update

/-- The next state is the current one with the keys that were given. -/
def Framed (u : Update) (cur next : ConfigState) : Prop :=
  ∀ f w, (u f).wanted (cur.get f) = some w → next.get f = w

theorem framed_iff_apply {u : Update} (hu : u.Valid) {cur next : ConfigState} :
    Framed u cur next ↔ next = u.apply cur := by
  constructor
  · intro h
    apply ConfigState.get_ext
    intro f
    rw [Update.apply_get]
    cases hg : u f with
    | absent => exact h f _ (by rw [hg]; rfl)
    | value v => exact h f _ (by rw [hg]; rfl)
    | invalid => exact absurd hg (hu f)
  · rintro rfl f w hw
    rw [Update.apply_get, hw]
    rfl

/-! ## What the code takes from a text -/

/-- A string field: what is read, or the default when there is nothing to read. -/
def TakesText (text key defaultVal w : Text) : Prop :=
  w ≠ [] ∧ Reads text key w ∨ w = defaultVal ∧ ∀ s, s ≠ [] → ¬Reads text key s

/-- An integer field: what is read, or the default when no number is read. -/
def TakesInt (text key : Text) (defaultVal w : Int) : Prop :=
  (∃ s, Reads text key s ∧ stoi s = some w) ∨ w = defaultVal ∧ ∀ s v, Reads text key s → stoi s ≠ some v

theorem extractOr_eq_iff {text key defaultVal w : Text} :
    extractOr text key defaultVal = w ↔ TakesText text key defaultVal w := by
  unfold extractOr
  by_cases hnil : extractStr text key = []
  · rw [if_pos hnil]
    have hnone : ∀ s, s ≠ [] → ¬Reads text key s := by
      intro s hs hreads
      apply hs
      rw [← (extractStr_eq_iff hs).mpr hreads, hnil]
    constructor
    · intro h
      exact .inr ⟨h.symm, hnone⟩
    · rintro (⟨hw, hreads⟩ | ⟨hw, -⟩)
      · exact absurd hreads (hnone w hw)
      · exact hw.symm
  · rw [if_neg hnil]
    have hread := (extractStr_eq_iff hnil).mp rfl
    constructor
    · rintro rfl
      exact .inl ⟨hnil, hread⟩
    · rintro (⟨hw, hreads⟩ | ⟨-, hnone⟩)
      · exact (extractStr_eq_iff hw).mpr hreads
      · exact absurd hread (hnone _ hnil)

theorem extractInt_eq_iff {text key : Text} {defaultVal w : Int} :
    extractInt text key defaultVal = w ↔ TakesInt text key defaultVal w := by
  have hreads : ∀ s v, stoi s = some v → (Reads text key s ↔ extractStr text key = s) := by
    intro s v hv
    have hs : s ≠ [] := by
      rintro rfl
      cases hv
    exact (extractStr_eq_iff hs).symm
  unfold extractInt
  cases hstoi : stoi (extractStr text key) with
  | none =>
    have hnone : ∀ s v, Reads text key s → stoi s ≠ some v := by
      intro s v hs hv
      rw [(hreads s v hv).mp hs, hv] at hstoi
      cases hstoi
    constructor
    · intro h
      exact .inr ⟨h.symm, hnone⟩
    · rintro (⟨s, hs, hv⟩ | ⟨hw, -⟩)
      · exact absurd hv (hnone s w hs)
      · exact hw.symm
  | some v =>
    have hread := (hreads _ v hstoi).mpr rfl
    constructor
    · rintro rfl
      exact .inl ⟨_, hread, hstoi⟩
    · rintro (⟨s, hs, hv⟩ | ⟨-, hnone⟩)
      · rw [← (hreads s w hv).mp hs, hstoi] at hv
        exact Option.some.inj hv
      · exact absurd hstoi (hnone _ v hread)

/-- The value that a field gets, as a condition on the text. Two fields are not read at all; a port of 0 stands for none. -/
def Takes (cur : ConfigState) (text : Text) : (f : Field) → f.Value → Prop
  | .mqttHost, w => TakesText text Field.mqttHost.key "localhost".toList w
  | .mqttPort, (w : Int) => TakesInt text Field.mqttPort.key 1883 w ∧ w ≠ 0 ∨
      TakesInt text Field.mqttPort.key 1883 0 ∧ w = cur.mqtt.port
  | .cameraIndex, w => TakesInt text Field.cameraIndex.key 0 w
  | .inferenceIntervalMs, w => TakesInt text Field.inferenceIntervalMs.key 666 w
  | .watchdogIntervalSec, w => TakesInt text Field.watchdogIntervalSec.key 5 w
  | .mode, w => TakesText text Field.mode.key "inspection".toList w
  | .colorThresholds, w => w = []
  | .inferenceTopic, w => TakesText text Field.inferenceTopic.key "novamex/vision/inference".toList w
  | .telemetryTopic, w => TakesText text Field.telemetryTopic.key "novamex/vision/telemetry".toList w
  | .configTopic, w => w = "novamex/vision/config/update".toList

/-- A port of 0 is not taken. -/
theorem port_eq_iff {text key : Text} {defaultVal old w : Int} :
    (if extractInt text key defaultVal = 0 then old else extractInt text key defaultVal) = w ↔
      TakesInt text key defaultVal w ∧ w ≠ 0 ∨ TakesInt text key defaultVal 0 ∧ w = old := by
  rw [← extractInt_eq_iff, ← extractInt_eq_iff]
  split
  · rename_i hzero
    rw [hzero]
    constructor
    · rintro rfl
      exact .inr ⟨rfl, rfl⟩
    · rintro (⟨hw, hne⟩ | ⟨-, hw⟩)
      · exact absurd hw.symm hne
      · exact hw.symm
  · rename_i hne
    constructor
    · rintro rfl
      exact .inl ⟨rfl, hne⟩
    · rintro (⟨hw, -⟩ | ⟨hzero, -⟩)
      · exact hw
      · exact absurd hzero hne

/-- What `apply_json` makes of a text, by fields. -/
def taken (cur : ConfigState) (text : Text) : (f : Field) → f.Value
  | .mqttHost => extractOr text Field.mqttHost.key "localhost".toList
  | .mqttPort => if extractInt text Field.mqttPort.key 1883 = 0 then cur.mqtt.port
    else extractInt text Field.mqttPort.key 1883
  | .cameraIndex => extractInt text Field.cameraIndex.key 0
  | .inferenceIntervalMs => extractInt text Field.inferenceIntervalMs.key 666
  | .watchdogIntervalSec => extractInt text Field.watchdogIntervalSec.key 5
  | .mode => extractOr text Field.mode.key "inspection".toList
  | .colorThresholds => []
  | .inferenceTopic => extractOr text Field.inferenceTopic.key "novamex/vision/inference".toList
  | .telemetryTopic => extractOr text Field.telemetryTopic.key "novamex/vision/telemetry".toList
  | .configTopic => "novamex/vision/config/update".toList

theorem applyJson_get (cur : ConfigState) (text : Text) (f : Field) : (applyJson cur text).get f = taken cur text f := by
  rw [applyJson_eq]
  cases f <;> rfl

theorem applyJson_get_iff (cur : ConfigState) (text : Text) (f : Field) (w : f.Value) :
    (applyJson cur text).get f = w ↔ Takes cur text f w := by
  rw [applyJson_get]
  cases f with
  | mqttHost => exact extractOr_eq_iff
  | mqttPort => exact port_eq_iff
  | cameraIndex => exact extractInt_eq_iff
  | inferenceIntervalMs => exact extractInt_eq_iff
  | watchdogIntervalSec => exact extractInt_eq_iff
  | mode => exact extractOr_eq_iff
  | colorThresholds => exact eq_comm
  | inferenceTopic => exact extractOr_eq_iff
  | telemetryTopic => exact extractOr_eq_iff
  | configTopic => exact eq_comm

/-! ## When an update is a frame -/

/-- Every field takes what the update wants it to be. -/
def Undisturbed (u : Update) (cur : ConfigState) (text : Text) : Prop :=
  ∀ f w, (u f).wanted (cur.get f) = some w → Takes cur text f w

theorem framed_applyJson_iff {u : Update} {cur : ConfigState} {text : Text} :
    Framed u cur (applyJson cur text) ↔ Undisturbed u cur text := by
  constructor
  · intro h f w hw
    exact (applyJson_get_iff cur text f w).mp (h f w hw)
  · intro h f w hw
    exact (applyJson_get_iff cur text f w).mpr (h f w hw)

theorem applyJson_eq_apply {u : Update} (hu : u.Valid) {cur : ConfigState} {text : Text} (h : Undisturbed u cur text) :
    applyJson cur text = u.apply cur :=
  (framed_iff_apply hu).mp (framed_applyJson_iff.mpr h)

/-! ## Absent keys -/

/-- Where nothing can be read under the key, the field takes the default. -/
theorem takes_default_iff {text : Text} {f : Field} (h : ∀ s, s ≠ [] → ¬Reads text f.key s) (cur : ConfigState)
    (w : f.Value) : Takes cur text f w ↔ w = ({} : ConfigState).get f := by
  have hstr : extractStr text f.key = [] := by
    by_contra hne
    exact h _ hne ((extractStr_eq_iff hne).mp rfl)
  have hint : ∀ d, extractInt text f.key d = d := by
    intro d
    rw [extractInt, hstr]
    rfl
  have hor : ∀ d, extractOr text f.key d = d := by
    intro d
    rw [extractOr, if_pos hstr]
  have hget : (applyJson cur text).get f = ({} : ConfigState).get f := by
    rw [applyJson_get]
    cases f with
    | mqttHost => exact hor _
    | mqttPort =>
      have hport : extractInt text Field.mqttPort.key 1883 = 1883 := hint 1883
      refine (if_neg ?_).trans hport
      show extractInt text Field.mqttPort.key 1883 ≠ 0
      rw [hport]
      decide
    | cameraIndex => exact hint _
    | inferenceIntervalMs => exact hint _
    | watchdogIntervalSec => exact hint _
    | mode => exact hor _
    | colorThresholds => rfl
    | inferenceTopic => exact hor _
    | telemetryTopic => exact hor _
    | configTopic => rfl
  rw [← applyJson_get_iff, hget]
  exact eq_comm

theorem not_reads {text key : Text} (h : ¬quote key <:+: text) (s : Text) : ¬Reads text key s := by
  rintro ⟨before, gap, blanks, rest, ⟨hsplit, -⟩, -⟩
  exact h ⟨before, _, hsplit.symm⟩

/-- A field whose key does not stand in the text keeps its value exactly when it has the default. -/
theorem absent_kept_iff (cur : ConfigState) {text : Text} {f : Field} (h : ¬quote f.key <:+: text) :
    (applyJson cur text).get f = cur.get f ↔ cur.get f = ({} : ConfigState).get f := by
  rw [applyJson_get_iff, takes_default_iff fun s _ => not_reads h s]

/-! ## Updates that are objects -/

/-- A value of an object, as one for the field; of a list of thresholds, how long it is. -/
def Says : (f : Field) → Value → f.Value → Prop
  | .mqttPort, v, (w : Int) => v = .num w ∧ -2 ^ 31 ≤ w ∧ w < 2 ^ 31
  | .cameraIndex, v, (w : Int) => v = .num w ∧ -2 ^ 31 ≤ w ∧ w < 2 ^ 31
  | .inferenceIntervalMs, v, (w : Int) => v = .num w ∧ -2 ^ 31 ≤ w ∧ w < 2 ^ 31
  | .watchdogIntervalSec, v, (w : Int) => v = .num w ∧ -2 ^ 31 ≤ w ∧ w < 2 ^ 31
  | .mqttHost, v, (w : Text) => v = .str (units w)
  | .mode, v, (w : Text) => v = .str (units w)
  | .inferenceTopic, v, (w : Text) => v = .str (units w)
  | .telemetryTopic, v, (w : Text) => v = .str (units w)
  | .configTopic, v, (w : Text) => v = .str (units w)
  | .colorThresholds, v, (w : List ColorThreshold) => ∃ items, v = .arr items ∧ items.length = w.length

/-- The update that the object stands for: its keys, with the values that are ones for their fields. -/
structure UpdateOf (object : Value) (u : Update) : Prop where
  absent_iff : ∀ f, u f = .absent ↔ object.get (units f.key) = none
  value : ∀ f w, u f = .value w → ∃ v, object.get (units f.key) = some v ∧ Says f v w
  invalid : ∀ f v w, u f = .invalid → object.get (units f.key) = some v → ¬Says f v w

/-! ## Plain objects -/

/-- A value is written so that the code can read it. -/
def Spells : (f : Field) → Scalar → f.Value → Prop
  | .mqttPort, value, w => ∃ t, value = .bare t ∧ stoi t = some w
  | .cameraIndex, value, w => ∃ t, value = .bare t ∧ stoi t = some w
  | .inferenceIntervalMs, value, w => ∃ t, value = .bare t ∧ stoi t = some w
  | .watchdogIntervalSec, value, w => ∃ t, value = .bare t ∧ stoi t = some w
  | .mqttHost, value, (w : Text) => value = .string w
  | .mode, value, (w : Text) => value = .string w
  | .inferenceTopic, value, (w : Text) => value = .string w
  | .telemetryTopic, value, (w : Text) => value = .string w
  | .colorThresholds, _, _ => True
  | .configTopic, _, _ => True

/-- A value that the code takes where it can read it: no empty string, no port of 0; two fields are not read. -/
def Accepts (cur : ConfigState) : (f : Field) → f.Value → Prop
  | .mqttPort, (w : Int) => w ≠ 0 ∨ cur.mqtt.port = 0
  | .cameraIndex, _ => True
  | .inferenceIntervalMs, _ => True
  | .watchdogIntervalSec, _ => True
  | .mqttHost, (w : Text) => w ≠ []
  | .mode, (w : Text) => w ≠ []
  | .inferenceTopic, (w : Text) => w ≠ []
  | .telemetryTopic, (w : Text) => w ≠ []
  | .colorThresholds, (w : List ColorThreshold) => w = []
  | .configTopic, (w : Text) => w = "novamex/vision/config/update".toList

/-- What is left to ask of a plain object: the defaults where it gives nothing, and values that are taken. -/
structure Settled (u : Update) (cur : ConfigState) : Prop where
  absent : ∀ f, u f = .absent → cur.get f = ({} : ConfigState).get f
  given : ∀ f w, u f = .value w → Accepts cur f w

/-- A flat object and what it gives: strings without quotes that are no keys, values as the code reads them. -/
structure PlainObject (ms : List Member) (u : Update) : Prop where
  spaced : ∀ m ∈ ms, m.Spaced
  plain : ∀ m ∈ ms, m.value.Plain
  noKey : ∀ m ∈ ms, ∀ f : Field, m.value ≠ .string f.key
  given : ∀ f w, u f = .value w → ∃ m, reached f.key ms = some m ∧ Spells f m.value w
  absent : ∀ f, u f = .absent → ∀ m ∈ ms, m.name ≠ f.key

section Plain
variable {opening tail : Text} {ms : List Member} {u : Update}

theorem takesText_iff_of_spell {f : Field} {m : Member} {w : Text} (hobj : PlainObject ms u) (hopening : '"' ∉ opening)
    (hreached : reached f.key ms = some m) (hw : m.value = .string w) {defaultVal : Text} (hdefault : defaultVal ≠ []) :
    TakesText (opening ++ spell tail ms) f.key defaultVal w ↔ w ≠ [] := by
  have hread : extractStr (opening ++ spell tail ms) f.key = w := by
    rw [extractStr_spell_plain f.plainKey hopening hobj.spaced hobj.plain hreached, hw]
    rfl
  rw [← extractOr_eq_iff, extractOr, hread]
  by_cases hnil : w = []
  · rw [if_pos hnil, hnil]
    exact iff_of_false hdefault (fun h => h rfl)
  · rw [if_neg hnil]
    exact iff_of_true rfl hnil

theorem takesInt_iff_of_spell {f : Field} {m : Member} {w : Int} (hobj : PlainObject ms u) (hopening : '"' ∉ opening)
    (hreached : reached f.key ms = some m) (hw : ∃ t, m.value = .bare t ∧ stoi t = some w) (defaultVal v : Int) :
    TakesInt (opening ++ spell tail ms) f.key defaultVal v ↔ w = v := by
  obtain ⟨t, hvalue, ht⟩ := hw
  have hread : extractInt (opening ++ spell tail ms) f.key defaultVal = w := by
    rw [extractInt, extractStr_spell_plain f.plainKey hopening hobj.spaced hobj.plain hreached, hvalue]
    show (stoi t).getD _ = w
    rw [ht, Option.getD_some]
  rw [← extractInt_eq_iff, hread]

/-- Nothing can be read under a key that a plain object does not have. -/
theorem plain_not_reads (hobj : PlainObject ms u) (hopening : '"' ∉ opening) (htail : '"' ∉ tail) {f : Field}
    (hf : u f = .absent) (s : Text) : ¬Reads (opening ++ spell tail ms) f.key s := by
  have hfind : findAfter (quote f.key) (opening ++ spell tail ms) = none := by
    rw [quote, findAfter_skip hopening]
    exact findAfter_spell_none f.plainKey hobj.spaced hobj.plain
      (fun m hm => ⟨hobj.absent f hf m hm, hobj.noKey m hm f⟩) htail
  exact not_reads (findAfter_eq_none_iff.mp hfind) s

theorem takes_given_iff (hobj : PlainObject ms u) (hopening : '"' ∉ opening) (cur : ConfigState) {f : Field} {w : f.Value}
    (hf : u f = .value w) : Takes cur (opening ++ spell tail ms) f w ↔ Accepts cur f w := by
  obtain ⟨m, hreached, hspells⟩ := hobj.given f w hf
  cases f with
  | mqttHost => exact takesText_iff_of_spell hobj hopening hreached hspells (by decide)
  | mqttPort =>
    refine (or_congr (and_congr_left' (takesInt_iff_of_spell hobj hopening hreached hspells _ _))
      (and_congr_left' (takesInt_iff_of_spell hobj hopening hreached hspells _ _))).trans ?_
    have hport (w port : Int) : w = w ∧ w ≠ 0 ∨ w = 0 ∧ w = port ↔ w ≠ 0 ∨ port = 0 := by omega
    exact hport w cur.mqtt.port
  | cameraIndex => exact iff_of_true ((takesInt_iff_of_spell hobj hopening hreached hspells _ _).mpr rfl) trivial
  | inferenceIntervalMs => exact iff_of_true ((takesInt_iff_of_spell hobj hopening hreached hspells _ _).mpr rfl) trivial
  | watchdogIntervalSec => exact iff_of_true ((takesInt_iff_of_spell hobj hopening hreached hspells _ _).mpr rfl) trivial
  | mode => exact takesText_iff_of_spell hobj hopening hreached hspells (by decide)
  | colorThresholds => exact Iff.rfl
  | inferenceTopic => exact takesText_iff_of_spell hobj hopening hreached hspells (by decide)
  | telemetryTopic => exact takesText_iff_of_spell hobj hopening hreached hspells (by decide)
  | configTopic => exact Iff.rfl

/-- A plain object is a frame exactly over the configurations that have the defaults where it gives nothing, if its values are
taken. -/
theorem framed_plain_iff (hobj : PlainObject ms u) (hopening : '"' ∉ opening) (htail : '"' ∉ tail) (cur : ConfigState) :
    Framed u cur (applyJson cur (opening ++ spell tail ms)) ↔ Settled u cur := by
  rw [framed_applyJson_iff]
  constructor
  · refine fun h => ⟨fun f hf => ?_, fun f w hf => ?_⟩
    · have htakes := h f (cur.get f) (by rw [hf]; rfl)
      rwa [takes_default_iff fun s _ => plain_not_reads hobj hopening htail hf s] at htakes
    · exact (takes_given_iff hobj hopening cur hf).mp (h f w (by rw [hf]; rfl))
  · intro h f w hw
    cases hf : u f with
    | absent =>
      rw [hf] at hw
      cases hw
      rw [takes_default_iff fun s _ => plain_not_reads hobj hopening htail hf s]
      exact h.absent f hf
    | invalid =>
      rw [hf] at hw
      cases hw
    | value v =>
      rw [hf] at hw
      cases hw
      exact (takes_given_iff hobj hopening cur hf).mpr (h.given f _ hf)

end Plain

/-! ## Plain texts of objects -/

/-- A value as JSON. -/
def scalarValue : Scalar → Value
  | .string s => .str (units s)
  | .bare t =>
    match JsonText.wordToken t with
    | some (.num q) => .num q
    | some (.bool b) => .bool b
    | _ => .null

/-- The text of a flat object with names of its own: strings without escapes that are no keys, integers in digits. -/
structure PlainText (opening tail : Text) (ms : List Member) : Prop where
  opening : '"' ∉ opening
  tail : '"' ∉ tail
  spaced : ∀ m ∈ ms, m.Spaced
  plain : ∀ m ∈ ms, m.value.Plain
  noKey : ∀ m ∈ ms, ∀ f : Field, m.value ≠ .string f.key
  names : (ms.map Member.name).Nodup
  digits : ∀ m ∈ ms, ∀ t (w : Int), m.value = .bare t → scalarValue m.value = .num w → stoi t = some w

example : PlainText ['\x7b'] [] [⟨"mode".toList, [], [' '], .string "idle".toList, ['\x7d']⟩] where
  opening := by decide
  tail := by decide
  spaced m hm := by
    cases List.mem_singleton.mp hm
    exact ⟨by decide, by decide, forall_of_all (p := isBlank) (by decide), by decide, by decide, _, _, rfl, by decide⟩
  plain m hm := by
    cases List.mem_singleton.mp hm
    exact ⟨by decide, nofun⟩
  noKey m hm f := by
    cases List.mem_singleton.mp hm
    cases f <;> decide
  names := List.nodup_singleton _
  digits m hm := by
    cases List.mem_singleton.mp hm
    exact nofun

def objectOf (ms : List Member) : Value := .obj (ms.map fun m => (units m.name, scalarValue m.value))

theorem mem_of_get {ms : List Member} {key : Text} {v : Value} (h : (objectOf ms).get (units key) = some v) :
    ∃ m ∈ ms, m.name = key ∧ scalarValue m.value = v := by
  obtain ⟨before, after, hsplit, -⟩ := List.lookup_eq_some_iff.mp h
  have hmem : (units key, v) ∈ ms.map fun m => (units m.name, scalarValue m.value) := by
    rw [← List.mem_reverse, hsplit]
    simp
  obtain ⟨m, hm, heq⟩ := List.mem_map.mp hmem
  obtain ⟨hname, hvalue⟩ := Prod.mk.inj heq
  exact ⟨m, hm, JsonText.units_inj hname, hvalue⟩

theorem name_ne_of_get {ms : List Member} {key : Text} (h : (objectOf ms).get (units key) = none) : ∀ m ∈ ms, m.name ≠ key := by
  rintro m hm rfl
  have hnot := List.lookup_eq_none_iff.mp h (units m.name, scalarValue m.value) (List.mem_reverse.mpr (List.mem_map_of_mem hm))
  exact absurd (bne_iff_ne.mp hnot) (not_not_intro rfl)

/-- The member of a name of its own is the one that is reached. -/
theorem reached_of_mem {key : Text} {ms : List Member} (hnames : (ms.map Member.name).Nodup)
    (hkeys : ∀ m ∈ ms, m.value ≠ .string key) {m : Member} (hm : m ∈ ms) (hname : m.name = key) : reached key ms = some m := by
  induction ms with
  | nil => cases hm
  | cons first ms ih =>
    obtain ⟨hfirst, hrest⟩ := List.nodup_cons.mp hnames
    rw [reached]
    rcases List.mem_cons.mp hm with rfl | hm
    · rw [if_pos hname]
    · have hother : first.name ≠ key := by
        rintro hsame
        rw [hsame, ← hname] at hfirst
        exact hfirst (List.mem_map_of_mem hm)
      rw [if_neg hother, if_neg (hkeys first List.mem_cons_self)]
      exact ih hrest (fun m hm => hkeys m (List.mem_cons_of_mem _ hm)) hm

theorem scalarValue_str {value : Scalar} {w : Text} (h : scalarValue value = .str (units w)) : value = .string w := by
  cases value with
  | string s =>
    rw [scalarValue] at h
    rw [JsonText.units_inj (Value.str.inj h)]
  | bare t =>
    rw [scalarValue] at h
    split at h <;> cases h

theorem scalarValue_num {value : Scalar} {q : ℚ} (h : scalarValue value = .num q) : ∃ t, value = .bare t := by
  cases value with
  | string s => cases h
  | bare t => exact ⟨t, rfl⟩

/-- What a plain text gives is what its object says. -/
theorem plainObject_of_updateOf {opening tail : Text} {ms : List Member} {u : Update} (htext : PlainText opening tail ms)
    (hupdate : UpdateOf (objectOf ms) u) : PlainObject ms u where
  spaced := htext.spaced
  plain := htext.plain
  noKey := htext.noKey
  given := by
    intro f w hf
    obtain ⟨v, hget, hsays⟩ := hupdate.value f w hf
    obtain ⟨m, hm, hname, rfl⟩ := mem_of_get hget
    refine ⟨m, reached_of_mem htext.names (fun m hm => htext.noKey m hm f) hm hname, ?_⟩
    have hdigits {w : Int} (hnum : scalarValue m.value = .num w) : ∃ t, m.value = .bare t ∧ stoi t = some w := by
      obtain ⟨t, ht⟩ := scalarValue_num hnum
      exact ⟨t, ht, htext.digits m hm t w ht hnum⟩
    cases f with
    | mqttHost => exact scalarValue_str hsays
    | mqttPort => exact hdigits hsays.1
    | cameraIndex => exact hdigits hsays.1
    | inferenceIntervalMs => exact hdigits hsays.1
    | watchdogIntervalSec => exact hdigits hsays.1
    | mode => exact scalarValue_str hsays
    | colorThresholds => exact trivial
    | inferenceTopic => exact scalarValue_str hsays
    | telemetryTopic => exact scalarValue_str hsays
    | configTopic => exact trivial
  absent := fun f hf => name_ne_of_get ((hupdate.absent_iff f).mp hf)

/-- **Partial updates.** `apply_json` sets the given fields and keeps the others exactly when every field takes from the
text what it is to be; two such updates of different keys can be applied in either order. A field whose key does not stand in the
text is kept exactly when it has the default; and an object in plain spelling is applied as the update it stands for exactly when
its values are taken and all other fields have their defaults. -/
theorem applyJson_framed_iff (cur : ConfigState) (text : Text) (u : Update) :
    (Framed u cur (applyJson cur text) ↔ Undisturbed u cur text) ∧
      (∀ text' u', u.Valid → u'.Valid → u.Disjoint u' → Undisturbed u cur text → Undisturbed u' cur text' →
        Undisturbed u' (u.apply cur) text' → Undisturbed u (u'.apply cur) text →
        applyJson (applyJson cur text) text' = applyJson (applyJson cur text') text) ∧
      (∀ f : Field, ¬quote f.key <:+: text →
        ((applyJson cur text).get f = cur.get f ↔ cur.get f = ({} : ConfigState).get f)) ∧
      ∀ opening tail ms, text = opening ++ spell tail ms → PlainText opening tail ms →
        JsonText.parseText text = some (objectOf ms) → UpdateOf (objectOf ms) u →
        (Framed u cur (applyJson cur text) ↔ Settled u cur) := by
  refine ⟨framed_applyJson_iff, ?_, fun f hf => absent_kept_iff cur hf, ?_⟩
  · intro text' u' hu hu' hdisjoint h h' h₁ h₂
    rw [applyJson_eq_apply hu h, applyJson_eq_apply hu' h', applyJson_eq_apply hu' h₁, applyJson_eq_apply hu h₂]
    exact Update.apply_comm hdisjoint cur
  · rintro opening tail ms rfl htext - hupdate
    exact framed_plain_iff (plainObject_of_updateOf htext hupdate) htext.opening htext.tail cur

/-- A camera index of 3 does not survive a change of the mode, and the order of the two updates matters. -/
theorem camera_index_forgotten :
    let cur : ConfigState := { cameraIndex := 3 }
    let text := "\x7b\"mode\": \"idle\"\x7d".toList
    let u : Update := fun
      | .mode => .value "idle".toList
      | _ => .absent
    (∃ object, JsonText.parseText text = some object ∧ UpdateOf object u) ∧ (applyJson cur text).cameraIndex = 0 ∧
      ¬Framed u cur (applyJson cur text) ∧
      applyJson (applyJson {} "\x7b\"camera_index\": 3\x7d".toList) text ≠
        applyJson (applyJson {} text) "\x7b\"camera_index\": 3\x7d".toList := by
  refine ⟨⟨.obj [(units "mode".toList, .str (units "idle".toList))], rfl, ⟨fun f => ?_, fun f w hf => ?_, fun f v w hf => ?_⟩⟩,
    by decide, ?_, by decide⟩
  · cases f with
    | mode => exact iff_of_false nofun nofun
    | _ => exact iff_of_true rfl rfl
  · cases f with
    | mode =>
      cases hf
      exact ⟨_, rfl, rfl⟩
    | _ => cases hf
  · cases f <;> cases hf
  · intro h
    have hindex : (applyJson { cameraIndex := 3 } "\x7b\"mode\": \"idle\"\x7d".toList).cameraIndex = 3 :=
      h .cameraIndex (3 : Int) rfl
    exact absurd hindex (by decide)

end IbarraGateway.GemaVision
