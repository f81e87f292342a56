import IbarraGateway.Lib.Columns
import IbarraGateway.Lib.JsonPrint
import IbarraGateway.Lib.Rounding
import IbarraGateway.Lib.Utf8

/-!
# The system monitor

`evaluateHealthState`, `buildTelemetryPayload` and `parseDiskSpaceMb`; the payload is printed by `JSON.stringify`.

* `parseDiskSpaceMb_df` : what is read from the output of `df`, whatever blanks it has.
-/

namespace IbarraGateway.SystemMonitor
open JsonText (Quoted Doc)
open Columns (Blanks Framed IsRow trim collapse rowText columns)

/-! ## The payload -/

/-- A number of the program: what it is, and what it is printed as. -/
inductive Number
  | nan
  | infinite (neg : Bool)
  | finite (exact : ℚ) (printed : Numeral)

def Number.exceeds (bound : ℚ) : Number → Bool
  | .nan => false
  | .infinite neg => !neg
  | .finite exact _ => bound < exact

def evaluateHealthState (cpuTemp ramUsage : Number) : String :=
  if cpuTemp.exceeds 75 || ramUsage.exceeds 90 then "WARNING" else "ONLINE"

/-- The parameters of `buildTelemetryPayload`. -/
structure Params where
  cpuTemp : Number
  ramUsage : Number
  diskFreeMb : Number
  timestamp : List Char
  deviceId : Option (List Char)

/-- Texts in the output of `JSON.stringify`. -/
def stringified (text : List Char) : Quoted := .escaped (fun _ => false) text

/-- Numbers in it. -/
def Number.doc : Number → Doc
  | .finite _ printed => .num printed
  | _ => .null

/-- `deviceId || 'rpi_gateway_01'`. -/
def deviceName : Option (List Char) → List Char
  | none => "rpi_gateway_01".toList
  | some [] => "rpi_gateway_01".toList
  | some name => name

def metricDoc (name : String) (value : Number) (unit : Option String) : Doc :=
  .obj ([(stringified "name".toList, .str (stringified name.toList)), (stringified "value".toList, value.doc)] ++
    unit.toList.map fun u => (stringified "unit".toList, .str (stringified u.toList)))

def buildTelemetryPayload (p : Params) : Doc :=
  let health := evaluateHealthState p.cpuTemp p.ramUsage
  .obj [(stringified "device_id".toList, .str (stringified (deviceName p.deviceId))),
    (stringified "device_type".toList, .str (stringified "gateway".toList)),
    (stringified "timestamp".toList, .str (stringified p.timestamp)),
    (stringified "node_health".toList, .str (stringified health.toList)),
    (stringified "metrics".toList, .arr [
      metricDoc "cpu_temp_celsius" p.cpuTemp (some "°C"),
      metricDoc "ram_usage_percent" p.ramUsage none,
      metricDoc "disk_free_mb" p.diskFreeMb (some "MB")])]

/-- The default topic. -/
def topic : String := "novamex/ibarra/it_infra/rpi5_001"

/-- What `pollMetrics` publishes. -/
def payload (p : Params) : List UInt8 := Utf8.encode ((buildTelemetryPayload p).text [])

/-! ## The free space -/

/-- `\s`. -/
def isBlank (c : Char) : Bool :=
  let n := c.toNat
  (9 ≤ n && n ≤ 13) || n = 0x20 || n = 0xA0 || n = 0x1680 || (0x2000 ≤ n && n ≤ 0x200A) || n = 0x2028 || n = 0x2029 || n = 0x202F ||
    n = 0x205F || n = 0x3000 || n = 0xFEFF

/-- What `parseInt` returns. Zero has no sign here. -/
inductive Parsed
  | nan
  | infinite (neg : Bool)
  | value (q : ℚ)
  deriving DecidableEq

/-- An integer as a number of the program: the nearest `double`. -/
def toNumber (neg : Bool) (n : Nat) : Parsed :=
  if double n < 2 ^ 1024 then .value (if neg then -double n else double n) else .infinite neg

/-- The digits at the head of a text. -/
def parseDigits (neg : Bool) (s : List Char) : Parsed :=
  match s.takeWhile Char.isDigit with
  | [] => .nan
  | ds => toNumber neg (Nat.ofDigitChars 10 ds 0)

/-- `parseInt` with base 10. -/
def parseInt (s : List Char) : Parsed :=
  match s.dropWhile isBlank with
  | '-' :: s => parseDigits true s
  | '+' :: s => parseDigits false s
  | s => parseDigits false s

/-- `isNaN(freeMb) ? 15000 : freeMb`. -/
def Parsed.orDefault : Parsed → Parsed
  | nan => .value 15000
  | freeMb => freeMb

def parseDiskSpaceMb (dfOutput : List Char) : Parsed :=
  if dfOutput = [] then .value 15000
  else
    let lines := (trim isBlank dfOutput).splitOn '\n'
    match lines with
    | _ :: line :: _ =>
      let columnsLine := trim isBlank (collapse isBlank ' ' line)
      let cols := columnsLine.splitOn ' '
      match cols with
      | _ :: _ :: _ :: available :: _ => (parseInt available).orDefault
      | _ => .value 15000
    | _ => .value 15000

/-- Digits that have few enough bits are read as they are. -/
theorem parseInt_digits {ds rest : List Char} (hne : ds ≠ []) (hds : ∀ c ∈ ds, c.isDigit = true)
    (hrest : rest.head?.any Char.isDigit = false) (hsmall : Nat.ofDigitChars 10 ds 0 < 2 ^ 53) :
    parseInt (ds ++ rest) = .value (Nat.ofDigitChars 10 ds 0 : Nat) := by
  obtain ⟨d, ds', rfl⟩ := List.exists_cons_of_ne_nil hne
  have hdigit : d.isDigit = true := hds d List.mem_cons_self
  have hblank : isBlank d = false := by
    simp only [Char.isDigit, Bool.and_eq_true, decide_eq_true_eq, ge_iff_le, UInt32.le_iff_toNat_le] at hdigit
    obtain ⟨hlow, hhigh⟩ : 48 ≤ d.toNat ∧ d.toNat ≤ 57 := hdigit
    simp only [isBlank]
    grind
  have htake : ((d :: ds') ++ rest).takeWhile Char.isDigit = d :: ds' := by
    rw [List.takeWhile_append_of_pos hds]
    cases rest with
    | nil => simp
    | cons c rest =>
      have hc : ¬c.isDigit = true := by simpa using hrest
      rw [List.takeWhile_cons_of_neg hc, List.append_nil]
  have hplain : parseInt ((d :: ds') ++ rest) = parseDigits false ((d :: ds') ++ rest) := by
    unfold parseInt
    rw [List.cons_append, List.dropWhile_cons_of_neg (by simp [hblank])]
    split
    · rename_i heq
      cases heq
      exact absurd hdigit (by decide)
    · rename_i heq
      cases heq
      exact absurd hdigit (by decide)
    · rfl
  have hbound : ((Nat.ofDigitChars 10 (d :: ds') 0 : Nat) : ℚ) < 2 ^ 1024 := by
    calc ((Nat.ofDigitChars 10 (d :: ds') 0 : Nat) : ℚ) < 2 ^ 53 := by exact_mod_cast hsmall
      _ ≤ 2 ^ 1024 := pow_le_pow_right₀ one_le_two (by decide)
  rw [hplain, parseDigits, htake]
  show toNumber false _ = _
  rw [toNumber, double_natCast hsmall, if_pos hbound]
  rfl

/-- The output of `df`: a header, a row, and what may stand around them and behind the row. -/
structure DfOutput where
  lead : List Char
  header : List Char
  first : List Char
  others : List (List Char × List Char)
  /-- Behind the row: the end, or blanks up to the next line. -/
  below : Option (List Char × List Char)
  trail : List Char
  lead_blanks : Blanks isBlank lead
  header_framed : Framed isBlank header
  header_line : '\n' ∉ header
  row : IsRow isBlank first others
  row_line : ∀ x ∈ others, '\n' ∉ x.1
  below_blanks : ∀ b ∈ below, Blanks isBlank b.1 ∧ '\n' ∉ b.1 ∧ ∃ front c, b.2 = front ++ [c] ∧ isBlank c = false
  trail_blanks : Blanks isBlank trail

namespace DfOutput
variable (o : DfOutput)

def rest : List Char := o.below.elim [] fun b => b.1 ++ '\n' :: b.2

def body : List Char := o.header ++ '\n' :: (rowText o.first o.others ++ o.rest)

def text : List Char := o.lead ++ (o.body ++ o.trail)

theorem framed_body : Framed isBlank o.body := by
  have hhead := o.header_framed.append o.row.framed ['\n']
  unfold body rest
  cases hbelow : o.below with
  | none => simpa using hhead
  | some b =>
    obtain ⟨-, -, front, c, heq, hc⟩ := o.below_blanks b hbelow
    refine ⟨?_, o.header ++ '\n' :: (rowText o.first o.others ++ (b.1 ++ '\n' :: front)), c, by simp [heq], hc⟩
    obtain ⟨d, rest, heq', hd⟩ := o.header_framed.1
    exact ⟨d, _, by rw [heq', List.cons_append], hd⟩

theorem not_mem_row : '\n' ∉ rowText o.first o.others := by
  have hsolid {w : List Char} (hw : Columns.Word isBlank w) : '\n' ∉ w := fun hmem => by
    have hcontra := hw.solid '\n' hmem
    revert hcontra
    decide
  intro hmem
  rcases List.mem_append.mp hmem with hfirst | hothers
  · exact hsolid o.row.first hfirst
  · obtain ⟨x, hx, hmem⟩ := List.mem_flatMap.mp hothers
    rcases List.mem_append.mp hmem with hgap | hword
    · exact o.row_line x hx hgap
    · exact hsolid (o.row.others x hx).2 hword

/-- The second line is the row, with blanks behind it. -/
theorem lines_body : ∃ tail more, Blanks isBlank tail ∧
    o.body.splitOn '\n' = o.header :: (rowText o.first o.others ++ tail) :: more := by
  unfold body rest
  rw [List.splitOn_append_cons_self_of_not_mem o.header_line]
  cases hbelow : o.below with
  | none =>
    refine ⟨[], [], by simp [Blanks], ?_⟩
    rw [Option.elim_none, List.append_nil, List.splitOn_eq_singleton o.not_mem_row]
  | some b =>
    obtain ⟨hblanks, hline, -⟩ := o.below_blanks b hbelow
    refine ⟨b.1, b.2.splitOn '\n', hblanks, ?_⟩
    have hrow : '\n' ∉ rowText o.first o.others ++ b.1 := fun hmem => (List.mem_append.mp hmem).elim o.not_mem_row hline
    rw [Option.elim_some, ← List.append_assoc, List.splitOn_append_cons_self_of_not_mem hrow]

end DfOutput

/-- **`df` is read**: what stands at the head of the fourth column of the row below the header, and 15000 where there is no such
column or no number in it. An integer below 2^53 is read as it is. -/
theorem parseDiskSpaceMb_df (o : DfOutput) :
    parseDiskSpaceMb o.text = (((columns o.first o.others)[3]?.map parseInt).getD .nan).orDefault ∧
      ∀ ds rest, (columns o.first o.others)[3]? = some (ds ++ rest) → ds ≠ [] → (∀ c ∈ ds, c.isDigit = true) →
        rest.head?.any Char.isDigit = false → Nat.ofDigitChars 10 ds 0 < 2 ^ 53 →
        parseDiskSpaceMb o.text = .value (Nat.ofDigitChars 10 ds 0 : Nat) := by
  have hread : parseDiskSpaceMb o.text = (((columns o.first o.others)[3]?.map parseInt).getD .nan).orDefault := by
    obtain ⟨tail, more, htail, hlines⟩ := o.lines_body
    have hne : o.text ≠ [] := by
      obtain ⟨c, rest, heq, -⟩ := o.framed_body.1
      simp [DfOutput.text, heq]
    have hcols := Columns.columns_of_row o.row (show isBlank ' ' = true from rfl) htail
    rw [parseDiskSpaceMb, if_neg hne, DfOutput.text, Columns.trim_frame o.lead_blanks o.framed_body o.trail_blanks]
    simp only [hlines, hcols]
    rcases columns o.first o.others with _ | ⟨a, _ | ⟨b, _ | ⟨c, _ | ⟨d, cols⟩⟩⟩⟩ <;> rfl
  refine ⟨hread, fun ds rest hcolumn hne hds hrest hsmall => ?_⟩
  rw [hread, hcolumn, Option.map_some, Option.getD_some, parseInt_digits hne hds hrest hsmall]
  rfl

/-- The output on a gateway. -/
theorem rootfs_read : ∃ o : DfOutput,
    o.text = ("Filesystem     1M-blocks  Used Available Use% Mounted on\n" ++
      "/dev/root          29690  9215     19213  33% /hostfs\n").toList ∧ parseDiskSpaceMb o.text = .value 19213 := by
  have hword {w : List Char} (hne : w ≠ []) (hsolid : w.any isBlank = false) : Columns.Word isBlank w :=
    ⟨hne, fun c hc => Bool.eq_false_iff.mpr (List.any_eq_false.mp hsolid c hc)⟩
  have hgap {g : List Char} (hne : g ≠ []) (hblanks : g.all isBlank = true) : Columns.Gap isBlank g :=
    ⟨hne, List.all_eq_true.mp hblanks⟩
  let others : List (List Char × List Char) := [("          ".toList, "29690".toList), ("  ".toList, "9215".toList),
    ("     ".toList, "19213".toList), ("  ".toList, "33%".toList), (" ".toList, "/hostfs".toList)]
  have hothers : ∀ x ∈ others, (x.1 ≠ [] ∧ x.1.all isBlank = true) ∧ (x.2 ≠ [] ∧ x.2.any isBlank = false) ∧ '\n' ∉ x.1 := by decide
  let o : DfOutput := {
    lead := []
    header := "Filesystem     1M-blocks  Used Available Use% Mounted on".toList
    first := "/dev/root".toList
    others := others
    below := none
    trail := ['\n']
    lead_blanks := List.forall_mem_nil _
    header_framed := ⟨⟨_, _, rfl, by decide⟩, "Filesystem     1M-blocks  Used Available Use% Mounted o".toList, 'n', rfl, by decide⟩
    header_line := by decide
    row := ⟨hword (by decide) (by decide), fun x hx =>
      ⟨hgap (hothers x hx).1.1 (hothers x hx).1.2, hword (hothers x hx).2.1.1 (hothers x hx).2.1.2⟩⟩
    row_line := fun x hx => (hothers x hx).2.2
    below_blanks := nofun
    trail_blanks := List.forall_mem_singleton.mpr rfl }
  refine ⟨o, rfl, ?_⟩
  exact (parseDiskSpaceMb_df o).2 "19213".toList [] rfl (by decide) (List.all_eq_true.mp (by decide)) rfl (by decide)

end IbarraGateway.SystemMonitor
