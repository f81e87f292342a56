import IbarraGateway.Lib.JsonPrint
import IbarraGateway.Lib.Utf8

/-!
# The defect report

The payload that the main loop of the vision node puts together around `std::to_string`.
-/

namespace IbarraGateway.VisionEdge
open JsonText (Quoted Doc)

/-- Six digits, with zeros in front. -/
def sixDigits (n : Nat) : List Char := (Nat.toDigits 10 n).leftpad 6 '0'

theorem no_exponent_ne : ∀ e ∈ (none : Option (Bool × List Char)), e.2 ≠ [] := by simp

theorem no_exponent_digits : ∀ e ∈ (none : Option (Bool × List Char)), ∀ c ∈ e.2, c.isDigit = true := by simp

/-- `%f` : the nearest multiple of a millionth. -/
def fixed (neg : Bool) (q : ℚ) : Numeral :=
  let n := Numeral.roundEven (q * 10 ^ 6)
  { neg
    int := Nat.toDigits 10 (n / 10 ^ 6)
    frac := sixDigits (n % 10 ^ 6)
    exponent := none
    int_ne := Nat.toDigits_ne_nil
    int_digits := DecimalText.digits_toDigits _
    int_lead := Numeral.lead_toDigits
    frac_digits := fun c hc => by
      rcases List.mem_append.mp hc with hzero | hdigit
      · rw [List.eq_of_mem_replicate hzero]
        rfl
      · exact DecimalText.digits_toDigits _ c hdigit
    exponent_ne := no_exponent_ne
    exponent_digits := no_exponent_digits }

/-- `std::to_string`. -/
def toStringText : FloatValue → List Char
  | .finite neg mantissa exponent => (fixed neg (mantissa * 2 ^ exponent)).text
  | x => x.text

def defectTopic : String := "novamex/ibarra/quality/vision_001"

def defectPayload (subpixelDefect : FloatValue) : List UInt8 :=
  Utf8.encode ("\x7b\"defect_subpixel\": ".toList ++ (toStringText subpixelDefect ++ "\x7d".toList))

/-- A finite peak is printed as a document. -/
def defectDoc (n : Numeral) : Doc := .obj [(.literal "defect_subpixel", .num n)]

theorem defectDoc_text (n : Numeral) :
    (defectDoc n).text [' '] = "\x7b\"defect_subpixel\": ".toList ++ (n.text ++ "\x7d".toList) := by
  have hraw : (Quoted.literal "defect_subpixel").raw = "defect_subpixel".toList := Quoted.literal_raw rfl
  simp [defectDoc, Doc.text, JsonText.membersText, Quoted.text, hraw]

end IbarraGateway.VisionEdge
