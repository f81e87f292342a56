import IbarraGateway.Lib.StreamText
import IbarraGateway.Lib.Utf8

/-!
# Results of the inference

`serialize_to_json` : the payload as bytes. The texts of a result are put between their quotes as they are.
-/

namespace IbarraGateway.GemaVision

/-- `cv::Rect`. -/
structure Rect where
  x : Int
  y : Int
  width : Int
  height : Int
  deriving DecidableEq, Repr

/-- The members of `VisualPrimitive` that are published. -/
structure VisualPrimitive where
  bbox : Rect
  confidence : FloatValue := .finite false 0 0
  classId : Int := 0
  physicalX : FloatValue := .finite true 1 0
  physicalY : FloatValue := .finite true 1 0
  hasPhysicalCoords : Bool := false
  ocrText : List UInt8 := []
  colorPass : Bool := false
  deriving DecidableEq, Repr

structure InferenceResult where
  primitiveCount : Nat := 0
  defectCount : Int := 0
  ocrCount : Int := 0
  colorCount : Int := 0
  captureTimestamp : List UInt8
  primitives : List VisualPrimitive
  deriving DecidableEq, Repr

/-- A coordinate, or -1 where it is not finite. -/
def orMinusOne (x : FloatValue) : FloatValue := if x.isFinite then x else .finite true 1 0

def boolText (b : Bool) : List Char := if b then ['t', 'r', 'u', 'e'] else ['f', 'a', 'l', 's', 'e']

namespace VisualPrimitive
variable (p : VisualPrimitive)

/-- The lines up to the text's opening quote. -/
def beforeText : List Char :=
  "    \x7b\n".toList ++
  ("      \"class_id\": ".toList ++ (intText p.classId ++ (",\n".toList ++
  ("      \"confidence\": ".toList ++ (p.confidence.text ++ (",\n".toList ++
  ("      \"bbox\": [".toList ++ (intText p.bbox.x ++ (",".toList ++ (intText p.bbox.y ++ (",".toList ++
    (intText p.bbox.width ++ (",".toList ++ (intText p.bbox.height ++ ("],\n".toList ++
  ("      \"physical_coords_mm\": [".toList ++ ((orMinusOne p.physicalX).text ++ (", ".toList ++
    ((orMinusOne p.physicalY).text ++ ("],\n".toList ++
  ("      \"has_physical_coords\": ".toList ++ (boolText p.hasPhysicalCoords ++ (",\n".toList ++
  "      \"ocr_text\": \"".toList)))))))))))))))))))))))

/-- The lines from the text's closing quote. -/
def afterText : List Char :=
  "\",\n".toList ++ ("      \"color_pass\": ".toList ++ (boolText p.colorPass ++ ("\n".toList ++ "    \x7d".toList)))

def json : List UInt8 := Utf8.ascii p.beforeText ++ (p.ocrText ++ Utf8.ascii p.afterText)

end VisualPrimitive

/-- The loop over the primitives: a comma behind each but the last. -/
def primitivesJson : List VisualPrimitive → List UInt8
  | [] => []
  | [p] => p.json ++ Utf8.ascii "\n".toList
  | p :: q :: ps => p.json ++ (Utf8.ascii ",\n".toList ++ primitivesJson (q :: ps))

namespace InferenceResult
variable (r : InferenceResult)

def beforeTimestamp : List Char :=
  "\x7b\n".toList ++
  ("  \"primitive_count\": ".toList ++ (intText r.primitiveCount ++ (",\n".toList ++
  ("  \"defect_count\": ".toList ++ (intText r.defectCount ++ (",\n".toList ++
  ("  \"ocr_count\": ".toList ++ (intText r.ocrCount ++ (",\n".toList ++
  ("  \"color_count\": ".toList ++ (intText r.colorCount ++ (",\n".toList ++
  "  \"capture_timestamp\": \"".toList))))))))))))

def serializeToJson : List UInt8 :=
  Utf8.ascii r.beforeTimestamp ++ (r.captureTimestamp ++ (Utf8.ascii ("\",\n".toList ++ "  \"primitives\": [\n".toList) ++
    (primitivesJson r.primitives ++ Utf8.ascii ("  ]\n".toList ++ "\x7d\n".toList))))

/-- The texts that come from outside. -/
def texts : List (List UInt8) := r.captureTimestamp :: r.primitives.map VisualPrimitive.ocrText

end InferenceResult

/-- The topic of `publish`. -/
def inferenceTopic : String := "novamex/vision/inference"

end IbarraGateway.GemaVision
