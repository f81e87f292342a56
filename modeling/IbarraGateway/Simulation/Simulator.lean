import IbarraGateway.Lib.JsonPrint
import IbarraGateway.Lib.Utf8

/-!
# The machine simulator

What a simulated machine publishes: `build_payload`, its health when it starts, and the will that announces its death. The
texts are those of `json.dumps`, with a blank behind commas and colons and with everything but ASCII escaped.
-/

namespace IbarraGateway.Simulator
open JsonText (Quoted Doc)

/-- A text in the output of `json.dumps`. -/
def dumped (text : String) : Quoted := .escaped (fun c => 0x7E < c.toNat) text.toList

def dumps (d : Doc) : List UInt8 := Utf8.encode (d.text [' '])

/-- `_UNITS`. -/
def units : List (String × String) :=
  [("temperature", "celsius"), ("pressure", "bar"), ("cycles", "count"), ("spindle_speed", "rpm"), ("feed_rate", "mm_s"),
    ("tool_wear", "pct"), ("weld_temp", "celsius"), ("wire_feed", "m_min"), ("arc_voltage", "volt"), ("speed", "m_s"),
    ("load_percent", "pct"), ("motor_current", "amp"), ("chamber_temp", "celsius"), ("conveyor_speed", "m_s"),
    ("energy_kw", "kw"), ("drum_speed", "rpm"), ("water_temp", "celsius"), ("cycle_count", "count")]

def inferUnit (name : String) : String := (units.lookup name).getD "unknown"

/-- A metric of the machine, with the number that was drawn for it and the time in ms. -/
structure Draw where
  name : String
  value : Numeral
  timestamp : Int

def metricDoc (x : Draw) : Doc :=
  .obj [(dumped "name", .str (dumped x.name)), (dumped "value", .num x.value), (dumped "timestamp", .num (.ofInt x.timestamp)),
    (dumped "unit", .str (dumped (inferUnit x.name)))]

/-- `build_payload`; that `node_health` is set once more changes nothing. -/
def buildPayload (heartbeat : Int) (draws : List Draw) : Doc :=
  .obj [(dumped "node_health", .str (dumped "ONLINE")), (dumped "heartbeat", .num (.ofInt heartbeat)),
    (dumped "metrics", .arr (draws.map metricDoc))]

/-- `health_payload` and `ndeath_payload`. -/
def healthDoc (health : String) (timestamp : Int) : Doc :=
  .obj [(dumped "node_health", .str (dumped health)), (dumped "timestamp", .num (.ofInt timestamp))]

def dataTopic (area machine : String) : String := "novamex/ibarra/" ++ area ++ "/" ++ machine ++ "/data"

def healthTopic (area machine : String) : String := "novamex/ibarra/" ++ area ++ "/" ++ machine ++ "/health"

end IbarraGateway.Simulator
