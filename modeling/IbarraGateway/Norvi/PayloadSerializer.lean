import IbarraGateway.Lib.JsonPrint
import IbarraGateway.Lib.Utf8

/-!
# What the Norvi node publishes

`serializePayload`, and the will that the broker publishes for a node that is gone. `serializeJson` prints without blanks; a
`Quoted` is a string with what it is printed as.
-/

namespace IbarraGateway.Norvi
open JsonText (Quoted Doc)

/-- An entry of `metrics`. -/
def metricDoc (name : Quoted) (value : UInt32) (unit isoTimestamp : Quoted) : Doc :=
  .obj [(.literal "name", .str name), (.literal "value", .num (.ofInt value.toNat)), (.literal "unit", .str unit),
    (.literal "timestamp", .str isoTimestamp)]

def payloadDoc (cycleCount : UInt32) (isoTimestamp deviceId : Quoted) (uptimeS : UInt32) : Doc :=
  .obj [(.literal "device_id", .str deviceId), (.literal "device_type", .str (.literal "norvi")),
    (.literal "timestamp", .str isoTimestamp), (.literal "node_health", .str (.literal "ONLINE")),
    (.literal "metrics", .arr [
      metricDoc (.literal "production_cycle") cycleCount (.literal "count") isoTimestamp,
      metricDoc (.literal "uptime_s") uptimeS (.literal "s") isoTimestamp])]

def serializePayload (cycleCount : UInt32) (isoTimestamp deviceId : Quoted) (uptimeS : UInt32) : List UInt8 :=
  Utf8.encode ((payloadDoc cycleCount isoTimestamp deviceId uptimeS).text [])

/-- Where the node publishes, and where its will is published. -/
def lwtTopic : String := "novamex/ibarra/production/norvi_001"

def lwtPayload : List UInt8 := Utf8.encode "\x7b\"node_health\":\"OFFLINE\",\"metrics\":[]\x7d".toList

def lwtDoc : Doc := .obj [(.literal "node_health", .str (.literal "OFFLINE")), (.literal "metrics", .arr [])]

theorem lwtDoc_text : lwtDoc.text [] = "\x7b\"node_health\":\"OFFLINE\",\"metrics\":[]\x7d".toList := rfl

end IbarraGateway.Norvi
