import IbarraGateway.Lib.Machine

/-!
# Data collector

`set_mode` on the thread of the commands, `infer` and `save_frame` on the consumer's thread; every access to one of the three
atomics is a step of its own. The consumer gets the time and the answer of `imwrite`.
-/

namespace IbarraGateway.GemaVision

inductive Mode
  | idle
  | calibration
  deriving DecidableEq, Repr

def kCaptureLimit : Nat := 200

/-- What `build_filename` puts into the name. -/
structure FileName where
  timestamp : Nat
  batch : Nat
  capture : Nat
  deriving DecidableEq, Repr

/-- `set_mode`, called by a command. -/
inductive Commander
  | idle
  | resetting
  | batching
  | announcing
  | completing
  deriving DecidableEq, Repr

/-- `infer`, with `save_frame`, `build_filename`, and `set_mode(IDLE)` at its end. -/
inductive Collector
  | ready
  | counting
  | naming
  | namingBatch (timestamp capture : Nat)
  | writing (name : FileName)
  | adding (name : FileName)
  | stopping
  | completing
  deriving DecidableEq, Repr

structure DataCollector where
  mode : Mode
  captureCount : Nat
  batchId : Nat
  commander : Commander
  collector : Collector
  deriving DecidableEq, Repr

def DataCollector.start : DataCollector := ⟨.idle, 0, 0, .idle, .ready⟩

/-- `began` : the mode was read, and the frame is to be saved. -/
inductive CollectorEvent
  | commanded (mode : Mode)
  | began
  | saved (name : FileName)
  | failed (name : FileName)
  | status (message : String)
  deriving DecidableEq, Repr

inductive CollectorInput
  | command (mode : Mode)
  | commander
  | collector (now : Nat) (written : Bool)
  deriving DecidableEq, Repr

namespace DataCollector

/-- The status when a calibration ends. -/
def complete (s : DataCollector) : CollectorEvent := .status ("calibration_complete:" ++ toString s.captureCount)

/-- The exchange at the head of `set_mode`, on the thread of the commands. -/
def command (s : DataCollector) (mode : Mode) : Option (DataCollector × List CollectorEvent) :=
  match s.commander with
  | .idle =>
    let next : Commander :=
      match mode with
      | .calibration => .resetting
      | .idle => if s.mode = .calibration then .completing else .idle
    some ({ s with mode := mode, commander := next }, [.commanded mode])
  | _ => none

/-- The rest of `set_mode`. -/
def commanderStep (s : DataCollector) : Option (DataCollector × List CollectorEvent) :=
  match s.commander with
  | .idle => none
  | .resetting => some ({ s with captureCount := 0, commander := .batching }, [])
  | .batching => some ({ s with batchId := s.batchId + 1, commander := .announcing }, [])
  | .announcing => some ({ s with commander := .idle }, [.status "calibration_started"])
  | .completing => some ({ s with commander := .idle }, [s.complete])

def progress (count : Nat) : List CollectorEvent :=
  if count % 10 = 0 ∨ count = kCaptureLimit then
    [.status ("capturing:" ++ toString count ++ "/" ++ toString kCaptureLimit)]
  else []

def collectorStep (s : DataCollector) (now : Nat) (written : Bool) : DataCollector × List CollectorEvent :=
  match s.collector with
  | .ready => if s.mode = .calibration then ({ s with collector := .counting }, [.began]) else (s, [])
  | .counting => ({ s with collector := if kCaptureLimit ≤ s.captureCount then .stopping else .naming }, [])
  | .naming => ({ s with collector := .namingBatch now s.captureCount }, [])
  | .namingBatch timestamp capture => ({ s with collector := .writing ⟨timestamp, s.batchId, capture⟩ }, [])
  | .writing name =>
    if written then ({ s with collector := .adding name }, [])
    else ({ s with collector := .stopping }, [.failed name, .status "error:write_failed"])
  | .adding name =>
    let newCount := s.captureCount + 1
    ({ s with captureCount := newCount, collector := if kCaptureLimit ≤ newCount then .stopping else .ready },
      .saved name :: progress newCount)
  | .stopping =>
    ({ s with mode := .idle, collector := if s.mode = .calibration then .completing else .ready }, [])
  | .completing => ({ s with collector := .ready }, [s.complete])

end DataCollector

def dataCollector : Machine DataCollector CollectorInput CollectorEvent where
  step s
    | .command mode => s.command mode
    | .commander => s.commanderStep
    | .collector now written => some (s.collectorStep now written)

end IbarraGateway.GemaVision
