import IbarraGateway.Lib.Machine
import IbarraGateway.ModbusBridge.ModbusRTUMaster
import Mathlib.Logic.Function.Basic

/-!
# Polling over a serial line

The slaves share one line, a FIFO of bytes. A slave may send anything at any time; a read takes any number of the bytes that
wait, up to the length of the expected response. A byte keeps its sender, and whether the sender had been asked by then,
for the statements only.
-/

namespace IbarraGateway.ModbusBridge

structure SentByte where
  byte : UInt8
  sender : Nat
  asked : Bool
  deriving DecidableEq, Repr

inductive Phase
  | idle
  | requesting (slave : Nat)
  | awaiting (slave : Nat)
  deriving DecidableEq, Repr

/-- The line and the orchestrator. -/
structure Bridge where
  line : List SentByte
  asked : Nat → Bool
  phase : Phase
  answers : Nat → ReadResult

def Bridge.start : Bridge where
  line := []
  asked := fun _ => false
  phase := .idle
  answers := fun _ => .modbusException

inductive Event
  | sent (slave : Nat) (bytes : List UInt8)
  | requested (slave : Nat)
  | marked (slave : Nat) (node : ModbusNodeState)
  | published (publication : Option Publication)
  deriving DecidableEq

/-- Bytes of a slave; a call of `periodic_poll_and_publish`; the answers of `port_.write` and `port_.read`; a
`SerialPortError`, which nothing catches. -/
inductive Input
  | send (slave : Nat) (bytes : List UInt8)
  | poll
  | write (written : Nat)
  | read (n : Nat)
  | serialPortError

/-- What the `catch` makes of an exception. -/
def readResult : Except ModbusException (List UInt16) → ReadResult
  | .ok regs => .registers regs
  | .error _ => .modbusException

/-- `REGISTER_COUNT`. -/
def registerCount : UInt16 := 1

/-- What is made of the bytes read. -/
def decode (received : List UInt8) : Except ModbusException (List UInt16) :=
  receiveResponse received >>= decodeResponse registerCount

theorem readInputRegisters_eq (slaveId : UInt8) (written : Nat) (received : List UInt8) :
    readInputRegisters slaveId 0 registerCount written received =
      (sendRequest (requestAdu slaveId 0 registerCount) written >>= fun _ => decode received) := rfl

namespace Bridge

/-- The node of a slave is set, and the next slave is polled, or the payload is published. -/
def settle (b : Bridge) (slave : Nat) (result : ReadResult) : Bridge × List Event :=
  let answers := Function.update b.answers slave result
  let marked := .marked slave (nodeState slave result)
  if slave < 5 then ({ b with answers := answers, phase := .requesting (slave + 1) }, [marked])
  else ({ b with answers := answers, phase := .idle }, [marked, .published (periodicPollAndPublish answers)])

end Bridge

def bridge : Machine Bridge Input Event where
  step b
    | .send slave bytes =>
      some ({ b with line := b.line ++ bytes.map fun byte => ⟨byte, slave, b.asked slave⟩ }, [.sent slave bytes])
    | .poll =>
      match b.phase with
      | .idle => some ({ b with phase := .requesting 1 }, [])
      | _ => none
    | .write written =>
      match b.phase with
      | .requesting slave =>
        match sendRequest (requestAdu (UInt8.ofNat slave) 0 registerCount) written with
        | .ok _ =>
          some ({ b with asked := Function.update b.asked slave true, phase := .awaiting slave }, [.requested slave])
        | .error e => some (b.settle slave (readResult (.error e)))
      | _ => none
    | .read n =>
      match b.phase with
      | .awaiting slave =>
        if n ≤ expectedResponse registerCount ∧ n ≤ b.line.length then
          some ({ b with line := b.line.drop n }.settle slave (readResult (decode ((b.line.take n).map SentByte.byte))))
        else none
      | _ => none
    | .serialPortError =>
      match b.phase with
      | .idle => none
      | _ => some ({ b with phase := .idle }, [])

/-! ## What a step does -/

section Steps
variable {b b' : Bridge} {out : List Event}

theorem Bridge.settle_cases {slave : Nat} {result : ReadResult} (h : b.settle slave result = (b', out)) :
    (slave < 5 ∧ b' = { b with answers := Function.update b.answers slave result, phase := .requesting (slave + 1) } ∧
        out = [.marked slave (nodeState slave result)]) ∨
      5 ≤ slave ∧ b' = { b with answers := Function.update b.answers slave result, phase := .idle } ∧
        out = [.marked slave (nodeState slave result),
          .published (periodicPollAndPublish (Function.update b.answers slave result))] := by
  unfold settle at h
  dsimp only at h
  split at h
  · rename_i hlt
    cases h
    exact .inl ⟨hlt, rfl, rfl⟩
  · rename_i hle
    cases h
    exact .inr ⟨Nat.le_of_not_lt hle, rfl, rfl⟩

theorem poll_step (h : bridge.step b .poll = some (b', out)) :
    b.phase = .idle ∧ b' = { b with phase := .requesting 1 } ∧ out = [] := by
  simp only [bridge] at h
  split at h
  · rename_i hphase
    cases h
    exact ⟨hphase, rfl, rfl⟩
  · cases h

theorem write_step {written : Nat} (h : bridge.step b (.write written) = some (b', out)) :
    ∃ slave, b.phase = .requesting slave ∧
      (b' = { b with asked := Function.update b.asked slave true, phase := .awaiting slave } ∧ out = [.requested slave] ∨
        ∃ e, b.settle slave (readResult (.error e)) = (b', out)) := by
  simp only [bridge] at h
  split at h
  · rename_i slave hphase
    split at h
    · cases h
      exact ⟨slave, hphase, .inl ⟨rfl, rfl⟩⟩
    · rename_i e _
      exact ⟨slave, hphase, .inr ⟨e, Option.some.inj h⟩⟩
  · cases h

theorem read_step {n : Nat} (h : bridge.step b (.read n) = some (b', out)) :
    ∃ slave, b.phase = .awaiting slave ∧ n ≤ expectedResponse registerCount ∧
      { b with line := b.line.drop n }.settle slave (readResult (decode ((b.line.take n).map SentByte.byte))) = (b', out) := by
  simp only [bridge] at h
  split at h
  · rename_i slave hphase
    split at h
    · rename_i hn
      exact ⟨slave, hphase, hn.1, Option.some.inj h⟩
    · cases h
  · cases h

theorem serialPortError_step (h : bridge.step b .serialPortError = some (b', out)) :
    b' = { b with phase := .idle } ∧ out = [] := by
  simp only [bridge] at h
  split at h
  · cases h
  · cases h
    exact ⟨rfl, rfl⟩

end Steps

end IbarraGateway.ModbusBridge
