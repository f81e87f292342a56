import IbarraGateway.GatewayTranslator.MqttWorker
import IbarraGateway.Lib.BoundedFifo
import IbarraGateway.Lib.Machine

/-!
# The buffer of the gateway

The MQTT thread calls `enqueue_telemetry`, the main thread `drain_buffer` and, for a batch that was not inserted,
`enqueue_telemetry` again. Each call holds the lock, so an interleaving of the threads is a list of calls.

`bounded_buffer` : the buffer is the end of what was enqueued since the last drain, and what is missing was counted.
-/

namespace IbarraGateway.GatewayTranslator

open BoundedFifo (Window)

namespace GatewayWorker

/-- A new worker. -/
def create (maxBuffer : Int) : GatewayWorker := ⟨[], maxBuffer, 0⟩

inductive Call
  | enqueue (data : Entry)
  | drain
  deriving DecidableEq, Repr

/-- The calls of both threads; a drain gives its items. -/
def calls : Machine GatewayWorker Call (List Entry) where
  step w
    | .enqueue data => some (w.enqueueTelemetry data, [])
    | .drain => some (w.drainBuffer.1, [w.drainBuffer.2])

def Call.entries : Call → List Entry
  | enqueue data => [data]
  | drain => []

/-- What was enqueued since the last drain. -/
def sinceDrain (cs : List Call) : List Entry :=
  cs.foldl (fun since c => match c with
    | .enqueue data => since ++ [data]
    | .drain => []) []

theorem sinceDrain_enqueue (cs : List Call) (data : Entry) :
    sinceDrain (cs ++ [.enqueue data]) = sinceDrain cs ++ [data] := by
  rw [sinceDrain, List.foldl_append]
  rfl

theorem sinceDrain_drain (cs : List Call) : sinceDrain (cs ++ [.drain]) = [] := by
  rw [sinceDrain, List.foldl_append]
  rfl

/-- With a positive bound, the buffer is a FIFO that counts what it evicts. -/
theorem enqueueTelemetry_eq {w : GatewayWorker} (hmax : 0 < w.maxBuffer) (data : Entry) :
    w.enqueueTelemetry data = { w with
      buffer := BoundedFifo.push w.maxBuffer.toNat w.buffer data
      droppedCount := w.droppedCount + (BoundedFifo.evicted w.maxBuffer.toNat w.buffer).length } := by
  have hfull : BoundedFifo.Full w.maxBuffer.toNat w.buffer ↔ 0 < w.maxBuffer ∧ w.maxBuffer ≤ w.buffer.length := by
    unfold BoundedFifo.Full
    omega
  unfold enqueueTelemetry BoundedFifo.push
  rw [BoundedFifo.evicted_length]
  by_cases h : BoundedFifo.Full w.maxBuffer.toNat w.buffer
  · rw [if_pos (hfull.mp h), if_pos h, if_pos h]
  · rw [if_neg (mt hfull.mpr h), if_neg h, if_neg h]
    rfl

/-- What the calls and the drained batches so far say of the worker. -/
structure Accounted (maxBuffer : Int) (cs : List Call) (drained : List (List Entry)) (w : GatewayWorker) : Prop where
  bound : w.maxBuffer = maxBuffer
  window : Window maxBuffer.toNat (sinceDrain cs) w.buffer
  total : (cs.flatMap Call.entries).length = drained.flatten.length + w.droppedCount + w.buffer.length

section Step
variable {maxBuffer : Int} {cs : List Call} {drained : List (List Entry)} {w : GatewayWorker}

theorem Accounted.enqueue (hw : Accounted maxBuffer cs drained w) (hmax : 0 < maxBuffer) (data : Entry) :
    Accounted maxBuffer (cs ++ [.enqueue data]) drained (w.enqueueTelemetry data) := by
  obtain ⟨rfl, hwindow, htotal⟩ := hw
  rw [enqueueTelemetry_eq hmax]
  refine ⟨rfl, ?_, ?_⟩
  · rw [sinceDrain_enqueue]
    exact hwindow.push (by omega) data
  · have hpush := congrArg List.length (BoundedFifo.evicted_append_push w.maxBuffer.toNat w.buffer data)
    simp only [List.length_append, List.length_singleton] at hpush
    simp only [List.flatMap_append, List.flatMap_singleton, Call.entries, List.length_append, List.length_singleton]
    omega

theorem Accounted.drain (hw : Accounted maxBuffer cs drained w) :
    Accounted maxBuffer (cs ++ [.drain]) (drained ++ [w.drainBuffer.2]) w.drainBuffer.1 := by
  obtain ⟨rfl, -, htotal⟩ := hw
  refine ⟨rfl, ?_, ?_⟩
  · rw [sinceDrain_drain]
    exact .nil _
  · simp only [List.flatMap_append, List.flatMap_singleton, Call.entries, List.flatten_append, List.flatten_singleton,
      List.length_append, List.length_nil, drainBuffer]
    omega

end Step

/-- **The bounded buffer.** After any calls of the threads the buffer is within its bound, it is the end of what was
enqueued since the last drain, and every entry was drained, dropped and counted, or is there. -/
theorem bounded_buffer (maxBuffer : Int) (hmax : 0 < maxBuffer) (cs : List Call) (w : GatewayWorker)
    (drained : List (List Entry)) (hrun : calls.run (.create maxBuffer) cs = some (w, drained)) :
    (w.buffer.length : Int) ≤ maxBuffer ∧
      (w.buffer <:+ sinceDrain cs ∧ (w.buffer.length : Int) = min ((sinceDrain cs).length : Int) maxBuffer) ∧
      (cs.flatMap Call.entries).length = drained.flatten.length + w.droppedCount + w.buffer.length := by
  have hw : Accounted maxBuffer cs drained w := by
    apply calls.run_snoc_induction (I := Accounted maxBuffer) ⟨rfl, .nil _, rfl⟩ ?_ (calls.along_true _ _) hrun
    intro cs drained w c w' out _ hw _ hstep
    cases c with
    | enqueue data =>
      cases hstep
      rw [List.append_nil]
      exact hw.enqueue hmax data
    | drain =>
      cases hstep
      exact hw.drain
  obtain ⟨-, ⟨hsuffix, hlength⟩, htotal⟩ := hw
  refine ⟨by omega, ⟨hsuffix, by omega⟩, htotal⟩

/-- Three entries, a drain, and a fourth entry. -/
def overflow : List Call :=
  [.enqueue ⟨"0", "a", 0, "RUNNING"⟩, .enqueue ⟨"1", "a", 1, "RUNNING"⟩, .enqueue ⟨"2", "a", 2, "RUNNING"⟩, .drain,
    .enqueue ⟨"3", "a", 3, "RUNNING"⟩]

theorem bounded_buffer_two : ∃ w drained, calls.run (.create 2) overflow = some (w, drained) ∧ w.droppedCount = 1 ∧
    (overflow.flatMap Call.entries).length = drained.flatten.length + w.droppedCount + w.buffer.length := by
  refine ⟨_, _, rfl, rfl, ?_⟩
  exact (bounded_buffer 2 (by decide) overflow _ _ rfl).2.2

/-- A message of the broker is a run of calls. -/
theorem run_onMessage (w : GatewayWorker) (nowIso : String) (payload : List UInt8) :
    calls.run w ((entries nowIso payload).map .enqueue) = some (w.onMessage nowIso payload, []) := by
  unfold onMessage
  induction entries nowIso payload generalizing w with
  | nil => rfl
  | cons e added ih =>
    have hstep : calls.step w (.enqueue e) = some (w.enqueueTelemetry e, []) := rfl
    exact calls.run_cons_of hstep (ih (w.enqueueTelemetry e))

end GatewayWorker
end IbarraGateway.GatewayTranslator
