import IbarraGateway.GatewayTranslator.HasuraClient
import IbarraGateway.GatewayTranslator.MqttWorker
import IbarraGateway.Lib.BoundedFifo
import IbarraGateway.Lib.Machine

/-!
# The main loop of the gateway

`main` against the MQTT thread. The two threads share the worker, whose methods hold a lock, so an arrival gets in between
any two steps of the main thread: the head of the loop, the drain after the sleep, one attempt of a POST, one entry put
back. Entries carry their number of arrival; without the numbers the buffer is that of `GatewayWorker` (`enqueue_worker`).

* `run_attempts` : the attempts of a batch come to what `insert_telemetry_batch` returns.
* `step_moves` : what a step can do.
-/

namespace IbarraGateway.GatewayTranslator

open BoundedFifo HasuraClient

/-- An entry with its number of arrival. -/
structure Arrival where
  number : Nat
  data : Entry
  deriving DecidableEq, Repr

/-- Where the main thread stands. The batch of a POST is the final flush or not. -/
inductive Phase
  | loopHead
  | sleeping
  | inserting (batch : List Arrival) (attempt : Nat) (final : Bool)
  | requeueing (rest : List Arrival)
  | stopping
  | stopped
  | crashed
  deriving DecidableEq, Repr

/-- The worker and the main thread. -/
structure Gateway where
  buffer : List Arrival
  maxBuffer : Int
  droppedCount : Nat
  arrived : Nat
  shutdownRequested : Bool
  phase : Phase
  deriving DecidableEq, Repr

/-- After `worker.start()`. -/
def Gateway.start (maxBuffer : Int) : Gateway where
  buffer := []
  maxBuffer := maxBuffer
  droppedCount := 0
  arrived := 0
  shutdownRequested := false
  phase := .loopHead

inductive Event
  | arrived (a : Arrival)
  | dropped (a : Arrival)
  | posted (batch : List Arrival) (reply : Reply)
  | confirmed (batch : List Arrival)
  | lost (batch : List Arrival)
  | raised (batch : List Arrival)

inductive Input
  | arrive (data : Entry)
  | signal
  | advance
  | attempt (reply : Reply)

def Phase.exited : Phase → Bool
  | stopped => true
  | crashed => true
  | _ => false

/-- What the main thread holds. -/
def Phase.inFlight : Phase → List Arrival
  | inserting batch _ _ => batch
  | requeueing rest => rest
  | _ => []

namespace Gateway

/-- A bound that is not positive is none. -/
def cap (g : Gateway) : Nat := g.maxBuffer.toNat

/-- `enqueue_telemetry`. -/
def enqueue (g : Gateway) (a : Arrival) : Gateway × List Event :=
  let gone := evicted g.cap g.buffer
  ({ g with buffer := push g.cap g.buffer a, droppedCount := g.droppedCount + gone.length }, gone.map .dropped)

/-- `drain_buffer`, and the phase that follows when something was in it. -/
def drain (g : Gateway) (empty : Phase) (final : Bool) : Gateway × List Event :=
  ({ g with buffer := [], phase := if g.buffer = [] then empty else .inserting g.buffer 0 final }, [])

/-- `insert_telemetry_batch` returns. -/
def inserted (g : Gateway) (batch : List Arrival) (final ok : Bool) : Gateway × List Event :=
  match ok, final with
  | true, false => ({ g with phase := .loopHead }, [.confirmed batch])
  | true, true => ({ g with phase := .stopping }, [.confirmed batch])
  | false, false => ({ g with phase := .requeueing batch }, [])
  | false, true => ({ g with phase := .stopping }, [.lost batch])

/-- One attempt of `insert_telemetry_batch`. -/
def post (g : Gateway) (batch : List Arrival) (attempt : Nat) (final : Bool) (reply : Reply) : Gateway × List Event :=
  let r := match HasuraClient.attempt reply with
    | .accepted => g.inserted batch final true
    | .rejected => g.inserted batch final false
    | .retry =>
      if attempt + 1 < retryBackoffs.length then ({ g with phase := .inserting batch (attempt + 1) final }, [])
      else g.inserted batch final false
    | .raises => ({ g with phase := .crashed }, [.raised batch])
  (r.1, .posted batch reply :: r.2)

/-- The main thread up to its next step. -/
def advance (g : Gateway) : Option (Gateway × List Event) :=
  match g.phase with
  | .loopHead => some (if g.shutdownRequested then g.drain .stopping true else ({ g with phase := .sleeping }, []))
  | .sleeping => some (g.drain .loopHead false)
  | .requeueing [] => some ({ g with phase := .loopHead }, [])
  | .requeueing (entry :: rest) => some ({ g with phase := .requeueing rest }.enqueue entry)
  | .stopping => some ({ g with phase := .stopped }, [])
  | _ => none

/-- The MQTT thread calls `enqueue_telemetry`. -/
def arrive (g : Gateway) (data : Entry) : Gateway × List Event :=
  let a := ⟨g.arrived, data⟩
  let r := { g with arrived := g.arrived + 1 }.enqueue a
  (r.1, .arrived a :: r.2)

/-- The worker without the numbers. -/
def worker (g : Gateway) : GatewayWorker := ⟨g.buffer.map Arrival.data, g.maxBuffer, g.droppedCount⟩

theorem enqueue_worker (g : Gateway) (a : Arrival) : (g.enqueue a).1.worker = g.worker.enqueueTelemetry a.data := by
  have hfull : Full g.cap g.buffer ↔ 0 < g.maxBuffer ∧ g.maxBuffer ≤ (g.buffer.map Arrival.data).length := by
    unfold Full cap
    rw [List.length_map]
    omega
  unfold enqueue worker GatewayWorker.enqueueTelemetry push
  dsimp only
  rw [evicted_length]
  by_cases h : Full g.cap g.buffer
  · rw [if_pos h, if_pos h, if_pos (hfull.mp h), List.map_append, List.map_tail]
    rfl
  · rw [if_neg h, if_neg h, if_neg (mt hfull.mpr h), List.map_append]
    rfl

end Gateway

/-- The gateway process. -/
def gateway : Machine Gateway Input Event where
  step g
    | .arrive data => if g.phase.exited then none else some (g.arrive data)
    | .signal => if g.phase.exited then none else some ({ g with shutdownRequested := true }, [])
    | .advance => g.advance
    | .attempt reply =>
      match g.phase with
      | .inserting batch attempt final => some (g.post batch attempt final reply)
      | _ => none

/-! ## One step -/

/-- What a step of the process can do. -/
inductive Moves (g : Gateway) : Input → Gateway → List Event → Prop
  | arrive (data : Entry) (hlive : g.phase.exited = false) :
    Moves g (.arrive data)
      { g with
        arrived := g.arrived + 1
        buffer := push g.cap g.buffer ⟨g.arrived, data⟩
        droppedCount := g.droppedCount + (evicted g.cap g.buffer).length }
      (.arrived ⟨g.arrived, data⟩ :: (evicted g.cap g.buffer).map .dropped)
  | signal (hlive : g.phase.exited = false) : Moves g .signal { g with shutdownRequested := true } []
  | sleep (hphase : g.phase = .loopHead) (hgoing : g.shutdownRequested = false) :
    Moves g .advance { g with phase := .sleeping } []
  | finalEmpty (hphase : g.phase = .loopHead) (hdown : g.shutdownRequested = true) (hnone : g.buffer = []) :
    Moves g .advance { g with phase := .stopping } []
  | finalDrain (hphase : g.phase = .loopHead) (hdown : g.shutdownRequested = true) (hsome : g.buffer ≠ []) :
    Moves g .advance { g with buffer := [], phase := .inserting g.buffer 0 true } []
  | drainEmpty (hphase : g.phase = .sleeping) (hnone : g.buffer = []) : Moves g .advance { g with phase := .loopHead } []
  | drain (hphase : g.phase = .sleeping) (hsome : g.buffer ≠ []) :
    Moves g .advance { g with buffer := [], phase := .inserting g.buffer 0 false } []
  | requeue (entry : Arrival) (rest : List Arrival) (hphase : g.phase = .requeueing (entry :: rest)) :
    Moves g .advance
      { g with
        phase := .requeueing rest
        buffer := push g.cap g.buffer entry
        droppedCount := g.droppedCount + (evicted g.cap g.buffer).length }
      ((evicted g.cap g.buffer).map .dropped)
  | requeued (hphase : g.phase = .requeueing []) : Moves g .advance { g with phase := .loopHead } []
  | stop (hphase : g.phase = .stopping) : Moves g .advance { g with phase := .stopped } []
  | accepted {reply : Reply} (batch : List Arrival) (attempt : Nat) (final : Bool)
    (hphase : g.phase = .inserting batch attempt final) (hreply : HasuraClient.attempt reply = .accepted) :
    Moves g (.attempt reply) { g with phase := if final then .stopping else .loopHead }
      [.posted batch reply, .confirmed batch]
  | retry {reply : Reply} (batch : List Arrival) (attempt : Nat) (final : Bool)
    (hphase : g.phase = .inserting batch attempt final) (hreply : HasuraClient.attempt reply = .retry)
    (hleft : attempt + 1 < retryBackoffs.length) :
    Moves g (.attempt reply) { g with phase := .inserting batch (attempt + 1) final } [.posted batch reply]
  | failed {reply : Reply} (batch : List Arrival) (attempt : Nat) (hphase : g.phase = .inserting batch attempt false)
    (hreply : HasuraClient.attempt reply = .rejected ∨
      HasuraClient.attempt reply = .retry ∧ retryBackoffs.length ≤ attempt + 1) :
    Moves g (.attempt reply) { g with phase := .requeueing batch } [.posted batch reply]
  | lost {reply : Reply} (batch : List Arrival) (attempt : Nat) (hphase : g.phase = .inserting batch attempt true)
    (hreply : HasuraClient.attempt reply = .rejected ∨
      HasuraClient.attempt reply = .retry ∧ retryBackoffs.length ≤ attempt + 1) :
    Moves g (.attempt reply) { g with phase := .stopping } [.posted batch reply, .lost batch]
  | raised {reply : Reply} (batch : List Arrival) (attempt : Nat) (final : Bool)
    (hphase : g.phase = .inserting batch attempt final) (hbad : BadReply reply) :
    Moves g (.attempt reply) { g with phase := .crashed } [.posted batch reply, .raised batch]

theorem post_moves {g g' : Gateway} {reply : Reply} {out : List Event} {batch : List Arrival} {attempt : Nat}
    {final : Bool} (hphase : g.phase = .inserting batch attempt final)
    (h : g.post batch attempt final reply = (g', out)) : Moves g (.attempt reply) g' out := by
  have hfail (hreply : HasuraClient.attempt reply = .rejected ∨
      HasuraClient.attempt reply = .retry ∧ retryBackoffs.length ≤ attempt + 1) :
      Moves g (.attempt reply) (g.inserted batch final false).1
        (.posted batch reply :: (g.inserted batch final false).2) := by
    cases final with
    | false => exact .failed batch attempt hphase hreply
    | true => exact .lost batch attempt hphase hreply
  unfold Gateway.post at h
  cases hreply : HasuraClient.attempt reply with
  | accepted =>
    rw [hreply] at h
    have hmove := Moves.accepted batch attempt final hphase hreply
    cases final with
    | false =>
      cases h
      exact hmove
    | true =>
      cases h
      exact hmove
  | rejected =>
    rw [hreply] at h
    cases h
    exact hfail (Or.inl hreply)
  | retry =>
    rw [hreply] at h
    dsimp only at h
    split at h
    · rename_i hleft
      cases h
      exact .retry batch attempt final hphase hreply hleft
    · rename_i hlast
      cases h
      exact hfail (Or.inr ⟨hreply, by omega⟩)
  | raises =>
    rw [hreply] at h
    cases h
    exact .raised batch attempt final hphase ((attempt_raises_iff reply).mp hreply)

theorem advance_moves {g g' : Gateway} {out : List Event} (h : g.advance = some (g', out)) :
    Moves g .advance g' out := by
  unfold Gateway.advance at h
  split at h
  · rename_i hphase
    have hnext := Option.some.inj h
    split at hnext
    · rename_i hdown
      unfold Gateway.drain at hnext
      by_cases hnone : g.buffer = []
      · rw [if_pos hnone] at hnext
        cases hnext
        rw [← hnone]
        exact .finalEmpty hphase hdown hnone
      · rw [if_neg hnone] at hnext
        cases hnext
        exact .finalDrain hphase hdown hnone
    · rename_i hgoing
      cases hnext
      exact .sleep hphase (Bool.eq_false_of_not_eq_true hgoing)
  · rename_i hphase
    have hnext := Option.some.inj h
    unfold Gateway.drain at hnext
    by_cases hnone : g.buffer = []
    · rw [if_pos hnone] at hnext
      cases hnext
      rw [← hnone]
      exact .drainEmpty hphase hnone
    · rw [if_neg hnone] at hnext
      cases hnext
      exact .drain hphase hnone
  · rename_i hphase
    cases h
    exact .requeued hphase
  · rename_i entry rest hphase
    cases h
    exact .requeue entry rest hphase
  · rename_i hphase
    cases h
    exact .stop hphase
  · cases h

theorem step_moves {g g' : Gateway} {x : Input} {out : List Event} (h : gateway.step g x = some (g', out)) :
    Moves g x g' out := by
  cases x with
  | arrive data =>
    simp only [gateway] at h
    split at h
    · cases h
    · rename_i hlive
      cases h
      exact .arrive data (Bool.eq_false_of_not_eq_true hlive)
  | signal =>
    simp only [gateway] at h
    split at h
    · cases h
    · rename_i hlive
      cases h
      exact .signal (Bool.eq_false_of_not_eq_true hlive)
  | advance => exact advance_moves h
  | attempt reply =>
    simp only [gateway] at h
    split at h
    · rename_i batch attempt final hphase
      exact post_moves hphase (Option.some.inj h)
    · cases h

/-! ## The attempts of a batch -/

/-- The attempts that are made. -/
def made : List Reply → List Reply
  | [] => []
  | reply :: replies => if HasuraClient.attempt reply = .retry then reply :: made replies else [reply]

/-- The state after a batch, by what `insert_telemetry_batch` returned, or raised. -/
def Gateway.ended (g : Gateway) (batch : List Arrival) (final : Bool) : Option Bool → Gateway
  | some ok => (g.inserted batch final ok).1
  | none => { g with phase := .crashed }

theorem Gateway.ended_phase (g : Gateway) (phase : Phase) (batch : List Arrival) (final : Bool) (result : Option Bool) :
    { g with phase := phase }.ended batch final result = g.ended batch final result := by
  rcases result with _ | ok
  · rfl
  · cases ok <;> cases final <;> rfl

/-- The steps of a batch come to what `insert_telemetry_batch` returns. -/
theorem run_attempts {g : Gateway} {batch : List Arrival} {final : Bool} {replies : List Reply} {attempt : Nat}
    (hphase : g.phase = .inserting batch attempt final) (hne : replies ≠ [])
    (hleft : attempt + replies.length = retryBackoffs.length) :
    ∃ out, gateway.run g ((made replies).map .attempt) = some (g.ended batch final (attempts replies), out) := by
  induction replies generalizing g attempt with
  | nil => exact absurd rfl hne
  | cons reply replies ih =>
    have hstep : gateway.step g (.attempt reply) = some (g.post batch attempt final reply) := by
      simp only [gateway, hphase]
    rw [made, attempts]
    unfold Gateway.post at hstep
    cases hreply : HasuraClient.attempt reply with
    | accepted =>
      rw [hreply] at hstep
      exact ⟨_, gateway.run_cons_of hstep (gateway.run_nil _)⟩
    | rejected =>
      rw [hreply] at hstep
      exact ⟨_, gateway.run_cons_of hstep (gateway.run_nil _)⟩
    | raises =>
      rw [hreply] at hstep
      exact ⟨_, gateway.run_cons_of hstep (gateway.run_nil _)⟩
    | retry =>
      rw [hreply] at hstep
      dsimp only at hstep ⊢
      rw [List.length_cons] at hleft
      rw [if_pos rfl, List.map_cons]
      cases replies with
      | nil =>
        rw [if_neg (by simp at hleft; omega)] at hstep
        exact ⟨_, gateway.run_cons_of hstep (gateway.run_nil _)⟩
      | cons second rest =>
        rw [if_pos (by simp at hleft; omega)] at hstep
        obtain ⟨out, hrun⟩ := ih (g := { g with phase := .inserting batch (attempt + 1) final }) rfl (by simp) (by omega)
        rw [Gateway.ended_phase] at hrun
        exact ⟨_, gateway.run_cons_of hstep hrun⟩

end IbarraGateway.GatewayTranslator
