import IbarraGateway.Lib.BoundedFifo
import Mathlib.Logic.Function.Basic

/-!
# Frame queue and frame pool

Each method of the queue is one step: it holds the mutex. A queue entry that is dropped is destroyed, so `push` gives it
back as well. The pool keeps, for each buffer, its flag and what is painted in it.
-/

namespace IbarraGateway.GemaVision

/-! ## `ThreadSafeQueue` -/

structure ThreadSafeQueue (T : Type) where
  queue : List T
  done : Bool
  maxSize : Nat
  droppedCount : Nat

namespace ThreadSafeQueue
variable {T : Type}

def create (maxSize : Nat) : ThreadSafeQueue T := ⟨[], false, maxSize, 0⟩

/-- The queue with the item, and the items that were dropped. -/
def push (q : ThreadSafeQueue T) (item : T) : ThreadSafeQueue T × List T :=
  let dropped := BoundedFifo.evicted q.maxSize q.queue
  ({ q with queue := BoundedFifo.push q.maxSize q.queue item, droppedCount := q.droppedCount + dropped.length }, dropped)

/-- `none` while the caller waits; the default item when the queue is shut down and drained. -/
def pop [Inhabited T] (q : ThreadSafeQueue T) : Option (T × ThreadSafeQueue T) :=
  match q.queue with
  | item :: rest => some (item, { q with queue := rest })
  | [] => if q.done then some (default, q) else none

def tryPop (q : ThreadSafeQueue T) : Option T × ThreadSafeQueue T :=
  match q.queue with
  | item :: rest => (some item, { q with queue := rest })
  | [] => (none, q)

def shutdown (q : ThreadSafeQueue T) : ThreadSafeQueue T := { q with done := true }

theorem push_of_room {q : ThreadSafeQueue T} (hroom : q.queue.length < q.maxSize) (item : T) :
    q.push item = ({ q with queue := q.queue ++ [item] }, []) := by
  have hnot : ¬BoundedFifo.Full q.maxSize q.queue := fun hfull => absurd hfull.2 (by omega)
  unfold push
  rw [BoundedFifo.push_of_room hnot, BoundedFifo.evicted_of_room hnot]
  rfl

/-- What `pop` gives: the oldest item, or the default when there is none and none will come. -/
theorem pop_cases [Inhabited T] {q q' : ThreadSafeQueue T} {item : T} (h : q.pop = some (item, q')) :
    (q.queue = item :: q'.queue ∧ q' = { q with queue := q'.queue }) ∨
    (q.queue = [] ∧ q.done = true ∧ item = default ∧ q' = q) := by
  unfold pop at h
  split at h
  · rename_i hqueue
    cases h
    exact .inl ⟨hqueue, rfl⟩
  · rename_i hqueue
    split at h
    · rename_i hdone
      cases h
      exact .inr ⟨hqueue, hdone, rfl, rfl⟩
    · cases h

theorem pop_done [Inhabited T] {q q' : ThreadSafeQueue T} {item : T} (h : q.pop = some (item, q')) : q'.done = q.done := by
  rcases pop_cases h with ⟨-, hrest⟩ | ⟨-, -, -, rfl⟩
  · rw [hrest]
  · rfl

end ThreadSafeQueue

/-! ## `FramePool` -/

abbrev kPoolSize : Nat := 4

abbrev Slot : Type := Fin kPoolSize

/-- A frame is the number of the picture that is painted; `none` while it is painted in part. -/
abbrev Frame : Type := Option Nat

structure FramePool where
  available : Slot → Bool
  pool : Slot → Frame

namespace FramePool

def create : FramePool := ⟨fun _ => true, fun _ => none⟩

/-- `compare_exchange_weak(true, false)`, which may fail although the buffer is free. -/
def compareExchangeWeak (p : FramePool) (slot : Slot) (fails : Bool) : Option FramePool :=
  if p.available slot && !fails then some { p with available := Function.update p.available slot false } else none

def release (p : FramePool) (slot : Slot) : FramePool :=
  { p with available := Function.update p.available slot true }

def write (p : FramePool) (slot : Slot) (frame : Frame) : FramePool :=
  { p with pool := Function.update p.pool slot frame }

theorem compareExchangeWeak_some {p p' : FramePool} {slot : Slot} {fails : Bool}
    (h : p.compareExchangeWeak slot fails = some p') :
    p.available slot = true ∧ p' = { p with available := Function.update p.available slot false } := by
  unfold compareExchangeWeak at h
  split at h
  · rename_i hfree
    cases h
    exact ⟨(Bool.and_eq_true_iff.mp hfree).1, rfl⟩
  · cases h

end FramePool

end IbarraGateway.GemaVision
