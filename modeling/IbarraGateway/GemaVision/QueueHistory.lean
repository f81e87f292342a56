import IbarraGateway.GemaVision.ThreadSafeQueue
import IbarraGateway.Lib.Machine

/-!
# Histories of the queue

Any threads call `push`, `pop`, `try_pop` and `shutdown`; a call is one step, and a `pop` that has to wait is not enabled.

* `Moves` : what a bounded FIFO that drops its oldest element does with each call.
* `FifoHistory` : what it may have done, on the history alone.
* `refines_fifo` : every call is such a move and every interleaving such a history; a `pop` waits for an item or a shutdown
  only, and after a shutdown they empty the queue.
-/

namespace IbarraGateway.GemaVision

inductive QueueCall (T : Type)
  | push (thread : Nat) (item : T)
  | pop (thread : Nat)
  | tryPop (thread : Nat)
  | shutdown (thread : Nat)

inductive QueueEvent (T : Type)
  | pushed (item : T)
  | dropped (item : T)
  | popped (thread : Nat) (item : T)
  /-- `pop` returns `T{}`. -/
  | defaulted (thread : Nat) (item : T)
  /-- `try_pop` returns `std::nullopt`. -/
  | missed (thread : Nat)
  | closed (thread : Nat)
  deriving DecidableEq, Repr

namespace QueueEvent
variable {T : Type}

def enters : QueueEvent T → List T
  | pushed item => [item]
  | _ => []

/-- The item that leaves the queue, to a consumer or to make room. -/
def leaves : QueueEvent T → List T
  | dropped item => [item]
  | popped _ item => [item]
  | _ => []

def pops : QueueEvent T → List T
  | popped _ item => [item]
  | _ => []

def drops : QueueEvent T → List T
  | dropped item => [item]
  | _ => []

end QueueEvent

attribute [simp] QueueEvent.enters QueueEvent.leaves QueueEvent.pops QueueEvent.drops

namespace ThreadSafeQueue
variable {T : Type} [Inhabited T]

/-- What a `pop` tells. -/
def popEvent (q : ThreadSafeQueue T) (thread : Nat) (item : T) : QueueEvent T :=
  match q.queue with
  | [] => .defaulted thread item
  | _ :: _ => .popped thread item

def calls : Machine (ThreadSafeQueue T) (QueueCall T) (QueueEvent T) where
  step q
    | .push _ item => some ((q.push item).1, (q.push item).2.map .dropped ++ [.pushed item])
    | .pop thread => q.pop.map fun r => (r.2, [q.popEvent thread r.1])
    | .tryPop thread =>
      some (q.tryPop.2, match q.tryPop.1 with
        | some item => [.popped thread item]
        | none => [.missed thread])
    | .shutdown thread => some (q.shutdown, [.closed thread])

/-! ## One step -/

/-- What a call can do. -/
inductive Moves (q : ThreadSafeQueue T) : QueueCall T → ThreadSafeQueue T → List (QueueEvent T) → Prop
  | pushed (thread : Nat) (item : T) (hroom : ¬BoundedFifo.Full q.maxSize q.queue) :
    Moves q (.push thread item) { q with queue := q.queue ++ [item] } [.pushed item]
  | overflowed (thread : Nat) (item oldest : T) (rest : List T) (hfull : BoundedFifo.Full q.maxSize q.queue)
    (hqueue : q.queue = oldest :: rest) :
    Moves q (.push thread item) { q with queue := rest ++ [item], droppedCount := q.droppedCount + 1 }
      [.dropped oldest, .pushed item]
  | taken {c : QueueCall T} (thread : Nat) (item : T) (rest : List T) (hcall : c = .pop thread ∨ c = .tryPop thread)
    (hqueue : q.queue = item :: rest) : Moves q c { q with queue := rest } [.popped thread item]
  | drained (thread : Nat) (hqueue : q.queue = []) (hdone : q.done = true) :
    Moves q (.pop thread) q [.defaulted thread default]
  | missed (thread : Nat) (hqueue : q.queue = []) : Moves q (.tryPop thread) q [.missed thread]
  | shutdown (thread : Nat) : Moves q (.shutdown thread) q.shutdown [.closed thread]

theorem push_moves (q : ThreadSafeQueue T) (thread : Nat) (item : T) :
    Moves q (.push thread item) (q.push item).1 ((q.push item).2.map .dropped ++ [.pushed item]) := by
  unfold push BoundedFifo.push BoundedFifo.evicted
  by_cases hfull : BoundedFifo.Full q.maxSize q.queue
  · rw [if_pos hfull, if_pos hfull]
    cases hqueue : q.queue with
    | nil =>
      have hlength := hfull.2
      rw [hqueue] at hlength
      exact absurd (hfull.1.trans_le hlength) (by simp)
    | cons oldest rest => exact .overflowed thread item oldest rest hfull hqueue
  · rw [if_neg hfull, if_neg hfull]
    exact .pushed thread item hfull

theorem step_moves {q q' : ThreadSafeQueue T} {c : QueueCall T} {out : List (QueueEvent T)}
    (h : calls.step q c = some (q', out)) : Moves q c q' out := by
  cases c with
  | push thread item =>
    cases h
    exact push_moves q thread item
  | pop thread =>
    obtain ⟨⟨item, rest⟩, hpop, heq⟩ := Option.map_eq_some_iff.mp h
    rcases pop_cases hpop with ⟨hqueue, hrest⟩ | ⟨hqueue, hdone, rfl, rfl⟩
    · simp only [popEvent, hqueue] at heq
      cases heq
      rw [hrest]
      exact .taken thread item _ (.inl rfl) hqueue
    · simp only [popEvent, hqueue] at heq
      cases heq
      exact .drained thread hqueue hdone
  | tryPop thread =>
    cases hqueue : q.queue with
    | nil =>
      simp only [calls, tryPop, hqueue] at h
      cases h
      exact .missed thread hqueue
    | cons item rest =>
      simp only [calls, tryPop, hqueue] at h
      cases h
      exact .taken thread item rest (.inr rfl) hqueue
  | shutdown thread =>
    cases h
    exact .shutdown thread

/-- A `pop` waits for an item or a shutdown, and no other call waits. -/
theorem step_none_iff {q : ThreadSafeQueue T} {c : QueueCall T} :
    calls.step q c = none ↔ ∃ thread, c = .pop thread ∧ q.queue = [] ∧ q.done = false := by
  cases c with
  | push thread item => exact iff_of_false nofun nofun
  | tryPop thread => exact iff_of_false nofun nofun
  | shutdown thread => exact iff_of_false nofun nofun
  | pop thread =>
    have hstep : calls.step q (.pop thread) = none ↔ q.pop = none := Option.map_eq_none_iff
    rw [hstep]
    unfold pop
    cases q.queue with
    | cons item rest => simp
    | nil => cases q.done <;> simp

/-! ## The histories of a FIFO -/

end ThreadSafeQueue

section History
variable {T : Type}

/-- What has left is what came first. -/
def OldestFirst (before : List (QueueEvent T)) (e : QueueEvent T) : Prop :=
  before.flatMap QueueEvent.leaves ++ e.leaves <+: before.flatMap QueueEvent.enters

/-- The items of a history that have not left. -/
def held (before : List (QueueEvent T)) : List T :=
  (before.flatMap QueueEvent.enters).drop (before.flatMap QueueEvent.leaves).length

theorem held_of_order {before : List (QueueEvent T)} {queue : List T}
    (horder : before.flatMap QueueEvent.leaves ++ queue = before.flatMap QueueEvent.enters) : held before = queue := by
  rw [held, ← horder, List.drop_left]

/-- An item enters where there is room; the oldest is dropped when there is none, and taken when there is one; nothing is
found, or the default is given, when there is none. -/
def Permitted (maxSize : Nat) (before : List (QueueEvent T)) : QueueEvent T → Prop
  | .pushed _ => ¬BoundedFifo.Full maxSize (held before)
  | .dropped item => BoundedFifo.Full maxSize (held before) ∧ (held before).head? = some item
  | .popped _ item => (held before).head? = some item
  | .defaulted _ _ => held before = []
  | .missed _ => held before = []
  | .closed _ => True

/-- The default item stands for a queue that was shut down and is empty. -/
def OnlyWhenDrained [Inhabited T] (before : List (QueueEvent T)) (e : QueueEvent T) : Prop :=
  ∀ thread item, e = .defaulted thread item → item = default ∧ (∃ closer, .closed closer ∈ before) ∧
    before.flatMap QueueEvent.leaves = before.flatMap QueueEvent.enters

/-- A history of a FIFO that drops its oldest item when it is full and only then, with the items it holds at the end. -/
structure FifoHistory [Inhabited T] (maxSize : Nat) (h : List (QueueEvent T)) (q : ThreadSafeQueue T) : Prop where
  capacity : q.maxSize = maxSize
  bounded : 0 < maxSize → q.queue.length ≤ maxSize
  order : h.flatMap QueueEvent.leaves ++ q.queue = h.flatMap QueueEvent.enters
  counted : q.droppedCount = (h.flatMap QueueEvent.drops).length
  closed : q.done = true ↔ ∃ closer, .closed closer ∈ h
  permitted : Everywhere (Permitted maxSize) h
  oldestFirst : Everywhere OldestFirst h
  drained : Everywhere OnlyWhenDrained h

theorem leaves_eq (e : QueueEvent T) : e.leaves.length = e.pops.length + e.drops.length := by
  cases e <;> rfl

theorem leaves_length (h : List (QueueEvent T)) : (h.flatMap QueueEvent.leaves).length =
    (h.flatMap QueueEvent.pops).length + (h.flatMap QueueEvent.drops).length := by
  induction h with
  | nil => rfl
  | cons e h ih =>
    simp only [List.flatMap_cons, List.length_append, ih, leaves_eq]
    omega

theorem pops_sublist (h : List (QueueEvent T)) :
    (h.flatMap QueueEvent.pops).Sublist (h.flatMap QueueEvent.leaves) := by
  induction h with
  | nil => exact .slnil
  | cons e h ih =>
    rw [List.flatMap_cons, List.flatMap_cons]
    refine List.Sublist.append ?_ ih
    cases e <;> simp

/-- In a history that has the order of a FIFO, what leaves next is first in the queue. -/
theorem oldestFirst_of_order {before : List (QueueEvent T)} {e : QueueEvent T} (queue : List T)
    (horder : before.flatMap QueueEvent.leaves ++ (e.leaves ++ queue) = before.flatMap QueueEvent.enters) :
    OldestFirst before e :=
  ⟨queue, by rw [List.append_assoc, horder]⟩

end History

namespace ThreadSafeQueue
variable {T : Type} [Inhabited T] {maxSize : Nat} {h : List (QueueEvent T)} {q q' : ThreadSafeQueue T} {c : QueueCall T}
  {out : List (QueueEvent T)}

/-- What leaves at a step, and the queue after it, are the queue before it and what enters. -/
theorem Moves.order (hmove : Moves q c q' out) :
    out.flatMap QueueEvent.leaves ++ q'.queue = q.queue ++ out.flatMap QueueEvent.enters := by
  cases hmove with
  | pushed => simp
  | overflowed thread item oldest rest hfull hqueue => simp [hqueue]
  | taken thread item rest hcall hqueue => simp [hqueue]
  | drained => simp
  | missed => simp
  | shutdown => simp [ThreadSafeQueue.shutdown]

theorem Moves.counted (hmove : Moves q c q' out) :
    q'.droppedCount = q.droppedCount + (out.flatMap QueueEvent.drops).length := by
  cases hmove <;> simp [ThreadSafeQueue.shutdown]

theorem Moves.capacity (hmove : Moves q c q' out) : q'.maxSize = q.maxSize := by
  cases hmove <;> rfl

theorem Moves.bounded (hmove : Moves q c q' out) (hmax : 0 < q.maxSize) (hq : q.queue.length ≤ q.maxSize) :
    q'.queue.length ≤ q.maxSize := by
  cases hmove with
  | pushed thread item hroom =>
    unfold BoundedFifo.Full at hroom
    rw [List.length_append, List.length_singleton]
    omega
  | overflowed thread item oldest rest hfull hqueue =>
    rw [hqueue, List.length_cons] at hq
    rw [List.length_append, List.length_singleton]
    exact hq
  | taken thread item rest hcall hqueue =>
    rw [hqueue, List.length_cons] at hq
    exact Nat.le_of_succ_le hq
  | drained => exact hq
  | missed => exact hq
  | shutdown => exact hq

theorem Moves.closed (hmove : Moves q c q' out) :
    q'.done = true ↔ q.done = true ∨ ∃ closer, .closed closer ∈ out := by
  cases hmove <;> simp [ThreadSafeQueue.shutdown]

theorem Moves.oldestFirst (hmove : Moves q c q' out)
    (horder : h.flatMap QueueEvent.leaves ++ q.queue = h.flatMap QueueEvent.enters) :
    Everywhere (fun before e => OldestFirst (h ++ before) e) out := by
  cases hmove with
  | overflowed thread item oldest rest hfull hqueue =>
    rw [hqueue] at horder
    refine Everywhere.cons_iff.mpr ⟨?_, Everywhere.singleton_iff.mpr ?_⟩
    · exact oldestFirst_of_order rest (by simpa using horder)
    · exact oldestFirst_of_order rest (by simpa using horder)
  | pushed => exact Everywhere.singleton_iff.mpr (oldestFirst_of_order _ (by simpa using horder))
  | taken thread item rest hcall hqueue =>
    rw [hqueue] at horder
    exact Everywhere.singleton_iff.mpr (oldestFirst_of_order rest (by simpa using horder))
  | drained => exact Everywhere.singleton_iff.mpr (oldestFirst_of_order _ (by simpa using horder))
  | missed => exact Everywhere.singleton_iff.mpr (oldestFirst_of_order _ (by simpa using horder))
  | shutdown => exact Everywhere.singleton_iff.mpr (oldestFirst_of_order _ (by simpa using horder))

theorem Moves.permitted (hmove : Moves q c q' out) (hq : FifoHistory maxSize h q) :
    Everywhere (fun before e => Permitted maxSize (h ++ before) e) out := by
  have hheld : held (h ++ []) = q.queue := by
    rw [List.append_nil]
    exact held_of_order hq.order
  have hcapacity := hq.capacity
  cases hmove with
  | pushed thread item hroom =>
    refine Everywhere.singleton_iff.mpr ?_
    rw [Permitted, hheld, ← hcapacity]
    exact hroom
  | overflowed thread item oldest rest hfull hqueue =>
    have hafter : held (h ++ [.dropped oldest]) = rest := by
      apply held_of_order
      have horder := hq.order
      rw [hqueue] at horder
      simpa using horder
    refine Everywhere.cons_iff.mpr ⟨?_, Everywhere.singleton_iff.mpr ?_⟩
    · rw [Permitted, hheld, ← hcapacity, hqueue]
      exact ⟨hqueue ▸ hfull, rfl⟩
    · show ¬BoundedFifo.Full maxSize (held (h ++ [.dropped oldest]))
      rw [hafter]
      rintro ⟨hpos, hle⟩
      have hbounded := hq.bounded hpos
      rw [hqueue, List.length_cons] at hbounded
      omega
  | taken thread item rest hcall hqueue =>
    refine Everywhere.singleton_iff.mpr ?_
    rw [Permitted, hheld, hqueue]
    rfl
  | drained thread hqueue =>
    refine Everywhere.singleton_iff.mpr ?_
    rw [Permitted, hheld, hqueue]
  | missed thread hqueue =>
    refine Everywhere.singleton_iff.mpr ?_
    rw [Permitted, hheld, hqueue]
  | shutdown => exact Everywhere.singleton_iff.mpr trivial

theorem Moves.drained_step (hmove : Moves q c q' out) (hq : FifoHistory maxSize h q) :
    Everywhere (fun before e => OnlyWhenDrained (h ++ before) e) out := by
  cases hmove with
  | drained thread hqueue hdone =>
    refine Everywhere.singleton_iff.mpr ?_
    intro _ _ heq
    cases heq
    have horder := hq.order
    rw [hqueue, List.append_nil] at horder
    rw [List.append_nil]
    exact ⟨rfl, hq.closed.mp hdone, horder⟩
  | overflowed => exact Everywhere.cons_iff.mpr ⟨nofun, Everywhere.singleton_iff.mpr nofun⟩
  | pushed => exact Everywhere.singleton_iff.mpr nofun
  | taken => exact Everywhere.singleton_iff.mpr nofun
  | missed => exact Everywhere.singleton_iff.mpr nofun
  | shutdown => exact Everywhere.singleton_iff.mpr nofun

theorem fifoHistory_create (maxSize : Nat) : FifoHistory maxSize [] (create maxSize : ThreadSafeQueue T) where
  capacity := rfl
  bounded _ := Nat.zero_le _
  order := rfl
  counted := rfl
  closed := by simp [create]
  permitted := .nil
  oldestFirst := .nil
  drained := .nil

theorem fifoHistory_step (hq : FifoHistory maxSize h q) (hmove : Moves q c q' out) :
    FifoHistory maxSize (h ++ out) q' where
  capacity := hmove.capacity.trans hq.capacity
  bounded hmax := by
    rw [← hq.capacity] at hmax ⊢
    exact hmove.bounded hmax (hq.capacity ▸ hq.bounded (hq.capacity ▸ hmax))
  order := by
    rw [List.flatMap_append, List.flatMap_append, List.append_assoc, hmove.order, ← List.append_assoc, hq.order]
  counted := by rw [hmove.counted, hq.counted, List.flatMap_append, List.length_append]
  closed := by
    rw [hmove.closed, hq.closed, ← exists_or]
    simp only [List.mem_append]
  permitted := Everywhere.append_iff.mpr ⟨hq.permitted, hmove.permitted hq⟩
  oldestFirst := Everywhere.append_iff.mpr ⟨hq.oldestFirst, hmove.oldestFirst hq.order⟩
  drained := Everywhere.append_iff.mpr ⟨hq.drained, hmove.drained_step hq⟩

/-! ## After a shutdown -/

/-- What these threads get from a queue that was shut down: its items in order, then the default. -/
def served : List T → List Nat → List (QueueEvent T)
  | _, [] => []
  | [], thread :: threads => .defaulted thread default :: served [] threads
  | item :: rest, thread :: threads => .popped thread item :: served rest threads

theorem run_served (threads : List Nat) (q : ThreadSafeQueue T) (hdone : q.done = true) :
    calls.run q (threads.map .pop) = some ({ q with queue := q.queue.drop threads.length }, served q.queue threads) := by
  induction threads generalizing q with
  | nil => rfl
  | cons thread threads ih =>
    cases hqueue : q.queue with
    | nil =>
      have hstep : calls.step q (.pop thread) = some (q, [.defaulted thread default]) := by
        simp [calls, pop, popEvent, hqueue, hdone]
      have hrest := ih q hdone
      rw [hqueue, List.drop_nil] at hrest
      exact calls.run_cons_of hstep hrest
    | cons item rest =>
      have hstep : calls.step q (.pop thread) = some ({ q with queue := rest }, [.popped thread item]) := by
        simp [calls, pop, popEvent, hqueue]
      exact calls.run_cons_of hstep (ih { q with queue := rest } hdone)

theorem closed_of_shutdown {cs : List (QueueCall T)} {closer : Nat} (hrun : calls.run q cs = some (q', h))
    (hshutdown : .shutdown closer ∈ cs) : .closed closer ∈ h := by
  induction cs generalizing q h with
  | nil => cases hshutdown
  | cons c cs ih =>
    obtain ⟨t, out, outs, hstep, hrest, rfl⟩ := calls.run_cons_iff.mp hrun
    rcases List.mem_cons.mp hshutdown with rfl | hlater
    · cases hstep
      exact List.mem_append_left _ List.mem_cons_self
    · exact List.mem_append_right _ (ih hrest hlater)

/-- The call is made, and does what the FIFO does with it. -/
def Refines (q : ThreadSafeQueue T) (c : QueueCall T) : Prop := ∃ q' out, calls.step q c = some (q', out) ∧ Moves q c q' out

theorem run_refines {cs : List (QueueCall T)} (hrun : calls.run q cs = some (q', h)) : calls.Along Refines q cs := by
  induction cs generalizing q h with
  | nil => trivial
  | cons c cs ih =>
    obtain ⟨t, out, outs, hstep, hrest, rfl⟩ := calls.run_cons_iff.mp hrun
    refine ⟨⟨t, out, hstep, step_moves hstep⟩, fun t' out' hstep' => ?_⟩
    cases hstep.symm.trans hstep'
    exact ih hrest

/-- **The queue is a bounded FIFO that drops its oldest item.** Every call of every thread is a move of such a FIFO. After any
calls it is within its capacity, what was pushed was popped, dropped or is there, what was popped was pushed in this order
with only the oldest missing, and only a `pop` of the empty queue that is open waits; after a shutdown no `pop` waits, and the
default item comes after all others. -/
theorem refines_fifo (maxSize : Nat) (cs : List (QueueCall T)) (q : ThreadSafeQueue T) (h : List (QueueEvent T))
    (hrun : calls.run (create maxSize) cs = some (q, h)) :
    FifoHistory maxSize h q ∧ calls.Along Refines (create maxSize) cs ∧
      (∀ c, calls.step q c = none ↔ ∃ thread, c = .pop thread ∧ q.queue = [] ∧ q.done = false) ∧
      (h.flatMap QueueEvent.enters).length = (h.flatMap QueueEvent.pops).length + q.droppedCount + q.queue.length ∧
      (h.flatMap QueueEvent.pops).Sublist (h.flatMap QueueEvent.enters) ∧
      ((∃ closer, .shutdown closer ∈ cs) → ∀ threads : List Nat, calls.run q (threads.map .pop) =
        some ({ q with queue := q.queue.drop threads.length }, served q.queue threads)) := by
  have hq : FifoHistory maxSize ([] ++ h) q := by
    apply calls.run_induction (I := FifoHistory maxSize) ?_ (fifoHistory_create maxSize) (calls.along_true _ _) hrun
    exact fun h q c q' out hq _ hstep => fifoHistory_step hq (step_moves hstep)
  rw [List.nil_append] at hq
  refine ⟨hq, run_refines hrun, fun c => step_none_iff, ?_, ?_, ?_⟩
  · rw [← hq.order, List.length_append, leaves_length, hq.counted]
  · exact (pops_sublist h).trans (hq.order ▸ List.sublist_append_left _ _)
  · rintro ⟨closer, hshutdown⟩ threads
    exact run_served threads q (hq.closed.mpr ⟨closer, closed_of_shutdown hrun hshutdown⟩)

/-- Two items in one place, a shutdown, and a third item. -/
def twoInOne : List (QueueCall Nat) := [.push 0 5, .push 0 6, .shutdown 1, .pop 2, .tryPop 0, .push 0 7]

theorem refines_fifo_one : ∃ q h, calls.run (create 1) twoInOne = some (q, h) ∧
    h = [.pushed 5, .dropped 5, .pushed 6, .closed 1, .popped 2 6, .missed 0, .pushed 7] ∧
    calls.run q [.pop 3, .pop 3] = some ({ q with queue := [] }, [.popped 3 7, .defaulted 3 0]) := by
  refine ⟨_, _, rfl, rfl, ?_⟩
  exact (refines_fifo 1 twoInOne _ _ rfl).2.2.2.2.2 ⟨1, by simp [twoInOne]⟩ [3, 3]

end ThreadSafeQueue
end IbarraGateway.GemaVision
