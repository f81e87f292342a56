import IbarraGateway.GemaVision.ThreadSafeQueue
import IbarraGateway.Lib.Machine

/-!
# The orchestrator and its thread

`start` and `stop` of one caller, any pushes, and `consumer_loop`, atomic step by atomic step. A frame is known by the number
of its push; what is pushed may be the null pointer.

* `step_moves` : what a step can do.
* `Numbered` : the entries of the queue and the frame at hand are pushes of their own.
-/

namespace IbarraGateway.GemaVision.Orchestration

/-- An entry of the queue: of which push, and whether the pointer is null. -/
structure Item where
  number : Nat
  null : Bool
  deriving DecidableEq, Repr

/-- `std::shared_ptr<cv::Mat>{}`. -/
instance : Inhabited Item := ⟨⟨0, true⟩⟩

/-- Where the thread is in `consumer_loop`. -/
inductive Worker
  | absent
  | popping
  /-- A null pointer was popped. -/
  | checking
  | inferring (number : Nat)
  | publishing (number : Nat)
  | counting (number : Nat)
  | returned
  deriving DecidableEq, Repr

/-- Where the caller is in `start` or `stop`. -/
inductive Caller
  | idle
  | resetting
  | spawning
  | shuttingDown
  | joining
  deriving DecidableEq, Repr

structure State where
  frameQueue : ThreadSafeQueue Item
  /-- The number of the next push. -/
  pushes : Nat := 0
  running : Bool := false
  framesProcessed : UInt64 := 0
  worker : Worker := .absent
  caller : Caller := .idle

/-- A new orchestrator on a new queue. -/
def State.create (maxSize : Nat) : State := { frameQueue := .create maxSize }

inductive Input
  | push (null : Bool)
  | consumer (accepted : Bool)
  | start
  | stop
  /-- The next step of the call. -/
  | caller
  deriving DecidableEq, Repr

inductive Event
  | pushed (item : Item)
  | dropped (item : Item)
  | popped (item : Item)
  | published (number : Nat) (accepted : Bool)
  | processed (number : Nat) (before : UInt64)
  | reset (found : UInt64)
  | closed
  deriving DecidableEq, Repr

namespace State
variable (s : State)

def push (null : Bool) : State × List Event :=
  let item : Item := ⟨s.pushes, null⟩
  ({ s with frameQueue := (s.frameQueue.push item).1, pushes := s.pushes + 1 },
    (s.frameQueue.push item).2.map .dropped ++ [.pushed item])

/-- `consumer_loop`; `accepted` is the answer of `publish`, which changes nothing. -/
def consume (accepted : Bool) : Option (State × List Event) :=
  match s.worker with
  | .absent => none
  | .popping =>
    match s.frameQueue.pop with
    | none => none
    | some (item, frameQueue) =>
      let worker := if item.null then .checking else .inferring item.number
      some ({ s with frameQueue, worker }, if s.frameQueue.queue = [] then [] else [.popped item])
  | .checking => some ({ s with worker := if s.frameQueue.done then .returned else .popping }, [])
  | .inferring number => some ({ s with worker := .publishing number }, [])
  | .publishing number => some ({ s with worker := .counting number }, [.published number accepted])
  | .counting number =>
    some ({ s with framesProcessed := s.framesProcessed + 1, worker := .popping }, [.processed number s.framesProcessed])
  | .returned => none

/-- `start`, up to its exchange. -/
def start : Option (State × List Event) :=
  if s.caller ≠ .idle then none
  else if s.running then some (s, []) else some ({ s with running := true, caller := .resetting }, [])

/-- `stop`, up to its exchange. -/
def stop : Option (State × List Event) :=
  if s.caller ≠ .idle then none
  else if s.running then some ({ s with running := false, caller := .shuttingDown }, []) else some (s, [])

/-- The rest of the two. -/
def call : Option (State × List Event) :=
  match s.caller with
  | .idle => none
  | .resetting => some ({ s with framesProcessed := 0, caller := .spawning }, [.reset s.framesProcessed])
  | .spawning => some ({ s with worker := .popping, caller := .idle }, [])
  | .shuttingDown => some ({ s with frameQueue := s.frameQueue.shutdown, caller := .joining }, [.closed])
  | .joining => if s.worker = .returned then some ({ s with worker := .absent, caller := .idle }, []) else none

end State

def orchestrator : Machine State Input Event where
  step s
    | .push null => some (s.push null)
    | .consumer accepted => s.consume accepted
    | .start => s.start
    | .stop => s.stop
    | .caller => s.call

/-! ## One step -/

/-- What a step can do. -/
inductive Moves (s : State) : Input → State → List Event → Prop
  | pushed (null : Bool) (hroom : ¬BoundedFifo.Full s.frameQueue.maxSize s.frameQueue.queue) :
    Moves s (.push null)
      { s with
        frameQueue := { s.frameQueue with queue := s.frameQueue.queue ++ [⟨s.pushes, null⟩] }
        pushes := s.pushes + 1 } [.pushed ⟨s.pushes, null⟩]
  | overflowed (null : Bool) (oldest : Item) (rest : List Item)
    (hfull : BoundedFifo.Full s.frameQueue.maxSize s.frameQueue.queue) (hqueue : s.frameQueue.queue = oldest :: rest) :
    Moves s (.push null)
      { s with
        frameQueue :=
          { s.frameQueue with queue := rest ++ [⟨s.pushes, null⟩], droppedCount := s.frameQueue.droppedCount + 1 }
        pushes := s.pushes + 1 } [.dropped oldest, .pushed ⟨s.pushes, null⟩]
  | popped (accepted : Bool) (item : Item) (rest : List Item) (hworker : s.worker = .popping)
    (hqueue : s.frameQueue.queue = item :: rest) :
    Moves s (.consumer accepted)
      { s with
        frameQueue := { s.frameQueue with queue := rest }
        worker := if item.null then .checking else .inferring item.number } [.popped item]
  | drained (accepted : Bool) (hworker : s.worker = .popping) (hqueue : s.frameQueue.queue = [])
    (hdone : s.frameQueue.done = true) : Moves s (.consumer accepted) { s with worker := .checking } []
  | skipped (accepted : Bool) (hworker : s.worker = .checking) (hdone : s.frameQueue.done = false) :
    Moves s (.consumer accepted) { s with worker := .popping } []
  | returned (accepted : Bool) (hworker : s.worker = .checking) (hdone : s.frameQueue.done = true) :
    Moves s (.consumer accepted) { s with worker := .returned } []
  | inferred (accepted : Bool) (number : Nat) (hworker : s.worker = .inferring number) :
    Moves s (.consumer accepted) { s with worker := .publishing number } []
  | published (accepted : Bool) (number : Nat) (hworker : s.worker = .publishing number) :
    Moves s (.consumer accepted) { s with worker := .counting number } [.published number accepted]
  | counted (accepted : Bool) (number : Nat) (hworker : s.worker = .counting number) :
    Moves s (.consumer accepted) { s with framesProcessed := s.framesProcessed + 1, worker := .popping }
      [.processed number s.framesProcessed]
  | startedAlready (hcaller : s.caller = .idle) (hrunning : s.running = true) : Moves s .start s []
  | starting (hcaller : s.caller = .idle) (hrunning : s.running = false) :
    Moves s .start { s with running := true, caller := .resetting } []
  | stopping (hcaller : s.caller = .idle) (hrunning : s.running = true) :
    Moves s .stop { s with running := false, caller := .shuttingDown } []
  | stoppedAlready (hcaller : s.caller = .idle) (hrunning : s.running = false) : Moves s .stop s []
  | reset (hcaller : s.caller = .resetting) :
    Moves s .caller { s with framesProcessed := 0, caller := .spawning } [.reset s.framesProcessed]
  | spawned (hcaller : s.caller = .spawning) : Moves s .caller { s with worker := .popping, caller := .idle } []
  | closed (hcaller : s.caller = .shuttingDown) :
    Moves s .caller { s with frameQueue := s.frameQueue.shutdown, caller := .joining } [.closed]
  | joined (hcaller : s.caller = .joining) (hworker : s.worker = .returned) :
    Moves s .caller { s with worker := .absent, caller := .idle } []

theorem push_moves (s : State) (null : Bool) : Moves s (.push null) (s.push null).1 (s.push null).2 := by
  unfold State.push ThreadSafeQueue.push BoundedFifo.push BoundedFifo.evicted
  by_cases hfull : BoundedFifo.Full s.frameQueue.maxSize s.frameQueue.queue
  · simp only [if_pos hfull]
    cases hqueue : s.frameQueue.queue with
    | nil =>
      have hlength := hfull.2
      rw [hqueue] at hlength
      exact absurd (hfull.1.trans_le hlength) (Nat.lt_irrefl 0)
    | cons oldest rest => exact .overflowed null oldest rest hfull hqueue
  · simp only [if_neg hfull]
    exact .pushed null hfull

theorem consume_moves {s t : State} {accepted : Bool} {out : List Event} (h : s.consume accepted = some (t, out)) :
    Moves s (.consumer accepted) t out := by
  unfold State.consume at h
  split at h
  · cases h
  · rename_i hworker
    split at h
    · cases h
    · rename_i item frameQueue hpop
      cases h
      rcases ThreadSafeQueue.pop_cases hpop with ⟨hqueue, hrest⟩ | ⟨hqueue, hdone, rfl, rfl⟩
      · have hevents : (if s.frameQueue.queue = [] then [] else [Event.popped item]) = [.popped item] := by
          rw [hqueue]
          rfl
        rw [hevents, hrest]
        exact .popped accepted item _ hworker hqueue
      · have hevents : (if s.frameQueue.queue = [] then [] else [Event.popped default]) = [] := if_pos hqueue
        rw [hevents]
        exact .drained accepted hworker hqueue hdone
  · rename_i hworker
    cases h
    cases hdone : s.frameQueue.done with
    | false => exact .skipped accepted hworker hdone
    | true => exact .returned accepted hworker hdone
  · rename_i number hworker
    cases h
    exact .inferred accepted number hworker
  · rename_i number hworker
    cases h
    exact .published accepted number hworker
  · rename_i number hworker
    cases h
    exact .counted accepted number hworker
  · cases h

theorem step_moves {s t : State} {a : Input} {out : List Event} (h : orchestrator.step s a = some (t, out)) :
    Moves s a t out := by
  cases a with
  | push null =>
    cases h
    exact push_moves s null
  | consumer accepted => exact consume_moves h
  | start =>
    change s.start = _ at h
    unfold State.start at h
    split at h
    · cases h
    rename_i hcaller
    split at h
    · rename_i hrunning
      cases h
      exact .startedAlready (not_not.mp hcaller) hrunning
    · rename_i hrunning
      cases h
      exact .starting (not_not.mp hcaller) (Bool.eq_false_iff.mpr hrunning)
  | stop =>
    change s.stop = _ at h
    unfold State.stop at h
    split at h
    · cases h
    rename_i hcaller
    split at h
    · rename_i hrunning
      cases h
      exact .stopping (not_not.mp hcaller) hrunning
    · rename_i hrunning
      cases h
      exact .stoppedAlready (not_not.mp hcaller) (Bool.eq_false_iff.mpr hrunning)
  | caller =>
    change s.call = _ at h
    unfold State.call at h
    split at h
    · cases h
    · rename_i hcaller
      cases h
      exact .reset hcaller
    · rename_i hcaller
      cases h
      exact .spawned hcaller
    · rename_i hcaller
      cases h
      exact .closed hcaller
    · rename_i hcaller
      split at h
      · rename_i hworker
        cases h
        exact .joined hcaller hworker
      · cases h

/-! ## Frames -/

/-- The frame at hand that is not published yet. -/
def Worker.unpublished : Worker → List Nat
  | .inferring number => [number]
  | .publishing number => [number]
  | _ => []

/-- The frame at hand. -/
def Worker.held : Worker → List Nat
  | .inferring number => [number]
  | .publishing number => [number]
  | .counting number => [number]
  | _ => []

@[simp] theorem unpublished_popped (item : Item) :
    (if item.null then Worker.checking else .inferring item.number).unpublished = if item.null then [] else [item.number] := by
  split <;> rfl

@[simp] theorem held_popped (item : Item) :
    (if item.null then Worker.checking else .inferring item.number).held = if item.null then [] else [item.number] := by
  split <;> rfl

/-- The pushes that are still on their way, the frame at hand first. -/
def State.inFlight (s : State) : List Nat := s.worker.held ++ s.frameQueue.queue.map Item.number

/-- The next number, behind smaller ones in order. -/
theorem ordered_snoc {numbers : List Nat} {next : Nat} (hordered : numbers.Pairwise (· < ·)) (hpushed : ∀ n ∈ numbers, n < next) :
    (numbers ++ [next]).Pairwise (· < ·) ∧ ∀ n ∈ numbers ++ [next], n < next + 1 := by
  constructor
  · rw [List.pairwise_append]
    refine ⟨hordered, List.pairwise_singleton _ _, fun n hn m hm => ?_⟩
    rw [List.mem_singleton.mp hm]
    exact hpushed n hn
  · intro n hn
    rcases List.mem_append.mp hn with hold | hnew
    · exact Nat.lt_succ_of_lt (hpushed n hold)
    · rw [List.mem_singleton.mp hnew]
      exact Nat.lt_succ_self _

/-- What is on its way was pushed, each by a push of its own, the earlier one in front. -/
structure Numbered (s : State) : Prop where
  ordered : s.inFlight.Pairwise (· < ·)
  pushed : ∀ number ∈ s.inFlight, number < s.pushes

theorem Numbered.create (maxSize : Nat) : Numbered (.create maxSize) := ⟨List.Pairwise.nil, nofun⟩

/-- Whatever is dropped or done leaves the rest in order. -/
theorem Numbered.sublist {s t : State} (hs : Numbered s) (hpushes : t.pushes = s.pushes)
    (hflight : t.inFlight.Sublist s.inFlight) : Numbered t := by
  refine ⟨hs.ordered.sublist hflight, fun number hmem => ?_⟩
  rw [hpushes]
  exact hs.pushed number (hflight.subset hmem)

theorem Numbered.snoc {s t : State} (hs : Numbered s) (hpushes : t.pushes = s.pushes + 1) {flight : List Nat}
    (hflight : t.inFlight = flight ++ [s.pushes]) (hsub : flight.Sublist s.inFlight) : Numbered t := by
  have hnext := ordered_snoc (hs.ordered.sublist hsub) fun number hnumber => hs.pushed number (hsub.subset hnumber)
  rw [← hflight, ← hpushes] at hnext
  exact ⟨hnext.1, hnext.2⟩

theorem Numbered.step {s t : State} {a : Input} {out : List Event} (hs : Numbered s) (hstep : orchestrator.step s a = some (t, out)) :
    Numbered t := by
  cases step_moves hstep with
  | pushed null hroom =>
    refine @Numbered.snoc s _ hs rfl s.inFlight ?_ (List.Sublist.refl _)
    simp [State.inFlight]
  | overflowed null oldest rest hfull hqueue =>
    refine @Numbered.snoc s _ hs rfl (s.worker.held ++ rest.map Item.number) ?_ ?_
    · simp [State.inFlight]
    · rw [State.inFlight, hqueue]
      exact List.Sublist.append_left (List.sublist_cons_self _ _) _
  | popped accepted item rest hworker hqueue =>
    refine hs.sublist rfl ?_
    rw [State.inFlight, State.inFlight, hqueue, hworker]
    show ((if item.null then Worker.checking else .inferring item.number).held ++ rest.map Item.number).Sublist
      (item.number :: rest.map Item.number)
    rw [held_popped]
    split
    · exact List.sublist_cons_self _ _
    · exact (List.Sublist.refl _)
  | drained accepted hworker hqueue hdone | skipped accepted hworker hdone | returned accepted hworker hdone =>
    refine hs.sublist rfl ?_
    rw [State.inFlight, State.inFlight, hworker]
    exact List.Sublist.refl _
  | inferred accepted number hworker | published accepted number hworker =>
    refine hs.sublist rfl ?_
    rw [State.inFlight, State.inFlight, hworker]
    exact List.Sublist.refl _
  | counted accepted number hworker =>
    refine hs.sublist rfl ?_
    rw [State.inFlight, State.inFlight, hworker]
    exact List.sublist_cons_self _ _
  | spawned hcaller => exact hs.sublist rfl (List.sublist_append_right _ _)
  | joined hcaller hworker => exact hs.sublist rfl (List.sublist_append_right _ _)
  | _ => exact hs.sublist rfl (List.Sublist.refl _)

theorem numbered {maxSize : Nat} {inputs : List Input} {s : State} {h : List Event}
    (hrun : orchestrator.run (.create maxSize) inputs = some (s, h)) : Numbered s :=
  orchestrator.run_invariant (I := Numbered) (fun _ _ _ _ hs _ hstep => hs.step hstep) (.create maxSize)
    (orchestrator.along_true _ inputs) hrun

end IbarraGateway.GemaVision.Orchestration
