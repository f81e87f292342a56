import IbarraGateway.GemaVision.ThreadSafeQueue
import IbarraGateway.Lib.Machine

/-!
# Video pipeline

The producer of frames, the consumer of the orchestrator, and the owner, who stops the two in the order of a script. Every
input is one atomic step of one thread, with the answers that it gets: whether the weak exchange fails spuriously, and
whether the publication is accepted. A frame is painted in two writes, and read by the inference and by the post-processing.
-/

namespace IbarraGateway.GemaVision

inductive Producer
  | checking
  | acquiring (slot : Slot)
  | painting (slot : Slot)
  | paintingRest (slot : Slot)
  | pushing (slot : Slot)
  | counting
  | sleeping
  | exited
  deriving DecidableEq, Repr

inductive Consumer
  | popping
  | popped
  | inferring (slot : Slot)
  | postProcessing (slot : Slot) (inferred : Frame)
  | publishing (slot : Slot) (inferred processed : Frame)
  | counting (slot : Slot)
  | releasing (slot : Slot)
  | exited
  deriving DecidableEq, Repr

inductive Component
  | producer
  | orchestrator
  deriving DecidableEq, Repr

inductive Owner
  | idle
  | joiningProducer
  | shuttingDown
  | joiningConsumer
  deriving DecidableEq, Repr

structure Pipeline where
  framePool : FramePool
  frameQueue : ThreadSafeQueue (Option Slot)
  producerRunning : Bool
  framesProduced : Nat
  producer : Producer
  orchestratorRunning : Bool
  framesProcessed : Nat
  consumer : Consumer
  owner : Owner
  script : List Component

/-- Both are started; the owner will stop them in the order of the script. -/
def Pipeline.start (script : List Component) : Pipeline where
  framePool := .create
  frameQueue := .create 8
  producerRunning := true
  framesProduced := 0
  producer := .checking
  orchestratorRunning := true
  framesProcessed := 0
  consumer := .popping
  owner := .idle
  script := script

inductive PipelineEvent
  | wrote (slot : Slot)
  | pushed
  | published (inferred processed : Frame) (accepted : Bool)
  deriving DecidableEq, Repr

inductive PipelineInput
  | producer (fails : Bool)
  | consumer (accepted : Bool)
  | owner
  deriving DecidableEq, Repr

namespace Pipeline

/-- `producer_loop`. -/
def produce (s : Pipeline) (fails : Bool) : Option (Pipeline × List PipelineEvent) :=
  match s.producer with
  | .checking => some ({ s with producer := if s.producerRunning then .acquiring 0 else .exited }, [])
  | .acquiring slot =>
    match s.framePool.compareExchangeWeak slot fails with
    | some framePool => some ({ s with framePool := framePool, producer := .painting slot }, [])
    -- the next buffer; after the last one the loop starts again
    | none => some ({ s with producer := .acquiring (slot + 1) }, [])
  | .painting slot =>
    some ({ s with framePool := s.framePool.write slot none, producer := .paintingRest slot }, [.wrote slot])
  | .paintingRest slot =>
    some ({ s with framePool := s.framePool.write slot (some s.framesProduced), producer := .pushing slot }, [.wrote slot])
  | .pushing slot =>
    let (frameQueue, dropped) := s.frameQueue.push (some slot)
    let framePool := dropped.reduceOption.foldl FramePool.release s.framePool
    some ({ s with framePool := framePool, frameQueue := frameQueue, producer := .counting }, [.pushed])
  | .counting => some ({ s with framesProduced := s.framesProduced + 1, producer := .sleeping }, [])
  | .sleeping => some ({ s with producer := .checking }, [])
  | .exited => none

/-- `consumer_loop`. -/
def consume (s : Pipeline) (accepted : Bool) : Option (Pipeline × List PipelineEvent) :=
  match s.consumer with
  | .popping =>
    match s.frameQueue.pop with
    | none => none
    | some (none, frameQueue) => some ({ s with frameQueue := frameQueue, consumer := .popped }, [])
    | some (some slot, frameQueue) => some ({ s with frameQueue := frameQueue, consumer := .inferring slot }, [])
  | .popped => some ({ s with consumer := if s.frameQueue.done then .exited else .popping }, [])
  | .inferring slot => some ({ s with consumer := .postProcessing slot (s.framePool.pool slot) }, [])
  | .postProcessing slot inferred =>
    some ({ s with consumer := .publishing slot inferred (s.framePool.pool slot) }, [])
  | .publishing slot inferred processed =>
    some ({ s with consumer := .counting slot }, [.published inferred processed accepted])
  | .counting slot => some ({ s with framesProcessed := s.framesProcessed + 1, consumer := .releasing slot }, [])
  -- the last reference to the frame is gone
  | .releasing slot => some ({ s with framePool := s.framePool.release slot, consumer := .popping }, [])
  | .exited => none

/-- `MockVideoProducer::stop` and `InferenceOrchestrator::stop`. -/
def stop (s : Pipeline) : Option (Pipeline × List PipelineEvent) :=
  match s.owner, s.script with
  | .idle, [] => none
  | .idle, .producer :: script =>
    let owner := if s.producerRunning then .joiningProducer else .idle
    some ({ s with producerRunning := false, owner := owner, script := script }, [])
  | .idle, .orchestrator :: script =>
    let owner := if s.orchestratorRunning then .shuttingDown else .idle
    some ({ s with orchestratorRunning := false, owner := owner, script := script }, [])
  | .joiningProducer, _ => if s.producer = .exited then some ({ s with owner := .idle }, []) else none
  | .shuttingDown, _ => some ({ s with frameQueue := s.frameQueue.shutdown, owner := .joiningConsumer }, [])
  | .joiningConsumer, _ => if s.consumer = .exited then some ({ s with owner := .idle }, []) else none

end Pipeline

def pipeline : Machine Pipeline PipelineInput PipelineEvent where
  step s
    | .producer fails => s.produce fails
    | .consumer accepted => s.consume accepted
    | .owner => s.stop

/-! ## What a step can do -/

namespace Pipeline

inductive Produces (s : Pipeline) (fails : Bool) : Pipeline → List PipelineEvent → Prop
  | check (hpc : s.producer = .checking) :
      Produces s fails { s with producer := if s.producerRunning then .acquiring 0 else .exited } []
  | acquire {slot : Slot} {framePool : FramePool} (hpc : s.producer = .acquiring slot)
      (hexchange : s.framePool.compareExchangeWeak slot fails = some framePool) :
      Produces s fails { s with framePool := framePool, producer := .painting slot } []
  | next {slot : Slot} (hpc : s.producer = .acquiring slot) (hexchange : s.framePool.compareExchangeWeak slot fails = none) :
      Produces s fails { s with producer := .acquiring (slot + 1) } []
  | paint {slot : Slot} (hpc : s.producer = .painting slot) :
      Produces s fails { s with framePool := s.framePool.write slot none, producer := .paintingRest slot } [.wrote slot]
  | paintRest {slot : Slot} (hpc : s.producer = .paintingRest slot) :
      Produces s fails { s with framePool := s.framePool.write slot (some s.framesProduced), producer := .pushing slot }
        [.wrote slot]
  | push {slot : Slot} {frameQueue : ThreadSafeQueue (Option Slot)} {dropped : List (Option Slot)}
      (hpc : s.producer = .pushing slot) (hpush : s.frameQueue.push (some slot) = (frameQueue, dropped)) :
      Produces s fails { s with
        framePool := dropped.reduceOption.foldl FramePool.release s.framePool
        frameQueue := frameQueue
        producer := .counting } [.pushed]
  | count (hpc : s.producer = .counting) :
      Produces s fails { s with framesProduced := s.framesProduced + 1, producer := .sleeping } []
  | sleep (hpc : s.producer = .sleeping) : Produces s fails { s with producer := .checking } []

theorem produce_inv {s t : Pipeline} {fails : Bool} {out : List PipelineEvent} (hstep : s.produce fails = some (t, out)) :
    Produces s fails t out := by
  unfold produce at hstep
  split at hstep
  · rename_i hpc
    cases hstep
    exact .check hpc
  · rename_i slot hpc
    split at hstep
    · rename_i framePool hexchange
      cases hstep
      exact .acquire hpc hexchange
    · rename_i hexchange
      cases hstep
      exact .next hpc hexchange
  · rename_i slot hpc
    cases hstep
    exact .paint hpc
  · rename_i slot hpc
    cases hstep
    exact .paintRest hpc
  · rename_i slot hpc
    cases hstep
    exact .push hpc rfl
  · rename_i hpc
    cases hstep
    exact .count hpc
  · rename_i hpc
    cases hstep
    exact .sleep hpc
  · cases hstep

inductive Consumes (s : Pipeline) (accepted : Bool) : Pipeline → List PipelineEvent → Prop
  | popNone {frameQueue : ThreadSafeQueue (Option Slot)} (hpc : s.consumer = .popping)
      (hpop : s.frameQueue.pop = some (none, frameQueue)) :
      Consumes s accepted { s with frameQueue := frameQueue, consumer := .popped } []
  | pop {slot : Slot} {frameQueue : ThreadSafeQueue (Option Slot)} (hpc : s.consumer = .popping)
      (hpop : s.frameQueue.pop = some (some slot, frameQueue)) :
      Consumes s accepted { s with frameQueue := frameQueue, consumer := .inferring slot } []
  | check (hpc : s.consumer = .popped) :
      Consumes s accepted { s with consumer := if s.frameQueue.done then .exited else .popping } []
  | infer {slot : Slot} (hpc : s.consumer = .inferring slot) :
      Consumes s accepted { s with consumer := .postProcessing slot (s.framePool.pool slot) } []
  | postProcess {slot : Slot} {inferred : Frame} (hpc : s.consumer = .postProcessing slot inferred) :
      Consumes s accepted { s with consumer := .publishing slot inferred (s.framePool.pool slot) } []
  | publish {slot : Slot} {inferred processed : Frame} (hpc : s.consumer = .publishing slot inferred processed) :
      Consumes s accepted { s with consumer := .counting slot } [.published inferred processed accepted]
  | count {slot : Slot} (hpc : s.consumer = .counting slot) :
      Consumes s accepted { s with framesProcessed := s.framesProcessed + 1, consumer := .releasing slot } []
  | release {slot : Slot} (hpc : s.consumer = .releasing slot) :
      Consumes s accepted { s with framePool := s.framePool.release slot, consumer := .popping } []

theorem consume_inv {s t : Pipeline} {accepted : Bool} {out : List PipelineEvent}
    (hstep : s.consume accepted = some (t, out)) : Consumes s accepted t out := by
  unfold consume at hstep
  split at hstep
  · rename_i hpc
    split at hstep
    · cases hstep
    · rename_i hpop
      cases hstep
      exact .popNone hpc hpop
    · rename_i hpop
      cases hstep
      exact .pop hpc hpop
  · rename_i hpc
    cases hstep
    exact .check hpc
  · rename_i hpc
    cases hstep
    exact .infer hpc
  · rename_i hpc
    cases hstep
    exact .postProcess hpc
  · rename_i hpc
    cases hstep
    exact .publish hpc
  · rename_i hpc
    cases hstep
    exact .count hpc
  · rename_i hpc
    cases hstep
    exact .release hpc
  · cases hstep

inductive Stops (s : Pipeline) : Pipeline → List PipelineEvent → Prop
  | producer {script : List Component} (howner : s.owner = .idle) (hscript : s.script = .producer :: script) :
      Stops s { s with
        producerRunning := false
        owner := if s.producerRunning then .joiningProducer else .idle
        script := script } []
  | orchestrator {script : List Component} (howner : s.owner = .idle) (hscript : s.script = .orchestrator :: script) :
      Stops s { s with
        orchestratorRunning := false
        owner := if s.orchestratorRunning then .shuttingDown else .idle
        script := script } []
  | joinProducer (howner : s.owner = .joiningProducer) (hexited : s.producer = .exited) : Stops s { s with owner := .idle } []
  | shutDown (howner : s.owner = .shuttingDown) :
      Stops s { s with frameQueue := s.frameQueue.shutdown, owner := .joiningConsumer } []
  | joinConsumer (howner : s.owner = .joiningConsumer) (hexited : s.consumer = .exited) : Stops s { s with owner := .idle } []

theorem stop_inv {s t : Pipeline} {out : List PipelineEvent} (hstep : s.stop = some (t, out)) : Stops s t out := by
  unfold stop at hstep
  split at hstep
  · cases hstep
  · rename_i howner hscript
    cases hstep
    exact .producer howner hscript
  · rename_i howner hscript
    cases hstep
    exact .orchestrator howner hscript
  · rename_i howner
    split at hstep
    · rename_i hexited
      cases hstep
      exact .joinProducer howner hexited
    · cases hstep
  · rename_i howner
    cases hstep
    exact .shutDown howner
  · rename_i howner
    split at hstep
    · rename_i hexited
      cases hstep
      exact .joinConsumer howner hexited
    · cases hstep

end Pipeline

/-! ## Buffers at hand -/

def Producer.held : Producer → List Slot
  | .painting slot => [slot]
  | .paintingRest slot => [slot]
  | .pushing slot => [slot]
  | _ => []

/-- What the consumer has not published yet. -/
def Consumer.unpublished : Consumer → List Slot
  | .inferring slot => [slot]
  | .postProcessing slot _ => [slot]
  | .publishing slot _ _ => [slot]
  | _ => []

def Consumer.held : Consumer → List Slot
  | .counting slot => [slot]
  | .releasing slot => [slot]
  | c => c.unpublished

/-! ## What the threads leave alone -/

/-- The two threads stop nothing. -/
structure Pipeline.Kept (s t : Pipeline) : Prop where
  done : t.frameQueue.done = s.frameQueue.done
  producerRunning : t.producerRunning = s.producerRunning
  orchestratorRunning : t.orchestratorRunning = s.orchestratorRunning
  owner : t.owner = s.owner
  script : t.script = s.script

variable {s t : Pipeline} {out : List PipelineEvent}

theorem Pipeline.produce_kept {fails : Bool} (hstep : s.produce fails = some (t, out)) :
    s.Kept t ∧ t.consumer = s.consumer ∧ (out = [] ∨ (∃ slot ∈ s.producer.held, out = [.wrote slot]) ∨ out = [.pushed]) := by
  cases produce_inv hstep with
  | paint hpc => exact ⟨⟨rfl, rfl, rfl, rfl, rfl⟩, rfl, .inr (.inl ⟨_, by rw [hpc]; exact List.mem_cons_self, rfl⟩)⟩
  | paintRest hpc => exact ⟨⟨rfl, rfl, rfl, rfl, rfl⟩, rfl, .inr (.inl ⟨_, by rw [hpc]; exact List.mem_cons_self, rfl⟩)⟩
  | push _ hpush =>
    cases hpush
    exact ⟨⟨rfl, rfl, rfl, rfl, rfl⟩, rfl, .inr (.inr rfl)⟩
  | _ => exact ⟨⟨rfl, rfl, rfl, rfl, rfl⟩, rfl, .inl rfl⟩

theorem Pipeline.consume_kept {accepted : Bool} (hstep : s.consume accepted = some (t, out)) :
    s.Kept t ∧ t.producer = s.producer ∧ (out = [] ∨ ∃ inferred processed, out = [.published inferred processed accepted]) := by
  cases consume_inv hstep with
  | popNone _ hpop => exact ⟨⟨ThreadSafeQueue.pop_done hpop, rfl, rfl, rfl, rfl⟩, rfl, .inl rfl⟩
  | pop _ hpop => exact ⟨⟨ThreadSafeQueue.pop_done hpop, rfl, rfl, rfl, rfl⟩, rfl, .inl rfl⟩
  | publish => exact ⟨⟨rfl, rfl, rfl, rfl, rfl⟩, rfl, .inr ⟨_, _, rfl⟩⟩
  | _ => exact ⟨⟨rfl, rfl, rfl, rfl, rfl⟩, rfl, .inl rfl⟩

/-- The owner takes no part in the work. -/
theorem Pipeline.stop_work (hstep : s.stop = some (t, out)) :
    t.producer = s.producer ∧ t.consumer = s.consumer ∧ t.framePool = s.framePool ∧
      t.frameQueue.queue = s.frameQueue.queue ∧ out = [] := by
  cases stop_inv hstep with
  | _ => exact ⟨rfl, rfl, rfl, rfl, rfl⟩

end IbarraGateway.GemaVision
