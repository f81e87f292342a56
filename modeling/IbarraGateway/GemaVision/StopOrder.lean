import IbarraGateway.GemaVision.FrameOrder

/-!
# The order of the stops

`acquire` does not look at `running_`, and nothing takes frames from the queue once the consumer is gone.

* `never_wedged_iff` : the producer can be told to stop in vain exactly when the owner stops the orchestrator first.
* `Wedged.stays` : from there no step of anyone leads out.
-/

namespace IbarraGateway.GemaVision

/-! ## What is stated -/

/-- `MockVideoProducer::stop` waits for the producer, which looks for a free buffer; all of them are in the queue, and the
consumer is gone. -/
structure Wedged (s : Pipeline) : Prop where
  joining : s.owner = .joiningProducer
  told : s.producerRunning = false
  spinning : ∃ slot, s.producer = .acquiring slot
  queued : ∀ slot, s.framePool.available slot = false ∧ some slot ∈ s.frameQueue.queue
  gone : s.consumer = .exited

/-- The first stop is that of the orchestrator, and the producer is stopped later. -/
def OrchestratorFirst (script : List Component) : Prop := script.head? = some .orchestrator ∧ .producer ∈ script

/-! ## No way out -/

/-- Nobody leaves the deadlock. -/
theorem Wedged.stays {s t : Pipeline} {a : PipelineInput} {out : List PipelineEvent} (hw : Wedged s)
    (hstep : pipeline.step s a = some (t, out)) : Wedged t := by
  cases a with
  | producer fails =>
    obtain ⟨slot, hpc⟩ := hw.spinning
    have hexchange : s.framePool.compareExchangeWeak slot fails = none := by
      unfold FramePool.compareExchangeWeak
      rw [(hw.queued slot).1]
      rfl
    simp only [pipeline, Pipeline.produce, hpc, hexchange] at hstep
    cases hstep
    exact ⟨hw.joining, hw.told, ⟨slot + 1, rfl⟩, hw.queued, hw.gone⟩
  | consumer accepted =>
    simp only [pipeline, Pipeline.consume, hw.gone] at hstep
    cases hstep
  | owner =>
    obtain ⟨slot, hpc⟩ := hw.spinning
    simp only [pipeline, Pipeline.stop, hw.joining, hpc] at hstep
    cases hstep

/-! ## The producer first -/

/-- While the owner waits for the producer, the queue is not shut down; neither is it before, if it is the producer's turn
first. -/
structure Flowing (s : Pipeline) : Prop where
  joining : s.owner = .joiningProducer → s.frameQueue.done = false
  running : s.producerRunning = true → .producer ∈ s.script →
    s.owner = .idle ∧ s.frameQueue.done = false ∧ s.script.head? ≠ some .orchestrator

theorem Flowing.start {script : List Component} (hscript : ¬OrchestratorFirst script) : Flowing (.start script) :=
  ⟨nofun, fun _ hmem => ⟨rfl, rfl, fun hhead => hscript ⟨hhead, hmem⟩⟩⟩

theorem Flowing.kept {s t : Pipeline} (hf : Flowing s) (hkept : s.Kept t) : Flowing t := by
  constructor
  · rw [hkept.owner, hkept.done]
    exact hf.joining
  · rw [hkept.producerRunning, hkept.script, hkept.owner, hkept.done]
    exact hf.running

theorem Flowing.stop {s t : Pipeline} {out : List PipelineEvent} (hf : Flowing s) (hstep : s.stop = some (t, out)) :
    Flowing t := by
  have hbusy (hne : s.owner ≠ .idle) (hrunning : s.producerRunning = true) (hmem : .producer ∈ s.script) : False :=
    hne (hf.running hrunning hmem).1
  cases Pipeline.stop_inv hstep with
  | producer _ hscript =>
    refine ⟨fun hjoining => ?_, nofun⟩
    dsimp only at hjoining
    split at hjoining
    · rename_i hrunning
      exact (hf.running hrunning (by rw [hscript]; exact List.mem_cons_self)).2.1
    · cases hjoining
  | orchestrator _ hscript =>
    refine ⟨fun hjoining => ?_, fun hrunning hmem => ?_⟩
    · dsimp only at hjoining
      split at hjoining <;> cases hjoining
    · have hhead := (hf.running hrunning (by rw [hscript]; exact List.mem_cons_of_mem _ hmem)).2.2
      rw [hscript] at hhead
      exact absurd rfl hhead
  | joinProducer howner => exact ⟨nofun, fun hrunning hmem => (hbusy (by simp [howner]) hrunning hmem).elim⟩
  | shutDown howner => exact ⟨nofun, fun hrunning hmem => (hbusy (by simp [howner]) hrunning hmem).elim⟩
  | joinConsumer howner => exact ⟨nofun, fun hrunning hmem => (hbusy (by simp [howner]) hrunning hmem).elim⟩

theorem Flowing.step {s t : Pipeline} {a : PipelineInput} {out : List PipelineEvent} (hf : Flowing s)
    (hstep : pipeline.step s a = some (t, out)) : Flowing t := by
  cases a with
  | producer fails => exact hf.kept (s.produce_kept hstep).1
  | consumer accepted => exact hf.kept (s.consume_kept hstep).1
  | owner => exact hf.stop hstep

theorem not_wedged {script : List Component} (hscript : ¬OrchestratorFirst script) {inputs : List PipelineInput}
    {s : Pipeline} {h : List PipelineEvent} (hrun : pipeline.run (.start script) inputs = some (s, h)) : ¬Wedged s := by
  intro hw
  have hf : Flowing s := pipeline.run_invariant (I := Flowing) (fun _ _ _ _ hf _ hstep => hf.step hstep) (.start hscript)
    (pipeline.along_true _ inputs) hrun
  exact ((paced hrun).live (hf.joining hw.joining)).2 hw.gone

/-! ## The orchestrator first -/

/-- The orchestrator is stopped before a frame is pushed. -/
def stopped (script : List Component) : Pipeline :=
  { Pipeline.start script with
    frameQueue := (ThreadSafeQueue.create 8).shutdown
    orchestratorRunning := false
    consumer := .exited }

theorem run_stopped (script : List Component) :
    pipeline.run (.start (.orchestrator :: script)) [.owner, .owner, .consumer true, .consumer true, .owner] =
      some (stopped script, []) := rfl

/-- Stopping the orchestrator again does nothing. -/
theorem run_again {script : List Component} (hmem : .producer ∈ script) :
    ∃ inputs rest, pipeline.run (stopped script) inputs = some (stopped (.producer :: rest), []) := by
  induction script with
  | nil => cases hmem
  | cons c script ih =>
    cases c with
    | producer => exact ⟨[], script, rfl⟩
    | orchestrator =>
      obtain ⟨inputs, rest, hrun⟩ := ih ((List.mem_cons.mp hmem).resolve_left nofun)
      have hskip : pipeline.step (stopped (.orchestrator :: script)) .owner = some (stopped script, []) := rfl
      exact ⟨.owner :: inputs, rest, pipeline.run_cons_of hskip hrun⟩

/-- The producer fills the queue, and is told to stop when it looks for a fifth buffer. -/
theorem run_filled (script : List Component) :
    ∃ s h, pipeline.run (stopped (.producer :: script)) (List.replicate 35 (.producer false) ++ [.owner]) = some (s, h) ∧
      s.owner = .joiningProducer ∧ s.producerRunning = false ∧ s.producer = .acquiring 0 ∧ s.consumer = .exited ∧
      s.frameQueue.queue = [some 0, some 1, some 2, some 3] :=
  ⟨_, _, rfl, rfl, rfl, rfl, rfl, rfl⟩

theorem wedged_of_orchestratorFirst {script : List Component} (hfirst : OrchestratorFirst script) :
    ∃ inputs s h, pipeline.run (.start script) inputs = some (s, h) ∧ Wedged s := by
  obtain ⟨hhead, hmem⟩ := hfirst
  obtain ⟨rest, rfl⟩ : ∃ rest, script = .orchestrator :: rest := by
    cases script with
    | nil => cases hhead
    | cons c rest =>
      cases hhead
      exact ⟨rest, rfl⟩
  obtain ⟨again, script, hagain⟩ := run_again ((List.mem_cons.mp hmem).resolve_left nofun)
  obtain ⟨s, h, hfilled, howner, htold, hpc, hgone, hqueue⟩ := run_filled script
  have hrun := pipeline.run_append_iff.mpr ⟨_, _, _, run_stopped rest,
    pipeline.run_append_iff.mpr ⟨_, _, _, hagain, hfilled, rfl⟩, rfl⟩
  refine ⟨_, s, _, hrun, howner, htold, ⟨0, hpc⟩, fun slot => ?_, hgone⟩
  have hqueued : some slot ∈ s.frameQueue.queue := by
    rw [hqueue]
    revert slot
    decide
  exact ⟨(owned hrun).of_queue hqueued, hqueued⟩

/-! ## The two orders -/

/-- **Stop order.** For every script of the owner: the producer is never told to stop in vain exactly when the orchestrator is
not the first to be stopped. -/
theorem never_wedged_iff (script : List Component) :
    (∀ inputs s h, pipeline.run (.start script) inputs = some (s, h) → ¬Wedged s) ↔ ¬OrchestratorFirst script := by
  constructor
  · intro hnever hfirst
    obtain ⟨inputs, s, h, hrun, hw⟩ := wedged_of_orchestratorFirst hfirst
    exact hnever inputs s h hrun hw
  · intro hscript inputs s h hrun
    exact not_wedged hscript hrun

/-- The documented order. -/
theorem documented_order_wedges :
    ∃ inputs s h, pipeline.run (.start [.orchestrator, .producer]) inputs = some (s, h) ∧ Wedged s :=
  wedged_of_orchestratorFirst ⟨rfl, by decide⟩

end IbarraGateway.GemaVision
