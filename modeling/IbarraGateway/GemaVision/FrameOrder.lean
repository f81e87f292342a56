import IbarraGateway.GemaVision.BufferOwnership
import Mathlib

/-!
# Frames of the pipeline

* `buffers_owned` : in every run each buffer has exactly one holder, the producer writes into its own buffer only, nothing
  is dropped, and the frames are published once each, in the order of production, as they were painted.

What is published, then what is in flight, are the frames pushed (`Ordered`); the consumer takes six steps for a frame
(`Paced`).
-/

namespace IbarraGateway.GemaVision

/-! ## What is stated -/

/-- The frames that were published: as they were seen by the inference, and by the post-processing. -/
def publications (h : List PipelineEvent) : List (Frame × Frame) :=
  h.filterMap fun
    | .published inferred processed _ => some (inferred, processed)
    | _ => none

def pushes (h : List PipelineEvent) : Nat := h.count .pushed

/-- Some of the frames pushed, the first ones, each once, in order, as they were painted. -/
def PublishedInOrder (h : List PipelineEvent) : Prop :=
  publications h = (List.range (publications h).length).map (fun n => (some n, some n)) ∧ (publications h).length ≤ pushes h

def consumerSteps (inputs : List PipelineInput) : Nat :=
  inputs.countP fun
    | .consumer _ => true
    | _ => false

/-- The consumer is never stuck while a frame is not published, and takes six steps for each. -/
def Progresses (inputs : List PipelineInput) (h : List PipelineEvent) (s : Pipeline) : Prop :=
  ((publications h).length < pushes h → ∀ accepted, (pipeline.step s (.consumer accepted)).isSome = true) ∧
    consumerSteps inputs ≤ 6 * (publications h).length + 3

/-! ## Order -/

/-- The frames that are pushed and not published, oldest first. -/
def flight (s : Pipeline) : List Frame := (s.consumer.unpublished ++ s.queued).map s.framePool.pool

/-- What is published, then what is in flight, are the frames that were pushed. -/
structure Ordered (h : List PipelineEvent) (s : Pipeline) : Prop where
  order : publications h ++ (flight s).map (fun frame => (frame, frame)) =
    (List.range (pushes h)).map fun n => (some n, some n)
  produced : pushes h = if s.producer = .counting then s.framesProduced + 1 else s.framesProduced
  painted : ∀ slot, s.producer = .pushing slot → s.framePool.pool slot = some s.framesProduced
  inferred : ∀ slot inferred, s.consumer = .postProcessing slot inferred → inferred = s.framePool.pool slot
  processed : ∀ slot inferred processed, s.consumer = .publishing slot inferred processed →
    inferred = s.framePool.pool slot ∧ processed = s.framePool.pool slot

theorem publications_append (h out : List PipelineEvent) : publications (h ++ out) = publications h ++ publications out :=
  List.filterMap_append

theorem pushes_append (h out : List PipelineEvent) : pushes (h ++ out) = pushes h + pushes out := List.count_append

theorem Ordered.start (script : List Component) : Ordered [] (.start script) := ⟨rfl, rfl, nofun, nofun, nofun⟩

theorem Consumer.mem_held {c : Consumer} {slot : Slot} (hslot : slot ∈ c.unpublished) : slot ∈ c.held := by
  cases c <;> first | exact hslot | cases hslot

/-- A write into the producer's buffer changes no frame in flight. -/
theorem pool_write {s : Pipeline} (hn : Owned s) {slot : Slot} (hheld : slot ∈ s.producer.held) (frame : Frame) {other : Slot}
    (hother : other ∈ s.consumer.held ∨ other ∈ s.queued) :
    (s.framePool.write slot frame).pool other = s.framePool.pool other := by
  apply Function.update_of_ne
  rintro rfl
  obtain ⟨hqueue, hconsumer⟩ := hn.of_producer hheld
  exact hother.elim hconsumer hqueue

namespace Ordered
variable {h : List PipelineEvent} {s : Pipeline}

/-- A step that neither pushes nor publishes. -/
theorem order_quiet (ho : Ordered h s) {s' : Pipeline} {out : List PipelineEvent} (hpublications : publications out = [])
    (hpushes : pushes out = 0) (hflight : flight s' = flight s) :
    publications (h ++ out) ++ (flight s').map (fun frame => (frame, frame)) =
      (List.range (pushes (h ++ out))).map fun n => (some n, some n) := by
  rw [publications_append, pushes_append, hpublications, hpushes, hflight, List.append_nil]
  exact ho.order

/-- The producer goes on without a push. -/
theorem withProducer (ho : Ordered h s) {s' : Pipeline} {out : List PipelineEvent} (hout : publications out = [] ∧ pushes out = 0)
    (hconsumer : s'.consumer = s.consumer) (hqueue : s'.frameQueue = s.frameQueue)
    (hpool : ∀ slot, slot ∈ s.consumer.held ∨ slot ∈ s.queued → s'.framePool.pool slot = s.framePool.pool slot)
    (hproduced : pushes h = if s'.producer = .counting then s'.framesProduced + 1 else s'.framesProduced)
    (hpainted : ∀ slot, s'.producer = .pushing slot → s'.framePool.pool slot = some s'.framesProduced) :
    Ordered (h ++ out) s' := by
  have hflight : flight s' = flight s := by
    unfold flight Pipeline.queued
    rw [hconsumer, hqueue]
    apply List.map_congr_left
    intro slot hslot
    apply hpool
    exact (List.mem_append.mp hslot).imp_left Consumer.mem_held
  refine ⟨ho.order_quiet hout.1 hout.2 hflight, ?_, hpainted, ?_, ?_⟩
  · rw [pushes_append, hout.2]
    exact hproduced
  · intro slot inferred hpc
    rw [hconsumer] at hpc
    rw [hpool slot (.inl (by rw [hpc]; exact List.mem_cons_self))]
    exact ho.inferred slot inferred hpc
  · intro slot inferred processed hpc
    rw [hconsumer] at hpc
    rw [hpool slot (.inl (by rw [hpc]; exact List.mem_cons_self))]
    exact ho.processed slot inferred processed hpc

theorem produce (ho : Ordered h s) (hn : Owned s) {t : Pipeline} {fails : Bool} {out : List PipelineEvent}
    (hstep : s.produce fails = some (t, out)) : Ordered (h ++ out) t := by
  have hproduced := ho.produced
  cases Pipeline.produce_inv hstep with
  | check hpc =>
    rw [hpc, if_neg nofun] at hproduced
    refine ho.withProducer ⟨rfl, rfl⟩ rfl rfl (fun _ _ => rfl) ?_ ?_
    · cases s.producerRunning <;> exact hproduced
    · intro slot
      cases s.producerRunning <;> nofun
  | acquire hpc hexchange =>
    rw [hpc, if_neg nofun] at hproduced
    obtain ⟨-, rfl⟩ := FramePool.compareExchangeWeak_some hexchange
    exact ho.withProducer ⟨rfl, rfl⟩ rfl rfl (fun _ _ => rfl) hproduced nofun
  | next hpc =>
    rw [hpc, if_neg nofun] at hproduced
    exact ho.withProducer ⟨rfl, rfl⟩ rfl rfl (fun _ _ => rfl) hproduced nofun
  | paint hpc =>
    rw [hpc, if_neg nofun] at hproduced
    exact ho.withProducer ⟨rfl, rfl⟩ rfl rfl (fun _ => pool_write hn (by rw [hpc]; exact List.mem_cons_self) _) hproduced nofun
  | paintRest hpc =>
    rw [hpc, if_neg nofun] at hproduced
    refine ho.withProducer ⟨rfl, rfl⟩ rfl rfl (fun _ => pool_write hn (by rw [hpc]; exact List.mem_cons_self) _) hproduced ?_
    intro other hother
    cases hother
    exact Function.update_self _ _ _
  | @push slot _ _ hpc hpush =>
    rw [hpc, if_neg nofun] at hproduced
    rw [hn.push slot] at hpush
    cases hpush
    have hqueued : (s.frameQueue.queue ++ [some slot]).reduceOption = s.queued ++ [slot] := List.reduceOption_append _ _
    have hpublications : publications (h ++ [.pushed]) = publications h := by
      rw [publications_append]
      exact List.append_nil _
    have hpushes : pushes (h ++ [.pushed]) = pushes h + 1 := pushes_append h _
    refine ⟨?_, ?_, nofun, ho.inferred, ho.processed⟩
    · have hnew : (s.consumer.unpublished ++ (s.frameQueue.queue ++ [some slot]).reduceOption).map s.framePool.pool =
          flight s ++ [some s.framesProduced] := by
        rw [hqueued, ← List.append_assoc, List.map_append, flight, List.map_singleton, ho.painted slot hpc]
      show publications (h ++ [.pushed]) ++ ((s.consumer.unpublished ++
        (s.frameQueue.queue ++ [some slot]).reduceOption).map s.framePool.pool).map _ = _
      rw [hnew, List.map_append, hpublications, ← List.append_assoc, ho.order, hpushes, List.range_succ, List.map_append,
        hproduced]
      rfl
    · rw [hpushes, hproduced]
      rfl
  | count hpc =>
    rw [hpc, if_pos rfl] at hproduced
    exact ho.withProducer ⟨rfl, rfl⟩ rfl rfl (fun _ _ => rfl) hproduced nofun
  | sleep hpc =>
    rw [hpc, if_neg nofun] at hproduced
    exact ho.withProducer ⟨rfl, rfl⟩ rfl rfl (fun _ _ => rfl) hproduced nofun

/-- The consumer goes on without a publication; it holds the frames that it held or takes the oldest one. -/
theorem withConsumer (ho : Ordered h s) {s' : Pipeline} (hproducer : s'.producer = s.producer)
    (hproduced : s'.framesProduced = s.framesProduced) (hpool : s'.framePool.pool = s.framePool.pool)
    (hflight : s'.consumer.unpublished ++ s'.queued = s.consumer.unpublished ++ s.queued)
    (hinferred : ∀ slot inferred, s'.consumer = .postProcessing slot inferred → inferred = s.framePool.pool slot)
    (hprocessed : ∀ slot inferred processed, s'.consumer = .publishing slot inferred processed →
      inferred = s.framePool.pool slot ∧ processed = s.framePool.pool slot) : Ordered (h ++ []) s' := by
  have hsame : flight s' = flight s := by rw [flight, hpool, hflight, flight]
  refine ⟨ho.order_quiet rfl rfl hsame, ?_, ?_, ?_, ?_⟩
  · rw [List.append_nil, hproducer, hproduced]
    exact ho.produced
  · rw [hproducer, hpool, hproduced]
    exact ho.painted
  · rw [hpool]
    exact hinferred
  · rw [hpool]
    exact hprocessed

theorem consume (ho : Ordered h s) (hn : Owned s) {t : Pipeline} {accepted : Bool} {out : List PipelineEvent}
    (hstep : s.consume accepted = some (t, out)) : Ordered (h ++ out) t := by
  cases Pipeline.consume_inv hstep with
  | popNone hpc hpop =>
    obtain ⟨-, -, rfl⟩ := hn.pop_none hpop
    exact ho.withConsumer rfl rfl rfl (by rw [hpc]; rfl) (by simp) (by simp)
  | @pop slot frameQueue hpc hpop =>
    rcases ThreadSafeQueue.pop_cases hpop with ⟨hqueue, -⟩ | ⟨-, -, hdefault, -⟩
    · refine ho.withConsumer rfl rfl rfl ?_ (by simp) (by simp)
      show [slot] ++ frameQueue.queue.reduceOption = _
      rw [hpc, Pipeline.queued, hqueue, List.reduceOption_cons_of_some]
      rfl
    · cases hdefault
  | check hpc =>
    refine ho.withConsumer rfl rfl rfl ?_ ?_ ?_
    · rw [hpc]
      cases s.frameQueue.done <;> rfl
    · intro slot inferred
      cases s.frameQueue.done <;> simp
    · intro slot inferred processed
      cases s.frameQueue.done <;> simp
  | infer hpc =>
    refine ho.withConsumer rfl rfl rfl (by rw [hpc]; rfl) ?_ (by simp)
    intro other inferred heq
    cases heq
    rfl
  | postProcess hpc =>
    refine ho.withConsumer rfl rfl rfl (by rw [hpc]; rfl) (by simp) ?_
    intro other _ _ heq
    cases heq
    exact ⟨ho.inferred _ _ hpc, rfl⟩
  | publish hpc =>
    obtain ⟨rfl, rfl⟩ := ho.processed _ _ _ hpc
    refine ⟨?_, ?_, ho.painted, by simp, by simp⟩
    · -- the oldest frame in flight is published
      have horder := ho.order
      rw [flight, hpc] at horder
      rw [publications_append, pushes_append, List.append_assoc]
      exact horder
    · rw [pushes_append]
      exact ho.produced
  | count hpc => exact ho.withConsumer rfl rfl rfl (by rw [hpc]; rfl) (by simp) (by simp)
  | release hpc => exact ho.withConsumer rfl rfl rfl (by rw [hpc]; rfl) (by simp) (by simp)

theorem stop (ho : Ordered h s) {t : Pipeline} {out : List PipelineEvent} (hstep : s.stop = some (t, out)) :
    Ordered (h ++ out) t := by
  cases Pipeline.stop_inv hstep with
  | _ => exact ho.withConsumer rfl rfl rfl rfl ho.inferred ho.processed

theorem step (ho : Ordered h s) (hn : Owned s) {a : PipelineInput} {t : Pipeline} {out : List PipelineEvent}
    (hstep : pipeline.step s a = some (t, out)) : Ordered (h ++ out) t := by
  cases a with
  | producer fails => exact ho.produce hn hstep
  | consumer accepted => exact ho.consume hn hstep
  | owner => exact ho.stop hstep

theorem publishedInOrder (ho : Ordered h s) : PublishedInOrder h := by
  have hlen := congrArg List.length ho.order
  rw [List.length_append, List.length_map, List.length_map, List.length_range] at hlen
  have hle : (publications h).length ≤ pushes h := by omega
  refine ⟨?_, hle⟩
  have htake := congrArg (List.take (publications h).length) ho.order
  rw [List.take_left, ← List.map_take, List.take_range, min_eq_left hle] at htake
  exact htake

end Ordered

theorem ordered {script : List Component} {inputs : List PipelineInput} {s : Pipeline} {h : List PipelineEvent}
    (hrun : pipeline.run (.start script) inputs = some (s, h)) : Ordered h s := by
  have hinv : Owned s ∧ Ordered ([] ++ h) s := by
    apply pipeline.run_induction (I := fun h s => Owned s ∧ Ordered h s) ?_ ⟨.start script, .start script⟩
      (pipeline.along_true _ inputs) hrun
    rintro h s a t out ⟨hn, ho⟩ - hstep
    exact ⟨hn.step hstep, ho.step hn hstep⟩
  exact hinv.2

/-! ## Progress -/

/-- How far the consumer is with its frame. -/
def Consumer.stage : Consumer → Nat
  | .inferring _ => 1
  | .postProcessing _ _ => 2
  | .publishing _ _ _ => 3
  | .counting _ => 4
  | .releasing _ => 5
  | _ => 0

/-- While nothing is stopped, the steps of the consumer are six for each frame done and those for the frame at hand. -/
structure Paced (inputs : List PipelineInput) (h : List PipelineEvent) (s : Pipeline) : Prop where
  done : s.orchestratorRunning = true → s.frameQueue.done = false ∧ s.owner ≠ .shuttingDown
  live : s.frameQueue.done = false → s.consumer ≠ .popped ∧ s.consumer ≠ .exited
  steps : s.frameQueue.done = false →
    consumerSteps inputs + (if s.consumer.stage < 4 then 0 else 6) = 6 * (publications h).length + s.consumer.stage

theorem Paced.start (script : List Component) : Paced [] [] (.start script) :=
  ⟨fun _ => ⟨rfl, nofun⟩, fun _ => ⟨nofun, nofun⟩, fun _ => rfl⟩

theorem consumerSteps_snoc (inputs : List PipelineInput) (a : PipelineInput) :
    consumerSteps (inputs ++ [a]) = consumerSteps inputs + consumerSteps [a] := List.countP_append

namespace Paced
variable {inputs : List PipelineInput} {h : List PipelineEvent} {s t : Pipeline} {out : List PipelineEvent}

theorem produce (hp : Paced inputs h s) {fails : Bool} (hstep : s.produce fails = some (t, out)) :
    Paced (inputs ++ [.producer fails]) (h ++ out) t := by
  obtain ⟨hkept, hconsumer, hevents⟩ := s.produce_kept hstep
  have hout : publications out = [] := by
    obtain rfl | ⟨slot, -, rfl⟩ | rfl := hevents <;> rfl
  refine ⟨?_, ?_, ?_⟩
  · rw [hkept.orchestratorRunning, hkept.done, hkept.owner]
    exact hp.done
  · rw [hkept.done, hconsumer]
    exact hp.live
  · rw [hkept.done, hconsumer, publications_append, hout, List.append_nil, consumerSteps_snoc]
    exact hp.steps

theorem consume (hp : Paced inputs h s) (hn : Owned s) {accepted : Bool} (hstep : s.consume accepted = some (t, out)) :
    Paced (inputs ++ [.consumer accepted]) (h ++ out) t := by
  have hkept := (s.consume_kept hstep).1
  have hnext : t.frameQueue.done = false → (t.consumer ≠ .popped ∧ t.consumer ≠ .exited) ∧
      consumerSteps (inputs ++ [.consumer accepted]) + (if t.consumer.stage < 4 then 0 else 6) =
        6 * (publications (h ++ out)).length + t.consumer.stage := by
    intro hdone
    rw [hkept.done] at hdone
    have hsteps := hp.steps hdone
    have hcount : consumerSteps (inputs ++ [.consumer accepted]) = consumerSteps inputs + 1 := consumerSteps_snoc _ _
    rw [hcount, publications_append, List.length_append]
    cases Pipeline.consume_inv hstep with
    | popNone _ hpop =>
      have hshut := (hn.pop_none hpop).2.1
      rw [hdone] at hshut
      cases hshut
    | check hpc => exact absurd hpc (hp.live hdone).1
    | pop hpc =>
      rw [hpc] at hsteps
      exact ⟨⟨nofun, nofun⟩, congrArg (· + 1) hsteps⟩
    | infer hpc =>
      rw [hpc] at hsteps
      exact ⟨⟨nofun, nofun⟩, congrArg (· + 1) hsteps⟩
    | postProcess hpc =>
      rw [hpc] at hsteps
      exact ⟨⟨nofun, nofun⟩, congrArg (· + 1) hsteps⟩
    | publish hpc =>
      -- one frame more is done, six steps are accounted for
      rw [hpc] at hsteps
      refine ⟨⟨nofun, nofun⟩, ?_⟩
      show consumerSteps inputs + 1 + 6 = 6 * ((publications h).length + 1) + 4
      have hbefore : consumerSteps inputs + 0 = 6 * (publications h).length + 3 := hsteps
      omega
    | count hpc =>
      rw [hpc] at hsteps
      refine ⟨⟨nofun, nofun⟩, ?_⟩
      show consumerSteps inputs + 1 + 6 = 6 * (publications h).length + 5
      have hbefore : consumerSteps inputs + 6 = 6 * (publications h).length + 4 := hsteps
      omega
    | release hpc =>
      rw [hpc] at hsteps
      refine ⟨⟨nofun, nofun⟩, ?_⟩
      show consumerSteps inputs + 1 + 0 = 6 * (publications h).length + 0
      have hbefore : consumerSteps inputs + 6 = 6 * (publications h).length + 5 := hsteps
      omega
  refine ⟨?_, fun hdone => (hnext hdone).1, fun hdone => (hnext hdone).2⟩
  rw [hkept.orchestratorRunning, hkept.done, hkept.owner]
  exact hp.done

theorem stop (hp : Paced inputs h s) (hstep : s.stop = some (t, out)) : Paced (inputs ++ [.owner]) (h ++ out) t := by
  obtain ⟨-, hconsumer, -, -, rfl⟩ := s.stop_work hstep
  have hsame : ∀ s', s'.consumer = s.consumer → (s'.frameQueue.done = false → s.frameQueue.done = false) →
      (s'.orchestratorRunning = true → s'.frameQueue.done = false ∧ s'.owner ≠ .shuttingDown) →
      Paced (inputs ++ [.owner]) (h ++ []) s' := by
    intro s' hsame hdone hrunning
    refine ⟨hrunning, fun hnot => ?_, fun hnot => ?_⟩
    · rw [hsame]
      exact hp.live (hdone hnot)
    · rw [hsame, List.append_nil, consumerSteps_snoc]
      exact hp.steps (hdone hnot)
  cases Pipeline.stop_inv hstep with
  | producer =>
    refine hsame _ rfl id fun hrunning => ⟨(hp.done hrunning).1, ?_⟩
    cases s.producerRunning <;> nofun
  | orchestrator => exact hsame _ rfl id nofun
  | shutDown howner => exact hsame _ rfl nofun fun hrunning => absurd howner (hp.done hrunning).2
  | joinProducer => exact hsame _ rfl id fun hrunning => ⟨(hp.done hrunning).1, nofun⟩
  | joinConsumer => exact hsame _ rfl id fun hrunning => ⟨(hp.done hrunning).1, nofun⟩

theorem step (hp : Paced inputs h s) (hn : Owned s) {a : PipelineInput} (hstep : pipeline.step s a = some (t, out)) :
    Paced (inputs ++ [a]) (h ++ out) t := by
  cases a with
  | producer fails => exact hp.produce hstep
  | consumer accepted => exact hp.consume hn hstep
  | owner => exact hp.stop hstep

/-- A frame that is not published is at hand, or waits in the queue. -/
theorem progresses (hp : Paced inputs h s) (ho : Ordered h s) (hn : Owned s) (hrunning : s.orchestratorRunning = true) :
    Progresses inputs h s := by
  have hdone := (hp.done hrunning).1
  constructor
  · intro hlt accepted
    have hlen := congrArg List.length ho.order
    rw [List.length_append, List.length_map, List.length_map, List.length_range, flight, List.length_map,
      List.length_append] at hlen
    show (s.consume accepted).isSome = true
    unfold Pipeline.consume
    split
    · rename_i hpc
      rw [hpc] at hlen
      have hpos : 0 < s.queued.length := by
        have hnone : (Consumer.popping.unpublished).length = 0 := rfl
        omega
      obtain ⟨slot, rest, hqueued⟩ := List.exists_cons_of_length_pos hpos
      have hpop : s.frameQueue.pop = some (some slot, { s.frameQueue with queue := rest.map some }) := by
        unfold ThreadSafeQueue.pop
        rw [hn.queue, hqueued]
        rfl
      rw [hpop]
      rfl
    · rfl
    · rfl
    · rfl
    · rfl
    · rfl
    · rfl
    · rename_i hpc
      exact absurd hpc (hp.live hdone).2
  · have hsteps := hp.steps hdone
    have hstage : s.consumer.stage ≤ 5 := by cases s.consumer <;> simp [Consumer.stage]
    split at hsteps <;> omega

end Paced

theorem paced {script : List Component} {inputs : List PipelineInput} {s : Pipeline} {h : List PipelineEvent}
    (hrun : pipeline.run (.start script) inputs = some (s, h)) : Paced inputs h s := by
  have hinv : Owned s ∧ Paced inputs h s := by
    apply pipeline.run_snoc_induction (I := fun inputs h s => Owned s ∧ Paced inputs h s) ⟨.start script, .start script⟩ ?_
      (pipeline.along_true _ inputs) hrun
    rintro inputs h s a t out - ⟨hn, hp⟩ - hstep
    exact ⟨hn.step hstep, hp.step hn hstep⟩
  exact hinv.2

/-- **Buffers and frames.** In every run of the three threads, whatever the owner stops and when. -/
theorem buffers_owned {script : List Component} {inputs : List PipelineInput} {s : Pipeline} {h : List PipelineEvent}
    (hrun : pipeline.run (.start script) inputs = some (s, h)) :
    Partitioned s ∧ WritesOwn s ∧ s.frameQueue.queue.length ≤ kPoolSize ∧ s.frameQueue.droppedCount = 0 ∧
      PublishedInOrder h ∧ (s.orchestratorRunning = true → Progresses inputs h s) := by
  have hn := owned hrun
  have ho := ordered hrun
  refine ⟨hn.partitioned, ?_, hn.length_le, hn.dropped, ho.publishedInOrder, (paced hrun).progresses ho hn⟩
  intro a t out slot hstep hwrote
  obtain ⟨hqueue, hconsumer⟩ := hn.of_producer (wrote_held hstep hwrote)
  exact ⟨fun hheld => hqueue (hn.mem_queue_iff.mp hheld), hconsumer⟩

/-- The first frame is pushed, and goes through the consumer. -/
def firstFrame : List PipelineInput := List.replicate 6 (.producer false) ++ List.replicate 6 (.consumer true)

/-- It is published as it was painted, and its buffer is free again. -/
theorem first_frame_published :
    ∃ s h, pipeline.run (.start []) firstFrame = some (s, h) ∧ s.consumer = .popping ∧ publications h = [(some 0, some 0)] ∧
      Partitioned s ∧ WritesOwn s ∧ s.frameQueue.queue.length ≤ kPoolSize ∧ s.frameQueue.droppedCount = 0 ∧
      PublishedInOrder h ∧ (s.orchestratorRunning = true → Progresses firstFrame h s) := by
  refine ⟨_, _, rfl, rfl, rfl, ?_⟩
  exact @buffers_owned [] firstFrame _ _ rfl

end IbarraGateway.GemaVision
