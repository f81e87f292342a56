import IbarraGateway.GemaVision.VideoPipeline
import Mathlib.Data.Fintype.Card
import Mathlib.Data.List.ReduceOption

/-!
# Buffers of the pipeline

Each buffer has one holder at any time: its shares (free flag, producer, queue, consumer) add up to one (`Owned`), whatever
step is taken. So there is always room in the queue, and the producer writes where nobody reads.
-/

namespace IbarraGateway.GemaVision

/-! ## What is stated -/

inductive Holder
  | free
  | producer
  | queue
  | consumer
  deriving DecidableEq, Repr

def Held (s : Pipeline) (slot : Slot) : Holder → Prop
  | .free => s.framePool.available slot = true
  | .producer => slot ∈ s.producer.held
  | .queue => some slot ∈ s.frameQueue.queue
  | .consumer => slot ∈ s.consumer.held

def Partitioned (s : Pipeline) : Prop := (∀ slot, ∃! holder, Held s slot holder) ∧ s.frameQueue.queue.Nodup

/-- No step writes into a buffer that the queue or the consumer refers to. -/
def WritesOwn (s : Pipeline) : Prop :=
  ∀ a t out slot, pipeline.step s a = some (t, out) → .wrote slot ∈ out → ¬Held s slot .queue ∧ ¬Held s slot .consumer

/-! ## Shares -/

/-- The frames in the queue. -/
def Pipeline.queued (s : Pipeline) : List Slot := s.frameQueue.queue.reduceOption

def shares (s : Pipeline) (slot : Slot) : Nat :=
  (s.framePool.available slot).toNat + s.producer.held.count slot + s.queued.count slot + s.consumer.held.count slot

structure Owned (s : Pipeline) : Prop where
  shares : ∀ slot, shares s slot = 1
  queue : s.frameQueue.queue = s.queued.map some
  maxSize : s.frameQueue.maxSize = 8
  dropped : s.frameQueue.droppedCount = 0

theorem Owned.start (script : List Component) : Owned (.start script) := ⟨fun _ => rfl, rfl, rfl, rfl⟩

namespace Owned
variable {s : Pipeline}

theorem nodup (ho : Owned s) : s.queued.Nodup := by
  apply List.nodup_iff_count_le_one.mpr
  intro slot
  have hshares := ho.shares slot
  unfold GemaVision.shares at hshares
  omega

theorem length_le (ho : Owned s) : s.frameQueue.queue.length ≤ kPoolSize := by
  rw [ho.queue, List.length_map]
  have hle := ho.nodup.length_le_card
  rwa [Fintype.card_fin] at hle

/-- There is always room in the queue. -/
theorem push (ho : Owned s) (slot : Slot) :
    s.frameQueue.push (some slot) = ({ s.frameQueue with queue := s.frameQueue.queue ++ [some slot] }, []) := by
  apply ThreadSafeQueue.push_of_room
  rw [ho.maxSize]
  exact Nat.lt_of_le_of_lt ho.length_le (by decide)

theorem mem_queue_iff (ho : Owned s) {slot : Slot} : some slot ∈ s.frameQueue.queue ↔ slot ∈ s.queued := by
  rw [ho.queue]
  simp

/-- What one holds, no other holds. -/
theorem of_producer (ho : Owned s) {slot : Slot} (hheld : slot ∈ s.producer.held) :
    slot ∉ s.queued ∧ slot ∉ s.consumer.held := by
  have hshares := ho.shares slot
  have hone := List.count_pos_iff.mpr hheld
  unfold GemaVision.shares at hshares
  constructor
  · exact List.count_eq_zero.mp (by omega)
  · exact List.count_eq_zero.mp (by omega)

theorem of_queue (ho : Owned s) {slot : Slot} (hheld : some slot ∈ s.frameQueue.queue) :
    s.framePool.available slot = false := by
  have hshares := ho.shares slot
  have hone := List.count_pos_iff.mpr (ho.mem_queue_iff.mp hheld)
  unfold GemaVision.shares at hshares
  apply Bool.eq_false_of_not_eq_true
  intro hfree
  rw [hfree, Bool.toNat_true] at hshares
  omega

theorem partitioned (ho : Owned s) : Partitioned s := by
  have hnodup : s.frameQueue.queue.Nodup := by
    rw [ho.queue]
    exact ho.nodup.map (Option.some_injective _)
  refine ⟨fun slot => ?_, hnodup⟩
  have hshares := ho.shares slot
  unfold GemaVision.shares at hshares
  have hfree : Held s slot .free ↔ 0 < (s.framePool.available slot).toNat := by
    show s.framePool.available slot = true ↔ _
    cases s.framePool.available slot <;> simp
  have hproducer : Held s slot .producer ↔ 0 < s.producer.held.count slot := List.count_pos_iff.symm
  have hqueue : Held s slot .queue ↔ 0 < s.queued.count slot := ho.mem_queue_iff.trans List.count_pos_iff.symm
  have hconsumer : Held s slot .consumer ↔ 0 < s.consumer.held.count slot := List.count_pos_iff.symm
  have hunique : ∀ holder, Held s slot holder → ∀ other, Held s slot other → other = holder := by
    intro holder hholder other hother
    cases holder <;> cases other <;>
      simp only [hfree, hproducer, hqueue, hconsumer] at hholder hother <;> first | rfl | omega
  have hsome : ∃ holder, Held s slot holder := by
    by_contra hnone
    rw [not_exists] at hnone
    have h1 := hnone .free
    have h2 := hnone .producer
    have h3 := hnone .queue
    have h4 := hnone .consumer
    rw [hfree] at h1
    rw [hproducer] at h2
    rw [hqueue] at h3
    rw [hconsumer] at h4
    omega
  obtain ⟨holder, hholder⟩ := hsome
  exact ⟨holder, hholder, hunique holder hholder⟩

/-- A step that moves no buffer. -/
theorem quiet (ho : Owned s) {s' : Pipeline} (havailable : s'.framePool.available = s.framePool.available)
    (hproducer : s'.producer.held = s.producer.held) (hqueue : s'.frameQueue.queue = s.frameQueue.queue)
    (hconsumer : s'.consumer.held = s.consumer.held) (hmax : s'.frameQueue.maxSize = s.frameQueue.maxSize)
    (hdropped : s'.frameQueue.droppedCount = s.frameQueue.droppedCount) : Owned s' := by
  have hqueued : s'.queued = s.queued := congrArg List.reduceOption hqueue
  refine ⟨fun slot => ?_, ?_, hmax.trans ho.maxSize, hdropped.trans ho.dropped⟩
  · rw [GemaVision.shares, havailable, hproducer, hqueued, hconsumer]
    exact ho.shares slot
  · rw [hqueue, hqueued]
    exact ho.queue

theorem acquire (ho : Owned s) {slot : Slot} (hheld : s.producer.held = []) (hfree : s.framePool.available slot = true) :
    Owned { s with
      framePool := { s.framePool with available := Function.update s.framePool.available slot false }
      producer := .painting slot } := by
  refine ⟨fun other => ?_, ho.queue, ho.maxSize, ho.dropped⟩
  have hshares := ho.shares other
  unfold GemaVision.shares at hshares
  rw [hheld, List.count_nil] at hshares
  show (Function.update s.framePool.available slot false other).toNat + [slot].count other + s.queued.count other +
    s.consumer.held.count other = 1
  by_cases hother : other = slot
  · subst hother
    rw [Function.update_self, List.count_singleton_self]
    rw [hfree] at hshares
    exact hshares
  · rw [Function.update_of_ne hother, List.count_singleton, if_neg (by simpa using Ne.symm hother)]
    exact hshares

theorem pushed (ho : Owned s) {slot : Slot} (hheld : s.producer.held = [slot]) :
    Owned { s with
      frameQueue := { s.frameQueue with queue := s.frameQueue.queue ++ [some slot] }
      producer := .counting } := by
  have hqueued : (s.frameQueue.queue ++ [some slot]).reduceOption = s.queued ++ [slot] := List.reduceOption_append _ _
  refine ⟨fun other => ?_, ?_, ho.maxSize, ho.dropped⟩
  · have hshares := ho.shares other
    unfold GemaVision.shares at hshares
    rw [hheld] at hshares
    show (s.framePool.available other).toNat + 0 + List.count other (s.frameQueue.queue ++ [some slot]).reduceOption +
      s.consumer.held.count other = 1
    rw [hqueued, List.count_append]
    omega
  · show s.frameQueue.queue ++ [some slot] = List.map some (s.frameQueue.queue ++ [some slot]).reduceOption
    rw [hqueued, List.map_append, ← ho.queue]
    rfl

theorem popped (ho : Owned s) {slot : Slot} {rest : List (Option Slot)} (hheld : s.consumer.held = [])
    (hqueue : s.frameQueue.queue = some slot :: rest) :
    Owned { s with
      frameQueue := { s.frameQueue with queue := rest }
      consumer := .inferring slot } := by
  have hqueued : s.queued = slot :: rest.reduceOption := by
    rw [Pipeline.queued, hqueue, List.reduceOption_cons_of_some]
  refine ⟨fun other => ?_, ?_, ho.maxSize, ho.dropped⟩
  · have hshares := ho.shares other
    unfold GemaVision.shares at hshares
    rw [hheld, hqueued, ← List.singleton_append, List.count_append, List.count_nil] at hshares
    show (s.framePool.available other).toNat + s.producer.held.count other + List.count other rest.reduceOption +
      List.count other [slot] = 1
    omega
  · have hmap := ho.queue
    rw [hqueue, hqueued] at hmap
    exact (List.cons.inj hmap).2

theorem released (ho : Owned s) {slot : Slot} (hheld : s.consumer.held = [slot]) :
    Owned { s with
      framePool := s.framePool.release slot
      consumer := .popping } := by
  refine ⟨fun other => ?_, ho.queue, ho.maxSize, ho.dropped⟩
  have hshares := ho.shares other
  unfold GemaVision.shares at hshares
  rw [hheld] at hshares
  show (Function.update s.framePool.available slot true other).toNat + s.producer.held.count other + s.queued.count other +
    0 = 1
  by_cases hother : other = slot
  · subst hother
    rw [List.count_singleton_self] at hshares
    rw [Function.update_self, Bool.toNat_true]
    omega
  · rw [List.count_singleton, if_neg (by simpa using Ne.symm hother)] at hshares
    rw [Function.update_of_ne hother]
    exact hshares

theorem produce (ho : Owned s) {t : Pipeline} {fails : Bool} {out : List PipelineEvent}
    (hstep : s.produce fails = some (t, out)) : Owned t := by
  cases Pipeline.produce_inv hstep with
  | check hpc =>
    refine ho.quiet rfl ?_ rfl rfl rfl rfl
    rw [hpc]
    cases s.producerRunning <;> rfl
  | acquire hpc hexchange =>
    obtain ⟨hfree, rfl⟩ := FramePool.compareExchangeWeak_some hexchange
    exact ho.acquire (by rw [hpc]; rfl) hfree
  | push hpc hpush =>
    rw [ho.push] at hpush
    cases hpush
    exact ho.pushed (by rw [hpc]; rfl)
  | next hpc => exact ho.quiet rfl (by rw [hpc]; rfl) rfl rfl rfl rfl
  | paint hpc => exact ho.quiet rfl (by rw [hpc]; rfl) rfl rfl rfl rfl
  | paintRest hpc => exact ho.quiet rfl (by rw [hpc]; rfl) rfl rfl rfl rfl
  | count hpc => exact ho.quiet rfl (by rw [hpc]; rfl) rfl rfl rfl rfl
  | sleep hpc => exact ho.quiet rfl (by rw [hpc]; rfl) rfl rfl rfl rfl

/-- A null frame is popped only at the end. -/
theorem pop_none (ho : Owned s) {frameQueue : ThreadSafeQueue (Option Slot)}
    (hpop : s.frameQueue.pop = some (none, frameQueue)) :
    s.frameQueue.queue = [] ∧ s.frameQueue.done = true ∧ frameQueue = s.frameQueue := by
  rcases ThreadSafeQueue.pop_cases hpop with ⟨hqueue, -⟩ | ⟨hempty, hdone, -, hsame⟩
  · have hmem : none ∈ s.queued.map some := by
      rw [← ho.queue, hqueue]
      exact List.mem_cons_self
    simp at hmem
  · exact ⟨hempty, hdone, hsame⟩

theorem consume (ho : Owned s) {t : Pipeline} {accepted : Bool} {out : List PipelineEvent}
    (hstep : s.consume accepted = some (t, out)) : Owned t := by
  cases Pipeline.consume_inv hstep with
  | popNone hpc hpop =>
    obtain ⟨-, -, rfl⟩ := ho.pop_none hpop
    exact ho.quiet rfl rfl rfl (by rw [hpc]; rfl) rfl rfl
  | pop hpc hpop =>
    rcases ThreadSafeQueue.pop_cases hpop with ⟨hqueue, hrest⟩ | ⟨-, -, hdefault, -⟩
    · rw [hrest]
      exact ho.popped (by rw [hpc]; rfl) hqueue
    · cases hdefault
  | check hpc =>
    refine ho.quiet rfl rfl rfl ?_ rfl rfl
    rw [hpc]
    cases s.frameQueue.done <;> rfl
  | release hpc => exact ho.released (by rw [hpc]; rfl)
  | infer hpc => exact ho.quiet rfl rfl rfl (by rw [hpc]; rfl) rfl rfl
  | postProcess hpc => exact ho.quiet rfl rfl rfl (by rw [hpc]; rfl) rfl rfl
  | publish hpc => exact ho.quiet rfl rfl rfl (by rw [hpc]; rfl) rfl rfl
  | count hpc => exact ho.quiet rfl rfl rfl (by rw [hpc]; rfl) rfl rfl

theorem stop (ho : Owned s) {t : Pipeline} {out : List PipelineEvent} (hstep : s.stop = some (t, out)) : Owned t := by
  cases Pipeline.stop_inv hstep with
  | _ => exact ho.quiet rfl rfl rfl rfl rfl rfl

theorem step (ho : Owned s) {a : PipelineInput} {t : Pipeline} {out : List PipelineEvent}
    (hstep : pipeline.step s a = some (t, out)) : Owned t := by
  cases a with
  | producer fails => exact ho.produce hstep
  | consumer accepted => exact ho.consume hstep
  | owner => exact ho.stop hstep

end Owned

theorem owned {script : List Component} {inputs : List PipelineInput} {s : Pipeline} {h : List PipelineEvent}
    (hrun : pipeline.run (.start script) inputs = some (s, h)) : Owned s :=
  pipeline.run_invariant (I := Owned) (fun _ _ _ _ ho _ hstep => ho.step hstep) (.start script)
    (pipeline.along_true _ inputs) hrun

/-- The producer alone writes, into the buffer it holds. -/
theorem wrote_held {s t : Pipeline} {a : PipelineInput} {out : List PipelineEvent} {slot : Slot}
    (hstep : pipeline.step s a = some (t, out)) (hwrote : .wrote slot ∈ out) : slot ∈ s.producer.held := by
  cases a with
  | producer fails =>
    obtain ⟨-, -, rfl | ⟨held, hheld, rfl⟩ | rfl⟩ := s.produce_kept hstep
    · cases hwrote
    · cases List.mem_singleton.mp hwrote
      exact hheld
    · cases List.mem_singleton.mp hwrote
  | consumer accepted =>
    obtain ⟨-, -, rfl | ⟨inferred, processed, rfl⟩⟩ := s.consume_kept hstep
    · cases hwrote
    · cases List.mem_singleton.mp hwrote
  | owner =>
    obtain ⟨-, -, -, -, rfl⟩ := s.stop_work hstep
    cases hwrote

end IbarraGateway.GemaVision
