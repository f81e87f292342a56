import IbarraGateway.GemaVision.InferenceOrchestrator

/-!
# Starting the orchestrator again

`stop` shuts the queue down, and nothing opens it again; `start` does not look. So the thread of a second `start` returns
as soon as it finds the queue empty.

* `Live` : while nobody stops it, what is pushed and not dropped is processed.
* `live_iff` : a running orchestrator is live throughout a run exactly when no `start` of the run finds the queue shut down.
-/

namespace IbarraGateway.GemaVision.Orchestration

/-! ## What is stated -/

/-- A step of the caller or of the thread. -/
def Input.IsTurn : Input → Prop
  | caller => True
  | consumer _ => True
  | _ => False

/-- Whatever is pushed from here on, no `stop` being called and nothing being dropped: after some more turns of the caller
and the thread the frame is processed. -/
def Live (s : State) : Prop :=
  ∀ inputs t h, (∀ a ∈ inputs, a ≠ .stop) → orchestrator.run s inputs = some (t, h) → (∀ item, .dropped item ∉ h) →
    ∀ f : Item, .pushed f ∈ h → f.null = false →
      ∃ more u h', (∀ a ∈ more, a.IsTurn) ∧ orchestrator.run t more = some (u, h') ∧
        ∃ before, .processed f.number before ∈ h ++ h'

/-- A `start` that has an effect finds the queue open. -/
def StartsOpen (s : State) (a : Input) : Prop := a = .start → s.running = false → s.frameQueue.done = false

/-! ## Stages -/

/-- Which of the caller, the flag and the thread go together. -/
def Staged (s : State) : Prop :=
  match s.caller with
  | .idle => s.running = true ↔ s.worker ≠ .absent
  | .resetting => s.running = true ∧ s.worker = .absent
  | .spawning => s.running = true ∧ s.worker = .absent
  | .shuttingDown => s.running = false ∧ s.worker ≠ .absent
  | .joining => s.running = false ∧ s.worker ≠ .absent

/-- The thread goes on, or returns; it is there before and afterwards. -/
theorem Staged.consume {s : State} (hs : Staged s) {worker : Worker} {frameQueue : ThreadSafeQueue Item}
    {framesProcessed : UInt64} (hbefore : s.worker ≠ .absent) (hafter : worker ≠ .absent) :
    Staged { s with frameQueue, framesProcessed, worker } := by
  unfold Staged at hs ⊢
  cases hcaller : s.caller with
  | idle =>
    rw [hcaller] at hs
    exact ⟨fun _ => hafter, fun _ => hs.mpr hbefore⟩
  | resetting | spawning =>
    rw [hcaller] at hs
    exact absurd hs.2 hbefore
  | shuttingDown | joining =>
    rw [hcaller] at hs
    exact ⟨hs.1, hafter⟩

theorem Staged.step {s t : State} {a : Input} {out : List Event} (hs : Staged s) (hstep : orchestrator.step s a = some (t, out)) :
    Staged t := by
  cases step_moves hstep with
  | pushed | overflowed => exact hs
  | popped accepted item rest hworker hqueue =>
    refine hs.consume (by rw [hworker]; nofun) ?_
    split <;> nofun
  | drained accepted hworker | skipped accepted hworker | returned accepted hworker =>
    exact hs.consume (by rw [hworker]; nofun) nofun
  | inferred accepted number hworker | published accepted number hworker | counted accepted number hworker =>
    exact hs.consume (by rw [hworker]; nofun) nofun
  | startedAlready | stoppedAlready => exact hs
  | starting hcaller hrunning =>
    unfold Staged at hs
    rw [hcaller] at hs
    refine ⟨rfl, ?_⟩
    by_contra hworker
    rw [hs.mpr hworker] at hrunning
    cases hrunning
  | stopping hcaller hrunning =>
    unfold Staged at hs
    rw [hcaller] at hs
    exact ⟨rfl, hs.mp hrunning⟩
  | reset hcaller =>
    unfold Staged at hs
    rw [hcaller] at hs
    exact hs
  | spawned hcaller =>
    unfold Staged at hs
    rw [hcaller] at hs
    exact ⟨fun _ => nofun, fun _ => hs.1⟩
  | closed hcaller =>
    unfold Staged at hs
    rw [hcaller] at hs
    exact hs
  | joined hcaller hworker =>
    unfold Staged at hs
    rw [hcaller] at hs
    refine ⟨fun hrunning => ?_, fun h => absurd rfl h⟩
    rw [hs.1] at hrunning
    cases hrunning

theorem Staged.create (maxSize : Nat) : Staged (.create maxSize) := ⟨nofun, fun h => absurd rfl h⟩

theorem staged {maxSize : Nat} {inputs : List Input} {s : State} {h : List Event}
    (hrun : orchestrator.run (.create maxSize) inputs = some (s, h)) : Staged s :=
  orchestrator.run_invariant (I := Staged) (fun _ _ _ _ hs _ hstep => hs.step hstep) (.create maxSize)
    (orchestrator.along_true _ inputs) hrun

/-! ## A queue that is open -/

/-- The queue is open and the thread, once there is one, in its loop. -/
structure Serving (s : State) : Prop where
  staged : Staged s
  running : s.running = true
  opened : s.frameQueue.done = false
  inLoop : s.worker ≠ .returned

theorem Serving.step {s t : State} {a : Input} {out : List Event} (hs : Serving s) (ha : a ≠ .stop)
    (hstep : orchestrator.step s a = some (t, out)) : Serving t := by
  have hstaged := hs.staged.step hstep
  cases step_moves hstep with
  | pushed | overflowed => exact ⟨hstaged, hs.running, hs.opened, hs.inLoop⟩
  | popped accepted item rest hworker hqueue =>
    refine ⟨hstaged, hs.running, hs.opened, ?_⟩
    show (if item.null then Worker.checking else .inferring item.number) ≠ .returned
    split <;> nofun
  | drained | skipped | inferred | published | counted => exact ⟨hstaged, hs.running, hs.opened, nofun⟩
  | returned accepted hworker hdone =>
    rw [hs.opened] at hdone
    cases hdone
  | startedAlready => exact hs
  | starting hcaller hrunning =>
    rw [hs.running] at hrunning
    cases hrunning
  | stopping | stoppedAlready => exact absurd rfl ha
  | reset hcaller => exact ⟨hstaged, hs.running, hs.opened, hs.inLoop⟩
  | spawned hcaller => exact ⟨hstaged, hs.running, hs.opened, nofun⟩
  | closed hcaller | joined hcaller =>
    have hstage := hs.staged
    unfold Staged at hstage
    rw [hcaller, hs.running] at hstage
    cases hstage.1

/-- What was pushed is in the queue, at hand or processed. -/
structure Tracked (h : List Event) (s : State) : Prop where
  serving : Serving s
  tracked : (∀ item, .dropped item ∉ h) → ∀ f : Item, .pushed f ∈ h → f.null = false →
    f ∈ s.frameQueue.queue ∨ f.number ∈ s.worker.held ∨ ∃ before, .processed f.number before ∈ h

theorem Tracked.step {s t : State} {a : Input} {h out : List Event} (hs : Tracked h s) (ha : a ≠ .stop)
    (hstep : orchestrator.step s a = some (t, out)) : Tracked (h ++ out) t := by
  refine ⟨hs.serving.step ha hstep, fun hkept f hf hnull => ?_⟩
  have hkept' : ∀ item, .dropped item ∉ h := fun item hitem => hkept item (List.mem_append_left _ hitem)
  have hold := hs.tracked hkept' f
  have hprocessed : (∃ before, .processed f.number before ∈ h) → ∃ before, .processed f.number before ∈ h ++ out :=
    fun ⟨before, hmem⟩ => ⟨before, List.mem_append_left _ hmem⟩
  have hstage := hs.serving.staged
  unfold Staged at hstage
  cases step_moves hstep with
  | pushed null hroom =>
    rcases List.mem_append.mp hf with hf | hf
    · exact (hold hf hnull).imp (List.mem_append_left _) (Or.imp_right hprocessed)
    · obtain rfl : f = ⟨s.pushes, null⟩ := by simpa using hf
      exact .inl (List.mem_append_right _ List.mem_cons_self)
  | overflowed null oldest rest hfull hqueue => exact absurd (List.mem_append_right _ List.mem_cons_self) (hkept oldest)
  | popped accepted item rest hworker hqueue =>
    have hf : .pushed f ∈ h := by simpa using hf
    show f ∈ rest ∨ f.number ∈ (if item.null then Worker.checking else .inferring item.number).held ∨ _
    rw [held_popped]
    rcases hold hf hnull with hmem | hmem | hmem
    · rw [hqueue] at hmem
      rcases List.mem_cons.mp hmem with rfl | hmem
      · rw [hnull]
        exact .inr (.inl List.mem_cons_self)
      · exact .inl hmem
    · rw [hworker] at hmem
      cases hmem
    · exact .inr (.inr (hprocessed hmem))
  | drained accepted hworker | skipped accepted hworker | returned accepted hworker =>
    have hf : .pushed f ∈ h := by simpa using hf
    rw [hworker] at hold
    exact (hold hf hnull).imp id (Or.imp (fun hmem => absurd hmem List.not_mem_nil) hprocessed)
  | inferred accepted number hworker | published accepted number hworker =>
    have hf : .pushed f ∈ h := by simpa using hf
    rw [hworker] at hold
    exact (hold hf hnull).imp id (Or.imp id hprocessed)
  | counted accepted number hworker =>
    have hf : .pushed f ∈ h := by simpa using hf
    rw [hworker] at hold
    rcases hold hf hnull with hmem | hmem | hmem
    · exact .inl hmem
    · obtain rfl : f.number = number := List.mem_singleton.mp hmem
      exact .inr (.inr ⟨_, List.mem_append_right _ List.mem_cons_self⟩)
    · exact .inr (.inr (hprocessed hmem))
  | spawned hcaller =>
    have hf : .pushed f ∈ h := by simpa using hf
    rw [hcaller] at hstage
    rw [hstage.2] at hold
    exact (hold hf hnull).imp id (Or.imp (fun hmem => absurd hmem List.not_mem_nil) hprocessed)
  | joined hcaller hworker =>
    have hf : .pushed f ∈ h := by simpa using hf
    rw [hworker] at hold
    exact (hold hf hnull).imp id (Or.imp (fun hmem => absurd hmem List.not_mem_nil) hprocessed)
  | startedAlready | starting | stopping | stoppedAlready | closed | reset =>
    have hf : .pushed f ∈ h := by simpa using hf
    exact (hold hf hnull).imp id (Or.imp id hprocessed)

/-! ## The thread goes on -/

/-- Turns of the thread and the caller, from one state to another. -/
def Turns (s u : State) (h : List Event) : Prop := ∃ more, (∀ a ∈ more, a.IsTurn) ∧ orchestrator.run s more = some (u, h)

theorem Turns.refl (s : State) : Turns s s [] := ⟨[], nofun, rfl⟩

theorem Turns.cons {s t u : State} {a : Input} {out h : List Event} (ha : a.IsTurn)
    (hstep : orchestrator.step s a = some (t, out)) (hrest : Turns t u h) : Turns s u (out ++ h) := by
  obtain ⟨more, hmore, hrun⟩ := hrest
  exact ⟨a :: more, List.forall_mem_cons.mpr ⟨ha, hmore⟩, orchestrator.run_cons_of hstep hrun⟩

theorem Turns.thread {s t u : State} {out h : List Event} (hstep : orchestrator.step s (.consumer true) = some (t, out))
    (hrest : Turns t u h) : Turns s u (out ++ h) := .cons (a := .consumer true) trivial hstep hrest

theorem Turns.call {s t u : State} {out h : List Event} (hstep : orchestrator.step s .caller = some (t, out))
    (hrest : Turns t u h) : Turns s u (out ++ h) := .cons (a := .caller) trivial hstep hrest

theorem Turns.trans {s t u : State} {h h' : List Event} (hfirst : Turns s t h) (hrest : Turns t u h') : Turns s u (h ++ h') := by
  obtain ⟨more, hmore, hrun⟩ := hfirst
  obtain ⟨more', hmore', hrun'⟩ := hrest
  exact ⟨more ++ more', List.forall_mem_append.mpr ⟨hmore, hmore'⟩,
    orchestrator.run_append_iff.mpr ⟨t, h, h', hrun, hrun', rfl⟩⟩

section Progress
variable {s : State}

theorem step_pop {item : Item} {rest : List Item} (hworker : s.worker = .popping) (hqueue : s.frameQueue.queue = item :: rest) :
    orchestrator.step s (.consumer true) = some ({ s with
      frameQueue := { s.frameQueue with queue := rest }
      worker := if item.null then .checking else .inferring item.number }, [.popped item]) := by
  show s.consume true = _
  simp [State.consume, hworker, ThreadSafeQueue.pop, hqueue]

theorem step_pop_null {item : Item} {rest : List Item} (hworker : s.worker = .popping)
    (hqueue : s.frameQueue.queue = item :: rest) (hnull : item.null = true) :
    orchestrator.step s (.consumer true) =
      some ({ s with frameQueue := { s.frameQueue with queue := rest }, worker := .checking }, [.popped item]) := by
  rw [step_pop hworker hqueue, if_pos hnull]

theorem step_skip (hworker : s.worker = .checking) (hopened : s.frameQueue.done = false) :
    orchestrator.step s (.consumer true) = some ({ s with worker := .popping }, []) := by
  show s.consume true = _
  simp [State.consume, hworker, hopened]

theorem step_call (hcaller : s.caller = .resetting) : orchestrator.step s .caller =
    some ({ s with framesProcessed := 0, caller := .spawning }, [.reset s.framesProcessed]) := by
  show s.call = _
  rw [State.call, hcaller]

theorem turns_counting {number : Nat} (hworker : s.worker = .counting number) :
    Turns s { s with framesProcessed := s.framesProcessed + 1, worker := .popping } [.processed number s.framesProcessed] := by
  have hcount : orchestrator.step s (.consumer true) =
      some ({ s with framesProcessed := s.framesProcessed + 1, worker := .popping }, [.processed number s.framesProcessed]) := by
    show s.consume true = _
    rw [State.consume, hworker]
  exact .thread hcount (.refl _)

theorem turns_publishing {number : Nat} (hworker : s.worker = .publishing number) :
    Turns s { s with framesProcessed := s.framesProcessed + 1, worker := .popping }
      ([.published number true] ++ [.processed number s.framesProcessed]) := by
  have hpublish : orchestrator.step s (.consumer true) =
      some ({ s with worker := .counting number }, [.published number true]) := by
    show s.consume true = _
    rw [State.consume, hworker]
  exact .thread hpublish (turns_counting rfl)

/-- The frame at hand is processed. -/
theorem turns_inferring {number : Nat} (hworker : s.worker = .inferring number) :
    Turns s { s with framesProcessed := s.framesProcessed + 1, worker := .popping }
      ([] ++ ([.published number true] ++ [.processed number s.framesProcessed])) := by
  have hinfer : orchestrator.step s (.consumer true) = some ({ s with worker := .publishing number }, []) := by
    show s.consume true = _
    rw [State.consume, hworker]
  exact .thread hinfer (turns_publishing rfl)

/-- The frame in front is processed. -/
theorem turns_frame {item : Item} {rest : List Item} (hworker : s.worker = .popping)
    (hqueue : s.frameQueue.queue = item :: rest) (hnull : item.null = false) :
    Turns s { s with
        frameQueue := { s.frameQueue with queue := rest }, framesProcessed := s.framesProcessed + 1, worker := .popping }
      ([.popped item] ++ ([] ++ ([.published item.number true] ++ [.processed item.number s.framesProcessed]))) := by
  have hpop := step_pop hworker hqueue
  rw [hnull, if_neg Bool.false_ne_true] at hpop
  exact .thread hpop (turns_inferring rfl)

/-- The thread comes to its next `pop`, with the queue as it is and the frame at hand processed. -/
theorem Serving.turns_popping (hs : Serving s) :
    ∃ u h, Turns s u h ∧ u.worker = .popping ∧ u.frameQueue = s.frameQueue ∧
      ∀ number ∈ s.worker.held, ∃ before, .processed number before ∈ h := by
  have hstage := hs.staged
  unfold Staged at hstage
  cases hworker : s.worker with
  | absent =>
    have hstep : ∀ {s' : State}, s'.caller = .spawning →
        orchestrator.step s' .caller = some ({ s' with worker := .popping, caller := .idle }, []) := by
      intro s' hcaller
      show s'.call = _
      rw [State.call, hcaller]
    cases hcaller : s.caller with
    | idle =>
      rw [hcaller] at hstage
      exact absurd hworker (hstage.mp hs.running)
    | resetting => exact ⟨_, _, .call (step_call hcaller) (.call (hstep rfl) (.refl _)), rfl, rfl, nofun⟩
    | spawning => exact ⟨_, _, .call (hstep hcaller) (.refl _), rfl, rfl, nofun⟩
    | shuttingDown | joining =>
      rw [hcaller, hs.running] at hstage
      cases hstage.1
  | popping => exact ⟨s, [], .refl s, hworker, rfl, nofun⟩
  | checking =>
    exact ⟨_, _, .thread (step_skip hworker hs.opened) (.refl _), rfl, rfl, nofun⟩
  | inferring number =>
    exact ⟨_, _, turns_inferring hworker, rfl, rfl, fun n hn => ⟨s.framesProcessed, by rw [List.mem_singleton.mp hn]; simp⟩⟩
  | publishing number =>
    exact ⟨_, _, turns_publishing hworker, rfl, rfl, fun n hn => ⟨s.framesProcessed, by rw [List.mem_singleton.mp hn]; simp⟩⟩
  | counting number =>
    exact ⟨_, _, turns_counting hworker, rfl, rfl, fun n hn => ⟨s.framesProcessed, by rw [List.mem_singleton.mp hn]; simp⟩⟩
  | returned => exact absurd hworker hs.inLoop

/-- The whole queue is processed. -/
theorem turns_queue (hworker : s.worker = .popping) (hopened : s.frameQueue.done = false) :
    ∃ u h, Turns s u h ∧ ∀ f ∈ s.frameQueue.queue, f.null = false → ∃ before, .processed f.number before ∈ h := by
  induction hqueue : s.frameQueue.queue generalizing s with
  | nil => exact ⟨s, [], .refl s, nofun⟩
  | cons item rest ih =>
    cases hnull : item.null with
    | true =>
      have hskip := step_skip (s := { s with frameQueue := { s.frameQueue with queue := rest }, worker := .checking }) rfl hopened
      obtain ⟨u, h, hrest, hall⟩ := ih (s := { s with frameQueue := { s.frameQueue with queue := rest }, worker := .popping })
        rfl hopened rfl
      refine ⟨u, _, .thread (step_pop_null hworker hqueue hnull) (.thread hskip hrest), fun f hf hfnull => ?_⟩
      rcases List.mem_cons.mp hf with rfl | hf
      · rw [hnull] at hfnull
        cases hfnull
      · obtain ⟨before, hmem⟩ := hall f hf hfnull
        exact ⟨before, List.mem_append_right _ (List.mem_append_right _ hmem)⟩
    | false =>
      obtain ⟨u, h, hrest, hall⟩ := ih
        (s := { s with
          frameQueue := { s.frameQueue with queue := rest }, framesProcessed := s.framesProcessed + 1, worker := .popping })
        rfl hopened rfl
      refine ⟨u, _, (turns_frame hworker hqueue hnull).trans hrest, fun f hf hfnull => ?_⟩
      rcases List.mem_cons.mp hf with rfl | hf
      · exact ⟨s.framesProcessed, by simp⟩
      · obtain ⟨before, hmem⟩ := hall f hf hfnull
        exact ⟨before, List.mem_append_right _ hmem⟩

end Progress

/-- With the queue open, what is pushed is processed. -/
theorem Serving.live {s : State} (hs : Serving s) : Live s := by
  intro inputs t h hinputs hrun hkept f hf hnull
  have ht : Tracked h t :=
    orchestrator.run_induction (I := Tracked) (fun _ _ _ _ _ ht ha hstep => ht.step ha hstep) (h := []) ⟨hs, fun _ _ hf => nomatch hf⟩
      (orchestrator.along_of_mem hinputs s) hrun
  obtain ⟨u, h', hpopping, hworker, hqueue, hheld⟩ := ht.serving.turns_popping
  have hopened : u.frameQueue.done = false := by rw [hqueue]; exact ht.serving.opened
  obtain ⟨v, h'', hall, hprocessed⟩ := turns_queue hworker hopened
  obtain ⟨more, hmore, hrest⟩ := hpopping.trans hall
  refine ⟨more, v, h' ++ h'', hmore, hrest, ?_⟩
  rcases ht.tracked hkept f hf hnull with hmem | hmem | ⟨before, hmem⟩
  · rw [hqueue] at hprocessed
    obtain ⟨before, hdone⟩ := hprocessed f hmem hnull
    exact ⟨before, List.mem_append_right _ (List.mem_append_right _ hdone)⟩
  · obtain ⟨before, hdone⟩ := hheld f.number hmem
    exact ⟨before, List.mem_append_right _ (List.mem_append_left _ hdone)⟩
  · exact ⟨before, List.mem_append_left _ hmem⟩

/-! ## A queue that is shut down -/

/-- The thread has looked at the queue until it returned. -/
structure Exhausted (s u : State) (h : List Event) : Prop where
  returned : u.worker = .returned
  caller : u.caller = s.caller
  pushes : u.pushes = s.pushes
  maxSize : u.frameQueue.maxSize = s.frameQueue.maxSize
  shorter : u.frameQueue.queue = [] ∨ u.frameQueue.queue.length < s.frameQueue.queue.length
  kept : ∀ item, .dropped item ∉ h
  processed : ∀ number before, .processed number before ∈ h → number ∈ s.frameQueue.queue.map Item.number

theorem step_return {s : State} (hworker : s.worker = .checking) (hdone : s.frameQueue.done = true) :
    orchestrator.step s (.consumer true) = some ({ s with worker := .returned }, []) := by
  show s.consume true = _
  simp [State.consume, hworker, hdone]

theorem turns_returned {s : State} (hworker : s.worker = .popping) (hdone : s.frameQueue.done = true) :
    ∃ u h, Turns s u h ∧ Exhausted s u h := by
  induction hqueue : s.frameQueue.queue generalizing s with
  | nil =>
    have hdrain : orchestrator.step s (.consumer true) = some ({ s with worker := .checking }, []) := by
      show s.consume true = _
      simp [State.consume, hworker, ThreadSafeQueue.pop, hqueue, hdone]
    have hreturn := step_return (s := { s with worker := .checking }) rfl hdone
    exact ⟨_, _, .thread hdrain (.thread hreturn (.refl _)), rfl, rfl, rfl, rfl, .inl hqueue, nofun, nofun⟩
  | cons item rest ih =>
    cases hnull : item.null with
    | true =>
      have hreturn := step_return (s := { s with frameQueue := { s.frameQueue with queue := rest }, worker := .checking })
        rfl hdone
      refine ⟨_, _, .thread (step_pop_null hworker hqueue hnull) (.thread hreturn (.refl _)), rfl, rfl, rfl, rfl, .inr ?_, by simp,
        by simp⟩
      rw [hqueue]
      exact Nat.lt_succ_self _
    | false =>
      obtain ⟨u, h, hrest, hu⟩ := ih
        (s := { s with
          frameQueue := { s.frameQueue with queue := rest }, framesProcessed := s.framesProcessed + 1, worker := .popping })
        rfl hdone rfl
      refine ⟨u, _, (turns_frame hworker hqueue hnull).trans hrest, hu.returned, hu.caller, hu.pushes, hu.maxSize, ?_, ?_, ?_⟩
      · rw [hqueue]
        exact hu.shorter.imp_right Nat.lt_succ_of_lt
      · simpa using hu.kept
      · intro number before hmem
        rw [hqueue, List.map_cons]
        have hcases : (number = item.number ∧ before = s.framesProcessed) ∨ .processed number before ∈ h := by
          simpa using hmem
        rcases hcases with ⟨rfl, -⟩ | hold
        · exact List.mem_cons_self
        · exact List.mem_cons_of_mem _ (hu.processed number before hold)

/-- A bounded queue keeps to its bound. -/
def Within (s : State) : Prop := 0 < s.frameQueue.maxSize → s.frameQueue.queue.length ≤ s.frameQueue.maxSize

theorem Within.step {s t : State} {a : Input} {out : List Event} (hs : Within s) (hstep : orchestrator.step s a = some (t, out)) :
    Within t := by
  unfold Within at hs ⊢
  cases step_moves hstep with
  | pushed null hroom =>
    intro hpos
    unfold BoundedFifo.Full at hroom
    simp only [List.length_append, List.length_singleton]
    change 0 < s.frameQueue.maxSize at hpos
    omega
  | overflowed null oldest rest hfull hqueue =>
    intro hpos
    have hlength := hs hpos
    rw [hqueue] at hlength
    simpa using hlength
  | popped accepted item rest hworker hqueue =>
    intro hpos
    have hlength := hs hpos
    rw [hqueue] at hlength
    exact Nat.le_of_succ_le hlength
  | _ => exact hs

theorem within {maxSize : Nat} {inputs : List Input} {s : State} {h : List Event}
    (hrun : orchestrator.run (.create maxSize) inputs = some (s, h)) : Within s :=
  orchestrator.run_invariant (I := Within) (fun _ _ _ _ hs _ hstep => hs.step hstep) (fun _ => Nat.zero_le _)
    (orchestrator.along_true _ inputs) hrun

/-- Where nobody is left to act, nothing is processed any more. -/
theorem turns_stuck {s u : State} {h : List Event} {more : List Input} (hworker : s.worker = .returned)
    (hcaller : s.caller = .idle) (hmore : ∀ a ∈ more, a.IsTurn) (hrun : orchestrator.run s more = some (u, h)) : h = [] := by
  cases more with
  | nil =>
    cases hrun
    rfl
  | cons a more =>
    obtain ⟨t, out, outs, hstep, -, -⟩ := orchestrator.run_cons_iff.mp hrun
    cases a with
    | consumer accepted =>
      change s.consume accepted = _ at hstep
      rw [State.consume, hworker] at hstep
      cases hstep
    | caller =>
      change s.call = _ at hstep
      rw [State.call, hcaller] at hstep
      cases hstep
    | _ => exact absurd (hmore _ List.mem_cons_self) id

/-- A start on a queue that is shut down: the thread returns, and the next frame is not processed. -/
theorem not_live {s : State} (hnumbered : Numbered s) (hwithin : Within s) (hcaller : s.caller = .resetting)
    (hdone : s.frameQueue.done = true) : ¬Live s := by
  intro hlive
  obtain ⟨u, h, hturns, hu⟩ := turns_returned
    (s := { s with framesProcessed := 0, worker := .popping, caller := .idle }) rfl hdone
  have hspawn : orchestrator.step { s with framesProcessed := 0, caller := .spawning } .caller =
      some ({ s with framesProcessed := 0, worker := .popping, caller := .idle }, []) := rfl
  obtain ⟨more, hmore, hrun⟩ := Turns.call (step_call hcaller) (Turns.call hspawn hturns)
  have hroom : ¬BoundedFifo.Full u.frameQueue.maxSize u.frameQueue.queue := by
    rintro ⟨hpos, hfull⟩
    rw [hu.maxSize] at hpos hfull
    have hle := hwithin hpos
    rcases hu.shorter with hnil | hshort
    · rw [hnil] at hfull
      exact absurd (hpos.trans_le hfull) (Nat.lt_irrefl 0)
    · exact absurd (hshort.trans_le hle) (Nat.not_lt.mpr hfull)
  -- the frame that nobody will look at
  have hpush : orchestrator.step u (.push false) = some ((u.push false).1, [.pushed ⟨u.pushes, false⟩]) := by
    show some (u.push false) = _
    unfold State.push ThreadSafeQueue.push
    rw [BoundedFifo.evicted_of_room hroom]
    rfl
  have hall := orchestrator.run_append_iff.mpr ⟨_, _, _, hrun, orchestrator.run_cons_of hpush (orchestrator.run_nil _), rfl⟩
  have hinputs : ∀ a ∈ more ++ [.push false], a ≠ .stop := by
    intro a ha heq
    subst heq
    rcases List.mem_append.mp ha with hold | hnew
    · exact hmore _ hold
    · cases List.mem_singleton.mp hnew
  obtain ⟨more', v, h', hturn, hrest, before, hprocessed⟩ := hlive _ _ _ hinputs hall (by simpa using hu.kept)
    ⟨u.pushes, false⟩ (by simp) rfl
  have hnothing := turns_stuck (s := (u.push false).1) hu.returned hu.caller hturn hrest
  subst hnothing
  have hold : Event.processed u.pushes before ∈ h := by simpa using hprocessed
  have hqueued : u.pushes ∈ s.inFlight := List.mem_append_right _ (hu.processed _ _ hold)
  have hlt := hnumbered.pushed _ hqueued
  rw [hu.pushes] at hlt
  exact Nat.lt_irrefl _ hlt

/-! ## Whole runs -/

/-- What holds as long as every start finds the queue open. -/
structure Restarted (s : State) : Prop where
  staged : Staged s
  serving : s.running = true → Serving s

theorem Restarted.step {s t : State} {a : Input} {out : List Event} (hs : Restarted s) (ha : StartsOpen s a)
    (hstep : orchestrator.step s a = some (t, out)) : Restarted t := by
  refine ⟨hs.staged.step hstep, fun hrunning => ?_⟩
  cases hwas : s.running with
  | true =>
    have hnot : a ≠ .stop := by
      rintro rfl
      cases step_moves hstep with
      | stopping => cases hrunning
      | stoppedAlready hcaller hidle =>
        rw [hwas] at hidle
        cases hidle
    exact (hs.serving hwas).step hnot hstep
  | false =>
    have hstage := hs.staged
    unfold Staged at hstage
    cases step_moves hstep with
    | starting hcaller hidle =>
      rw [hcaller] at hstage
      have habsent : s.worker = .absent := by
        by_contra hworker
        rw [hstage.mpr hworker] at hwas
        cases hwas
      exact ⟨⟨rfl, habsent⟩, rfl, ha rfl hwas, by rw [habsent]; nofun⟩
    | startedAlready hcaller hidle =>
      rw [hwas] at hidle
      cases hidle
    | stopping hcaller hidle => cases hrunning
    | _ =>
      have hsame : s.running = true := hrunning
      rw [hwas] at hsame
      cases hsame

/-- For every sequence of calls, pushes and steps: at each place where the orchestrator is running it is live, exactly when
every start that had an effect found the queue open. -/
theorem live_iff {maxSize : Nat} {inputs : List Input} {t : State} {h : List Event}
    (hrun : orchestrator.run (.create maxSize) inputs = some (t, h)) :
    (∀ before after s h', inputs = before ++ after → orchestrator.run (.create maxSize) before = some (s, h') →
      s.running = true → Live s) ↔ orchestrator.Along StartsOpen (.create maxSize) inputs := by
  constructor
  · intro hall
    induction inputs using List.reverseRecOn generalizing t h with
    | nil => trivial
    | append_singleton inputs a ih =>
      obtain ⟨s, h₁, h₂, hbefore, hlast, -⟩ := orchestrator.run_append_iff.mp hrun
      obtain ⟨u, out, outs, hstep, hnil, -⟩ := orchestrator.run_cons_iff.mp hlast
      have hearlier := ih hbefore fun before after s' h' heq => hall before (after ++ [a]) s' h' (by rw [heq, List.append_assoc])
      refine (orchestrator.along_snoc_iff hbefore).mpr ⟨hearlier, ?_⟩
      rintro rfl hidle
      by_contra hdone
      rw [Bool.not_eq_false] at hdone
      cases hnil
      cases step_moves hstep with
      | startedAlready hcaller hrunning =>
        rw [hidle] at hrunning
        cases hrunning
      | starting hcaller hrunning =>
        have hlive := hall (inputs ++ [.start]) [] _ _ (List.append_nil _).symm hrun rfl
        exact not_live (numbered hrun) (within hrun) rfl hdone hlive
  · intro hok before after s h' heq hbefore hrunning
    subst heq
    have hs : Restarted s :=
      orchestrator.run_invariant (I := Restarted) (fun _ _ _ _ hs ha hstep => hs.step ha hstep) ⟨.create maxSize, nofun⟩
        (orchestrator.along_append hok hbefore).1 hbefore
    exact (hs.serving hrunning).live

/-- A first start. -/
theorem live_after_start :
    ∃ s h, orchestrator.run (.create 0) [.start, .caller, .caller] = some (s, h) ∧ Live s :=
  ⟨_, _, rfl, (@live_iff 0 [.start, .caller, .caller] _ _ rfl).mpr
    ⟨fun _ _ => rfl, fun _ _ hs => by cases hs; exact ⟨nofun, fun _ _ hs => by cases hs; exact ⟨nofun, fun _ _ _ => trivial⟩⟩⟩
    [.start, .caller, .caller] [] _ _ rfl rfl rfl⟩

/-- Started, stopped and started again: it says that it is running. -/
theorem restarted_not_live :
    ∃ s h, orchestrator.run (.create 0) [.start, .caller, .caller, .stop, .caller, .consumer true, .consumer true, .caller,
      .start] = some (s, h) ∧ s.running = true ∧ ¬Live s :=
  ⟨_, _, rfl, rfl, not_live ⟨List.Pairwise.nil, nofun⟩ (fun h => absurd h (Nat.lt_irrefl 0)) rfl rfl⟩

end IbarraGateway.GemaVision.Orchestration
