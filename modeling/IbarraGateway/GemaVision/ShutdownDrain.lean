import IbarraGateway.GemaVision.InferenceOrchestrator
import Mathlib.Data.List.Perm.Basic

/-!
# What is left in the queue at a shutdown

The loop takes a null pointer for the end of the queue once the queue is shut down, and a null pointer can be pushed as well.

* `Draining` : what holds from the shutdown until the thread has returned.
* `drained_iff` : when all the frames that wait at a shutdown are published.
-/

namespace IbarraGateway.GemaVision.Orchestration

/-- A step of a producer or of the thread. -/
def Input.IsWork : Input → Prop
  | push _ => True
  | consumer _ => True
  | _ => False

/-- The thread has popped a null pointer, which is its last look at the queue if that is shut down. -/
def Worker.Ending (w : Worker) : Prop := w = .checking ∨ w = .returned

instance (w : Worker) : Decidable w.Ending := inferInstanceAs (Decidable (_ ∨ _))

/-- At a shutdown in state `s` with what happens behind it: no frame waits behind a null pointer, and none is dropped. -/
structure LetsDrain (s : State) (h : List Event) : Prop where
  atHand : s.worker.Ending → ∀ item ∈ s.frameQueue.queue, item.null = true
  inFront : ∀ f ∈ s.frameQueue.queue, f.null = false →
    ∀ z ∈ s.frameQueue.queue, z.null = true → z.number < f.number → .dropped z ∈ h
  kept : ∀ f ∈ s.frameQueue.queue, f.null = false → .dropped f ∉ h

instance (s : State) (h : List Event) : Decidable (LetsDrain s h) :=
  decidable_of_iff (_ ∧ _ ∧ _) ⟨fun ⟨hhand, hfront, hkept⟩ => ⟨hhand, hfront, hkept⟩,
    fun hl => ⟨hl.atHand, hl.inFront, hl.kept⟩⟩

/-- The state behind `shutdown`. -/
def State.closed (s : State) : State := { s with frameQueue := s.frameQueue.shutdown, caller := .joining }

/-! ## Histories -/

namespace Event

def enters : Event → List Item
  | pushed item => [item]
  | _ => []

def pops : Event → List Item
  | popped item => [item]
  | _ => []

def drops : Event → List Item
  | dropped item => [item]
  | _ => []

def publishes : Event → List Nat
  | published number _ => [number]
  | _ => []

end Event

attribute [simp] Event.enters Event.pops Event.drops Event.publishes

def entered (h : List Event) : List Item := h.flatMap Event.enters
def popped (h : List Event) : List Item := h.flatMap Event.pops
def dropped (h : List Event) : List Item := h.flatMap Event.drops
def published (h : List Event) : List Nat := h.flatMap Event.publishes

/-- What left the queue, in order. -/
def left (h : List Event) : List Item := h.flatMap fun e => e.pops ++ e.drops

@[simp] theorem entered_append (h out : List Event) : entered (h ++ out) = entered h ++ entered out := List.flatMap_append
@[simp] theorem popped_append (h out : List Event) : popped (h ++ out) = popped h ++ popped out := List.flatMap_append
@[simp] theorem dropped_append (h out : List Event) : dropped (h ++ out) = dropped h ++ dropped out := List.flatMap_append
@[simp] theorem published_append (h out : List Event) : published (h ++ out) = published h ++ published out :=
  List.flatMap_append
@[simp] theorem left_append (h out : List Event) : left (h ++ out) = left h ++ left out := List.flatMap_append

theorem left_perm (h : List Event) : (popped h ++ dropped h).Perm (left h) := List.flatMap_append_perm h Event.pops Event.drops

theorem mem_left {h : List Event} {item : Item} : item ∈ left h ↔ item ∈ popped h ∨ item ∈ dropped h := by
  rw [← (left_perm h).mem_iff, List.mem_append]

theorem mem_dropped {h : List Event} {item : Item} : item ∈ dropped h ↔ .dropped item ∈ h := by
  constructor
  · intro hmem
    obtain ⟨e, he, hitem⟩ := List.mem_flatMap.mp hmem
    cases e <;> simp at hitem
    rwa [hitem]
  · exact fun he => List.mem_flatMap.mpr ⟨_, he, List.mem_singleton.mpr rfl⟩

theorem mem_published {h : List Event} {number : Nat} : number ∈ published h ↔ ∃ accepted, .published number accepted ∈ h := by
  constructor
  · intro hmem
    obtain ⟨e, he, hnumber⟩ := List.mem_flatMap.mp hmem
    cases e <;> simp at hnumber
    exact ⟨_, by rwa [hnumber]⟩
  · rintro ⟨accepted, he⟩
    exact List.mem_flatMap.mpr ⟨_, he, List.mem_singleton.mpr rfl⟩

theorem popped_sublist (h : List Event) : (popped h).Sublist (left h) := by
  induction h with
  | nil => exact List.Sublist.refl _
  | cons e h ih =>
    unfold popped left at ih ⊢
    rw [List.flatMap_cons, List.flatMap_cons]
    exact (List.sublist_append_left _ _).append ih

/-! ## From the shutdown on -/

/-- The numbers of the frames among entries. -/
def frames (items : List Item) : List Nat := (items.filter fun item => !item.null).map Item.number

/-- The thread pops frames, and then at most one null pointer, or finds the queue empty. -/
structure Draining (s : State) (h : List Event) (t : State) : Prop where
  done : t.frameQueue.done = true
  fifo : s.frameQueue.queue ++ entered h = left h ++ t.frameQueue.queue
  ordered : (s.inFlight ++ (entered h).map Item.number).Pairwise (· < ·)
  pushed : ∀ number ∈ s.inFlight ++ (entered h).map Item.number, number < t.pushes
  published : published h ++ t.worker.unpublished = s.worker.unpublished ++ frames (popped h)
  ended : s.worker.Ending → t.worker.Ending ∧ popped h = []
  working : ¬t.worker.Ending → ∀ item ∈ popped h, item.null = false
  ending : t.worker.Ending → ¬s.worker.Ending →
    (∃ before z, popped h = before ++ [z] ∧ (∀ item ∈ before, item.null = false) ∧ z.null = true) ∨
    ((∀ item ∈ popped h, item.null = false) ∧ s.frameQueue.queue <+: left h)

theorem frames_append (items more : List Item) : frames (items ++ more) = frames items ++ frames more := by
  rw [frames, List.filter_append, List.map_append]
  rfl

theorem mem_frames {items : List Item} {number : Nat} :
    number ∈ frames items ↔ ∃ item ∈ items, item.null = false ∧ item.number = number := by
  simp [frames, and_assoc]

theorem Draining.start {s : State} (hs : Numbered s) (hdone : s.frameQueue.done = true) : Draining s [] s where
  done := hdone
  fifo := List.append_nil _
  ordered := by
    show (s.inFlight ++ []).Pairwise _
    rw [List.append_nil]
    exact hs.ordered
  pushed := by
    show ∀ number ∈ s.inFlight ++ [], _
    rw [List.append_nil]
    exact hs.pushed
  published := (List.append_nil _).symm
  ended := fun h => ⟨h, rfl⟩
  working := fun _ => nofun
  ending := fun h hnot => absurd h hnot

section Step
variable {s t u : State} {h : List Event}

/-- A step that neither pushes nor pops. -/
theorem Draining.quiet (hd : Draining s h t) {out : List Event} (hqueue : u.frameQueue = t.frameQueue)
    (hpushes : u.pushes = t.pushes) (hentered : entered out = []) (hpopped : popped out = []) (hleft : left out = [])
    (hpublished : Orchestration.published out ++ u.worker.unpublished = t.worker.unpublished)
    (hending : u.worker.Ending ↔ t.worker.Ending) : Draining s (h ++ out) u where
  done := by rw [hqueue]; exact hd.done
  fifo := by rw [entered_append, left_append, hentered, hleft, List.append_nil, List.append_nil, hqueue, hd.fifo]
  ordered := by rw [entered_append, hentered, List.append_nil]; exact hd.ordered
  pushed := by rw [entered_append, hentered, List.append_nil, hpushes]; exact hd.pushed
  published := by rw [published_append, popped_append, hpopped, List.append_nil, List.append_assoc, hpublished, hd.published]
  ended := by rw [popped_append, hpopped, List.append_nil, hending]; exact hd.ended
  working := by rw [popped_append, hpopped, List.append_nil, hending]; exact hd.working
  ending := by rw [popped_append, left_append, hpopped, hleft, List.append_nil, List.append_nil, hending]; exact hd.ending

/-- A push, which may drop the oldest entry. -/
theorem Draining.push (hd : Draining s h t) {out : List Event} {item : Item} (hnumber : item.number = t.pushes)
    (hdone : u.frameQueue.done = t.frameQueue.done) (hworker : u.worker = t.worker) (hpushes : u.pushes = t.pushes + 1)
    (hentered : entered out = [item]) (hpopped : popped out = []) (hpublished : Orchestration.published out = [])
    (hqueue : t.frameQueue.queue ++ [item] = left out ++ u.frameQueue.queue) : Draining s (h ++ out) u where
  done := by rw [hdone]; exact hd.done
  fifo := by
    rw [entered_append, left_append, hentered, ← List.append_assoc, hd.fifo, List.append_assoc, hqueue, List.append_assoc]
  ordered := by
    rw [entered_append, hentered, List.map_append, ← List.append_assoc, List.map_singleton, hnumber]
    exact (ordered_snoc hd.ordered hd.pushed).1
  pushed := by
    rw [entered_append, hentered, List.map_append, ← List.append_assoc, List.map_singleton, hnumber, hpushes]
    exact (ordered_snoc hd.ordered hd.pushed).2
  published := by
    rw [published_append, popped_append, hpopped, hpublished, List.append_nil, List.append_nil, hworker]
    exact hd.published
  ended := by rw [popped_append, hpopped, List.append_nil, hworker]; exact hd.ended
  working := by rw [popped_append, hpopped, List.append_nil, hworker]; exact hd.working
  ending := by
    rw [popped_append, left_append, hpopped, List.append_nil, hworker]
    intro hending hnot
    exact (hd.ending hending hnot).imp_right fun hall => ⟨hall.1, hall.2.trans (List.prefix_append _ _)⟩

theorem Draining.pop (hd : Draining s h t) {item : Item} {rest : List Item} (hworker : t.worker = .popping)
    (hqueue : t.frameQueue.queue = item :: rest) (hu : u.frameQueue = { t.frameQueue with queue := rest })
    (hpushes : u.pushes = t.pushes) (huworker : u.worker = if item.null then .checking else .inferring item.number) :
    Draining s (h ++ [.popped item]) u := by
  have hnot : ¬t.worker.Ending := by
    rw [hworker]
    decide
  have hframes := hd.working hnot
  have hsnot : ¬s.worker.Ending := fun hs => hnot (hd.ended hs).1
  have hpublished := hd.published
  rw [hworker] at hpublished
  have hentered : entered (h ++ [.popped item]) = entered h := (entered_append _ _).trans (List.append_nil _)
  refine ⟨by rw [hu]; exact hd.done, ?_, by rw [hentered]; exact hd.ordered, by rw [hentered, hpushes]; exact hd.pushed, ?_,
    fun hs => absurd hs hsnot, ?_, ?_⟩
  · rw [hentered, hd.fifo, hqueue, hu, left_append, List.append_assoc]
    rfl
  · rw [huworker, unpublished_popped]
    show Orchestration.published (h ++ [.popped item]) ++ _ = _
    have hsame : Orchestration.published h = s.worker.unpublished ++ frames (Orchestration.popped h) := by
      rw [← hpublished]
      exact (List.append_nil _).symm
    have hnone : Orchestration.published [.popped item] = [] := rfl
    have hone : Orchestration.popped [.popped item] = [item] := rfl
    rw [published_append, popped_append, hnone, hone, List.append_nil, hsame, frames_append, List.append_assoc]
    congr 2
    unfold frames
    cases hnull : item.null <;> simp [hnull]
  · intro hending
    have hnull : item.null = false := by
      by_contra hnull
      rw [Bool.not_eq_false] at hnull
      rw [huworker, if_pos hnull] at hending
      exact hending (.inl rfl)
    intro other hother
    rw [popped_append, List.mem_append] at hother
    rcases hother with hother | hother
    · exact hframes other hother
    · rw [List.mem_singleton.mp hother]
      exact hnull
  · intro hending _
    refine .inl ⟨Orchestration.popped h, item, popped_append _ _, hframes, ?_⟩
    by_contra hnull
    rw [huworker, if_neg hnull] at hending
    rcases hending with hc | hc <;> cases hc

theorem Draining.drain (hd : Draining s h t) (hworker : t.worker = .popping) (hqueue : t.frameQueue.queue = []) :
    Draining s h { t with worker := .checking } := by
  have hnot : ¬t.worker.Ending := by
    rw [hworker]
    decide
  have hpublished := hd.published
  rw [hworker] at hpublished
  refine ⟨hd.done, hd.fifo, hd.ordered, hd.pushed, hpublished, fun hs => absurd (hd.ended hs).1 hnot, fun hending => ?_, ?_⟩
  · exact absurd (.inl rfl) hending
  · intro _ _
    have hfifo := hd.fifo
    rw [hqueue, List.append_nil] at hfifo
    exact .inr ⟨hd.working hnot, ⟨_, hfifo⟩⟩

theorem Draining.step {a : Input} {out : List Event} (hd : Draining s h t) (ha : a.IsWork)
    (hstep : orchestrator.step t a = some (u, out)) : Draining s (h ++ out) u := by
  cases step_moves hstep with
  | pushed null hroom => exact hd.push rfl rfl rfl rfl rfl rfl rfl rfl
  | overflowed null oldest rest hfull hqueue =>
    refine hd.push (rfl : (Item.mk t.pushes null).number = t.pushes) rfl rfl rfl rfl rfl rfl ?_
    rw [hqueue]
    rfl
  | popped accepted item rest hworker hqueue => exact hd.pop hworker hqueue rfl rfl rfl
  | drained accepted hworker hqueue hdone =>
    rw [List.append_nil]
    exact hd.drain hworker hqueue
  | skipped accepted hworker hdone =>
    rw [hd.done] at hdone
    cases hdone
  | returned accepted hworker hdone =>
    refine hd.quiet rfl rfl rfl rfl rfl (by rw [hworker]; rfl) ?_
    rw [hworker]
    exact ⟨fun _ => .inl rfl, fun _ => .inr rfl⟩
  | inferred accepted number hworker =>
    refine hd.quiet rfl rfl rfl rfl rfl (by rw [hworker]; rfl) ?_
    rw [hworker]
    simp [Worker.Ending]
  | published accepted number hworker =>
    refine hd.quiet rfl rfl rfl rfl rfl (by rw [hworker]; rfl) ?_
    rw [hworker]
    simp [Worker.Ending]
  | counted accepted number hworker =>
    refine hd.quiet rfl rfl rfl rfl rfl (by rw [hworker]; rfl) ?_
    rw [hworker]
    simp [Worker.Ending]
  | _ => exact absurd ha id

end Step

/-! ## When the thread has returned -/

section Order
variable {s t : State} {h : List Event}

/-- All the entries since the shutdown, in the order of their pushes. -/
theorem Draining.entries (hd : Draining s h t) : (left h ++ t.frameQueue.queue).Pairwise fun x y => x.number < y.number := by
  have hordered := hd.ordered
  rw [State.inFlight, List.append_assoc, ← List.map_append, hd.fifo] at hordered
  exact List.pairwise_map.mp (List.pairwise_append.mp hordered).2.1

/-- What is still in the queue was pushed after what has left it. -/
theorem Draining.left_lt (hd : Draining s h t) {x y : Item} (hx : x ∈ left h) (hy : y ∈ t.frameQueue.queue) :
    x.number < y.number := (List.pairwise_append.mp hd.entries).2.2 x hx y hy

theorem Draining.queue_lt (hd : Draining s h t) {x y : Item} (hx : x ∈ s.frameQueue.queue) (hy : y ∈ entered h) :
    x.number < y.number := by
  have hentries := hd.entries
  rw [← hd.fifo] at hentries
  exact (List.pairwise_append.mp hentries).2.2 x hx y hy

theorem Draining.nodup (hd : Draining s h t) : (left h ++ t.frameQueue.queue).Nodup :=
  hd.entries.imp fun hlt heq => absurd (congrArg Item.number heq) (Nat.ne_of_lt hlt)

theorem Draining.eq_of_number (hd : Draining s h t) {x y : Item} (hx : x ∈ left h ++ t.frameQueue.queue)
    (hy : y ∈ left h ++ t.frameQueue.queue) (heq : x.number = y.number) : x = y := by
  have hnodup : ((left h ++ t.frameQueue.queue).map Item.number).Nodup :=
    List.Nodup.of_map (f := id) (by rw [List.map_id]; exact (List.pairwise_map.mpr hd.entries).imp fun hlt => Nat.ne_of_lt hlt)
  exact List.inj_on_of_nodup_map hnodup hx hy heq

theorem Draining.disjoint (hd : Draining s h t) {x : Item} (hp : x ∈ popped h) : x ∉ dropped h := by
  have hnodup := (left_perm h).nodup_iff.mpr hd.nodup.of_append_left
  exact fun hx => List.disjoint_of_nodup_append hnodup hp hx

theorem Draining.mem_entries (hd : Draining s h t) {x : Item} (hx : x ∈ s.frameQueue.queue) :
    x ∈ left h ∨ x ∈ t.frameQueue.queue := by
  rw [← List.mem_append, ← hd.fifo]
  exact List.mem_append_left _ hx

/-- A null pointer is the last that is popped. -/
theorem Draining.popped_null (hd : Draining s h t) {z f : Item} (hz : z ∈ popped h) (hznull : z.null = true)
    (hf : f ∈ popped h) (hne : f ≠ z) : f.number < z.number := by
  have hending : t.worker.Ending := by
    by_contra hnot
    rw [hd.working hnot z hz] at hznull
    cases hznull
  have hsnot : ¬s.worker.Ending := by
    intro hs
    rw [(hd.ended hs).2] at hz
    cases hz
  rcases hd.ending hending hsnot with ⟨before, z', hpopped, hbefore, -⟩ | ⟨hall, -⟩
  · have hsub : (popped h).Pairwise fun x y => x.number < y.number :=
      (List.pairwise_append.mp hd.entries).1.sublist (popped_sublist h)
    rw [hpopped] at hz hf hsub
    have hzlast : z = z' := by
      rcases List.mem_append.mp hz with hmem | hlast
      · rw [hbefore z hmem] at hznull
        cases hznull
      · exact List.mem_singleton.mp hlast
    rcases List.mem_append.mp hf with hmem | hlast
    · rw [hzlast]
      exact (List.pairwise_append.mp hsub).2.2 f hmem z' List.mem_cons_self
    · exact absurd ((List.mem_singleton.mp hlast).trans hzlast.symm) hne
  · rw [hall z hz] at hznull
    cases hznull

/-- A frame of the queue is published when it is popped. -/
theorem Draining.published_iff (hd : Draining s h t) (hreturned : t.worker = .returned) {f : Item}
    (hf : f ∈ s.frameQueue.queue) (hnull : f.null = false) : f.number ∈ Orchestration.published h ↔ f ∈ popped h := by
  have hpublished := hd.published
  rw [hreturned] at hpublished
  have hsame : Orchestration.published h = s.worker.unpublished ++ frames (popped h) :=
    (List.append_nil _).symm.trans hpublished
  have hentry : f ∈ left h ++ t.frameQueue.queue := List.mem_append.mpr (hd.mem_entries hf)
  rw [hsame, List.mem_append]
  constructor
  · rintro (hhand | hpopped)
    · have hheld : f.number ∈ s.worker.held := by
        revert hhand
        cases s.worker <;> first | exact id | nofun
      have hordered := hd.ordered
      rw [State.inFlight, List.append_assoc] at hordered
      have hlt := (List.pairwise_append.mp hordered).2.2 f.number hheld f.number
        (List.mem_append_left _ (List.mem_map_of_mem hf))
      exact absurd hlt (Nat.lt_irrefl _)
    · obtain ⟨g, hg, -, hnumber⟩ := mem_frames.mp hpopped
      have hgentry : g ∈ left h ++ t.frameQueue.queue := List.mem_append_left _ (mem_left.mpr (.inl hg))
      rwa [← hd.eq_of_number hgentry hentry hnumber]
  · exact fun hpopped => .inr (mem_frames.mpr ⟨f, hpopped, hnull, rfl⟩)

/-- All the frames of the queue are popped exactly when nothing stands in their way. -/
theorem Draining.popped_iff (hd : Draining s h t) (hreturned : t.worker = .returned) :
    (∀ f ∈ s.frameQueue.queue, f.null = false → f ∈ popped h) ↔ LetsDrain s h := by
  constructor
  · intro hall
    refine ⟨fun hs item hitem => ?_, fun f hf hfnull z hz hznull hlt => ?_, fun f hf hfnull hdropped => ?_⟩
    · by_contra hnull
      have hpopped := hall item hitem (Bool.eq_false_iff.mpr hnull)
      rw [(hd.ended hs).2] at hpopped
      cases hpopped
    · have hfpopped := hall f hf hfnull
      have hzleft : z ∈ left h := by
        rcases hd.mem_entries hz with hleft | hqueue
        · exact hleft
        · exact absurd (hd.left_lt (mem_left.mpr (.inl hfpopped)) hqueue) (Nat.lt_asymm hlt)
      rcases mem_left.mp hzleft with hzpopped | hzdropped
      · have hne : f ≠ z := fun heq => by rw [heq, hznull] at hfnull; cases hfnull
        exact absurd (hd.popped_null hzpopped hznull hfpopped hne) (Nat.lt_asymm hlt)
      · exact mem_dropped.mp hzdropped
    · exact hd.disjoint (hall f hf hfnull) (mem_dropped.mpr hdropped)
  · intro hlets f hf hfnull
    have hsnot : ¬s.worker.Ending := by
      intro hs
      rw [hlets.atHand hs f hf] at hfnull
      cases hfnull
    have hkept : f ∉ dropped h := fun hdropped => hlets.kept f hf hfnull (mem_dropped.mp hdropped)
    have hleft : f ∈ left h := by
      rcases hd.ending (by rw [hreturned]; exact .inr rfl) hsnot with ⟨before, z, hpopped, -, hznull⟩ | ⟨-, hfront⟩
      · -- were the frame still there, the null pointer would have stood in front of it
        refine (hd.mem_entries hf).resolve_right fun hqueue => ?_
        have hzpopped : z ∈ popped h := by
          rw [hpopped]
          exact List.mem_append_right _ List.mem_cons_self
        have hzleft : z ∈ left h := mem_left.mpr (.inl hzpopped)
        have hlt := hd.left_lt hzleft hqueue
        have hz : z ∈ s.frameQueue.queue := by
          have hentry : z ∈ s.frameQueue.queue ++ entered h := by
            rw [hd.fifo]
            exact List.mem_append_left _ hzleft
          refine (List.mem_append.mp hentry).resolve_right fun hentered => ?_
          exact absurd (hd.queue_lt hf hentered) (Nat.lt_asymm hlt)
        exact hd.disjoint hzpopped (mem_dropped.mpr (hlets.inFront f hf hfnull z hz hznull hlt))
      · exact hfront.subset hf
    exact (mem_left.mp hleft).resolve_right hkept

end Order

/-- At every shutdown of every run, whatever is pushed afterwards: when the thread has returned, all the frames that waited
are published, exactly when none waited behind a null pointer and none was dropped. -/
theorem drained_iff {maxSize : Nat} {before after : List Input} {s t : State} {h₁ h₂ : List Event}
    (hrun : orchestrator.run (.create maxSize) before = some (s, h₁)) (hcaller : s.caller = .shuttingDown)
    (hafter : ∀ a ∈ after, a.IsWork) (hrest : orchestrator.run s (.caller :: after) = some (t, h₂))
    (hreturned : t.worker = .returned) :
    (∀ f ∈ s.frameQueue.queue, f.null = false → ∃ accepted, .published f.number accepted ∈ h₂) ↔ LetsDrain s h₂ := by
  obtain ⟨s', out, h, hclose, hwork, rfl⟩ := orchestrator.run_cons_iff.mp hrest
  have hclosed : s' = s.closed ∧ out = [.closed] := by
    change s.call = _ at hclose
    rw [State.call, hcaller] at hclose
    cases hclose
    exact ⟨rfl, rfl⟩
  obtain ⟨rfl, rfl⟩ := hclosed
  have hstart : Draining s.closed [] s.closed := .start ((numbered hrun).sublist rfl (List.Sublist.refl _)) rfl
  have hd : Draining s.closed h t :=
    orchestrator.run_induction (I := Draining s.closed) (fun _ _ _ _ _ hd ha hstep => hd.step ha hstep) hstart
      (orchestrator.along_of_mem hafter _) hwork
  have hlets : LetsDrain s ([.closed] ++ h) ↔ LetsDrain s.closed h := by
    have hmem : ∀ item, .dropped item ∈ [Event.closed] ++ h ↔ .dropped item ∈ h := by simp
    constructor
    · exact fun hl => ⟨hl.atHand, fun f hf hn z hz hzn hlt => (hmem z).mp (hl.inFront f hf hn z hz hzn hlt),
        fun f hf hn hdropped => hl.kept f hf hn ((hmem f).mpr hdropped)⟩
    · exact fun hl => ⟨hl.atHand, fun f hf hn z hz hzn hlt => (hmem z).mpr (hl.inFront f hf hn z hz hzn hlt),
        fun f hf hn hdropped => hl.kept f hf hn ((hmem f).mp hdropped)⟩
  rw [hlets, ← hd.popped_iff hreturned]
  refine forall_congr' fun f => forall_congr' fun hf => forall_congr' fun hnull => ?_
  rw [← hd.published_iff hreturned hf hnull, mem_published]
  simp

/-- A frame in front of a null pointer is published. -/
theorem drained_in_front :
    ∃ s h₁ t h₂, orchestrator.run (.create 0) [.start, .caller, .caller, .push false, .push true, .stop] = some (s, h₁) ∧
      orchestrator.run s (.caller :: List.replicate 6 (.consumer true)) = some (t, h₂) ∧
      ∃ accepted, .published 0 accepted ∈ h₂ :=
  ⟨_, _, _, _, rfl, rfl, (@drained_iff 0 [.start, .caller, .caller, .push false, .push true, .stop]
    (List.replicate 6 (.consumer true)) _ _ _ _ rfl rfl (by simp [Input.IsWork]) rfl rfl).mpr (by decide) ⟨0, false⟩
    (by decide) rfl⟩

/-- A frame behind a null pointer is not: the thread returns at the null pointer. -/
theorem null_hides_frame :
    ∃ s h₁ t h₂, orchestrator.run (.create 0) [.start, .caller, .caller, .push true, .push false, .stop] = some (s, h₁) ∧
      s.caller = .shuttingDown ∧ s.frameQueue.queue = [⟨0, true⟩, ⟨1, false⟩] ∧
      orchestrator.run s [.caller, .consumer true, .consumer true] = some (t, h₂) ∧
      t.worker = .returned ∧ t.frameQueue.queue = [⟨1, false⟩] ∧ ∀ accepted, .published 1 accepted ∉ h₂ :=
  ⟨_, _, _, _, rfl, rfl, rfl, rfl, rfl, rfl, by decide⟩

end IbarraGateway.GemaVision.Orchestration
