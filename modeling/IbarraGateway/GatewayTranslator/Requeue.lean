import IbarraGateway.GatewayTranslator.Conservation

/-!
# Failed batches

A failed batch goes through `enqueue_telemetry` again, entry by entry.

* `newest_iff` : the buffer is the end of the undelivered entries, in every state of a run, exactly when no batch fails
  that has been overtaken, and no entry arrives while one is put back.
* `never_resent` : a batch that is answered with a client error in the loop comes back with the next drain, unless the
  process ends with it.
-/

namespace IbarraGateway.GatewayTranslator

open BoundedFifo HasuraClient

/-! ## The undelivered entries -/

/-- The entries that arrived and were not confirmed, in order of arrival. -/
def undelivered (h : List Event) : List Arrival :=
  (h.flatMap Event.arrivals).filter fun a => a ∉ h.flatMap Event.confirms

/-- What is still to be put back. -/
def Phase.waiting : Phase → List Arrival
  | requeueing rest => rest
  | _ => []

/-- The buffer holds the newest of the undelivered entries. -/
structure Newest (h : List Event) (g : Gateway) : Prop where
  /-- The buffer, and behind it the rest of a batch that is put back, are the end of the undelivered entries. -/
  suffix : g.buffer ++ g.phase.waiting <:+ undelivered h
  bounded : 0 < g.maxBuffer → g.buffer.length ≤ g.maxBuffer
  ordered : g.buffer.Pairwise fun a b => a.number < b.number
  evicted : ∀ a ∈ h.flatMap Event.drops, ∀ b ∈ g.buffer, a.number < b.number
  /-- Between the batch of a POST and the buffer, only evicted entries are missing. -/
  inFlight : ∀ batch attempt final, g.phase = .inserting batch attempt final →
    ∃ gone, (∀ a ∈ gone, a ∈ h.flatMap Event.drops) ∧ batch ++ gone ++ g.buffer <:+ undelivered h

section
variable {h : List Event} {g : Gateway} (ht : Tally h g)
include ht

theorem Tally.nodup : (h.flatMap Event.arrivals).Nodup := by
  apply List.Nodup.of_map Arrival.number
  rw [ht.numbers]
  exact List.nodup_range

theorem Tally.count_le (a : Arrival) : (h.flatMap Event.arrivals).count a ≤ 1 :=
  List.nodup_iff_count_le_one.mp ht.nodup a

theorem Tally.sorted : (h.flatMap Event.arrivals).Pairwise fun a b => a.number < b.number := by
  have hrange := List.pairwise_lt_range (n := g.arrived)
  rw [← ht.numbers, List.pairwise_map] at hrange
  exact hrange

/-- The numbers go up to the counter. -/
theorem Tally.number_lt {a : Arrival} (ha : a ∈ h.flatMap Event.arrivals) : a.number < g.arrived := by
  have hmem := List.mem_map_of_mem (f := Arrival.number) ha
  rw [ht.numbers] at hmem
  exact List.mem_range.mp hmem

theorem Tally.mem_arrivals {a : Arrival}
    (ha : a ∈ g.buffer ∨ a ∈ g.phase.inFlight ∨ a ∈ h.flatMap Event.confirms ∨ a ∈ h.flatMap Event.drops) :
    a ∈ h.flatMap Event.arrivals := by
  have hsum := ht.sum a
  rw [← List.count_pos_iff, hsum]
  simp only [← List.count_pos_iff] at ha
  omega

theorem Tally.buffer_not_inFlight {a : Arrival} (ha : a ∈ g.buffer) : a ∉ g.phase.inFlight := by
  intro ha'
  have hsum := ht.sum a
  have hle := ht.count_le a
  have h₁ := List.count_pos_iff.mpr ha
  have h₂ := List.count_pos_iff.mpr ha'
  omega

theorem Tally.drops_apart {a : Arrival} (ha : a ∈ h.flatMap Event.drops) :
    a ∉ g.buffer ∧ a ∉ g.phase.inFlight ∧ a ∉ h.flatMap Event.confirms := by
  have hsum := ht.sum a
  have hle := ht.count_le a
  have hpos := List.count_pos_iff.mpr ha
  simp only [← List.count_eq_zero]
  omega

theorem Tally.undelivered_sorted : (undelivered h).Pairwise fun a b => a.number < b.number :=
  ht.sorted.sublist List.filter_sublist

end

theorem undelivered_same {h out : List Event} (harrivals : out.flatMap Event.arrivals = [])
    (hconfirms : out.flatMap Event.confirms = []) : undelivered (h ++ out) = undelivered h := by
  unfold undelivered
  rw [List.flatMap_append, List.flatMap_append, harrivals, hconfirms, List.append_nil, List.append_nil]

theorem undelivered_confirmed {h out : List Event} (harrivals : out.flatMap Event.arrivals = []) :
    undelivered (h ++ out) = (undelivered h).filter fun a => a ∉ out.flatMap Event.confirms := by
  unfold undelivered
  rw [List.flatMap_append, List.flatMap_append, harrivals, List.append_nil, List.filter_filter]
  refine List.filter_congr fun a _ => ?_
  rw [Bool.eq_iff_iff]
  simp only [decide_eq_true_eq, Bool.and_eq_true, List.mem_append, not_or]
  exact and_comm

theorem undelivered_arrived {h : List Event} {g : Gateway} (ht : Tally h g) (data : Entry) (gone : List Arrival) :
    undelivered (h ++ .arrived ⟨g.arrived, data⟩ :: gone.map .dropped) = undelivered h ++ [⟨g.arrived, data⟩] := by
  have hfresh : (⟨g.arrived, data⟩ : Arrival) ∉ h.flatMap Event.confirms := by
    intro hmem
    have hlt := ht.number_lt (ht.mem_arrivals (Or.inr (Or.inr (Or.inl hmem))))
    exact Nat.lt_irrefl _ hlt
  have harrivals : (Event.arrived ⟨g.arrived, data⟩ :: gone.map .dropped).flatMap Event.arrivals =
      [⟨g.arrived, data⟩] := by simp
  have hconfirms : (Event.arrived ⟨g.arrived, data⟩ :: gone.map .dropped).flatMap Event.confirms = [] := by simp
  unfold undelivered
  rw [List.flatMap_append, List.flatMap_append, harrivals, hconfirms, List.append_nil, List.filter_append,
    List.filter_singleton, decide_eq_true hfresh, cond_true]

/-! ## The invariant -/

/-- The attempt is the last of its batch, and fails. -/
def FailsNow (attempt : Nat) (reply : Reply) : Prop :=
  HasuraClient.attempt reply = .rejected ∨
    HasuraClient.attempt reply = .retry ∧ retryBackoffs.length ≤ attempt + 1

/-- No batch of the loop fails when something has arrived behind it, and nothing arrives while one is put back. -/
def Fair (g : Gateway) : Input → Prop
  | .arrive _ => g.phase.waiting = []
  | .attempt reply => ∀ batch attempt, g.phase = .inserting batch attempt false → FailsNow attempt reply → g.buffer = []
  | _ => True

structure InOrder (h : List Event) (g : Gateway) : Prop where
  suffix : g.buffer ++ g.phase.waiting <:+ undelivered h
  inFlight : ∀ batch attempt final, g.phase = .inserting batch attempt final →
    ∃ gone, (∀ a ∈ gone, a ∈ h.flatMap Event.drops) ∧ (g.buffer = [] → gone = []) ∧
      batch ++ gone ++ g.buffer <:+ undelivered h
  batchRoom : 0 < g.cap → g.phase.inFlight.length ≤ g.cap
  room : 0 < g.cap → (g.buffer ++ g.phase.waiting).length ≤ g.cap

theorem InOrder.start (maxBuffer : Int) : InOrder [] (.start maxBuffer) where
  suffix := List.suffix_refl _
  inFlight := nofun
  batchRoom _ := Nat.zero_le _
  room _ := Nat.zero_le _

theorem InOrder.newest {h : List Event} {g : Gateway} (ht : Tally h g) (ho : InOrder h g) : Newest h g where
  suffix := ho.suffix
  bounded hmax := by
    have hcap : 0 < g.cap := by unfold Gateway.cap; omega
    have hle := ht.bounded hcap
    unfold Gateway.cap at hle
    omega
  ordered := ht.undelivered_sorted.sublist ((List.sublist_append_left _ _).trans ho.suffix.sublist)
  evicted a ha b hb := by
    obtain ⟨hbuffer, hflight, hconfirmed⟩ := ht.drops_apart ha
    have hmem : a ∈ undelivered h := by
      unfold undelivered
      rw [List.mem_filter]
      exact ⟨ht.mem_arrivals (Or.inr (Or.inr (Or.inr ha))), decide_eq_true hconfirmed⟩
    have hwaiting : a ∉ g.phase.waiting := by
      cases hphase : g.phase <;> rw [hphase] at hflight <;> first | exact hflight | exact List.not_mem_nil
    obtain ⟨older, heq⟩ := ho.suffix
    have hsorted := ht.undelivered_sorted
    rw [← heq] at hmem hsorted
    have holder : a ∈ older := by
      rcases List.mem_append.mp hmem with holder | hkept
      · exact holder
      · rcases List.mem_append.mp hkept with hkept | hkept
        · exact absurd hkept hbuffer
        · exact absurd hkept hwaiting
    exact (List.pairwise_append.mp hsorted).2.2 a holder b (List.mem_append_left _ hb)
  inFlight batch attempt final hphase := by
    obtain ⟨gone, hgone, -, hsuffix⟩ := ho.inFlight batch attempt final hphase
    exact ⟨gone, hgone, hsuffix⟩

theorem evicted_nil_of_room {cap : Nat} {q : List Arrival} (hroom : 0 < cap → q.length + 1 ≤ cap) (x : Arrival) :
    evicted cap q = [] ∧ push cap q x = q ++ [x] := by
  have hfull : ¬ Full cap q := by
    rintro ⟨hcap, hle⟩
    have hlt := hroom hcap
    omega
  exact ⟨evicted_of_room hfull, push_of_room hfull x⟩

/-- A step that leaves the buffer and the main thread's entries alone. -/
theorem InOrder.keep {h out : List Event} {g g' : Gateway} (ho : InOrder h g) (hbuffer : g'.buffer = g.buffer)
    (hcap : g'.cap = g.cap) (hwaiting : g'.phase.waiting = g.phase.waiting)
    (hphase : g'.phase.inFlight.length ≤ g.phase.inFlight.length)
    (hinserting : ∀ batch attempt final, g'.phase = .inserting batch attempt final →
      ∃ attempt, g.phase = .inserting batch attempt final)
    (harrivals : out.flatMap Event.arrivals = []) (hconfirms : out.flatMap Event.confirms = []) : InOrder (h ++ out) g' where
  suffix := by
    rw [undelivered_same harrivals hconfirms, hbuffer, hwaiting]
    exact ho.suffix
  inFlight batch attempt final hins := by
    obtain ⟨attempt', hbefore⟩ := hinserting batch attempt final hins
    obtain ⟨gone, hgone, hempty, hend⟩ := ho.inFlight batch attempt' final hbefore
    rw [undelivered_same harrivals hconfirms, hbuffer, List.flatMap_append]
    exact ⟨gone, fun a ha => List.mem_append_left _ (hgone a ha), hempty, hend⟩
  batchRoom := by
    rw [hcap]
    exact fun hpos => hphase.trans (ho.batchRoom hpos)
  room := by
    rw [hcap, hbuffer, hwaiting]
    exact ho.room

theorem InOrder.arrive {h : List Event} {g : Gateway} (ht : Tally h g) (ho : InOrder h g) (data : Entry)
    (hnone : g.phase.waiting = []) :
    InOrder (h ++ .arrived ⟨g.arrived, data⟩ :: (evicted g.cap g.buffer).map .dropped)
      { g with
        arrived := g.arrived + 1
        buffer := push g.cap g.buffer ⟨g.arrived, data⟩
        droppedCount := g.droppedCount + (evicted g.cap g.buffer).length } where
  suffix := by
    have hsuffix := ho.suffix
    rw [undelivered_arrived ht]
    simp only [hnone, List.append_nil] at hsuffix ⊢
    exact (push_suffix _ _ _).trans (List.suffix_append_self_iff.mpr hsuffix)
  inFlight batch attempt final hphase := by
    obtain ⟨gone, hgone, -, hend⟩ := ho.inFlight batch attempt final hphase
    refine ⟨gone ++ evicted g.cap g.buffer, ?_, fun hempty => absurd hempty (push_ne_nil _ _ _), ?_⟩
    · simp only [List.flatMap_append, List.flatMap_cons, Event.drops, List.nil_append, drops_dropped]
      intro a ha
      rcases List.mem_append.mp ha with ha | ha
      · exact List.mem_append_left _ (hgone a ha)
      · exact List.mem_append_right _ ha
    · rw [undelivered_arrived ht, ← List.append_assoc, List.append_assoc (batch ++ gone), evicted_append_push,
        ← List.append_assoc, List.suffix_append_self_iff]
      exact hend
  batchRoom := ho.batchRoom
  room hcap := by
    have hroom := ho.room hcap
    simp only [hnone, List.append_nil] at hroom ⊢
    exact push_length_le hcap hroom _

theorem InOrder.drain {h : List Event} {g : Gateway} (ht : Tally h g) (ho : InOrder h g)
    (hnone : g.phase.waiting = []) (final : Bool) :
    InOrder (h ++ []) { g with buffer := [], phase := .inserting g.buffer 0 final } where
  suffix := List.nil_suffix
  inFlight batch attempt final hphase := by
    cases hphase
    have hsuffix := ho.suffix
    rw [hnone, List.append_nil] at hsuffix
    simp only [List.append_nil]
    exact ⟨[], fun a ha => absurd ha List.not_mem_nil, fun _ => rfl, by simpa using hsuffix⟩
  batchRoom := ht.bounded
  room _ := Nat.zero_le _

theorem InOrder.accepted {h : List Event} {g : Gateway} (ht : Tally h g) (ho : InOrder h g) {batch : List Arrival}
    {attempt : Nat} {final : Bool} (hphase : g.phase = .inserting batch attempt final) (reply : Reply) {phase : Phase}
    (hnext : phase = .loopHead ∨ phase = .stopping) :
    InOrder (h ++ [.posted batch reply, .confirmed batch]) { g with phase := phase } := by
  have hwaiting : phase.waiting = [] ∧ phase.inFlight = [] := by
    rcases hnext with rfl | rfl <;> exact ⟨rfl, rfl⟩
  have hkept : g.buffer.filter (fun a => a ∉ batch) = g.buffer := by
    refine List.filter_eq_self.mpr fun a ha => ?_
    have hne := ht.buffer_not_inFlight ha
    rw [hphase] at hne
    exact decide_eq_true hne
  refine ⟨?_, fun _ _ _ hins => ?_, ?_, ?_⟩
  · have hsuffix := ho.suffix
    rw [hphase] at hsuffix
    simp only [Phase.waiting, List.append_nil] at hsuffix
    have hfilter := hsuffix.filter fun a => a ∉ batch
    rw [hkept] at hfilter
    rw [undelivered_confirmed (by simp)]
    simpa [hwaiting.1] using hfilter
  · rcases hnext with rfl | rfl <;> cases hins
  · rw [hwaiting.2]
    exact fun _ => Nat.zero_le _
  · rw [hwaiting.1, List.append_nil]
    exact ht.bounded

theorem InOrder.failed {h : List Event} {g : Gateway} (ho : InOrder h g) {batch : List Arrival} {attempt : Nat}
    (hphase : g.phase = .inserting batch attempt false) (hempty : g.buffer = []) (reply : Reply) :
    InOrder (h ++ [.posted batch reply]) { g with phase := .requeueing batch } where
  suffix := by
    obtain ⟨gone, -, hgone, hend⟩ := ho.inFlight batch attempt false hphase
    rw [hgone hempty, hempty, List.append_nil, List.append_nil] at hend
    rw [undelivered_same (by simp) (by simp), hempty]
    exact hend
  inFlight := nofun
  batchRoom hcap := by
    have hroom := ho.batchRoom hcap
    rw [hphase] at hroom
    exact hroom
  room hcap := by
    have hroom := ho.batchRoom hcap
    rw [hphase] at hroom
    rw [hempty]
    exact hroom

theorem InOrder.requeue {h : List Event} {g : Gateway} (ho : InOrder h g) {entry : Arrival} {rest : List Arrival}
    (hphase : g.phase = .requeueing (entry :: rest)) :
    InOrder (h ++ (evicted g.cap g.buffer).map .dropped)
      { g with
        phase := .requeueing rest
        buffer := push g.cap g.buffer entry
        droppedCount := g.droppedCount + (evicted g.cap g.buffer).length } := by
  obtain ⟨hsuffix, -, hbatch, hroom⟩ := ho
  rw [hphase] at hsuffix hbatch hroom
  simp only [Phase.waiting, Phase.inFlight, List.length_append, List.length_cons] at hsuffix hbatch hroom
  obtain ⟨hnone, hpush⟩ := evicted_nil_of_room (q := g.buffer) (x := entry)
    (fun hcap => by have hle := hroom hcap; omega)
  refine ⟨?_, nofun, fun hcap => ?_, fun hcap => ?_⟩
  · rw [undelivered_same (by simp) (by simp), hpush]
    simpa [Phase.waiting] using hsuffix
  · have hle : rest.length + 1 ≤ g.cap := hbatch hcap
    show rest.length ≤ g.cap
    omega
  · have hle : g.buffer.length + (rest.length + 1) ≤ g.cap := hroom hcap
    show (push g.cap g.buffer entry ++ rest).length ≤ g.cap
    rw [hpush, List.length_append, List.length_append, List.length_singleton]
    omega

theorem InOrder.step {h : List Event} {g g' : Gateway} {x : Input} {out : List Event} (ht : Tally h g)
    (ho : InOrder h g) (hfair : Fair g x) (hmove : Moves g x g' out) : InOrder (h ++ out) g' := by
  cases hmove with
  | arrive data => exact ho.arrive ht data hfair
  | signal => exact ho.keep rfl rfl rfl le_rfl (fun _ attempt _ hphase => ⟨attempt, hphase⟩) rfl rfl
  | sleep hphase => exact ho.keep rfl rfl (by rw [hphase]; rfl) (Nat.zero_le _) nofun rfl rfl
  | finalEmpty hphase => exact ho.keep rfl rfl (by rw [hphase]; rfl) (Nat.zero_le _) nofun rfl rfl
  | finalDrain hphase => exact ho.drain ht (by rw [hphase]; rfl) true
  | drainEmpty hphase => exact ho.keep rfl rfl (by rw [hphase]; rfl) (Nat.zero_le _) nofun rfl rfl
  | drain hphase => exact ho.drain ht (by rw [hphase]; rfl) false
  | requeue entry rest hphase => exact ho.requeue hphase
  | requeued hphase => exact ho.keep rfl rfl (by rw [hphase]; rfl) (Nat.zero_le _) nofun rfl rfl
  | stop hphase => exact ho.keep rfl rfl (by rw [hphase]; rfl) (Nat.zero_le _) nofun rfl rfl
  | accepted batch attempt final hphase =>
    exact ho.accepted ht hphase _ (by cases final <;> simp)
  | retry batch attempt final hphase =>
    refine ho.keep rfl rfl (by rw [hphase]; rfl) (by rw [hphase]; rfl) (fun _ _ _ hins => ?_) rfl rfl
    cases hins
    exact ⟨attempt, hphase⟩
  | failed batch attempt hphase hreply => exact ho.failed hphase (hfair batch attempt hphase hreply) _
  | lost batch attempt hphase => exact ho.keep rfl rfl (by rw [hphase]; rfl) (Nat.zero_le _) nofun rfl rfl
  | raised batch attempt final hphase => exact ho.keep rfl rfl (by rw [hphase]; rfl) (Nat.zero_le _) nofun rfl rfl

/-- Two ends of one list have the same last element. -/
theorem last_of_suffixes {l l' l'' : List Arrival} (h : l <:+ l'') (h' : l' <:+ l'') (hne : l ≠ []) (hne' : l' ≠ []) :
    l.getLast hne = l'.getLast hne' := by
  rw [h.getLast hne, h'.getLast hne']

theorem Moves.fails {g g' : Gateway} {reply : Reply} {out : List Event} (hmove : Moves g (.attempt reply) g' out)
    {batch : List Arrival} {attempt : Nat} (hphase : g.phase = .inserting batch attempt false)
    (hfails : FailsNow attempt reply) : g' = { g with phase := .requeueing batch } ∧ out = [.posted batch reply] := by
  have hreply : HasuraClient.attempt reply ≠ .accepted ∧ HasuraClient.attempt reply ≠ .raises := by
    rcases hfails with hreply | ⟨hreply, -⟩ <;> rw [hreply] <;> exact ⟨nofun, nofun⟩
  cases hmove with
  | accepted batch' attempt' final hphase' haccepted => exact absurd haccepted hreply.1
  | raised batch' attempt' final hphase' hbad => exact absurd ((attempt_raises_iff reply).mpr hbad) hreply.2
  | retry batch' attempt' final hphase' hretry hleft =>
    cases hphase.symm.trans hphase'
    rcases hfails with hrejected | ⟨-, hlast⟩
    · rw [hretry] at hrejected
      cases hrejected
    · omega
  | failed batch' attempt' hphase' =>
    cases hphase.symm.trans hphase'
    exact ⟨rfl, rfl⟩
  | lost batch' attempt' hphase' => cases hphase.symm.trans hphase'

/-- A batch that is put back behind newer entries is out of order. -/
theorem InOrder.overtaken {h : List Event} {g : Gateway} (ht : Tally h g) (ho : InOrder h g) {batch : List Arrival}
    {attempt : Nat} (hphase : g.phase = .inserting batch attempt false) (hbuffer : g.buffer ≠ []) :
    ¬ g.buffer ++ batch <:+ undelivered h := by
  intro hsuffix
  obtain ⟨gone, -, -, hend⟩ := ho.inFlight batch attempt false hphase
  have hbatch := ht.held batch attempt false hphase
  have hlast := last_of_suffixes hsuffix hend (by simp [hbatch]) (by simp [hbuffer])
  rw [List.getLast_append_of_ne_nil _ hbatch, List.getLast_append_of_ne_nil _ hbuffer] at hlast
  have hnot := ht.buffer_not_inFlight (List.getLast_mem hbuffer)
  rw [← hlast, hphase] at hnot
  exact hnot (List.getLast_mem hbatch)

/-- An entry that arrives before the rest of a batch is put back is out of order. -/
theorem Tally.interrupted {h : List Event} {g : Gateway} (ht : Tally h g) (hwaiting : g.phase.waiting ≠ [])
    (buffer : List Arrival) (data : Entry) : ¬ buffer ++ g.phase.waiting <:+ undelivered h ++ [⟨g.arrived, data⟩] := by
  intro hsuffix
  have hlast := last_of_suffixes hsuffix (List.suffix_refl _) (by simp [hwaiting]) (by simp)
  rw [List.getLast_append_of_ne_nil _ hwaiting, List.getLast_concat] at hlast
  have hmem := List.getLast_mem hwaiting
  rw [hlast] at hmem
  have hflight : (⟨g.arrived, data⟩ : Arrival) ∈ g.phase.inFlight := by
    cases hphase : g.phase <;> rw [hphase] at hmem <;> first | exact hmem | exact absurd hmem List.not_mem_nil
  exact Nat.lt_irrefl _ (ht.number_lt (ht.mem_arrivals (Or.inr (Or.inl hflight))))

theorem InOrder.unfair {h : List Event} {g g' : Gateway} {x : Input} {out : List Event} (ht : Tally h g)
    (ho : InOrder h g) (hunfair : ¬ Fair g x) (hmove : Moves g x g' out) : ¬ Newest (h ++ out) g' := by
  intro hn
  have hsuffix := hn.suffix
  cases x with
  | arrive data =>
    cases hmove
    rw [undelivered_arrived ht] at hsuffix
    exact ht.interrupted hunfair _ data hsuffix
  | attempt reply =>
    unfold Fair at hunfair
    push Not at hunfair
    obtain ⟨batch, attempt, hphase, hfails, hbuffer⟩ := hunfair
    obtain ⟨rfl, rfl⟩ := hmove.fails hphase hfails
    rw [undelivered_same (by simp) (by simp)] at hsuffix
    exact ho.overtaken ht hphase hbuffer hsuffix
  | signal => exact hunfair trivial
  | advance => exact hunfair trivial

/-! ## Runs -/

theorem run_inOrder {maxBuffer : Int} {inputs : List Input} {g : Gateway} {h : List Event}
    (hfair : gateway.Along Fair (.start maxBuffer) inputs)
    (hrun : gateway.run (.start maxBuffer) inputs = some (g, h)) : Tally h g ∧ InOrder h g :=
  gateway.run_induction (I := fun h g => Tally h g ∧ InOrder h g)
    (fun _ _ _ _ _ hI hok hstep => ⟨hI.1.step (step_moves hstep), hI.2.step hI.1 hok (step_moves hstep)⟩) (h := [])
    ⟨.start maxBuffer, .start maxBuffer⟩ hfair hrun

/-- **The newest in order.** In every state of a run the buffer is the end of the undelivered entries, exactly when each
step of the run is fair. -/
theorem newest_iff (maxBuffer : Int) (inputs : List Input) (g : Gateway) (h : List Event)
    (hrun : gateway.run (.start maxBuffer) inputs = some (g, h)) :
    (∀ before after g' h', inputs = before ++ after → gateway.run (.start maxBuffer) before = some (g', h') →
      Newest h' g') ↔ gateway.Along Fair (.start maxBuffer) inputs := by
  constructor
  · intro hall
    refine gateway.run_snoc_induction
      (I := fun inputs _ _ => (∀ before after g' h', inputs = before ++ after →
        gateway.run (.start maxBuffer) before = some (g', h') → Newest h' g') →
        gateway.Along Fair (.start maxBuffer) inputs)
      (fun _ => trivial) ?_ (gateway.along_true _ _) hrun hall
    intro before h g x g' out hbefore ih _ hstep hall
    have hfair := ih fun first rest g' h' heq => hall first (rest ++ [x]) g' h' (by rw [heq, List.append_assoc])
    refine (gateway.along_snoc_iff hbefore).mpr ⟨hfair, ?_⟩
    by_contra hunfair
    obtain ⟨ht, ho⟩ := run_inOrder hfair hbefore
    have hwhole : gateway.run (.start maxBuffer) (before ++ [x]) = some (g', h ++ out) := by
      have hlast := gateway.run_cons_of hstep (gateway.run_nil g')
      rw [List.append_nil] at hlast
      exact gateway.run_append_iff.mpr ⟨_, _, _, hbefore, hlast, rfl⟩
    exact ho.unfair ht hunfair (step_moves hstep) (hall _ [] _ _ (List.append_nil _).symm hwhole)
  · rintro hfair before after g' h' rfl hbefore
    obtain ⟨ht, ho⟩ := run_inOrder (gateway.along_append hfair hbefore).1 hbefore
    exact ho.newest ht

theorem newest_unavailable : ∃ g h, gateway.run (.start 1000) unavailable = some (g, h) ∧ Newest h g := by
  refine ⟨_, _, rfl, (newest_iff 1000 unavailable _ _ rfl).mpr ?_ unavailable [] _ _ rfl rfl⟩
  refine ⟨rfl, fun _ _ h₁ => ?_⟩
  cases h₁
  refine ⟨trivial, fun _ _ h₂ => ?_⟩
  cases h₂
  refine ⟨trivial, fun _ _ h₃ => ?_⟩
  cases h₃
  refine ⟨fun _ _ _ _ => rfl, fun _ _ h₄ => ?_⟩
  cases h₄
  refine ⟨fun _ _ _ _ => rfl, fun _ _ h₅ => ?_⟩
  cases h₅
  refine ⟨fun _ _ _ _ => rfl, fun _ _ h₆ => ?_⟩
  cases h₆
  refine ⟨trivial, fun _ _ h₇ => ?_⟩
  cases h₇
  exact ⟨trivial, fun _ _ _ => trivial⟩

/-- With room for one entry, the second to arrive is evicted when the first is put back. -/
theorem newer_entry_evicted :
    ¬ ∀ maxBuffer inputs g h, gateway.run (.start maxBuffer) inputs = some (g, h) → Newest h g := by
  intro hall
  have hn := hall 1 [.arrive sampleEntry, .advance, .advance, .arrive sampleEntry, .attempt (.response 400 .notJson),
    .advance, .advance] _ _ rfl
  have hlt := hn.evicted ⟨1, sampleEntry⟩ (by decide) ⟨0, sampleEntry⟩ (by decide)
  exact absurd hlt (by decide)

/-! ## Rejected batches -/

/-- The batch of a POST, with the answer. -/
def Event.posts : Event → List (List Arrival × Reply)
  | posted batch reply => [(batch, reply)]
  | _ => []

/-- No entry of a batch that was answered with a client error is part of a later POST. -/
def NeverResent (h : List Event) : Prop :=
  (h.flatMap Event.posts).Pairwise fun p q => ClientError p.2 → ∀ a ∈ p.1, a ∉ q.1

/-- No POST of the loop is answered with a client error that is found out; that of the final flush may be. -/
def NotRejected (g : Gateway) : Input → Prop
  | .attempt reply => ∀ batch attempt, g.phase = .inserting batch attempt false → ¬ Rejected reply
  | _ => True

/-- A rejected batch was the last to be sent. -/
structure RejectedLast (h : List Event) (g : Gateway) : Prop where
  never : NeverResent h
  last : ∀ p ∈ h.flatMap Event.posts, ClientError p.2 → g.phase = .stopping ∨ g.phase.exited = true

theorem posts_dropped (gone : List Arrival) : (gone.map Event.dropped).flatMap Event.posts = [] := by
  rw [List.flatMap_eq_nil_iff]
  intro e he
  obtain ⟨a, -, rfl⟩ := List.mem_map.mp he
  rfl

/-- A step that posts is an attempt. -/
theorem Moves.posts {g g' : Gateway} {x : Input} {out : List Event} (hmove : Moves g x g' out) :
    out.flatMap Event.posts = [] ∨ ∃ batch attempt final reply, g.phase = .inserting batch attempt final ∧
      x = .attempt reply ∧ out.flatMap Event.posts = [(batch, reply)] ∧
        ((final = false → ¬ Rejected reply) → ClientError reply → g'.phase = .stopping ∨ g'.phase.exited = true) := by
  cases hmove with
  | arrive data => exact Or.inl (posts_dropped _)
  | requeue entry rest => exact Or.inl (posts_dropped _)
  | accepted batch attempt final hphase hreply =>
    refine Or.inr ⟨batch, attempt, final, _, hphase, rfl, rfl, fun _ hclient => ?_⟩
    rcases attempt_of_clientError hclient with hne | hne <;> rw [hreply] at hne <;> cases hne
  | retry batch attempt final hphase hreply =>
    refine Or.inr ⟨batch, attempt, final, _, hphase, rfl, rfl, fun _ hclient => ?_⟩
    rcases attempt_of_clientError hclient with hne | hne <;> rw [hreply] at hne <;> cases hne
  | failed batch attempt hphase hreply =>
    refine Or.inr ⟨batch, attempt, false, _, hphase, rfl, rfl, fun hnot hclient => ?_⟩
    have hrejected := (not_congr (attempt_rejected_iff _)).mpr (hnot rfl)
    rcases attempt_of_clientError hclient with hne | hne
    · exact absurd hne hrejected
    · rcases hreply with hreply | ⟨hreply, -⟩ <;> rw [hne] at hreply <;> cases hreply
  | lost batch attempt hphase => exact Or.inr ⟨batch, attempt, true, _, hphase, rfl, rfl, fun _ _ => Or.inl rfl⟩
  | raised batch attempt final hphase hbad =>
    exact Or.inr ⟨batch, attempt, final, _, hphase, rfl, rfl, fun _ _ => Or.inr rfl⟩
  | _ => exact Or.inl rfl

theorem RejectedLast.step {h : List Event} {g g' : Gateway} {x : Input} {out : List Event} (hr : RejectedLast h g)
    (hok : NotRejected g x) (hmove : Moves g x g' out) : RejectedLast (h ++ out) g' := by
  have hstays (hclient : ∃ p ∈ h.flatMap Event.posts, ClientError p.2) :
      g'.phase = .stopping ∨ g'.phase.exited = true := by
    obtain ⟨p, hp, hclient⟩ := hclient
    rcases hr.last p hp hclient with hphase | hphase
    · rcases hmove.stops hphase with hstops | hstops
      · exact Or.inl hstops
      · exact Or.inr (by rw [hstops]; rfl)
    · have hlive := hmove.not_exited
      rw [hphase] at hlive
      cases hlive
  rcases hmove.posts with hnone | ⟨batch, attempt, final, reply, hphase, rfl, hpost, hfinal⟩
  · refine ⟨?_, fun p hp hclient => ?_⟩
    · unfold NeverResent
      rw [List.flatMap_append, hnone, List.append_nil]
      exact hr.never
    · rw [List.flatMap_append, hnone, List.append_nil] at hp
      exact hstays ⟨p, hp, hclient⟩
  · have hnever : ∀ p ∈ h.flatMap Event.posts, ¬ ClientError p.2 := by
      intro p hp hclient
      rcases hr.last p hp hclient with hstop | hstop <;> rw [hphase] at hstop <;> cases hstop
    refine ⟨?_, fun p hp hclient => ?_⟩
    · unfold NeverResent
      rw [List.flatMap_append, hpost, List.pairwise_append]
      exact ⟨hr.never, List.pairwise_singleton _ _, fun p hp _ _ hclient => absurd hclient (hnever p hp)⟩
    · rw [List.flatMap_append, hpost] at hp
      rcases List.mem_append.mp hp with hp | hp
      · exact absurd hclient (hnever p hp)
      · rw [List.mem_singleton.mp hp] at hclient
        refine hfinal (fun hloop => ?_) hclient
        rw [hloop] at hphase
        exact hok batch attempt hphase

/-! ## A rejected batch comes back -/

theorem push_getLast? (cap : Nat) (q : List Arrival) (x : Arrival) : (push cap q x).getLast? = some x := by
  unfold push
  split <;> simp

/-- The last entry of a batch that is put back is in the buffer. -/
theorem run_requeue {g : Gateway} {rest : List Arrival} (hphase : g.phase = .requeueing rest) :
    ∃ inputs g' out, gateway.run g inputs = some (g', out) ∧ g'.phase = .loopHead ∧
      g'.buffer.getLast? = (g.buffer ++ rest).getLast? ∧ out.flatMap Event.posts = [] := by
  induction rest generalizing g with
  | nil =>
    have hstep : gateway.step g .advance = some ({ g with phase := .loopHead }, []) := by
      simp only [gateway, Gateway.advance, hphase]
    exact ⟨[.advance], _, _, gateway.run_cons_of hstep (gateway.run_nil _), rfl, by rw [List.append_nil], rfl⟩
  | cons entry rest ih =>
    have hstep : gateway.step g .advance = some ({ g with phase := .requeueing rest }.enqueue entry) := by
      simp only [gateway, Gateway.advance, hphase]
    obtain ⟨inputs, g', out, hrun, hhead, hlast, hnone⟩ := ih (g := ({ g with phase := .requeueing rest }.enqueue entry).1) rfl
    refine ⟨.advance :: inputs, g', _, gateway.run_cons_of hstep hrun, hhead, ?_, ?_⟩
    · rw [hlast, List.getLast?_append, List.getLast?_append, List.getLast?_cons]
      show rest.getLast?.or (push _ _ entry).getLast? = _
      rw [push_getLast?]
      cases rest.getLast? <;> rfl
    · rw [List.flatMap_append, hnone, List.append_nil]
      exact posts_dropped _

/-- From the head of the loop, a buffer that is not empty is posted next. -/
theorem run_post {g : Gateway} (hphase : g.phase = .loopHead) (hbuffer : g.buffer ≠ []) :
    ∃ inputs g' out, gateway.run g inputs = some (g', out) ∧
      out.flatMap Event.posts = [(g.buffer, .requestException)] := by
  cases hdown : g.shutdownRequested with
  | true =>
    have hstep : gateway.step g .advance = some ({ g with buffer := [], phase := .inserting g.buffer 0 true }, []) := by
      simp only [gateway, Gateway.advance, hphase, hdown, Gateway.drain, if_neg hbuffer, if_pos]
    exact ⟨[.advance, .attempt .requestException], _, _,
      gateway.run_cons_of hstep (gateway.run_cons_of rfl (gateway.run_nil _)), rfl⟩
  | false =>
    have hstep : gateway.step g .advance = some ({ g with phase := .sleeping }, []) := by
      simp only [gateway, Gateway.advance, hphase, hdown]
      rfl
    have hstep' : gateway.step { g with phase := .sleeping } .advance =
        some ({ g with buffer := [], phase := .inserting g.buffer 0 false }, []) := by
      simp only [gateway, Gateway.advance, Gateway.drain, if_neg hbuffer]
    exact ⟨[.advance, .advance, .attempt .requestException], _, _,
      gateway.run_cons_of hstep (gateway.run_cons_of hstep' (gateway.run_cons_of rfl (gateway.run_nil _))), rfl⟩

/-- When nothing gets in between, the last entry of a rejected batch is sent again. -/
theorem rejected_resent {g : Gateway} {batch : List Arrival} {attempt : Nat} {reply : Reply}
    (hphase : g.phase = .inserting batch attempt false) (hne : batch ≠ []) (hclient : Rejected reply) :
    ∃ inputs g' out, gateway.run g (.attempt reply :: inputs) = some (g', out) ∧ ¬ NeverResent out := by
  have hstep : gateway.step g (.attempt reply) =
      some ({ g with phase := .requeueing batch }, [.posted batch reply]) := by
    simp only [gateway, hphase]
    unfold Gateway.post
    rw [(attempt_rejected_iff reply).mpr hclient]
    rfl
  obtain ⟨inputs, g₁, out₁, hrun₁, hhead, hlast, hnone⟩ :=
    run_requeue (g := { g with phase := .requeueing batch }) rfl
  have hlast : g₁.buffer.getLast? = some (batch.getLast hne) := by
    rw [hlast, List.getLast?_append, List.getLast?_eq_some_getLast hne]
    rfl
  have hbuffer : g₁.buffer ≠ [] := by
    intro hempty
    rw [hempty] at hlast
    cases hlast
  obtain ⟨inputs', g₂, out₂, hrun₂, hpost⟩ := run_post hhead hbuffer
  refine ⟨inputs ++ inputs', g₂, _, gateway.run_cons_of hstep
    (gateway.run_append_iff.mpr ⟨_, _, _, hrun₁, hrun₂, rfl⟩), fun hnever => ?_⟩
  unfold NeverResent at hnever
  rw [List.flatMap_append, List.flatMap_append, hnone, hpost, List.nil_append] at hnever
  have hpair := (List.pairwise_append.mp hnever).2.2 (batch, reply) (by simp [Event.posts]) _ (List.mem_singleton_self _)
  exact hpair hclient.clientError _ (List.getLast_mem hne) (List.mem_of_getLast? hlast)

/-- **No resending.** A run whose steps are answered without a client error that is found out in the loop never resends an
entry of a batch that was answered with a client error; after any other answer in the loop there is a way to go on that
does. -/
theorem never_resent (maxBuffer : Int) (inputs : List Input) (g : Gateway) (h : List Event)
    (hrun : gateway.run (.start maxBuffer) inputs = some (g, h)) :
    (gateway.Along NotRejected (.start maxBuffer) inputs → NeverResent h) ∧
      ∀ reply, ¬ NotRejected g (.attempt reply) → ∃ more g' h',
        gateway.run (.start maxBuffer) (inputs ++ .attempt reply :: more) = some (g', h') ∧ ¬ NeverResent h' := by
  constructor
  · intro hok
    have hlast := gateway.run_induction (I := RejectedLast) (fun _ _ _ _ _ hr hok hstep => hr.step hok (step_moves hstep))
      (h := []) (s := .start maxBuffer) ⟨List.Pairwise.nil, by simp⟩ hok hrun
    exact hlast.never
  · intro reply hrejected
    unfold NotRejected at hrejected
    push Not at hrejected
    obtain ⟨batch, attempt, hphase, hclient⟩ := hrejected
    obtain ⟨more, g', out, hmore, hresent⟩ :=
      rejected_resent hphase ((run_tally hrun).held batch attempt false hphase) hclient
    refine ⟨more, g', h ++ out, gateway.run_append_iff.mpr ⟨_, _, _, hrun, hmore, rfl⟩, fun hnever => hresent ?_⟩
    unfold NeverResent at hnever ⊢
    rw [List.flatMap_append] at hnever
    exact (List.pairwise_append.mp hnever).2.1

theorem never_resent_unavailable : ∃ g h, gateway.run (.start 1000) unavailable = some (g, h) ∧ NeverResent h := by
  refine ⟨_, _, rfl, (never_resent 1000 unavailable _ _ rfl).1 ?_⟩
  have hinputs : ∀ x ∈ unavailable, ∀ reply, x = .attempt reply → ¬ Rejected reply := by
    simp [unavailable, Rejected]
  refine (gateway.along_of_mem hinputs _).mono fun g x hx => ?_
  cases x with
  | attempt reply => exact fun _ _ _ => hx reply rfl
  | _ => trivial

/-- A batch that is answered with 400 is posted again. -/
theorem rejected_batch_circulates :
    ¬ ∀ maxBuffer inputs g h, gateway.run (.start maxBuffer) inputs = some (g, h) → NeverResent h := by
  intro hall
  have hnever := hall 1000 [.arrive sampleEntry, .advance, .advance, .attempt (.response 400 .notJson), .advance, .advance,
    .advance, .advance, .attempt (.response 400 .notJson)] _ _ rfl
  exact (List.pairwise_cons.mp hnever).1 ([⟨0, sampleEntry⟩], .response 400 .notJson) List.mem_cons_self
    ⟨by decide, by decide⟩ ⟨0, sampleEntry⟩ List.mem_cons_self List.mem_cons_self

end IbarraGateway.GatewayTranslator
