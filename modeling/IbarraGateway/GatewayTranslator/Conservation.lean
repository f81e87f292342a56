import IbarraGateway.GatewayTranslator.MainLoop

/-!
# Conservation of telemetry

* `run_tally` : every entry that arrived is in the buffer, with the main thread, or in one of the ends of the history,
  and in one of them only.
* `conservation` : none is missing exactly as long as no reply ends the process.
-/

namespace IbarraGateway.GatewayTranslator

open BoundedFifo HasuraClient

/-! ## The tally -/

namespace Event

def arrivals : Event → List Arrival
  | arrived a => [a]
  | _ => []

def drops : Event → List Arrival
  | dropped a => [a]
  | _ => []

def confirms : Event → List Arrival
  | confirmed batch => batch
  | _ => []

def losses : Event → List Arrival
  | lost batch => batch
  | _ => []

def raises : Event → List Arrival
  | raised batch => batch
  | _ => []

end Event

attribute [simp] Event.arrivals Event.drops Event.confirms Event.losses Event.raises Phase.inFlight

theorem flatMap_dropped_nil {f : Event → List Arrival} (hf : ∀ a, f (.dropped a) = []) (gone : List Arrival) :
    (gone.map Event.dropped).flatMap f = [] := by
  simp [List.flatMap_eq_nil_iff, hf]

@[simp] theorem arrivals_dropped (gone : List Arrival) : (gone.map Event.dropped).flatMap Event.arrivals = [] :=
  flatMap_dropped_nil (fun _ => rfl) gone

@[simp] theorem confirms_dropped (gone : List Arrival) : (gone.map Event.dropped).flatMap Event.confirms = [] :=
  flatMap_dropped_nil (fun _ => rfl) gone

@[simp] theorem losses_dropped (gone : List Arrival) : (gone.map Event.dropped).flatMap Event.losses = [] :=
  flatMap_dropped_nil (fun _ => rfl) gone

@[simp] theorem raises_dropped (gone : List Arrival) : (gone.map Event.dropped).flatMap Event.raises = [] :=
  flatMap_dropped_nil (fun _ => rfl) gone

@[simp] theorem drops_dropped (gone : List Arrival) : (gone.map Event.dropped).flatMap Event.drops = gone := by
  simp [List.flatMap_map]

/-- The arrivals of a step, and what was held before, are what is held after and what has come to an end. -/
theorem Moves.sum {g g' : Gateway} {x : Input} {out : List Event} (hmove : Moves g x g' out) (a : Arrival) :
    (out.flatMap Event.arrivals).count a + g.buffer.count a + g.phase.inFlight.count a =
      g'.buffer.count a + g'.phase.inFlight.count a + (out.flatMap Event.confirms).count a +
        (out.flatMap Event.drops).count a + (out.flatMap Event.losses).count a + (out.flatMap Event.raises).count a := by
  have hpush (entry : Arrival) := congrArg (List.count a) (evicted_append_push g.cap g.buffer entry)
  simp only [List.count_append] at hpush
  cases hmove with
  | arrive data =>
    have hpush := hpush ⟨g.arrived, data⟩
    simp [List.count_cons] at hpush ⊢
    omega
  | requeue entry rest hphase =>
    have hpush := hpush entry
    simp [hphase, List.count_cons] at hpush ⊢
    omega
  | signal => simp
  | sleep hphase => simp [hphase]
  | finalEmpty hphase => simp [hphase]
  | finalDrain hphase => simp [hphase]
  | drainEmpty hphase => simp [hphase]
  | drain hphase => simp [hphase]
  | requeued hphase => simp [hphase]
  | stop hphase => simp [hphase]
  | accepted batch attempt final hphase => cases final <;> simp [hphase]
  | retry batch attempt final hphase => simp [hphase]
  | failed batch attempt hphase => simp [hphase]
  | lost batch attempt hphase => simp [hphase]
  | raised batch attempt final hphase => simp [hphase]

theorem Moves.dropped {g g' : Gateway} {x : Input} {out : List Event} (hmove : Moves g x g' out) :
    g'.droppedCount = g.droppedCount + (out.flatMap Event.drops).length := by
  cases hmove <;> simp

theorem Moves.numbers {g g' : Gateway} {x : Input} {out : List Event} (hmove : Moves g x g' out) :
    g'.arrived = g.arrived + (out.flatMap Event.arrivals).length ∧
      (out.flatMap Event.arrivals).map Arrival.number = List.range' g.arrived (out.flatMap Event.arrivals).length := by
  cases hmove <;> simp

theorem Moves.cap_eq {g g' : Gateway} {x : Input} {out : List Event} (hmove : Moves g x g' out) : g'.cap = g.cap := by
  cases hmove <;> rfl

theorem Moves.bounded {g g' : Gateway} {x : Input} {out : List Event} (hmove : Moves g x g' out) (hcap : 0 < g.cap)
    (hbuffer : g.buffer.length ≤ g.cap) : g'.buffer.length ≤ g.cap := by
  cases hmove with
  | arrive data => exact push_length_le hcap hbuffer _
  | requeue entry rest hphase => exact push_length_le hcap hbuffer _
  | finalDrain => exact Nat.zero_le _
  | drain => exact Nat.zero_le _
  | _ => exact hbuffer

/-- Where the entries are that have arrived. -/
structure Tally (h : List Event) (g : Gateway) : Prop where
  sum : ∀ a, (h.flatMap Event.arrivals).count a = g.buffer.count a + g.phase.inFlight.count a +
    (h.flatMap Event.confirms).count a + (h.flatMap Event.drops).count a + (h.flatMap Event.losses).count a +
    (h.flatMap Event.raises).count a
  dropped : g.droppedCount = (h.flatMap Event.drops).length
  numbers : (h.flatMap Event.arrivals).map Arrival.number = List.range g.arrived
  bounded : 0 < g.cap → g.buffer.length ≤ g.cap
  held : ∀ batch attempt final, g.phase = .inserting batch attempt final → batch ≠ []
  lost : h.flatMap Event.losses ≠ [] → g.phase = .stopping ∨ g.phase = .stopped
  raised : h.flatMap Event.raises ≠ [] ↔ g.phase = .crashed

theorem Tally.start (maxBuffer : Int) : Tally [] (.start maxBuffer) where
  sum _ := rfl
  dropped := rfl
  numbers := rfl
  bounded _ := Nat.zero_le _
  held := nofun
  lost h := absurd rfl h
  raised := ⟨fun h => absurd rfl h, nofun⟩

/-- A process that has ended does nothing. -/
theorem Moves.not_exited {g g' : Gateway} {x : Input} {out : List Event} (hmove : Moves g x g' out) :
    g.phase.exited = false := by
  cases hmove with
  | arrive data hlive => exact hlive
  | signal hlive => exact hlive
  | sleep hphase => rw [hphase]; rfl
  | finalEmpty hphase => rw [hphase]; rfl
  | finalDrain hphase => rw [hphase]; rfl
  | drainEmpty hphase => rw [hphase]; rfl
  | drain hphase => rw [hphase]; rfl
  | requeue entry rest hphase => rw [hphase]; rfl
  | requeued hphase => rw [hphase]; rfl
  | stop hphase => rw [hphase]; rfl
  | accepted batch attempt final hphase => rw [hphase]; rfl
  | retry batch attempt final hphase => rw [hphase]; rfl
  | failed batch attempt hphase => rw [hphase]; rfl
  | lost batch attempt hphase => rw [hphase]; rfl
  | raised batch attempt final hphase => rw [hphase]; rfl

theorem Moves.losses {g g' : Gateway} {x : Input} {out : List Event} (hmove : Moves g x g' out)
    (hlost : out.flatMap Event.losses ≠ []) : g'.phase = .stopping := by
  cases hmove with
  | lost => rfl
  | accepted batch attempt final => exact absurd (by simp) hlost
  | _ => exact absurd (by simp) hlost

theorem Moves.stops {g g' : Gateway} {x : Input} {out : List Event} (hmove : Moves g x g' out)
    (hstopping : g.phase = .stopping) : g'.phase = .stopping ∨ g'.phase = .stopped := by
  cases hmove <;> simp_all

theorem Moves.raises {g g' : Gateway} {x : Input} {out : List Event} (hmove : Moves g x g' out)
    (hheld : ∀ batch attempt final, g.phase = .inserting batch attempt final → batch ≠ []) :
    out.flatMap Event.raises ≠ [] ↔ g'.phase = .crashed := by
  have hlive : g.phase ≠ .crashed := by
    intro hcrashed
    have hlive := hmove.not_exited
    rw [hcrashed] at hlive
    cases hlive
  cases hmove with
  | arrive => simpa using hlive
  | signal => simpa using hlive
  | raised batch attempt final hphase => simpa using hheld batch attempt final hphase
  | accepted batch attempt final => cases final <;> simp
  | _ => simp

theorem Tally.step {h : List Event} {g g' : Gateway} {x : Input} {out : List Event} (ht : Tally h g)
    (hmove : Moves g x g' out) : Tally (h ++ out) g' where
  sum a := by
    have hbefore := ht.sum a
    have hstep := hmove.sum a
    simp only [List.flatMap_append, List.count_append]
    omega
  dropped := by rw [hmove.dropped, ht.dropped, List.flatMap_append, List.length_append]
  numbers := by
    obtain ⟨harrived, hnumbers⟩ := hmove.numbers
    rw [List.flatMap_append, List.map_append, ht.numbers, hnumbers, harrived, List.range_eq_range', List.range_eq_range']
    simpa using List.range'_append_1 (s := 0) (m := g.arrived)
  bounded hcap := by
    rw [hmove.cap_eq] at hcap ⊢
    exact hmove.bounded hcap (ht.bounded hcap)
  held batch attempt final hphase := by
    cases hmove with
    | finalDrain _ _ hsome =>
      cases hphase
      exact hsome
    | drain _ hsome =>
      cases hphase
      exact hsome
    | retry batch attempt final hphase' =>
      cases hphase
      exact ht.held _ _ _ hphase'
    | arrive => exact ht.held _ _ _ hphase
    | signal => exact ht.held _ _ _ hphase
    | accepted batch attempt final => cases final <;> cases hphase
    | _ => cases hphase
  lost hlost := by
    rw [List.flatMap_append] at hlost
    by_cases hbefore : h.flatMap Event.losses = []
    · rw [hbefore, List.nil_append] at hlost
      exact Or.inl (hmove.losses hlost)
    · rcases ht.lost hbefore with hphase | hphase
      · exact hmove.stops hphase
      · have hlive := hmove.not_exited
        rw [hphase] at hlive
        cases hlive
  raised := by
    have hlive := hmove.not_exited
    have hbefore : h.flatMap Event.raises = [] := by
      by_contra hne
      rw [ht.raised.mp hne] at hlive
      cases hlive
    rw [List.flatMap_append, hbefore, List.nil_append]
    exact hmove.raises ht.held

theorem run_tally {maxBuffer : Int} {inputs : List Input} {g : Gateway} {h : List Event}
    (hrun : gateway.run (.start maxBuffer) inputs = some (g, h)) : Tally h g :=
  gateway.run_induction (I := Tally) (fun _ _ _ _ _ ht _ hstep => ht.step (step_moves hstep)) (h := [])
    (.start maxBuffer) (gateway.along_true _ _) hrun

/-! ## Conservation -/

/-- Every entry that arrived is in the buffer, or in the batch of the main thread, or confirmed, or dropped and counted,
or was in the batch of the final flush, which was reported as lost. -/
structure Conserved (h : List Event) (g : Gateway) : Prop where
  accounted : (h.flatMap Event.arrivals).Perm (g.buffer ++ g.phase.inFlight ++ h.flatMap Event.confirms ++
    h.flatMap Event.drops ++ h.flatMap Event.losses)
  counted : g.droppedCount = (h.flatMap Event.drops).length
  reported : h.flatMap Event.losses ≠ [] → g.phase = .stopping ∨ g.phase = .stopped

theorem Tally.perm {h : List Event} {g : Gateway} (ht : Tally h g) :
    (h.flatMap Event.arrivals).Perm (g.buffer ++ g.phase.inFlight ++ h.flatMap Event.confirms ++
      h.flatMap Event.drops ++ h.flatMap Event.losses ++ h.flatMap Event.raises) := by
  rw [List.perm_iff_count]
  intro a
  simp only [List.count_append]
  exact ht.sum a

theorem Tally.conserved_iff {h : List Event} {g : Gateway} (ht : Tally h g) :
    Conserved h g ↔ h.flatMap Event.raises = [] := by
  have hperm := ht.perm
  constructor
  · intro hc
    have hlen := (hc.accounted.symm.trans hperm).length_eq
    simp only [List.length_append] at hlen
    exact List.eq_nil_of_length_eq_zero (by omega)
  · intro hnone
    rw [hnone, List.append_nil] at hperm
    exact ⟨hperm, ht.dropped, ht.lost⟩

theorem Moves.raises_iff {g g' : Gateway} {x : Input} {out : List Event} (hmove : Moves g x g' out)
    (hheld : ∀ batch attempt final, g.phase = .inserting batch attempt final → batch ≠ []) :
    out.flatMap Event.raises ≠ [] ↔ ∃ reply, x = .attempt reply ∧ BadReply reply := by
  have hgood {reply : Reply} (hne : HasuraClient.attempt reply ≠ .raises) :
      ¬ ∃ reply', Input.attempt reply = .attempt reply' ∧ BadReply reply' := by
    rintro ⟨reply', heq, hbad⟩
    cases heq
    exact hne ((attempt_raises_iff reply).mpr hbad)
  cases hmove with
  | accepted batch attempt final hphase hreply =>
    refine iff_of_false ?_ (hgood (by rw [hreply]; nofun))
    cases final <;> simp
  | retry batch attempt final hphase hreply =>
    exact iff_of_false (by simp) (hgood (by rw [hreply]; nofun))
  | failed batch attempt hphase hreply =>
    refine iff_of_false (by simp) (hgood ?_)
    rcases hreply with hreply | ⟨hreply, -⟩ <;> rw [hreply] <;> nofun
  | lost batch attempt hphase hreply =>
    refine iff_of_false (by simp) (hgood ?_)
    rcases hreply with hreply | ⟨hreply, -⟩ <;> rw [hreply] <;> nofun
  | raised batch attempt final hphase hbad =>
    exact iff_of_true (by simpa using hheld batch attempt final hphase) ⟨_, rfl, hbad⟩
  | _ => exact iff_of_false (by simp) nofun

/-- The process ends with the first bad reply. -/
theorem run_raises_iff {maxBuffer : Int} {inputs : List Input} {g : Gateway} {h : List Event}
    (hrun : gateway.run (.start maxBuffer) inputs = some (g, h)) :
    h.flatMap Event.raises = [] ↔ ∀ reply, .attempt reply ∈ inputs → ¬ BadReply reply := by
  refine gateway.run_snoc_induction
    (I := fun inputs h _ => h.flatMap Event.raises = [] ↔ ∀ reply, .attempt reply ∈ inputs → ¬ BadReply reply)
    (by simp) ?_ (gateway.along_true _ _) hrun
  intro before h g x g' out hbefore ih _ hstep
  have hiff := (step_moves hstep).raises_iff (run_tally hbefore).held
  rw [List.flatMap_append, List.append_eq_nil_iff, ih]
  simp only [List.mem_append, List.mem_singleton]
  constructor
  · rintro ⟨hbefore, hnow⟩ reply (hmem | rfl)
    · exact hbefore reply hmem
    · exact fun hbad => hiff.mpr ⟨reply, rfl, hbad⟩ hnow
  · intro hall
    refine ⟨fun reply hmem => hall reply (Or.inl hmem), ?_⟩
    by_contra hne
    obtain ⟨reply, rfl, hbad⟩ := hiff.mp hne
    exact hall reply (Or.inr rfl) hbad

/-- **Conservation.** No entry is missing exactly as long as no reply is one that `insert_telemetry_batch` raises on;
on all others it returns a boolean. -/
theorem conservation (maxBuffer : Int) (inputs : List Input) (g : Gateway) (h : List Event)
    (hrun : gateway.run (.start maxBuffer) inputs = some (g, h)) :
    (Conserved h g ↔ ∀ reply, .attempt reply ∈ inputs → ¬ BadReply reply) ∧
      ∀ (batch : List Arrival) (replies : Nat → Reply), batch ≠ [] →
        ((insertTelemetryBatch batch replies).isSome = true ↔
          ∀ i < retryBackoffs.length, (∀ j < i, attempt (replies j) = .retry) → ¬ BadReply (replies i)) :=
  ⟨(run_tally hrun).conserved_iff.trans (run_raises_iff hrun), fun _ replies hne =>
    insertTelemetryBatch_returns_iff hne replies⟩

def sampleEntry : Entry := ⟨"2026-01-01T00:00:00+00:00", "1", 5, "RUNNING"⟩

/-- Three times 503, then everything is put back. -/
def unavailable : List Input :=
  [.arrive sampleEntry, .advance, .advance, .attempt (.response 503 .notJson), .attempt (.response 503 .notJson),
    .attempt .requestException, .advance, .advance]

theorem conservation_unavailable : ∃ g h, gateway.run (.start 1000) unavailable = some (g, h) ∧ Conserved h g := by
  refine ⟨_, _, rfl, (conservation 1000 unavailable _ _ rfl).1.mpr ?_⟩
  intro reply hmem hbad
  simp only [unavailable, List.mem_cons, List.not_mem_nil, reduceCtorEq, Input.attempt.injEq, false_or, or_false] at hmem
  rcases hmem with rfl | rfl | rfl <;> cases hbad

/-- A 200 whose body is an object with `null` for its data. -/
theorem batch_vanishes :
    ¬ ∀ maxBuffer inputs g h, gateway.run (.start maxBuffer) inputs = some (g, h) → Conserved h g := by
  intro hall
  have hc := hall 1000
    [.arrive sampleEntry, .advance, .advance, .attempt (.response 200 (.json (.obj [("data", .null)])))] _ _ rfl
  have hlen := hc.accounted.length_eq
  revert hlen
  decide

end IbarraGateway.GatewayTranslator
