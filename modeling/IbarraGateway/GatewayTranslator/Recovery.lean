import IbarraGateway.GatewayTranslator.Requeue

/-!
# Recovery after an outage

From any moment of any run: once Hasura accepts, what is waiting in the gateway, in the buffer, in a POST or on its way back
into the buffer, is inserted after a number of steps of the main thread that is known at that moment (`steps`), whatever
arrives meanwhile, unless the bound of the buffer drops it.
-/

namespace IbarraGateway.GatewayTranslator

open BoundedFifo HasuraClient

/-- What is in the gateway. -/
def Gateway.waiting (g : Gateway) : List Arrival := g.phase.inFlight ++ g.buffer

/-- The steps of the main thread until it has inserted what is in the gateway now. -/
def Phase.steps : Phase → Nat
  | .loopHead => 3
  | .sleeping => 2
  | .inserting _ _ _ => 4
  | .requeueing rest => rest.length + 4
  | _ => 0

/-- A step of the main thread. -/
def Input.ofMain : Input → Bool
  | .advance => true
  | .attempt _ => true
  | _ => false

/-- No shutdown, and Hasura accepts. -/
def Healthy : Input → Prop
  | .signal => False
  | .attempt reply => HasuraClient.attempt reply = .accepted
  | _ => True

/-- The main loop runs. -/
def Gateway.Looping (g : Gateway) : Prop :=
  g.shutdownRequested = false ∧ g.phase.exited = false ∧ g.phase ≠ .stopping ∧
    ∀ batch attempt, g.phase ≠ .inserting batch attempt true

/-- Inserted or dropped. -/
def Done (out : List Event) (a : Arrival) : Prop := a ∈ out.flatMap Event.confirms ∨ a ∈ out.flatMap Event.drops

theorem Done.append {out : List Event} {a : Arrival} (h : Done out a) (more : List Event) : Done (out ++ more) a := by
  rw [Done, List.flatMap_append, List.flatMap_append]
  exact h.imp (List.mem_append_left _) (List.mem_append_left _)

/-- Where the entries are that are not done, and how many steps of the main thread they need. -/
inductive Owing (entries : List Arrival) (out : List Event) (g : Gateway) (n : Nat) : Prop
  | done (hall : ∀ a ∈ entries, Done out a)
  | loopHead (hphase : g.phase = .loopHead) (hplace : ∀ a ∈ entries, Done out a ∨ a ∈ g.buffer) (hn : 3 ≤ n)
  | sleeping (hphase : g.phase = .sleeping) (hplace : ∀ a ∈ entries, Done out a ∨ a ∈ g.buffer) (hn : 2 ≤ n)
  | lastBatch {batch : List Arrival} {attempt : Nat} (hphase : g.phase = .inserting batch attempt false)
      (hplace : ∀ a ∈ entries, Done out a ∨ a ∈ batch) (hn : 1 ≤ n)
  | batch {batch : List Arrival} {attempt : Nat} (hphase : g.phase = .inserting batch attempt false)
      (hplace : ∀ a ∈ entries, Done out a ∨ a ∈ batch ∨ a ∈ g.buffer) (hn : 4 ≤ n)
  | requeueing {rest : List Arrival} (hphase : g.phase = .requeueing rest)
      (hplace : ∀ a ∈ entries, Done out a ∨ a ∈ rest ∨ a ∈ g.buffer) (hn : rest.length + 4 ≤ n)

section
variable {entries : List Arrival} {out more : List Event} {g g' : Gateway} {n : Nat}

/-- A push keeps an entry in the buffer or drops it. -/
theorem kept_or_dropped (cap : Nat) {q : List Arrival} {a x : Arrival} (ha : a ∈ q) :
    a ∈ push cap q x ∨ a ∈ evicted cap q := by
  have hmem : a ∈ evicted cap q ++ push cap q x := by
    rw [evicted_append_push]
    exact List.mem_append_left _ ha
  exact (List.mem_append.mp hmem).symm

/-- An entry of the buffer, after a push. -/
theorem Done.or_pushed {a x : Arrival} {before : List Event} (ha : a ∈ g.buffer)
    (hdrops : before.flatMap Event.drops = evicted g.cap g.buffer) : Done (out ++ before) a ∨ a ∈ push g.cap g.buffer x := by
  rcases kept_or_dropped g.cap (x := x) ha with hkept | hgone
  · exact .inr hkept
  · refine .inl (.inr ?_)
    rw [List.flatMap_append, hdrops]
    exact List.mem_append_right _ hgone

/-- An arrival costs no step. -/
theorem Owing.arrive (h : Owing entries out g n) (data : Entry) :
    Owing entries (out ++ .arrived ⟨g.arrived, data⟩ :: (evicted g.cap g.buffer).map .dropped)
      { g with
        arrived := g.arrived + 1
        buffer := push g.cap g.buffer ⟨g.arrived, data⟩
        droppedCount := g.droppedCount + (evicted g.cap g.buffer).length } n := by
  have hdrops : (Event.arrived ⟨g.arrived, data⟩ :: (evicted g.cap g.buffer).map .dropped).flatMap Event.drops =
      evicted g.cap g.buffer := by simp
  have hmore {a : Arrival} (ha : Done out a) := ha.append (.arrived ⟨g.arrived, data⟩ :: (evicted g.cap g.buffer).map .dropped)
  have hpush {a : Arrival} (ha : a ∈ g.buffer) :
      Done (out ++ .arrived ⟨g.arrived, data⟩ :: (evicted g.cap g.buffer).map .dropped) a ∨
        a ∈ push g.cap g.buffer ⟨g.arrived, data⟩ := Done.or_pushed ha hdrops
  cases h with
  | done hall => exact .done fun a ha => hmore (hall a ha)
  | loopHead hphase hplace hn => exact .loopHead hphase (fun a ha => (hplace a ha).elim (.inl ∘ hmore) hpush) hn
  | sleeping hphase hplace hn => exact .sleeping hphase (fun a ha => (hplace a ha).elim (.inl ∘ hmore) hpush) hn
  | lastBatch hphase hplace hn => exact .lastBatch hphase (fun a ha => (hplace a ha).imp_left hmore) hn
  | batch hphase hplace hn =>
    refine .batch hphase (fun a ha => ?_) hn
    rcases hplace a ha with hdone | hbatch | hbuffer
    · exact .inl (hmore hdone)
    · exact .inr (.inl hbatch)
    · exact (hpush hbuffer).imp_right .inr
  | requeueing hphase hplace hn =>
    refine .requeueing hphase (fun a ha => ?_) hn
    rcases hplace a ha with hdone | hrest | hbuffer
    · exact .inl (hmore hdone)
    · exact .inr (.inl hrest)
    · exact (hpush hbuffer).imp_right .inr

/-- **Step lemma**: every step of the main thread brings them nearer. -/
theorem Owing.main {x : Input} (h : Owing entries out g (n + 1)) (hlooping : g.Looping) (hx : x.ofMain = true)
    (hhealthy : Healthy x) (hmove : Moves g x g' more) : Owing entries (out ++ more) g' n := by
  obtain ⟨hgoing, -, hstopping, hfinal⟩ := hlooping
  by_cases hall : ∀ a ∈ entries, Done out a
  · exact .done fun a ha => (hall a ha).append more
  cases hmove with
  | arrive data => cases hx
  | signal => cases hx
  | sleep hphase =>
    rw [List.append_nil]
    cases h with
    | done hdone => exact .done hdone
    | loopHead _ hplace hn => exact .sleeping rfl hplace (by omega)
    | sleeping hother => simp [hphase] at hother
    | lastBatch hother => simp [hphase] at hother
    | batch hother => simp [hphase] at hother
    | requeueing hother => simp [hphase] at hother
  | finalEmpty _ hdown => simp [hgoing] at hdown
  | finalDrain _ hdown => simp [hgoing] at hdown
  | drainEmpty hphase hnone =>
    rw [List.append_nil]
    cases h with
    | done hdone => exact .done hdone
    | sleeping _ hplace => exact .done fun a ha => (hplace a ha).resolve_right (by simp [hnone])
    | loopHead hother => simp [hphase] at hother
    | lastBatch hother => simp [hphase] at hother
    | batch hother => simp [hphase] at hother
    | requeueing hother => simp [hphase] at hother
  | drain hphase =>
    rw [List.append_nil]
    cases h with
    | done hdone => exact .done hdone
    | sleeping _ hplace hn => exact .lastBatch rfl hplace (by omega)
    | loopHead hother => simp [hphase] at hother
    | lastBatch hother => simp [hphase] at hother
    | batch hother => simp [hphase] at hother
    | requeueing hother => simp [hphase] at hother
  | requeue entry rest hphase =>
    have hdrops : ((evicted g.cap g.buffer).map Event.dropped).flatMap Event.drops = evicted g.cap g.buffer := by simp
    cases h with
    | done hdone => exact .done fun a ha => (hdone a ha).append _
    | requeueing hother hplace hn =>
      rw [hphase] at hother
      cases hother
      refine .requeueing rfl (fun a ha => ?_) (by simp at hn; omega)
      rcases hplace a ha with hdone | hrest | hbuffer
      · exact .inl (hdone.append _)
      · rcases List.mem_cons.mp hrest with rfl | hrest
        · exact .inr (.inr (mem_push_self _ _ _))
        · exact .inr (.inl hrest)
      · exact (Done.or_pushed hbuffer hdrops).imp_right .inr
    | loopHead hother => simp [hphase] at hother
    | sleeping hother => simp [hphase] at hother
    | lastBatch hother => simp [hphase] at hother
    | batch hother => simp [hphase] at hother
  | requeued hphase =>
    rw [List.append_nil]
    cases h with
    | done hdone => exact .done hdone
    | requeueing hother hplace hn =>
      rw [hphase] at hother
      cases hother
      refine .loopHead rfl (fun a ha => ?_) (by simp at hn; omega)
      simpa using hplace a ha
    | loopHead hother => simp [hphase] at hother
    | sleeping hother => simp [hphase] at hother
    | lastBatch hother => simp [hphase] at hother
    | batch hother => simp [hphase] at hother
  | stop hphase => exact absurd hphase hstopping
  | @accepted reply batch attempt final hphase hreply =>
    have hconfirmed {a : Arrival} (ha : a ∈ batch) : Done (out ++ [.posted batch reply, .confirmed batch]) a := by
      refine .inl ?_
      rw [List.flatMap_append]
      exact List.mem_append_right _ (by simpa using ha)
    cases final with
    | true => exact absurd hphase (hfinal batch attempt)
    | false =>
      cases h with
      | done hdone => exact .done fun a ha => (hdone a ha).append _
      | lastBatch hother hplace =>
        rw [hphase] at hother
        cases hother
        exact .done fun a ha => (hplace a ha).elim (fun hdone => hdone.append _) hconfirmed
      | batch hother hplace hn =>
        rw [hphase] at hother
        cases hother
        refine .loopHead rfl (fun a ha => ?_) (by omega)
        rcases hplace a ha with hdone | hbatch | hbuffer
        · exact .inl (hdone.append _)
        · exact .inl (hconfirmed hbatch)
        · exact .inr hbuffer
      | loopHead hother => simp [hphase] at hother
      | sleeping hother => simp [hphase] at hother
      | requeueing hother => simp [hphase] at hother
  | retry batch attempt final hphase hreply =>
    rw [show HasuraClient.attempt _ = .accepted from hhealthy] at hreply
    cases hreply
  | failed batch attempt hphase hreply =>
    rw [show HasuraClient.attempt _ = .accepted from hhealthy] at hreply
    rcases hreply with hreply | ⟨hreply, -⟩ <;> cases hreply
  | lost batch attempt hphase hreply => exact absurd hphase (hfinal batch attempt)
  | raised batch attempt final hphase hbad =>
    have hraises := (attempt_raises_iff _).mpr hbad
    rw [show HasuraClient.attempt _ = .accepted from hhealthy] at hraises
    cases hraises

theorem Owing.ended (h : Owing entries out g 0) : ∀ a ∈ entries, Done out a := by
  cases h with
  | done hall => exact hall
  | loopHead _ _ hn => omega
  | sleeping _ _ hn => omega
  | lastBatch _ _ hn => omega
  | batch _ _ hn => omega
  | requeueing _ _ hn => omega

theorem Gateway.Looping.step {x : Input} (hlooping : g.Looping) (hhealthy : Healthy x) (hmove : Moves g x g' more) : g'.Looping := by
  obtain ⟨hgoing, hlive, hstopping, hfinal⟩ := hlooping
  cases hmove with
  | arrive data => exact ⟨hgoing, hlive, hstopping, hfinal⟩
  | signal => exact False.elim hhealthy
  | sleep => exact ⟨hgoing, rfl, by simp, by simp⟩
  | finalEmpty _ hdown => simp [hgoing] at hdown
  | finalDrain _ hdown => simp [hgoing] at hdown
  | drainEmpty => exact ⟨hgoing, rfl, by simp, by simp⟩
  | drain => exact ⟨hgoing, rfl, by simp, by simp⟩
  | requeue => exact ⟨hgoing, rfl, by simp, by simp⟩
  | requeued => exact ⟨hgoing, rfl, by simp, by simp⟩
  | stop hphase => exact absurd hphase hstopping
  | accepted batch attempt final hphase =>
    cases final with
    | true => exact absurd hphase (hfinal batch attempt)
    | false => exact ⟨hgoing, rfl, by simp, by simp⟩
  | retry batch attempt final hphase =>
    cases final with
    | true => exact absurd hphase (hfinal batch attempt)
    | false => exact ⟨hgoing, rfl, by simp, by simp⟩
  | failed => exact ⟨hgoing, rfl, by simp, by simp⟩
  | lost batch attempt hphase => exact absurd hphase (hfinal batch attempt)
  | raised batch attempt final hphase hbad =>
    have hraises := (attempt_raises_iff _).mpr hbad
    rw [show HasuraClient.attempt _ = .accepted from hhealthy] at hraises
    cases hraises

/-- What is waiting needs no more than `steps`. -/
theorem owing_waiting (hlooping : g.Looping) : Owing g.waiting [] g g.phase.steps := by
  obtain ⟨-, hlive, hstopping, hfinal⟩ := hlooping
  have hplace : ∀ a ∈ g.waiting, a ∈ g.phase.inFlight ∨ a ∈ g.buffer := fun a ha => List.mem_append.mp ha
  cases hphase : g.phase with
  | loopHead => exact .loopHead hphase (fun a ha => .inr ((hplace a ha).resolve_left (by simp [hphase]))) le_rfl
  | sleeping => exact .sleeping hphase (fun a ha => .inr ((hplace a ha).resolve_left (by simp [hphase]))) le_rfl
  | inserting batch attempt final =>
    cases final with
    | true => exact absurd hphase (hfinal batch attempt)
    | false => exact .batch hphase (fun a ha => .inr (by simpa [hphase] using hplace a ha)) le_rfl
  | requeueing rest => exact .requeueing hphase (fun a ha => .inr (by simpa [hphase] using hplace a ha)) le_rfl
  | stopping => exact absurd hphase hstopping
  | stopped => simp [hphase, Phase.exited] at hlive
  | crashed => simp [hphase, Phase.exited] at hlive

/-- The steps of a run, one by one. -/
theorem owing_run {inputs : List Input} (h : Owing entries out g n) (hlooping : g.Looping) (hhealthy : ∀ x ∈ inputs, Healthy x)
    (hsteps : n ≤ inputs.countP Input.ofMain) (hrun : gateway.run g inputs = some (g', more)) :
    ∀ a ∈ entries, Done (out ++ more) a := by
  induction inputs generalizing g n out more with
  | nil =>
    cases hrun
    obtain rfl : n = 0 := by simpa using hsteps
    rw [List.append_nil]
    exact h.ended
  | cons x inputs ih =>
    obtain ⟨hx, hrest⟩ := List.forall_mem_cons.mp hhealthy
    obtain ⟨g₁, first, outs, hstep, htail, rfl⟩ := gateway.run_cons_iff.mp hrun
    have hmove := step_moves hstep
    rw [List.countP_cons] at hsteps
    rw [← List.append_assoc]
    cases hmain : x.ofMain with
    | true =>
      rw [hmain, if_pos rfl] at hsteps
      rcases n with _ | n
      · exact fun a ha => ((h.ended a ha).append first).append outs
      · exact ih (h.main hlooping hmain hx hmove) (hlooping.step hx hmove) hrest (by omega) htail
    | false =>
      rw [hmain, if_neg (by simp), Nat.add_zero] at hsteps
      have hlater := hlooping.step hx hmove
      cases hmove with
      | arrive data => exact ih (h.arrive data) hlater hrest hsteps htail
      | signal => exact False.elim hx
      | _ => cases hmain

end

/-- **Recovery.** At any moment of any run at which no shutdown was asked for and no reply has ended the process: when from
then on Hasura accepts, everything in the gateway has been inserted, or dropped for the bound of the buffer, as soon as the
main thread has made `steps` steps, and nothing was inserted twice. -/
theorem recovers (maxBuffer : Int) (inputs later : List Input) (g g' : Gateway) (h out : List Event)
    (hrun : gateway.run (.start maxBuffer) inputs = some (g, h)) (hlooping : g.Looping)
    (hlater : gateway.run g later = some (g', out)) (hhealthy : ∀ x ∈ later, Healthy x)
    (hsteps : g.phase.steps ≤ later.countP Input.ofMain) :
    (∀ a ∈ g.waiting, Done out a) ∧ ((h ++ out).flatMap Event.confirms).Nodup := by
  refine ⟨?_, ?_⟩
  · have hdone := owing_run (owing_waiting hlooping) hlooping hhealthy hsteps hlater
    rwa [List.nil_append] at hdone
  · have htally := run_tally (gateway.run_append_iff.mpr ⟨g, h, out, hrun, hlater, rfl⟩)
    rw [List.nodup_iff_count_le_one]
    intro a
    have hsum := htally.sum a
    have hle := htally.count_le a
    omega

/-- A reply that is accepted. -/
def insertedReply : Reply := .response 200 (.json (.obj [("data", .obj [])]))

/-- The gateway after `unavailable`: everything was put back. -/
def afterOutage : Gateway := ⟨[⟨0, sampleEntry⟩], 1000, 0, 1, false, .loopHead⟩

def nextPass : List Input := [.advance, .advance, .attempt insertedReply]

/-- The next pass of the loop inserts it. -/
theorem recovers_unavailable :
    Done [.posted [⟨0, sampleEntry⟩] insertedReply, .confirmed [⟨0, sampleEntry⟩]] ⟨0, sampleEntry⟩ := by
  have hhealthy : ∀ x ∈ nextPass, Healthy x := by
    intro x hx
    simp only [nextPass, List.mem_cons, List.not_mem_nil, or_false] at hx
    rcases hx with rfl | rfl | rfl
    · trivial
    · trivial
    · show HasuraClient.attempt insertedReply = .accepted
      decide
  have hwaiting : ⟨0, sampleEntry⟩ ∈ afterOutage.waiting := by simp [afterOutage, Gateway.waiting]
  exact (recovers 1000 unavailable nextPass afterOutage ⟨[], 1000, 0, 1, false, .loopHead⟩ _ _ rfl
    ⟨rfl, rfl, by simp [afterOutage], by simp [afterOutage]⟩ rfl hhealthy (by decide)).1 _ hwaiting

end IbarraGateway.GatewayTranslator
