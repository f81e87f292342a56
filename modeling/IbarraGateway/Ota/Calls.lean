import IbarraGateway.Ota.Rollback
import Mathlib.Logic.Function.Basic

/-!
# Calls of `on_ota_command`

Several threads may call `on_ota_command` of one manager. A call is divided where another can get in: the
compare-and-set of `state_`, the parsing, and the end of each step, whose outcome is free. The trace of a call is known
from where the call stands (`CallTrace`), and only the call that found the manager idle has one that goes further than
the busy report.

* `calls_trace` : in every run each call has its trace, at most one got past the guard, and the lock is held only while
  that one is behind it.
* `order_and_atomicity` : what this says about the steps.
* `onOtaCommand_calls` : a call that runs alone does what `onOtaCommand` does.
-/

namespace IbarraGateway.Ota.Calls

/-! ## Steps -/

inductive Step
  | validate
  | lock
  | download
  | verifyChecksum
  | backup
  | apply
  | restartVision
  | confirmHealth
  deriving DecidableEq, Repr, Inhabited

namespace Step

/-- The order of the steps in the source. -/
def order : List Step :=
  [validate, lock, download, verifyChecksum, backup, apply, restartVision, confirmHealth]

def next : Step → Option Step
  | validate => some lock
  | lock => some download
  | download => some verifyChecksum
  | verifyChecksum => some backup
  | backup => some apply
  | apply => some restartVision
  | restartVision => some confirmHealth
  | confirmHealth => none

/-- The state that is set in front of the step. `VALIDATING` is set by the guard; the lock has no state. -/
def enters : Step → Option State
  | validate => none
  | lock => none
  | download => some .downloading
  | verifyChecksum => some .verifying
  | backup => some .backingUp
  | apply => some .applying
  | restartVision => some .restarting
  | confirmHealth => some .confirming

/-- The step runs with the lock held. -/
def locked : Step → Bool
  | validate => false
  | lock => false
  | _ => true

end Step

/-! ## The machine -/

/-- Where a call stands. -/
inductive Pc
  | notArrived
  | parsing (json : Text)
  | running (step : Step)
  | returned
  deriving DecidableEq, Repr

/-- The manager and the calls. -/
structure Agent where
  state : State
  pendingCmd : OtaCommand
  lockHeld : Bool
  pc : Nat → Pc

def Agent.fresh : Agent where
  state := .idle
  pendingCmd := ⟨[], [], [], [], []⟩
  lockHeld := false
  pc := fun _ => .notArrived

inductive Event
  | busy (call : Nat)
  | entered (call : Nat) (state : State)
  | started (call : Nat) (step : Step)
  | finished (call : Nat) (step : Step) (ok : Bool)
  | released (call : Nat)
  | returned (call : Nat)
  deriving DecidableEq, Repr

def Event.call : Event → Nat
  | .busy call => call
  | .entered call _ => call
  | .started call _ => call
  | .finished call _ _ => call
  | .released call => call
  | .returned call => call

inductive Input
  | arrive (call : Nat) (json : Text)
  | parse (call : Nat)
  | finish (call : Nat) (ok : Bool)

def Agent.goto (a : Agent) (call : Nat) (pc : Pc) : Agent := { a with pc := Function.update a.pc call pc }

/-- `compare_exchange_strong`. -/
def arrive (a : Agent) (call : Nat) (json : Text) : Agent × List Event :=
  if a.state = .idle then ({ a with state := .validating }.goto call (.parsing json), [.entered call .validating])
  else (a.goto call .returned, [.busy call, .returned call])

def parse (a : Agent) (call : Nat) (json : Text) : Agent × List Event :=
  let cmd := parseOtaCommand json
  if cmd.version = [] ∨ cmd.url = [] ∨ cmd.sha256 = [] then
    ({ a with state := .failed }.goto call .returned, [.entered call .failed, .returned call])
  else ({ a with pendingCmd := cmd }.goto call (.running .validate), [.started call .validate])

def succeed (a : Agent) (call : Nat) (step : Step) : Agent × List Event :=
  let a := { a with lockHeld := a.lockHeld || step = Step.lock }
  match step.next with
  | some next =>
    ({ a with state := next.enters.getD a.state }.goto call (.running next),
      .finished call step true :: (next.enters.toList.map (Event.entered call) ++ [.started call next]))
  | none =>
    ({ a with state := .success, lockHeld := false }.goto call .returned,
      [.finished call step true, .entered call .success, .released call, .returned call])

def fail (a : Agent) (call : Nat) (step : Step) : Agent × List Event :=
  ({ a with state := .failed, lockHeld := a.lockHeld && !step.locked }.goto call .returned,
    .finished call step false :: .entered call .failed ::
      ((if step.locked then [.released call] else []) ++ [.returned call]))

def calls : Machine Agent Input Event where
  step a
    | .arrive call json =>
      match a.pc call with
      | .notArrived => some (arrive a call json)
      | _ => none
    | .parse call =>
      match a.pc call with
      | .parsing json => some (parse a call json)
      | _ => none
    | .finish call ok =>
      match a.pc call with
      | .running step => some (if ok then succeed a call step else fail a call step)
      | _ => none

/-! ## The trace of a call -/

/-- The steps in front of a step. -/
def Step.before (step : Step) : List Step := order.takeWhile fun s => s ≠ step

theorem before_next {step next : Step} (h : step.next = some next) : next.before = step.before ++ [step] := by
  cases step <;> cases h <;> rfl

/-- The end of a step that succeeds, and the start of the next. -/
def passed (call : Nat) (step : Step) : List Event :=
  .finished call step true ::
    match step.next with
    | some next => next.enters.toList.map (Event.entered call) ++ [.started call next]
    | none => []

/-- What a call did up to the start of the step. -/
def traceTo (call : Nat) (step : Step) : List Event :=
  [.entered call .validating, .started call .validate] ++ step.before.flatMap (passed call)

/-- The end of a call whose step fails. -/
def failure (call : Nat) (step : Step) : List Event :=
  .finished call step false :: .entered call .failed ::
    ((if step.locked then [.released call] else []) ++ [.returned call])

def success (call : Nat) : List Event :=
  [.finished call .confirmHealth true, .entered call .success, .released call, .returned call]

/-- The traces of a call that stands at a place. -/
inductive CallTrace (call : Nat) : Pc → List Event → Prop
  | notArrived : CallTrace call .notArrived []
  | busy : CallTrace call .returned [.busy call, .returned call]
  | parsing (json : Text) : CallTrace call (.parsing json) [.entered call .validating]
  | missing : CallTrace call .returned [.entered call .validating, .entered call .failed, .returned call]
  | running (step : Step) : CallTrace call (.running step) (traceTo call step)
  | failed (step : Step) : CallTrace call .returned (traceTo call step ++ failure call step)
  | succeeded : CallTrace call .returned (traceTo call .confirmHealth ++ success call)

theorem traceTo_next (call : Nat) {step next : Step} (h : step.next = some next) :
    traceTo call next = traceTo call step ++ passed call step := by
  unfold traceTo
  rw [before_next h, List.flatMap_append, List.flatMap_singleton, List.append_assoc]

/-- The events of one call. -/
def eventsOf (call : Nat) (h : List Event) : List Event := h.filter fun e => e.call = call

theorem eventsOf_append (call : Nat) (h h' : List Event) :
    eventsOf call (h ++ h') = eventsOf call h ++ eventsOf call h' := List.filter_append _ _

theorem mem_eventsOf {e : Event} {h : List Event} : e ∈ eventsOf e.call h ↔ e ∈ h := by
  rw [eventsOf, List.mem_filter]
  simp

theorem eventsOf_own {call : Nat} {out : List Event} (h : ∀ e ∈ out, e.call = call) : eventsOf call out = out := by
  rw [eventsOf, List.filter_eq_self]
  intro e he
  simpa using h e he

theorem eventsOf_other {call call' : Nat} {out : List Event} (h : ∀ e ∈ out, e.call = call) (hne : call' ≠ call) :
    eventsOf call' out = [] := by
  rw [eventsOf, List.filter_eq_nil_iff]
  intro e he
  rw [h e he]
  simpa using Ne.symm hne

/-! ## One move -/

/-- What a step of the machine can do. -/
inductive Moves (a : Agent) (call : Nat) : Agent → List Event → Prop
  | guard (json : Text) (hpc : a.pc call = .notArrived) (hidle : a.state = .idle) :
    Moves a call ({ a with state := .validating }.goto call (.parsing json)) [.entered call .validating]
  | busy (hpc : a.pc call = .notArrived) (hbusy : a.state ≠ .idle) :
    Moves a call (a.goto call .returned) [.busy call, .returned call]
  | missing (json : Text) (hpc : a.pc call = .parsing json) :
    Moves a call ({ a with state := .failed }.goto call .returned) [.entered call .failed, .returned call]
  | begun (json : Text) (cmd : OtaCommand) (hpc : a.pc call = .parsing json) :
    Moves a call ({ a with pendingCmd := cmd }.goto call (.running .validate)) [.started call .validate]
  | passed (step next : Step) (hpc : a.pc call = .running step) (hnext : step.next = some next) :
    Moves a call
      ({ a with lockHeld := a.lockHeld || step = Step.lock, state := next.enters.getD a.state }.goto call (.running next))
      (passed call step)
  | succeeded (hpc : a.pc call = .running .confirmHealth) :
    Moves a call ({ a with state := .success, lockHeld := false }.goto call .returned) (success call)
  | failed (step : Step) (hpc : a.pc call = .running step) :
    Moves a call ({ a with state := .failed, lockHeld := a.lockHeld && !step.locked }.goto call .returned)
      (failure call step)

theorem step_moves {a b : Agent} {x : Input} {out : List Event} (h : calls.step a x = some (b, out)) :
    ∃ call, Moves a call b out := by
  cases x with
  | arrive call json =>
    simp only [calls] at h
    split at h
    · rename_i hpc
      have harrive := Option.some.inj h
      unfold arrive at harrive
      split at harrive
      · rename_i hidle
        cases harrive
        exact ⟨call, .guard json hpc hidle⟩
      · rename_i hbusy
        cases harrive
        exact ⟨call, .busy hpc hbusy⟩
    · cases h
  | parse call =>
    simp only [calls] at h
    split at h
    · rename_i json hpc
      have hparse := Option.some.inj h
      unfold parse at hparse
      dsimp only at hparse
      split at hparse
      · cases hparse
        exact ⟨call, .missing json hpc⟩
      · cases hparse
        exact ⟨call, .begun json _ hpc⟩
    · cases h
  | finish call ok =>
    simp only [calls] at h
    split at h
    · rename_i step hpc
      cases ok with
      | false =>
        cases h
        exact ⟨call, .failed step hpc⟩
      | true =>
        have hsucceed : succeed a call step = (b, out) := Option.some.inj h
        unfold succeed at hsucceed
        cases hnext : step.next with
        | none =>
          have hlast : step = .confirmHealth := by
            cases step <;> first | rfl | cases hnext
          subst hlast
          cases hsucceed
          exact ⟨call, .succeeded hpc⟩
        | some next =>
          rw [hnext] at hsucceed
          cases hsucceed
          have hmove := Moves.passed step next hpc hnext
          rw [Calls.passed, hnext] at hmove
          exact ⟨call, hmove⟩
    · cases h

theorem Moves.call_eq {a b : Agent} {call : Nat} {out : List Event} (h : Moves a call b out) :
    ∀ e ∈ out, e.call = call := by
  cases h with
  | guard => simp [Event.call]
  | busy => simp [Event.call]
  | missing => simp [Event.call]
  | begun => simp [Event.call]
  | passed step => cases step <;> simp [Calls.passed, Step.next, Step.enters, Event.call]
  | succeeded => simp [success, Event.call]
  | failed step => cases hl : step.locked <;> simp [failure, hl, Event.call]

theorem Moves.pc_other {a b : Agent} {call : Nat} {out : List Event} (h : Moves a call b out) {other : Nat}
    (hne : other ≠ call) : b.pc other = a.pc other := by
  cases h <;> exact Function.update_of_ne hne _ _

/-- A move extends the trace of its call. -/
theorem Moves.trace {a b : Agent} {call : Nat} {out h : List Event} (hmove : Moves a call b out)
    (htrace : CallTrace call (a.pc call) h) : CallTrace call (b.pc call) (h ++ out) := by
  cases hmove with
  | guard json hpc =>
    rw [hpc] at htrace
    cases htrace
    simp only [Agent.goto, Function.update_self]
    exact .parsing json
  | busy hpc =>
    rw [hpc] at htrace
    cases htrace
    simp only [Agent.goto, Function.update_self]
    exact .busy
  | missing json hpc =>
    rw [hpc] at htrace
    cases htrace
    simp only [Agent.goto, Function.update_self]
    exact .missing
  | begun json cmd hpc =>
    rw [hpc] at htrace
    cases htrace
    simp only [Agent.goto, Function.update_self]
    exact .running .validate
  | passed step next hpc hnext =>
    rw [hpc] at htrace
    cases htrace
    simp only [Agent.goto, Function.update_self]
    rw [← traceTo_next call hnext]
    exact .running next
  | succeeded hpc =>
    rw [hpc] at htrace
    cases htrace
    simp only [Agent.goto, Function.update_self]
    exact .succeeded
  | failed step hpc =>
    rw [hpc] at htrace
    cases htrace
    simp only [Agent.goto, Function.update_self]
    exact .failed step

/-! ## The invariant -/

/-- A call is known to have got past the guard. -/
def Entered (h : List Event) (call : Nat) : Prop := .entered call .validating ∈ h

structure Tracked (h : List Event) (a : Agent) : Prop where
  trace : ∀ call, CallTrace call (a.pc call) (eventsOf call h)
  single : ∀ i j, Entered h i → Entered h j → i = j
  guarded : a.state = .idle ↔ ∀ call, ¬ Entered h call
  running : ∀ call step, a.pc call = .running step → a.lockHeld = step.locked
  unheld : (∀ call step, a.pc call ≠ .running step) → a.lockHeld = false

theorem tracked_fresh : Tracked [] .fresh where
  trace _ := .notArrived
  single _ _ hi := absurd hi List.not_mem_nil
  guarded := ⟨fun _ _ h => List.not_mem_nil h, fun _ => rfl⟩
  running _ _ h := by cases h
  unheld _ := rfl

theorem entered_eventsOf {h : List Event} {call : Nat} :
    Entered h call ↔ .entered call .validating ∈ eventsOf call h :=
  (mem_eventsOf (e := .entered call .validating)).symm

theorem mem_traceTo_entered (call : Nat) (step : Step) : .entered call .validating ∈ traceTo call step :=
  List.mem_append_left _ List.mem_cons_self

/-- Parsing and running calls got past the guard. -/
theorem Tracked.entered {h : List Event} {a : Agent} (ht : Tracked h a) {call : Nat}
    (hpc : a.pc call ≠ .notArrived) (hpc' : a.pc call ≠ .returned) : Entered h call := by
  rw [entered_eventsOf]
  have htrace := ht.trace call
  generalize a.pc call = pc at htrace hpc hpc'
  generalize eventsOf call h = events at htrace ⊢
  cases htrace with
  | notArrived => exact absurd rfl hpc
  | parsing => exact List.mem_singleton_self _
  | running step => exact mem_traceTo_entered call step
  | busy => exact absurd rfl hpc'
  | missing => exact absurd rfl hpc'
  | failed => exact absurd rfl hpc'
  | succeeded => exact absurd rfl hpc'

theorem Tracked.not_idle {h : List Event} {a : Agent} (ht : Tracked h a) {call : Nat} (he : Entered h call) :
    a.state ≠ .idle := fun hidle => ht.guarded.mp hidle call he

theorem Moves.trace_all {a b : Agent} {call : Nat} {out h : List Event} (hmove : Moves a call b out)
    (ht : Tracked h a) (other : Nat) : CallTrace other (b.pc other) (eventsOf other (h ++ out)) := by
  rw [eventsOf_append]
  by_cases hne : other = call
  · subst hne
    rw [eventsOf_own hmove.call_eq]
    exact hmove.trace (ht.trace other)
  · rw [eventsOf_other hmove.call_eq hne, List.append_nil, hmove.pc_other hne]
    exact ht.trace other

/-- Only the guard lets a call in. -/
theorem Moves.entered_iff {a b : Agent} {call : Nat} {out h : List Event} (hmove : Moves a call b out)
    (hlater : a.state ≠ .idle) (other : Nat) : Entered (h ++ out) other ↔ Entered h other := by
  unfold Entered
  rw [List.mem_append, or_iff_left_iff_imp]
  cases hmove with
  | guard json hpc hidle => exact absurd hidle hlater
  | busy => simp
  | missing => simp
  | begun => simp
  | passed step => cases step <;> simp [Calls.passed, Step.next, Step.enters]
  | succeeded => simp [success]
  | failed step => cases hl : step.locked <;> simp [failure, hl]

theorem Moves.state_ne_idle {a b : Agent} {call : Nat} {out : List Event} (hmove : Moves a call b out)
    (hlater : a.state ≠ .idle) : b.state ≠ .idle := by
  cases hmove with
  | guard => exact nofun
  | busy => exact hlater
  | missing => exact nofun
  | begun => exact hlater
  | passed step next =>
    show next.enters.getD a.state ≠ .idle
    cases next <;> first | exact hlater | exact nofun
  | succeeded => exact nofun
  | failed => exact nofun

theorem Tracked.running_entered {h : List Event} {a : Agent} (ht : Tracked h a) {call : Nat} {step : Step}
    (hpc : a.pc call = .running step) : Entered h call :=
  ht.entered (by rw [hpc]; exact nofun) (by rw [hpc]; exact nofun)

/-- While a call is past the guard no other runs. -/
theorem Tracked.alone {h : List Event} {a b : Agent} (ht : Tracked h a) {call : Nat} (he : Entered h call)
    {pc : Pc} (hb : b.pc = Function.update a.pc call pc) {other : Nat} {step : Step}
    (hrun : b.pc other = .running step) : other = call ∧ pc = .running step := by
  rw [hb] at hrun
  by_cases hne : other = call
  · subst hne
    rw [Function.update_self] at hrun
    exact ⟨rfl, hrun⟩
  · rw [Function.update_of_ne hne] at hrun
    exact absurd (ht.single _ _ (ht.running_entered hrun) he) hne

/-- While a command is parsed, nothing is locked. -/
theorem Tracked.unheld_of_parsing {a : Agent} {call : Nat} {json : Text} {h : List Event} (ht : Tracked h a)
    (hpc : a.pc call = .parsing json) : a.lockHeld = false := by
  have he := ht.entered (by rw [hpc]; exact nofun) (by rw [hpc]; exact nofun)
  apply ht.unheld
  intro c step hrun
  have hc := ht.single _ _ (ht.running_entered hrun) he
  rw [hc, hpc] at hrun
  cases hrun

/-- The lock is held exactly behind the `lock` step. -/
theorem Moves.lock {a b : Agent} {call : Nat} {out h : List Event} (hmove : Moves a call b out) (ht : Tracked h a) :
    (∀ c step, b.pc c = .running step → b.lockHeld = step.locked) ∧
      ((∀ c step, b.pc c ≠ .running step) → b.lockHeld = false) := by
  have hunchanged : a.pc call = .notArrived → ∀ pc, (∀ step, pc ≠ .running step) →
      b.pc = Function.update a.pc call pc → b.lockHeld = a.lockHeld →
      (∀ c step, b.pc c = .running step → b.lockHeld = step.locked) ∧
        ((∀ c step, b.pc c ≠ .running step) → b.lockHeld = false) := by
    intro hpc pc hquiet hb hl
    have hsame : ∀ c step, b.pc c = .running step ↔ a.pc c = .running step := by
      intro c step
      rw [hb]
      by_cases hc : c = call
      · subst hc
        rw [Function.update_self, hpc]
        exact ⟨fun h => absurd h (hquiet step), nofun⟩
      · rw [Function.update_of_ne hc]
    refine ⟨fun c step hrun => hl.trans (ht.running c step ((hsame c step).mp hrun)), fun hnone => hl.trans ?_⟩
    exact ht.unheld fun c step hrun => hnone c step ((hsame c step).mpr hrun)
  cases hmove with
  | guard json hpc => exact hunchanged hpc (.parsing json) (fun _ => nofun) rfl rfl
  | busy hpc => exact hunchanged hpc .returned (fun _ => nofun) rfl rfl
  | missing json hpc =>
    have he := ht.entered (by rw [hpc]; exact nofun) (by rw [hpc]; exact nofun)
    refine ⟨fun c step hrun => ?_, fun _ => ht.unheld_of_parsing hpc⟩
    cases (ht.alone he rfl hrun).2
  | begun json cmd hpc =>
    have he := ht.entered (by rw [hpc]; exact nofun) (by rw [hpc]; exact nofun)
    refine ⟨fun c step hrun => ?_, fun _ => ht.unheld_of_parsing hpc⟩
    obtain ⟨-, hstep⟩ := ht.alone he rfl hrun
    cases hstep
    exact ht.unheld_of_parsing hpc
  | passed step next hpc hnext =>
    have hheld := ht.running call step hpc
    refine ⟨fun c step' hrun => ?_, fun hnone => ?_⟩
    · obtain ⟨-, hstep⟩ := ht.alone (ht.running_entered hpc) rfl hrun
      cases hstep
      show (a.lockHeld || decide (step = Step.lock)) = next.locked
      rw [hheld]
      cases step <;> cases hnext <;> rfl
    · exact absurd (Function.update_self _ _ _) (hnone call next)
  | succeeded hpc =>
    refine ⟨fun c step hrun => ?_, fun _ => rfl⟩
    cases (ht.alone (ht.running_entered hpc) rfl hrun).2
  | failed step hpc =>
    have hheld := ht.running call step hpc
    refine ⟨fun c step' hrun => ?_, fun _ => ?_⟩
    · cases (ht.alone (ht.running_entered hpc) rfl hrun).2
    · show (a.lockHeld && !step.locked) = false
      rw [hheld]
      cases step.locked <;> rfl

/-- In an idle manager there is nothing but the guard. -/
theorem Moves.of_idle {a b : Agent} {call : Nat} {out h : List Event} (hmove : Moves a call b out) (ht : Tracked h a)
    (hidle : a.state = .idle) :
    ∃ json, b = { a with state := .validating }.goto call (.parsing json) ∧ out = [.entered call .validating] := by
  have hnone : ∀ pc, a.pc call = pc → pc ≠ .notArrived → pc = .returned := by
    intro pc hpc hne
    by_contra hne'
    exact ht.not_idle (ht.entered (by rw [hpc]; exact hne) (by rw [hpc]; exact hne')) hidle
  cases hmove with
  | guard json => exact ⟨json, rfl, rfl⟩
  | busy _ hbusy => exact absurd hidle hbusy
  | missing json hpc => cases hnone _ hpc nofun
  | begun json cmd hpc => cases hnone _ hpc nofun
  | passed step next hpc => cases hnone _ hpc nofun
  | succeeded hpc => cases hnone _ hpc nofun
  | failed step hpc => cases hnone _ hpc nofun

/-- **Step.** -/
theorem tracked_step {h : List Event} {a b : Agent} {x : Input} {out : List Event} (ht : Tracked h a)
    (hstep : calls.step a x = some (b, out)) : Tracked (h ++ out) b := by
  obtain ⟨call, hmove⟩ := step_moves hstep
  obtain ⟨hrunning, hunheld⟩ := hmove.lock ht
  by_cases hidle : a.state = .idle
  · have hnone := ht.guarded.mp hidle
    obtain ⟨json, rfl, rfl⟩ := hmove.of_idle ht hidle
    have hiff : ∀ c, Entered (h ++ [.entered call .validating]) c ↔ c = call := by
      intro c
      unfold Entered at hnone ⊢
      rw [List.mem_append, or_iff_right (hnone c), List.mem_singleton]
      simp
    refine ⟨hmove.trace_all ht, fun i j hi hj => ?_, ⟨nofun, fun hall => ?_⟩, hrunning, hunheld⟩
    · rw [(hiff i).mp hi, (hiff j).mp hj]
    · exact absurd ((hiff call).mpr rfl) (hall call)
  · refine ⟨hmove.trace_all ht, fun i j hi hj => ?_, ?_, hrunning, hunheld⟩
    · rw [hmove.entered_iff hidle] at hi hj
      exact ht.single i j hi hj
    · have hsome : ¬ ∀ c, ¬ Entered h c := fun hnone => hidle (ht.guarded.mpr hnone)
      refine ⟨fun hb => absurd hb (hmove.state_ne_idle hidle), fun hnone => absurd (fun c hc => ?_) hsome⟩
      exact hnone c ((hmove.entered_iff hidle c).mpr hc)

theorem calls_trace {inputs : List Input} {a : Agent} {h : List Event}
    (hrun : calls.run .fresh inputs = some (a, h)) : Tracked h a :=
  calls.run_induction (I := Tracked) (h := []) (fun _ _ _ _ _ ht _ hstep => tracked_step ht hstep) tracked_fresh
    (calls.along_of_mem (p := fun _ => True) (fun _ _ => trivial) _) hrun

/-! ## What a trace says -/

theorem finished_mem_passed {call : Nat} {step t : Step} {ok : Bool} :
    .finished call t ok ∈ passed call step ↔ t = step ∧ ok = true := by
  cases step <;> simp [passed, Step.next, Step.enters]

theorem finished_mem_traceTo {call : Nat} {step t : Step} {ok : Bool} :
    .finished call t ok ∈ traceTo call step ↔ t ∈ step.before ∧ ok = true := by
  unfold traceTo
  rw [List.mem_append, List.mem_flatMap]
  constructor
  · rintro (hhead | ⟨s, hs, hmem⟩)
    · simp at hhead
    · obtain ⟨rfl, hok⟩ := finished_mem_passed.mp hmem
      exact ⟨hs, hok⟩
  · rintro ⟨ht, hok⟩
    exact Or.inr ⟨t, ht, finished_mem_passed.mpr ⟨rfl, hok⟩⟩

theorem quiet_traceTo (call : Nat) (step : Step) :
    .entered call .success ∉ traceTo call step ∧ .returned call ∉ traceTo call step ∧
      .released call ∉ traceTo call step ∧ .busy call ∉ traceTo call step := by
  cases step <;> simp [traceTo, Step.before, Step.order, passed, Step.next, Step.enters]

theorem CallTrace.success_iff {call : Nat} {pc : Pc} {t : List Event} (h : CallTrace call pc t) :
    .entered call .success ∈ t ↔ ∀ step, .finished call step true ∈ t := by
  cases h with
  | notArrived => simp
  | busy => simp
  | parsing => simp
  | missing => simp
  | running step =>
    have hlast : Step.confirmHealth ∉ step.before := by cases step <;> decide
    refine ⟨fun hs => absurd hs (quiet_traceTo call step).1, fun hall => ?_⟩
    exact absurd (finished_mem_traceTo.mp (hall .confirmHealth)).1 hlast
  | failed step =>
    have hself : step ∉ step.before := by cases step <;> decide
    have hquiet := (quiet_traceTo call step).1
    refine ⟨fun hs => absurd hs ?_, fun hall => absurd (hall step) ?_⟩
    · cases hl : step.locked <;> simp [failure, hl, hquiet]
    · cases hl : step.locked <;> simp [failure, hl, finished_mem_traceTo, hself]
  | succeeded =>
    refine ⟨fun _ step => ?_, fun _ => by simp [success]⟩
    rw [List.mem_append, finished_mem_traceTo]
    cases step <;> simp [success, Step.before, Step.order]

theorem CallTrace.released {call : Nat} {pc : Pc} {t : List Event} (h : CallTrace call pc t)
    (hreturned : .returned call ∈ t) : .finished call .lock true ∈ t ↔ .released call ∈ t := by
  cases h with
  | notArrived => simp at hreturned
  | busy => simp
  | parsing => simp at hreturned
  | missing => simp
  | running step => exact absurd hreturned (quiet_traceTo call step).2.1
  | failed step =>
    have hquiet := (quiet_traceTo call step).2.2.1
    rw [List.mem_append, List.mem_append, or_iff_right hquiet, finished_mem_traceTo]
    cases step <;> simp [failure, Step.locked, Step.before, Step.order]
  | succeeded =>
    simp [success, finished_mem_traceTo, Step.before, Step.order]

theorem CallTrace.entered_of_started {call : Nat} {pc : Pc} {t : List Event} {step : Step} (h : CallTrace call pc t)
    (hs : .started call step ∈ t) : .entered call .validating ∈ t := by
  cases h with
  | notArrived => simp at hs
  | busy => simp at hs
  | parsing => simp at hs
  | missing => simp at hs
  | running step => exact mem_traceTo_entered call step
  | failed step => exact List.mem_append_left _ (mem_traceTo_entered call step)
  | succeeded => exact List.mem_append_left _ (mem_traceTo_entered call _)

/-- A call that was turned away does nothing more. -/
theorem CallTrace.of_busy {call : Nat} {pc : Pc} {t : List Event} (h : CallTrace call pc t) (hbusy : .busy call ∈ t) :
    t = [.busy call, .returned call] := by
  cases h with
  | notArrived => simp at hbusy
  | busy => rfl
  | parsing => simp at hbusy
  | missing => simp at hbusy
  | running step => exact absurd hbusy (quiet_traceTo call step).2.2.2
  | failed step =>
    have hquiet := (quiet_traceTo call step).2.2.2
    cases hl : step.locked <;> simp [failure, hl, hquiet] at hbusy
  | succeeded =>
    have hquiet := (quiet_traceTo call .confirmHealth).2.2.2
    simp [success, hquiet] at hbusy

/-- A call whose step failed has that step at the end of its trace. -/
theorem CallTrace.of_failed {call : Nat} {pc : Pc} {t : List Event} {step : Step} (h : CallTrace call pc t)
    (hfailed : .finished call step false ∈ t) : t = traceTo call step ++ failure call step := by
  have hno (s : Step) : .finished call step false ∉ traceTo call s := fun hmem =>
    absurd (finished_mem_traceTo.mp hmem).2 Bool.false_ne_true
  cases h with
  | notArrived => simp at hfailed
  | busy => simp at hfailed
  | parsing => simp at hfailed
  | missing => simp at hfailed
  | running s => exact absurd hfailed (hno s)
  | failed s =>
    obtain rfl : step = s := by
      cases hl : s.locked <;> simpa [failure, hl, hno s] using hfailed
    rfl
  | succeeded =>
    rw [List.mem_append, or_iff_right (hno _)] at hfailed
    simp [success] at hfailed

/-- The steps of a call that were started. -/
def stepsOf (call : Nat) (h : List Event) : List Step :=
  h.filterMap fun
    | .started c step => if c = call then some step else none
    | _ => none

theorem stepsOf_eventsOf (call : Nat) (h : List Event) : stepsOf call (eventsOf call h) = stepsOf call h := by
  unfold stepsOf eventsOf
  rw [List.filterMap_filter]
  apply List.filterMap_congr
  intro e _
  by_cases he : e.call = call
  · simp [he]
  · cases e <;> simp_all [Event.call]

theorem stepsOf_append (call : Nat) (h h' : List Event) : stepsOf call (h ++ h') = stepsOf call h ++ stepsOf call h' :=
  List.filterMap_append

theorem stepsOf_passed (call : Nat) (step : Step) : stepsOf call (passed call step) = step.next.toList := by
  unfold passed
  cases step.next with
  | none => rfl
  | some next => cases he : next.enters <;> simp [stepsOf, he]

theorem stepsOf_flatMap_passed (call : Nat) (steps : List Step) :
    stepsOf call (steps.flatMap (passed call)) = steps.filterMap Step.next := by
  induction steps with
  | nil => rfl
  | cons step steps ih =>
    rw [List.flatMap_cons, stepsOf_append, stepsOf_passed, ih]
    cases hn : step.next <;> simp [hn]

/-- Up to the start of a step all the earlier ones were started, in order. -/
theorem stepsOf_traceTo (call : Nat) (step : Step) : stepsOf call (traceTo call step) = step.before ++ [step] := by
  have hfirst : stepsOf call [.entered call .validating, .started call .validate] = [.validate] := by simp [stepsOf]
  rw [traceTo, stepsOf_append, hfirst, stepsOf_flatMap_passed]
  cases step <;> rfl

theorem stepsOf_failure (call : Nat) (step : Step) : stepsOf call (failure call step) = [] := by
  cases hl : step.locked <;> simp [stepsOf, failure, hl]

theorem stepsOf_success (call : Nat) : stepsOf call (success call) = [] := rfl

theorem Step.before_prefix (step : Step) : step.before ++ [step] <+: Step.order := by
  cases step <;> decide

theorem CallTrace.steps {call : Nat} {pc : Pc} {t : List Event} (h : CallTrace call pc t) :
    stepsOf call t <+: Step.order := by
  cases h with
  | notArrived => exact List.nil_prefix
  | busy => exact List.nil_prefix
  | parsing => exact List.nil_prefix
  | missing => exact List.nil_prefix
  | running step =>
    rw [stepsOf_traceTo]
    exact step.before_prefix
  | failed step =>
    rw [stepsOf_append, stepsOf_failure, List.append_nil, stepsOf_traceTo]
    exact step.before_prefix
  | succeeded =>
    rw [stepsOf_append, stepsOf_success, List.append_nil, stepsOf_traceTo]
    exact Step.before_prefix .confirmHealth

/-! ## Order and atomicity -/

/-- A call has arrived and not returned. -/
def Agent.InProgress (a : Agent) : Prop := ∃ call, a.pc call ≠ .notArrived ∧ a.pc call ≠ .returned

structure OrderAndAtomicity (inputs : List Input) (h : List Event) (a : Agent) : Prop where
  /-- The steps of a call are a prefix of the order. -/
  ordered : ∀ call, stepsOf call h <+: Step.order
  /-- A step starts after all the earlier ones succeeded. -/
  earlier : ∀ before call step after, h = before ++ .started call step :: after →
    ∀ s ∈ step.before, .finished call s true ∈ before
  success_iff : ∀ call, .entered call .success ∈ h ↔ ∀ step, .finished call step true ∈ h
  /-- After a step that fails the call publishes `FAILED`, gives back the lock if it has it, returns, and does nothing more. -/
  failed : ∀ call step, .finished call step false ∈ h → ∃ before, eventsOf call h = before ++ failure call step
  /-- What was acquired has been released when the call returns, and nobody else holds the lock. -/
  released : ∀ call, .returned call ∈ h → (.finished call .lock true ∈ h ↔ .released call ∈ h)
  held : a.lockHeld = true → ∃ call step, a.pc call = .running step
  one_runs : ∀ i j s t, .started i s ∈ h → .started j t ∈ h → i = j
  /-- A command that arrives too late runs no step, and its arrival changes nothing. -/
  turned_away : ∀ before call json after b out, inputs = before ++ .arrive call json :: after →
    calls.run .fresh before = some (b, out) → b.InProgress ∨ b.state = .success ∨ b.state = .failed →
      stepsOf call h = [] ∧ ∃ c events, calls.step b (.arrive call json) = some (c, events) ∧ c.state = b.state ∧
        c.pendingCmd = b.pendingCmd ∧ c.lockHeld = b.lockHeld ∧ ∀ other ≠ call, c.pc other = b.pc other

theorem mem_of_mem_eventsOf {call : Nat} {e : Event} {h : List Event} (he : e ∈ eventsOf call h) : e ∈ h :=
  (List.mem_filter.mp he).1

/-- A step that starts follows on the ones in front of it. -/
theorem Moves.started {a b : Agent} {call : Nat} {out h : List Event} (hmove : Moves a call b out) (ht : Tracked h a)
    {before after : List Event} {c : Nat} {step : Step} (hout : out = before ++ .started c step :: after) :
    ∀ s ∈ step.before, .finished c s true ∈ h ++ before := by
  have hmem : .started c step ∈ out := by rw [hout]; simp
  cases hmove with
  | guard => simp at hmem
  | busy => simp at hmem
  | missing => simp at hmem
  | succeeded => simp [success] at hmem
  | failed step' => cases hl : step'.locked <;> simp [failure, hl] at hmem
  | begun =>
    rw [List.mem_singleton] at hmem
    cases hmem
    exact fun s hs => absurd hs List.not_mem_nil
  | passed prev next hpc hnext =>
    have hfirst : ∃ middle, before = .finished call prev true :: middle := by
      rcases before with _ | ⟨e, middle⟩
      · cases prev <;> cases hout
      · exact ⟨middle, by rw [(List.cons.inj hout).1]⟩
    have hnow : c = call ∧ step = next := by
      unfold Calls.passed at hmem
      rw [hnext] at hmem
      simpa using hmem
    obtain ⟨middle, rfl⟩ := hfirst
    obtain ⟨rfl, rfl⟩ := hnow
    intro s hs
    rw [before_next hnext, List.mem_append, List.mem_singleton] at hs
    rcases hs with hearlier | rfl
    · have htrace := ht.trace c
      rw [hpc] at htrace
      generalize hevents : eventsOf c h = events at htrace
      cases htrace
      have hs' : .finished c s true ∈ eventsOf c h := by
        rw [hevents]
        exact finished_mem_traceTo.mpr ⟨hearlier, rfl⟩
      exact List.mem_append_left _ (mem_of_mem_eventsOf hs')
    · simp

/-- What the steps of a run establish about starts. -/
theorem run_started {inputs : List Input} {a : Agent} {h : List Event} (hrun : calls.run .fresh inputs = some (a, h)) :
    ∀ before call step after, h = before ++ .started call step :: after →
      ∀ s ∈ step.before, .finished call s true ∈ before := by
  have hinv := calls.run_induction (h := [])
    (I := fun h a => Tracked h a ∧ ∀ before call step after, h = before ++ .started call step :: after →
      ∀ s ∈ step.before, .finished call s true ∈ before)
    (fun h a x b out hI _ hstep => ?_) ⟨tracked_fresh, fun before call step after heq => by simp at heq⟩
    (calls.along_of_mem (p := fun _ => True) (fun _ _ => trivial) _) hrun
  · exact hinv.2
  obtain ⟨ht, hstarted⟩ := hI
  refine ⟨tracked_step ht hstep, fun before call step after heq => ?_⟩
  obtain ⟨mover, hmove⟩ := step_moves hstep
  rcases List.append_eq_append_iff.mp heq with ⟨x, rfl, hx⟩ | ⟨x, hh, hx⟩
  · exact hmove.started ht hx
  · rcases x with _ | ⟨e, x⟩
    · intro s hs
      rw [List.append_nil] at hh
      have hfirst : out = [] ++ .started call step :: after := hx.symm
      have hmem := hmove.started ht hfirst s hs
      rw [List.append_nil, hh] at hmem
      exact hmem
    · obtain ⟨rfl, -⟩ := List.cons.inj hx
      exact hstarted before call step x hh

theorem Tracked.started_entered {h : List Event} {a : Agent} (ht : Tracked h a) {call : Nat} {step : Step}
    (hs : .started call step ∈ h) : Entered h call := by
  rw [entered_eventsOf]
  exact (ht.trace call).entered_of_started (mem_eventsOf.mpr hs)

/-- Too late is when the manager is not idle. -/
theorem Tracked.too_late {h : List Event} {a : Agent} (ht : Tracked h a)
    (hlate : a.InProgress ∨ a.state = .success ∨ a.state = .failed) : a.state ≠ .idle := by
  rcases hlate with ⟨call, hpc, hpc'⟩ | hstate | hstate
  · exact ht.not_idle (ht.entered hpc hpc')
  · rw [hstate]
    exact nofun
  · rw [hstate]
    exact nofun

/-- **Order and atomicity.** -/
theorem order_and_atomicity (inputs : List Input) (a : Agent) (h : List Event)
    (hrun : calls.run .fresh inputs = some (a, h)) : OrderAndAtomicity inputs h a := by
  have ht := calls_trace hrun
  refine ⟨fun call => ?_, run_started hrun, fun call => ?_, fun call step hfailed => ?_, fun call hret => ?_, fun hheld => ?_, ?_,
    ?_⟩
  · rw [← stepsOf_eventsOf]
    exact (ht.trace call).steps
  · have hiff := (ht.trace call).success_iff
    constructor
    · intro hs step
      exact mem_of_mem_eventsOf (hiff.mp (mem_eventsOf.mpr hs) step)
    · intro hall
      exact mem_of_mem_eventsOf (hiff.mpr fun step => mem_eventsOf.mpr (hall step))
  · exact ⟨_, (ht.trace call).of_failed (mem_eventsOf.mpr hfailed)⟩
  · have hiff := (ht.trace call).released (mem_eventsOf.mpr hret)
    exact ⟨fun hf => mem_of_mem_eventsOf (hiff.mp (mem_eventsOf.mpr hf)),
      fun hr => mem_of_mem_eventsOf (hiff.mpr (mem_eventsOf.mpr hr))⟩
  · by_contra hnone
    have hfree := ht.unheld fun call step hpc => hnone ⟨call, step, hpc⟩
    rw [hheld] at hfree
    cases hfree
  · intro i j s t hi hj
    exact ht.single i j (ht.started_entered hi) (ht.started_entered hj)
  · intro before call json after b out heq hbefore hlate
    have hb := (calls_trace hbefore).too_late hlate
    rw [heq] at hrun
    obtain ⟨b', out', rest, hbefore', hrest, rfl⟩ := calls.run_append_iff.mp hrun
    cases hbefore.symm.trans hbefore'
    obtain ⟨c, events, later, hstep, hlater, rfl⟩ := calls.run_cons_iff.mp hrest
    have hbusy : c = b.goto call .returned ∧ events = [.busy call, .returned call] := by
      simp only [calls] at hstep
      split at hstep
      · rw [arrive, if_neg hb] at hstep
        cases hstep
        exact ⟨rfl, rfl⟩
      · cases hstep
    obtain ⟨rfl, rfl⟩ := hbusy
    refine ⟨?_, _, _, hstep, rfl, rfl, rfl, fun other hne => Function.update_of_ne hne _ _⟩
    have hmem : .busy call ∈ eventsOf call (out ++ ([.busy call, .returned call] ++ later)) :=
      (mem_eventsOf (e := .busy call)).mpr (by simp)
    rw [← stepsOf_eventsOf, (ht.trace call).of_busy hmem]
    rfl

/-- A call goes through; another one comes while the first is parsed. -/
def updateOnce : List Input :=
  .arrive 0 "\x7b\"version\":\"1.0.0\",\"url\":\"http://a\",\"sha256\":\"0\"\x7d".toList :: .arrive 1 [] :: .parse 0 ::
    Step.order.map fun _ => .finish 0 true

theorem order_and_atomicity_once : ∃ a h, calls.run .fresh updateOnce = some (a, h) ∧ a.state = .success ∧
    OrderAndAtomicity updateOnce h a := by
  have hsome : ((calls.run .fresh updateOnce).map fun r => r.1.state) = some .success := by decide +kernel
  obtain ⟨⟨a, h⟩, hrun, hstate⟩ := Option.map_eq_some_iff.mp hsome
  exact ⟨a, h, hrun, hstate, order_and_atomicity updateOnce a h hrun⟩

/-! ## A call alone -/

/-- The outcomes up to the first failure. -/
def upToFailure (ok : Step → Bool) : List Step → List Bool
  | [] => []
  | step :: steps => if ok step then true :: upToFailure ok steps else [false]

/-- The states entered from the end of a step on, when these steps are left. -/
def statesLeft (ok : Step → Bool) : List Step → List State
  | [] => [.success]
  | step :: steps => if ok step then (steps.head?.bind Step.enters).toList ++ statesLeft ok steps else [.failed]

def Event.state? : Event → Option State
  | .entered _ state => some state
  | _ => none

/-- The steps from one on, in order. -/
inductive FromOn : List Step → Prop
  | last : FromOn [.confirmHealth]
  | cons {step next : Step} {steps : List Step} (hnext : step.next = some next) (h : FromOn (next :: steps)) :
    FromOn (step :: next :: steps)

theorem fromOn_order : FromOn Step.order :=
  .cons rfl (.cons rfl (.cons rfl (.cons rfl (.cons rfl (.cons rfl (.cons rfl .last))))))

theorem step_finish {a : Agent} {call : Nat} {step : Step} (hpc : a.pc call = .running step) (ok : Bool) :
    calls.step a (.finish call ok) = some (if ok then succeed a call step else fail a call step) := by
  simp only [calls, hpc]

theorem fail_states (a : Agent) (call : Nat) (step : Step) :
    (fail a call step).2.filterMap Event.state? = [.failed] := by
  cases step <;> rfl

theorem succeed_next (a : Agent) (call : Nat) {step next : Step} (hnext : step.next = some next) :
    (succeed a call step).1.pc call = .running next ∧
      (succeed a call step).1.lockHeld = (a.lockHeld || step = Step.lock) ∧
      (succeed a call step).2.filterMap Event.state? = next.enters.toList := by
  unfold succeed
  rw [hnext]
  refine ⟨Function.update_self _ _ _, rfl, ?_⟩
  cases next <;> rfl

theorem fail_alone {a : Agent} {call : Nat} {step : Step} (hpc : a.pc call = .running step)
    (hheld : a.lockHeld = step.locked) : ∃ b h, calls.run a [.finish call false] = some (b, h) ∧ b.lockHeld = false ∧
      h.filterMap Event.state? = [.failed] ∧ b.state = .failed := by
  refine ⟨_, _, calls.run_cons_of (step_finish hpc false) (calls.run_nil _), ?_, ?_, rfl⟩
  · show (a.lockHeld && !step.locked) = false
    rw [hheld]
    cases step.locked <;> rfl
  · rw [List.append_nil]
    exact fail_states a call step

theorem run_alone (ok : Step → Bool) (call : Nat) {steps : List Step} (hsteps : FromOn steps) {a : Agent} {step : Step}
    (hhead : steps.head? = some step) (hpc : a.pc call = .running step) (hheld : a.lockHeld = step.locked) :
    ∃ b h, calls.run a ((upToFailure ok steps).map (Input.finish call)) = some (b, h) ∧ b.lockHeld = false ∧
      h.filterMap Event.state? = statesLeft ok steps ∧ (statesLeft ok steps).getLast? = some b.state := by
  induction hsteps generalizing a step with
  | last =>
    cases hhead
    cases hok : ok .confirmHealth with
    | false =>
      obtain ⟨b, h, hrun, hfree, hstates, hlast⟩ := fail_alone hpc hheld
      simp only [upToFailure, statesLeft, hok]
      exact ⟨b, h, hrun, hfree, hstates, by rw [hlast]; rfl⟩
    | true =>
      simp only [upToFailure, statesLeft, hok]
      exact ⟨_, _, calls.run_cons_of (step_finish hpc true) (calls.run_nil _), rfl, rfl, rfl⟩
  | @cons s next steps hnext _ ih =>
    cases hhead
    cases hok : ok s with
    | false =>
      obtain ⟨b, h, hrun, hfree, hstates, hlast⟩ := fail_alone hpc hheld
      simp only [upToFailure, statesLeft, hok]
      exact ⟨b, h, hrun, hfree, hstates, by rw [hlast]; rfl⟩
    | true =>
      obtain ⟨hpc', hlock, hstates⟩ := succeed_next a call hnext
      have hheld' : (succeed a call s).1.lockHeld = next.locked := by
        rw [hlock, hheld]
        cases s <;> cases hnext <;> rfl
      obtain ⟨b, h, hrun, hfree, hlist, hlast⟩ := ih rfl hpc' hheld'
      have hleft : statesLeft ok (s :: next :: steps) = next.enters.toList ++ statesLeft ok (next :: steps) := by
        rw [statesLeft, if_pos hok]
        rfl
      have hanswers : upToFailure ok (s :: next :: steps) = true :: upToFailure ok (next :: steps) := by
        rw [upToFailure, if_pos hok]
      rw [hleft, hanswers]
      refine ⟨b, _, calls.run_cons_of (step_finish hpc true) hrun, hfree, ?_, ?_⟩
      · rw [List.filterMap_append, hlist]
        exact congrArg (· ++ _) hstates
      · rw [List.getLast?_append, hlast]
        rfl

/-- The states that the effects of the manager enter. -/
def enteredStates (h : List Effect) : List State :=
  h.filterMap fun
    | .enter state _ => some state
    | _ => none

theorem enteredStates_append (h h' : List Effect) : enteredStates (h ++ h') = enteredStates h ++ enteredStates h' :=
  List.filterMap_append

theorem enteredStates_of_not_enter {h : List Effect} (hnone : ∀ e ∈ h, ¬ IsEnter e) : enteredStates h = [] := by
  refine List.filterMap_eq_nil_iff.mpr fun e he => ?_
  split
  · exact absurd ⟨_, _, rfl⟩ (hnone _ he)
  · rfl

/-- The lock was acquired. -/
def locks : Except Text Bool → Bool
  | .ok held => held
  | .error _ => false

/-- What the steps of a command come to. -/
def outcome (openssl : Text → Text → Bool) (env : Answers) (d : Device) (cmd : OtaCommand) : Step → Bool
  | .validate => (Ota.validate openssl env d cmd).ok
  | .lock => locks env.lock
  | .download => (Ota.download env cmd).1
  | .verifyChecksum => (Ota.verifyChecksum env cmd).1
  | .backup => (Ota.backup env (Ota.validate openssl env d cmd).device.currentVersion).1
  | .apply => (Ota.apply env).1
  | .restartVision => (Ota.restartVision env).1
  | .confirmHealth => (Ota.confirmHealth env).1

/-- The stage is that of the step. -/
structure StageOf (ok : Step → Bool) (stage : Stage) (step : Step) : Prop where
  state : step.enters = some stage.state
  run : stage.run.1 = ok step
  outward : ∀ e ∈ stage.run.2, e.Outward

/-- The big step ends as the calls do: what it enters, its last state, and the free lock. -/
def EndsAs (r : Device × List Effect) (states : List State) : Prop :=
  enteredStates r.2 = states ∧ states.getLast? = some r.1.state ∧ r.1.lockHeld = false

theorem fail_endsAs (d : Device) (version message : Text) (hfree : d.lockHeld = false) :
    EndsAs (d.fail version message) [.failed] := ⟨rfl, rfl, hfree⟩

theorem EndsAs.prepend {r : Device × List Effect} {states : List State} (h : EndsAs r states) (effects : List Effect) :
    EndsAs (r.1, effects ++ r.2) (enteredStates effects ++ states) := by
  obtain ⟨hstates, hlast, hfree⟩ := h
  refine ⟨?_, ?_, hfree⟩
  · rw [enteredStates_append, hstates]
  · rw [List.getLast?_append, hlast]
    rfl

theorem runStages_endsAs {ok : Step → Bool} {sts : List Stage} {steps : List Step}
    (h : List.Forall₂ (StageOf ok) sts steps) (version : Text) (d : Device) :
    EndsAs (runStages version d sts) ((steps.head?.bind Step.enters).toList ++ statesLeft ok steps) := by
  induction h generalizing d with
  | nil => exact ⟨rfl, rfl, rfl⟩
  | @cons stage step sts steps hstage _ ih =>
    have hbegun : enteredStates (.enter stage.state version :: .report stage.status stage.announcement :: stage.run.2) =
        [stage.state] := by
      have hnone := enteredStates_of_not_enter fun e he => (hstage.outward e he).not_enter
      simpa [enteredStates] using hnone
    have henters : ((step :: steps).head?.bind Step.enters).toList = [stage.state] := by
      rw [List.head?_cons, Option.bind_some, hstage.state]
      rfl
    rw [henters, ← hbegun]
    unfold runStages
    refine EndsAs.prepend ?_ _
    rw [hstage.run, statesLeft]
    cases ok step with
    | true => exact ih _
    | false => exact fail_endsAs _ _ _ rfl

theorem stages_steps (openssl : Text → Text → Bool) (env : Answers) (d : Device) (cmd : OtaCommand) :
    List.Forall₂ (StageOf (outcome openssl env d cmd))
      (stages env (Ota.validate openssl env d cmd).device.currentVersion cmd)
      [.download, .verifyChecksum, .backup, .apply, .restartVision, .confirmHealth] := by
  have hout := fun stage hstage =>
    (stages_outward env (Ota.validate openssl env d cmd).device.currentVersion cmd stage hstage).2
  unfold stages at hout ⊢
  simp only [List.forall_mem_cons] at hout
  obtain ⟨h₁, h₂, h₃, h₄, h₅, h₆, -⟩ := hout
  exact .cons ⟨rfl, rfl, h₁⟩ (.cons ⟨rfl, rfl, h₂⟩ (.cons ⟨rfl, rfl, h₃⟩ (.cons ⟨rfl, rfl, h₄⟩
    (.cons ⟨rfl, rfl, h₅⟩ (.cons ⟨rfl, rfl, h₆⟩ .nil)))))

theorem underLock_endsAs (openssl : Text → Text → Bool) (env : Answers) (d : Device) (cmd : OtaCommand)
    (hfree : (Ota.validate openssl env d cmd).device.lockHeld = false) :
    EndsAs (underLock env (Ota.validate openssl env d cmd).device cmd)
      (statesLeft (outcome openssl env d cmd)
        [.lock, .download, .verifyChecksum, .backup, .apply, .restartVision, .confirmHealth]) := by
  rw [statesLeft]
  unfold underLock
  cases hlock : env.lock with
  | error e =>
    have hok : outcome openssl env d cmd .lock = false := by rw [outcome, hlock]; rfl
    rw [if_neg (by rw [hok]; nofun)]
    exact (fail_endsAs _ _ _ hfree).prepend [_]
  | ok held =>
    have hok : outcome openssl env d cmd .lock = held := by rw [outcome, hlock]; rfl
    rw [hok]
    cases held with
    | true => exact runStages_endsAs (stages_steps openssl env d cmd) cmd.version _
    | false => exact (fail_endsAs _ _ _ hfree).prepend [_]

theorem validate_lockHeld (openssl : Text → Text → Bool) (env : Answers) (d : Device) (cmd : OtaCommand) :
    (Ota.validate openssl env d cmd).device.lockHeld = d.lockHeld := by
  obtain ⟨r, ⟨hdevice, -⟩, hr⟩ := validate_change openssl env d cmd
  rw [hdevice]
  rcases hr with rfl | ⟨-, -, hchange⟩
  · rfl
  cases hchange with
  | kept => rfl
  | saved =>
    unfold Device.saveNextKey
    split <;> rfl
  | promoted =>
    unfold Device.promoteNextKey
    split
    · split <;> rfl
    · rfl

/-- What a call that runs alone is given: its text, and how its steps end. -/
def alone (call : Nat) (json : Text) (ok : Step → Bool) : List Input :=
  .arrive call json :: .parse call ::
    if (parseOtaCommand json).version = [] ∨ (parseOtaCommand json).url = [] ∨ (parseOtaCommand json).sha256 = [] then []
    else (upToFailure ok Step.order).map (Input.finish call)

/-- The device that the steps of a command start from. -/
def atValidate (d : Device) (cmd : OtaCommand) : Device := { d with state := .validating, pendingCmd := cmd }

theorem command_endsAs (openssl : Text → Text → Bool) (env : Answers) (d : Device) (cmd : OtaCommand) (message : Text)
    (hfree : d.lockHeld = false) :
    EndsAs
      (let valid := Ota.validate openssl env d cmd
       let r := if valid.ok then underLock env valid.device cmd
         else valid.device.fail cmd.version "Validation failed — aborting".toList
       (r.1, [.enter .validating cmd.version, .report "validating".toList message] ++ valid.effects ++ r.2))
      (.validating :: statesLeft (outcome openssl env d cmd) Step.order) := by
  dsimp only
  have hlock : (Ota.validate openssl env d cmd).device.lockHeld = false :=
    (validate_lockHeld openssl env d cmd).trans hfree
  have hbegun : enteredStates ([.enter .validating cmd.version, .report "validating".toList message] ++
      (Ota.validate openssl env d cmd).effects) = [.validating] := by
    rw [enteredStates_append, enteredStates_of_not_enter (validate_not_enter openssl env d cmd)]
    rfl
  have hleft : State.validating :: statesLeft (outcome openssl env d cmd) Step.order =
      enteredStates ([.enter .validating cmd.version, .report "validating".toList message] ++
        (Ota.validate openssl env d cmd).effects) ++ statesLeft (outcome openssl env d cmd) Step.order := by
    rw [hbegun]
    rfl
  rw [hleft]
  refine EndsAs.prepend ?_ _
  unfold Step.order
  rw [statesLeft]
  have hok : outcome openssl env d cmd .validate = (Ota.validate openssl env d cmd).ok := rfl
  rw [hok]
  split
  · exact underLock_endsAs openssl env d cmd hlock
  · exact fail_endsAs _ _ _ hlock

/-- **A call alone** enters the states of `on_ota_command`, ends in its state, and leaves the lock free. -/
theorem onOtaCommand_calls (openssl : Text → Text → Bool) (env : Answers) (d : Device) (json : Text) (call : Nat)
    (hidle : d.state = .idle) (hfree : d.lockHeld = false) :
    ∃ a h, calls.run .fresh
        (alone call json (outcome openssl env (atValidate d (parseOtaCommand json)) (parseOtaCommand json))) =
        some (a, h) ∧
      a.lockHeld = false ∧ EndsAs (onOtaCommand openssl env d json) (h.filterMap Event.state?) ∧
      a.state = (onOtaCommand openssl env d json).1.state := by
  unfold alone onOtaCommand
  rw [if_neg (not_not_intro hidle)]
  dsimp only
  have harrive : calls.step .fresh (.arrive call json) =
      some ({ Agent.fresh with state := .validating }.goto call (.parsing json), [.entered call .validating]) := rfl
  have hparse : calls.step ({ Agent.fresh with state := .validating }.goto call (.parsing json)) (.parse call) =
      some (parse ({ Agent.fresh with state := .validating }.goto call (.parsing json)) call json) := by
    simp only [calls, Agent.goto, Function.update_self]
  unfold parse at hparse
  dsimp only at hparse
  split at hparse
  · rename_i hmissing
    rw [if_pos hmissing, if_pos hmissing]
    refine ⟨_, _, calls.run_cons_of harrive (calls.run_cons_of hparse (calls.run_nil _)), rfl, ?_, rfl⟩
    exact (fail_endsAs _ _ _ hfree).prepend [_]
  · rename_i hgiven
    rw [if_neg hgiven, if_neg hgiven]
    set ok := outcome openssl env (atValidate d (parseOtaCommand json)) (parseOtaCommand json)
    obtain ⟨b, h, hrun, hunlocked, hstates, hlast⟩ :=
      run_alone ok call fromOn_order rfl (a := { { Agent.fresh with state := .validating }.goto call (.parsing json) with
        pendingCmd := parseOtaCommand json }.goto call (.running .validate)) (Function.update_self _ _ _) rfl
    refine ⟨b, _, calls.run_cons_of harrive (calls.run_cons_of hparse hrun), hunlocked, ?_, ?_⟩
    · rw [List.filterMap_append, List.filterMap_append, hstates]
      exact command_endsAs openssl env (atValidate d _) _ _ hfree
    · have hlast' := (command_endsAs openssl env (atValidate d (parseOtaCommand json)) (parseOtaCommand json)
        ("Validating OTA update to version ".toList ++ (parseOtaCommand json).version) hfree).2.1
      rw [List.getLast?_cons, hlast] at hlast'
      exact Option.some.inj hlast'

end IbarraGateway.Ota.Calls
