import IbarraGateway.GemaVision.InferenceOrchestrator
import Mathlib

/-!
# What the telemetry counts

The collector looks at the orchestrator's counter when it starts and at every tick, and reports the difference to its last
look; a start of the orchestrator sets the counter back in between.

* `Counted` : the counter is what was processed since the last look on top of it, or less.
* `ticks_exact_iff` : when every tick reports what was processed.
-/

namespace IbarraGateway.GemaVision.Reporting

inductive CollectorThread
  | absent
  | waiting
  | collecting
  | exited
  deriving DecidableEq, Repr

inductive CollectorCaller
  | idle
  | looking
  | spawning
  | joining
  deriving DecidableEq, Repr

structure TelemetryCollector where
  running : Bool := false
  lastFrames : UInt64 := 0
  thread : CollectorThread := .absent
  caller : CollectorCaller := .idle
  deriving DecidableEq, Repr

inductive CollectorInput
  | start
  | stop
  /-- The next step of the call. -/
  | caller
  | thread
  deriving DecidableEq, Repr

inductive TelemetryEvent
  | orchestrator (e : Orchestration.Event)
  | looked (framesNow : UInt64)
  | ticked (lastFrames framesNow delta : UInt64)
  deriving DecidableEq, Repr

namespace TelemetryCollector
variable (c : TelemetryCollector) (framesProcessed : UInt64)

/-- `start` and `stop`, step by step, with the orchestrator's counter at hand. -/
def call : Option (TelemetryCollector × List TelemetryEvent) :=
  match c.caller with
  | .idle => none
  | .looking => some ({ c with lastFrames := framesProcessed, caller := .spawning }, [.looked framesProcessed])
  | .spawning => some ({ c with thread := .waiting, caller := .idle }, [])
  | .joining => if c.thread = .exited then some ({ c with thread := .absent, caller := .idle }, []) else none

/-- `collect_loop`: the wait and the look at `running_`, then the metrics. -/
def collectLoop : Option (TelemetryCollector × List TelemetryEvent) :=
  match c.thread with
  | .absent => none
  | .waiting => some ({ c with thread := if c.running then .collecting else .exited }, [])
  | .collecting =>
    let framesNow := framesProcessed
    let delta := framesNow - c.lastFrames
    some ({ c with lastFrames := framesNow, thread := .waiting }, [.ticked c.lastFrames framesNow delta])
  | .exited => none

def step : CollectorInput → Option (TelemetryCollector × List TelemetryEvent)
  | .start =>
    if c.caller ≠ .idle then none
    else if c.running then some (c, []) else some ({ c with running := true, caller := .looking }, [])
  | .stop =>
    if c.caller ≠ .idle then none
    else if c.running then some ({ c with running := false, caller := .joining }, []) else some (c, [])
  | .caller => c.call framesProcessed
  | .thread => c.collectLoop framesProcessed

end TelemetryCollector

structure Telemetry where
  orchestrator : Orchestration.State
  collector : TelemetryCollector := {}

def Telemetry.create (maxSize : Nat) : Telemetry := { orchestrator := .create maxSize }

inductive TelemetryInput
  | orchestrator (a : Orchestration.Input)
  | collector (a : CollectorInput)
  deriving DecidableEq, Repr

/-- The orchestrator and the collector, in any order of their steps. -/
def telemetry : Machine Telemetry TelemetryInput TelemetryEvent where
  step s
    | .orchestrator a =>
      (Orchestration.orchestrator.step s.orchestrator a).map fun r => ({ s with orchestrator := r.1 }, r.2.map .orchestrator)
    | .collector a =>
      (s.collector.step s.orchestrator.framesProcessed a).map fun r => ({ s with collector := r.1 }, r.2)

/-! ## What is stated -/

namespace TelemetryEvent

def isLook : TelemetryEvent → Bool
  | looked _ => true
  | ticked .. => true
  | _ => false

def isProcessed : TelemetryEvent → Bool
  | orchestrator (.processed ..) => true
  | _ => false

/-- The counter goes on counting: it is set back from zero only, and does not run over. -/
def Calm : TelemetryEvent → Prop
  | orchestrator (.reset found) => found = 0
  | orchestrator (.processed _ before) => before.toNat + 1 < 2 ^ 64
  | _ => True

end TelemetryEvent

/-- What happened since the collector's last look, the latest first. -/
def sinceLook (h : List TelemetryEvent) : List TelemetryEvent := h.reverse.takeWhile fun e => !e.isLook

def processedSince (h : List TelemetryEvent) : Nat := (sinceLook h).countP TelemetryEvent.isProcessed

/-- A tick, behind `h`, reports what was processed since the last look, and its subtraction does not run under. -/
def ExactAt (h : List TelemetryEvent) : TelemetryEvent → Prop
  | .ticked lastFrames framesNow delta => lastFrames ≤ framesNow ∧ delta.toNat = processedSince h
  | _ => True

/-- Between the look before a tick and the tick, the counter went on counting. -/
def CalmAt (h : List TelemetryEvent) : TelemetryEvent → Prop
  | .ticked .. => ∀ e ∈ sinceLook h, e.Calm
  | _ => True

/-! ## The counter -/

theorem sinceLook_append {out : List TelemetryEvent} (hout : ∀ e ∈ out, e.isLook = false) (h : List TelemetryEvent) :
    sinceLook (h ++ out) = out.reverse ++ sinceLook h := by
  unfold sinceLook
  rw [List.reverse_append, List.takeWhile_append_of_pos]
  intro e he
  rw [hout e (List.mem_reverse.mp he)]
  rfl

theorem sinceLook_look {e : TelemetryEvent} (he : e.isLook = true) (h : List TelemetryEvent) : sinceLook (h ++ [e]) = [] := by
  unfold sinceLook
  rw [List.reverse_append, List.reverse_singleton, List.singleton_append, List.takeWhile_cons_of_neg (by simp [he])]

/-- The counter, from the last look on. -/
structure Counted (h : List TelemetryEvent) (s : Telemetry) : Prop where
  calm : (∀ e ∈ sinceLook h, e.Calm) →
    s.orchestrator.framesProcessed.toNat = s.collector.lastFrames.toNat + processedSince h
  disturbed : (¬∀ e ∈ sinceLook h, e.Calm) →
    s.orchestrator.framesProcessed.toNat < s.collector.lastFrames.toNat + processedSince h

theorem Counted.create (maxSize : Nat) : Counted [] (.create maxSize) := ⟨fun _ => rfl, fun h => absurd nofun h⟩

section Step
variable {h : List TelemetryEvent} {s t : Telemetry}

/-- Events that are neither looks nor about the counter. -/
theorem Counted.quiet (hc : Counted h s) {out : List TelemetryEvent} (hlook : ∀ e ∈ out, e.isLook = false)
    (hcalm : ∀ e ∈ out, e.Calm) (hprocessed : out.countP TelemetryEvent.isProcessed = 0)
    (hcount : t.orchestrator.framesProcessed = s.orchestrator.framesProcessed)
    (hlast : t.collector.lastFrames = s.collector.lastFrames) : Counted (h ++ out) t := by
  have hsince : processedSince (h ++ out) = processedSince h := by
    unfold processedSince
    rw [sinceLook_append hlook, List.countP_append, List.countP_reverse, hprocessed, Nat.zero_add]
  have hall : (∀ e ∈ sinceLook (h ++ out), e.Calm) ↔ ∀ e ∈ sinceLook h, e.Calm := by
    rw [sinceLook_append hlook, List.forall_mem_append]
    exact and_iff_right fun e he => hcalm e (List.mem_reverse.mp he)
  constructor
  · rw [hall, hcount, hlast, hsince]
    exact hc.calm
  · rw [hall, hcount, hlast, hsince]
    exact hc.disturbed

theorem sinceLook_snoc {e : TelemetryEvent} (he : e.isLook = false) (h : List TelemetryEvent) :
    sinceLook (h ++ [e]) = e :: sinceLook h :=
  sinceLook_append (List.forall_mem_singleton.mpr he) h

theorem forall_snoc_iff {e : TelemetryEvent} (he : e.isLook = false) (h : List TelemetryEvent) :
    (∀ e' ∈ sinceLook (h ++ [e]), e'.Calm) ↔ e.Calm ∧ ∀ e' ∈ sinceLook h, e'.Calm := by
  rw [sinceLook_snoc he, List.forall_mem_cons]

theorem Counted.processed (hc : Counted h s) {number : Nat}
    (hcount : t.orchestrator.framesProcessed = s.orchestrator.framesProcessed + 1)
    (hlast : t.collector.lastFrames = s.collector.lastFrames) :
    Counted (h ++ [.orchestrator (.processed number s.orchestrator.framesProcessed)]) t := by
  have hsince : processedSince (h ++ [.orchestrator (.processed number s.orchestrator.framesProcessed)]) =
      processedSince h + 1 := by
    unfold processedSince
    rw [sinceLook_snoc rfl, List.countP_cons_of_pos rfl]
  have hnext : (s.orchestrator.framesProcessed + 1).toNat = (s.orchestrator.framesProcessed.toNat + 1) % 2 ^ 64 :=
    UInt64.toNat_add _ _
  have hbound := s.orchestrator.framesProcessed.toNat_lt
  constructor
  · rw [forall_snoc_iff rfl, hcount, hlast, hsince, hnext]
    rintro ⟨hroom, hcalm⟩
    have hsame := hc.calm hcalm
    rw [Nat.mod_eq_of_lt hroom]
    omega
  · rw [forall_snoc_iff rfl, hcount, hlast, hsince, hnext]
    intro hnot
    by_cases hroom : s.orchestrator.framesProcessed.toNat + 1 < 2 ^ 64
    · have hless := hc.disturbed fun hcalm => hnot ⟨hroom, hcalm⟩
      rw [Nat.mod_eq_of_lt hroom]
      omega
    · have hfull : s.orchestrator.framesProcessed.toNat + 1 = 2 ^ 64 := by omega
      rw [hfull, Nat.mod_self]
      omega

theorem Counted.reset (hc : Counted h s) (hcount : t.orchestrator.framesProcessed = 0)
    (hlast : t.collector.lastFrames = s.collector.lastFrames) :
    Counted (h ++ [.orchestrator (.reset s.orchestrator.framesProcessed)]) t := by
  have hsince : processedSince (h ++ [.orchestrator (.reset s.orchestrator.framesProcessed)]) = processedSince h := by
    unfold processedSince
    rw [sinceLook_snoc rfl, List.countP_cons_of_neg Bool.false_ne_true]
  constructor
  · rw [forall_snoc_iff rfl, hcount, hlast, hsince]
    rintro ⟨hzero, hcalm⟩
    have hsame := hc.calm hcalm
    change s.orchestrator.framesProcessed = 0 at hzero
    rwa [hzero] at hsame
  · rw [forall_snoc_iff rfl, hcount, hlast, hsince]
    intro hnot
    show 0 < _
    by_cases hcalm : ∀ e ∈ sinceLook h, e.Calm
    · have hne : s.orchestrator.framesProcessed ≠ 0 := fun hzero => hnot ⟨hzero, hcalm⟩
      have hpos : s.orchestrator.framesProcessed.toNat ≠ 0 := fun hzero => hne (UInt64.toNat_inj.mp hzero)
      have hsame := hc.calm hcalm
      omega
    · have hless := hc.disturbed hcalm
      omega

/-- A look starts the count anew. -/
theorem Counted.look {e : TelemetryEvent} (he : e.isLook = true)
    (hlast : t.collector.lastFrames = t.orchestrator.framesProcessed) : Counted (h ++ [e]) t := by
  have hnone : processedSince (h ++ [e]) = 0 := by
    unfold processedSince
    rw [sinceLook_look he]
    rfl
  constructor
  · intro _
    rw [hlast, hnone, Nat.add_zero]
  · rw [sinceLook_look he]
    exact fun hnot => absurd nofun hnot

/-- At a tick, the difference is what was processed exactly when the counter has gone on counting. -/
theorem Counted.exact_iff (hc : Counted h s) :
    ExactAt h (.ticked s.collector.lastFrames s.orchestrator.framesProcessed
      (s.orchestrator.framesProcessed - s.collector.lastFrames)) ↔ ∀ e ∈ sinceLook h, e.Calm := by
  have hexact : ExactAt h (.ticked s.collector.lastFrames s.orchestrator.framesProcessed
      (s.orchestrator.framesProcessed - s.collector.lastFrames)) ↔
      s.orchestrator.framesProcessed.toNat = s.collector.lastFrames.toNat + processedSince h := by
    show s.collector.lastFrames ≤ s.orchestrator.framesProcessed ∧ _ = _ ↔ _
    constructor
    · rintro ⟨hle, hdelta⟩
      rw [UInt64.toNat_sub_of_le _ _ hle] at hdelta
      have hle' : s.collector.lastFrames.toNat ≤ s.orchestrator.framesProcessed.toNat := hle
      omega
    · intro hsame
      have hle : s.collector.lastFrames ≤ s.orchestrator.framesProcessed := by
        rw [UInt64.le_iff_toNat_le]
        omega
      refine ⟨hle, ?_⟩
      rw [UInt64.toNat_sub_of_le _ _ hle]
      omega
  rw [hexact]
  constructor
  · intro hsame
    by_contra hcalm
    have hless := hc.disturbed hcalm
    omega
  · exact hc.calm

end Step

/-! ## Runs -/

/-- The counter so far, and each tick of the history. -/
structure Reported (h : List TelemetryEvent) (s : Telemetry) : Prop where
  counted : Counted h s
  ticks : Everywhere (fun before e => ExactAt before e ↔ CalmAt before e) h

theorem Reported.orchestrator {h : List TelemetryEvent} {s : Telemetry} (hr : Reported h s) {a : Orchestration.Input}
    {u : Orchestration.State} {out : List Orchestration.Event}
    (hstep : Orchestration.orchestrator.step s.orchestrator a = some (u, out)) :
    Reported (h ++ out.map .orchestrator) { s with orchestrator := u } := by
  refine ⟨?_, Everywhere.append_iff.mpr ⟨hr.ticks, fun before e after heq => ?_⟩⟩
  · cases Orchestration.step_moves hstep with
    | counted => exact hr.counted.processed rfl rfl
    | reset => exact hr.counted.reset rfl rfl
    | _ => exact hr.counted.quiet (by simp [TelemetryEvent.isLook]) (by simp [TelemetryEvent.Calm]) rfl rfl rfl
  · have hmem : e ∈ out.map .orchestrator := by
      rw [heq]
      exact List.mem_append_right _ List.mem_cons_self
    obtain ⟨e, -, rfl⟩ := List.mem_map.mp hmem
    exact Iff.rfl

theorem Reported.collector {h : List TelemetryEvent} {s : Telemetry} (hr : Reported h s) {a : CollectorInput}
    {u : TelemetryCollector} {out : List TelemetryEvent}
    (hstep : s.collector.step s.orchestrator.framesProcessed a = some (u, out)) :
    Reported (h ++ out) { s with collector := u } := by
  have hquiet : u.lastFrames = s.collector.lastFrames → Reported (h ++ []) { s with collector := u } := by
    intro hlast
    refine ⟨hr.counted.quiet nofun nofun rfl rfl hlast, ?_⟩
    rw [List.append_nil]
    exact hr.ticks
  cases a with
  | start =>
    simp only [TelemetryCollector.step] at hstep
    split at hstep
    · cases hstep
    split at hstep <;> · cases hstep; exact hquiet rfl
  | stop =>
    simp only [TelemetryCollector.step] at hstep
    split at hstep
    · cases hstep
    split at hstep <;> · cases hstep; exact hquiet rfl
  | caller =>
    simp only [TelemetryCollector.step, TelemetryCollector.call] at hstep
    split at hstep
    · cases hstep
    · cases hstep
      exact ⟨.look rfl rfl, Everywhere.snoc_iff.mpr ⟨hr.ticks, Iff.rfl⟩⟩
    · cases hstep
      exact hquiet rfl
    · split at hstep
      · cases hstep
        exact hquiet rfl
      · cases hstep
  | thread =>
    simp only [TelemetryCollector.step, TelemetryCollector.collectLoop] at hstep
    split at hstep
    · cases hstep
    · cases hstep
      exact hquiet rfl
    · cases hstep
      exact ⟨.look rfl rfl, Everywhere.snoc_iff.mpr ⟨hr.ticks, hr.counted.exact_iff⟩⟩
    · cases hstep

theorem reported {maxSize : Nat} {inputs : List TelemetryInput} {s : Telemetry} {h : List TelemetryEvent}
    (hrun : telemetry.run (.create maxSize) inputs = some (s, h)) : Reported h s := by
  refine telemetry.run_induction (I := Reported) (fun h s a t out hr _ hstep => ?_) (h := [])
    ⟨.create maxSize, Everywhere.nil⟩ (telemetry.along_true _ inputs) hrun
  cases a with
  | orchestrator a =>
    obtain ⟨⟨u, events⟩, hinner, heq⟩ := Option.map_eq_some_iff.mp hstep
    cases heq
    exact hr.orchestrator hinner
  | collector a =>
    obtain ⟨⟨u, events⟩, hinner, heq⟩ := Option.map_eq_some_iff.mp hstep
    cases heq
    exact hr.collector hinner

/-- For every interleaving: all ticks report what was processed since the collector's look before, with no subtraction that
runs under, exactly when between these looks the counter is set back from zero only and does not run over. -/
theorem ticks_exact_iff {maxSize : Nat} {inputs : List TelemetryInput} {s : Telemetry} {h : List TelemetryEvent}
    (hrun : telemetry.run (.create maxSize) inputs = some (s, h)) : Everywhere ExactAt h ↔ Everywhere CalmAt h := by
  have hticks := (reported hrun).ticks
  exact ⟨fun hexact before e after heq => (hticks before e after heq).mp (hexact before e after heq),
    fun hcalm before e after heq => (hticks before e after heq).mpr (hcalm before e after heq)⟩

/-- A frame between the collector's start and its first tick. -/
theorem tick_exact_once :
    ∃ s, telemetry.run (.create 0) [.collector .start, .collector .caller, .collector .caller, .orchestrator .start,
        .orchestrator .caller, .orchestrator .caller, .orchestrator (.push false), .orchestrator (.consumer true),
        .orchestrator (.consumer true), .orchestrator (.consumer true), .orchestrator (.consumer true),
        .collector .thread, .collector .thread] =
      some (s, [.looked 0, .orchestrator (.reset 0), .orchestrator (.pushed ⟨0, false⟩), .orchestrator (.popped ⟨0, false⟩),
        .orchestrator (.published 0 true), .orchestrator (.processed 0 0), .ticked 0 1 1]) ∧
      Everywhere ExactAt [.looked 0, .orchestrator (.reset 0), .orchestrator (.pushed ⟨0, false⟩),
        .orchestrator (.popped ⟨0, false⟩), .orchestrator (.published 0 true), .orchestrator (.processed 0 0),
        .ticked 0 1 1] := by
  refine ⟨_, rfl, (@ticks_exact_iff 0 [.collector .start, .collector .caller, .collector .caller, .orchestrator .start,
    .orchestrator .caller, .orchestrator .caller, .orchestrator (.push false), .orchestrator (.consumer true),
    .orchestrator (.consumer true), .orchestrator (.consumer true), .orchestrator (.consumer true), .collector .thread,
    .collector .thread] _ [.looked 0, .orchestrator (.reset 0), .orchestrator (.pushed ⟨0, false⟩),
    .orchestrator (.popped ⟨0, false⟩), .orchestrator (.published 0 true), .orchestrator (.processed 0 0),
    .ticked 0 1 1] rfl).mpr ?_⟩
  simp [Everywhere.cons_iff, Everywhere.nil, CalmAt, sinceLook, TelemetryEvent.isLook, TelemetryEvent.Calm]

/-- The orchestrator is started anew between two looks: the difference runs under. -/
theorem tick_runs_under :
    ∃ s h, telemetry.run (.create 0) [.orchestrator .start, .orchestrator .caller, .orchestrator .caller,
        .orchestrator (.push false), .orchestrator (.consumer true), .orchestrator (.consumer true),
        .orchestrator (.consumer true), .orchestrator (.consumer true), .collector .start, .collector .caller,
        .collector .caller, .orchestrator .stop, .orchestrator .caller, .orchestrator (.consumer true),
        .orchestrator (.consumer true), .orchestrator .caller, .orchestrator .start, .orchestrator .caller,
        .collector .thread, .collector .thread] = some (s, h ++ [.ticked 1 0 18446744073709551615]) ∧
      ¬ExactAt h (.ticked 1 0 18446744073709551615) := by
  refine ⟨_, [.orchestrator (.reset 0), .orchestrator (.pushed ⟨0, false⟩), .orchestrator (.popped ⟨0, false⟩),
    .orchestrator (.published 0 true), .orchestrator (.processed 0 0), .looked 1, .orchestrator .closed,
    .orchestrator (.reset 1)], rfl, fun hexact => ?_⟩
  exact absurd hexact.1 (by decide)

end IbarraGateway.GemaVision.Reporting
