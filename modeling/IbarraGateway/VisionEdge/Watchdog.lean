import IbarraGateway.Lib.Machine
import Mathlib.Order.Nat

/-!
# The watchdog of the vision node

`Watchdog` of the vision node: the thread that owns it (`start`, `heartbeat`, `stop`), the monitor thread, and the steady clock
that both read, in milliseconds. Their steps interleave in any order; `last_heartbeat_` and `running_` are read and written
one at a time, and the clock may run between any two steps.

* `alarms_exact` : at every comparison of every run the process exits if and only if all heartbeats are too old.
* `hang_detected` : how long a hang and a stop take when the monitor thread gets to run.
-/

namespace IbarraGateway.VisionEdge.Watchdog

/-! ## The two threads -/

/-- `TIMEOUT_MS`. -/
def timeoutMs : Nat := 5000

/-- Where `monitorLoop` is; `comparing currentTime` : it has read the clock, and `last_heartbeat_` not yet. -/
inductive Place
  | looping
  | sleeping
  | comparing (currentTime : Nat)
  | returned
  deriving DecidableEq, Repr

/-- A joinable `thread_` : when it was made, where it is, and since when. -/
structure Monitor where
  made : Nat
  place : Place
  since : Nat
  deriving DecidableEq, Repr

/-- Where the owner is: in none of the calls, in `start` before its heartbeat, in `heartbeat` with the clock read (`first` : the
heartbeat of `start`), in `start` behind it, in `stop` since it cleared `running_`. -/
inductive Owner
  | free
  | starting
  | storing (now : Nat) (first : Bool)
  | making
  | joining (since : Nat)
  deriving DecidableEq, Repr

structure Process where
  now : Nat
  lastHeartbeat : Nat
  running : Bool
  thread : Option Monitor
  owner : Owner
  up : Bool
  deriving DecidableEq, Repr

inductive Call
  | start
  | heartbeat
  | stop
  deriving DecidableEq, Repr

/-- The clock, a call by the owner, and the next step of either thread. -/
inductive Input
  | tick (ms : Nat)
  | call (c : Call)
  | owner
  | monitor
  deriving DecidableEq, Repr

/-- `passed t` and `exited t` : the two ends of a comparison, with the reading that was compared. -/
inductive Event
  | stored (now : Nat)
  | made (now : Nat)
  | passed (currentTime : Nat)
  | exited (currentTime : Nat)
  | joined (now : Nat)
  | terminated
  deriving DecidableEq, Repr

/-- The process before `start`. -/
def Process.created (now : Nat) : Process := ⟨now, 0, false, none, .free, true⟩

def Process.call (s : Process) : Call → Option (Process × List Event)
  | .start => some ({ s with running := true, owner := .starting }, [])
  | .heartbeat => some ({ s with owner := .storing s.now false }, [])
  | .stop =>
    let owner := if s.thread.isSome then .joining s.now else .free
    some ({ s with running := false, owner := owner }, [])

def Process.advance (s : Process) : Option (Process × List Event) :=
  match s.owner with
  | .free => none
  | .starting => some ({ s with owner := .storing s.now true }, [])
  | .storing now first =>
    some ({ s with lastHeartbeat := now, owner := if first then .making else .free }, [.stored now])
  | .making =>
    match s.thread with
    | none => some ({ s with thread := some ⟨s.now, .looping, s.now⟩, owner := .free }, [.made s.now])
    -- a thread is assigned to a joinable one
    | some _ => some ({ s with up := false }, [.terminated])
  | .joining _ =>
    match s.thread with
    | none => none
    | some m =>
      if m.place = .returned then some ({ s with thread := none, owner := .free }, [.joined s.now]) else none

def Process.goto (s : Process) (m : Monitor) (place : Place) : Process :=
  { s with thread := some { m with place, since := s.now } }

def Process.monitorLoop (s : Process) (m : Monitor) : Option (Process × List Event) :=
  match m.place with
  | .looping => some (s.goto m (if s.running then .sleeping else .returned), [])
  | .sleeping => if m.since + 1000 ≤ s.now then some (s.goto m (.comparing s.now), []) else none
  | .comparing currentTime =>
    if (currentTime : Int) - s.lastHeartbeat > timeoutMs then some ({ s with up := false }, [.exited currentTime])
    else some (s.goto m .looping, [.passed currentTime])
  | .returned => none

def Process.next (s : Process) : Input → Option (Process × List Event)
  | .tick ms => some ({ s with now := s.now + ms }, [])
  | .call c => if s.owner = .free then s.call c else none
  | .owner => s.advance
  | .monitor => s.thread.bind s.monitorLoop

def process : Machine Process Input Event where
  step s input := if s.up then s.next input else none

/-! ## What a step does -/

/-- The steps, one constructor for each. -/
inductive Step (s : Process) : Input → Process → List Event → Prop
  | tick (ms : Nat) : Step s (.tick ms) { s with now := s.now + ms } []
  | start (howner : s.owner = .free) : Step s (.call .start) { s with running := true, owner := .starting } []
  | heartbeat (howner : s.owner = .free) : Step s (.call .heartbeat) { s with owner := .storing s.now false } []
  | stop (m : Monitor) (howner : s.owner = .free) (hthread : s.thread = some m) :
    Step s (.call .stop) { s with running := false, owner := .joining s.now } []
  | stopNone (howner : s.owner = .free) (hthread : s.thread = none) :
    Step s (.call .stop) { s with running := false, owner := .free } []
  | read (howner : s.owner = .starting) : Step s .owner { s with owner := .storing s.now true } []
  | store (now : Nat) (first : Bool) (howner : s.owner = .storing now first) :
    Step s .owner { s with lastHeartbeat := now, owner := if first then .making else .free } [.stored now]
  | make (howner : s.owner = .making) (hthread : s.thread = none) :
    Step s .owner { s with thread := some ⟨s.now, .looping, s.now⟩, owner := .free } [.made s.now]
  | terminate (howner : s.owner = .making) : Step s .owner { s with up := false } [.terminated]
  | join (t : Nat) (m : Monitor) (howner : s.owner = .joining t) (hthread : s.thread = some m) (hplace : m.place = .returned) :
    Step s .owner { s with thread := none, owner := .free } [.joined s.now]
  | sleep (m : Monitor) (hthread : s.thread = some m) (hplace : m.place = .looping) (hrunning : s.running = true) :
    Step s .monitor (s.goto m .sleeping) []
  | leave (m : Monitor) (hthread : s.thread = some m) (hplace : m.place = .looping) (hrunning : s.running = false) :
    Step s .monitor (s.goto m .returned) []
  | wake (m : Monitor) (hthread : s.thread = some m) (hplace : m.place = .sleeping) (hdue : m.since + 1000 ≤ s.now) :
    Step s .monitor (s.goto m (.comparing s.now)) []
  | pass (m : Monitor) (t : Nat) (hthread : s.thread = some m) (hplace : m.place = .comparing t)
    (hrecent : t ≤ s.lastHeartbeat + timeoutMs) : Step s .monitor (s.goto m .looping) [.passed t]
  | exit (m : Monitor) (t : Nat) (hthread : s.thread = some m) (hplace : m.place = .comparing t)
    (hold : s.lastHeartbeat + timeoutMs < t) : Step s .monitor { s with up := false } [.exited t]

theorem step_call {s t : Process} {c : Call} {out : List Event} (howner : s.owner = .free) (hcall : s.call c = some (t, out)) :
    Step s (.call c) t out := by
  cases c with
  | start =>
    cases hcall
    exact .start howner
  | heartbeat =>
    cases hcall
    exact .heartbeat howner
  | stop =>
    cases hcall
    cases hthread : s.thread with
    | none =>
      have hstop := Step.stopNone howner hthread
      rwa [hthread] at hstop
    | some m =>
      have hstop := Step.stop m howner hthread
      rwa [hthread] at hstop

theorem step_advance {s t : Process} {out : List Event} (hadvance : s.advance = some (t, out)) : Step s .owner t out := by
  unfold Process.advance at hadvance
  split at hadvance
  · cases hadvance
  · cases hadvance
    exact .read ‹_›
  · cases hadvance
    exact .store _ _ ‹_›
  · split at hadvance
    · cases hadvance
      exact .make ‹_› ‹_›
    · cases hadvance
      exact .terminate ‹_›
  · split at hadvance
    · cases hadvance
    · split at hadvance
      · cases hadvance
        exact .join _ _ ‹_› ‹_› ‹_›
      · cases hadvance

theorem step_monitor {s t : Process} {m : Monitor} {out : List Event} (hthread : s.thread = some m)
    (hmonitor : s.monitorLoop m = some (t, out)) : Step s .monitor t out := by
  unfold Process.monitorLoop at hmonitor
  split at hmonitor
  · cases hmonitor
    split
    · exact .sleep m hthread ‹_› ‹_›
    · exact .leave m hthread ‹_› (Bool.eq_false_iff.mpr ‹_›)
  · split at hmonitor
    · cases hmonitor
      exact .wake m hthread ‹_› ‹_›
    · cases hmonitor
  · split at hmonitor
    · cases hmonitor
      exact .exit m _ hthread ‹_› (by omega)
    · cases hmonitor
      exact .pass m _ hthread ‹_› (by omega)
  · cases hmonitor

theorem step_of_next {s t : Process} {input : Input} {out : List Event} (hnext : s.next input = some (t, out)) :
    Step s input t out := by
  cases input with
  | tick ms =>
    cases hnext
    exact .tick ms
  | call c =>
    rw [Process.next] at hnext
    split at hnext
    · exact step_call ‹_› hnext
    · cases hnext
  | owner => exact step_advance hnext
  | monitor =>
    obtain ⟨m, hthread, hmonitor⟩ := Option.bind_eq_some_iff.mp hnext
    exact step_monitor hthread hmonitor

theorem step_of_process {s t : Process} {input : Input} {out : List Event} (hstep : process.step s input = some (t, out)) :
    s.up = true ∧ Step s input t out := by
  obtain ⟨hup, hnext⟩ : s.up = true ∧ s.next input = some (t, out) := by simpa [process] using hstep
  exact ⟨hup, step_of_next hnext⟩

/-! ## Alarms -/

/-- A comparison that ends the process has nothing but old heartbeats behind it; any other has one that is not. -/
def Exact (before : List Event) : Event → Prop
  | .exited t => ∀ u, .stored u ∈ before → u + timeoutMs < t
  | .passed t => ∃ u, .stored u ∈ before ∧ t ≤ u + timeoutMs
  | _ => True

/-- `last_heartbeat_` is the latest heartbeat, and there is one before there is a thread. -/
structure Latest (h : List Event) (s : Process) : Prop where
  now : s.lastHeartbeat ≤ s.now
  storing : ∀ t first, s.owner = .storing t first → s.lastHeartbeat ≤ t ∧ t ≤ s.now
  latest : ∀ u, .stored u ∈ h → u ≤ s.lastHeartbeat
  begun : s.owner = .making ∨ s.thread.isSome → .stored s.lastHeartbeat ∈ h

theorem latest_created (now : Nat) : Latest [] (.created now) :=
  ⟨Nat.zero_le _, by simp [Process.created], by simp, by simp [Process.created]⟩

variable {s t : Process} {input : Input} {h out : List Event}

/-- A step that stores nothing. -/
theorem Latest.keep (hl : Latest h s) (hlast : t.lastHeartbeat = s.lastHeartbeat) (hnow : s.now ≤ t.now)
    (hstoring : ∀ u first, t.owner = .storing u first → s.owner = .storing u first ∨ u = s.now)
    (hbegun : t.owner = .making ∨ t.thread.isSome → s.owner = .making ∨ s.thread.isSome)
    (hout : ∀ u, .stored u ∉ out) : Latest (h ++ out) t where
  now := by
    rw [hlast]
    exact hl.now.trans hnow
  storing u first howner := by
    rw [hlast]
    rcases hstoring u first howner with hsame | rfl
    · exact (hl.storing u first hsame).imp_right fun hle => hle.trans hnow
    · exact ⟨hl.now, hnow⟩
  latest u hu := by
    rw [hlast]
    exact (List.mem_append.mp hu).elim (hl.latest u) fun hcontra => absurd hcontra (hout u)
  begun ht := by
    rw [hlast]
    exact List.mem_append_left out (hl.begun (hbegun ht))

/-- **Step lemma**: the latest heartbeat, and the comparison of the step. -/
theorem Latest.step (hl : Latest h s) (hstep : Step s input t out) :
    Latest (h ++ out) t ∧ Everywhere (fun before => Exact (h ++ before)) out := by
  cases hstep with
  | tick ms => exact ⟨hl.keep rfl (Nat.le_add_right _ _) (fun _ _ => .inl) id (by simp), Everywhere.nil⟩
  | start howner => exact ⟨hl.keep rfl le_rfl (by simp) (Or.imp_left (by simp)) (by simp), Everywhere.nil⟩
  | heartbeat howner => exact ⟨hl.keep rfl le_rfl (by simp +contextual) (Or.imp_left (by simp)) (by simp), Everywhere.nil⟩
  | stop m howner hthread => exact ⟨hl.keep rfl le_rfl (by simp) (Or.imp_left (by simp)) (by simp), Everywhere.nil⟩
  | stopNone howner hthread => exact ⟨hl.keep rfl le_rfl (by simp) (Or.imp_left (by simp)) (by simp), Everywhere.nil⟩
  | read howner => exact ⟨hl.keep rfl le_rfl (by simp +contextual) (Or.imp_left (by simp)) (by simp), Everywhere.nil⟩
  | store now first howner =>
    obtain ⟨hle, hnow⟩ := hl.storing now first howner
    refine ⟨⟨hnow, fun u first' heq => ?_, fun u hu => ?_, fun _ => by simp⟩, Everywhere.singleton_iff.mpr trivial⟩
    · cases first <;> simp at heq
    · rcases List.mem_append.mp hu with hu | hu
      · exact (hl.latest u hu).trans hle
      · cases List.mem_singleton.mp hu
        exact le_rfl
  | make howner hthread =>
    exact ⟨hl.keep rfl le_rfl (by simp) (fun _ => .inl howner) (by simp), Everywhere.singleton_iff.mpr trivial⟩
  | terminate howner => exact ⟨hl.keep rfl le_rfl (fun _ _ => .inl) id (by simp), Everywhere.singleton_iff.mpr trivial⟩
  | join u m howner hthread hplace =>
    exact ⟨hl.keep rfl le_rfl (by simp) (by simp) (by simp), Everywhere.singleton_iff.mpr trivial⟩
  | sleep m hthread hplace hrunning =>
    exact ⟨hl.keep rfl le_rfl (fun _ _ => .inl) (fun _ => .inr (by simp [hthread])) (by simp), Everywhere.nil⟩
  | leave m hthread hplace hrunning =>
    exact ⟨hl.keep rfl le_rfl (fun _ _ => .inl) (fun _ => .inr (by simp [hthread])) (by simp), Everywhere.nil⟩
  | wake m hthread hplace hdue =>
    exact ⟨hl.keep rfl le_rfl (fun _ _ => .inl) (fun _ => .inr (by simp [hthread])) (by simp), Everywhere.nil⟩
  | pass m u hthread hplace hrecent =>
    refine ⟨hl.keep rfl le_rfl (fun _ _ => .inl) (fun _ => .inr (by simp [hthread])) (by simp), Everywhere.singleton_iff.mpr ?_⟩
    have hbegun : .stored s.lastHeartbeat ∈ h := hl.begun (.inr (by simp [hthread]))
    exact ⟨s.lastHeartbeat, by simpa using hbegun, hrecent⟩
  | exit m u hthread hplace hold =>
    refine ⟨hl.keep rfl le_rfl (fun _ _ => .inl) id (by simp), Everywhere.singleton_iff.mpr fun v hv => ?_⟩
    have hle := hl.latest v (by simpa using hv)
    omega

/-- **Alarms are exact**, in every interleaving of the two threads with the clock. -/
theorem alarms_exact (now : Nat) (inputs : List Input) (s : Process) (h : List Event)
    (hrun : process.run (.created now) inputs = some (s, h)) : Everywhere Exact h := by
  have hinv := process.run_induction (I := fun h s => Latest h s ∧ Everywhere Exact h) (fun h s input t out hI _ hstep => ?_)
    ⟨latest_created now, Everywhere.nil⟩ (process.along_true _ inputs) hrun
  · exact hinv.2
  · obtain ⟨hlatest, hout⟩ := hI.1.step (step_of_process hstep).2
    exact ⟨hlatest, Everywhere.append_iff.mpr ⟨hI.2, hout⟩⟩

/-- `start`, and the first step of its thread. -/
def started : List Input := [.call .start, .owner, .owner, .owner, .monitor]

/-- The owner does nothing, and the monitor thread looks once a second. -/
def seconds (n : Nat) : List Input := (List.replicate n [.tick 1000, .monitor, .monitor, .monitor]).flatten

/-- Nothing is heard for six seconds. -/
theorem hang_exact : Everywhere Exact
    [.stored 100, .made 100, .passed 1100, .passed 2100, .passed 3100, .passed 4100, .passed 5100, .exited 6100] :=
  alarms_exact 100 (started ++ seconds 5 ++ [.tick 1000, .monitor, .monitor]) _ _ rfl

/-- The clock moves only while `last_heartbeat_` is less than `TIMEOUT_MS` old, once there is a thread. -/
def Punctual (s : Process) : Input → Prop
  | .tick ms => s.thread.isSome → s.now + ms ≤ s.lastHeartbeat + timeoutMs
  | _ => True

instance (s : Process) : ∀ input, Decidable (Punctual s input)
  | .tick ms => inferInstanceAs (Decidable (s.thread.isSome → s.now + ms ≤ s.lastHeartbeat + timeoutMs))
  | .call _ | .owner | .monitor => isTrue trivial

/-- What the monitor thread has read is recent; a thread that has been there for a while has seen the clock move. -/
structure Recent (s : Process) (m : Monitor) : Prop where
  made : m.made ≤ m.since
  since : m.since ≤ s.now
  now : s.now = m.made ∨ s.now ≤ s.lastHeartbeat + timeoutMs
  comparing : ∀ u, m.place = .comparing u → u ≤ s.lastHeartbeat + timeoutMs

theorem Recent.keep {m : Monitor} (hr : Recent s m) (hnow : t.now = s.now) (hlast : s.lastHeartbeat ≤ t.lastHeartbeat) : Recent t m where
  made := hr.made
  since := by
    rw [hnow]
    exact hr.since
  now := by
    rw [hnow]
    exact hr.now.imp_right fun hle => hle.trans (Nat.add_le_add_right hlast _)
  comparing u hu := (hr.comparing u hu).trans (Nat.add_le_add_right hlast _)

theorem Recent.goto {m : Monitor} (hr : Recent s m) (place : Place)
    (hcomparing : ∀ u, place = .comparing u → u ≤ s.lastHeartbeat + timeoutMs) :
    Recent (s.goto m place) { m with place, since := s.now } :=
  ⟨hr.made.trans hr.since, le_rfl, hr.now, hcomparing⟩

theorem recent_step (hl : Latest h s) (hr : ∀ m, s.thread = some m → Recent s m) (hok : Punctual s input)
    (hstep : Step s input t out) : (∀ m, t.thread = some m → Recent t m) ∧ ∀ u, .exited u ∉ out := by
  cases hstep with
  | tick ms =>
    refine ⟨fun m hm => ?_, by simp⟩
    obtain ⟨hmade, hsince, hnow, hcomparing⟩ := hr m hm
    have hthread : s.thread = some m := hm
    exact ⟨hmade, hsince.trans (Nat.le_add_right _ _), .inr (hok (by simp [hthread])), hcomparing⟩
  | start howner => exact ⟨fun m hm => (hr m hm).keep rfl le_rfl, by simp⟩
  | heartbeat howner => exact ⟨fun m hm => (hr m hm).keep rfl le_rfl, by simp⟩
  | stop m howner hthread => exact ⟨fun m hm => (hr m hm).keep rfl le_rfl, by simp⟩
  | stopNone howner hthread => exact ⟨fun m hm => (hr m hm).keep rfl le_rfl, by simp⟩
  | read howner => exact ⟨fun m hm => (hr m hm).keep rfl le_rfl, by simp⟩
  | store now first howner => exact ⟨fun m hm => (hr m hm).keep rfl (hl.storing now first howner).1, by simp⟩
  | make howner hthread =>
    refine ⟨?_, by simp⟩
    rintro m ⟨⟩
    exact ⟨le_rfl, le_rfl, .inl rfl, by simp⟩
  | terminate howner => exact ⟨fun m hm => (hr m hm).keep rfl le_rfl, by simp⟩
  | join u m howner hthread hplace => exact ⟨by simp, by simp⟩
  | sleep m hthread hplace hrunning =>
    refine ⟨?_, by simp⟩
    rintro _ ⟨⟩
    exact (hr m hthread).goto _ (by simp)
  | leave m hthread hplace hrunning =>
    refine ⟨?_, by simp⟩
    rintro _ ⟨⟩
    exact (hr m hthread).goto _ (by simp)
  | wake m hthread hplace hdue =>
    refine ⟨?_, by simp⟩
    rintro _ ⟨⟩
    refine (hr m hthread).goto _ fun u hu => ?_
    cases hu
    -- a second has gone by since the thread was made
    obtain ⟨hmade, _, hnow, _⟩ := hr m hthread
    omega
  | pass m u hthread hplace hrecent =>
    refine ⟨?_, by simp⟩
    rintro _ ⟨⟩
    exact (hr m hthread).goto _ (by simp)
  | exit m u hthread hplace hold =>
    have hrecent := (hr m hthread).comparing u hplace
    omega

/-- **Heartbeats suffice**: a process whose heartbeats are never older than `TIMEOUT_MS` does not exit. -/
theorem heartbeats_suffice (now : Nat) (inputs : List Input) (s : Process) (h : List Event)
    (hpunctual : process.Along Punctual (.created now) inputs) (hrun : process.run (.created now) inputs = some (s, h)) :
    ∀ t, .exited t ∉ h := by
  have hinv := process.run_induction
    (I := fun h s => Latest h s ∧ (∀ m, s.thread = some m → Recent s m) ∧ ∀ t, .exited t ∉ h)
    (fun h s input t out hI hok hstep => ?_) ⟨latest_created now, by simp [Process.created], by simp⟩ hpunctual hrun
  · exact hinv.2.2
  · obtain ⟨hl, hr, hnot⟩ := hI
    have hstep := (step_of_process hstep).2
    obtain ⟨hrecent, hout⟩ := recent_step hl hr hok hstep
    exact ⟨(hl.step hstep).1, hrecent, fun u hu => (List.mem_append.mp hu).elim (hnot u) (hout u)⟩

/-- A heartbeat in every second. -/
def beating (n : Nat) : List Input :=
  (List.replicate n [.tick 1000, .call .heartbeat, .owner, .monitor, .monitor, .monitor]).flatten

/-- What two of them leave. -/
def beaten : List Event := [.stored 100, .made 100, .stored 1100, .passed 1100, .stored 2100, .passed 2100]

theorem beating_suffices : .passed 2100 ∈ beaten ∧ ∀ t, .exited t ∉ beaten := by
  refine ⟨by decide, ?_⟩
  exact heartbeats_suffice 100 (started ++ beating 2) ⟨2100, 2100, true, some ⟨100, .sleeping, 2100⟩, .free, true⟩ beaten
    (by decide) rfl

/-! ## How long it takes -/

/-- How long the monitor thread stays where it is, when it runs within `δ` of being able to. -/
def Place.limit (δ : Nat) : Place → Nat
  | .looping => δ
  | .sleeping => 1000 + δ
  | .comparing _ => δ
  | .returned => 0

def InTime (δ now : Nat) (m : Monitor) : Prop := m.place = .returned ∨ now ≤ m.since + m.place.limit δ

/-- The clock does not run away from the monitor thread. -/
def Scheduled (δ : Nat) (s : Process) : Input → Prop
  | .tick ms => ∀ m, s.thread = some m → InTime δ (s.now + ms) m
  | _ => True

instance (δ now : Nat) (m : Monitor) : Decidable (InTime δ now m) := inferInstanceAs (Decidable (_ ∨ _))

instance (δ : Nat) (s : Process) : ∀ input, Decidable (Scheduled δ s input)
  | .tick ms => inferInstanceAs (Decidable (∀ m ∈ s.thread, InTime δ (s.now + ms) m))
  | .call _ | .owner | .monitor => isTrue trivial

/-- From here to the end of the next comparison. -/
def Place.verdict (δ : Nat) : Place → Nat
  | .looping => 1000 + 3 * δ
  | .sleeping => 1000 + 2 * δ
  | .comparing _ => δ
  | .returned => 0

/-- From here to the end of the loop, once `running_` is cleared. -/
def Place.leaving (δ : Nat) : Place → Nat
  | .looping => δ
  | .sleeping => 1000 + 3 * δ
  | .comparing _ => 2 * δ
  | .returned => 0

theorem limit_le_verdict (δ : Nat) (p : Place) : p.limit δ ≤ p.verdict δ := by
  cases p <;> simp only [Place.limit, Place.verdict] <;> omega

theorem limit_le_leaving (δ : Nat) (p : Place) : p.limit δ ≤ p.leaving δ := by
  cases p <;> simp only [Place.limit, Place.leaving] <;> omega

/-- By when the heartbeats so far are found too old. -/
def Process.deadline (s : Process) (m : Monitor) (δ : Nat) : Nat :=
  max (s.lastHeartbeat + timeoutMs) m.made + 1000 + 4 * δ

/-- Where the monitor thread is, in time. -/
structure Timed (δ : Nat) (s : Process) (m : Monitor) : Prop where
  since : m.since ≤ s.now
  inTime : InTime δ s.now m
  comparing : ∀ u, m.place = .comparing u → u = m.since
  verdict : s.running = true → m.place ≠ .returned ∧ m.since + m.place.verdict δ ≤ s.deadline m δ
  leaving : ∀ u, s.owner = .joining u → m.place = .returned ∨ m.since + m.place.leaving δ ≤ u + 1000 + 3 * δ

/-- `running_` is set in `start` and cleared in `stop`, which waits for the thread. -/
structure Stopping (s : Process) : Prop where
  starting : s.owner = .starting ∨ (∃ u, s.owner = .storing u true) ∨ s.owner = .making → s.running = true
  joining : (∃ u, s.owner = .joining u) ↔ s.running = false ∧ s.thread.isSome

theorem Stopping.step (hs : Stopping s) (hstep : Step s input t out) : Stopping t := by
  cases hstep with
  | tick ms => exact ⟨hs.starting, hs.joining⟩
  | start howner => exact ⟨fun _ => rfl, by simp⟩
  | heartbeat howner => exact ⟨by simp, by simpa [howner] using hs.joining⟩
  | stop m howner hthread => exact ⟨by simp, by simp [hthread]⟩
  | stopNone howner hthread => exact ⟨by simp, by simp [hthread]⟩
  | read howner => exact ⟨fun _ => hs.starting (.inl howner), by simpa [howner] using hs.joining⟩
  | store now first howner =>
    cases first with
    | false => exact ⟨by simp, by simpa [howner] using hs.joining⟩
    | true => exact ⟨fun _ => hs.starting (.inr (.inl ⟨now, howner⟩)), by simpa [howner] using hs.joining⟩
  | make howner hthread => exact ⟨by simp, by simp [hs.starting (.inr (.inr howner))]⟩
  | terminate howner => exact ⟨hs.starting, hs.joining⟩
  | join u m howner hthread hplace => exact ⟨by simp, by simp⟩
  | sleep m hthread hplace hrunning => exact ⟨hs.starting, by simpa [Process.goto, hthread] using hs.joining⟩
  | leave m hthread hplace hrunning => exact ⟨hs.starting, by simpa [Process.goto, hthread] using hs.joining⟩
  | wake m hthread hplace hdue => exact ⟨hs.starting, by simpa [Process.goto, hthread] using hs.joining⟩
  | pass m u hthread hplace hrecent => exact ⟨hs.starting, by simpa [Process.goto, hthread] using hs.joining⟩
  | exit m u hthread hplace hold => exact ⟨hs.starting, hs.joining⟩

variable {δ : Nat} {m m' : Monitor}

theorem leaving_le (δ : Nat) (p : Place) : p.leaving δ ≤ 1000 + 3 * δ := by
  cases p <;> simp only [Place.leaving] <;> omega

theorem deadline_mono (hlast : s.lastHeartbeat ≤ t.lastHeartbeat) : s.deadline m δ ≤ t.deadline m δ := by
  unfold Process.deadline
  omega

/-- A step of the owner. -/
theorem Timed.keep (ht : Timed δ s m) (hnow : t.now = s.now) (hlast : s.lastHeartbeat ≤ t.lastHeartbeat)
    (hrunning : t.running = true → s.running = true) (howner : ∀ u, t.owner = .joining u → s.owner = .joining u ∨ u = s.now) :
    Timed δ t m where
  since := by
    rw [hnow]
    exact ht.since
  inTime := by
    rw [hnow]
    exact ht.inTime
  comparing := ht.comparing
  verdict hrun := by
    obtain ⟨hplace, hdue⟩ := ht.verdict (hrunning hrun)
    exact ⟨hplace, hdue.trans (deadline_mono hlast)⟩
  leaving u hu := by
    rcases howner u hu with hsame | rfl
    · exact ht.leaving u hsame
    · have hle := leaving_le δ m.place
      have hsince := ht.since
      exact .inr (by omega)

/-- A step of the monitor thread, to `place`. -/
theorem Timed.goto (place : Place) (hcomparing : ∀ u, place = .comparing u → u = s.now)
    (hverdict : s.running = true → place ≠ .returned ∧ s.now + place.verdict δ ≤ s.deadline m δ)
    (hleaving : ∀ u, s.owner = .joining u → place = .returned ∨ s.now + place.leaving δ ≤ u + 1000 + 3 * δ) :
    Timed δ (s.goto m place) { m with place, since := s.now } :=
  ⟨le_rfl, .inr (Nat.le_add_right _ _), hcomparing, hverdict, hleaving⟩

theorem Timed.tick (ht : Timed δ s m) {ms : Nat} (hok : InTime δ (s.now + ms) m) : Timed δ { s with now := s.now + ms } m :=
  ⟨ht.since.trans (Nat.le_add_right _ _), hok, ht.comparing, ht.verdict, ht.leaving⟩

theorem Timed.sleep (ht : Timed δ s m) (hs : Stopping s) (hplace : m.place = .looping) (hrunning : s.running = true) :
    Timed δ (s.goto m .sleeping) { m with place := .sleeping, since := s.now } := by
  refine Timed.goto _ (by simp) (fun _ => ⟨by simp, ?_⟩) (fun u hu => ?_)
  · have hin := ht.inTime
    have hdue := (ht.verdict hrunning).2
    simp only [InTime, hplace, Place.limit, reduceCtorEq, false_or] at hin
    simp only [hplace, Place.verdict] at hdue ⊢
    omega
  · exact absurd (hs.joining.mp ⟨u, hu⟩).1 (by simp [hrunning])

theorem Timed.wake (ht : Timed δ s m) (hplace : m.place = .sleeping) :
    Timed δ (s.goto m (.comparing s.now)) { m with place := .comparing s.now, since := s.now } := by
  have hin := ht.inTime
  simp only [InTime, hplace, Place.limit, reduceCtorEq, false_or] at hin
  refine Timed.goto _ (by simp +contextual) (fun hrunning => ⟨by simp, ?_⟩) (fun u hu => .inr ?_)
  · have hdue := (ht.verdict hrunning).2
    simp only [hplace, Place.verdict] at hdue ⊢
    omega
  · have hdue := ht.leaving u hu
    simp only [hplace, Place.leaving, reduceCtorEq, false_or] at hdue ⊢
    omega

theorem Timed.pass (ht : Timed δ s m) {u : Nat} (hplace : m.place = .comparing u) (hrecent : u ≤ s.lastHeartbeat + timeoutMs) :
    Timed δ (s.goto m .looping) { m with place := .looping, since := s.now } := by
  have hin := ht.inTime
  have hread := ht.comparing u hplace
  simp only [InTime, hplace, Place.limit, reduceCtorEq, false_or] at hin
  refine Timed.goto _ (by simp) (fun _ => ⟨by simp, ?_⟩) (fun v hv => .inr ?_)
  · simp only [Place.verdict, Process.deadline]
    omega
  · have hdue := ht.leaving v hv
    simp only [hplace, Place.leaving, reduceCtorEq, false_or] at hdue ⊢
    omega

/-- **Step lemma**: in time. -/
theorem timed_step (hl : Latest h s) (hs : Stopping s) (ht : ∀ m, s.thread = some m → Timed δ s m) (hok : Scheduled δ s input)
    (hstep : Step s input t out) : ∀ m, t.thread = some m → Timed δ t m := by
  cases hstep with
  | tick ms => exact fun m hm => (ht m hm).tick (hok m hm)
  | start howner =>
    refine fun m hm => (ht m hm).keep rfl le_rfl (fun _ => ?_) (by simp)
    -- a thread that is there has not been stopped
    by_contra hnot
    obtain ⟨u, hu⟩ := hs.joining.mpr ⟨Bool.eq_false_iff.mpr hnot, by simp [show s.thread = some m from hm]⟩
    rw [howner] at hu
    cases hu
  | heartbeat howner => exact fun m hm => (ht m hm).keep rfl le_rfl id (by simp)
  | stop m howner hthread => exact fun m hm => (ht m hm).keep rfl le_rfl (by simp) (by simp +contextual)
  | stopNone howner hthread => simp [hthread]
  | read howner => exact fun m hm => (ht m hm).keep rfl le_rfl id (by simp)
  | store now first howner =>
    refine fun m hm => (ht m hm).keep rfl (hl.storing now first howner).1 id (fun u hu => ?_)
    cases first <;> simp at hu
  | make howner hthread =>
    rintro m ⟨⟩
    refine ⟨le_rfl, .inr (Nat.le_add_right _ _), by simp, fun _ => ⟨by simp, ?_⟩, by simp⟩
    simp only [Place.verdict, Process.deadline]
    omega
  | terminate howner => exact fun m hm => (ht m hm).keep rfl le_rfl id (fun _ => .inl)
  | join u m howner hthread hplace => simp
  | sleep m hthread hplace hrunning =>
    rintro _ ⟨⟩
    exact (ht m hthread).sleep hs hplace hrunning
  | leave m hthread hplace hrunning =>
    rintro _ ⟨⟩
    exact Timed.goto _ (by simp) (by simp [hrunning]) (fun _ _ => .inl rfl)
  | wake m hthread hplace hdue =>
    rintro _ ⟨⟩
    exact (ht m hthread).wake hplace
  | pass m u hthread hplace hrecent =>
    rintro _ ⟨⟩
    exact (ht m hthread).pass hplace hrecent
  | exit m u hthread hplace hold => exact fun m hm => (ht m hm).keep rfl le_rfl id (fun _ => .inl)

theorem Timed.now_le (ht : Timed δ s m) :
    (s.running = true → s.now ≤ s.deadline m δ) ∧
      ∀ u, s.owner = .joining u → m.place = .returned ∨ s.now ≤ u + 1000 + 3 * δ := by
  refine ⟨fun hrunning => ?_, fun u hu => ?_⟩
  · obtain ⟨hplace, hdue⟩ := ht.verdict hrunning
    have hin := ht.inTime.resolve_left hplace
    have hle := limit_le_verdict δ m.place
    omega
  · rcases ht.inTime with hreturned | hin
    · exact .inl hreturned
    · refine (ht.leaving u hu).imp_right fun hdue => ?_
      have hle := limit_le_leaving δ m.place
      omega

/-- **Hangs are detected, and stops return.** When the monitor thread gets to run within `δ`, then in every state of every run:
while `running_` is set, the clock is at most `6000 + 4 * δ` behind the last heartbeat (`1000 + 4 * δ` behind the start of the
thread), so that the process has exited by then; and once `stop` waits, the thread has left its loop, or the process exited,
after `1000 + 3 * δ`. -/
theorem hang_detected (δ now : Nat) (inputs : List Input) (s : Process) (h : List Event)
    (hscheduled : process.Along (Scheduled δ) (.created now) inputs) (hrun : process.run (.created now) inputs = some (s, h))
    (m : Monitor) (hthread : s.thread = some m) :
    (s.running = true → s.now ≤ max (s.lastHeartbeat + 5000) m.made + 1000 + 4 * δ) ∧
      ∀ u, s.owner = .joining u → m.place = .returned ∨ s.now ≤ u + 1000 + 3 * δ := by
  have hinv := process.run_induction (I := fun h s => Latest h s ∧ Stopping s ∧ ∀ m, s.thread = some m → Timed δ s m)
    (fun h s input t out hI hok hstep => ?_)
    ⟨latest_created now, ⟨by simp [Process.created], by simp [Process.created]⟩, by simp [Process.created]⟩ hscheduled hrun
  · exact (hinv.2.2 m hthread).now_le
  · obtain ⟨hl, hs, ht⟩ := hI
    have hstep := (step_of_process hstep).2
    exact ⟨(hl.step hstep).1, hs.step hstep, timed_step hl hs ht hok hstep⟩

/-- While the process is up, the clock can go on or the monitor thread can. -/
theorem clock_or_monitor (δ : Nat) (hup : s.up = true) :
    Scheduled δ s (.tick 1) ∨ ∃ t out, process.step s .monitor = some (t, out) := by
  cases hthread : s.thread with
  | none => exact .inl (by simp [Scheduled, hthread])
  | some m =>
    obtain ⟨made, place, since⟩ := m
    have hmonitor : process.step s .monitor = s.monitorLoop ⟨made, place, since⟩ := by
      simp [process, hup, Process.next, hthread]
    rw [hmonitor]
    cases place with
    | looping => exact .inr ⟨_, _, rfl⟩
    | sleeping =>
      by_cases hdue : since + 1000 ≤ s.now
      · exact .inr ⟨_, _, if_pos hdue⟩
      · refine .inl fun m hm => .inr ?_
        rw [hthread] at hm
        cases hm
        simp only [Place.limit]
        omega
    | comparing t =>
      by_cases hold : (t : Int) - s.lastHeartbeat > timeoutMs
      · exact .inr ⟨_, _, if_pos hold⟩
      · exact .inr ⟨_, _, if_neg hold⟩
    | returned =>
      refine .inl fun m hm => .inl ?_
      rw [hthread] at hm
      cases hm
      rfl

/-- Five seconds of a hang, with a second to go. -/
theorem hang_within : 5100 ≤ max (100 + 5000) 100 + 1000 + 4 * 0 :=
  (hang_detected 0 100 (started ++ seconds 5) ⟨5100, 100, true, some ⟨100, .sleeping, 5100⟩, .free, true⟩ _ (by decide) rfl _
    rfl).1 rfl

end IbarraGateway.VisionEdge.Watchdog
