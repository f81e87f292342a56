import IbarraGateway.GemaVision.VideoPipeline
import IbarraGateway.GemaVision.Watchdog
import Mathlib.Data.List.Count

/-!
# The daemon and its watchdog

The main loop, the two threads of the pipeline and the keepalive thread, from the moment `main` has started them all.

* `hang_detected_iff` : when the main loop, or the loop of the consumer, is stuck, the pings end exactly if the keepalive
  thread is not running any more.
* `hung_loops_are_fed` : two pings in a row, without a step of any loop.
-/

namespace IbarraGateway.GemaVision

inductive MainLoop
  | polling
  | stoppingPipeline
  | stoppingTelemetry
  | stoppingConfig
  | stoppingWatchdog
  | joiningKeepalive
  | closingWatchdog
  | exited
  deriving DecidableEq, Repr

structure Daemon where
  shutdown : Bool
  main : MainLoop
  pipeline : Pipeline
  watchdog : Watchdog

/-- `env` is the interval that is set, `opened` whether the device could be opened: else the watchdog is given up. -/
def Daemon.start (env : Option Int) (opened : Bool) : Daemon where
  shutdown := false
  main := .polling
  pipeline := .start [.producer, .orchestrator]
  watchdog := ((Watchdog.create (1000 * watchdogInterval env)).start opened).1

inductive DaemonInput
  | main
  | producer (fails : Bool)
  | consumer (accepted : Bool)
  | keepalive (written : Bool)
  | signal
  deriving DecidableEq, Repr

inductive DaemonEvent
  | watchdog (e : WatchdogEvent)
  | pipeline (e : PipelineEvent)
  deriving DecidableEq, Repr

namespace Daemon

def withPipeline (s : Daemon) (step : Option (Pipeline × List PipelineEvent)) : Option (Daemon × List DaemonEvent) :=
  step.map fun (pipeline, out) => ({ s with pipeline := pipeline }, out.map .pipeline)

/-- `main`, from its loop on. -/
def mainStep (s : Daemon) : Option (Daemon × List DaemonEvent) :=
  match s.main with
  | .polling => some (if s.shutdown then { s with main := .stoppingPipeline } else s, [])
  | .stoppingPipeline =>
    if s.pipeline.owner = .idle ∧ s.pipeline.script = [] then some ({ s with main := .stoppingTelemetry }, [])
    else s.withPipeline s.pipeline.stop
  | .stoppingTelemetry => some ({ s with main := .stoppingConfig }, [])
  | .stoppingConfig => some ({ s with main := .stoppingWatchdog }, [])
  | .stoppingWatchdog =>
    if s.watchdog.running then
      some ({ s with watchdog := { s.watchdog with running := false }, main := .joiningKeepalive }, [])
    else some ({ s with main := .exited }, [])
  | .joiningKeepalive =>
    if s.watchdog.thread = .returned then
      some ({ s with watchdog := { s.watchdog with thread := .absent }, main := .closingWatchdog }, [])
    else none
  | .closingWatchdog =>
    let (watchdog, out) := s.watchdog.close
    some ({ s with watchdog := watchdog, main := .exited }, out.map .watchdog)
  | .exited => none

end Daemon

def daemon : Machine Daemon DaemonInput DaemonEvent where
  step s
    | .main => s.mainStep
    | .producer fails => s.withPipeline (s.pipeline.produce fails)
    | .consumer accepted => s.withPipeline (s.pipeline.consume accepted)
    | .keepalive written =>
      (s.watchdog.keepaliveLoop written).map fun (watchdog, out) => ({ s with watchdog := watchdog }, out.map .watchdog)
    | .signal => some ({ s with shutdown := true }, [])

/-! ## What is stated -/

/-- The loops that the watchdog is meant to guard. -/
inductive Loop
  | main
  | consumer
  deriving DecidableEq, Repr

/-- The loop that makes the step. -/
def DaemonInput.loop : DaemonInput → Option Loop
  | .main => some .main
  | .consumer _ => some .consumer
  | _ => none

def pings (h : List DaemonEvent) : Nat := h.count (.watchdog .pinged)

/-- While the loop is stuck, there is an end to the pings. -/
def DetectsHang (loop : Loop) (s : Daemon) : Prop :=
  ∃ n, ∀ inputs t h, (∀ a ∈ inputs, a.loop ≠ some loop) → daemon.run s inputs = some (t, h) → pings h ≤ n

theorem pings_append (h out : List DaemonEvent) : pings (h ++ out) = pings h + pings out := List.count_append

/-! ## The thread goes on -/

/-- The keepalive thread runs, and the device is open. -/
structure Feeding (w : Watchdog) : Prop where
  running : w.running = true
  fd : w.fd = true
  thread : w.thread ≠ .absent ∧ w.thread ≠ .returned

theorem Feeding.keepaliveLoop {w w' : Watchdog} {written : Bool} {out : List WatchdogEvent} (hw : Feeding w)
    (hstep : w.keepaliveLoop written = some (w', out)) : Feeding w' := by
  obtain ⟨hrunning, hfd, habsent, hreturned⟩ := hw
  unfold Watchdog.keepaliveLoop at hstep
  split at hstep
  · cases hstep
  · cases hstep
    refine ⟨hrunning, hfd, ?_⟩
    rw [hrunning]
    exact ⟨nofun, nofun⟩
  · unfold Watchdog.ping at hstep
    dsimp only at hstep
    split at hstep
    · cases hstep
      exact ⟨hrunning, hfd, nofun, nofun⟩
    · cases hstep
      exact ⟨hrunning, hfd, nofun, nofun⟩
  · split at hstep
    · cases hstep
      refine ⟨hrunning, hfd, ?_⟩
      rw [hrunning]
      exact ⟨nofun, nofun⟩
    · cases hstep
      exact ⟨hrunning, hfd, nofun, nofun⟩
  · cases hstep

/-- The steps of the thread before its next ping. -/
def Watchdog.distance (w : Watchdog) : Nat :=
  match w.thread with
  | .checking => 1
  | .sleeping i => w.iterations - i + 2
  | _ => 0

/-- A step of the thread pings, or brings the next ping nearer. -/
theorem Feeding.next {w : Watchdog} (hw : Feeding w) :
    ∃ w' out, w.keepaliveLoop true = some (w', out) ∧ (out = [.pinged] ∨ out = [] ∧ w'.distance < w.distance) := by
  have hrunning := hw.running
  unfold Watchdog.keepaliveLoop Watchdog.distance
  cases hthread : w.thread with
  | absent => exact absurd hthread hw.thread.1
  | returned => exact absurd hthread hw.thread.2
  | checking =>
    refine ⟨_, _, rfl, .inr ⟨rfl, ?_⟩⟩
    rw [if_pos hrunning]
    exact Nat.zero_lt_one
  | pinging =>
    refine ⟨_, _, rfl, .inl ?_⟩
    show (w.ping true).2 = _
    unfold Watchdog.ping
    rw [hw.fd]
    rfl
  | sleeping i =>
    dsimp only
    split
    · refine ⟨_, _, rfl, .inr ⟨rfl, ?_⟩⟩
      show w.iterations - (i + 1) + 2 < w.iterations - i + 2
      omega
    · exact ⟨_, _, rfl, .inr ⟨rfl, Nat.lt_of_lt_of_le Nat.one_lt_two (Nat.le_add_left 2 _)⟩⟩

/-- The thread alone pings once more. -/
theorem feeds_once {s : Daemon} (hw : Feeding s.watchdog) :
    ∃ inputs t h, (∀ a ∈ inputs, a.loop = none) ∧ daemon.run s inputs = some (t, h) ∧ 1 ≤ pings h ∧ Feeding t.watchdog := by
  induction hdistance : s.watchdog.distance using Nat.strongRecOn generalizing s with
  | ind d ih =>
    obtain ⟨w, out, hloop, hout⟩ := hw.next
    have hstep : daemon.step s (.keepalive true) = some ({ s with watchdog := w }, out.map .watchdog) := by
      simp only [daemon, hloop, Option.map_some]
    have hw' : Feeding w := hw.keepaliveLoop hloop
    rcases hout with rfl | ⟨rfl, hlt⟩
    · refine ⟨[.keepalive true], _, _, ?_, daemon.run_cons_of hstep (daemon.run_nil _), ?_, hw'⟩
      · intro a ha
        rw [List.mem_singleton.mp ha]
        rfl
      · exact Nat.le_refl 1
    · obtain ⟨inputs, t, h, hinputs, hrun, hping, ht⟩ := ih _ (hdistance ▸ hlt) (s := { s with watchdog := w }) hw' rfl
      refine ⟨.keepalive true :: inputs, t, _, ?_, daemon.run_cons_of hstep hrun, hping, ht⟩
      intro a ha
      rcases List.mem_cons.mp ha with rfl | ha
      · rfl
      · exact hinputs a ha

theorem feeds_often {s : Daemon} (hw : Feeding s.watchdog) (n : Nat) :
    ∃ inputs t h, (∀ a ∈ inputs, a.loop = none) ∧ daemon.run s inputs = some (t, h) ∧ n ≤ pings h ∧ Feeding t.watchdog := by
  induction n with
  | zero => exact ⟨[], s, [], nofun, rfl, Nat.zero_le _, hw⟩
  | succ n ih =>
    obtain ⟨inputs, t, h, hinputs, hrun, hpings, ht⟩ := ih
    obtain ⟨inputs', t', h', hinputs', hrun', hping, ht'⟩ := feeds_once ht
    refine ⟨inputs ++ inputs', t', h ++ h', ?_, daemon.run_append_iff.mpr ⟨t, h, h', hrun, hrun', rfl⟩, ?_, ht'⟩
    · intro a ha
      exact (List.mem_append.mp ha).elim (hinputs a) (hinputs' a)
    · rw [pings_append]
      omega

theorem Feeding.hang_not_detected {s : Daemon} (hw : Feeding s.watchdog) (loop : Loop) : ¬DetectsHang loop s := by
  rintro ⟨n, hbound⟩
  obtain ⟨inputs, t, h, hinputs, hrun, hpings, -⟩ := feeds_often hw (n + 1)
  have hle := hbound inputs t h (fun a ha => by rw [hinputs a ha]; nofun) hrun
  omega

/-! ## The thread ends -/

/-- What is still pinged when the watchdog is stopped. -/
def Watchdog.pending (w : Watchdog) : Nat := if w.thread = .pinging then 1 else 0

structure Stopped (s : Daemon) (h : List DaemonEvent) (t : Daemon) : Prop where
  running : s.watchdog.running = false → t.watchdog.running = false
  pings : s.watchdog.running = false → GemaVision.pings h + t.watchdog.pending ≤ s.watchdog.pending

theorem Stopped.nil (s : Daemon) : Stopped s [] s := ⟨id, fun _ => Nat.le_of_eq (Nat.zero_add _)⟩

theorem Stopped.comp {s t u : Daemon} {h h' : List DaemonEvent} (hst : Stopped s h t) (htu : Stopped t h' u) :
    Stopped s (h ++ h') u := by
  refine ⟨fun hs => htu.running (hst.running hs), fun hs => ?_⟩
  have h1 := hst.pings hs
  have h2 := htu.pings (hst.running hs)
  rw [pings_append]
  omega

/-- The pipeline pings nothing. -/
theorem pings_pipeline (events : List PipelineEvent) : pings (events.map .pipeline) = 0 := by
  apply List.count_eq_zero.mpr
  intro hmem
  obtain ⟨e, -, he⟩ := List.mem_map.mp hmem
  cases he

theorem Stopped.withPipeline {s t : Daemon} {step : Option (Pipeline × List PipelineEvent)} {out : List DaemonEvent}
    (hstep : s.withPipeline step = some (t, out)) : Stopped s out t ∧ t.watchdog = s.watchdog ∧ t.main = s.main := by
  obtain ⟨⟨pipeline, events⟩, -, heq⟩ := Option.map_eq_some_iff.mp hstep
  cases heq
  refine ⟨⟨id, fun _ => ?_⟩, rfl, rfl⟩
  rw [pings_pipeline, Nat.zero_add]

theorem Stopped.keepaliveLoop {w w' : Watchdog} {written : Bool} {out : List WatchdogEvent}
    (hstep : w.keepaliveLoop written = some (w', out)) (hrunning : w.running = false) :
    w'.running = false ∧ out.count .pinged + w'.pending ≤ w.pending := by
  unfold Watchdog.keepaliveLoop at hstep
  unfold Watchdog.pending
  split at hstep
  · cases hstep
  · cases hstep
    refine ⟨hrunning, ?_⟩
    rw [hrunning]
    exact Nat.zero_le _
  · rename_i hthread
    rw [hthread]
    unfold Watchdog.ping at hstep
    dsimp only at hstep
    split at hstep
    · cases hstep
      exact ⟨hrunning, Nat.le_refl 1⟩
    · cases hstep
      exact ⟨hrunning, Nat.zero_le 1⟩
  · split at hstep
    · cases hstep
      refine ⟨hrunning, ?_⟩
      rw [hrunning]
      exact Nat.zero_le _
    · cases hstep
      exact ⟨hrunning, Nat.zero_le _⟩
  · cases hstep

theorem pings_watchdog (out : List WatchdogEvent) : pings (out.map .watchdog) = out.count .pinged :=
  List.count_map_of_injective out _ (fun _ _ => DaemonEvent.watchdog.inj) _

/-- What the main loop does to the watchdog: nothing, or a step of `stop`. -/
theorem mainStep_cases {s t : Daemon} {out : List DaemonEvent} (hstep : s.mainStep = some (t, out)) :
    (t.watchdog = s.watchdog ∧ pings out = 0 ∧
      (t.main = .joiningKeepalive ∨ t.main = .closingWatchdog → t.main = s.main)) ∨
    (s.main = .stoppingWatchdog ∧ t.watchdog = { s.watchdog with running := false } ∧ out = [] ∧ t.main = .joiningKeepalive) ∨
    (s.main = .joiningKeepalive ∧ s.watchdog.thread = .returned ∧ t.watchdog = { s.watchdog with thread := .absent } ∧
      out = [] ∧ t.main = .closingWatchdog) ∨
    (s.main = .closingWatchdog ∧ t.watchdog = { s.watchdog with fd := false } ∧ pings out = 0 ∧ t.main = .exited) := by
  unfold Daemon.mainStep at hstep
  split at hstep
  · rename_i hmain
    cases hstep
    refine .inl ⟨?_, rfl, ?_⟩
    · cases s.shutdown <;> rfl
    · cases s.shutdown
      · exact fun _ => rfl
      · rintro (h | h) <;> cases h
  · split at hstep
    · cases hstep
      refine .inl ⟨rfl, rfl, ?_⟩
      rintro (h | h) <;> cases h
    · obtain ⟨⟨pipeline, events⟩, -, heq⟩ := Option.map_eq_some_iff.mp hstep
      cases heq
      exact .inl ⟨rfl, pings_pipeline events, fun _ => rfl⟩
  · cases hstep
    refine .inl ⟨rfl, rfl, ?_⟩
    rintro (h | h) <;> cases h
  · cases hstep
    refine .inl ⟨rfl, rfl, ?_⟩
    rintro (h | h) <;> cases h
  · rename_i hmain
    split at hstep
    · cases hstep
      exact .inr (.inl ⟨hmain, rfl, rfl, rfl⟩)
    · cases hstep
      refine .inl ⟨rfl, rfl, ?_⟩
      rintro (h | h) <;> cases h
  · rename_i hmain
    split at hstep
    · rename_i hreturned
      cases hstep
      exact .inr (.inr (.inl ⟨hmain, hreturned, rfl, rfl, rfl⟩))
    · cases hstep
  · rename_i hmain
    unfold Watchdog.close at hstep
    cases hfd : s.watchdog.fd with
    | false =>
      rw [hfd] at hstep
      cases hstep
      refine .inr (.inr (.inr ⟨hmain, ?_, rfl, rfl⟩))
      show s.watchdog = { s.watchdog with fd := false }
      rw [← hfd]
    | true =>
      rw [hfd] at hstep
      cases hstep
      exact .inr (.inr (.inr ⟨hmain, rfl, rfl, rfl⟩))
  · cases hstep

theorem Stopped.mainStep {s t : Daemon} {out : List DaemonEvent} (hstep : s.mainStep = some (t, out)) : Stopped s out t := by
  rcases mainStep_cases hstep with ⟨hw, hpings, -⟩ | ⟨-, hw, rfl, -⟩ | ⟨-, hreturned, hw, rfl, -⟩ | ⟨-, hw, hpings, -⟩
  · exact ⟨fun h => by rw [hw]; exact h, fun _ => by rw [hpings, hw, Nat.zero_add]⟩
  · refine ⟨fun _ => by rw [hw], fun _ => ?_⟩
    rw [hw]
    exact Nat.le_of_eq (Nat.zero_add _)
  · refine ⟨fun h => by rw [hw]; exact h, fun _ => ?_⟩
    rw [hw]
    exact Nat.zero_le _
  · refine ⟨fun h => by rw [hw]; exact h, fun _ => ?_⟩
    rw [hpings, hw, Nat.zero_add]
    exact Nat.le_refl _

theorem Stopped.step {s t : Daemon} {a : DaemonInput} {out : List DaemonEvent} (hstep : daemon.step s a = some (t, out)) :
    Stopped s out t := by
  cases a with
  | main => exact .mainStep hstep
  | producer fails => exact (Stopped.withPipeline hstep).1
  | consumer accepted => exact (Stopped.withPipeline hstep).1
  | keepalive written =>
    obtain ⟨⟨w, events⟩, hloop, heq⟩ := Option.map_eq_some_iff.mp hstep
    cases heq
    refine ⟨fun hs => (Stopped.keepaliveLoop hloop hs).1, fun hs => ?_⟩
    rw [pings_watchdog]
    exact (Stopped.keepaliveLoop hloop hs).2
  | signal =>
    cases hstep
    exact ⟨id, fun _ => Nat.le_of_eq (Nat.zero_add _)⟩

/-! ## Runs -/

/-- As long as it is not stopped, the thread feeds the device. -/
structure Guarding (s : Daemon) : Prop where
  feeding : s.watchdog.running = true → Feeding s.watchdog
  stopped : s.main = .joiningKeepalive ∨ s.main = .closingWatchdog → s.watchdog.running = false

theorem Guarding.start (env : Option Int) (opened : Bool) : Guarding (.start env opened) := by
  constructor
  · cases opened with
    | false => nofun
    | true => exact fun _ => ⟨rfl, rfl, nofun, nofun⟩
  · rintro (h | h) <;> cases h

theorem Guarding.of_same {s t : Daemon} (hg : Guarding s) (hw : t.watchdog = s.watchdog) (hm : t.main = s.main) :
    Guarding t := by
  constructor
  · rw [hw]
    exact hg.feeding
  · rw [hw, hm]
    exact hg.stopped

theorem Guarding.step {s t : Daemon} {a : DaemonInput} {out : List DaemonEvent} (hg : Guarding s)
    (hstep : daemon.step s a = some (t, out)) : Guarding t := by
  cases a with
  | main =>
    rcases mainStep_cases hstep with ⟨hw, -, hm⟩ | ⟨-, hw, -, -⟩ | ⟨hmain, -, hw, -, -⟩ | ⟨hmain, hw, -, -⟩
    · constructor
      · rw [hw]
        exact hg.feeding
      · intro hend
        rw [hw]
        exact hg.stopped (hm hend ▸ hend)
    · have hnot : t.watchdog.running = false := by rw [hw]
      exact ⟨fun hr => absurd (hnot.symm.trans hr) nofun, fun _ => hnot⟩
    · have hnot : t.watchdog.running = false := by
        rw [hw]
        exact hg.stopped (.inl hmain)
      exact ⟨fun hr => absurd (hnot.symm.trans hr) nofun, fun _ => hnot⟩
    · have hnot : t.watchdog.running = false := by
        rw [hw]
        exact hg.stopped (.inr hmain)
      exact ⟨fun hr => absurd (hnot.symm.trans hr) nofun, fun _ => hnot⟩
  | producer fails =>
    obtain ⟨-, hw, hm⟩ := Stopped.withPipeline hstep
    exact hg.of_same hw hm
  | consumer accepted =>
    obtain ⟨-, hw, hm⟩ := Stopped.withPipeline hstep
    exact hg.of_same hw hm
  | keepalive written =>
    obtain ⟨⟨w, events⟩, hloop, heq⟩ := Option.map_eq_some_iff.mp hstep
    cases heq
    constructor
    · intro hr
      have hrunning : s.watchdog.running = true := by
        by_contra hnot
        have hstopped := (Stopped.keepaliveLoop hloop (eq_false_of_ne_true hnot)).1
        rw [show w.running = true from hr] at hstopped
        cases hstopped
      exact (hg.feeding hrunning).keepaliveLoop hloop
    · exact fun hend => (Stopped.keepaliveLoop hloop (hg.stopped hend)).1
  | signal =>
    cases hstep
    exact ⟨hg.feeding, hg.stopped⟩

/-- **A hang is noticed** in no state in which the watchdog runs: whichever of the loops is stuck, the pings go on. -/
theorem hang_detected_iff {env : Option Int} {opened : Bool} {inputs : List DaemonInput} {s : Daemon}
    {h : List DaemonEvent} (hrun : daemon.run (.start env opened) inputs = some (s, h)) (loop : Loop) :
    DetectsHang loop s ↔ s.watchdog.running = false := by
  have hg : Guarding s := daemon.run_invariant (I := Guarding) (fun _ _ _ _ hg _ hstep => hg.step hstep)
    (.start env opened) (daemon.along_true _ inputs) hrun
  constructor
  · intro hdetects
    apply eq_false_of_ne_true
    exact fun hrunning => (hg.feeding hrunning).hang_not_detected loop hdetects
  · intro hnot
    refine ⟨s.watchdog.pending, fun inputs t h _ hrun => ?_⟩
    have hstopped : Stopped s h t := daemon.run_compose (I := fun _ => True) (R := Stopped) Stopped.nil Stopped.comp
      (fun _ _ _ _ _ _ hstep => ⟨trivial, .step hstep⟩) trivial (daemon.along_true _ inputs) hrun
    have hle := hstopped.pings hnot
    omega

/-- The device cannot be opened. -/
theorem hang_detected_without_device :
    ∃ s h, daemon.run (.start none false) [.main, .producer false] = some (s, h) ∧
      (DetectsHang .main s ↔ s.watchdog.running = false) := by
  obtain ⟨⟨s, h⟩, hrun⟩ := Option.isSome_iff_exists.mp
    (rfl : (daemon.run (.start none false) [.main, .producer false]).isSome = true)
  exact ⟨s, h, hrun, hang_detected_iff hrun .main⟩

/-- Five seconds pass between two pings, and no loop does anything. -/
theorem hung_loops_are_fed :
    (∃ s, daemon.run (.start none true) (List.replicate 55 (.keepalive true)) =
      some (s, [.watchdog .pinged, .watchdog .pinged])) ∧
      ¬DetectsHang .main (.start none true) ∧ ¬DetectsHang .consumer (.start none true) := by
  have hfeeds : Feeding (Daemon.start none true).watchdog := ⟨rfl, rfl, nofun, nofun⟩
  exact ⟨⟨_, rfl⟩, hfeeds.hang_not_detected .main, hfeeds.hang_not_detected .consumer⟩

end IbarraGateway.GemaVision
