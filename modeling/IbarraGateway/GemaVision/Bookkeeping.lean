import IbarraGateway.GemaVision.TelemetryCollector
import IbarraGateway.GemaVision.TelemetryPayload

/-!
# The numbers of a report

The consumer counts a frame and then its defects; a tick of the collector reads one counter after the other, while frames come,
are dropped and are counted.

* `conserved` : no frame is counted twice.
* `reports_accounted` : what a report says about the frames, for any order of the steps.
-/

namespace IbarraGateway.GemaVision.Bookkeeping
open Reporting (Telemetry TelemetryInput TelemetryEvent)
open TelemetryPayload (Metrics)

/-! ## The consumer and the collector, counter by counter -/

/-- Where the consumer is, behind the count of a frame. -/
inductive Tally
  | done
  | adding (defectCount : Nat)
  | dating
  deriving DecidableEq, Repr

/-- What a tick has read so far. -/
inductive Reading
  | idle
  | frames (framesNow delta : UInt64)
  | dropped (framesNow delta dropped : UInt64)
  | defects (framesNow delta dropped : UInt64) (tempC : Int32) (vmrssKb defects : UInt64)
  deriving DecidableEq

structure State where
  telemetry : Telemetry
  defectsTotal : UInt64 := 0
  lastDefectEpoch : UInt64 := 0
  tally : Tally := .done
  reading : Reading := .idle

def State.create (maxSize : Nat) : State := { telemetry := .create maxSize }

inductive Input
  | telemetry (a : TelemetryInput)
  /-- The consumer's next step; `now` is what `time` gives. -/
  | bookkeep (now : UInt64)
  /-- The collector's next step, with the metrics that are not counters. -/
  | read (tempC : Int32) (vmrssKb : UInt64) (uptime : Int64) (time : Tm)

inductive Event
  | telemetry (e : TelemetryEvent)
  | added (defectCount : Nat)
  | dated (epoch : UInt64)
  | reported (m : Metrics) (lastDefectEpoch : UInt64)

/-- The consumer waits for its own bookkeeping, and the collector's thread for its own reads. -/
def State.waits (s : State) : TelemetryInput → Bool
  | .orchestrator (.consumer _) => decide (s.tally ≠ .done)
  | .collector .thread => decide (s.reading ≠ .idle)
  | _ => false

section Machine
variable (defectCount : Nat → Nat) (fps : UInt64 → FloatValue)

/-- What is done behind the count of a frame. -/
def Tally.next (tally : Tally) : TelemetryEvent → Tally
  | .orchestrator (.processed number _) => if 0 < defectCount number then .adding (defectCount number) else .done
  | _ => tally

def Reading.next (reading : Reading) : TelemetryEvent → Reading
  | .ticked _ framesNow delta => .frames framesNow delta
  | _ => reading

/-- The counts of defects, behind `fetch_add(1)`. -/
def State.bookkeep (s : State) (now : UInt64) : Option (State × List Event) :=
  match s.tally with
  | .done => none
  | .adding n => some ({ s with defectsTotal := s.defectsTotal + UInt64.ofNat n, tally := .dating }, [.added n])
  | .dating => some ({ s with lastDefectEpoch := now, tally := .done }, [.dated now])

/-- The reads of a tick behind the one of the frames, and `publish`. -/
def State.read (s : State) (tempC : Int32) (vmrssKb : UInt64) (uptime : Int64) (time : Tm) : Option (State × List Event) :=
  match s.reading with
  | .idle => none
  | .frames framesNow delta =>
    some ({ s with reading := .dropped framesNow delta (UInt64.ofNat s.telemetry.orchestrator.frameQueue.droppedCount) }, [])
  | .dropped framesNow delta dropped =>
    some ({ s with reading := .defects framesNow delta dropped tempC vmrssKb s.defectsTotal }, [])
  | .defects framesNow delta dropped tempC vmrssKb defects =>
    some ({ s with reading := .idle },
      [.reported ⟨framesNow, fps delta, dropped, tempC, vmrssKb, defects, uptime, time⟩ s.lastDefectEpoch])

/-- `defectCount` is of the result of a frame; `fps` is the quotient with the interval, as it is printed. -/
def bookkeeping : Machine State Input Event where
  step s
    | .telemetry a =>
      if s.waits a then none
      else
        (Reporting.telemetry.step s.telemetry a).map fun r =>
          ({ s with
              telemetry := r.1
              tally := r.2.foldl (Tally.next defectCount) s.tally
              reading := r.2.foldl Reading.next s.reading }, r.2.map .telemetry)
    | .bookkeep now => s.bookkeep now
    | .read tempC vmrssKb uptime time => s.read fps tempC vmrssKb uptime time

end Machine

/-! ## What is counted -/

/-- The sum of what the events add. -/
def total {ε : Type} (weight : ε → Nat) (h : List ε) : Nat := (h.map weight).sum

section Total
variable {ε : Type} {weight : ε → Nat} {h out : List ε}

@[simp] theorem total_nil : total weight [] = 0 := rfl

@[simp] theorem total_cons (e : ε) : total weight (e :: h) = weight e + total weight h := rfl

@[simp] theorem total_append : total weight (h ++ out) = total weight h + total weight out := by
  rw [total, List.map_append, List.sum_append]
  rfl

theorem total_mono (weight : ε → Nat) (hinit : h <+: out) : total weight h ≤ total weight out := by
  obtain ⟨rest, rfl⟩ := hinit
  rw [total_append]
  exact Nat.le_add_right _ _

theorem total_zero (hzero : ∀ e ∈ h, weight e = 0) : total weight h = 0 := by
  induction h with
  | nil => rfl
  | cons e h ih =>
    obtain ⟨he, hrest⟩ := List.forall_mem_cons.mp hzero
    rw [total_cons, he, ih hrest]

end Total

def isCaptured : Orchestration.Event → Nat
  | .pushed _ => 1
  | _ => 0

def isLost : Orchestration.Event → Nat
  | .dropped _ => 1
  | _ => 0

def isProcessed : Orchestration.Event → Nat
  | .processed .. => 1
  | _ => 0

/-- The frames processed since the orchestrator's last start. -/
def sinceStart (h : List Orchestration.Event) : Nat :=
  h.foldl (fun n e => match e with | .processed .. => n + 1 | .reset _ => 0 | _ => n) 0

section Defects
variable (defectCount : Nat → Nat)

def defectsOf : Orchestration.Event → Nat
  | .processed number _ => defectCount number
  | _ => 0

/-- The defects of the last frame that was processed. -/
def lastDefects (h : List Orchestration.Event) : Nat :=
  h.foldl (fun n e => match e with | .processed number _ => defectCount number | _ => n) 0

end Defects

def Event.orchestration : Event → List Orchestration.Event
  | .telemetry (.orchestrator e) => [e]
  | _ => []

/-- The orchestrator's part of a history. -/
def orchestration (h : List Event) : List Orchestration.Event := h.flatMap Event.orchestration

def Event.addedBy : Event → Nat
  | .added n => n
  | _ => 0

def Event.isReport : Event → Bool
  | .reported .. => true
  | _ => false

/-! ## Frames -/

/-- A frame is under way, dropped or processed, and one of these only; a null pointer goes away. -/
structure Conserved (h : List Orchestration.Event) (s : Orchestration.State) : Prop where
  pushes : s.pushes = total isCaptured h
  dropped : s.frameQueue.droppedCount = total isLost h
  flight : total isProcessed h + total isLost h + s.inFlight.length ≤ total isCaptured h
  frames : s.framesProcessed = UInt64.ofNat (sinceStart h)

theorem Conserved.create (maxSize : Nat) : Conserved [] (.create maxSize) := ⟨rfl, rfl, Nat.le_refl 0, rfl⟩

theorem sinceStart_le (h : List Orchestration.Event) : sinceStart h ≤ total isProcessed h := by
  induction h using List.reverseRecOn with
  | nil => exact Nat.le_refl 0
  | append_singleton h e ih =>
    rw [sinceStart, List.foldl_append, ← sinceStart, total_append]
    cases e <;> simp only [List.foldl_cons, List.foldl_nil, total_cons, total_nil, isProcessed] <;> omega

section Step
variable {s t : Orchestration.State} {h out : List Orchestration.Event}

/-- Neither counted nor set back. -/
def Quiet (e : Orchestration.Event) : Prop := isCaptured e = 0 ∧ isLost e = 0 ∧ isProcessed e = 0 ∧ ∀ found, e ≠ .reset found

theorem sinceStart_quiet (hout : ∀ e ∈ out, Quiet e) : sinceStart (h ++ out) = sinceStart h := by
  induction out using List.reverseRecOn with
  | nil => rw [List.append_nil]
  | append_singleton out e ih =>
    obtain ⟨hrest, he⟩ := List.forall_mem_append.mp hout
    obtain ⟨-, -, hnot, hreset⟩ := he e (List.mem_singleton_self e)
    rw [← List.append_assoc, sinceStart, List.foldl_append, ← sinceStart, ih hrest]
    cases e with
    | processed => cases hnot
    | reset found => exact absurd rfl (hreset found)
    | _ => rfl

/-- The counters go up by what the events count, and nothing comes under way that was not captured. -/
theorem Conserved.next (hc : Conserved h s) (hpushes : t.pushes = s.pushes + total isCaptured out)
    (hdropped : t.frameQueue.droppedCount = s.frameQueue.droppedCount + total isLost out)
    (hflight : total isProcessed out + total isLost out + t.inFlight.length ≤ total isCaptured out + s.inFlight.length)
    (hframes : t.framesProcessed = UInt64.ofNat (sinceStart (h ++ out))) : Conserved (h ++ out) t := by
  have hbefore := hc.flight
  refine ⟨?_, ?_, ?_, hframes⟩
  · rw [hpushes, total_append, hc.pushes]
  · rw [hdropped, total_append, hc.dropped]
  · rw [total_append, total_append, total_append]
    omega

/-- Events that count nothing, when nothing more is under way. -/
theorem Conserved.quiet (hc : Conserved h s) (hpushes : t.pushes = s.pushes)
    (hdropped : t.frameQueue.droppedCount = s.frameQueue.droppedCount) (hflight : t.inFlight.length ≤ s.inFlight.length)
    (hframes : t.framesProcessed = s.framesProcessed) (hout : ∀ e ∈ out, Quiet e) : Conserved (h ++ out) t := by
  have hcaptured : total isCaptured out = 0 := total_zero fun e he => (hout e he).1
  have hlost : total isLost out = 0 := total_zero fun e he => (hout e he).2.1
  have hprocessed : total isProcessed out = 0 := total_zero fun e he => (hout e he).2.2.1
  refine hc.next ?_ ?_ ?_ ?_
  · rw [hpushes, hcaptured, Nat.add_zero]
  · rw [hdropped, hlost, Nat.add_zero]
  · omega
  · rw [hframes, sinceStart_quiet hout, hc.frames]

theorem Conserved.step (hc : Conserved h s) {a : Orchestration.Input} (hstep : Orchestration.orchestrator.step s a = some (t, out)) :
    Conserved (h ++ out) t := by
  cases Orchestration.step_moves hstep with
  | pushed null hroom =>
    refine hc.next rfl rfl ?_ ?_
    · simp only [Orchestration.State.inFlight, List.map_append, List.length_append, List.map_cons, List.map_nil,
        List.length_singleton, total_cons, total_nil, isCaptured, isLost, isProcessed]
      omega
    · rw [sinceStart, List.foldl_append, ← sinceStart]
      exact hc.frames
  | overflowed null oldest rest hfull hqueue =>
    refine hc.next rfl rfl ?_ ?_
    · simp only [Orchestration.State.inFlight, hqueue, List.map_append, List.length_append, List.map_cons, List.map_nil,
        List.length_cons, List.length_nil, total_cons, total_nil, isCaptured, isLost, isProcessed]
      omega
    · rw [sinceStart, List.foldl_append, ← sinceStart]
      exact hc.frames
  | popped accepted item rest hworker hqueue =>
    refine hc.quiet rfl rfl ?_ rfl (by simp [Quiet, isCaptured, isLost, isProcessed])
    simp only [Orchestration.State.inFlight, hqueue, hworker, List.length_append, List.map_cons, List.length_cons,
      Orchestration.held_popped]
    split <;> simp [Orchestration.Worker.held, Nat.add_comm]
  | counted accepted number hworker =>
    refine hc.next rfl rfl ?_ ?_
    · simp only [Orchestration.State.inFlight, hworker, Orchestration.Worker.held, List.length_append, List.length_cons,
        List.length_nil, total_cons, total_nil, isCaptured, isLost, isProcessed]
      omega
    · rw [sinceStart, List.foldl_append, ← sinceStart]
      show s.framesProcessed + 1 = UInt64.ofNat (sinceStart h + 1)
      rw [hc.frames, UInt64.ofNat_add]
      rfl
  | reset hcaller =>
    refine hc.next rfl rfl (Nat.le_refl _) ?_
    rw [sinceStart, List.foldl_append]
    rfl
  | drained accepted hworker hqueue hdone | skipped accepted hworker hdone | returned accepted hworker hdone =>
    refine hc.quiet rfl rfl ?_ rfl (by simp [Quiet, isCaptured, isLost, isProcessed])
    simp [Orchestration.State.inFlight, hworker, Orchestration.Worker.held]
  | inferred accepted number hworker | published accepted number hworker =>
    refine hc.quiet rfl rfl ?_ rfl (by simp [Quiet, isCaptured, isLost, isProcessed])
    simp [Orchestration.State.inFlight, hworker, Orchestration.Worker.held]
  | spawned hcaller | joined hcaller hworker =>
    refine hc.quiet rfl rfl ?_ rfl (by simp [Quiet, isCaptured, isLost, isProcessed])
    simp [Orchestration.State.inFlight, Orchestration.Worker.held]
  | _ => exact hc.quiet rfl rfl (Nat.le_refl _) rfl (by simp [Quiet, isCaptured, isLost, isProcessed])

end Step

/-! ## Steps -/

section Cases
variable {s t : Telemetry} {out : List TelemetryEvent}

/-- A frame is processed by a step of its own. -/
theorem processed_or {s t : Orchestration.State} {a : Orchestration.Input} {out : List Orchestration.Event}
    (hstep : Orchestration.orchestrator.step s a = some (t, out)) :
    (∃ accepted number before, a = .consumer accepted ∧ out = [.processed number before]) ∨ ∀ e ∈ out, isProcessed e = 0 := by
  cases Orchestration.step_moves hstep with
  | counted accepted number hworker => exact .inl ⟨accepted, number, _, rfl, rfl⟩
  | _ => exact .inr (by simp [isProcessed])

/-- What the collector puts out. -/
theorem collector_out {c d : Reporting.TelemetryCollector} {framesProcessed : UInt64} {a : Reporting.CollectorInput}
    (hstep : c.step framesProcessed a = some (d, out)) :
    (∀ e ∈ out, e = .looked framesProcessed) ∨
      ∃ last delta, a = .thread ∧ out = [.ticked last framesProcessed delta] := by
  cases a with
  | start =>
    simp only [Reporting.TelemetryCollector.step] at hstep
    split at hstep
    · cases hstep
    split at hstep <;> · cases hstep; exact .inl (by simp)
  | stop =>
    simp only [Reporting.TelemetryCollector.step] at hstep
    split at hstep
    · cases hstep
    split at hstep <;> · cases hstep; exact .inl (by simp)
  | caller =>
    simp only [Reporting.TelemetryCollector.step, Reporting.TelemetryCollector.call] at hstep
    split at hstep
    · cases hstep
    · cases hstep
      exact .inl (by simp)
    · cases hstep
      exact .inl (by simp)
    · split at hstep
      · cases hstep
        exact .inl (by simp)
      · cases hstep
  | thread =>
    simp only [Reporting.TelemetryCollector.step, Reporting.TelemetryCollector.collectLoop] at hstep
    split at hstep
    · cases hstep
    · cases hstep
      exact .inl (by simp)
    · cases hstep
      exact .inr ⟨_, _, rfl, rfl⟩
    · cases hstep

/-- A step of the two, as a step of one of them. -/
inductive Steps (s : Telemetry) : TelemetryInput → Telemetry → List TelemetryEvent → Prop
  | processed (accepted : Bool) (u : Orchestration.State) (number : Nat) (before : UInt64)
    (hstep : Orchestration.orchestrator.step s.orchestrator (.consumer accepted) = some (u, [.processed number before])) :
    Steps s (.orchestrator (.consumer accepted)) { s with orchestrator := u } [.orchestrator (.processed number before)]
  | orchestrator (a : Orchestration.Input) (u : Orchestration.State) (out : List Orchestration.Event)
    (hstep : Orchestration.orchestrator.step s.orchestrator a = some (u, out)) (hout : ∀ e ∈ out, isProcessed e = 0) :
    Steps s (.orchestrator a) { s with orchestrator := u } (out.map .orchestrator)
  | ticked (d : Reporting.TelemetryCollector) (last delta : UInt64) :
    Steps s (.collector .thread) { s with collector := d } [.ticked last s.orchestrator.framesProcessed delta]
  | collector (a : Reporting.CollectorInput) (d : Reporting.TelemetryCollector) (out : List TelemetryEvent)
    (hout : ∀ e ∈ out, e = .looked s.orchestrator.framesProcessed) : Steps s (.collector a) { s with collector := d } out

theorem telemetry_steps {a : TelemetryInput} (hstep : Reporting.telemetry.step s a = some (t, out)) : Steps s a t out := by
  cases a with
  | orchestrator a =>
    obtain ⟨⟨u, events⟩, hinner, heq⟩ := Option.map_eq_some_iff.mp hstep
    cases heq
    rcases processed_or hinner with ⟨accepted, number, before, rfl, rfl⟩ | hout
    · exact .processed accepted u number before hinner
    · exact .orchestrator a u events hinner hout
  | collector a =>
    obtain ⟨⟨d, events⟩, hinner, heq⟩ := Option.map_eq_some_iff.mp hstep
    cases heq
    rcases collector_out hinner with hout | ⟨last, delta, rfl, rfl⟩
    · exact .collector a d events hout
    · exact .ticked d last delta

end Cases

/-! ## Defects -/

/-- The defects that are not added yet. -/
def Tally.pending : Tally → Nat
  | .adding n => n
  | _ => 0

section Runs
variable (defectCount : Nat → Nat)

structure Tallied (h : List Event) (s : State) : Prop where
  added : s.defectsTotal = UInt64.ofNat (total Event.addedBy h)
  pending : total Event.addedBy h + s.tally.pending = total (defectsOf defectCount) (orchestration h)
  last : s.tally.pending ≤ lastDefects defectCount (orchestration h)

theorem Tallied.create (maxSize : Nat) : Tallied defectCount [] (.create maxSize) := ⟨rfl, rfl, Nat.le_refl 0⟩

@[simp] theorem orchestration_append (h out : List Event) : orchestration (h ++ out) = orchestration h ++ orchestration out :=
  List.flatMap_append

theorem orchestration_isPrefix {h h' : List Event} (hinit : h <+: h') : orchestration h <+: orchestration h' := by
  obtain ⟨rest, rfl⟩ := hinit
  rw [orchestration_append]
  exact List.prefix_append _ _

theorem orchestration_map (out : List Orchestration.Event) :
    orchestration (out.map fun e => .telemetry (.orchestrator e)) = out := by
  induction out with
  | nil => rfl
  | cons e out ih => exact congrArg (e :: ·) ih

variable {defectCount} {s t : State} {h out : List Event}

theorem lastDefects_quiet {h out : List Orchestration.Event} (hout : ∀ e ∈ out, isProcessed e = 0) :
    lastDefects defectCount (h ++ out) = lastDefects defectCount h := by
  induction out using List.reverseRecOn with
  | nil => rw [List.append_nil]
  | append_singleton out e ih =>
    obtain ⟨hrest, he⟩ := List.forall_mem_append.mp hout
    rw [← List.append_assoc, lastDefects, List.foldl_append, ← lastDefects, ih hrest]
    cases e with
    | processed => cases he _ (List.mem_singleton_self _)
    | _ => rfl

/-- Events of other parts. -/
theorem Tallied.quiet (ht : Tallied defectCount h s) (hdefects : t.defectsTotal = s.defectsTotal)
    (htally : t.tally.pending = s.tally.pending) (hadded : ∀ e ∈ out, e.addedBy = 0)
    (hprocessed : ∀ e ∈ orchestration out, isProcessed e = 0) : Tallied defectCount (h ++ out) t := by
  have hnone : ∀ e ∈ orchestration out, defectsOf defectCount e = 0 := by
    intro e he
    have hnot := hprocessed e he
    cases e with
    | processed => cases hnot
    | _ => rfl
  refine ⟨?_, ?_, ?_⟩
  · rw [hdefects, total_append, total_zero hadded, Nat.add_zero, ht.added]
  · rw [htally, total_append, total_zero hadded, Nat.add_zero, orchestration_append, total_append, total_zero hnone,
      Nat.add_zero, ht.pending]
  · rw [htally, orchestration_append, lastDefects_quiet hprocessed]
    exact ht.last

theorem Tallied.processed (ht : Tallied defectCount h s) (hdone : s.tally = .done) {number : Nat} {before : UInt64}
    (hdefects : t.defectsTotal = s.defectsTotal)
    (htally : t.tally = s.tally.next defectCount (.orchestrator (.processed number before))) :
    Tallied defectCount (h ++ [.telemetry (.orchestrator (.processed number before))]) t := by
  have hpending : t.tally.pending = defectCount number := by
    rw [htally]
    show (if 0 < defectCount number then Tally.adding (defectCount number) else .done).pending = defectCount number
    split
    · rfl
    · exact (Nat.eq_zero_of_not_pos ‹_›).symm
  have hsame := ht.pending
  rw [hdone] at hsame
  refine ⟨?_, ?_, ?_⟩
  · rw [hdefects, ht.added, total_append]
    rfl
  · rw [hpending, orchestration_append, total_append, total_append, ← hsame]
    rfl
  · rw [hpending, orchestration_append, lastDefects, List.foldl_append]
    exact Nat.le_refl _

theorem Tallied.bookkeep (ht : Tallied defectCount h s) {now : UInt64} (hstep : s.bookkeep now = some (t, out)) :
    Tallied defectCount (h ++ out) t := by
  have hadded := ht.added
  have hpending := ht.pending
  have hlast := ht.last
  unfold State.bookkeep at hstep
  split at hstep
  · cases hstep
  · rename_i n htally
    cases hstep
    rw [htally] at hpending
    refine ⟨?_, ?_, Nat.zero_le _⟩
    · show s.defectsTotal + UInt64.ofNat n = _
      rw [hadded, ← UInt64.ofNat_add, total_append]
      rfl
    · rw [orchestration_append, total_append, total_append, ← hpending]
      rfl
  · rename_i htally
    cases hstep
    refine ht.quiet rfl ?_ (by simp [Event.addedBy]) (by simp [orchestration, Event.orchestration])
    rw [htally]
    rfl

end Runs

/-! ## Reads -/

/-- The history went on, with no report. -/
def Within (h h' : List Event) : Prop := ∃ since, h' = h ++ since ∧ ∀ e ∈ since, e.isReport = false

namespace Within
variable {h h' h'' : List Event}

theorem refl (h : List Event) : Within h h := ⟨[], (List.append_nil h).symm, by simp⟩

theorem append (hwithin : Within h h') {out : List Event} (hout : ∀ e ∈ out, e.isReport = false) : Within h (h' ++ out) := by
  obtain ⟨since, rfl, hsince⟩ := hwithin
  exact ⟨since ++ out, List.append_assoc _ _ _, List.forall_mem_append.mpr ⟨hsince, hout⟩⟩

theorem isPrefix (hwithin : Within h h') : h <+: h' := by
  obtain ⟨since, rfl, -⟩ := hwithin
  exact List.prefix_append _ _

theorem trans (hwithin : Within h h') (hwithin' : Within h' h'') : Within h h'' := by
  obtain ⟨since, rfl, hsince⟩ := hwithin'
  exact hwithin.append hsince

theorem mem_report (hwithin : Within h h') {m : Metrics} {epoch : UInt64} (hmem : .reported m epoch ∈ h') :
    .reported m epoch ∈ h := by
  obtain ⟨since, rfl, hsince⟩ := hwithin
  rcases List.mem_append.mp hmem with hold | hnew
  · exact hold
  · cases hsince _ hnew

end Within

section Reads
variable (defectCount : Nat → Nat) (fps : UInt64 → FloatValue)

/-- The history at a tick's first read. -/
structure Looked (look : List Event) (framesNow delta : UInt64) : Prop where
  ticked : ∃ earlier last, look = earlier ++ [.telemetry (.ticked last framesNow delta)]
  frames : framesNow = UInt64.ofNat (sinceStart (orchestration look))
  defects : total (defectsOf defectCount) (orchestration look) ≤
    total Event.addedBy look + lastDefects defectCount (orchestration look)

/-- What a tick has read was so at points of the history, one behind the other. -/
def ReadAt (h : List Event) : Reading → Prop
  | .idle => True
  | .frames framesNow delta => ∃ look, Looked defectCount look framesNow delta ∧ Within look h
  | .dropped framesNow delta dropped => ∃ look mid, Looked defectCount look framesNow delta ∧ Within look mid ∧ Within mid h ∧
    dropped = UInt64.ofNat (total isLost (orchestration mid))
  | .defects framesNow delta dropped _ _ defects => ∃ look mid late, Looked defectCount look framesNow delta ∧ Within look mid ∧
    Within mid late ∧ Within late h ∧ dropped = UInt64.ofNat (total isLost (orchestration mid)) ∧
    defects = UInt64.ofNat (total Event.addedBy late)

/-- Where a report's numbers are from. -/
structure Report (before : List Event) (m : Metrics) : Prop where
  reads : ∃ delta look mid late, m.fps = fps delta ∧ Looked defectCount look m.framesTotal delta ∧ Within look mid ∧
    Within mid late ∧ Within late before ∧ m.dropped = UInt64.ofNat (total isLost (orchestration mid)) ∧
    m.defectsTotal = UInt64.ofNat (total Event.addedBy late)
  captured : total isProcessed (orchestration before) + total isLost (orchestration before) ≤
    total isCaptured (orchestration before)
  added : total Event.addedBy before ≤ total (defectsOf defectCount) (orchestration before)

/-- The counters so far, and each report of the history. -/
structure Accounted (h : List Event) (s : State) : Prop where
  conserved : Conserved (orchestration h) s.telemetry.orchestrator
  tallied : Tallied defectCount h s
  reading : ReadAt defectCount h s.reading
  reports : Everywhere (fun before e => ∀ m epoch, e = .reported m epoch → Report defectCount fps before m) h

theorem Accounted.create (maxSize : Nat) : Accounted defectCount fps [] (.create maxSize) :=
  ⟨.create maxSize, .create defectCount maxSize, trivial, Everywhere.nil⟩

variable {defectCount fps} {s t : State} {h out : List Event}

theorem ReadAt.append {reading : Reading} (hread : ReadAt defectCount h reading) (hout : ∀ e ∈ out, e.isReport = false) :
    ReadAt defectCount (h ++ out) reading := by
  cases reading with
  | idle => trivial
  | frames framesNow delta =>
    obtain ⟨look, hlook, hwithin⟩ := hread
    exact ⟨look, hlook, hwithin.append hout⟩
  | dropped framesNow delta dropped =>
    obtain ⟨look, mid, hlook, hmid, hwithin, hdropped⟩ := hread
    exact ⟨look, mid, hlook, hmid, hwithin.append hout, hdropped⟩
  | defects framesNow delta dropped tempC vmrssKb defects =>
    obtain ⟨look, mid, late, hlook, hmid, hlate, hwithin, hcounters⟩ := hread
    exact ⟨look, mid, late, hlook, hmid, hlate, hwithin.append hout, hcounters⟩

theorem everywhere_append {P : List Event → Metrics → Prop}
    (hreports : Everywhere (fun before e => ∀ m epoch, e = .reported m epoch → P before m) h)
    (hout : ∀ e ∈ out, e.isReport = false) :
    Everywhere (fun before e => ∀ m epoch, e = .reported m epoch → P before m) (h ++ out) := by
  refine Everywhere.append_iff.mpr ⟨hreports, fun before e after heq m epoch hreport => ?_⟩
  have hmem : e ∈ out := by
    rw [heq]
    exact List.mem_append_right _ List.mem_cons_self
  have hnot := hout e hmem
  rw [hreport] at hnot
  cases hnot

theorem foldl_fixed {α β : Type} {f : α → β → α} {x : α} {l : List β} (hfixed : ∀ y ∈ l, f x y = x) : l.foldl f x = x := by
  induction l with
  | nil => rfl
  | cons y l ih =>
    obtain ⟨hy, hrest⟩ := List.forall_mem_cons.mp hfixed
    rw [List.foldl_cons, hy]
    exact ih hrest

/-- **Step lemma** for the counters. -/
theorem Accounted.telemetry (ha : Accounted defectCount fps h s) {a : TelemetryInput} {u : Telemetry} {events : List TelemetryEvent}
    (hwaits : s.waits a = false) (hstep : Reporting.telemetry.step s.telemetry a = some (u, events)) :
    Accounted defectCount fps (h ++ events.map .telemetry)
      { s with
        telemetry := u
        tally := events.foldl (Tally.next defectCount) s.tally
        reading := events.foldl Reading.next s.reading } := by
  have hreport : ∀ e ∈ events.map Event.telemetry, e.isReport = false := by
    intro e he
    obtain ⟨e, -, rfl⟩ := List.mem_map.mp he
    rfl
  have hreports := everywhere_append ha.reports hreport
  cases telemetry_steps hstep with
  | processed accepted u number before hinner =>
    have hdone : s.tally = .done := not_not.mp (of_decide_eq_false hwaits)
    refine ⟨?_, ha.tallied.processed hdone rfl rfl, ha.reading.append hreport, hreports⟩
    rw [orchestration_append]
    exact ha.conserved.step hinner
  | orchestrator a u out hinner hout =>
    have htally : (out.map TelemetryEvent.orchestrator).foldl (Tally.next defectCount) s.tally = s.tally := by
      refine foldl_fixed fun e he => ?_
      obtain ⟨e, hmem, rfl⟩ := List.mem_map.mp he
      have hnot := hout e hmem
      cases e with
      | processed => cases hnot
      | _ => rfl
    have hreading : (out.map TelemetryEvent.orchestrator).foldl Reading.next s.reading = s.reading := by
      refine foldl_fixed fun e he => ?_
      obtain ⟨e, -, rfl⟩ := List.mem_map.mp he
      rfl
    have hevents : orchestration ((out.map TelemetryEvent.orchestrator).map .telemetry) = out := by
      rw [List.map_map]
      exact orchestration_map out
    rw [htally, hreading]
    refine ⟨?_, ha.tallied.quiet rfl rfl ?_ ?_, ha.reading.append hreport, hreports⟩
    · rw [orchestration_append, hevents]
      exact ha.conserved.step hinner
    · intro e he
      obtain ⟨e, -, rfl⟩ := List.mem_map.mp he
      rfl
    · rw [hevents]
      exact hout
  | ticked d last delta =>
    have hnone : orchestration (h ++ [.telemetry (.ticked last s.telemetry.orchestrator.framesProcessed delta)]) = orchestration h := by
      rw [orchestration_append]
      exact List.append_nil _
    have htallied : Tallied defectCount (h ++ [.telemetry (.ticked last s.telemetry.orchestrator.framesProcessed delta)]) s :=
      ha.tallied.quiet rfl rfl (by simp [Event.addedBy]) (by simp [orchestration, Event.orchestration])
    refine ⟨?_, ⟨htallied.added, htallied.pending, htallied.last⟩, ?_, hreports⟩
    · show Conserved (orchestration (h ++ [.telemetry (.ticked last s.telemetry.orchestrator.framesProcessed delta)])) _
      rw [hnone]
      exact ha.conserved
    · refine ⟨_, ⟨⟨h, last, rfl⟩, ?_, ?_⟩, .refl _⟩
      · rw [hnone]
        exact ha.conserved.frames
      · rw [← htallied.pending]
        exact Nat.add_le_add_left htallied.last _
  | collector a d events hout =>
    have htally : events.foldl (Tally.next defectCount) s.tally = s.tally :=
      foldl_fixed fun e he => by rw [hout e he]; rfl
    have hreading : events.foldl Reading.next s.reading = s.reading := foldl_fixed fun e he => by rw [hout e he]; rfl
    have hnone : orchestration (events.map .telemetry) = [] := by
      refine List.flatMap_eq_nil_iff.mpr fun e he => ?_
      obtain ⟨e, hmem, rfl⟩ := List.mem_map.mp he
      rw [hout e hmem]
      rfl
    rw [htally, hreading]
    refine ⟨?_, ha.tallied.quiet rfl rfl ?_ ?_, ha.reading.append hreport, hreports⟩
    · rw [orchestration_append, hnone, List.append_nil]
      exact ha.conserved
    · intro e he
      obtain ⟨e, -, rfl⟩ := List.mem_map.mp he
      rfl
    · rw [hnone]
      exact fun _ hnot => absurd hnot List.not_mem_nil

/-- **Step lemma** for the bookkeeping. -/
theorem Accounted.bookkeep (ha : Accounted defectCount fps h s) {now : UInt64} (hstep : s.bookkeep now = some (t, out)) :
    Accounted defectCount fps (h ++ out) t := by
  have htallied := ha.tallied.bookkeep hstep
  unfold State.bookkeep at hstep
  split at hstep
  · cases hstep
  all_goals
    cases hstep
    refine ⟨?_, htallied, ha.reading.append (by simp [Event.isReport]), everywhere_append ha.reports (by simp [Event.isReport])⟩
    rw [orchestration_append]
    simpa [orchestration, Event.orchestration] using ha.conserved

/-- **Step lemma** for the reads. -/
theorem Accounted.read (ha : Accounted defectCount fps h s) {tempC : Int32} {vmrssKb : UInt64} {uptime : Int64} {time : Tm}
    (hstep : s.read fps tempC vmrssKb uptime time = some (t, out)) : Accounted defectCount fps (h ++ out) t := by
  have hreading := ha.reading
  unfold State.read at hstep
  split at hstep
  · cases hstep
  · rename_i framesNow delta hframes
    cases hstep
    rw [hframes] at hreading
    obtain ⟨look, hlook, hwithin⟩ := hreading
    rw [List.append_nil]
    refine ⟨ha.conserved, ⟨ha.tallied.added, ha.tallied.pending, ha.tallied.last⟩, ?_, ha.reports⟩
    refine ⟨look, h, hlook, hwithin, .refl h, ?_⟩
    rw [ha.conserved.dropped]
  · rename_i framesNow delta dropped hframes
    cases hstep
    rw [hframes] at hreading
    obtain ⟨look, mid, hlook, hmid, hwithin, hdropped⟩ := hreading
    rw [List.append_nil]
    refine ⟨ha.conserved, ⟨ha.tallied.added, ha.tallied.pending, ha.tallied.last⟩, ?_, ha.reports⟩
    exact ⟨look, mid, h, hlook, hmid, hwithin, .refl h, hdropped, ha.tallied.added⟩
  · rename_i framesNow delta dropped tempC' vmrssKb' defects hframes
    cases hstep
    rw [hframes] at hreading
    obtain ⟨look, mid, late, hlook, hmid, hlate, hwithin, hdropped, hdefects⟩ := hreading
    have htallied : Tallied defectCount (h ++ [.reported ⟨framesNow, fps delta, dropped, tempC', vmrssKb', defects, uptime, time⟩
        s.lastDefectEpoch]) s :=
      ha.tallied.quiet rfl rfl (by simp [Event.addedBy]) (by simp [orchestration, Event.orchestration])
    refine ⟨?_, ⟨htallied.added, htallied.pending, htallied.last⟩, trivial, Everywhere.snoc_iff.mpr ⟨ha.reports, ?_⟩⟩
    · rw [orchestration_append]
      simpa [orchestration, Event.orchestration] using ha.conserved
    · intro m epoch heq
      cases heq
      refine ⟨⟨delta, look, mid, late, rfl, hlook, hmid, hlate, hwithin, hdropped, hdefects⟩, ?_, ?_⟩
      · have hflight := ha.conserved.flight
        omega
      · have hpending := ha.tallied.pending
        omega

/-- **Run lemma.** -/
theorem accounted {maxSize : Nat} {inputs : List Input}
    (hrun : (bookkeeping defectCount fps).run (.create maxSize) inputs = some (s, h)) : Accounted defectCount fps h s := by
  refine (bookkeeping defectCount fps).run_induction (I := Accounted defectCount fps) (fun h s a t out ha _ hstep => ?_) (h := [])
    (.create defectCount fps maxSize) ((bookkeeping defectCount fps).along_true _ inputs) hrun
  cases a with
  | telemetry a =>
    change (if s.waits a then none else _) = _ at hstep
    split at hstep
    · cases hstep
    · rename_i hwaits
      obtain ⟨⟨u, events⟩, hinner, heq⟩ := Option.map_eq_some_iff.mp hstep
      cases heq
      exact ha.telemetry (Bool.eq_false_iff.mpr hwaits) hinner
  | bookkeep now => exact ha.bookkeep hstep
  | read tempC vmrssKb uptime time => exact ha.read hstep

end Reads

/-! ## What a report says -/

section Report
variable (defectCount : Nat → Nat) (fps : UInt64 → FloatValue)

/-- A report's numbers, for the history before it and the part of that up to the tick's first read. -/
structure Tells (look before : List Event) (m : Metrics) : Prop where
  within : Within look before
  ticked : ∃ earlier last delta, look = earlier ++ [.telemetry (.ticked last m.framesTotal delta)] ∧ m.fps = fps delta
  frames : m.framesTotal.toNat = sinceStart (orchestration look)
  lost_le : total isLost (orchestration look) ≤ m.dropped.toNat
  le_lost : m.dropped.toNat ≤ total isLost (orchestration before)
  captured : m.framesTotal.toNat + m.dropped.toNat ≤ total isCaptured (orchestration before)
  found_le : total (defectsOf defectCount) (orchestration look) ≤
    m.defectsTotal.toNat + lastDefects defectCount (orchestration look)
  le_found : m.defectsTotal.toNat ≤ total (defectsOf defectCount) (orchestration before)
  later : ∀ m' epoch, .reported m' epoch ∈ before → m'.dropped ≤ m.dropped ∧ m'.defectsTotal ≤ m.defectsTotal

variable {defectCount fps}

theorem ofNat_le_ofNat {m n : Nat} (hmn : m ≤ n) (hn : n < 2 ^ 64) : UInt64.ofNat m ≤ UInt64.ofNat n := by
  rw [UInt64.le_iff_toNat_le, UInt64.toNat_ofNat_of_lt' (hmn.trans_lt hn), UInt64.toNat_ofNat_of_lt' hn]
  exact hmn

/-- An earlier report has smaller counters. -/
theorem Report.le {p mid late : List Event} {m : Metrics} (hreport : Report defectCount fps p m) (hmid : p <+: mid)
    (hlate : mid <+: late) (hlost : total isLost (orchestration mid) < 2 ^ 64) (hadded : total Event.addedBy late < 2 ^ 64) :
    m.dropped ≤ UInt64.ofNat (total isLost (orchestration mid)) ∧ m.defectsTotal ≤ UInt64.ofNat (total Event.addedBy late) := by
  obtain ⟨-, -, mid', late', -, -, -, hmidlate, hwithin, hdropped, hdefects⟩ := hreport.reads
  rw [hdropped, hdefects]
  have hinit := (hmidlate.trans hwithin).isPrefix.trans hmid
  exact ⟨ofNat_le_ofNat (total_mono isLost (orchestration_isPrefix hinit)) hlost,
    ofNat_le_ofNat (total_mono Event.addedBy (hwithin.isPrefix.trans (hmid.trans hlate))) hadded⟩

/-- **What a report says**, in any order of the steps of the camera, the consumer, the callers and the collector: the frames
since the orchestrator's last start as they were at the tick's first read; what was dropped by then and at most by the report; the
defects of all frames processed by then but for those of the last one, and of no frame that was not processed. The frames and the
drops are frames that came, and neither the drops nor the defects ever go down. -/
theorem reports_accounted {maxSize : Nat} {inputs : List Input} {s : State} {h : List Event}
    (hrun : (bookkeeping defectCount fps).run (.create maxSize) inputs = some (s, h))
    (hcaptured : total isCaptured (orchestration h) < 2 ^ 64)
    (hfound : total (defectsOf defectCount) (orchestration h) < 2 ^ 64) :
    Everywhere (fun before e => ∀ m epoch, e = .reported m epoch → ∃ look, Tells defectCount fps look before m) h := by
  have hreports := (accounted hrun).reports
  intro before e after heq m epoch hm
  obtain ⟨⟨delta, look, mid, late, hfps, hlooked, hmid, hlate, hwithin, hdropped, hdefects⟩, hsum, hadded⟩ :=
    hreports before e after heq m epoch hm
  have hinit : before <+: h := ⟨e :: after, heq.symm⟩
  have hcaptured' := (total_mono isCaptured (orchestration_isPrefix hinit)).trans_lt hcaptured
  have hfound' := (total_mono (defectsOf defectCount) (orchestration_isPrefix hinit)).trans_lt hfound
  have hmidlate := hmid.trans hlate
  have hlook := hmidlate.trans hwithin
  have hlost := total_mono isLost (orchestration_isPrefix (hlate.trans hwithin).isPrefix)
  have hlostlook := total_mono isLost (orchestration_isPrefix hmid.isPrefix)
  have haddedlook := total_mono Event.addedBy hmidlate.isPrefix
  have haddedlate := total_mono Event.addedBy hwithin.isPrefix
  have hframes := sinceStart_le (orchestration look)
  have hprocessed := total_mono isProcessed (orchestration_isPrefix hlook.isPrefix)
  have hnow {n : Nat} {counter : UInt64} (hcounter : counter = UInt64.ofNat n) (hn : n < 2 ^ 64) : counter.toNat = n := by
    rw [hcounter, UInt64.toNat_ofNat_of_lt' hn]
  have hframesNow := hnow hlooked.frames (by omega)
  have hdroppedNow := hnow hdropped (by omega)
  have hdefectsNow := hnow hdefects (by omega)
  obtain ⟨earlier, last, hticked⟩ := hlooked.ticked
  refine ⟨look, hlook, ⟨earlier, last, delta, hticked, hfps⟩, hframesNow, ?_, ?_, ?_, ?_, ?_, fun m' epoch' hmem => ?_⟩
  · omega
  · omega
  · omega
  · have hall := hlooked.defects
    omega
  · omega
  · -- an earlier report is in front of the tick's first read, and so are its own reads
    obtain ⟨p, q, hp⟩ := List.append_of_mem (hlook.mem_report hmem)
    obtain ⟨rest, hrest⟩ := hlook.isPrefix.trans hinit
    have hh : h = p ++ .reported m' epoch' :: (q ++ rest) := by rw [← hrest, hp, List.append_assoc, List.cons_append]
    have hpmid : p <+: mid := List.IsPrefix.trans ⟨_, hp.symm⟩ hmid.isPrefix
    rw [hdropped, hdefects]
    exact (hreports p _ _ hh m' epoch' rfl).le hpmid hlate.isPrefix (by omega) (by omega)

end Report

/-- Two frames for a queue of one, and a tick behind the second one, which has two defects. -/
def secondFrame : List Input :=
  [.telemetry (.collector .start), .telemetry (.collector .caller), .telemetry (.collector .caller),
    .telemetry (.orchestrator .start), .telemetry (.orchestrator .caller), .telemetry (.orchestrator .caller),
    .telemetry (.orchestrator (.push false)), .telemetry (.orchestrator (.push false)),
    .telemetry (.orchestrator (.consumer true)), .telemetry (.orchestrator (.consumer true)),
    .telemetry (.orchestrator (.consumer true)), .telemetry (.orchestrator (.consumer true)), .bookkeep 7, .bookkeep 7,
    .telemetry (.collector .thread), .telemetry (.collector .thread), .read 45 20480 1 ⟨2026, 1, 1, 0, 0, 0⟩,
    .read 45 20480 1 ⟨2026, 1, 1, 0, 0, 0⟩, .read 45 20480 1 ⟨2026, 1, 1, 0, 0, 0⟩]

def secondHistory : List Event :=
  [.telemetry (.looked 0), .telemetry (.orchestrator (.reset 0)), .telemetry (.orchestrator (.pushed ⟨0, false⟩)),
    .telemetry (.orchestrator (.dropped ⟨0, false⟩)), .telemetry (.orchestrator (.pushed ⟨1, false⟩)),
    .telemetry (.orchestrator (.popped ⟨1, false⟩)), .telemetry (.orchestrator (.published 1 true)),
    .telemetry (.orchestrator (.processed 1 0)), .added 2, .dated 7, .telemetry (.ticked 0 1 1)]

def secondReport : Metrics := ⟨1, .finite false 0 0, 1, 45, 20480, 2, 1, ⟨2026, 1, 1, 0, 0, 0⟩⟩

/-- The report has one frame, one drop and two defects. -/
theorem second_accounted : ∃ look, Tells (fun _ => 2) (fun _ => .finite false 0 0) look secondHistory secondReport := by
  have hall := @reports_accounted (fun _ => 2) (fun _ => .finite false 0 0) 1 secondFrame _
    (secondHistory ++ [.reported secondReport 7]) rfl (by decide) (by decide)
  exact hall secondHistory _ [] rfl secondReport 7 rfl

end IbarraGateway.GemaVision.Bookkeeping
