import IbarraGateway.Lib.Debounce
import IbarraGateway.Norvi.EventTime

/-!
# The debounce of the interrupt handler

Every call of `inputISR` in a run of the firmware, with the node before and after it, and every event that the networking
task takes from the queue. The handler compares an edge with the last one it *accepted*, in 64-bit arithmetic that could
wrap if time went back; on a clock that does not, what it accepts is the debounced train of the edges, and the counter
and the queue follow it.

* `edges_debounced` : what the edges of a run do.
* `cycle_count_largest` : the counter is the largest number of edges 50 ms apart.
-/

namespace IbarraGateway.Norvi

/-! ## The history of the edges -/

/-- A call of `inputISR`. -/
structure Edge where
  currentTime : Int64
  before : Node
  after : Node

/-- The branch that counts the edge. -/
def Edge.Accepted (e : Edge) : Prop := e.currentTime - e.before.lastInterruptTime ≥ 50000

instance : DecidablePred Edge.Accepted := fun e => inferInstanceAs (Decidable (e.currentTime - e.before.lastInterruptTime ≥ 50000))

/-- The time of the edge, as a number. -/
def Edge.us (e : Edge) : Int := e.currentTime.toInt

/-- The edge with its time in milliseconds and the new count. -/
def Edge.event (e : Edge) : ProductionEvent where
  cycleCount := e.after.globalCycleCount
  timestamp := UInt32.ofNat (e.us / 1000).toNat
  pinId := inputPin

/-- The queue has room. -/
def Edge.Fits (e : Edge) : Prop := e.before.productionEventQueue.length < queueLength

instance : DecidablePred Edge.Fits := fun e => inferInstanceAs (Decidable (e.before.productionEventQueue.length < queueLength))

inductive Occurrence
  | edge (e : Edge)
  | taken (event : ProductionEvent)

/-- What a step of the firmware shows. -/
def occurrences (n n' : Node) (out : List Effect) : Input → List Occurrence
  | .isr currentTime => [.edge ⟨currentTime, n, n'⟩]
  | .pass _ => (received out).map .taken

/-- The networking task and the interrupt handler, watched. -/
def interrupts : Machine Node Input Occurrence where
  step n input := (networking.step n input).map fun r => (r.1, occurrences n r.1 r.2 input)

/-- The interrupt times of a run. -/
def edgeTimes (inputs : List Input) : List Int64 :=
  inputs.filterMap fun
    | .isr currentTime => some currentTime
    | .pass _ => none

def edgesOf (log : List Occurrence) : List Edge :=
  log.filterMap fun
    | .edge e => some e
    | .taken _ => none

def eventsTaken (log : List Occurrence) : List ProductionEvent :=
  log.filterMap fun
    | .edge _ => none
    | .taken event => some event

def accepts (edges : List Edge) : List Edge := edges.filter fun e => e.Accepted

/-- The time of the last accepted edge; before the first one, the boot. -/
def lastAccepted (edges : List Edge) : Int := ((accepts edges).map Edge.us).getLastD 0

/-- The laws of the debounce, of the history of a run and the node it leaves. -/
structure Debounced (log : List Occurrence) (n : Node) : Prop where
  apart : (accepts (edgesOf log)).Pairwise fun e e' => e.us + 50000 ≤ e'.us
  acceptsLate : Everywhere (fun before e => e.Accepted ↔ lastAccepted before + 50000 ≤ e.us) (edgesOf log)
  counts : ∀ e ∈ edgesOf log, e.Accepted →
    e.after.globalCycleCount.toNat = (e.before.globalCycleCount.toNat + 1) % 2 ^ 32
  enqueues : ∀ e ∈ edgesOf log, e.Accepted → e.Fits →
    e.after.productionEventQueue = e.before.productionEventQueue ++ [e.event]
  rejects : ∀ e ∈ edgesOf log, ¬e.Accepted → e.after = e.before
  total : n.globalCycleCount.toNat = (accepts (edgesOf log)).length % 2 ^ 32
  inOrder : eventsTaken log ++ n.productionEventQueue =
    ((accepts (edgesOf log)).filter fun e => e.Fits).map Edge.event

/-! ## One call -/

/-- The edge that a call of the handler is. -/
def Edge.call (n : Node) (currentTime : Int64) : Edge := ⟨currentTime, n, inputISR n currentTime⟩

theorem inputISR_of_accepted {n : Node} {currentTime : Int64} (h : (Edge.call n currentTime).Accepted) :
    inputISR n currentTime =
      { n with
        lastInterruptTime := currentTime
        globalCycleCount := n.globalCycleCount + 1
        productionEventQueue := xQueueSendFromISR n.productionEventQueue
          { cycleCount := n.globalCycleCount + 1, timestamp := stamp currentTime, pinId := inputPin } } :=
  if_pos h

theorem inputISR_of_rejected {n : Node} {currentTime : Int64} (h : ¬(Edge.call n currentTime).Accepted) :
    inputISR n currentTime = n :=
  if_neg h

theorem stamp_eq {currentTime : Int64} (h : 0 ≤ currentTime) :
    stamp currentTime = UInt32.ofNat (currentTime.toInt / 1000).toNat := by
  have hms := toInt_div_1000 h
  have hpos : 0 ≤ currentTime / 1000 := by
    rw [Int64.le_iff_toInt_le, hms, Int64.toInt_zero]
    exact Int.ediv_nonneg (toInt_nonneg h) (by omega)
  apply UInt32.toNat.inj
  rw [stamp, UInt64.toNat_toUInt32, Int64.toNat_toUInt64_of_le hpos, ← Int64.toNat_toInt, hms, UInt32.toNat_ofNat']

/-- **The test**, for an edge that comes after the one accepted last. -/
theorem accepted_iff {e : Edge} (hpos : 0 ≤ e.before.lastInterruptTime.toInt)
    (hle : e.before.lastInterruptTime.toInt = 0 ∨ e.before.lastInterruptTime.toInt ≤ e.us) :
    e.Accepted ↔ e.before.lastInterruptTime.toInt + 50000 ≤ e.us := by
  have hsub : (e.currentTime - e.before.lastInterruptTime).toInt = e.us - e.before.lastInterruptTime.toInt := by
    have hmin := e.currentTime.le_toInt
    have hmax := e.currentTime.toInt_lt
    rw [Int64.toInt_sub]
    unfold Edge.us at hle ⊢
    apply Int.bmod_eq_of_le
    · omega
    · omega
  have hgap : (50000 : Int64).toInt = 50000 := rfl
  rw [Edge.Accepted, ge_iff_le, Int64.le_iff_toInt_le, hsub, hgap]
  omega

/-! ## The networking task -/

/-- What the handler alone writes. -/
def Node.counted (n : Node) : Int64 × UInt32 := (n.lastInterruptTime, n.globalCycleCount)

theorem checkWifi_counted (a : Answers) (n : Node) : (checkWifi a n).counted = n.counted := by
  unfold checkWifi
  split
  · rfl
  · rfl

theorem switchState_counted {a : Answers} {n m : Node} {out : List Effect} (h : switchState a n = some (m, out)) :
    m.counted = n.counted := by
  cases switchState_inv h with
  | disconnected =>
    unfold disconnected
    split
    · rfl
    · rfl
  | connectingWifi =>
    unfold connectingWifi
    split
    · rfl
    · split
      · rfl
      · rfl
  | syncingTime _ hvisit =>
    cases hvisit with
    | up => rfl
    | down => rfl
  | connectingMqtt =>
    unfold connectingMqtt
    split
    · split
      · rfl
      · rfl
    · rfl
  | connected =>
    unfold connected
    split
    · dsimp only
      split
      · rfl
      · rfl
    · rfl

theorem spoolOffline_counted (a : Answers) (n : Node) : (spoolOffline a n).1.counted = n.counted := by
  unfold spoolOffline
  split
  · rfl
  · split
    · rfl
    · split
      · rfl
      · rfl

theorem pass_counted {a : Answers} {n n' : Node} {out : List Effect} (h : pass n a = some (n', out)) :
    n'.counted = n.counted := by
  obtain ⟨m, switched, hswitch, rfl, -⟩ := pass_cases h
  rw [spoolOffline_counted, switchState_counted hswitch, checkWifi_counted]

/-! ## Histories -/

theorem edgesOf_append (log out : List Occurrence) : edgesOf (log ++ out) = edgesOf log ++ edgesOf out :=
  List.filterMap_append

theorem eventsTaken_append (log out : List Occurrence) : eventsTaken (log ++ out) = eventsTaken log ++ eventsTaken out :=
  List.filterMap_append

theorem edgesOf_taken (events : List ProductionEvent) : edgesOf (events.map .taken) = [] := by
  rw [edgesOf, List.filterMap_map]
  exact List.filterMap_eq_nil_iff.mpr fun _ _ => rfl

theorem eventsTaken_taken (events : List ProductionEvent) : eventsTaken (events.map .taken) = events := by
  rw [eventsTaken, List.filterMap_map]
  exact List.filterMap_some

theorem accepts_snoc (edges : List Edge) (e : Edge) :
    accepts (edges ++ [e]) = accepts edges ++ if e.Accepted then [e] else [] := by
  rw [accepts, List.filter_append, List.filter_singleton, accepts]
  by_cases h : e.Accepted
  · simp [h]
  · simp [h]

theorem interrupts_step {n n' : Node} {input : Input} {out : List Occurrence}
    (h : interrupts.step n input = some (n', out)) :
    (∃ t, input = .isr t ∧ n' = inputISR n t ∧ out = [.edge ⟨t, n, inputISR n t⟩]) ∨
      ∃ a effects, input = .pass a ∧ pass n a = some (n', effects) ∧ out = (received effects).map .taken := by
  obtain ⟨⟨m, effects⟩, hstep, heq⟩ := Option.map_eq_some_iff.mp h
  obtain ⟨rfl, rfl⟩ := Prod.mk.inj heq
  rcases input with t | a
  · cases hstep
    exact .inl ⟨t, rfl, rfl, rfl⟩
  · exact .inr ⟨a, effects, rfl, hstep, rfl⟩

/-- Every interrupt time of the run is an edge of its history. -/
theorem edges_us (spool : Option (List UInt8)) (inputs : List Input) (n : Node) (log : List Occurrence)
    (hrun : interrupts.run (Node.boot spool) inputs = some (n, log)) :
    (edgesOf log).map Edge.currentTime = edgeTimes inputs := by
  refine interrupts.run_snoc_induction (I := fun as log _ => (edgesOf log).map Edge.currentTime = edgeTimes as) rfl ?_
    (interrupts.along_true _ inputs) hrun
  intro as log n input n' out _ heq _ hstep
  have htimes : edgeTimes (as ++ [input]) = edgeTimes as ++ edgeTimes [input] := List.filterMap_append
  rw [edgesOf_append, List.map_append, heq, htimes]
  rcases interrupts_step hstep with ⟨t, rfl, -, rfl⟩ | ⟨a, effects, rfl, -, rfl⟩
  · rfl
  · rw [edgesOf_taken]
    rfl

/-! ## Runs -/

theorem call_counts {n : Node} {t : Int64} (h : (Edge.call n t).Accepted) :
    (inputISR n t).globalCycleCount.toNat = (n.globalCycleCount.toNat + 1) % 2 ^ 32 := by
  rw [inputISR_of_accepted h, UInt32.toNat_add, UInt32.toNat_one]

theorem call_enqueues {n : Node} {t : Int64} (h : (Edge.call n t).Accepted) (hpos : 0 ≤ t) :
    (inputISR n t).productionEventQueue =
      n.productionEventQueue ++ if (Edge.call n t).Fits then [(Edge.call n t).event] else [] := by
  have hevent : (Edge.call n t).event =
      { cycleCount := n.globalCycleCount + 1, timestamp := stamp t, pinId := inputPin } := by
    show ProductionEvent.mk (inputISR n t).globalCycleCount _ _ = _
    rw [inputISR_of_accepted h, stamp_eq hpos]
    rfl
  rw [hevent, inputISR_of_accepted h]
  by_cases hfits : (Edge.call n t).Fits
  · rw [if_pos hfits]
    exact if_pos hfits
  · rw [if_neg hfits, List.append_nil]
    exact if_neg hfits

/-- The invariant: the handler remembers the last edge it accepted, and it accepts the debounced train. -/
structure Handling (log : List Occurrence) (n : Node) : Prop extends Debounced log n where
  last : n.lastInterruptTime.toInt = lastAccepted (edgesOf log)
  train : (accepts (edgesOf log)).map Edge.us = Debounce.kept 50000 0 ((edgesOf log).map Edge.us)

theorem Handling.boot (spool : Option (List UInt8)) : Handling [] (Node.boot spool) where
  apart := List.Pairwise.nil
  acceptsLate := Everywhere.nil
  counts _ he := absurd he List.not_mem_nil
  enqueues _ he := absurd he List.not_mem_nil
  rejects _ he := absurd he List.not_mem_nil
  total := (Nat.zero_mod _).symm
  inOrder := rfl
  last := Int64.toInt_zero
  train := rfl

theorem apart_of_train {edges : List Edge} (h : (accepts edges).map Edge.us = Debounce.kept 50000 0 (edges.map Edge.us)) :
    (0 :: (accepts edges).map Edge.us).Pairwise fun x y => x + 50000 ≤ y := by
  rw [h]
  exact (Debounce.kept_apart 0 _).pairwise fun x => by omega

/-- The last accepted time is the boot or an edge of the history. -/
theorem Handling.lastAccepted_mem {log : List Occurrence} {n : Node} (h : Handling log n) :
    lastAccepted (edgesOf log) = 0 ∨
      0 ≤ lastAccepted (edgesOf log) ∧ ∃ e ∈ edgesOf log, e.us = lastAccepted (edgesOf log) := by
  rcases List.mem_cons.mp (List.getLastD_mem_cons (l := (accepts (edgesOf log)).map Edge.us) (a := 0)) with hzero | hmem
  · exact .inl hzero
  · have hlate := (List.pairwise_cons.mp (apart_of_train h.train)).1 _ hmem
    obtain ⟨e, he, hus⟩ := List.mem_map.mp hmem
    refine .inr ⟨?_, e, List.mem_of_mem_filter he, hus⟩
    show 0 ≤ List.getLastD _ 0
    omega

theorem Handling.call_accepted_iff {log : List Occurrence} {n : Node} (h : Handling log n) {t : Int64}
    (hlatest : ∀ e ∈ edgesOf log, e.us ≤ t.toInt) :
    (Edge.call n t).Accepted ↔ lastAccepted (edgesOf log) + 50000 ≤ t.toInt := by
  rw [← h.last]
  rcases h.lastAccepted_mem with hzero | ⟨hpos, e, he, hus⟩
  · rw [← h.last] at hzero
    exact accepted_iff (e := Edge.call n t) hzero.ge (.inl hzero)
  · have hle := hlatest e he
    rw [hus, ← h.last] at hle
    rw [← h.last] at hpos
    exact accepted_iff (e := Edge.call n t) hpos (.inr hle)

theorem edgesOf_edge (log : List Occurrence) (e : Edge) : edgesOf (log ++ [.edge e]) = edgesOf log ++ [e] :=
  edgesOf_append log [.edge e]

theorem eventsTaken_edge (log : List Occurrence) (e : Edge) : eventsTaken (log ++ [.edge e]) = eventsTaken log :=
  (eventsTaken_append log [.edge e]).trans (List.append_nil _)

section Step
variable {log : List Occurrence} {n : Node} {t : Int64}

/-- An accepted edge comes after the boot. -/
theorem Handling.call_nonneg (h : Handling log n) (hlatest : ∀ e ∈ edgesOf log, e.us ≤ t.toInt)
    (hacc : (Edge.call n t).Accepted) : 0 ≤ t := by
  have hlast : 0 ≤ lastAccepted (edgesOf log) := h.lastAccepted_mem.elim (·.ge) (·.1)
  have hlate := (h.call_accepted_iff hlatest).mp hacc
  rw [Int64.le_iff_toInt_le, Int64.toInt_zero]
  omega

theorem Handling.train_edge (h : Handling log n) (hlatest : ∀ e ∈ edgesOf log, e.us ≤ t.toInt) :
    (accepts (edgesOf log ++ [Edge.call n t])).map Edge.us =
      Debounce.kept 50000 0 ((edgesOf log ++ [Edge.call n t]).map Edge.us) := by
  have hiff := h.call_accepted_iff hlatest
  rw [List.map_append, List.map_singleton, Debounce.kept_snoc, ← h.train, accepts_snoc, List.map_append]
  congr 1
  by_cases hacc : (Edge.call n t).Accepted
  · rw [if_pos hacc]
    exact (if_pos (hiff.mp hacc)).symm
  · rw [if_neg hacc]
    exact (if_neg (hacc ∘ hiff.mpr)).symm

theorem Handling.last_edge (h : Handling log n) :
    (inputISR n t).lastInterruptTime.toInt = lastAccepted (edgesOf log ++ [Edge.call n t]) := by
  rw [lastAccepted, accepts_snoc]
  by_cases hacc : (Edge.call n t).Accepted
  · rw [if_pos hacc, inputISR_of_accepted hacc, List.map_append, List.map_singleton, List.getLastD_concat]
    rfl
  · rw [if_neg hacc, inputISR_of_rejected hacc, List.append_nil]
    exact h.last

theorem Handling.total_edge (h : Handling log n) :
    (inputISR n t).globalCycleCount.toNat = (accepts (edgesOf log ++ [Edge.call n t])).length % 2 ^ 32 := by
  rw [accepts_snoc]
  by_cases hacc : (Edge.call n t).Accepted
  · rw [call_counts hacc, h.total, if_pos hacc, List.length_append, List.length_singleton]
    omega
  · rw [inputISR_of_rejected hacc, if_neg hacc, List.append_nil]
    exact h.total

/-- The queue grows by the event of an accepted edge that fits. -/
theorem Handling.inOrder_edge (h : Handling log n) (hlatest : ∀ e ∈ edgesOf log, e.us ≤ t.toInt) :
    eventsTaken log ++ (inputISR n t).productionEventQueue =
      ((accepts (edgesOf log ++ [Edge.call n t])).filter fun e => e.Fits).map Edge.event := by
  rw [accepts_snoc]
  by_cases hacc : (Edge.call n t).Accepted
  · rw [call_enqueues hacc (h.call_nonneg hlatest hacc), if_pos hacc, List.filter_append, List.map_append,
      ← List.append_assoc, h.inOrder, List.filter_singleton]
    congr 1
    by_cases hfits : (Edge.call n t).Fits
    · simp [hfits]
    · simp [hfits]
  · rw [inputISR_of_rejected hacc, if_neg hacc, List.append_nil]
    exact h.inOrder

/-- **One edge**, on a clock that does not go back. -/
theorem Handling.edge (h : Handling log n) (hlatest : ∀ e ∈ edgesOf log, e.us ≤ t.toInt) :
    Handling (log ++ [.edge (Edge.call n t)]) (inputISR n t) := by
  have hedges := edgesOf_edge log (Edge.call n t)
  have htrain := h.train_edge hlatest
  constructor
  case toDebounced =>
    constructor
    case total => rw [hedges, h.total_edge]
    case inOrder => rw [hedges, eventsTaken_edge, h.inOrder_edge hlatest]
    all_goals rw [hedges]
    · exact List.pairwise_map.mp (List.pairwise_cons.mp (apart_of_train htrain)).2
    · exact Everywhere.snoc_iff.mpr ⟨h.acceptsLate, h.call_accepted_iff hlatest⟩
    · exact List.forall_mem_append.mpr ⟨h.counts, List.forall_mem_singleton.mpr call_counts⟩
    · refine List.forall_mem_append.mpr ⟨h.enqueues, List.forall_mem_singleton.mpr fun hacc hfits => ?_⟩
      have hqueue := call_enqueues hacc (h.call_nonneg hlatest hacc)
      rwa [if_pos hfits] at hqueue
    · exact List.forall_mem_append.mpr ⟨h.rejects, List.forall_mem_singleton.mpr inputISR_of_rejected⟩
  case last => rw [hedges, h.last_edge]
  case train => rw [hedges, htrain]

end Step

/-- **One pass** of the networking task. -/
theorem Handling.pass {log : List Occurrence} {n n' : Node} {a : Answers} {effects : List Effect} (h : Handling log n)
    (hpass : pass n a = some (n', effects)) : Handling (log ++ (received effects).map .taken) n' := by
  have hedges : edgesOf (log ++ (received effects).map .taken) = edgesOf log := by
    rw [edgesOf_append, edgesOf_taken, List.append_nil]
  obtain ⟨hlast, hcount⟩ := Prod.mk.inj (pass_counted hpass)
  have htaken := (takes_pass hpass).taken
  constructor
  case toDebounced =>
    constructor
    case inOrder =>
      rw [hedges, eventsTaken_append, eventsTaken_taken, List.append_assoc, htaken]
      exact h.inOrder
    case total =>
      rw [hedges, hcount]
      exact h.total
    all_goals rw [hedges]
    · exact h.apart
    · exact h.acceptsLate
    · exact h.counts
    · exact h.enqueues
    · exact h.rejects
  case last =>
    rw [hedges, hlast]
    exact h.last
  case train =>
    rw [hedges]
    exact h.train

theorem run_handling (spool : Option (List UInt8)) (inputs : List Input) (n : Node) (log : List Occurrence)
    (hclock : (edgeTimes inputs).Pairwise (· ≤ ·))
    (hrun : interrupts.run (Node.boot spool) inputs = some (n, log)) : Handling log n := by
  refine interrupts.run_snoc_induction (I := fun as log n => (edgeTimes as).Pairwise (· ≤ ·) → Handling log n)
    (fun _ => Handling.boot spool) ?_ (interrupts.along_true _ inputs) hrun hclock
  intro as log n input n' out hrun ih _ hstep hclock
  have htimes : edgeTimes (as ++ [input]) = edgeTimes as ++ edgeTimes [input] := List.filterMap_append
  rw [htimes] at hclock
  obtain ⟨hbefore, -, hlatest⟩ := List.pairwise_append.mp hclock
  rcases interrupts_step hstep with ⟨t, rfl, rfl, rfl⟩ | ⟨a, effects, rfl, hpass, rfl⟩
  · refine (ih hbefore).edge fun e he => ?_
    have hmem : e.currentTime ∈ edgeTimes as := by
      rw [← edges_us spool as n log hrun]
      exact List.mem_map_of_mem he
    exact Int64.le_iff_toInt_le.mp (hlatest e.currentTime hmem t (List.mem_singleton_self t))
  · exact (ih hbefore).pass hpass

/-- **The debounce**, in every run of the firmware on a clock that does not go back. Each interrupt is an edge of the
history, and the edges obey the laws. -/
theorem edges_debounced (spool : Option (List UInt8)) (inputs : List Input) (n : Node) (log : List Occurrence)
    (hclock : (edgeTimes inputs).Pairwise (· ≤ ·))
    (hrun : interrupts.run (Node.boot spool) inputs = some (n, log)) :
    (edgesOf log).map Edge.currentTime = edgeTimes inputs ∧ Debounced log n :=
  ⟨edges_us spool inputs n log hrun, (run_handling spool inputs n log hclock hrun).toDebounced⟩

/-- The node connects, two cycles come in with a bounce between them, and the first is published. -/
def twoCycles : List Input := connecting ++ [.isr 60000, .isr 60100, .pass allWell, .isr 110000]

theorem two_cycles_debounced : ∃ n log, interrupts.run (Node.boot none) twoCycles = some (n, log) ∧
    n.globalCycleCount = 2 ∧ n.productionEventQueue = [⟨2, 110, inputPin⟩] ∧ eventsTaken log = [⟨1, 60, inputPin⟩] ∧
    (edgesOf log).map Edge.currentTime = edgeTimes twoCycles ∧ Debounced log n := by
  have hrun : ∃ n log, interrupts.run (Node.boot none) twoCycles = some (n, log) ∧ n.globalCycleCount = 2 ∧
      n.productionEventQueue = [⟨2, 110, inputPin⟩] ∧ eventsTaken log = [⟨1, 60, inputPin⟩] := by
    refine ⟨_, _, rfl, ?_, ?_, ?_⟩
    · decide +kernel
    · decide +kernel
    · decide +kernel
  obtain ⟨n, log, hrun, hcount, hqueue, htaken⟩ := hrun
  have hclock : (edgeTimes twoCycles).Pairwise (· ≤ ·) := by decide
  exact ⟨n, log, hrun, hcount, hqueue, htaken, edges_debounced none twoCycles n log hclock hrun⟩

/-- The lengths of the choices of edges at least 50 ms apart, and 50 ms after boot. -/
def spacedCounts (times : List Int64) : Set Nat :=
  {k | ∃ chosen, chosen.Sublist (times.map Int64.toInt) ∧ Debounce.Apart 50000 (0 :: chosen) ∧ chosen.length = k}

/-- **The production figure**: the counter is, modulo 2 ^ 32, the largest number of edges that lie 50 ms apart. -/
theorem cycle_count_largest (spool : Option (List UInt8)) (inputs : List Input) (n : Node) (log : List Occurrence)
    (hclock : (edgeTimes inputs).Pairwise (· ≤ ·))
    (hrun : interrupts.run (Node.boot spool) inputs = some (n, log)) :
    ∃ cycles, IsGreatest (spacedCounts (edgeTimes inputs)) cycles ∧ n.globalCycleCount.toNat = cycles % 2 ^ 32 := by
  have h := run_handling spool inputs n log hclock hrun
  have hus : (edgesOf log).map Edge.us = (edgeTimes inputs).map Int64.toInt := by
    rw [← edges_us spool inputs n log hrun, List.map_map]
    rfl
  have htrain : (accepts (edgesOf log)).length = (Debounce.kept 50000 0 ((edgeTimes inputs).map Int64.toInt)).length := by
    rw [← hus, ← h.train, List.length_map]
  have hsorted : ((edgeTimes inputs).map Int64.toInt).Pairwise (· ≤ ·) :=
    hclock.map Int64.toInt fun _ _ => Int64.le_iff_toInt_le.mp
  refine ⟨(accepts (edgesOf log)).length, ⟨⟨_, Debounce.kept_sublist 0 _, Debounce.kept_apart 0 _, htrain.symm⟩, ?_⟩, h.total⟩
  rintro _ ⟨chosen, hsub, hapart, rfl⟩
  rw [htrain]
  exact Debounce.length_le_kept hsorted hsub hapart

end IbarraGateway.Norvi
