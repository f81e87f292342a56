import IbarraGateway.Norvi.Networking

/-!
# The replay of `/spool.dat` after a reconnect

Runs in which the link stays up and every publish and file operation succeeds, from a connected node with a file of
whole records. A pass opens the file at its first byte, so

* a short file (at most ten records) is published in order and removed by one pass (`run_short`);
* a longer file never shrinks: each pass publishes the first ten records again (`run_long`).

`spool_replayed_iff` puts the two together.
-/

namespace IbarraGateway.Norvi

/-- The link is up and every publish and file operation of the pass succeeds. -/
structure LinkUp (a : Answers) : Prop where
  wifi : a.wifiHead = true
  mqtt : a.mqttConnected = true
  openRead : a.openSpoolRead = true
  spooled : ∀ i, a.publishSpooled i = true
  live : a.publishLive = true
  remove : a.removeSpool = true

def Input.isPass : Input → Bool
  | .isr _ => false
  | .pass _ => true

/-- The records that the broker accepted from the file, in order. -/
def spooledOut (h : List Effect) : List SpooledEvent :=
  h.filterMap fun
    | .publish .spooled r true => some r
    | _ => none

/-- What the recovery flush owes: each record of the file published once and in order, before any live event, and the
file removed. -/
structure Replayed (records : List SpooledEvent) (n : Node) (h : List Effect) : Prop where
  once : spooledOut h = records
  removed : n.spool = none
  first : ∀ h₁ h₂ r accepted, h = h₁ ++ .publish .live r accepted :: h₂ → spooledOut h₂ = []

/-! ## The publications of a pass -/

@[simp] theorem spooledOut_nil : spooledOut [] = [] := rfl

@[simp] theorem spooledOut_append (h h' : List Effect) : spooledOut (h ++ h') = spooledOut h ++ spooledOut h' :=
  List.filterMap_append

@[simp] theorem spooledOut_cons (e : Effect) (h : List Effect) :
    spooledOut (e :: h) = spooledOut [e] ++ spooledOut h := by
  rw [← List.singleton_append, spooledOut_append]

theorem spooledOut_published (a : Answers) (hup : LinkUp a) (records : List SpooledEvent) :
    spooledOut (published a records) = records := by
  rw [published_eq_map (fun i _ => hup.spooled i), spooledOut, List.filterMap_map]
  exact List.filterMap_some

theorem spooledOut_delays {pause : List Effect} (h : ∀ e ∈ pause, e = .delay 50) : spooledOut pause = [] := by
  rw [spooledOut, List.filterMap_eq_nil_iff]
  intro e he
  rw [h e he]

theorem spooledOut_publishLive (a : Answers) (queue : List ProductionEvent) :
    spooledOut (publishLive a queue).2 = [] := by
  cases queue with
  | nil => rfl
  | cons event queue => rfl

/-- A pass of a connected node with the link up is its connected branch. -/
theorem pass_up {n : Node} {a : Answers} (hup : LinkUp a) (hconn : n.currentState = .connected) :
    pass n a = some ((connected a n).1, .wdtReset :: (connected a n).2 ++ [.delay 100]) := by
  have hcheck : checkWifi a n = n := by
    rw [checkWifi, if_neg]
    rintro ⟨-, -, hdown⟩
    rw [hup.wifi] at hdown
    cases hdown
  have hstay : (connected a n).1.currentState = .connected := by
    rw [connected, if_pos hup.mqtt]
    dsimp only
    split
    · exact hconn
    · exact hconn
  rw [pass, hcheck, switchState, hconn]
  simp only [spoolOffline, hstay, if_true, List.append_nil]

/-- One pass over a short file publishes all of it and removes it, then serves the live queue. -/
theorem pass_short {n : Node} {a : Answers} {bytes : List UInt8} (hup : LinkUp a)
    (hconn : n.currentState = .connected) (hspool : n.spool = some bytes) (hwhole : spooledEvent.Whole bytes)
    (hshort : Short bytes) :
    ∃ n' out live, pass n a = some (n', out ++ live) ∧ n'.spool = none ∧ n'.currentState = .connected ∧
      spooledOut out = spooledEvent.records bytes ∧ spooledOut live = [] ∧
      ∀ r accepted, .publish .live r accepted ∉ out := by
  obtain ⟨pause, hpause, hflush⟩ := flushSpool_whole a bytes hwhole hup.openRead
  rw [if_pos hshort, if_pos hup.remove] at hflush
  refine ⟨{ n with spool := none, productionEventQueue := (publishLive a n.productionEventQueue).1 },
    .wdtReset :: (published a (spooledEvent.records bytes) ++ .remove :: pause),
    (publishLive a n.productionEventQueue).2 ++ [.delay 100], ?_, rfl, hconn, ?_, ?_, ?_⟩
  · rw [pass_up hup hconn, connected, if_pos hup.mqtt, hspool, hflush]
    simp
  · rw [spooledOut_cons, spooledOut_append, spooledOut_published a hup, spooledOut_cons (.remove),
      spooledOut_delays hpause]
    simp [spooledOut]
  · rw [spooledOut_append, spooledOut_publishLive]
    rfl
  · intro r accepted hmem
    simp only [List.mem_cons, List.mem_append, published, List.mem_mapIdx, reduceCtorEq, false_or] at hmem
    rcases hmem with ⟨i, hi, he⟩ | hmem
    · cases he
    · cases hpause _ hmem

/-- One pass over a longer file publishes its first ten records and leaves it as it was. -/
theorem pass_long {n : Node} {a : Answers} {bytes : List UInt8} (hup : LinkUp a)
    (hconn : n.currentState = .connected) (hspool : n.spool = some bytes) (hwhole : spooledEvent.Whole bytes)
    (hlong : ¬ Short bytes) :
    ∃ out, pass n a = some (n, out) ∧ spooledOut out = (spooledEvent.records bytes).take flushChunk := by
  obtain ⟨pause, hpause, hflush⟩ := flushSpool_whole a bytes hwhole hup.openRead
  rw [if_neg hlong] at hflush
  refine ⟨.wdtReset :: (published a ((spooledEvent.records bytes).take flushChunk) ++ pause) ++ [.delay 100], ?_, ?_⟩
  · rw [pass_up hup hconn, connected, if_pos hup.mqtt, hspool, hflush]
    simp only [if_true]
    rw [← hspool]
  · rw [spooledOut_append, spooledOut_cons, spooledOut_append, spooledOut_published a hup, spooledOut_delays hpause]
    simp [spooledOut]

/-! ## Runs -/

/-- Interrupts alone publish nothing and leave file and connection state. -/
theorem run_isrs {inputs : List Input} (h : inputs.countP Input.isPass = 0) (n : Node) :
    ∃ n', networking.run n inputs = some (n', []) ∧ n'.spool = n.spool ∧ n'.currentState = n.currentState := by
  induction inputs generalizing n with
  | nil => exact ⟨n, rfl, rfl, rfl⟩
  | cons input inputs ih =>
    cases input with
    | pass a => simp [Input.isPass] at h
    | isr currentTime =>
      rw [List.countP_cons_of_neg (by simp [Input.isPass])] at h
      obtain ⟨n', hrun, hs, hc⟩ := ih h (inputISR n currentTime)
      refine ⟨n', ?_, ?_, ?_⟩
      · exact networking.run_cons_iff.mpr ⟨_, [], [], rfl, hrun, rfl⟩
      · rw [hs, inputISR_spool]
      · rw [hc, inputISR_currentState]

/-- **A short file is replayed by the run's only pass**, whatever interrupts come around it. -/
theorem run_short {n : Node} {bytes : List UInt8} {inputs : List Input} (hconn : n.currentState = .connected)
    (hspool : n.spool = some bytes) (hwhole : spooledEvent.Whole bytes) (hshort : Short bytes)
    (hup : ∀ a, .pass a ∈ inputs → LinkUp a) (hone : inputs.countP Input.isPass = 1) :
    ∃ n' h, networking.run n inputs = some (n', h) ∧ Replayed (spooledEvent.records bytes) n' h := by
  obtain ⟨input, hmem, hpass⟩ := List.countP_pos_iff.mp (hone ▸ Nat.one_pos)
  cases input with
  | isr currentTime => cases hpass
  | pass a =>
    obtain ⟨before, after, rfl⟩ := List.append_of_mem hmem
    rw [List.countP_append, List.countP_cons_of_pos hpass] at hone
    obtain ⟨n₁, hrun₁, hs₁, hc₁⟩ := run_isrs (show before.countP Input.isPass = 0 by omega) n
    obtain ⟨n₂, out, live, hstep, hs₂, -, hout, hlive, hnone⟩ :=
      pass_short (hup a hmem) (hc₁.trans hconn) (hs₁.trans hspool) hwhole hshort
    obtain ⟨n₃, hrun₃, hs₃, -⟩ := run_isrs (show after.countP Input.isPass = 0 by omega) n₂
    refine ⟨n₃, out ++ live, ?_, ?_, hs₃.trans hs₂, ?_⟩
    · refine networking.run_append_iff.mpr ⟨n₁, [], out ++ live, hrun₁, ?_, rfl⟩
      exact networking.run_cons_iff.mpr ⟨n₂, out ++ live, [], hstep, hrun₃, (List.append_nil _).symm⟩
    · rw [spooledOut_append, hout, hlive, List.append_nil]
    · intro h₁ h₂ r accepted heq
      -- the live publication lies in `live`, after everything from the file
      rcases List.append_eq_append_iff.mp heq with ⟨mid, -, hsplit⟩ | ⟨mid, hmid, hsplit⟩
      · rw [hsplit, spooledOut_append] at hlive
        rw [spooledOut_cons] at hlive
        exact (List.append_eq_nil_iff.mp (List.append_eq_nil_iff.mp hlive).2).2
      · cases mid with
        | nil =>
          rw [List.nil_append] at hsplit
          rw [← hsplit, spooledOut_cons] at hlive
          exact (List.append_eq_nil_iff.mp hlive).2
        | cons e mid =>
          rw [List.cons_append] at hsplit
          obtain ⟨rfl, -⟩ := List.cons.inj hsplit
          exact absurd (hmid ▸ List.mem_append_right _ List.mem_cons_self) (hnone r accepted)

/-- **A longer file never shrinks**: every pass publishes its first ten records once more. -/
theorem run_long {n : Node} {bytes : List UInt8} {inputs : List Input} (hconn : n.currentState = .connected)
    (hspool : n.spool = some bytes) (hwhole : spooledEvent.Whole bytes) (hlong : ¬ Short bytes)
    (hup : ∀ a, .pass a ∈ inputs → LinkUp a) :
    ∃ n' h, networking.run n inputs = some (n', h) ∧ n'.spool = some bytes ∧ spooledOut h =
      (List.replicate (inputs.countP Input.isPass) ((spooledEvent.records bytes).take flushChunk)).flatten := by
  induction inputs generalizing n with
  | nil => exact ⟨n, [], rfl, hspool, rfl⟩
  | cons input inputs ih =>
    have hup' : ∀ a, .pass a ∈ inputs → LinkUp a := fun a ha => hup a (List.mem_cons_of_mem _ ha)
    cases input with
    | isr currentTime =>
      obtain ⟨n', h, hrun, hs, hout⟩ := ih (n := inputISR n currentTime) (by rw [inputISR_currentState, hconn])
        (by rw [inputISR_spool, hspool]) hup'
      refine ⟨n', h, networking.run_cons_iff.mpr ⟨_, [], h, rfl, hrun, rfl⟩, hs, ?_⟩
      rw [hout, List.countP_cons_of_neg (by simp [Input.isPass])]
    | pass a =>
      obtain ⟨out, hstep, hfirst⟩ := pass_long (hup a List.mem_cons_self) hconn hspool hwhole hlong
      obtain ⟨n', h, hrun, hs, hout⟩ := ih hconn hspool hup'
      refine ⟨n', out ++ h, networking.run_cons_iff.mpr ⟨n, out, h, hstep, hrun, rfl⟩, hs, ?_⟩
      rw [spooledOut_append, hfirst, hout, List.countP_cons_of_pos rfl, List.replicate_succ, List.flatten_cons]

/-! ## The replay guarantee -/

/-- After `ceil(n / 10)` passes with the link up, the `n` records of the file have been replayed exactly when there is
at least one and at most ten of them. An empty file needs one pass to go, a longer one never goes. -/
theorem spool_replayed_iff (n : Node) (bytes : List UInt8) (inputs : List Input)
    (hconn : n.currentState = .connected) (hspool : n.spool = some bytes) (hwhole : spooledEvent.Whole bytes)
    (hup : ∀ a, .pass a ∈ inputs → LinkUp a)
    (hpasses : inputs.countP Input.isPass = ((spooledEvent.records bytes).length + 9) / 10) :
    ∃ n' h, networking.run n inputs = some (n', h) ∧
      (Replayed (spooledEvent.records bytes) n' h ↔
        0 < (spooledEvent.records bytes).length ∧ (spooledEvent.records bytes).length ≤ 10) := by
  by_cases hshort : Short bytes
  · have hle : (spooledEvent.records bytes).length ≤ 10 := (short_iff hwhole).mp hshort
    rcases Nat.eq_zero_or_pos (spooledEvent.records bytes).length with hzero | hpos
    · obtain ⟨n', hrun, hs, -⟩ := run_isrs (by rw [hpasses, hzero]) n
      refine ⟨n', [], hrun, fun hrep => ?_, fun hn => by omega⟩
      have hgone := hrep.removed
      rw [hs, hspool] at hgone
      cases hgone
    · obtain ⟨n', h, hrun, hrep⟩ := run_short hconn hspool hwhole hshort hup (by omega)
      exact ⟨n', h, hrun, fun _ => ⟨hpos, hle⟩, fun _ => hrep⟩
  · obtain ⟨n', h, hrun, hs, -⟩ := run_long hconn hspool hwhole hshort hup
    refine ⟨n', h, hrun, fun hrep => ?_, fun hn => absurd ((short_iff hwhole).mpr hn.2) hshort⟩
    rw [hrep.removed] at hs
    cases hs

/-- A node in `STATE_CONNECTED` that finds this file. -/
def Node.connectedWith (bytes : List UInt8) : Node :=
  { Node.boot (some bytes) with currentState := .connected, ntpSynced := true }

/-- A platform that answers every call well. -/
def allWell : Answers where
  wifiHead := true
  wifi := true
  millis _ := 0
  firstTime := year2025
  ntpPolls := []
  mqttConnect := true
  statusPublish := true
  mqttConnected := true
  openSpoolRead := true
  publishSpooled _ := true
  removeSpool := true
  bootUs := 0
  now := year2025
  publishLive := true
  openSpoolAppend := true
  written := spooledEvent.size

theorem allWell_linkUp : LinkUp allWell := ⟨rfl, rfl, rfl, fun _ => rfl, rfl, rfl⟩

/-- A file of the cycles `0, ..., k - 1`. -/
def spoolOf (k : Nat) : List UInt8 :=
  (List.range k).flatMap fun i => spooledEvent.encode ⟨UInt32.ofNat i, year2025⟩

theorem spoolOf_length (k : Nat) : (spoolOf k).length = spooledEvent.size * k := by
  induction k with
  | zero => rfl
  | succ k ih =>
    rw [spoolOf] at ih ⊢
    rw [List.range_succ, List.flatMap_append, List.length_append, ih, List.flatMap_singleton, spooledEvent.length_encode,
      Nat.mul_succ]

theorem spoolOf_whole (k : Nat) : spooledEvent.Whole (spoolOf k) := ⟨k, spoolOf_length k⟩

theorem spoolOf_records_length (k : Nat) : (spooledEvent.records (spoolOf k)).length = k := by
  rw [spooledEvent.records_length, spoolOf_length, Nat.mul_div_cancel_left _ spooledEvent.size_pos]

/-- Two records, one pass. -/
theorem spool_replayed_iff_two :
    ∃ n' h, networking.run (Node.connectedWith (spoolOf 2)) [.pass allWell] = some (n', h) ∧
      (Replayed (spooledEvent.records (spoolOf 2)) n' h ↔
        0 < (spooledEvent.records (spoolOf 2)).length ∧ (spooledEvent.records (spoolOf 2)).length ≤ 10) :=
  spool_replayed_iff (Node.connectedWith (spoolOf 2)) (spoolOf 2) [.pass allWell] rfl rfl (spoolOf_whole 2)
    (fun a ha => by
      rw [List.mem_singleton] at ha
      cases ha
      exact allWell_linkUp)
    (by rw [spoolOf_records_length]; rfl)

/-- Eleven records and the two passes that should replay them: they have not been replayed. -/
theorem eleven_records_not_replayed :
    (spooledEvent.records (spoolOf 11)).length = 11 ∧
      ∃ n' h, networking.run (Node.connectedWith (spoolOf 11)) [.pass allWell, .pass allWell] = some (n', h) ∧
        ¬ Replayed (spooledEvent.records (spoolOf 11)) n' h := by
  have hup : ∀ a, .pass a ∈ [Input.pass allWell, .pass allWell] → LinkUp a := by
    intro a ha
    simp only [List.mem_cons, List.not_mem_nil, or_false, or_self, Input.pass.injEq] at ha
    exact ha ▸ allWell_linkUp
  have hlong : ¬ Short (spoolOf 11) := by
    rw [short_iff (spoolOf_whole 11), spoolOf_records_length]
    decide
  obtain ⟨n', h, hrun, hs, -⟩ := run_long (n := Node.connectedWith (spoolOf 11)) rfl rfl (spoolOf_whole 11) hlong hup
  refine ⟨spoolOf_records_length 11, n', h, hrun, fun hrep => ?_⟩
  rw [hrep.removed] at hs
  cases hs

end IbarraGateway.Norvi
