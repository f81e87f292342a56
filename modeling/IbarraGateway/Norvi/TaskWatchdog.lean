import IbarraGateway.Norvi.Replay
import Mathlib

/-!
# The task watchdog of the three tasks

`vTaskNetworking`, `vTaskApplication` and `vTaskAnalog` call `esp_task_wdt_reset` at the head of their loops. What counts is
the sum of the delays between two such calls of one task; every other statement takes no time.

* `fed_in_time_iff` : which turns keep the sums below the timeout.
* `application_starves` : a turn of `vTaskApplication` alone takes the whole timeout.
-/

namespace IbarraGateway.Norvi

/-! ## The tasks -/

inductive Task
  | networking | application | analog
deriving DecidableEq, Repr

/-- `esp_task_wdt_init(5, true)`. -/
def twdtTimeoutMs : Nat := 5000

/-- A turn of `vTaskApplication`. -/
def applicationTurn : List Effect := [.wdtReset, .delay 5000]

/-- A turn of `vTaskAnalog`; the measurement takes no time. -/
def analogTurn : List Effect := [.wdtReset, .delay 100]

inductive TaskInput
  | networking (input : Input)
  | application
  | analog

/-- The tasks and the interrupt handler, interleaved by turns. -/
def tasks : Machine Node TaskInput (Task × Effect) where
  step n
    | .networking input => (networking.step n input).map fun r => (r.1, r.2.map (Prod.mk Task.networking))
    | .application => some (n, applicationTurn.map (Prod.mk Task.application))
    | .analog => some (n, analogTurn.map (Prod.mk Task.analog))

/-- What one task has done. -/
def effectsOf (task : Task) (h : List (Task × Effect)) : List Effect :=
  h.filterMap fun e => if e.1 = task then some e.2 else none

/-! ## What is stated -/

def Effect.delayMs : Effect → Nat
  | .delay ms => ms
  | _ => 0

/-- The sum of the delays. -/
def delayed (effects : List Effect) : Nat := (effects.map Effect.delayMs).sum

/-- The delays between two resets stay below the timeout. -/
def FedInTime (effects : List Effect) : Prop :=
  ∀ before turn after, effects = before ++ .wdtReset :: turn ++ .wdtReset :: after → .wdtReset ∉ turn →
    delayed turn < twdtTimeoutMs

/-- A turn that stays below the timeout: none of `vTaskApplication`, and at most four rounds in an NTP wait. -/
def TurnInTime (n : Node) : TaskInput → Prop
  | .networking (.pass a) =>
    (checkWifi a n).currentState = .syncingTime → (ntpDates a.firstTime a.ntpPolls).length ≤ 4
  | .networking (.isr _) => True
  | .application => False
  | .analog => True

/-! ## Sums of delays -/

@[simp] theorem delayed_nil : delayed [] = 0 := rfl

@[simp] theorem delayed_cons (e : Effect) (effects : List Effect) : delayed (e :: effects) = e.delayMs + delayed effects := by
  rw [delayed, List.map_cons, List.sum_cons, delayed]

@[simp] theorem delayed_append (first second : List Effect) : delayed (first ++ second) = delayed first + delayed second := by
  rw [delayed, List.map_append, List.sum_append, delayed, delayed]

theorem delayed_wait (dates : List Int64) :
    delayed (dates.flatMap fun date => [.delay 1000, .time date]) = 1000 * dates.length := by
  induction dates with
  | nil => rfl
  | cons date dates ih =>
    rw [List.flatMap_cons, delayed_append, ih, List.length_cons]
    show 1000 + (0 + 0) + 1000 * dates.length = _
    omega

/-- A reset in front of the last one. -/
theorem reset_split {effects turn before mid after : List Effect} (hturn : .wdtReset ∉ turn)
    (heq : effects ++ .wdtReset :: turn = before ++ .wdtReset :: mid ++ .wdtReset :: after) :
    ∃ rest, effects ++ [.wdtReset] = before ++ .wdtReset :: mid ++ .wdtReset :: rest := by
  rcases List.append_eq_append_iff.mp heq with ⟨x, hx, hrest⟩ | ⟨x, rfl, hrest⟩
  · rcases x with _ | ⟨e, x⟩
    · rw [List.append_nil] at hx
      exact ⟨[], by rw [hx]⟩
    · cases hrest
      exact absurd (List.mem_append_right x List.mem_cons_self) hturn
  · rcases x with _ | ⟨e, x⟩
    · exact ⟨[], by rw [List.append_nil]⟩
    · cases hrest
      exact ⟨x ++ [.wdtReset], by rw [List.append_assoc, List.cons_append]⟩

/-- What stands behind the last reset. -/
theorem last_reset {effects turn before mid : List Effect} (hturn : .wdtReset ∉ turn) (hmid : .wdtReset ∉ mid)
    (heq : effects ++ .wdtReset :: turn = before ++ .wdtReset :: mid) : turn = mid := by
  rcases List.append_eq_append_iff.mp heq with ⟨x, rfl, hrest⟩ | ⟨x, rfl, hrest⟩
  · rcases x with _ | ⟨e, x⟩
    · cases hrest
      rfl
    · cases hrest
      exact absurd (List.mem_append_right x List.mem_cons_self) hturn
  · rcases x with _ | ⟨e, x⟩
    · cases hrest
      rfl
    · cases hrest
      exact absurd (List.mem_append_right x List.mem_cons_self) hmid

/-- A turn more. -/
theorem fedInTime_snoc_iff {effects turn : List Effect} (hturn : .wdtReset ∉ turn) :
    FedInTime (effects ++ .wdtReset :: turn ++ [.wdtReset]) ↔
      FedInTime (effects ++ [.wdtReset]) ∧ delayed turn < twdtTimeoutMs := by
  constructor
  · intro hfed
    refine ⟨fun before mid after heq hmid => ?_, hfed effects turn [] rfl hturn⟩
    apply hfed before mid (after ++ turn ++ [.wdtReset]) ?_ hmid
    have hmore := congrArg (· ++ (turn ++ [.wdtReset])) heq
    simpa using hmore
  · rintro ⟨hfed, hlast⟩ before mid after heq hmid
    rcases List.eq_nil_or_concat after with rfl | ⟨after, e, rfl⟩
    · have hsame := (List.append_inj_left' heq rfl)
      rw [← last_reset hturn hmid hsame]
      exact hlast
    · have hsplit : effects ++ .wdtReset :: turn ++ [.wdtReset] =
          (before ++ .wdtReset :: mid ++ .wdtReset :: after) ++ [e] := by
        rw [heq, List.concat_eq_append, ← List.cons_append, ← List.append_assoc]
      obtain ⟨rest, hrest⟩ := reset_split hturn (List.append_inj_left' hsplit rfl)
      exact hfed before mid rest hrest hmid

/-! ## Turns -/

/-- A stretch of a turn without a reset, of at most so many milliseconds. -/
def Within (ms : Nat) (effects : List Effect) : Prop := delayed effects ≤ ms ∧ .wdtReset ∉ effects

theorem within_nil (ms : Nat) : Within ms [] := ⟨Nat.zero_le ms, List.not_mem_nil⟩

theorem Within.mono {effects : List Effect} {ms ms' : Nat} (h : Within ms effects) (hle : ms ≤ ms') : Within ms' effects :=
  ⟨Nat.le_trans h.1 hle, h.2⟩

theorem Within.append {first second : List Effect} {ms₁ ms₂ : Nat} (h₁ : Within ms₁ first) (h₂ : Within ms₂ second) :
    Within (ms₁ + ms₂) (first ++ second) := by
  refine ⟨?_, ?_⟩
  · rw [delayed_append]
    exact Nat.add_le_add h₁.1 h₂.1
  · rw [List.mem_append]
    rintro (h | h)
    · exact h₁.2 h
    · exact h₂.2 h

/-- An effect that takes no time. -/
theorem Within.cons {e : Effect} {effects : List Effect} {ms : Nat} (h : Within ms effects) (hzero : e.delayMs = 0)
    (he : e ≠ .wdtReset) : Within ms (e :: effects) := by
  refine ⟨?_, ?_⟩
  · rw [delayed_cons, hzero, Nat.zero_add]
    exact h.1
  · rw [List.mem_cons]
    rintro (rfl | h')
    · exact he rfl
    · exact h.2 h'

theorem within_flushLoop (a : Answers) (left count : Nat) (unread : List UInt8) :
    Within 0 (flushLoop a left count unread).1 := by
  induction left generalizing count unread with
  | zero => exact within_nil 0
  | succ left ih =>
    rw [flushLoop]
    split
    · split
      · exact (ih (count + 1) (unread.drop spooledEvent.size)).cons (by rfl) (by simp)
      · exact within_nil 0
    · exact within_nil 0

theorem within_flushSpool (a : Answers) (spool : Option (List UInt8)) : Within 50 (flushSpool a spool).effects := by
  unfold flushSpool
  split
  · exact within_nil 50
  · rename_i bytes
    split
    · have hloop := within_flushLoop a flushChunk 0 bytes
      rcases hflush : flushLoop a flushChunk 0 bytes with ⟨published, count, unread⟩
      rw [hflush] at hloop
      have hpause : Within 50 (if 0 < count then [.delay 50] else []) := by
        split
        · exact ⟨Nat.le_refl 50, by simp⟩
        · exact within_nil 50
      dsimp only at hloop ⊢
      split
      · exact (hloop.append (hpause.cons (by rfl) (by nofun))).mono (by omega)
      · exact (hloop.append hpause).mono (by omega)
    · exact within_nil 50

theorem within_connected (a : Answers) (n : Node) : Within 50 (connected a n).2 := by
  unfold connected
  split
  · have hflush := within_flushSpool a n.spool
    dsimp only
    split
    · exact hflush
    · have hlive : Within 0 (publishLive a n.productionEventQueue).2 := by
        unfold publishLive
        split
        · exact within_nil 0
        · exact ((within_nil 0).cons (by rfl) (by nofun)).cons (by rfl) (by simp)
      exact (hflush.append hlive).mono (by omega)
  · exact within_nil 50

theorem within_connectingMqtt (a : Answers) (n : Node) : Within 0 (connectingMqtt a n).2 := by
  unfold connectingMqtt
  split
  · split
    · exact (within_nil 0).cons (by rfl) (by simp)
    · exact within_nil 0
  · exact within_nil 0

theorem within_spoolOffline (a : Answers) (n : Node) : Within 0 (spoolOffline a n).2 := by
  unfold spoolOffline
  split
  · exact within_nil 0
  · split
    · exact within_nil 0
    · split
      · exact ((within_nil 0).cons (by rfl) (by nofun)).cons (by rfl) (by simp)
      · exact (within_nil 0).cons (by rfl) (by simp)

/-- A visit of `STATE_SYNCING_TIME` takes a second for each turn of the wait. -/
theorem delayed_syncVisit {a : Answers} {n m : Node} {out : List Effect} (h : SyncVisit a n m out) :
    delayed out = 1000 * (ntpDates a.firstTime a.ntpPolls).length ∧ .wdtReset ∉ out := by
  have hvisit : ∀ {effects}, ntpLoop a.firstTime a.ntpPolls = some effects →
      delayed (.time a.firstTime :: effects) = 1000 * (ntpDates a.firstTime a.ntpPolls).length ∧
        .wdtReset ∉ Effect.time a.firstTime :: effects := by
    intro effects hloop
    rw [ntpLoop_eq hloop]
    refine ⟨?_, by simp⟩
    rw [delayed_cons, delayed_wait]
    exact Nat.zero_add _
  cases h with
  | up hloop => exact hvisit hloop
  | down hloop => exact hvisit hloop

theorem within_switchState {a : Answers} {n m : Node} {out : List Effect} (hstate : n.currentState ≠ .syncingTime)
    (h : switchState a n = some (m, out)) : Within 50 out := by
  cases switchState_inv h with
  | syncingTime hsyncing => exact absurd hsyncing hstate
  | disconnected => exact within_nil 50
  | connectingWifi => exact within_nil 50
  | connectingMqtt => exact (within_connectingMqtt a n).mono (by omega)
  | connected => exact within_connected a n

/-- **A turn of `vTaskNetworking`** is a reset and what stays below the timeout, exactly when `TurnInTime` says so. -/
theorem pass_turn {a : Answers} {n n' : Node} {out : List Effect} (h : pass n a = some (n', out)) :
    ∃ turn, out = .wdtReset :: turn ∧ .wdtReset ∉ turn ∧
      (delayed turn < twdtTimeoutMs ↔ TurnInTime n (.networking (.pass a))) := by
  obtain ⟨m, switched, hswitch, -, rfl⟩ := pass_cases h
  obtain ⟨hspool, hnospool⟩ := within_spoolOffline a m
  have hsum : delayed (switched ++ (spoolOffline a m).2 ++ [.delay 100]) = delayed switched + 100 := by
    rw [delayed_append, delayed_append, Nat.le_zero.mp hspool]
    rfl
  refine ⟨switched ++ (spoolOffline a m).2 ++ [.delay 100], rfl, ?_, ?_⟩
  · by_cases hsyncing : (checkWifi a n).currentState = .syncingTime
    · simp [(delayed_syncVisit (visit_of_switchState hsyncing hswitch)).2, hnospool]
    · simp [(within_switchState hsyncing hswitch).2, hnospool]
  · rw [hsum]
    unfold TurnInTime twdtTimeoutMs
    by_cases hsyncing : (checkWifi a n).currentState = .syncingTime
    · rw [(delayed_syncVisit (visit_of_switchState hsyncing hswitch)).1]
      constructor
      · intro hlt _
        omega
      · intro hle
        have hfour := hle hsyncing
        omega
    · have hfifty := (within_switchState hsyncing hswitch).1
      refine iff_of_true (by omega) fun hs => absurd hs hsyncing

/-! ## Runs -/

theorem effectsOf_append (task : Task) (h out : List (Task × Effect)) :
    effectsOf task (h ++ out) = effectsOf task h ++ effectsOf task out := List.filterMap_append

theorem effectsOf_map (task task' : Task) (effects : List Effect) :
    effectsOf task (effects.map (Prod.mk task')) = if task' = task then effects else [] := by
  unfold effectsOf
  rw [List.filterMap_map]
  split
  · rename_i heq
    exact (List.filterMap_congr fun e _ => if_pos heq).trans List.filterMap_some
  · rename_i hne
    exact List.filterMap_eq_nil_iff.mpr fun e _ => if_neg hne

/-- What a step of the tasks adds to the effects of each of them. -/
theorem tasks_turn {n n' : Node} {input : TaskInput} {out : List (Task × Effect)} (h : tasks.step n input = some (n', out)) :
    ((∀ task, effectsOf task out = []) ∧ TurnInTime n input) ∨
      ∃ task turn, .wdtReset ∉ turn ∧ (∀ task', effectsOf task' out = if task = task' then .wdtReset :: turn else []) ∧
        (delayed turn < twdtTimeoutMs ↔ TurnInTime n input) := by
  cases input with
  | application =>
    cases h
    refine .inr ⟨.application, [.delay 5000], by simp, fun task' => ?_, ?_⟩
    · rw [effectsOf_map]
      rfl
    · exact iff_of_false (by decide) id
  | analog =>
    cases h
    refine .inr ⟨.analog, [.delay 100], by simp, fun task' => ?_, ?_⟩
    · rw [effectsOf_map]
      rfl
    · exact iff_of_true (by decide) trivial
  | networking input =>
    obtain ⟨⟨m, effects⟩, hstep, heq⟩ := Option.map_eq_some_iff.mp h
    cases heq
    cases input with
    | isr currentTime =>
      cases hstep
      exact .inl ⟨fun task => rfl, trivial⟩
    | pass a =>
      obtain ⟨turn, rfl, hno, hiff⟩ := pass_turn hstep
      refine .inr ⟨.networking, turn, hno, fun task' => ?_, hiff⟩
      rw [effectsOf_map]

/-- **Feeding in time**: up to the heads of the next turns, all the sums of all the tasks stay below the timeout exactly when
every turn of the run does. -/
theorem fed_in_time_iff (spool : Option (List UInt8)) (inputs : List TaskInput) (n : Node) (h : List (Task × Effect))
    (hrun : tasks.run (Node.boot spool) inputs = some (n, h)) :
    (∀ task, FedInTime (effectsOf task h ++ [.wdtReset])) ↔ tasks.Along TurnInTime (Node.boot spool) inputs := by
  apply tasks.run_snoc_induction
    (I := fun as h _ => (∀ task, FedInTime (effectsOf task h ++ [Effect.wdtReset])) ↔
      tasks.Along TurnInTime (Node.boot spool) as)
    ?_ ?_ (tasks.along_true _ inputs) hrun
  · refine iff_of_true (fun task before turn after heq => ?_) trivial
    have hlen := congrArg List.length heq
    simp [effectsOf] at hlen
    omega
  · intro as h n input n' out hrun hiff _ hstep
    rw [tasks.along_snoc_iff hrun, ← hiff]
    rcases tasks_turn hstep with ⟨hnone, hok⟩ | ⟨task, turn, hno, hout, hlt⟩
    · have hsame : ∀ task, effectsOf task (h ++ out) = effectsOf task h := by
        intro task
        rw [effectsOf_append, hnone, List.append_nil]
      simp only [hsame]
      exact (and_iff_left hok).symm
    · have hone : ∀ task', FedInTime (effectsOf task' (h ++ out) ++ [.wdtReset]) ↔
          FedInTime (effectsOf task' h ++ [.wdtReset]) ∧ (task = task' → delayed turn < twdtTimeoutMs) := by
        intro task'
        rw [effectsOf_append, hout]
        split
        · rename_i heq
          rw [fedInTime_snoc_iff hno]
          exact and_congr_right fun _ => ⟨fun hshort _ => hshort, fun hshort => hshort heq⟩
        · rename_i hne
          rw [List.append_nil]
          exact (and_iff_left fun heq => absurd heq hne).symm
      rw [← hlt]
      constructor
      · intro hfed
        exact ⟨fun task' => ((hone task').mp (hfed task')).1, ((hone task).mp (hfed task)).2 rfl⟩
      · rintro ⟨hfed, hturn⟩ task'
        exact (hone task').mpr ⟨hfed task', fun _ => hturn⟩

/-- Two turns of the measurement. -/
theorem fed_in_time_analog :
    ∃ n h, tasks.run (Node.boot none) [.analog, .analog] = some (n, h) ∧
      ∀ task, FedInTime (effectsOf task h ++ [.wdtReset]) :=
  ⟨_, _, rfl, (fed_in_time_iff none [.analog, .analog] _ _ rfl).mpr
    ⟨trivial, fun _ _ _ => ⟨trivial, fun _ _ _ => trivial⟩⟩⟩

/-- `vTaskApplication` goes round once, and waits 5000 ms for its next reset. -/
theorem application_starves :
    ∃ n h, tasks.run (Node.boot none) [.application] = some (n, h) ∧
      ¬ FedInTime (effectsOf .application h ++ [.wdtReset]) := by
  refine ⟨_, _, rfl, fun hfed => ?_⟩
  exact absurd (hfed [] [.delay 5000] [] rfl (by simp)) (by decide)

end IbarraGateway.Norvi
