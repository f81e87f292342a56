import IbarraGateway.Lib.WrappedClock
import IbarraGateway.Norvi.Replay

/-!
# The retry timers of `vTaskNetworking`

`timed` runs the networking task on a clock that never wraps; `millis()` shows it modulo `2 ^ 32`, as the ESP32 does every
49.7 days. Its outputs are the log of the connection: which attempts were begun, given up and lost, and when.

* `retries_spaced` : how far apart the attempts are, in every run and across every wrap.
* `retries_prompt` : how long the node can stay without an attempt, when its passes follow one another within `D` ms.
-/

namespace IbarraGateway.Norvi
open WrappedClock

/-- A pass with the times of its readings of `millis()`. -/
structure ClockedPass where
  answers : Answers
  ms : Nat → Nat
  millis_eq : ∀ k, answers.millis k = reading (ms k)
  mono : ∀ k, ms k ≤ ms (k + 1)

/-- The log of the connection, with the times the pass reads before and after the call. -/
inductive Entry
  | wifiBegin (asked begun : Nat)
  | wifiTimeout (asked ended : Nat)
  | wifiLost (seen : Nat)
  | synced
  | mqttConnect (asked begun : Nat)
  | mqttLost (seen : Nat)
deriving DecidableEq, Repr

/-- `WiFi.status()` at the head of the loop. -/
def headLog (p : ClockedPass) (n : Node) : List Entry :=
  if n.currentState ≠ .disconnected ∧ n.currentState ≠ .connectingWifi ∧ p.answers.wifiHead = false then
    [.wifiLost (p.ms 0)]
  else []

/-- The `switch`, case by case as in `switchState`. -/
def switchLog (p : ClockedPass) (n : Node) : List Entry :=
  match n.currentState with
  | .disconnected =>
    if n.lastWifiRetryMs = 0 ∨ p.answers.millis 1 - n.lastWifiRetryMs ≥ 5000 then [.wifiBegin (p.ms 1) (p.ms 2)] else []
  | .connectingWifi =>
    if p.answers.wifi then []
    else if p.answers.millis 1 - n.wifiConnectStartMs ≥ 15000 then [.wifiTimeout (p.ms 1) (p.ms 2)]
    else []
  | .syncingTime => if p.answers.wifi then [.synced] else [.wifiLost (p.ms 1)]
  | .connectingMqtt =>
    if n.lastMqttRetryMs = 0 ∨ p.answers.millis 1 - n.lastMqttRetryMs ≥ 5000 then [.mqttConnect (p.ms 1) (p.ms 2)] else []
  | .connected => if p.answers.mqttConnected then [] else [.mqttLost (p.ms 1)]

inductive TimedInput
  | isr (currentTime : Int64)
  | pass (p : ClockedPass)

def TimedInput.toInput : TimedInput → Input
  | .isr currentTime => .isr currentTime
  | .pass p => .pass p.answers

/-- The node and the time of its last reading. -/
def timed : Machine (Node × Nat) TimedInput Entry where
  step s
    | .isr currentTime => some ((inputISR s.1 currentTime, s.2), [])
    | .pass p =>
      if s.2 ≤ p.ms 0 then
        (pass s.1 p.answers).map fun r => ((r.1, p.ms 3), headLog p s.1 ++ switchLog p (checkWifi p.answers s.1))
      else none

/-! ## What is stated -/

def Entry.ended : Entry → Option Nat
  | .wifiTimeout _ ended => some ended
  | .wifiLost seen => some seen
  | _ => none

def Entry.begun : Entry → Option Nat
  | .wifiBegin _ begun => some begun
  | _ => none

/-- A time sync forgets the attempts before it. -/
def Entry.tried : Entry → Option (Option Nat)
  | .synced => some none
  | .mqttConnect _ begun => some (some begun)
  | .mqttLost seen => some (some seen)
  | _ => none

/-- When the last Wi-Fi link or attempt ended. -/
def lastEnd (h : List Entry) : Option Nat := (h.filterMap Entry.ended).getLast?

/-- When the last Wi-Fi attempt began. -/
def lastBegin (h : List Entry) : Option Nat := (h.filterMap Entry.begun).getLast?

/-- When the broker was last tried or lost, since the last time sync. -/
def lastTry (h : List Entry) : Option Nat := (h.filterMap Entry.tried).getLast?.join

/-- When the broker was last tried or lost, on whichever side of a time sync. -/
def lastAttempt (h : List Entry) : Option Nat := (h.filterMap fun e => e.tried.join).getLast?

/-- An attempt keeps its distance. A timer that reads exactly 0, which is once a turn, counts as no timer. Across a time sync it
is the timer of the Wi-Fi link, lost in between, that keeps two attempts at the broker apart. -/
def Spaced (before : List Entry) : Entry → Prop
  | .wifiBegin asked _ =>
    (∀ u, lastEnd before = some u → u + 5000 ≤ asked ∨ 2 ^ 32 ∣ u) ∧
      ∀ u, lastBegin before = some u → ∃ v, lastEnd before = some v ∧ u ≤ v
  | .wifiTimeout asked _ => ∃ u, lastBegin before = some u ∧ u + 15000 ≤ asked
  | .mqttConnect asked _ =>
    (∀ u, lastTry before = some u → u + 5000 ≤ asked ∨ 2 ^ 32 ∣ u) ∧
      ∀ u, lastAttempt before = some u → u + 5000 ≤ asked ∨ 2 ^ 32 ∣ u ∨ ∃ v, lastEnd before = some v ∧ 2 ^ 32 ∣ v
  | _ => True

/-- The readings of a pass follow the pass before, and one another, within `D` ms; the NTP wait may take longer. -/
def FollowsWithin (D : Nat) (s : Node × Nat) : TimedInput → Prop
  | .isr _ => True
  | .pass p =>
    ((checkWifi p.answers s.1).currentState ≠ .syncingTime → p.ms 1 ≤ s.2 + D) ∧ p.ms 3 ≤ p.ms 1 + D

/-- No timer is overdue by more than `D`. -/
structure Prompt (D : Nat) (h : List Entry) (n : Node) (now : Nat) : Prop where
  /-- With the log empty, the node has booted and no pass was made. -/
  wifi : n.currentState = .disconnected → h = [] ∨ ∃ u, lastEnd h = some u ∧ now < u + 5000 + D
  timeout : n.currentState = .connectingWifi → ∃ u, lastBegin h = some u ∧ now < u + 15000 + D
  mqtt : n.currentState = .connectingMqtt → h.getLast? = some .synced ∨ ∃ u, lastTry h = some u ∧ now < u + 5000 + D

/-! ## The ends of the log -/

theorem ClockedPass.le (p : ClockedPass) {i j : Nat} (h : i ≤ j) : p.ms i ≤ p.ms j :=
  Nat.le_induction le_rfl (fun k _ ih => ih.trans (p.mono k)) j h

section
variable (h : List Entry) (e : Entry)

theorem lastEnd_snoc : lastEnd (h ++ [e]) = e.ended.or (lastEnd h) := by
  rw [lastEnd, List.filterMap_append, List.getLast?_append]
  cases hend : e.ended <;> simp [hend, lastEnd]

theorem lastBegin_snoc : lastBegin (h ++ [e]) = e.begun.or (lastBegin h) := by
  rw [lastBegin, List.filterMap_append, List.getLast?_append]
  cases hbegun : e.begun <;> simp [hbegun, lastBegin]

theorem lastTry_snoc : lastTry (h ++ [e]) = e.tried.getD (lastTry h) := by
  rw [lastTry, List.filterMap_append, List.getLast?_append]
  cases htried : e.tried <;> simp [htried, lastTry]

theorem lastAttempt_snoc : lastAttempt (h ++ [e]) = e.tried.join.or (lastAttempt h) := by
  rw [lastAttempt, List.filterMap_append, List.getLast?_append]
  cases htried : e.tried.join <;> simp [htried, lastAttempt]

end

theorem lastAttempt_of_lastTry {h : List Entry} {u : Nat} (htry : lastTry h = some u) : lastAttempt h = some u := by
  induction h using List.reverseRecOn with
  | nil => exact nomatch htry
  | append_singleton h e ih =>
    rw [lastTry_snoc] at htry
    rw [lastAttempt_snoc]
    cases htried : e.tried with
    | none =>
      rw [htried] at htry
      exact ih htry
    | some tried =>
      rw [htried] at htry
      obtain rfl : tried = some u := htry
      rfl

/-! ## The timers follow the log -/

/-- The last attempt at the broker keeps its distance from now, or the timer that kept it was read as none. -/
def Parted (h : List Entry) (now : Nat) : Prop :=
  ∀ u, lastAttempt h = some u → u + 5000 ≤ now ∨ ∃ v, lastEnd h = some v ∧ 2 ^ 32 ∣ v

/-- On the way from one attempt at the broker to the next across a time sync. -/
def Apart (h : List Entry) (now : Nat) : ConnectionState → Prop
  | .disconnected => ∀ u, lastAttempt h = some u → ∃ v, lastEnd h = some v ∧ u ≤ v
  | .connectingWifi | .syncingTime => Parted h now
  | .connectingMqtt => lastTry h = none → Parted h now
  | .connected => True

theorem Parted.later {h : List Entry} {now later : Nat} (hp : Parted h now) (hle : now ≤ later) : Parted h later :=
  fun u hu => (hp u hu).imp_left fun hdistance => hdistance.trans hle

theorem Apart.later {h : List Entry} {now later : Nat} {state : ConnectionState} (ha : Apart h now state) (hle : now ≤ later) :
    Apart h later state := by
  cases state with
  | disconnected => exact ha
  | connectingWifi => exact Parted.later ha hle
  | syncingTime => exact Parted.later ha hle
  | connectingMqtt => exact fun hnone => Parted.later (ha hnone) hle
  | connected => exact trivial

/-- The timer that the state of the task waits on shows the time its log says. -/
structure Tracks (h : List Entry) (n : Node) (now : Nat) : Prop where
  end_le : (lastEnd h).getD 0 ≤ now
  begin_le : (lastBegin h).getD 0 ≤ now
  try_le : (lastTry h).getD 0 ≤ now
  attempt_le : (lastAttempt h).getD 0 ≤ now
  wifi : n.currentState = .disconnected → n.lastWifiRetryMs = reading ((lastEnd h).getD 0)
  finished : n.currentState = .disconnected → ∀ u, lastBegin h = some u → ∃ v, lastEnd h = some v ∧ u ≤ v
  timeout : n.currentState = .connectingWifi → ∃ u, lastBegin h = some u ∧ n.wifiConnectStartMs = reading u
  mqtt : n.currentState = .connectingMqtt → n.lastMqttRetryMs = reading ((lastTry h).getD 0)
  apart : Apart h now n.currentState

/-- What the log depends on. -/
theorem Tracks.congr {h : List Entry} {n m : Node} {now : Nat} (ht : Tracks h n now)
    (hframe : m.currentState = n.currentState ∧ m.lastWifiRetryMs = n.lastWifiRetryMs ∧
      m.wifiConnectStartMs = n.wifiConnectStartMs ∧ m.lastMqttRetryMs = n.lastMqttRetryMs) : Tracks h m now := by
  obtain ⟨hstate, hwifi, hstart, hmqtt⟩ := hframe
  exact ⟨ht.end_le, ht.begin_le, ht.try_le, ht.attempt_le, by rw [hstate, hwifi]; exact ht.wifi,
    by rw [hstate]; exact ht.finished, by rw [hstate, hstart]; exact ht.timeout, by rw [hstate, hmqtt]; exact ht.mqtt,
    by rw [hstate]; exact ht.apart⟩

theorem inputISR_timers (n : Node) (currentTime : Int64) :
    (inputISR n currentTime).currentState = n.currentState ∧
      (inputISR n currentTime).lastWifiRetryMs = n.lastWifiRetryMs ∧
      (inputISR n currentTime).wifiConnectStartMs = n.wifiConnectStartMs ∧
      (inputISR n currentTime).lastMqttRetryMs = n.lastMqttRetryMs := by
  unfold inputISR
  split
  · exact ⟨rfl, rfl, rfl, rfl⟩
  · exact ⟨rfl, rfl, rfl, rfl⟩

theorem spoolOffline_timers (a : Answers) (n : Node) :
    (spoolOffline a n).1.currentState = n.currentState ∧ (spoolOffline a n).1.lastWifiRetryMs = n.lastWifiRetryMs ∧
      (spoolOffline a n).1.wifiConnectStartMs = n.wifiConnectStartMs ∧
      (spoolOffline a n).1.lastMqttRetryMs = n.lastMqttRetryMs := by
  unfold spoolOffline
  split
  · exact ⟨rfl, rfl, rfl, rfl⟩
  · split
    · exact ⟨rfl, rfl, rfl, rfl⟩
    · split
      · exact ⟨rfl, rfl, rfl, rfl⟩
      · exact ⟨rfl, rfl, rfl, rfl⟩

/-- The clock goes on. -/
theorem Tracks.later {h : List Entry} {n : Node} {now later : Nat} (ht : Tracks h n now) (hle : now ≤ later) :
    Tracks h n later :=
  ⟨ht.end_le.trans hle, ht.begin_le.trans hle, ht.try_le.trans hle, ht.attempt_le.trans hle, ht.wifi, ht.finished, ht.timeout,
    ht.mqtt, ht.apart.later hle⟩

/-- The end of a link, noted in the timer. -/
theorem Tracks.snoc_end {h : List Entry} {n m : Node} {now t later : Nat} {e : Entry} (ht : Tracks h n now) (hnow : now ≤ t)
    (hlater : t ≤ later) (hended : e.ended = some t) (hbegun : e.begun = none) (htried : e.tried = none)
    (hstate : m.currentState = .disconnected) (hretry : m.lastWifiRetryMs = reading t) :
    Tracks (h ++ [e]) m later where
  end_le := by
    rw [lastEnd_snoc, hended]
    exact hlater
  begin_le := by
    rw [lastBegin_snoc, hbegun]
    exact ht.begin_le.trans (hnow.trans hlater)
  try_le := by
    rw [lastTry_snoc, htried]
    exact ht.try_le.trans (hnow.trans hlater)
  attempt_le := by
    rw [lastAttempt_snoc, htried]
    exact ht.attempt_le.trans (hnow.trans hlater)
  wifi _ := by rw [lastEnd_snoc, hended, hretry]; rfl
  finished _ u hu := by
    rw [lastBegin_snoc, hbegun, Option.none_or] at hu
    have hle := ht.begin_le
    rw [hu] at hle
    exact ⟨t, by rw [lastEnd_snoc, hended]; rfl, hle.trans hnow⟩
  timeout hcontra := by simp [hstate] at hcontra
  mqtt hcontra := by simp [hstate] at hcontra
  apart := by
    rw [hstate]
    intro u hu
    rw [lastAttempt_snoc, htried] at hu
    have hle := ht.attempt_le
    rw [show lastAttempt h = some u from hu] at hle
    exact ⟨t, by rw [lastEnd_snoc, hended]; rfl, hle.trans hnow⟩

/-- A state without a timer. -/
theorem Tracks.untimed {h : List Entry} {n m : Node} {now : Nat} (ht : Tracks h n now)
    (hstate : m.currentState ≠ .disconnected ∧ m.currentState ≠ .connectingWifi ∧ m.currentState ≠ .connectingMqtt)
    (hapart : Apart h now m.currentState) : Tracks h m now :=
  ⟨ht.end_le, ht.begin_le, ht.try_le, ht.attempt_le, fun hs => absurd hs hstate.1, fun hs => absurd hs hstate.1,
    fun hs => absurd hs hstate.2.1, fun hs => absurd hs hstate.2.2, hapart⟩

/-- **Head lemma.** -/
theorem Tracks.head {h : List Entry} {n : Node} {now : Nat} {p : ClockedPass} (ht : Tracks h n now) (hnow : now ≤ p.ms 0) :
    Tracks (h ++ headLog p n) (checkWifi p.answers n) (p.ms 0) := by
  unfold headLog checkWifi
  split
  · exact ht.snoc_end hnow le_rfl rfl rfl rfl rfl (p.millis_eq 0)
  · rw [List.append_nil]
    exact ht.later hnow

theorem spaced_headLog (h : List Entry) (p : ClockedPass) (n : Node) :
    Everywhere (fun before e => Spaced (h ++ before) e) (headLog p n) := by
  unfold headLog
  split
  · exact Everywhere.singleton_iff.mpr trivial
  · exact Everywhere.nil

/-- A timer that has fired, or reads 0. -/
theorem fired_spaced {timer wait : UInt32} {before : Option Nat} {p : ClockedPass} (hle : before.getD 0 ≤ p.ms 1)
    (htimer : timer = reading (before.getD 0)) (hfired : timer = 0 ∨ p.answers.millis 1 - timer ≥ wait) (u : Nat)
    (hu : before = some u) : u + wait.toNat ≤ p.ms 1 ∨ 2 ^ 32 ∣ u := by
  subst hu
  rw [htimer, p.millis_eq] at hfired
  rcases hfired with hzero | hpassed
  · exact .inr (reading_eq_zero_iff.mp hzero)
  · exact .inl (add_le_of_passed hle hpassed)

/-- `STATE_DISCONNECTED`. -/
theorem Tracks.disconnected {h : List Entry} {n : Node} {p : ClockedPass} (ht : Tracks h n (p.ms 0))
    (hstate : n.currentState = .disconnected) :
    Tracks (h ++ switchLog p n) (disconnected p.answers n) (p.ms 3) ∧
      Everywhere (fun before e => Spaced (h ++ before) e) (switchLog p n) := by
  have hlog : switchLog p n = if n.lastWifiRetryMs = 0 ∨ p.answers.millis 1 - n.lastWifiRetryMs ≥ 5000 then
      [.wifiBegin (p.ms 1) (p.ms 2)] else [] := by rw [switchLog, hstate]
  rw [hlog]
  unfold Norvi.disconnected
  split
  · rename_i hfired
    have hspaced := fired_spaced (ht.end_le.trans (p.le (by omega))) (ht.wifi hstate) hfired
    refine ⟨⟨?_, ?_, ?_, ?_, by simp, by simp, fun _ => ⟨p.ms 2, ?_, p.millis_eq 2⟩, by simp, fun u hu => ?_⟩,
      Everywhere.singleton_iff.mpr ?_⟩
    · rw [lastEnd_snoc]
      exact ht.end_le.trans (p.le (by omega))
    · rw [lastBegin_snoc]
      exact p.le (by omega)
    · rw [lastTry_snoc]
      exact ht.try_le.trans (p.le (by omega))
    · rw [lastAttempt_snoc]
      exact ht.attempt_le.trans (p.le (by omega))
    · rw [lastBegin_snoc]
      rfl
    · rw [lastAttempt_snoc] at hu
      rw [lastEnd_snoc]
      obtain ⟨v, hv, hle⟩ := (hstate ▸ ht.apart : Apart h (p.ms 0) .disconnected) u hu
      rcases hspaced v hv with hdistance | hzero
      · exact .inl ((Nat.add_le_add_right hle 5000).trans (hdistance.trans (p.le (by omega))))
      · exact .inr ⟨v, hv, hzero⟩
    · rw [List.append_nil]
      exact ⟨hspaced, ht.finished hstate⟩
  · rw [List.append_nil]
    exact ⟨ht.later (p.le (by omega)), Everywhere.nil⟩

/-- `STATE_CONNECTING_WIFI`. -/
theorem Tracks.connectingWifi {h : List Entry} {n : Node} {p : ClockedPass} (ht : Tracks h n (p.ms 0))
    (hstate : n.currentState = .connectingWifi) :
    Tracks (h ++ switchLog p n) (connectingWifi p.answers n) (p.ms 3) ∧
      Everywhere (fun before e => Spaced (h ++ before) e) (switchLog p n) := by
  have hlog : switchLog p n = if p.answers.wifi then [] else
      if p.answers.millis 1 - n.wifiConnectStartMs ≥ 15000 then [.wifiTimeout (p.ms 1) (p.ms 2)] else [] := by
    rw [switchLog, hstate]
  rw [hlog]
  unfold Norvi.connectingWifi
  split
  · rw [List.append_nil]
    have hlater := ht.later (p.le (by omega : 0 ≤ 3))
    exact ⟨hlater.untimed (by simp) (hstate ▸ hlater.apart : Apart h (p.ms 3) .connectingWifi), Everywhere.nil⟩
  · split
    · rename_i hfired
      obtain ⟨u, hu, hstart⟩ := ht.timeout hstate
      have hle := ht.begin_le
      rw [hu] at hle
      rw [hstart, p.millis_eq] at hfired
      refine ⟨(ht.later (p.le (by omega : 0 ≤ 1))).snoc_end (p.le (by omega)) (p.le (by omega)) rfl rfl rfl rfl (p.millis_eq 2),
        Everywhere.singleton_iff.mpr ⟨u, ?_, ?_⟩⟩
      · rw [List.append_nil]
        exact hu
      · exact add_le_of_passed (hle.trans (p.le (by omega))) hfired
    · rw [List.append_nil]
      exact ⟨ht.later (p.le (by omega)), Everywhere.nil⟩

/-- `STATE_SYNCING_TIME`. -/
theorem Tracks.syncingTime {h out : List Entry} {n m : Node} {effects : List Effect} {p : ClockedPass}
    (ht : Tracks h n (p.ms 0)) (hstate : n.currentState = .syncingTime) (hvisit : SyncVisit p.answers n m effects)
    (hlog : out = if p.answers.wifi then [.synced] else [.wifiLost (p.ms 1)]) :
    Tracks (h ++ out) m (p.ms 3) ∧ Everywhere (fun before e => Spaced (h ++ before) e) out := by
  cases hvisit with
  | up _ hwifi =>
    rw [hwifi, if_pos rfl] at hlog
    subst hlog
    refine ⟨⟨?_, ?_, ?_, ?_, by simp, by simp, by simp, fun _ => ?_, fun _ u hu => ?_⟩, Everywhere.singleton_iff.mpr trivial⟩
    · rw [lastEnd_snoc]
      exact ht.end_le.trans (p.le (by omega))
    · rw [lastBegin_snoc]
      exact ht.begin_le.trans (p.le (by omega))
    · rw [lastTry_snoc]
      exact Nat.zero_le _
    · rw [lastAttempt_snoc]
      exact ht.attempt_le.trans (p.le (by omega))
    · rw [lastTry_snoc]
      rfl
    · rw [lastAttempt_snoc] at hu
      rw [lastEnd_snoc]
      exact Parted.later (hstate ▸ ht.apart : Apart h (p.ms 0) .syncingTime) (p.le (by omega)) u hu
  | down _ hwifi =>
    rw [hwifi, if_neg (by simp)] at hlog
    subst hlog
    exact ⟨ht.snoc_end (p.le (by omega)) (p.le (by omega)) rfl rfl rfl rfl (p.millis_eq 1),
      Everywhere.singleton_iff.mpr trivial⟩

/-- The broker's timer is set. -/
theorem Tracks.snoc_try {h : List Entry} {n m : Node} {now t later : Nat} {e : Entry} (ht : Tracks h n now) (hnow : now ≤ t)
    (hlater : t ≤ later) (hended : e.ended = none) (hbegun : e.begun = none) (htried : e.tried = some (some t))
    (hstate : m.currentState = .connectingMqtt ∨ m.currentState = .connected) (hretry : m.lastMqttRetryMs = reading t) :
    Tracks (h ++ [e]) m later where
  end_le := by
    rw [lastEnd_snoc, hended]
    exact ht.end_le.trans (hnow.trans hlater)
  begin_le := by
    rw [lastBegin_snoc, hbegun]
    exact ht.begin_le.trans (hnow.trans hlater)
  try_le := by
    rw [lastTry_snoc, htried]
    exact hlater
  attempt_le := by
    rw [lastAttempt_snoc, htried]
    exact hlater
  wifi hcontra := by rcases hstate with hs | hs <;> simp [hs] at hcontra
  finished hcontra := by rcases hstate with hs | hs <;> simp [hs] at hcontra
  timeout hcontra := by rcases hstate with hs | hs <;> simp [hs] at hcontra
  mqtt _ := by rw [lastTry_snoc, htried, hretry]; rfl
  apart := by
    rcases hstate with hs | hs
    · rw [hs]
      intro hnone
      rw [lastTry_snoc, htried] at hnone
      exact nomatch hnone
    · rw [hs]
      exact trivial

/-- `STATE_CONNECTING_MQTT`. -/
theorem Tracks.connectingMqtt {h : List Entry} {n : Node} {p : ClockedPass} (ht : Tracks h n (p.ms 0))
    (hstate : n.currentState = .connectingMqtt) :
    Tracks (h ++ switchLog p n) (connectingMqtt p.answers n).1 (p.ms 3) ∧
      Everywhere (fun before e => Spaced (h ++ before) e) (switchLog p n) := by
  have hlog : switchLog p n = if n.lastMqttRetryMs = 0 ∨ p.answers.millis 1 - n.lastMqttRetryMs ≥ 5000 then
      [.mqttConnect (p.ms 1) (p.ms 2)] else [] := by rw [switchLog, hstate]
  rw [hlog]
  unfold Norvi.connectingMqtt
  split
  · rename_i hfired
    have hspaced : Everywhere (fun before e => Spaced (h ++ before) e) [Entry.mqttConnect (p.ms 1) (p.ms 2)] := by
      rw [Everywhere.singleton_iff, List.append_nil]
      have htimer := fired_spaced (ht.try_le.trans (p.le (by omega))) (ht.mqtt hstate) hfired
      refine ⟨htimer, fun u hu => ?_⟩
      cases htry : lastTry h with
      | none =>
        have hparted := (hstate ▸ ht.apart : Apart h (p.ms 0) .connectingMqtt) htry
        exact (hparted.later (p.mono 0) u hu).imp_right .inr
      | some v =>
        rw [lastAttempt_of_lastTry htry] at hu
        obtain rfl := Option.some.inj hu
        exact (htimer v htry).imp_right .inl
    split
    · exact ⟨ht.snoc_try (p.le (by omega)) (p.le (by omega)) rfl rfl rfl (.inr rfl) (p.millis_eq 2), hspaced⟩
    · exact ⟨ht.snoc_try (p.le (by omega)) (p.le (by omega)) rfl rfl rfl (.inl hstate) (p.millis_eq 2), hspaced⟩
  · rw [List.append_nil]
    exact ⟨ht.later (p.le (by omega)), Everywhere.nil⟩

/-- `STATE_CONNECTED`. -/
theorem Tracks.connected {h : List Entry} {n : Node} {p : ClockedPass} (ht : Tracks h n (p.ms 0))
    (hstate : n.currentState = .connected) :
    Tracks (h ++ switchLog p n) (connected p.answers n).1 (p.ms 3) ∧
      Everywhere (fun before e => Spaced (h ++ before) e) (switchLog p n) := by
  have hlog : switchLog p n = if p.answers.mqttConnected then [] else [.mqttLost (p.ms 1)] := by rw [switchLog, hstate]
  rw [hlog]
  unfold Norvi.connected
  split
  · rw [List.append_nil]
    refine ⟨(ht.later (p.le (by omega))).untimed ?_ ?_, Everywhere.nil⟩
    · dsimp only
      split <;> simp [hstate]
    · dsimp only
      split <;> rw [hstate] <;> exact trivial
  · exact ⟨ht.snoc_try (p.le (by omega)) (p.le (by omega)) rfl rfl rfl (.inl rfl) (p.millis_eq 1),
      Everywhere.singleton_iff.mpr trivial⟩

/-- **Switch lemma**: what each case does to the log and its timers. -/
theorem Tracks.switch {h : List Entry} {n m : Node} {effects : List Effect} {p : ClockedPass} (ht : Tracks h n (p.ms 0))
    (hswitch : switchState p.answers n = some (m, effects)) :
    Tracks (h ++ switchLog p n) m (p.ms 3) ∧ Everywhere (fun before e => Spaced (h ++ before) e) (switchLog p n) := by
  cases switchState_inv hswitch with
  | disconnected hstate => exact ht.disconnected hstate
  | connectingWifi hstate => exact ht.connectingWifi hstate
  | syncingTime hstate hvisit =>
    refine ht.syncingTime hstate hvisit ?_
    rw [switchLog, hstate]
  | connectingMqtt hstate => exact ht.connectingMqtt hstate
  | connected hstate => exact ht.connected hstate

/-- A step of the machine on the clock. -/
theorem timed_step_cases {s t : Node × Nat} {i : TimedInput} {out : List Entry} (h : timed.step s i = some (t, out)) :
    (∃ currentTime, i = .isr currentTime ∧ t = (inputISR s.1 currentTime, s.2) ∧ out = []) ∨
      ∃ p m effects, i = .pass p ∧ s.2 ≤ p.ms 0 ∧ switchState p.answers (checkWifi p.answers s.1) = some (m, effects) ∧
        t = ((spoolOffline p.answers m).1, p.ms 3) ∧ out = headLog p s.1 ++ switchLog p (checkWifi p.answers s.1) := by
  cases i with
  | isr currentTime =>
    cases h
    exact .inl ⟨currentTime, rfl, rfl, rfl⟩
  | pass p =>
    simp only [timed] at h
    split at h
    · rename_i hnow
      obtain ⟨⟨n', effects⟩, hpass, heq⟩ := Option.map_eq_some_iff.mp h
      obtain ⟨m, switched, hswitch, hn', -⟩ := pass_cases hpass
      cases heq
      exact .inr ⟨p, m, switched, rfl, hnow, hswitch, by rw [hn'], rfl⟩
    · cases h

/-- **Step lemma.** -/
theorem tracks_step {h : List Entry} {s t : Node × Nat} {i : TimedInput} {out : List Entry} (ht : Tracks h s.1 s.2)
    (hstep : timed.step s i = some (t, out)) :
    Tracks (h ++ out) t.1 t.2 ∧ Everywhere (fun before e => Spaced (h ++ before) e) out := by
  rcases timed_step_cases hstep with ⟨currentTime, rfl, rfl, rfl⟩ | ⟨p, m, effects, rfl, hnow, hswitch, rfl, rfl⟩
  · rw [List.append_nil]
    exact ⟨ht.congr (inputISR_timers s.1 currentTime), Everywhere.nil⟩
  · obtain ⟨htracks, hspaced⟩ := (ht.head hnow).switch hswitch
    rw [List.append_assoc] at htracks
    refine ⟨htracks.congr (spoolOffline_timers p.answers m), ?_⟩
    rw [Everywhere.append_iff]
    simp only [← List.append_assoc]
    exact ⟨spaced_headLog h p s.1, hspaced⟩

theorem tracks_boot (spool : Option (List UInt8)) : Tracks [] (Node.boot spool) 0 :=
  ⟨le_rfl, le_rfl, le_rfl, le_rfl, fun _ => rfl, by simp [lastBegin], by simp [Node.boot], by simp [Node.boot], nofun⟩

/-- **Retries are spaced**, whatever the clock and the network do. -/
theorem retries_spaced (spool : Option (List UInt8)) (inputs : List TimedInput) (s : Node × Nat) (h : List Entry)
    (hrun : timed.run (Node.boot spool, 0) inputs = some (s, h)) : Everywhere Spaced h := by
  have hinv := timed.run_induction (I := fun h s => Tracks h s.1 s.2 ∧ Everywhere Spaced h)
    (fun h s i t out hI _ hstep => ?_) (h := []) ⟨tracks_boot spool, Everywhere.nil⟩ (timed.along_true _ inputs) hrun
  · exact hinv.2
  · obtain ⟨htracks, hspaced⟩ := tracks_step hI.1 hstep
    exact ⟨htracks, Everywhere.append_iff.mpr ⟨hI.2, hspaced⟩⟩

/-- A pass without Wi-Fi. -/
def searching (t : Nat) : ClockedPass where
  answers := { allWell with wifiHead := false, wifi := false, millis := fun k => reading (t + k) }
  ms k := t + k
  millis_eq _ := rfl
  mono _ := Nat.le_succ _

/-- A pass with Wi-Fi up to a broker that refuses. -/
def brokerDown (t : Nat) : ClockedPass where
  answers := { allWell with mqttConnect := false, millis := fun k => reading (t + k) }
  ms k := t + k
  millis_eq _ := rfl
  mono _ := Nat.le_succ _

/-- A search across the wrap, an attempt at the broker, and the next one after the link was lost and the time synchronised. -/
theorem search_spaced :
    Everywhere Spaced [.wifiBegin 4294960001 4294960002, .wifiTimeout 4294975011 4294975012, .wifiBegin 4294980021 4294980022,
      .synced, .mqttConnect 4294980051 4294980052, .wifiLost 4294980060, .wifiBegin 4294985071 4294985072, .synced,
      .mqttConnect 4294985101 4294985102] :=
  retries_spaced none [.pass (searching 4294960000), .pass (searching 4294975010), .pass (searching 4294980020),
    .pass (brokerDown 4294980030), .pass (brokerDown 4294980040), .pass (brokerDown 4294980050), .pass (searching 4294980060),
    .pass (brokerDown 4294985070), .pass (brokerDown 4294985080), .pass (brokerDown 4294985090), .pass (brokerDown 4294985100)] _ _ rfl

/-! ## No timer is missed -/

/-- What promptness depends on. -/
theorem Prompt.congr {D : Nat} {h : List Entry} {n m : Node} {now : Nat} (hp : Prompt D h n now)
    (hstate : m.currentState = n.currentState) : Prompt D h m now :=
  ⟨by rw [hstate]; exact hp.wifi, by rw [hstate]; exact hp.timeout, by rw [hstate]; exact hp.mqtt⟩

/-- A timer that has not fired yet. -/
theorem not_fired_prompt (wait : UInt32) {timer : UInt32} {u D : Nat} {p : ClockedPass} (htimer : timer = reading u)
    (hturn : p.ms 1 < u + 2 ^ 32) (hlast : p.ms 3 ≤ p.ms 1 + D) (hnot : ¬ p.answers.millis 1 - timer ≥ wait) :
    p.ms 3 < u + wait.toNat + D := by
  rw [htimer, p.millis_eq] at hnot
  have hlt := lt_of_not_passed hturn hnot
  omega

variable {D : Nat}

theorem Prompt.disconnected {h : List Entry} {n : Node} {now : Nat} {p : ClockedPass} (hp : Prompt D h n now)
    (hD : 15000 + 2 * D < 2 ^ 32) (hsince : p.ms 1 ≤ now + D) (hlast : p.ms 3 ≤ p.ms 1 + D)
    (hwifi : n.lastWifiRetryMs = reading ((lastEnd h).getD 0)) (hstate : n.currentState = .disconnected) :
    Prompt D (h ++ switchLog p n) (Norvi.disconnected p.answers n) (p.ms 3) := by
  have hlog : switchLog p n = if n.lastWifiRetryMs = 0 ∨ p.answers.millis 1 - n.lastWifiRetryMs ≥ 5000 then
      [.wifiBegin (p.ms 1) (p.ms 2)] else [] := by rw [switchLog, hstate]
  rw [hlog]
  unfold Norvi.disconnected
  split
  · refine ⟨by simp, fun _ => ⟨p.ms 2, ?_, ?_⟩, by simp⟩
    · rw [lastBegin_snoc]
      rfl
    · have hle : p.ms 1 ≤ p.ms 2 := p.mono 1
      omega
  · rename_i hnot
    obtain ⟨hzero, hwait⟩ := not_or.mp hnot
    rw [List.append_nil]
    refine ⟨fun _ => ?_, by simp [hstate], by simp [hstate]⟩
    rcases hp.wifi hstate with rfl | ⟨u, hu, hlt⟩
    · exact absurd hwifi hzero
    · rw [hu] at hwifi
      exact .inr ⟨u, hu, not_fired_prompt 5000 hwifi (by omega) hlast hwait⟩

theorem Prompt.connectingWifi {h : List Entry} {n : Node} {now : Nat} {p : ClockedPass} (hp : Prompt D h n now)
    (ht : Tracks h n (p.ms 0)) (hD : 15000 + 2 * D < 2 ^ 32) (hsince : p.ms 1 ≤ now + D) (hlast : p.ms 3 ≤ p.ms 1 + D)
    (hstate : n.currentState = .connectingWifi) :
    Prompt D (h ++ switchLog p n) (Norvi.connectingWifi p.answers n) (p.ms 3) := by
  have hlog : switchLog p n = if p.answers.wifi then [] else
      if p.answers.millis 1 - n.wifiConnectStartMs ≥ 15000 then [.wifiTimeout (p.ms 1) (p.ms 2)] else [] := by
    rw [switchLog, hstate]
  rw [hlog]
  unfold Norvi.connectingWifi
  split
  · exact ⟨by simp, by simp, by simp⟩
  · split
    · refine ⟨fun _ => .inr ⟨p.ms 2, ?_, ?_⟩, by simp, by simp⟩
      · rw [lastEnd_snoc]
        rfl
      · have hle : p.ms 1 ≤ p.ms 2 := p.mono 1
        omega
    · rename_i hnot
      obtain ⟨u, hu, hlt⟩ := hp.timeout hstate
      obtain ⟨v, hv, hstart⟩ := ht.timeout hstate
      rw [hu] at hv
      cases hv
      rw [List.append_nil]
      exact ⟨by simp [hstate], fun _ => ⟨u, hu, not_fired_prompt 15000 hstart (by omega) hlast hnot⟩,
        by simp [hstate]⟩

theorem Prompt.syncingTime {h : List Entry} {n m : Node} {effects : List Effect} {p : ClockedPass}
    (hlast : p.ms 3 ≤ p.ms 1 + D) (hvisit : SyncVisit p.answers n m effects) :
    Prompt D (h ++ if p.answers.wifi then [.synced] else [.wifiLost (p.ms 1)]) m (p.ms 3) := by
  cases hvisit with
  | up _ hwifi =>
    rw [hwifi, if_pos rfl]
    exact ⟨by simp, by simp, fun _ => .inl (by simp)⟩
  | down _ hwifi =>
    rw [hwifi, if_neg (by simp)]
    refine ⟨fun _ => .inr ⟨p.ms 1, ?_, by omega⟩, by simp, by simp⟩
    rw [lastEnd_snoc]
    rfl

theorem Prompt.connectingMqtt {h : List Entry} {n : Node} {now : Nat} {p : ClockedPass} (hp : Prompt D h n now)
    (hD : 15000 + 2 * D < 2 ^ 32) (hsince : p.ms 1 ≤ now + D) (hlast : p.ms 3 ≤ p.ms 1 + D)
    (hmqtt : n.lastMqttRetryMs = reading ((lastTry h).getD 0)) (hstate : n.currentState = .connectingMqtt) :
    Prompt D (h ++ switchLog p n) (Norvi.connectingMqtt p.answers n).1 (p.ms 3) := by
  have hlog : switchLog p n = if n.lastMqttRetryMs = 0 ∨ p.answers.millis 1 - n.lastMqttRetryMs ≥ 5000 then
      [.mqttConnect (p.ms 1) (p.ms 2)] else [] := by rw [switchLog, hstate]
  rw [hlog]
  unfold Norvi.connectingMqtt
  split
  · have htried : lastTry (h ++ [.mqttConnect (p.ms 1) (p.ms 2)]) = some (p.ms 2) := by
      rw [lastTry_snoc]
      rfl
    have hle : p.ms 1 ≤ p.ms 2 := p.mono 1
    split
    · exact ⟨by simp, by simp, by simp⟩
    · exact ⟨by simp [hstate], by simp [hstate], fun _ => .inr ⟨p.ms 2, htried, by omega⟩⟩
  · rename_i hnot
    obtain ⟨hzero, hwait⟩ := not_or.mp hnot
    rw [List.append_nil]
    refine ⟨by simp [hstate], by simp [hstate], fun _ => ?_⟩
    rcases hp.mqtt hstate with hsynced | ⟨u, hu, hlt⟩
    · -- right after a sync the timer is 0 and fires
      obtain ⟨before, rfl⟩ := List.getLast?_eq_some_iff.mp hsynced
      rw [lastTry_snoc] at hmqtt
      exact absurd hmqtt hzero
    · rw [hu] at hmqtt
      exact .inr ⟨u, hu, not_fired_prompt 5000 hmqtt (by omega) hlast hwait⟩

theorem Prompt.connected {h : List Entry} {n : Node} {p : ClockedPass} (hlast : p.ms 3 ≤ p.ms 1 + D)
    (hstate : n.currentState = .connected) :
    Prompt D (h ++ switchLog p n) (Norvi.connected p.answers n).1 (p.ms 3) := by
  have hlog : switchLog p n = if p.answers.mqttConnected then [] else [.mqttLost (p.ms 1)] := by rw [switchLog, hstate]
  rw [hlog]
  unfold Norvi.connected
  split
  · dsimp only
    split <;> exact ⟨by simp [hstate], by simp [hstate], by simp [hstate]⟩
  · refine ⟨by simp, by simp, fun _ => .inr ⟨p.ms 1, ?_, by omega⟩⟩
    rw [lastTry_snoc]
    rfl

/-- The head of the loop leaves every timer that still runs prompt. -/
theorem Prompt.head {h : List Entry} {n : Node} {now : Nat} {p : ClockedPass} (hp : Prompt D h n now) (hnow : now ≤ p.ms 0) :
    ∃ seen, Prompt D (h ++ headLog p n) (checkWifi p.answers n) seen ∧ now ≤ seen ∧ seen ≤ p.ms 0 := by
  unfold headLog checkWifi
  split
  · refine ⟨p.ms 0, ⟨fun _ => .inr ⟨p.ms 0, ?_, by omega⟩, by simp, by simp⟩, hnow, le_rfl⟩
    rw [lastEnd_snoc]
    rfl
  · rw [List.append_nil]
    exact ⟨now, hp, le_rfl, hnow⟩

/-- **Switch lemma**: no case leaves a timer overdue. -/
theorem Prompt.switch {h : List Entry} {n m : Node} {effects : List Effect} {now : Nat} {p : ClockedPass} (hp : Prompt D h n now)
    (ht : Tracks h n (p.ms 0)) (hD : 15000 + 2 * D < 2 ^ 32)
    (hsince : n.currentState ≠ .syncingTime → p.ms 1 ≤ now + D) (hlast : p.ms 3 ≤ p.ms 1 + D)
    (hswitch : switchState p.answers n = some (m, effects)) : Prompt D (h ++ switchLog p n) m (p.ms 3) := by
  cases switchState_inv hswitch with
  | disconnected hstate => exact hp.disconnected hD (hsince (by simp [hstate])) hlast (ht.wifi hstate) hstate
  | connectingWifi hstate => exact hp.connectingWifi ht hD (hsince (by simp [hstate])) hlast hstate
  | syncingTime hstate hvisit =>
    rw [switchLog, hstate]
    exact Prompt.syncingTime hlast hvisit
  | connectingMqtt hstate => exact hp.connectingMqtt hD (hsince (by simp [hstate])) hlast (ht.mqtt hstate) hstate
  | connected hstate => exact Prompt.connected hlast hstate

theorem prompt_step {h : List Entry} {s t : Node × Nat} {i : TimedInput} {out : List Entry} (hD : 15000 + 2 * D < 2 ^ 32)
    (ht : Tracks h s.1 s.2) (hp : Prompt D h s.1 s.2) (hpace : FollowsWithin D s i)
    (hstep : timed.step s i = some (t, out)) : Prompt D (h ++ out) t.1 t.2 := by
  rcases timed_step_cases hstep with ⟨currentTime, rfl, rfl, rfl⟩ | ⟨p, m, effects, rfl, hnow, hswitch, rfl, rfl⟩
  · rw [List.append_nil]
    exact hp.congr (inputISR_timers s.1 currentTime).1
  · obtain ⟨seen, hhead, hfrom, -⟩ := hp.head hnow
    have hsince : (checkWifi p.answers s.1).currentState ≠ .syncingTime → p.ms 1 ≤ seen + D := by
      intro hstate
      have hle := hpace.1 hstate
      omega
    have hdone := hhead.switch (ht.head hnow) hD hsince hpace.2 hswitch
    rw [List.append_assoc] at hdone
    exact hdone.congr (spoolOffline_timers p.answers m).1

/-- **Retries are prompt**: with passes within `D` ms of one another, no timer is overdue by more than `D`. -/
theorem retries_prompt (D : Nat) (hD : 15000 + 2 * D < 2 ^ 32) (spool : Option (List UInt8)) (inputs : List TimedInput)
    (s : Node × Nat) (h : List Entry) (hpace : timed.Along (FollowsWithin D) (Node.boot spool, 0) inputs)
    (hrun : timed.run (Node.boot spool, 0) inputs = some (s, h)) : Prompt D h s.1 s.2 := by
  have hinv := timed.run_induction (I := fun h s => Tracks h s.1 s.2 ∧ Prompt D h s.1 s.2)
    (fun h s i t out hI hok hstep => ?_) (h := []) ⟨tracks_boot spool, fun _ => .inl rfl, by simp [Node.boot], by simp [Node.boot]⟩
    hpace hrun
  · exact hinv.2
  · exact ⟨(tracks_step hI.1 hstep).1, prompt_step hD hI.1 hI.2 hok hstep⟩

/-- A search that goes on. -/
theorem search_prompt :
    ∃ n, n.currentState = .disconnected ∧
      Prompt 16000 [.wifiBegin 1 2, .wifiTimeout 15011 15012] n 15013 := by
  refine ⟨_, ?_, retries_prompt 16000 (by decide) none [.pass (searching 0), .pass (searching 15010)] _ _ ?_ rfl⟩
  · rfl
  · refine ⟨⟨fun _ => ?_, ?_⟩, fun s out hfirst => ?_⟩
    · decide
    · decide
    · cases hfirst
      refine ⟨⟨fun _ => ?_, ?_⟩, fun _ _ _ => trivial⟩
      · decide
      · decide

/-- Without its clock, a run is one of the networking task. -/
theorem timed_run_networking {s t : Node × Nat} {inputs : List TimedInput} {h : List Entry}
    (hrun : timed.run s inputs = some (t, h)) :
    ∃ effects, networking.run s.1 (inputs.map TimedInput.toInput) = some (t.1, effects) := by
  induction inputs generalizing s h with
  | nil =>
    cases hrun
    exact ⟨[], rfl⟩
  | cons i inputs ih =>
    obtain ⟨u, out, outs, hstep, hrest, -⟩ := timed.run_cons_iff.mp hrun
    obtain ⟨effects, hnetworking⟩ := ih hrest
    have hfirst : ∃ first, networking.step s.1 i.toInput = some (u.1, first) := by
      cases i with
      | isr currentTime =>
        cases hstep
        exact ⟨[], rfl⟩
      | pass p =>
        simp only [timed] at hstep
        split at hstep
        · obtain ⟨⟨n', first⟩, hpass, heq⟩ := Option.map_eq_some_iff.mp hstep
          cases heq
          exact ⟨first, hpass⟩
        · cases hstep
    obtain ⟨first, hfirst⟩ := hfirst
    exact ⟨first ++ effects, networking.run_cons_of hfirst hnetworking⟩

end IbarraGateway.Norvi
