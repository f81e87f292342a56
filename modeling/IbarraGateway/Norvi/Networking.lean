import IbarraGateway.Norvi.Device

/-!
# `vTaskNetworking`: one pass of the networking task

`pass` is the body of the `while (true)` loop of `vTaskNetworking`: the Wi-Fi check at its head, the `switch` on the
connection state (one definition for each case), and the offline spooling after it. Every call to the platform is
answered by the `Answers` of the pass, so a run ranges over all link changes, publish results and file results.

The pass returns its effects in program order. Interrupts come between passes: the handler and the task share only the
queue and the cycle counter, and a pass looks at the queue once.
-/

namespace IbarraGateway.Norvi

/-- What the platform answers during one pass. -/
structure Answers where
  /-- `WiFi.status() == WL_CONNECTED` at the head of the loop -/
  wifiHead : Bool
  /-- the same inside the `switch` (after the NTP loop in `STATE_SYNCING_TIME`) -/
  wifi : Bool
  /-- the `k`-th `millis()` of the pass -/
  millis : Nat → UInt32
  /-- `time(nullptr)` on entry to `STATE_SYNCING_TIME` -/
  firstTime : Int64
  /-- `WiFi.status()` and `time(nullptr)` at each turn of the NTP loop -/
  ntpPolls : List (Bool × Int64)
  mqttConnect : Bool
  statusPublish : Bool
  mqttConnected : Bool
  openSpoolRead : Bool
  /-- `mqttClient.publish` of the `k`-th record read from the file -/
  publishSpooled : Nat → Bool
  removeSpool : Bool
  /-- `esp_timer_get_time()` and `time(nullptr)` when an event is taken from the queue -/
  bootUs : Int64
  now : Int64
  publishLive : Bool
  openSpoolAppend : Bool
  /-- how many bytes of the record `write` gets into the file -/
  written : Nat

/-- Where a published message comes from: the greeting on connect, the file, the queue. -/
inductive Origin
  | status | spooled | live
deriving DecidableEq, Repr

inductive Effect
  | wdtReset
  | delay (ms : Nat)
  | time (now : Int64)
  | receive (event : ProductionEvent)
  | publish (origin : Origin) (record : SpooledEvent) (accepted : Bool)
  | append (record : SpooledEvent)
  | remove
deriving DecidableEq, Repr

/-! ## Time -/

/-- 2025-01-01T00:00:00Z: from here on `tm_year + 1900 > 2024`. -/
def year2025 : Int64 := 1735689600

/-- The wall-clock second of an event, from its boot-clock time. -/
def eventEpochSec (a : Answers) (event : ProductionEvent) : Int64 :=
  let currentBootMs := a.bootUs / 1000
  let timeDifferenceMs := currentBootMs - event.timestamp.toUInt64.toInt64
  a.now - timeDifferenceMs / 1000

/-- The record under which an event is published or spooled. -/
def recordOf (a : Answers) (event : ProductionEvent) : SpooledEvent where
  cycleCount := event.cycleCount
  epochTime := eventEpochSec a event

/-- `while (year <= 2024) { if (no Wi-Fi) break; delay; now = time() }`; `none` while the loop has not ended. -/
def ntpLoop : Int64 → List (Bool × Int64) → Option (List Effect)
  | now, polls =>
    if year2025 ≤ now then some []
    else
      match polls with
      | [] => none
      | (false, _) :: _ => some []
      | (true, later) :: rest =>
        match ntpLoop later rest with
        | none => none
        | some effects => some (.delay 1000 :: .time later :: effects)

/-! ## The cases of the `switch` -/

def disconnected (a : Answers) (n : Node) : Node :=
  if n.lastWifiRetryMs = 0 ∨ a.millis 1 - n.lastWifiRetryMs ≥ 5000 then
    { n with wifiConnectStartMs := a.millis 2, lastWifiRetryMs := a.millis 3, currentState := .connectingWifi }
  else n

def connectingWifi (a : Answers) (n : Node) : Node :=
  if a.wifi then { n with currentState := .syncingTime }
  else if a.millis 1 - n.wifiConnectStartMs ≥ 15000 then
    { n with currentState := .disconnected, lastWifiRetryMs := a.millis 2 }
  else n

def syncingTime (a : Answers) (n : Node) : Option (Node × List Effect) :=
  match ntpLoop a.firstTime a.ntpPolls with
  | none => none
  | some effects =>
    if a.wifi then
      some ({ n with ntpSynced := true, lastMqttRetryMs := 0, currentState := .connectingMqtt },
        .time a.firstTime :: effects)
    else
      some ({ n with currentState := .disconnected, lastWifiRetryMs := a.millis 1 }, .time a.firstTime :: effects)

def connectingMqtt (a : Answers) (n : Node) : Node × List Effect :=
  if n.lastMqttRetryMs = 0 ∨ a.millis 1 - n.lastMqttRetryMs ≥ 5000 then
    if a.mqttConnect then
      ({ n with lastMqttRetryMs := a.millis 2, currentState := .connected },
        [.publish .status ⟨n.globalCycleCount, a.now⟩ a.statusPublish])
    else ({ n with lastMqttRetryMs := a.millis 2 }, [])
  else (n, [])

/-- What the flush leaves behind. -/
structure Flush where
  spool : Option (List UInt8)
  isSpoolPending : Bool
  effects : List Effect

/-- `while (available() > 0 && count < 10)`: the effects, the final `count` and the unread bytes. `left` is
`10 - count`. A short read consumes the bytes that are left. -/
def flushLoop (a : Answers) : (left count : Nat) → (unread : List UInt8) → List Effect × Nat × List UInt8
  | 0, count, unread => ([], count, unread)
  | left + 1, count, unread =>
    if 0 < unread.length then
      if spooledEvent.size ≤ unread.length then
        let se := spooledEvent.decode (unread.take spooledEvent.size)
        let rest := flushLoop a left (count + 1) (unread.drop spooledEvent.size)
        (.publish .spooled se (a.publishSpooled count) :: rest.1, rest.2)
      else ([], count, [])
    else ([], count, unread)

/-- Records per pass. -/
def flushChunk : Nat := 10

/-- The file is opened for reading, hence read from its first byte, on every pass. -/
def flushSpool (a : Answers) (spool : Option (List UInt8)) : Flush :=
  match spool with
  | none => ⟨none, false, []⟩
  | some bytes =>
    if a.openSpoolRead then
      let (published, count, unread) := flushLoop a flushChunk 0 bytes
      let pause := if 0 < count then [Effect.delay 50] else []
      if unread.length = 0 then
        ⟨if a.removeSpool then none else some bytes, false, published ++ .remove :: pause⟩
      else ⟨some bytes, true, published ++ pause⟩
    else ⟨some bytes, false, []⟩

/-- The live queue: one event, published whatever the outcome. -/
def publishLive (a : Answers) (queue : List ProductionEvent) : List ProductionEvent × List Effect :=
  match queue with
  | [] => ([], [])
  | event :: queue => (queue, [.receive event, .publish .live (recordOf a event) a.publishLive])

def connected (a : Answers) (n : Node) : Node × List Effect :=
  if a.mqttConnected then
    let flush := flushSpool a n.spool
    if flush.isSpoolPending then ({ n with spool := flush.spool }, flush.effects)
    else
      let live := publishLive a n.productionEventQueue
      ({ n with spool := flush.spool, productionEventQueue := live.1 }, flush.effects ++ live.2)
  else ({ n with currentState := .connectingMqtt, lastMqttRetryMs := a.millis 1 }, [])

/-! ## The pass -/

/-- The Wi-Fi check at the head of the loop. -/
def checkWifi (a : Answers) (n : Node) : Node :=
  if n.currentState ≠ .disconnected ∧ n.currentState ≠ .connectingWifi ∧ a.wifiHead = false then
    { n with currentState := .disconnected, lastWifiRetryMs := a.millis 0 }
  else n

def switchState (a : Answers) (n : Node) : Option (Node × List Effect) :=
  match n.currentState with
  | .disconnected => some (disconnected a n, [])
  | .connectingWifi => some (connectingWifi a n, [])
  | .syncingTime => syncingTime a n
  | .connectingMqtt => some (connectingMqtt a n)
  | .connected => some (connected a n)

/-- After the `switch`, when not connected: one event from the queue to the file. Before the first NTP sync the event
is dropped. -/
def spoolOffline (a : Answers) (n : Node) : Node × List Effect :=
  if n.currentState = .connected then (n, [])
  else
    match n.productionEventQueue with
    | [] => (n, [])
    | event :: queue =>
      if n.ntpSynced ∧ a.openSpoolAppend then
        ({ n with
            productionEventQueue := queue
            spool := some (n.spool.getD [] ++ (spooledEvent.encode (recordOf a event)).take a.written) },
          [.receive event, .append (recordOf a event)])
      else ({ n with productionEventQueue := queue }, [.receive event])

def pass (n : Node) (a : Answers) : Option (Node × List Effect) :=
  match switchState a (checkWifi a n) with
  | none => none
  | some (n', switched) =>
    some ((spoolOffline a n').1, .wdtReset :: switched ++ (spoolOffline a n').2 ++ [.delay 100])

/-- A visit of `STATE_SYNCING_TIME` waits for its date and goes where the link says. -/
inductive SyncVisit (a : Answers) (n : Node) : Node → List Effect → Prop
  | up {effects : List Effect} (hloop : ntpLoop a.firstTime a.ntpPolls = some effects) (hwifi : a.wifi = true) :
      SyncVisit a n { n with ntpSynced := true, lastMqttRetryMs := 0, currentState := .connectingMqtt }
        (.time a.firstTime :: effects)
  | down {effects : List Effect} (hloop : ntpLoop a.firstTime a.ntpPolls = some effects) (hwifi : a.wifi = false) :
      SyncVisit a n { n with currentState := .disconnected, lastWifiRetryMs := a.millis 1 } (.time a.firstTime :: effects)

theorem syncingTime_inv {a : Answers} {n m : Node} {out : List Effect} (h : syncingTime a n = some (m, out)) :
    SyncVisit a n m out := by
  unfold syncingTime at h
  split at h
  · cases h
  · rename_i effects hloop
    split at h
    · rename_i hwifi
      cases h
      exact .up hloop hwifi
    · rename_i hwifi
      cases h
      exact .down hloop (Bool.eq_false_iff.mpr hwifi)

/-- The states of the `switch`. -/
inductive Switched (a : Answers) (n : Node) : Node → List Effect → Prop
  | disconnected (hstate : n.currentState = .disconnected) : Switched a n (disconnected a n) []
  | connectingWifi (hstate : n.currentState = .connectingWifi) : Switched a n (connectingWifi a n) []
  | syncingTime {m : Node} {out : List Effect} (hstate : n.currentState = .syncingTime) (hvisit : SyncVisit a n m out) :
      Switched a n m out
  | connectingMqtt (hstate : n.currentState = .connectingMqtt) : Switched a n (connectingMqtt a n).1 (connectingMqtt a n).2
  | connected (hstate : n.currentState = .connected) : Switched a n (connected a n).1 (connected a n).2

theorem switchState_inv {a : Answers} {n m : Node} {out : List Effect} (h : switchState a n = some (m, out)) :
    Switched a n m out := by
  unfold switchState at h
  split at h
  · rename_i hstate
    cases h
    exact .disconnected hstate
  · rename_i hstate
    cases h
    exact .connectingWifi hstate
  · rename_i hstate
    exact .syncingTime hstate (syncingTime_inv h)
  · rename_i hstate
    have hmqtt := Switched.connectingMqtt (a := a) hstate
    rwa [Option.some.inj h] at hmqtt
  · rename_i hstate
    have hconnected := Switched.connected (a := a) hstate
    rwa [Option.some.inj h] at hconnected

/-- A `switch` in `STATE_SYNCING_TIME`. -/
theorem visit_of_switchState {a : Answers} {n m : Node} {out : List Effect} (hstate : n.currentState = .syncingTime)
    (h : switchState a n = some (m, out)) : SyncVisit a n m out := by
  unfold switchState at h
  rw [hstate] at h
  exact syncingTime_inv h

theorem pass_cases {n n' : Node} {a : Answers} {out : List Effect} (h : pass n a = some (n', out)) :
    ∃ m switched, switchState a (checkWifi a n) = some (m, switched) ∧ n' = (spoolOffline a m).1 ∧
      out = .wdtReset :: switched ++ (spoolOffline a m).2 ++ [.delay 100] := by
  unfold pass at h
  split at h
  · cases h
  · rename_i m switched hswitch
    cases h
    exact ⟨m, switched, hswitch, rfl, rfl⟩

inductive Input
  | isr (currentTime : Int64)
  | pass (answers : Answers)

/-- The networking task and the interrupt handler, interleaved. -/
def networking : Machine Node Input Effect where
  step n
    | .isr currentTime => some (inputISR n currentTime, [])
    | .pass a => pass n a

/-! ## The NTP wait -/

/-- What `time()` returns at the turns of the wait. -/
def ntpDates : Int64 → List (Bool × Int64) → List Int64
  | now, polls =>
    if year2025 ≤ now then []
    else
      match polls with
      | [] => []
      | (false, _) :: _ => []
      | (true, later) :: rest => later :: ntpDates later rest

/-- **The wait**: each turn is a delay and a date. -/
theorem ntpLoop_eq {now : Int64} {polls : List (Bool × Int64)} {effects : List Effect}
    (h : ntpLoop now polls = some effects) :
    effects = (ntpDates now polls).flatMap fun date => [.delay 1000, .time date] := by
  induction polls generalizing now effects with
  | nil =>
    unfold ntpLoop at h
    unfold ntpDates
    split at h
    · rename_i hyear
      rw [if_pos hyear]
      cases h
      rfl
    · cases h
  | cons poll polls ih =>
    obtain ⟨up, later⟩ := poll
    unfold ntpLoop at h
    unfold ntpDates
    by_cases hyear : year2025 ≤ now
    · rw [if_pos hyear] at h ⊢
      cases h
      rfl
    · rw [if_neg hyear] at h ⊢
      cases up with
      | false =>
        cases h
        rfl
      | true =>
        dsimp only at h ⊢
        cases hrest : ntpLoop later polls with
        | none =>
          rw [hrest] at h
          cases h
        | some rest =>
          rw [hrest] at h
          cases h
          rw [List.flatMap_cons, ← ih hrest]
          rfl

/-! ## What a pass can do -/

theorem flushLoop_whole (a : Answers) (left count : Nat) (unread : List UInt8) (h : spooledEvent.Whole unread) :
    flushLoop a left count unread =
      (((spooledEvent.records unread).take left).mapIdx
          (fun i r => .publish .spooled r (a.publishSpooled (count + i))),
        count + min left (spooledEvent.records unread).length,
        unread.drop (left * spooledEvent.size)) := by
  induction left generalizing count unread with
  | zero => simp [flushLoop]
  | succ left ih =>
    have hlen := spooledEvent.length_of_whole h
    rw [flushLoop]
    by_cases hpos : 0 < unread.length
    · have hle : spooledEvent.size ≤ unread.length := Nat.le_of_dvd hpos h
      rw [if_pos hpos, if_pos hle, ih _ _ (spooledEvent.whole_drop h), spooledEvent.records_of_le hle]
      refine Prod.ext ?_ (Prod.ext ?_ ?_)
      · simp [List.take_succ_cons, List.mapIdx_cons, Nat.add_comm, Nat.add_left_comm]
      · simp only [List.length_cons]
        omega
      · simp only [List.drop_drop, Nat.succ_mul, Nat.add_comm]
    · have hnil : unread = [] := List.length_eq_zero_iff.mp (by omega)
      subst hnil
      simp

/-- A file short enough for one pass to read it to the end. -/
def Short (bytes : List UInt8) : Prop := bytes.length ≤ flushChunk * spooledEvent.size

instance (bytes : List UInt8) : Decidable (Short bytes) := inferInstanceAs (Decidable (_ ≤ _))

theorem short_iff {bytes : List UInt8} (h : spooledEvent.Whole bytes) :
    Short bytes ↔ (spooledEvent.records bytes).length ≤ flushChunk := by
  rw [Short, spooledEvent.length_of_whole h]
  exact Nat.mul_le_mul_right_iff spooledEvent.size_pos

/-- The publications of a flush. -/
def published (a : Answers) (records : List SpooledEvent) : List Effect :=
  records.mapIdx fun i r => .publish .spooled r (a.publishSpooled i)

theorem published_eq_map {a : Answers} {records : List SpooledEvent}
    (h : ∀ i < records.length, a.publishSpooled i = true) :
    published a records = records.map fun r => .publish .spooled r true := by
  apply List.ext_getElem
  · simp [published]
  · intro i hi _
    simp only [published, List.length_mapIdx] at hi
    simp only [published, List.getElem_mapIdx, List.getElem_map, h i hi]

/-- **The flush of a file of whole records**: its first ten are published; the file goes when it is short. -/
theorem flushSpool_whole (a : Answers) (bytes : List UInt8) (h : spooledEvent.Whole bytes)
    (hopen : a.openSpoolRead = true) :
    ∃ pause : List Effect, (∀ e ∈ pause, e = .delay 50) ∧
      flushSpool a (some bytes) =
        if Short bytes then
          ⟨if a.removeSpool then none else some bytes, false,
            published a (spooledEvent.records bytes) ++ .remove :: pause⟩
        else ⟨some bytes, true, published a ((spooledEvent.records bytes).take flushChunk) ++ pause⟩ := by
  have hloop := flushLoop_whole a flushChunk 0 bytes h
  simp only [Nat.zero_add] at hloop
  refine ⟨if 0 < min flushChunk (spooledEvent.records bytes).length then [.delay 50] else [], ?_, ?_⟩
  · intro e he
    split at he
    · exact List.mem_singleton.mp he
    · exact absurd he List.not_mem_nil
  · rw [flushSpool, if_pos hopen, hloop]
    by_cases hs : Short bytes
    · have hdrop : (bytes.drop (flushChunk * spooledEvent.size)).length = 0 := by
        rw [List.length_drop]
        exact Nat.sub_eq_zero_of_le hs
      rw [if_pos hs]
      simp only [hdrop, if_true, published, List.take_of_length_le ((short_iff h).mp hs)]
    · have hdrop : (bytes.drop (flushChunk * spooledEvent.size)).length ≠ 0 := by
        rw [List.length_drop]
        exact Nat.sub_ne_zero_of_lt (Nat.lt_of_not_le hs)
      rw [if_neg hs]
      simp only [hdrop, if_false, published]

end IbarraGateway.Norvi
