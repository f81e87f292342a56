import IbarraGateway.Norvi.Ledger

/-!
# The date of an event

The interrupt keeps the time of an event as a 32-bit number of milliseconds, and the task goes back from the wall clock by
the difference to the 64-bit boot clock. The queue is a FIFO, so the events that were accepted and the events that are
taken are one sequence, by which each record is compared with the time its event was accepted at.

* `event_time_iff` : the date is right exactly for events of the first 2 ^ 32 ms since boot.
* `event_after_wrap` : an event of the fiftieth day.
-/

namespace IbarraGateway.Norvi

/-! ## What is stated -/

/-- The times of the edges that get into the queue. -/
def acceptedNow (n : Node) : Input → List Int64
  | .isr currentTime =>
    if currentTime - n.lastInterruptTime ≥ 50000 ∧ n.productionEventQueue.length < queueLength then [currentTime] else []
  | .pass _ => []

/-- The same along a run. -/
def accepted : Node → List Input → List Int64
  | _, [] => []
  | n, input :: inputs =>
    acceptedNow n input ++
      match networking.step n input with
      | none => []
      | some (n', _) => accepted n' inputs

/-- The time that an event is given. -/
def stamp (currentTime : Int64) : UInt32 := (currentTime / 1000).toUInt64.toUInt32

/-- The events taken from the queue. -/
def received (h : List Effect) : List ProductionEvent :=
  h.filterMap fun
    | .receive event => some event
    | _ => none

/-- The record of an event: published live, or spooled. -/
def Effect.Dates (r : SpooledEvent) : Effect → Prop
  | .publish .live record _ => record = r
  | .append record => record = r
  | _ => False

/-- The date is `now - (t - e) / 1000` within a second, for the boot times `t` and `e` in ms. -/
def RightDate (a : Answers) (e : Int64) (r : SpooledEvent) : Prop :=
  |(r.epochTime - (a.now - (a.bootUs / 1000 - e / 1000) / 1000)).toInt| ≤ 1

/-! ## Arithmetic -/

theorem toInt_nonneg {x : Int64} (hx : 0 ≤ x) : 0 ≤ x.toInt := by
  have h := Int64.le_iff_toInt_le.mp hx
  rwa [Int64.toInt_zero] at h

theorem toInt_div_1000 {x : Int64} (hx : 0 ≤ x) : (x / 1000).toInt = x.toInt / 1000 := by
  rw [Int64.toInt_div_of_ne_right x 1000 (by decide)]
  exact Int.tdiv_eq_ediv_of_nonneg (toInt_nonneg hx)

theorem toInt_sub_of_nonneg {x y : Int64} (hx : 0 ≤ x.toInt) (hy : 0 ≤ y.toInt) : (x - y).toInt = x.toInt - y.toInt := by
  have hxlt := x.toInt_lt
  have hylt := y.toInt_lt
  rw [Int64.toInt_sub]
  apply Int.bmod_eq_of_le
  · omega
  · omega

/-- A difference of boot times, in seconds. -/
theorem toInt_seconds {x y : Int64} (hy : 0 ≤ y.toInt) (hle : y.toInt ≤ x.toInt) :
    ((x - y) / 1000).toInt = (x.toInt - y.toInt) / 1000 := by
  have hsub := toInt_sub_of_nonneg (Int.le_trans hy hle) hy
  have hpos : 0 ≤ x - y := by
    rw [Int64.le_iff_toInt_le, hsub, Int64.toInt_zero]
    omega
  rw [toInt_div_1000 hpos, hsub]

/-- The 32-bit number, widened again. -/
theorem toInt_low {x : Int64} (hx : 0 ≤ x) : x.toUInt64.toUInt32.toUInt64.toInt64.toInt = x.toInt % 2 ^ 32 := by
  have hnat : x.toUInt64.toUInt32.toUInt64.toNat = x.toInt.toNat % 2 ^ 32 := by
    rw [UInt32.toNat_toUInt64, UInt64.toNat_toUInt32, Int64.toNat_toUInt64_of_le hx, ← Int64.toNat_toInt]
  have hpos := toInt_nonneg hx
  rw [← UInt64.ofNat_toNat (x := x.toUInt64.toUInt32.toUInt64), UInt64.toInt64_ofNat', Int64.toInt_ofNat_of_lt (by omega), hnat]
  omega

/-- **The arithmetic**: an event accepted at a boot time of 2 ^ 32 ms or more is dated some fifty days too early for each
wrap of its 32-bit time. -/
theorem rightDate_iff (a : Answers) {e : Int64} {event : ProductionEvent}
    (hstamp : event.timestamp = stamp e) (he : 0 ≤ e) (hle : e ≤ a.bootUs) :
    RightDate a e (recordOf a event) ↔ (e / 1000).toInt < 2 ^ 32 := by
  have hboot : 0 ≤ a.bootUs := Int64.le_trans he hle
  have hpos := toInt_nonneg he
  have hle' := Int64.le_iff_toInt_le.mp hle
  have hms : (e / 1000).toInt = e.toInt / 1000 := toInt_div_1000 he
  have hbootMs : (a.bootUs / 1000).toInt = a.bootUs.toInt / 1000 := toInt_div_1000 hboot
  have hlow : event.timestamp.toUInt64.toInt64.toInt = e.toInt / 1000 % 2 ^ 32 := by
    rw [hstamp, stamp, toInt_low ?_, hms]
    rw [Int64.le_iff_toInt_le, hms, Int64.toInt_zero]
    omega
  have hfalse := toInt_seconds (x := a.bootUs / 1000) (y := event.timestamp.toUInt64.toInt64) (by omega) (by omega)
  have htrue := toInt_seconds (x := a.bootUs / 1000) (y := e / 1000) (by omega) (by omega)
  have hoff : (recordOf a event).epochTime - (a.now - (a.bootUs / 1000 - e / 1000) / 1000) =
      (a.bootUs / 1000 - e / 1000) / 1000 - (a.bootUs / 1000 - event.timestamp.toUInt64.toInt64) / 1000 := by
    show a.now - _ - _ = _
    grind
  rw [RightDate, hoff, toInt_sub_of_nonneg (by omega) (by omega), hfalse, htrue, hlow, hms, hbootMs, abs_le]
  omega

/-! ## The queue -/

theorem received_append (h out : List Effect) : received (h ++ out) = received h ++ received out := List.filterMap_append

/-- Effects that neither take an event nor date one. -/
def Unrelated (out : List Effect) : Prop := received out = [] ∧ ∀ e ∈ out, ∀ r, ¬ e.Dates r

theorem unrelated_nil : Unrelated [] := ⟨rfl, nofun⟩

theorem Unrelated.append {out out' : List Effect} (h : Unrelated out) (h' : Unrelated out') : Unrelated (out ++ out') := by
  refine ⟨?_, fun e he => ?_⟩
  · rw [received_append, h.1, h'.1]
    rfl
  · rcases List.mem_append.mp he with he | he
    · exact h.2 e he
    · exact h'.2 e he

/-- What is taken from the front of the queue, and under which record. -/
structure Takes (a : Answers) (queue : List ProductionEvent) (out : List Effect) (queue' : List ProductionEvent) : Prop where
  taken : received out ++ queue' = queue
  records : ∀ e ∈ out, ∀ r, e.Dates r → ∃ event rest, queue = event :: rest ∧ r = recordOf a event

theorem Unrelated.takes {out : List Effect} (h : Unrelated out) (a : Answers) (queue : List ProductionEvent) :
    Takes a queue out queue :=
  ⟨by rw [h.1, List.nil_append], fun e he r hr => absurd hr (h.2 e he r)⟩

theorem Takes.append_unrelated {a : Answers} {queue queue' : List ProductionEvent} {out out' : List Effect}
    (h : Takes a queue out queue') (h' : Unrelated out') : Takes a queue (out ++ out') queue' := by
  refine ⟨?_, fun e he r hr => ?_⟩
  · rw [received_append, h'.1, List.append_nil, h.taken]
  · rcases List.mem_append.mp he with he | he
    · exact h.records e he r hr
    · exact absurd hr (h'.2 e he r)

theorem Unrelated.append_takes {a : Answers} {queue queue' : List ProductionEvent} {out out' : List Effect}
    (h : Unrelated out) (h' : Takes a queue out' queue') : Takes a queue (out ++ out') queue' := by
  refine ⟨?_, fun e he r hr => ?_⟩
  · rw [received_append, h.1, List.nil_append, h'.taken]
  · rcases List.mem_append.mp he with he | he
    · exact absurd hr (h.2 e he r)
    · exact h'.records e he r hr

theorem unrelated_ntpLoop {now : Int64} {polls : List (Bool × Int64)} {effects : List Effect}
    (h : ntpLoop now polls = some effects) : Unrelated (.time now :: effects) := by
  rw [ntpLoop_eq h]
  refine ⟨?_, fun e he r hr => ?_⟩
  · apply List.filterMap_eq_nil_iff.mpr
    intro e he
    rcases List.mem_cons.mp he with rfl | he
    · rfl
    · obtain ⟨date, -, he⟩ := List.mem_flatMap.mp he
      rcases List.mem_pair.mp he with rfl | rfl
      · rfl
      · rfl
  · rcases List.mem_cons.mp he with rfl | he
    · exact hr
    · obtain ⟨date, -, he⟩ := List.mem_flatMap.mp he
      rcases List.mem_pair.mp he with rfl | rfl
      · exact hr
      · exact hr

theorem unrelated_flushLoop (a : Answers) (left count : Nat) (unread : List UInt8) :
    Unrelated (flushLoop a left count unread).1 := by
  induction left generalizing count unread with
  | zero => exact unrelated_nil
  | succ left ih =>
    rw [flushLoop]
    split
    · split
      · obtain ⟨hreceived, hdates⟩ := ih (count + 1) (unread.drop spooledEvent.size)
        exact ⟨hreceived, List.forall_mem_cons.mpr ⟨fun _ => id, hdates⟩⟩
      · exact unrelated_nil
    · exact unrelated_nil

theorem unrelated_flushSpool (a : Answers) (spool : Option (List UInt8)) : Unrelated (flushSpool a spool).effects := by
  unfold flushSpool
  split
  · exact unrelated_nil
  · rename_i bytes
    split
    · have hloop := unrelated_flushLoop a flushChunk 0 bytes
      rcases hflush : flushLoop a flushChunk 0 bytes with ⟨published, count, unread⟩
      rw [hflush] at hloop
      have hpause : Unrelated (if 0 < count then [.delay 50] else []) := by
        split
        · exact ⟨rfl, List.forall_mem_singleton.mpr fun _ => id⟩
        · exact unrelated_nil
      have hremove : Unrelated [.remove] := ⟨rfl, List.forall_mem_singleton.mpr fun _ => id⟩
      dsimp only at hloop ⊢
      split
      · exact hloop.append (hremove.append hpause)
      · exact hloop.append hpause
    · exact unrelated_nil

theorem takes_publishLive (a : Answers) (queue : List ProductionEvent) :
    Takes a queue (publishLive a queue).2 (publishLive a queue).1 := by
  cases queue with
  | nil => exact unrelated_nil.takes a []
  | cons event queue =>
    refine ⟨rfl, fun e he r hr => ?_⟩
    rcases List.mem_pair.mp he with rfl | rfl
    · exact absurd hr id
    · exact ⟨event, queue, rfl, hr.symm⟩

theorem takes_spoolOffline (a : Answers) (n : Node) :
    Takes a n.productionEventQueue (spoolOffline a n).2 (spoolOffline a n).1.productionEventQueue := by
  unfold spoolOffline
  split
  · exact unrelated_nil.takes a _
  · split
    · exact unrelated_nil.takes a _
    · rename_i event queue hqueue
      split
      · refine ⟨hqueue.symm, fun e he r hr => ?_⟩
        rcases List.mem_pair.mp he with rfl | rfl
        · exact absurd hr id
        · exact ⟨event, queue, hqueue, hr.symm⟩
      · refine ⟨hqueue.symm, fun e he r hr => ?_⟩
        rw [List.mem_singleton.mp he] at hr
        exact absurd hr id

theorem takes_connected (a : Answers) (n : Node) :
    Takes a n.productionEventQueue (connected a n).2 (connected a n).1.productionEventQueue ∧
      (a.mqttConnected = false → connected a n = ({ n with currentState := .connectingMqtt, lastMqttRetryMs := a.millis 1 }, [])) ∧
      (a.mqttConnected = true → (connected a n).1.currentState = n.currentState) := by
  unfold connected
  split
  · rename_i hup
    have hflush := unrelated_flushSpool a n.spool
    refine ⟨?_, fun hdown => absurd (hup.symm.trans hdown) nofun, fun _ => ?_⟩
    · dsimp only
      split
      · exact hflush.takes a _
      · exact hflush.append_takes (takes_publishLive a _)
    · dsimp only
      split
      · rfl
      · rfl
  · rename_i hdown
    exact ⟨unrelated_nil.takes a _, fun _ => rfl, fun hup => absurd hup hdown⟩

theorem disconnected_queue (a : Answers) (n : Node) : (disconnected a n).productionEventQueue = n.productionEventQueue := by
  unfold disconnected
  split
  · rfl
  · rfl

theorem connectingWifi_queue (a : Answers) (n : Node) :
    (connectingWifi a n).productionEventQueue = n.productionEventQueue := by
  unfold connectingWifi
  split
  · rfl
  · split
    · rfl
    · rfl

theorem syncVisit_queue {a : Answers} {n m : Node} {out : List Effect} (h : SyncVisit a n m out) :
    Unrelated out ∧ m.productionEventQueue = n.productionEventQueue := by
  cases h with
  | up hloop => exact ⟨unrelated_ntpLoop hloop, rfl⟩
  | down hloop => exact ⟨unrelated_ntpLoop hloop, rfl⟩

theorem connectingMqtt_queue (a : Answers) (n : Node) :
    Unrelated (connectingMqtt a n).2 ∧ (connectingMqtt a n).1.productionEventQueue = n.productionEventQueue := by
  unfold connectingMqtt
  split
  · split
    · exact ⟨⟨rfl, List.forall_mem_singleton.mpr fun _ => id⟩, rfl⟩
    · exact ⟨unrelated_nil, rfl⟩
  · exact ⟨unrelated_nil, rfl⟩

/-- Either the `switch` takes nothing, or it is over with the queue for this pass. -/
theorem takes_switchState {a : Answers} {n m : Node} {out : List Effect} (h : switchState a n = some (m, out)) :
    (Unrelated out ∧ m.productionEventQueue = n.productionEventQueue) ∨
      (m.currentState = .connected ∧ Takes a n.productionEventQueue out m.productionEventQueue) := by
  cases switchState_inv h with
  | disconnected => exact .inl ⟨unrelated_nil, disconnected_queue a n⟩
  | connectingWifi => exact .inl ⟨unrelated_nil, connectingWifi_queue a n⟩
  | syncingTime _ hvisit => exact .inl (syncVisit_queue hvisit)
  | connectingMqtt => exact .inl (connectingMqtt_queue a n)
  | connected hstate =>
    obtain ⟨htakes, hdown, hup⟩ := takes_connected a n
    cases hmqtt : a.mqttConnected with
    | false =>
      rw [hdown hmqtt]
      exact .inl ⟨unrelated_nil, rfl⟩
    | true => exact .inr ⟨(hup hmqtt).trans hstate, htakes⟩

theorem checkWifi_queue (a : Answers) (n : Node) : (checkWifi a n).productionEventQueue = n.productionEventQueue := by
  unfold checkWifi
  split
  · rfl
  · rfl

/-- **A pass** takes from the front of the queue, and what it dates is the event at the front. -/
theorem takes_pass {a : Answers} {n n' : Node} {out : List Effect} (h : pass n a = some (n', out)) :
    Takes a n.productionEventQueue out n'.productionEventQueue := by
  obtain ⟨m, switched, hswitch, rfl, rfl⟩ := pass_cases h
  have hreset : Unrelated [.wdtReset] := ⟨rfl, List.forall_mem_singleton.mpr fun _ => id⟩
  have hdelay : Unrelated [.delay 100] := ⟨rfl, List.forall_mem_singleton.mpr fun _ => id⟩
  rw [← checkWifi_queue a n]
  rcases takes_switchState hswitch with ⟨hunrelated, hqueue⟩ | ⟨hconn, htakes⟩
  · rw [← hqueue]
    exact ((hreset.append hunrelated).append_takes (takes_spoolOffline a m)).append_unrelated hdelay
  · have hnone : spoolOffline a m = (m, []) := by
      unfold spoolOffline
      rw [if_pos hconn]
    rw [hnone]
    exact ((hreset.append_takes htakes).append_unrelated unrelated_nil).append_unrelated hdelay

/-! ## Runs -/

theorem accepted_append {n m : Node} {inputs : List Input} {h : List Effect}
    (hrun : networking.run n inputs = some (m, h)) (more : List Input) :
    accepted n (inputs ++ more) = accepted n inputs ++ accepted m more := by
  induction inputs generalizing n h with
  | nil =>
    cases hrun
    rfl
  | cons input inputs ih =>
    obtain ⟨t, out, outs, hstep, hrest, -⟩ := networking.run_cons_iff.mp hrun
    rw [List.cons_append, accepted, accepted, hstep, List.append_assoc]
    dsimp only
    rw [ih hrest]

/-- What the interrupt puts into the queue. -/
theorem inputISR_queue (n : Node) (currentTime : Int64) :
    ((inputISR n currentTime).productionEventQueue).map ProductionEvent.timestamp =
      n.productionEventQueue.map ProductionEvent.timestamp ++
        (acceptedNow n (.isr currentTime)).map stamp := by
  unfold inputISR acceptedNow xQueueSendFromISR
  dsimp only
  by_cases hdebounced : currentTime - n.lastInterruptTime ≥ 50000
  · rw [if_pos hdebounced]
    dsimp only
    by_cases hroom : n.productionEventQueue.length < queueLength
    · rw [if_pos hroom, if_pos ⟨hdebounced, hroom⟩, List.map_append]
      rfl
    · rw [if_neg hroom, if_neg fun hboth => hroom hboth.2]
      exact (List.append_nil _).symm
  · rw [if_neg hdebounced, if_neg fun hboth => hdebounced hboth.1]
    exact (List.append_nil _).symm

/-- **Order of the queue**: the events taken and those that wait are the ones accepted, with their times. -/
theorem received_append_queue (spool : Option (List UInt8)) (inputs : List Input) (n : Node) (h : List Effect)
    (hrun : networking.run (Node.boot spool) inputs = some (n, h)) :
    (received h ++ n.productionEventQueue).map ProductionEvent.timestamp =
      (accepted (Node.boot spool) inputs).map stamp := by
  apply networking.run_snoc_induction
    (I := fun as h n => (received h ++ n.productionEventQueue).map ProductionEvent.timestamp =
      (accepted (Node.boot spool) as).map stamp)
    rfl ?_ (networking.along_true _ inputs) hrun
  intro as h n input n' out hrun heq _ hstep
  have hone : accepted n [input] = acceptedNow n input := by
    rw [accepted, hstep]
    exact List.append_nil _
  have hstamps : (accepted (Node.boot spool) as ++ acceptedNow n input).map stamp =
      (accepted (Node.boot spool) as).map stamp ++ (acceptedNow n input).map stamp := List.map_append
  rw [accepted_append hrun, hone, hstamps, ← heq, received_append]
  cases input with
  | isr currentTime =>
    cases hstep
    show List.map _ (received h ++ [] ++ (inputISR n currentTime).productionEventQueue) = _
    rw [List.append_nil, List.map_append, inputISR_queue, List.map_append, List.append_assoc]
  | pass a =>
    rw [List.append_assoc, (takes_pass hstep).taken]
    exact (List.append_nil _).symm

/-- **Dates**: the record under which an event is published live or spooled has the right date exactly when the event was
accepted in the first 2 ^ 32 ms. The pass takes the event that follows those received, and this is the time it was accepted
at. -/
theorem event_time_iff (spool : Option (List UInt8)) (inputs : List Input) (a : Answers) (n n' : Node)
    (h out : List Effect) (hrun : networking.run (Node.boot spool) inputs = some (n, h))
    (hpass : networking.step n (.pass a) = some (n', out)) :
    ∀ effect ∈ out, ∀ r, effect.Dates r →
      ∃ e, (accepted (Node.boot spool) inputs)[(received h).length]? = some e ∧
        (0 ≤ e → e ≤ a.bootUs → (RightDate a e r ↔ (e / 1000).toInt < 2 ^ 32)) := by
  intro effect heffect r hdates
  obtain ⟨event, rest, hqueue, rfl⟩ := (takes_pass hpass).records effect heffect r hdates
  have heq := received_append_queue spool inputs n h hrun
  rw [hqueue] at heq
  have hget := congrArg (fun stamps => stamps[(received h).length]?) heq
  rw [List.getElem?_map, List.getElem?_append_right (Nat.le_refl _), Nat.sub_self, List.getElem?_map] at hget
  obtain ⟨e, he, hstamp⟩ := Option.map_eq_some_iff.mp hget.symm
  exact ⟨e, he, fun hpos hle => rightDate_iff a hstamp.symm hpos hle⟩

/-- An edge after 60 ms, taken after 3070 ms. -/
theorem event_time_online :
    ∃ n h n' out, networking.run (Node.boot none) (connecting ++ [edge]) = some (n, h) ∧
      networking.step n (.pass { allWell with bootUs := 3070000 }) = some (n', out) ∧
      .publish .live ⟨1, year2025 - 3⟩ true ∈ out ∧
      RightDate { allWell with bootUs := 3070000 } 60000 ⟨1, year2025 - 3⟩ := by
  have hrun : ∃ n h, networking.run (Node.boot none) (connecting ++ [edge]) = some (n, h) ∧ (received h).length = 0 ∧
      ∃ n' out, networking.step n (.pass { allWell with bootUs := 3070000 }) = some (n', out) ∧
      .publish .live ⟨1, year2025 - 3⟩ true ∈ out := by
    refine ⟨_, _, rfl, rfl, _, _, rfl, ?_⟩
    decide +kernel
  obtain ⟨n, h, hrun, hfirst, n', out, hpass, hmem⟩ := hrun
  obtain ⟨e, he, hiff⟩ := event_time_iff none (connecting ++ [edge]) _ n n' h out hrun hpass _ hmem ⟨1, year2025 - 3⟩ rfl
  have haccepted : accepted (Node.boot none) (connecting ++ [edge]) = [60000] := by decide +kernel
  rw [haccepted, hfirst] at he
  obtain rfl : 60000 = e := Option.some.inj he
  exact ⟨n, h, n', out, hrun, hpass, hmem, (hiff (by decide) (by decide)).mpr (by decide)⟩

/-- An edge 2 ^ 32 ms after boot, taken at once, is dated 4294967 seconds too early. -/
theorem event_after_wrap :
    ∃ n h n' out, networking.run (Node.boot none) (connecting ++ [.isr 4294967296000]) = some (n, h) ∧
      accepted (Node.boot none) (connecting ++ [.isr 4294967296000]) = [4294967296000] ∧
      networking.step n (.pass { allWell with bootUs := 4294967296000 }) = some (n', out) ∧
      .publish .live ⟨1, year2025 - 4294967⟩ true ∈ out ∧
      ¬ RightDate { allWell with bootUs := 4294967296000 } 4294967296000 ⟨1, year2025 - 4294967⟩ := by
  refine ⟨_, _, _, _, rfl, by decide +kernel, rfl, by decide +kernel, ?_⟩
  unfold RightDate
  decide +kernel

end IbarraGateway.Norvi
