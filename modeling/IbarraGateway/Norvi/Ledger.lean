import IbarraGateway.Norvi.Replay

/-!
# No event is lost between queue, file and broker

An event taken from the queue must be accepted by the broker or wait in `/spool.dat`. The books are kept for each cycle
count: a step *carries* the events when what it takes, together with what the file held, is covered by what it delivers
and what the file holds afterwards.

Two places hand an event over without looking at the outcome: the live publication, and the flush that ends with the
removal of the file. `PublishesLand` is the condition that neither of them fails; under it every run carries the events.
-/

namespace IbarraGateway.Norvi

/-! ## The books -/

/-- Events with cycle count `c` taken from the queue. -/
def takenOf (c : UInt32) (h : List Effect) : Nat :=
  h.countP fun
    | .receive event => event.cycleCount = c
    | _ => false

/-- Accepted publications of a record with cycle count `c`; the greeting on connect is none. -/
def deliveredOf (c : UInt32) (h : List Effect) : Nat :=
  h.countP fun
    | .publish origin r accepted => origin ≠ .status ∧ r.cycleCount = c ∧ accepted
    | _ => false

/-- Records with cycle count `c` in the file. -/
def keptOf (c : UInt32) (n : Node) : Nat := n.spooled.countP fun r => r.cycleCount = c

/-- What a stretch of the run takes, and what the file held before it, is covered by what it delivers and what the file
holds after it. -/
def Carries (n : Node) (out : List Effect) (n' : Node) : Prop :=
  ∀ c, takenOf c out + keptOf c n ≤ deliveredOf c out + keptOf c n'

/-- Every event taken from the queue has been accepted by the broker or is a record of the file; and none stands in for
another, nor for a record the file held at the start (`books`). -/
structure NoEventLost (n : Node) (h : List Effect) (n' : Node) : Prop where
  event : ∀ event, .receive event ∈ h →
    (∃ origin r, origin ≠ .status ∧ .publish origin r true ∈ h ∧ r.cycleCount = event.cycleCount) ∨
      ∃ r ∈ n'.spooled, r.cycleCount = event.cycleCount
  books : Carries n h n'

@[simp] theorem takenOf_append (c : UInt32) (h h' : List Effect) :
    takenOf c (h ++ h') = takenOf c h + takenOf c h' := List.countP_append

@[simp] theorem deliveredOf_append (c : UInt32) (h h' : List Effect) :
    deliveredOf c (h ++ h') = deliveredOf c h + deliveredOf c h' := List.countP_append

theorem Carries.trans {n₁ n₂ n₃ : Node} {out out' : List Effect} (h : Carries n₁ out n₂) (h' : Carries n₂ out' n₃) :
    Carries n₁ (out ++ out') n₃ := by
  intro c
  have h₁ := h c
  have h₂ := h' c
  rw [takenOf_append, deliveredOf_append]
  omega

/-- Effects that neither take an event nor hand one over. -/
def Neutral (out : List Effect) : Prop :=
  ∀ e ∈ out, (∀ event, e ≠ .receive event) ∧ ∀ origin r accepted, e = .publish origin r accepted → origin = .status

theorem Neutral.taken {out : List Effect} (h : Neutral out) (c : UInt32) : takenOf c out = 0 := by
  rw [takenOf, List.countP_eq_zero]
  intro e he
  cases e with
  | receive event => exact absurd rfl ((h _ he).1 event)
  | _ => simp

/-- Neutral effects around a file that keeps its records carry the events. -/
theorem Neutral.carries {n n' : Node} {out : List Effect} (h : Neutral out) (hs : n'.spool = n.spool) :
    Carries n out n' := by
  intro c
  rw [h.taken c, keptOf, keptOf, Node.spooled, Node.spooled, hs]
  omega

theorem neutral_nil : Neutral [] := fun _ he => absurd he List.not_mem_nil

/-- Carried events are not lost. -/
theorem Carries.noEventLost {n n' : Node} {h : List Effect} (hc : Carries n h n') : NoEventLost n h n' := by
  refine ⟨fun event hmem => ?_, hc⟩
  have hpos : 0 < takenOf event.cycleCount h := List.countP_pos_iff.mpr ⟨_, hmem, by simp⟩
  have hsum := hc event.cycleCount
  rcases Nat.eq_zero_or_pos (deliveredOf event.cycleCount h) with hzero | hdel
  · right
    have hkept : 0 < keptOf event.cycleCount n' := by omega
    obtain ⟨r, hr, heq⟩ := List.countP_pos_iff.mp hkept
    exact ⟨r, hr, by simpa using heq⟩
  · left
    obtain ⟨e, he, hpub⟩ := List.countP_pos_iff.mp hdel
    cases e with
    | publish origin r accepted =>
      simp only [decide_eq_true_eq] at hpub
      obtain ⟨horigin, hcycle, rfl⟩ := hpub
      exact ⟨origin, r, horigin, he, hcycle⟩
    | _ => simp at hpub

/-! ## The conditions -/

/-- The write of a record to the file succeeds. -/
def AppendsLand (a : Answers) : Prop := a.openSpoolAppend = true ∧ a.written = spooledEvent.size

/-- The pass gets to the connected branch with the broker on the line. -/
def ReachesBroker (n : Node) (a : Answers) : Prop :=
  n.currentState = .connected ∧ a.wifiHead = true ∧ a.mqttConnected = true

/-- The pass reads the file to its end, and so removes it. -/
def EndsSpool (n : Node) (a : Answers) : Prop :=
  ∀ bytes, n.spool = some bytes → a.openSpoolRead = true → Short bytes

/-- No publication fails on whose failure the code drops the record: those of a flush that reads a short file to the end,
and that of an event taken from the queue. -/
structure PublishesLand (n : Node) (a : Answers) : Prop where
  spooled : ReachesBroker n a → a.openSpoolRead = true → ∀ bytes, n.spool = some bytes → Short bytes →
    ∀ i < (spooledEvent.records bytes).length, a.publishSpooled i = true
  live : ReachesBroker n a → EndsSpool n a → n.productionEventQueue ≠ [] → a.publishLive = true

/-! ## The parts of a pass -/

theorem checkWifi_frame (a : Answers) (n : Node) :
    (checkWifi a n).spool = n.spool ∧ (checkWifi a n).ntpSynced = n.ntpSynced := by
  unfold checkWifi
  split
  · exact ⟨rfl, rfl⟩
  · exact ⟨rfl, rfl⟩

/-- The connected branch is reached from a connected node only, with the Wi-Fi up. -/
theorem checkWifi_connected {a : Answers} {n : Node} (h : (checkWifi a n).currentState = .connected) :
    checkWifi a n = n ∧ n.currentState = .connected ∧ a.wifiHead = true := by
  unfold checkWifi at h ⊢
  split at h
  · cases h
  · rename_i hup
    rw [if_neg hup]
    refine ⟨rfl, h, ?_⟩
    rw [h] at hup
    simpa using hup

theorem ntpLoop_neutral {now : Int64} {polls : List (Bool × Int64)} {effects : List Effect}
    (h : ntpLoop now polls = some effects) : Neutral effects := by
  rw [ntpLoop_eq h]
  intro e he
  obtain ⟨date, -, he⟩ := List.mem_flatMap.mp he
  rcases List.mem_pair.mp he with rfl | rfl
  · simp
  · simp

/-- The case leaves the file alone and hands nothing over. -/
structure LeavesAlone (n : Node) (r : Node × List Effect) : Prop where
  neutral : Neutral r.2
  spool : r.1.spool = n.spool
  synced : n.ntpSynced = true → r.1.ntpSynced = true

theorem disconnected_leaves (a : Answers) (n : Node) : LeavesAlone n (disconnected a n, []) := by
  unfold disconnected
  split
  · exact ⟨neutral_nil, rfl, id⟩
  · exact ⟨neutral_nil, rfl, id⟩

theorem connectingWifi_leaves (a : Answers) (n : Node) : LeavesAlone n (connectingWifi a n, []) := by
  unfold connectingWifi
  split
  · exact ⟨neutral_nil, rfl, id⟩
  split
  · exact ⟨neutral_nil, rfl, id⟩
  · exact ⟨neutral_nil, rfl, id⟩

theorem syncVisit_leaves {a : Answers} {n m : Node} {out : List Effect} (h : SyncVisit a n m out) : LeavesAlone n (m, out) := by
  have hneutral : ∀ {effects}, ntpLoop a.firstTime a.ntpPolls = some effects → Neutral (.time a.firstTime :: effects) :=
    fun hloop => List.forall_mem_cons.mpr ⟨by simp, ntpLoop_neutral hloop⟩
  cases h with
  | up hloop => exact ⟨hneutral hloop, rfl, fun _ => rfl⟩
  | down hloop => exact ⟨hneutral hloop, rfl, id⟩

theorem connectingMqtt_leaves (a : Answers) (n : Node) : LeavesAlone n (connectingMqtt a n) := by
  unfold connectingMqtt
  split
  · split
    · exact ⟨List.forall_mem_singleton.mpr (by simp), rfl, id⟩
    · exact ⟨neutral_nil, rfl, id⟩
  · exact ⟨neutral_nil, rfl, id⟩

theorem switchState_offline {a : Answers} {n : Node} {r : Node × List Effect} (hoff : n.currentState ≠ .connected)
    (h : switchState a n = some r) : LeavesAlone n r := by
  obtain ⟨m, out⟩ := r
  cases switchState_inv h with
  | connected hstate => exact absurd hstate hoff
  | disconnected => exact disconnected_leaves a n
  | connectingWifi => exact connectingWifi_leaves a n
  | syncingTime _ hvisit => exact syncVisit_leaves hvisit
  | connectingMqtt => exact connectingMqtt_leaves a n

/-! ## The file keeps to whole records -/

/-- The flush keeps the file or removes it. -/
theorem flushSpool_spool (a : Answers) (spool : Option (List UInt8)) :
    (flushSpool a spool).spool = spool ∨ (flushSpool a spool).spool = none := by
  cases spool with
  | none => exact Or.inl rfl
  | some bytes =>
    unfold flushSpool
    dsimp only
    split
    · split
      · dsimp only
        split
        · exact Or.inr rfl
        · exact Or.inl rfl
      · exact Or.inl rfl
    · exact Or.inl rfl

theorem connected_spool (a : Answers) (n : Node) :
    (connected a n).1.spool = n.spool ∨ (connected a n).1.spool = none := by
  unfold connected
  dsimp only
  split
  · split
    · exact flushSpool_spool a n.spool
    · exact flushSpool_spool a n.spool
  · exact Or.inl rfl

theorem switchState_whole {a : Answers} {n n' : Node} {out : List Effect} (hwhole : n.SpoolWhole)
    (h : switchState a n = some (n', out)) : n'.SpoolWhole := by
  have hspool : n'.spool = n.spool ∨ n'.spool = none := by
    by_cases hconn : n.currentState = .connected
    · rw [switchState, hconn] at h
      have hresult : (connected a n).1 = n' := congrArg Prod.fst (Option.some.inj h)
      rw [← hresult]
      exact connected_spool a n
    · exact Or.inl (switchState_offline hconn h).spool
  intro bytes hb
  rcases hspool with hs | hs
  · exact hwhole bytes (hs ▸ hb)
  · rw [hs] at hb
    cases hb

/-- A complete append to whole records, to a new file as to an old one. -/
theorem whole_getD {n : Node} (hwhole : n.SpoolWhole) : spooledEvent.Whole (n.spool.getD []) := by
  cases hs : n.spool with
  | none => exact spooledEvent.whole_nil
  | some bytes => exact hwhole bytes hs

theorem encode_take {a : Answers} (hland : AppendsLand a) (r : SpooledEvent) :
    (spooledEvent.encode r).take a.written = spooledEvent.encode r :=
  List.take_of_length_le (by rw [hland.2, spooledEvent.length_encode])

theorem spoolOffline_whole {a : Answers} {n : Node} (hwhole : n.SpoolWhole) (hland : AppendsLand a) :
    (spoolOffline a n).1.SpoolWhole := by
  unfold spoolOffline
  split
  · exact hwhole
  · split
    · exact hwhole
    · split
      · intro bytes hb
        rw [encode_take hland] at hb
        cases hb
        exact spooledEvent.whole_append_encode (whole_getD hwhole) _
      · exact hwhole

theorem pass_whole {a : Answers} {n n' : Node} {out : List Effect} (hwhole : n.SpoolWhole) (hland : AppendsLand a)
    (h : pass n a = some (n', out)) : n'.SpoolWhole := by
  obtain ⟨m, switched, hswitch, rfl, -⟩ := pass_cases h
  exact spoolOffline_whole
    (switchState_whole (fun bytes hb => hwhole bytes ((checkWifi_frame a n).1 ▸ hb)) hswitch) hland

/-! ## The flush and the live queue -/

theorem takenOf_published (c : UInt32) (a : Answers) (records : List SpooledEvent) :
    takenOf c (published a records) = 0 := by
  rw [takenOf, List.countP_eq_zero]
  intro e he
  obtain ⟨i, hi, rfl⟩ := List.mem_mapIdx.mp he
  simp

theorem deliveredOf_published {c : UInt32} {a : Answers} {records : List SpooledEvent}
    (h : ∀ i < records.length, a.publishSpooled i = true) :
    deliveredOf c (published a records) = records.countP fun r => r.cycleCount = c := by
  rw [published_eq_map h, deliveredOf, List.countP_map]
  apply List.countP_congr
  intro r _
  simp

theorem neutral_pause {pause : List Effect} (h : ∀ e ∈ pause, e = .delay 50) : Neutral pause := by
  intro e he
  rw [h e he]
  simp

/-- The flush hands over what it removes. -/
theorem flushSpool_carries {a : Answers} {n : Node} (hwhole : n.SpoolWhole)
    (hland : a.openSpoolRead = true → ∀ bytes, n.spool = some bytes → Short bytes →
      ∀ i < (spooledEvent.records bytes).length, a.publishSpooled i = true) :
    Carries n (flushSpool a n.spool).effects { n with spool := (flushSpool a n.spool).spool } ∧
      ((flushSpool a n.spool).isSpoolPending = false → EndsSpool n a) := by
  cases hs : n.spool with
  | none => exact ⟨neutral_nil.carries hs.symm, fun _ => by simp [EndsSpool, hs]⟩
  | some bytes =>
    cases hopen : a.openSpoolRead with
    | false =>
      have hflush : flushSpool a (some bytes) = ⟨some bytes, false, []⟩ := by
        rw [flushSpool, if_neg (by rw [hopen]; decide)]
      rw [hflush]
      exact ⟨neutral_nil.carries hs.symm, fun _ _ _ h => absurd h (by rw [hopen]; decide)⟩
    | true =>
      obtain ⟨pause, hpause, hflush⟩ := flushSpool_whole a bytes (hwhole bytes hs) hopen
      have hquiet : ∀ c, takenOf c pause = 0 := (neutral_pause hpause).taken
      rw [hflush]
      by_cases hshort : Short bytes
      · rw [if_pos hshort]
        refine ⟨fun c => ?_, fun _ b hb _ => ?_⟩
        · have hdel := deliveredOf_published (c := c) (hland hopen bytes hs hshort)
          have hkept : keptOf c n = (spooledEvent.records bytes).countP fun r => r.cycleCount = c := by
            rw [keptOf, Node.spooled, hs]
          have hremove : takenOf c (.remove :: pause) = 0 := by
            rw [← List.singleton_append, takenOf_append, hquiet]
            rfl
          rw [takenOf_append, takenOf_published, hremove, deliveredOf_append, hdel, hkept]
          omega
        · rw [hs] at hb
          cases hb
          exact hshort
      · rw [if_neg hshort]
        refine ⟨fun c => ?_, fun h => absurd h (by simp)⟩
        have hkept : keptOf c { n with spool := some bytes } = keptOf c n := by
          rw [keptOf, keptOf, Node.spooled, Node.spooled, hs]
        rw [takenOf_append, takenOf_published, hquiet, hkept]
        omega

/-- The live publication hands over the event it takes. -/
theorem publishLive_carries {a : Answers} {n n' : Node} (hs : n'.spool = n.spool)
    (hland : n.productionEventQueue ≠ [] → a.publishLive = true) :
    Carries n (publishLive a n.productionEventQueue).2 n' := by
  cases hq : n.productionEventQueue with
  | nil => exact neutral_nil.carries hs
  | cons event queue =>
    have hok := hland (by rw [hq]; simp)
    intro c
    have hkept : keptOf c n' = keptOf c n := by rw [keptOf, keptOf, Node.spooled, Node.spooled, hs]
    rw [hkept, publishLive, hok]
    simp only [takenOf, deliveredOf, List.countP_cons, List.countP_nil, recordOf]
    simp

/-- The connected branch carries the events. -/
theorem connected_carries {a : Answers} {n : Node} (hwhole : n.SpoolWhole) (hconn : n.currentState = .connected)
    (hwifi : a.wifiHead = true) (hland : PublishesLand n a) :
    Carries n (connected a n).2 (connected a n).1 ∧ (connected a n).1.ntpSynced = n.ntpSynced := by
  cases hmqtt : a.mqttConnected with
  | false =>
    rw [connected, if_neg (by rw [hmqtt]; decide)]
    exact ⟨neutral_nil.carries rfl, rfl⟩
  | true =>
    have hreach : ReachesBroker n a := ⟨hconn, hwifi, hmqtt⟩
    obtain ⟨hflush, hends⟩ := flushSpool_carries (a := a) hwhole (hland.spooled hreach)
    rw [connected, if_pos hmqtt]
    dsimp only
    cases hpending : (flushSpool a n.spool).isSpoolPending with
    | true => exact ⟨hflush, rfl⟩
    | false =>
      refine ⟨hflush.trans ?_, rfl⟩
      exact publishLive_carries (n := { n with spool := (flushSpool a n.spool).spool }) rfl
        (hland.live hreach (hends hpending))

/-- The offline spooling puts the event it takes into the file. -/
theorem spoolOffline_carries {a : Answers} {n : Node} (hwhole : n.SpoolWhole) (hsync : n.ntpSynced = true)
    (hland : AppendsLand a) :
    Carries n (spoolOffline a n).2 (spoolOffline a n).1 ∧ (spoolOffline a n).1.ntpSynced = true := by
  unfold spoolOffline
  split
  · exact ⟨neutral_nil.carries rfl, hsync⟩
  · split
    · exact ⟨neutral_nil.carries rfl, hsync⟩
    · rename_i event queue _
      have hspooled : n.spooled = spooledEvent.records (n.spool.getD []) := by
        cases hs : n.spool with
        | none => simp [Node.spooled, hs]
        | some bytes => simp [Node.spooled, hs]
      rw [if_pos ⟨hsync, hland.1⟩, encode_take hland]
      refine ⟨fun c => ?_, hsync⟩
      rw [keptOf, keptOf, hspooled]
      simp only [Node.spooled, spooledEvent.records_append (whole_getD hwhole), spooledEvent.records_encode,
        List.countP_append]
      simp only [takenOf, deliveredOf, List.countP_cons, List.countP_nil, recordOf]
      simp
      omega

/-! ## Runs -/

/-- What the networking task keeps up once the clock is synchronised. -/
structure Synced (n : Node) : Prop where
  whole : n.SpoolWhole
  synced : n.ntpSynced = true

/-- **Step.** A pass whose writes and decisive publications succeed carries the events. -/
theorem pass_carries {a : Answers} {n n' : Node} {out : List Effect} (hn : Synced n) (happend : AppendsLand a)
    (hland : PublishesLand n a) (hpass : pass n a = some (n', out)) : Carries n out n' ∧ Synced n' := by
  obtain ⟨m, switched, hswitch, rfl, rfl⟩ := pass_cases hpass
  obtain ⟨hspool, hsynced⟩ := checkWifi_frame a n
  have hwhole : (checkWifi a n).SpoolWhole := fun bytes hb => hn.whole bytes (hspool ▸ hb)
  have hhead : Carries n [.wdtReset] (checkWifi a n) :=
    Neutral.carries (List.forall_mem_singleton.mpr (by simp)) hspool
  have hmid : Carries (checkWifi a n) switched m ∧ m.ntpSynced = true := by
    by_cases hconn : (checkWifi a n).currentState = .connected
    · obtain ⟨heq, hstate, hwifi⟩ := checkWifi_connected hconn
      rw [switchState, hconn] at hswitch
      have hresult := Option.some.inj hswitch
      obtain ⟨hc, hsy⟩ := connected_carries hwhole hconn hwifi (heq.symm ▸ hland)
      rw [hresult] at hc hsy
      exact ⟨hc, by rw [hsy, hsynced, hn.synced]⟩
    · obtain ⟨hneutral, hs, hsy⟩ := switchState_offline hconn hswitch
      exact ⟨hneutral.carries hs, hsy (by rw [hsynced, hn.synced])⟩
  obtain ⟨hc, hsy⟩ := spoolOffline_carries (switchState_whole hwhole hswitch) hmid.2 happend
  have hfile := pass_whole hn.whole happend hpass
  refine ⟨?_, hfile, hsy⟩
  have hall := (hhead.trans hmid.1).trans hc
  exact hall.trans (Neutral.carries (List.forall_mem_singleton.mpr (by simp)) rfl)

theorem isr_carries {n : Node} (currentTime : Int64) (hn : Synced n) :
    Carries n [] (inputISR n currentTime) ∧ Synced (inputISR n currentTime) := by
  refine ⟨neutral_nil.carries (inputISR_spool n currentTime), fun bytes hb => ?_, ?_⟩
  · rw [inputISR_spool] at hb
    exact hn.whole bytes hb
  · rw [inputISR_ntpSynced]
    exact hn.synced

/-- The condition on one step: no publication fails on whose failure the code drops a record. -/
def Input.PublishesLand (n : Node) : Input → Prop
  | .isr _ => True
  | .pass a => Norvi.PublishesLand n a

/-- The condition on one step: the append of a record succeeds. -/
def Input.AppendsLand : Input → Prop
  | .isr _ => True
  | .pass a => Norvi.AppendsLand a

/-- **Run.** While the writes and the decisive publications succeed, a run carries the events. -/
theorem run_carries {n n' : Node} {inputs : List Input} {h : List Effect} (hn : Synced n)
    (happend : ∀ input ∈ inputs, input.AppendsLand) (hland : networking.Along Input.PublishesLand n inputs)
    (hrun : networking.run n inputs = some (n', h)) : Carries n h n' := by
  refine networking.run_compose (I := Synced) (fun _ => neutral_nil.carries rfl) Carries.trans ?_ hn
    (hland.and (networking.along_of_mem happend n)) hrun
  intro m input m' out hm hok hstep
  cases input with
  | isr currentTime =>
    cases hstep
    exact (isr_carries currentTime hm).symm
  | pass a => exact (pass_carries hm hok.2 hok.1 hstep).symm

/-- From power-up on, complete appends keep the file to whole records. -/
theorem run_whole {n n' : Node} {inputs : List Input} {h : List Effect} (hn : n.SpoolWhole)
    (happend : ∀ input ∈ inputs, input.AppendsLand) (hrun : networking.run n inputs = some (n', h)) :
    n'.SpoolWhole := by
  refine networking.run_invariant (I := Node.SpoolWhole) ?_ hn (networking.along_of_mem happend n) hrun
  intro m input m' out hm hok hstep
  cases input with
  | isr currentTime =>
    cases hstep
    exact fun bytes hb => hm bytes (inputISR_spool m currentTime ▸ hb)
  | pass a => exact pass_whole hm hok hstep

/-- **No event is lost.** Power up with a file of whole records, run until the clock is synchronised, and go on from
there: while the appends succeed and no decisive publication fails, every event taken from the queue has been accepted
by the broker or waits in the file. -/
theorem no_event_lost (spool : Option (List UInt8)) (before inputs : List Input) (n n' : Node) (h₀ h : List Effect)
    (hfile : (Node.boot spool).SpoolWhole) (hbefore : networking.run (Node.boot spool) before = some (n, h₀))
    (hsync : n.ntpSynced = true) (happend : ∀ input ∈ before ++ inputs, input.AppendsLand)
    (hland : networking.Along Input.PublishesLand n inputs) (hrun : networking.run n inputs = some (n', h)) :
    NoEventLost n h n' := by
  have hn : Synced n := ⟨run_whole hfile (fun i hi => happend i (List.mem_append_left _ hi)) hbefore, hsync⟩
  exact (run_carries hn (fun i hi => happend i (List.mem_append_right _ hi)) hland hrun).noEventLost

/-- The Wi-Fi comes up, the clock is already right, the broker answers. -/
def connecting : List Input := [.pass allWell, .pass allWell, .pass allWell, .pass allWell]

/-- The state after `connecting` from an empty flash. -/
def Node.online : Node := { Node.boot none with currentState := .connected, ntpSynced := true }

theorem connecting_run : ∃ h, networking.run (Node.boot none) connecting = some (Node.online, h) := ⟨_, rfl⟩

/-- One edge of the input, 60 ms after power-up. -/
def edge : Input := .isr 60000

/-- The edge is published by the next pass. -/
theorem no_event_lost_online : ∃ h₀ n' h, networking.run (Node.boot none) connecting = some (Node.online, h₀) ∧
    networking.run Node.online [edge, .pass allWell] = some (n', h) ∧ NoEventLost Node.online h n' := by
  obtain ⟨h₀, hbefore⟩ := connecting_run
  have happend : ∀ input ∈ connecting ++ [edge, .pass allWell], input.AppendsLand := by
    intro input hinput
    simp only [connecting, edge, List.mem_append, List.mem_cons, List.not_mem_nil, or_false, or_self] at hinput
    rcases hinput with rfl | rfl | rfl
    · exact ⟨rfl, rfl⟩
    · trivial
    · exact ⟨rfl, rfl⟩
  have hland : networking.Along Input.PublishesLand Node.online [edge, .pass allWell] :=
    ⟨trivial, fun t _ _ => ⟨⟨fun _ _ _ _ _ _ _ => rfl, fun _ _ _ => rfl⟩, fun _ _ _ => trivial⟩⟩
  refine ⟨h₀, _, _, hbefore, rfl, ?_⟩
  exact no_event_lost none connecting [edge, .pass allWell] Node.online _ h₀ _ (fun _ hb => by cases hb) hbefore rfl
    happend hland rfl

/-- A platform that answers every call well, except that the publication of the live event fails. -/
def refused : Answers := { allWell with publishLive := false }

/-- The edge is taken from the queue, refused by the broker, and is nowhere after that. -/
theorem refused_event_lost :
    (∀ input ∈ [edge, .pass refused], input.AppendsLand) ∧
      ∃ h₀ n' h, networking.run (Node.boot none) connecting = some (Node.online, h₀) ∧
        networking.run Node.online [edge, .pass refused] = some (n', h) ∧
        ∃ event, .receive event ∈ h ∧ (∀ origin r, .publish origin r true ∉ h) ∧
          n'.productionEventQueue = [] ∧ n'.spooled = [] := by
  obtain ⟨h₀, hbefore⟩ := connecting_run
  refine ⟨fun input hinput => ?_, h₀, _, _, hbefore, rfl, ⟨1, 60, 18⟩, by decide, fun origin r hmem => ?_, rfl, rfl⟩
  · simp only [edge, List.mem_cons, List.not_mem_nil, or_false] at hinput
    rcases hinput with rfl | rfl
    · trivial
    · exact ⟨rfl, rfl⟩
  · have hout : ∀ e ∈ [Effect.wdtReset, .receive ⟨1, 60, 18⟩, .publish .live (recordOf refused ⟨1, 60, 18⟩) false,
        .delay 100], ∀ origin r, e ≠ .publish origin r true := by simp
    exact hout _ hmem origin r rfl

end IbarraGateway.Norvi
