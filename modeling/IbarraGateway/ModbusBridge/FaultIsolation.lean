import IbarraGateway.ModbusBridge.Attribution

/-!
# A slave that answers, and the others

A reply that is longer than the seven bytes expected leaves its tail on the line, and the next read begins with it: nothing
empties the line in front of a request.

* `isolated_iff` : the slaves that answer with a correct frame are reported exactly when what is read is a frame with that
  value; every packet has one entry for each slave, in order.
* `isolated_of_short` : so it is when no more than seven bytes are sent for a request, all of them in time.
* `tail_shifts_next` : a reply of nine bytes.
-/

namespace IbarraGateway.ModbusBridge

/-! ## What is stated -/

/-- Since the request to the slave, the slave alone has sent, and it has sent a correct frame with the value. -/
def Delivered (h : List Event) (slave : Nat) (v : UInt16) : Prop :=
  ∃ (before : List Event) (sends : List (List UInt8)), h = before ++ .requested slave :: sends.map (Event.sent slave) ∧
    sends.flatten = replyFrame (UInt8.ofNat slave) [v]

/-- The read of the reply of a slave that has answered marks it with its value. -/
def Reports (h : List Event) (b : Bridge) : Input → Prop
  | .read n => ∀ slave v b' out, b.phase = .awaiting slave → Delivered h slave v →
      bridge.step b (.read n) = some (b', out) → .marked slave ⟨UInt32.ofNat slave, v.toUInt32, .online⟩ ∈ out
  | _ => True

def Isolated (inputs : List Input) : Prop := bridge.AlongHistory Reports [] .start inputs

/-- What was marked, in order. -/
def marks (h : List Event) : List (Nat × ModbusNodeState) :=
  h.filterMap fun
    | .marked slave node => some (slave, node)
    | _ => none

/-- A packet has one entry for each of the slaves 1 to 5, in order, as they were marked last. -/
def Packed (before : List Event) : Event → Prop
  | .published publication => ∃ earlier nodes, marks before = earlier ++ nodes ∧ nodes.map Prod.fst = [1, 2, 3, 4, 5] ∧
      (∀ slave node, (slave, node) ∈ nodes → node.nodeId = UInt32.ofNat slave) ∧
      publication = (serializeToArray (nodes.map Prod.snd)).map fun wire => ⟨"novamex/linea1/telemetry", wire, 1, 3⟩
  | _ => True

def PacketsComplete (h : List Event) : Prop := Everywhere Packed h

/-- When a slave has answered, the bytes that the read gets, the first ones on the line, are a frame of some slave with its
value. -/
def Undisturbed (h : List Event) (b : Bridge) : Input → Prop
  | .read n => ∀ slave v, b.phase = .awaiting slave → Delivered h slave v →
      ∃ address, (b.line.take n).map SentByte.byte = replyFrame address [v]
  | _ => True

/-- The slaves send while a reply is awaited, at most as many bytes as are expected, and the read gets them all. -/
def Short (b : Bridge) : Input → Prop
  | .send _ bytes => (∃ slave, b.phase = .awaiting slave) ∧ b.line.length + bytes.length ≤ expectedResponse registerCount
  | .read n => n = b.line.length
  | .serialPortError => b.line = []
  | _ => True

/-! ## Correct frames -/

/-- What is marked online with a value is a frame with that value. -/
theorem nodeState_online_iff {received : List UInt8} (hlen : received.length ≤ expectedResponse registerCount) (slave : Nat)
    (v : UInt16) :
    nodeState slave (readResult (decode received)) = ⟨UInt32.ofNat slave, v.toUInt32, .online⟩ ↔
      ∃ address, received = replyFrame address [v] := by
  constructor
  · intro hnode
    cases hdecode : decode received with
    | error e =>
      rw [hdecode] at hnode
      exact absurd (congrArg ModbusNodeState.status hnode) nofun
    | ok regs =>
      obtain ⟨address, w, rfl, hframe⟩ := decode_ok hlen hdecode
      rw [hdecode] at hnode
      have hvalue : w.toUInt32 = v.toUInt32 := congrArg ModbusNodeState.cycleCount hnode
      have hsame : w = v := UInt16.toUInt32_inj.mp hvalue
      exact ⟨address, by rw [hframe, hsame]⟩
  · rintro ⟨address, rfl⟩
    rw [decode_replyFrame]
    rfl

/-! ## Packets -/

/-- The marks of the poll that is under way. -/
def marksOf (answers : Nat → ReadResult) (slaves : List Nat) : List (Nat × ModbusNodeState) :=
  slaves.map fun slave => (slave, nodeState slave (answers slave))

/-- The slaves in front of the one whose turn it is. -/
def polled : Phase → List Nat
  | .idle => []
  | .requesting slave => List.range' 1 (slave - 1)
  | .awaiting slave => List.range' 1 (slave - 1)

/-- The poll that is under way has marked the slaves so far. -/
structure Polling (h : List Event) (b : Bridge) : Prop where
  slave : ∀ slave, b.phase = .requesting slave ∨ b.phase = .awaiting slave → 1 ≤ slave ∧ slave ≤ 5
  marks : marksOf b.answers (polled b.phase) <:+ marks h

theorem Polling.start : Polling [] .start := by
  refine ⟨?_, List.nil_suffix⟩
  rintro slave (h | h) <;> cases h

theorem marks_append (h out : List Event) : marks (h ++ out) = marks h ++ marks out := List.filterMap_append

theorem marksOf_update {answers : Nat → ReadResult} {slaves : List Nat} {slave : Nat} (hslave : slave ∉ slaves)
    (result : ReadResult) : marksOf (Function.update answers slave result) slaves = marksOf answers slaves := by
  apply List.map_congr_left
  intro s hs
  have hne : s ≠ slave := fun heq => hslave (heq ▸ hs)
  rw [Function.update_of_ne hne]

/-- The next slave is marked. -/
theorem marksOf_snoc {h : List Event} {answers : Nat → ReadResult} {slave : Nat} (hpos : 1 ≤ slave)
    (hmarks : marksOf answers (List.range' 1 (slave - 1)) <:+ marks h) (result : ReadResult) :
    marksOf (Function.update answers slave result) (List.range' 1 slave) <:+
      marks (h ++ [.marked slave (nodeState slave result)]) := by
  have hrange : List.range' 1 slave = List.range' 1 (slave - 1) ++ [slave] := by
    have hconcat : List.range' 1 (slave - 1 + 1) = List.range' 1 (slave - 1) ++ [1 + 1 * (slave - 1)] := List.range'_concat
    rwa [Nat.sub_add_cancel hpos, Nat.one_mul, Nat.add_sub_cancel' hpos] at hconcat
  have hnot : slave ∉ List.range' 1 (slave - 1) := by
    rw [List.mem_range'_1]
    omega
  rw [hrange, marksOf, List.map_append, ← marksOf, marksOf_update hnot, marks_append]
  obtain ⟨earlier, hearlier⟩ := hmarks
  refine ⟨earlier, ?_⟩
  rw [← hearlier, List.append_assoc]
  show _ ++ (_ ++ [(slave, nodeState slave (Function.update answers slave result slave))]) = _
  rw [Function.update_self]
  rfl

theorem Polling.settle {h out : List Event} {b b' : Bridge} {slave : Nat} {result : ReadResult} (hpos : 1 ≤ slave)
    (hle : slave ≤ 5) (hmarks : marksOf b.answers (List.range' 1 (slave - 1)) <:+ ModbusBridge.marks h)
    (hsettle : b.settle slave result = (b', out)) :
    Polling (h ++ out) b' ∧ Everywhere (fun before e => Packed (h ++ before) e) out := by
  have hnext := marksOf_snoc hpos hmarks result
  obtain ⟨hlt, rfl, rfl⟩ | ⟨hlast, rfl, rfl⟩ := Bridge.settle_cases hsettle
  · refine ⟨⟨?_, hnext⟩, Everywhere.singleton_iff.mpr trivial⟩
    rintro s (hs | hs)
    · cases hs
      omega
    · cases hs
  · obtain rfl : slave = 5 := Nat.le_antisymm hle hlast
    refine ⟨⟨?_, List.nil_suffix⟩, ?_⟩
    · rintro s (hs | hs) <;> cases hs
    rw [Everywhere.cons_iff, Everywhere.singleton_iff]
    refine ⟨trivial, ?_⟩
    obtain ⟨earlier, hearlier⟩ := hnext
    refine ⟨earlier, _, hearlier.symm, rfl, fun s node hmem => ?_, rfl⟩
    obtain ⟨s', -, heq⟩ := List.mem_map.mp hmem
    cases heq
    exact nodeState_nodeId _ _

theorem Polling.quiet {h out : List Event} {b : Bridge} {line : List SentByte} {asked : Nat → Bool} {phase : Phase}
    (hp : Polling h b) (hout : ModbusBridge.marks out = []) (hphase : polled phase = polled b.phase ∨ phase = .idle)
    (hslave : ∀ slave, phase = .requesting slave ∨ phase = .awaiting slave → 1 ≤ slave ∧ slave ≤ 5) :
    Polling (h ++ out) { b with line := line, asked := asked, phase := phase } := by
  refine ⟨hslave, ?_⟩
  rw [marks_append, hout, List.append_nil]
  rcases hphase with heq | rfl
  · show marksOf b.answers (polled phase) <:+ _
    rw [heq]
    exact hp.marks
  · exact List.nil_suffix

theorem Polling.step {h out : List Event} {b b' : Bridge} {a : Input} (hp : Polling h b)
    (hstep : bridge.step b a = some (b', out)) :
    Polling (h ++ out) b' ∧ Everywhere (fun before e => Packed (h ++ before) e) out := by
  cases a with
  | send slave bytes =>
    cases hstep
    exact ⟨hp.quiet rfl (.inl rfl) hp.slave, Everywhere.singleton_iff.mpr trivial⟩
  | poll =>
    obtain ⟨hphase, rfl, rfl⟩ := poll_step hstep
    refine ⟨hp.quiet rfl (.inl (by rw [hphase]; rfl)) ?_, Everywhere.nil⟩
    rintro s (hs | hs)
    · cases hs
      omega
    · cases hs
  | write written =>
    obtain ⟨slave, hphase, hcase⟩ := write_step hstep
    obtain ⟨hpos, hle⟩ := hp.slave slave (.inl hphase)
    obtain ⟨rfl, rfl⟩ | ⟨e, hsettle⟩ := hcase
    · refine ⟨hp.quiet rfl (.inl (by rw [hphase]; rfl)) ?_, Everywhere.singleton_iff.mpr trivial⟩
      rintro s (hs | hs)
      · cases hs
      · cases hs
        exact ⟨hpos, hle⟩
    · have hmarks := hp.marks
      rw [hphase] at hmarks
      exact Polling.settle hpos hle hmarks hsettle
  | read n =>
    obtain ⟨slave, hphase, -, hsettle⟩ := read_step hstep
    obtain ⟨hpos, hle⟩ := hp.slave slave (.inr hphase)
    have hmarks := hp.marks
    rw [hphase] at hmarks
    exact Polling.settle (b := { b with line := b.line.drop n }) hpos hle hmarks hsettle
  | serialPortError =>
    obtain ⟨rfl, rfl⟩ := serialPortError_step hstep
    refine ⟨hp.quiet rfl (.inr rfl) ?_, Everywhere.nil⟩
    rintro s (hs | hs) <;> cases hs

/-- Every packet has its five entries, whatever the slaves do. -/
theorem packetsComplete {inputs : List Input} {b : Bridge} {h : List Event}
    (hrun : bridge.run .start inputs = some (b, h)) : PacketsComplete h := by
  have hinv : Polling ([] ++ h) b ∧ PacketsComplete ([] ++ h) := by
    apply bridge.run_induction (I := fun h b => Polling h b ∧ PacketsComplete h) ?_ ⟨Polling.start, Everywhere.nil⟩
      (bridge.along_true _ inputs) hrun
    rintro h b a b' out ⟨hp, hall⟩ - hstep
    obtain ⟨hp', hout⟩ := hp.step hstep
    exact ⟨hp', Everywhere.append_iff.mpr ⟨hall, hout⟩⟩
  exact hinv.2

/-! ## Slaves that have answered -/

/-- A read marks the slave whose turn it is with what was read. -/
theorem marked_of_read {b b' : Bridge} {n slave : Nat} {out : List Event} (hphase : b.phase = .awaiting slave)
    (hstep : bridge.step b (.read n) = some (b', out)) (node : ModbusNodeState) :
    .marked slave node ∈ out ↔ node = nodeState slave (readResult (decode ((b.line.take n).map SentByte.byte))) := by
  obtain ⟨s, hs, -, hsettle⟩ := read_step hstep
  obtain rfl : s = slave := Phase.awaiting.inj (hs.symm.trans hphase)
  obtain ⟨-, -, rfl⟩ | ⟨-, -, rfl⟩ := Bridge.settle_cases hsettle
  · simp
  · simp

theorem reports_iff_undisturbed {h out : List Event} {b b' : Bridge} {a : Input}
    (hstep : bridge.step b a = some (b', out)) : Reports h b a ↔ Undisturbed h b a := by
  cases a with
  | read n =>
    have hmarked : ∀ slave v, b.phase = .awaiting slave →
        (.marked slave ⟨UInt32.ofNat slave, v.toUInt32, .online⟩ ∈ out ↔
          ∃ address, (b.line.take n).map SentByte.byte = replyFrame address [v]) := by
      intro slave v hphase
      have hlen : ((b.line.take n).map SentByte.byte).length ≤ expectedResponse registerCount := by
        rw [List.length_map, List.length_take]
        obtain ⟨-, -, hn, -⟩ := read_step hstep
        exact (Nat.min_le_left _ _).trans hn
      rw [marked_of_read hphase hstep, eq_comm]
      exact nodeState_online_iff hlen slave v
    constructor
    · intro hreports slave v hphase hdelivered
      exact (hmarked slave v hphase).mp (hreports slave v b' out hphase hdelivered hstep)
    · intro hundisturbed slave v c outs hphase hdelivered hc
      rw [hstep] at hc
      cases hc
      exact (hmarked slave v hphase).mpr (hundisturbed slave v hphase hdelivered)
  | send slave bytes => exact Iff.rfl
  | poll => exact Iff.rfl
  | write written => exact Iff.rfl
  | serialPortError => exact Iff.rfl

theorem isolated_iff_undisturbed {inputs : List Input} {b : Bridge} {h : List Event}
    (hrun : bridge.run .start inputs = some (b, h)) : Isolated inputs ↔ bridge.AlongHistory Undisturbed [] .start inputs :=
  bridge.alongHistory_congr (fun _ _ _ _ _ hstep => reports_iff_undisturbed hstep) hrun

/-- **Fault isolation.** In every run the packets are complete, and the slaves that have answered are reported exactly when
what is read after their answers is a frame with their value. -/
theorem isolated_iff {inputs : List Input} {b : Bridge} {h : List Event} (hrun : bridge.run .start inputs = some (b, h)) :
    PacketsComplete h ∧ (Isolated inputs ↔ bridge.AlongHistory Undisturbed [] .start inputs) :=
  ⟨packetsComplete hrun, isolated_iff_undisturbed hrun⟩

/-- A poll in which slave 1 answers with 7, and the others do not answer. -/
def oneAnswers : List Input :=
  [.poll, .write 8, .send 1 (replyFrame 1 [7]), .read 7] ++ (List.replicate 4 [.write 8, .read 0]).flatten

/-- What the poll finds. -/
def oneOnline : List ModbusNodeState :=
  [⟨1, 7, .online⟩, ⟨2, 0, .error⟩, ⟨3, 0, .error⟩, ⟨4, 0, .error⟩, ⟨5, 0, .error⟩]

/-- The packet of the poll is published and complete. -/
theorem isolated_silent :
    ∃ b h payload, bridge.run .start oneAnswers = some (b, h) ∧ serializeToArray oneOnline = some payload ∧
      .published (some ⟨"novamex/linea1/telemetry", payload, 1, 3⟩) ∈ h ∧ PacketsComplete h ∧
      (Isolated oneAnswers ↔ bridge.AlongHistory Undisturbed [] .start oneAnswers) := by
  have hwire : serializeToArray oneOnline =
      some [10, 6, 8, 1, 16, 7, 24, 1, 10, 4, 8, 2, 24, 2, 10, 4, 8, 3, 24, 2, 10, 4, 8, 4, 24, 2, 10, 4, 8, 5, 24, 2] := by
    decide +kernel
  have hevents : (bridge.run .start oneAnswers).map (fun r => r.2.getLast?) =
      some (some (.published (some ⟨"novamex/linea1/telemetry",
        [10, 6, 8, 1, 16, 7, 24, 1, 10, 4, 8, 2, 24, 2, 10, 4, 8, 3, 24, 2, 10, 4, 8, 4, 24, 2, 10, 4, 8, 5, 24, 2],
        1, 3⟩))) := by decide +kernel
  obtain ⟨⟨b, h⟩, hrun, hlast⟩ := Option.map_eq_some_iff.mp hevents
  exact ⟨b, h, _, hrun, hwire, List.mem_of_getLast? hlast, isolated_iff hrun⟩

/-- Slave 1 sends two bytes too many; slave 2 answers with 9 and is marked as failed. -/
theorem tail_shifts_next :
    ∃ b h, bridge.run .start [.poll, .write 8, .send 1 (replyFrame 1 [7] ++ [0, 0]), .read 7, .write 8,
        .send 2 (replyFrame 2 [9]), .read 7] = some (b, h) ∧
      .marked 2 ⟨2, 0, .error⟩ ∈ h ∧
      ¬Isolated [.poll, .write 8, .send 1 (replyFrame 1 [7] ++ [0, 0]), .read 7, .write 8, .send 2 (replyFrame 2 [9]),
        .read 7] := by
  have hfirst : (bridge.run .start [.poll, .write 8, .send 1 (replyFrame 1 [7] ++ [0, 0]), .read 7, .write 8,
      .send 2 (replyFrame 2 [9])]).map (fun (b, h) => (b.phase, b.line.map SentByte.byte, h)) =
      some (.awaiting 2, [0, 0] ++ replyFrame 2 [9], [.requested 1, .sent 1 (replyFrame 1 [7] ++ [0, 0]),
        .marked 1 ⟨1, 7, .online⟩, .requested 2, .sent 2 (replyFrame 2 [9])]) := by decide +kernel
  have hevents : (bridge.run .start [.poll, .write 8, .send 1 (replyFrame 1 [7] ++ [0, 0]), .read 7, .write 8,
      .send 2 (replyFrame 2 [9]), .read 7]).map Prod.snd =
      some [.requested 1, .sent 1 (replyFrame 1 [7] ++ [0, 0]), .marked 1 ⟨1, 7, .online⟩, .requested 2,
        .sent 2 (replyFrame 2 [9]), .marked 2 ⟨2, 0, .error⟩] := by decide +kernel
  obtain ⟨⟨b, h⟩, hrun, hout⟩ := Option.map_eq_some_iff.mp hevents
  cases hout
  refine ⟨b, _, hrun, by simp, ?_⟩
  rw [isolated_iff_undisturbed hrun]
  intro hundisturbed
  obtain ⟨⟨c, h⟩, hbefore, hstate⟩ := Option.map_eq_some_iff.mp hfirst
  simp only [Prod.mk.injEq] at hstate
  obtain ⟨hphase, hline, rfl⟩ := hstate
  have hread := ((bridge.alongHistory_snoc_iff (a := .read 7) hbefore).mp hundisturbed).2
  have hdelivered : Delivered [.requested 1, .sent 1 (replyFrame 1 [7] ++ [0, 0]), .marked 1 ⟨1, 7, .online⟩,
      .requested 2, .sent 2 (replyFrame 2 [9])] 2 9 :=
    ⟨[.requested 1, .sent 1 (replyFrame 1 [7] ++ [0, 0]), .marked 1 ⟨1, 7, .online⟩], [replyFrame 2 [9]], rfl,
      List.append_nil _⟩
  obtain ⟨address, hframe⟩ := hread 2 9 hphase hdelivered
  -- the second byte of a frame is the function code
  have hcode := congrArg (fun bytes => bytes.drop 1 |>.head?) hframe
  rw [List.map_take, hline] at hcode
  cases hcode

/-! ## Replies on time -/

/-- The bytes sent since the last request. -/
def sentSince (h : List Event) : List UInt8 :=
  h.foldl (fun sent e => match e with
    | .requested _ => []
    | .sent _ bytes => sent ++ bytes
    | _ => sent) []

theorem Delivered.sentSince {h : List Event} {slave : Nat} {v : UInt16} (hdelivered : Delivered h slave v) :
    sentSince h = replyFrame (UInt8.ofNat slave) [v] := by
  obtain ⟨before, sends, rfl, hframe⟩ := hdelivered
  have hsends : ∀ (sends : List (List UInt8)) (sent : List UInt8),
      (sends.map (Event.sent slave)).foldl (fun sent e => match e with
        | .requested _ => []
        | .sent _ bytes => sent ++ bytes
        | _ => sent) sent = sent ++ sends.flatten := by
    intro sends
    induction sends with
    | nil => intro sent; simp
    | cons bytes sends ih =>
      intro sent
      rw [List.map_cons, List.foldl_cons, ih, List.flatten_cons, List.append_assoc]
  rw [ModbusBridge.sentSince, List.foldl_append, List.foldl_cons, hsends, hframe]
  rfl

/-- On the line there is nothing but what was sent for the last request. -/
structure Fresh (h : List Event) (b : Bridge) : Prop where
  empty : (∀ slave, b.phase ≠ .awaiting slave) → b.line = []
  sent : ∀ slave, b.phase = .awaiting slave → b.line.map SentByte.byte = sentSince h
  short : b.line.length ≤ expectedResponse registerCount

theorem Fresh.of_empty {h : List Event} {b : Bridge} (hline : b.line = []) (hphase : ∀ slave, b.phase ≠ .awaiting slave) :
    Fresh h b :=
  ⟨fun _ => hline, fun slave hs => absurd hs (hphase slave), by rw [hline]; exact Nat.zero_le _⟩

theorem Fresh.settle {h out : List Event} {b b' : Bridge} {slave : Nat} {result : ReadResult} (hline : b.line = [])
    (hsettle : b.settle slave result = (b', out)) : Fresh h b' := by
  obtain ⟨-, rfl, rfl⟩ | ⟨-, rfl, rfl⟩ := Bridge.settle_cases hsettle
  · exact .of_empty hline nofun
  · exact .of_empty hline nofun

theorem Fresh.step {h out : List Event} {b b' : Bridge} {a : Input} (hb : Fresh h b) (hshort : Short b a)
    (hstep : bridge.step b a = some (b', out)) : Fresh (h ++ out) b' := by
  cases a with
  | send slave bytes =>
    obtain ⟨⟨awaited, hphase⟩, hlen⟩ := hshort
    cases hstep
    refine ⟨fun hnot => absurd hphase (hnot awaited), fun s hs => ?_, ?_⟩
    · show (b.line ++ _).map SentByte.byte = _
      rw [List.map_append, hb.sent s hs, List.map_map, sentSince, sentSince, List.foldl_append]
      exact congrArg _ (List.map_id bytes)
    · show (b.line ++ _).length ≤ _
      rwa [List.length_append, List.length_map]
  | poll =>
    obtain ⟨hphase, rfl, rfl⟩ := poll_step hstep
    exact .of_empty (hb.empty fun slave hs => by rw [hphase] at hs; cases hs) nofun
  | write written =>
    obtain ⟨slave, hphase, hcase⟩ := write_step hstep
    have hline := hb.empty fun s hs => by rw [hphase] at hs; cases hs
    obtain ⟨rfl, rfl⟩ | ⟨e, hsettle⟩ := hcase
    · refine ⟨fun _ => hline, fun s _ => ?_, hb.short⟩
      show b.line.map SentByte.byte = _
      rw [hline, sentSince, List.foldl_append]
      rfl
    · exact .settle hline hsettle
  | read n =>
    obtain ⟨slave, -, -, hsettle⟩ := read_step hstep
    refine .settle ?_ hsettle
    show b.line.drop n = []
    rw [hshort, List.drop_length]
  | serialPortError =>
    obtain ⟨rfl, rfl⟩ := serialPortError_step hstep
    exact .of_empty hshort (fun _ heq => nomatch heq)

theorem Fresh.undisturbed {h : List Event} {b : Bridge} {a : Input} (hb : Fresh h b) (hshort : Short b a) :
    Undisturbed h b a := by
  cases a with
  | read n =>
    intro slave v hphase hdelivered
    refine ⟨UInt8.ofNat slave, ?_⟩
    rw [hshort, List.take_length, hb.sent slave hphase]
    exact hdelivered.sentSince
  | send slave bytes => trivial
  | poll => trivial
  | write written => trivial
  | serialPortError => trivial

/-- Where no slave sends too much or too late, the failures of some do not reach the others. -/
theorem isolated_of_short {inputs : List Input} {b : Bridge} {h : List Event}
    (hrun : bridge.run .start inputs = some (b, h)) (hshort : bridge.Along Short .start inputs) : Isolated inputs := by
  rw [isolated_iff_undisturbed hrun]
  apply hshort.toHistory (I := Fresh) ?_ ?_ (.of_empty rfl (by intro slave heq; cases heq))
  · exact fun h b a b' out hb hok hstep => hb.step hok hstep
  · exact fun h b a hb hok => hb.undisturbed hok

end IbarraGateway.ModbusBridge
