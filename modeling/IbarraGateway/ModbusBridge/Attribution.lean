import IbarraGateway.ModbusBridge.SerialLine
import Mathlib.Data.List.TakeWhile

/-!
# Who has sent what is marked as online

* `Tracks` : for every slave, what waits on the line from it since it was first asked is the end of what it has sent since.
* `attributed` : where no slave sends in the name of another, what the orchestrator marks as online is what the node has
  replied, as long as no reply of another address waits on the line when one is read.
* `attributed_of_onTime` : so it is when every slave answers on time, whatever it answers.
* `late_reply_misattributed` : the address of a response is not checked, and nothing empties the line after a timeout.
-/

namespace IbarraGateway.ModbusBridge

/-! ## What is stated -/

def Event.asks (slave : Nat) : Event → Bool
  | requested s => s = slave
  | _ => false

def Event.bytesFrom (slave : Nat) : Event → List UInt8
  | sent s bytes => if s = slave then bytes else []
  | _ => []

/-- What a slave has sent since it was first asked. -/
def askedBytes (slave : Nat) (h : List Event) : List UInt8 :=
  (h.dropWhile fun e => !e.asks slave).flatMap (Event.bytesFrom slave)

/-- The slave has sent a valid reply with the value, after a request to it. -/
def Replied (h : List Event) (slave : Nat) (v : UInt16) : Prop :=
  replyFrame (UInt8.ofNat slave) [v] <:+: askedBytes slave h

/-- The node of a slave is online with nothing but what the slave has replied. -/
def Answered (h : List Event) (slave : Nat) (node : ModbusNodeState) : Prop :=
  node.status = .online → ∃ v, node.cycleCount = v.toUInt32 ∧ Replied h slave v

/-- What is marked, and what is published of it, is what the slaves have replied. -/
def Justified (before : List Event) : Event → Prop
  | .marked slave node => Answered before slave node
  | .published publication => ∃ answers, publication = periodicPollAndPublish answers ∧
      ∀ slave, Answered before slave (nodeState slave (answers slave))
  | _ => True

def Attributed (h : List Event) : Prop := ∀ before e after, h = before ++ e :: after → Justified before e

/-! ## The slaves and the line -/

/-- Who has been asked, and what has been sent. -/
def hear : (Nat → Bool) × List SentByte → Event → (Nat → Bool) × List SentByte
  | (asked, bytes), .sent slave more => (asked, bytes ++ more.map fun byte => ⟨byte, slave, asked slave⟩)
  | (asked, bytes), .requested slave => (Function.update asked slave true, bytes)
  | heard, _ => heard

/-- The bytes of all slaves, in the order in which they were put on the line. -/
def sentBytes (h : List Event) : List SentByte := (h.foldl hear (fun _ => false, [])).2

/-- Nobody sends in the name of another: wherever a reply frame of a polled slave stands among the bytes sent, this slave has
sent it, after a request. -/
def Honest (h : List Event) : Prop :=
  ∀ slave v before frame after, 1 ≤ slave → slave ≤ 5 → sentBytes h = before ++ frame ++ after →
    frame.map SentByte.byte = replyFrame (UInt8.ofNat slave) [v] → ∀ x ∈ frame, x.sender = slave ∧ x.asked = true

/-- The bytes that a read takes are no reply frame of another address than the awaited one. -/
def Addressed (b : Bridge) : Input → Prop
  | .read n => ∀ slave address v, b.phase = .awaiting slave →
      (b.line.take n).map SentByte.byte = replyFrame address [v] → address = UInt8.ofNat slave
  | _ => True

/-! ## What a slave has sent -/

theorem askedBytes_append_of_asked {slave : Nat} {h : List Event} (hasked : ∃ e ∈ h, e.asks slave = true)
    (out : List Event) : askedBytes slave (h ++ out) = askedBytes slave h ++ out.flatMap (Event.bytesFrom slave) := by
  have hne : h.dropWhile (fun e => !e.asks slave) ≠ [] := by
    intro hnil
    obtain ⟨e, he, hasks⟩ := hasked
    have hpass := List.dropWhile_eq_nil_iff.mp hnil e he
    rw [hasks] at hpass
    cases hpass
  rw [askedBytes, List.dropWhile_append, if_neg (by rwa [List.isEmpty_iff]), List.flatMap_append, askedBytes]

theorem askedBytes_append_of_not_asked {slave : Nat} {h : List Event} (hnot : ∀ e ∈ h, e.asks slave = false)
    (out : List Event) : askedBytes slave (h ++ out) = askedBytes slave out := by
  have hpass : ∀ e ∈ h, (!e.asks slave) = true := by
    intro e he
    rw [hnot e he]
    rfl
  rw [askedBytes, List.dropWhile_append_of_pos hpass, askedBytes]

theorem askedBytes_of_not_asked {slave : Nat} {h : List Event} (hnot : ∀ e ∈ h, e.asks slave = false) :
    askedBytes slave h = [] := by
  have happend := askedBytes_append_of_not_asked hnot []
  rwa [List.append_nil] at happend

theorem asked_or_not (slave : Nat) (h : List Event) :
    (∃ e ∈ h, e.asks slave = true) ∨ ∀ e ∈ h, e.asks slave = false := by
  by_cases hasked : ∃ e ∈ h, e.asks slave = true
  · exact .inl hasked
  · refine .inr fun e he => ?_
    apply Bool.eq_false_iff.mpr
    intro hasks
    exact hasked ⟨e, he, hasks⟩

/-- More is sent, and nothing of it is lost. -/
theorem askedBytes_mono (slave : Nat) (h out : List Event) : askedBytes slave h <+: askedBytes slave (h ++ out) := by
  rcases asked_or_not slave h with hasked | hnot
  · rw [askedBytes_append_of_asked hasked]
    exact List.prefix_append _ _
  · rw [askedBytes_of_not_asked hnot]
    exact List.nil_prefix

/-- Events that are no bytes of the slave. -/
theorem askedBytes_quiet {slave : Nat} {out : List Event} (hquiet : ∀ e ∈ out, e.bytesFrom slave = []) (h : List Event) :
    askedBytes slave (h ++ out) = askedBytes slave h := by
  rcases asked_or_not slave h with hasked | hnot
  · rw [askedBytes_append_of_asked hasked, List.flatMap_eq_nil_iff.mpr hquiet, List.append_nil]
  · rw [askedBytes_append_of_not_asked hnot, askedBytes_of_not_asked hnot, askedBytes]
    apply List.flatMap_eq_nil_iff.mpr
    intro e he
    exact hquiet e ((List.dropWhile_suffix _).mem he)

/-- Events that ask for nothing. -/
theorem asks_append {slave : Nat} {out : List Event} (hquiet : ∀ e ∈ out, e.asks slave = false) (h : List Event) :
    (∃ e ∈ h ++ out, e.asks slave = true) ↔ ∃ e ∈ h, e.asks slave = true := by
  constructor
  · rintro ⟨e, he, hasks⟩
    rcases List.mem_append.mp he with he | he
    · exact ⟨e, he, hasks⟩
    · rw [hquiet e he] at hasks
      cases hasks
  · rintro ⟨e, he, hasks⟩
    exact ⟨e, List.mem_append_left out he, hasks⟩

theorem Replied.append {h : List Event} {slave : Nat} {v : UInt16} (hr : Replied h slave v) (out : List Event) :
    Replied (h ++ out) slave v :=
  hr.trans (askedBytes_mono slave h out).isInfix

theorem Answered.append {h : List Event} {slave : Nat} {node : ModbusNodeState} (ha : Answered h slave node)
    (out : List Event) : Answered (h ++ out) slave node := by
  intro honline
  obtain ⟨v, hv, hr⟩ := ha honline
  exact ⟨v, hv, hr.append out⟩

theorem answered_exception (h : List Event) (slave : Nat) : Answered h slave (nodeState slave .modbusException) := by
  intro honline
  cases honline

/-- Events that follow a history. -/
def JustifiedFrom (h out : List Event) : Prop := ∀ before e after, out = before ++ e :: after → Justified (h ++ before) e

theorem justifiedFrom_nil (h : List Event) : JustifiedFrom h [] := by
  intro before e after heq
  simp at heq

theorem justifiedFrom_cons {h out : List Event} {e : Event} (he : Justified h e) (hout : JustifiedFrom (h ++ [e]) out) :
    JustifiedFrom h (e :: out) := by
  intro before e' after heq
  rcases before with _ | ⟨e'', before⟩
  · cases heq
    rw [List.append_nil]
    exact he
  · cases heq
    have hjust := hout before e' after rfl
    rwa [List.append_assoc] at hjust

theorem Attributed.append {h out : List Event} (ha : Attributed h) (hout : JustifiedFrom h out) : Attributed (h ++ out) := by
  intro before e after heq
  rcases List.append_eq_append_iff.mp heq with ⟨x, rfl, hx⟩ | ⟨x, hh, hx⟩
  · exact hout x e after hx
  · rcases x with _ | ⟨e', x⟩
    · rw [List.append_nil] at hh
      subst hh
      have hjust := hout [] e after hx.symm
      rwa [List.append_nil] at hjust
    · cases hx
      exact ha before e x hh

/-! ## The invariant -/

/-- The bytes of a slave that wait on the line, those it has sent since it was first asked. -/
def waiting (slave : Nat) (line : List SentByte) : List UInt8 :=
  (line.filter fun x => decide (x.sender = slave) && x.asked).map SentByte.byte

theorem waiting_append (slave : Nat) (line more : List SentByte) :
    waiting slave (line ++ more) = waiting slave line ++ waiting slave more := by
  rw [waiting, List.filter_append, List.map_append, waiting, waiting]

theorem waiting_of_own {slave : Nat} {line : List SentByte} (h : ∀ x ∈ line, x.sender = slave ∧ x.asked = true) :
    waiting slave line = line.map SentByte.byte := by
  have hall : ∀ x ∈ line, (decide (x.sender = slave) && x.asked) = true := by
    intro x hx
    obtain ⟨hsender, hasked⟩ := h x hx
    rw [hasked, Bool.and_true]
    exact decide_eq_true hsender
  rw [waiting, List.filter_eq_self.mpr hall]

/-- The bytes that are put on the line by one send. -/
theorem waiting_sent (slave sender : Nat) (asked : Bool) (bytes : List UInt8) :
    waiting slave (bytes.map fun byte => ⟨byte, sender, asked⟩) = if sender = slave ∧ asked = true then bytes else [] := by
  by_cases hown : sender = slave ∧ asked = true
  · rw [if_pos hown, waiting_of_own, List.map_map]
    · exact List.map_id bytes
    · intro x hx
      obtain ⟨byte, -, rfl⟩ := List.mem_map.mp hx
      exact hown
  · rw [if_neg hown, waiting, List.map_eq_nil_iff, List.filter_eq_nil_iff]
    intro x hx
    obtain ⟨byte, -, rfl⟩ := List.mem_map.mp hx
    rw [Bool.and_eq_true, decide_eq_true_iff]
    exact hown

/-- What the history says about the line and the nodes. -/
structure Tracks (h : List Event) (b : Bridge) : Prop where
  asked : ∀ slave, b.asked slave = true ↔ ∃ e ∈ h, e.asks slave = true
  line : ∀ slave, waiting slave b.line <:+ askedBytes slave h
  answers : ∀ slave, Answered h slave (nodeState slave (b.answers slave))

namespace Tracks
variable {h : List Event} {b : Bridge}

theorem start : Tracks [] .start where
  asked slave := by simp [Bridge.start]
  line slave := List.suffix_rfl
  answers slave := answered_exception [] slave

theorem not_asked (ht : Tracks h b) {slave : Nat} (hasked : b.asked slave = false) :
    ∀ e ∈ h, e.asks slave = false := by
  rcases asked_or_not slave h with hyes | hnot
  · rw [(ht.asked slave).mpr hyes] at hasked
    cases hasked
  · exact hnot

/-- A slave that was not asked has nothing on the line that counts. -/
theorem waiting_of_not_asked (ht : Tracks h b) {slave : Nat} (hasked : b.asked slave = false) :
    waiting slave b.line = [] := by
  have hsuffix := ht.line slave
  rw [askedBytes_of_not_asked (ht.not_asked hasked)] at hsuffix
  exact List.suffix_nil.mp hsuffix

/-- Another phase changes nothing. -/
theorem withPhase (ht : Tracks h b) (phase : Phase) : Tracks h { b with phase := phase } := ⟨ht.asked, ht.line, ht.answers⟩

theorem send (ht : Tracks h b) (sender : Nat) (bytes : List UInt8) :
    Tracks (h ++ [.sent sender bytes])
      { b with line := b.line ++ bytes.map fun byte => ⟨byte, sender, b.asked sender⟩ } where
  asked slave := by
    rw [ht.asked slave, asks_append]
    intro e he
    rw [List.mem_singleton.mp he]
    rfl
  line slave := by
    show waiting slave (b.line ++ _) <:+ _
    rw [waiting_append, waiting_sent]
    rcases Bool.eq_false_or_eq_true (b.asked slave) with hasked | hnot
    · rw [askedBytes_append_of_asked ((ht.asked slave).mp hasked)]
      have hout : [Event.sent sender bytes].flatMap (Event.bytesFrom slave) =
          if sender = slave ∧ b.asked sender = true then bytes else [] := by
        show (if sender = slave then bytes else []) ++ [] = _
        rw [List.append_nil]
        by_cases hs : sender = slave
        · subst hs
          rw [if_pos rfl, if_pos ⟨rfl, hasked⟩]
        · rw [if_neg hs, if_neg fun hboth => hs hboth.1]
      rw [hout]
      exact (List.suffix_append_inj_of_length_eq rfl).mpr ⟨ht.line slave, rfl⟩
    · have hnone : ¬(sender = slave ∧ b.asked sender = true) := by
        rintro ⟨rfl, hasked⟩
        rw [hasked] at hnot
        cases hnot
      rw [ht.waiting_of_not_asked hnot, if_neg hnone]
      exact List.nil_suffix
  answers slave := (ht.answers slave).append _

theorem requested (ht : Tracks h b) (slave : Nat) :
    Tracks (h ++ [.requested slave]) { b with asked := Function.update b.asked slave true, phase := .awaiting slave } where
  asked s := by
    show Function.update b.asked slave true s = true ↔ _
    rw [Function.update_apply]
    split
    · rename_i hs
      subst hs
      exact iff_of_true rfl ⟨.requested s, List.mem_append_right h List.mem_cons_self, decide_eq_true rfl⟩
    · rename_i hs
      rw [ht.asked s, asks_append]
      intro e he
      rw [List.mem_singleton.mp he]
      exact decide_eq_false (Ne.symm hs)
  line s := by
    rw [askedBytes_quiet (fun e he => by rw [List.mem_singleton.mp he]; rfl)]
    exact ht.line s
  answers s := (ht.answers s).append _

/-- Bytes that are read leave the line. -/
theorem read (ht : Tracks h b) (n : Nat) : Tracks h { b with line := b.line.drop n } where
  asked := ht.asked
  line slave := (((List.drop_suffix n b.line).filter _).map _).trans (ht.line slave)
  answers := ht.answers

theorem settle (ht : Tracks h b) {slave : Nat} {result : ReadResult} {b' : Bridge} {out : List Event}
    (hanswer : Answered h slave (nodeState slave result)) (hsettle : b.settle slave result = (b', out)) :
    Tracks (h ++ out) b' ∧ JustifiedFrom h out := by
  have hanswers : ∀ s, Answered h s (nodeState s (Function.update b.answers slave result s)) := by
    intro s
    rw [Function.update_apply]
    split
    · rename_i hs
      subst hs
      exact hanswer
    · exact ht.answers s
  have htracks : ∀ out phase, (∀ e ∈ out, ∀ s, e.asks s = false ∧ e.bytesFrom s = []) →
      Tracks (h ++ out) { b with answers := Function.update b.answers slave result, phase := phase } := by
    intro out phase hquiet
    refine ⟨fun s => ?_, fun s => ?_, fun s => (hanswers s).append out⟩
    · rw [asks_append fun e he => (hquiet e he s).1]
      exact ht.asked s
    · rw [askedBytes_quiet fun e he => (hquiet e he s).2]
      exact ht.line s
  obtain ⟨-, rfl, rfl⟩ | ⟨-, rfl, rfl⟩ := Bridge.settle_cases hsettle
  · refine ⟨htracks _ _ ?_, justifiedFrom_cons hanswer (justifiedFrom_nil _)⟩
    intro e he s
    rw [List.mem_singleton.mp he]
    exact ⟨rfl, rfl⟩
  · refine ⟨htracks _ _ ?_, justifiedFrom_cons hanswer (justifiedFrom_cons ?_ (justifiedFrom_nil _))⟩
    · intro e he s
      rcases List.mem_pair.mp he with rfl | rfl
      · exact ⟨rfl, rfl⟩
      · exact ⟨rfl, rfl⟩
    · exact ⟨_, rfl, fun s => (hanswers s).append _⟩

end Tracks

/-! ## Runs -/

/-- One register is decoded from a whole reply of some slave. -/
theorem decode_ok {received : List UInt8} {regs : List UInt16} (hlen : received.length ≤ expectedResponse registerCount)
    (h : decode received = .ok regs) : ∃ address v, regs = [v] ∧ received = replyFrame address [v] := by
  unfold decode at h
  cases hreceive : receiveResponse received with
  | error e =>
    rw [hreceive] at h
    cases h
  | ok resp =>
    rw [hreceive] at h
    exact decodeResponse_one hreceive h hlen

/-- Correct frames are accepted, whatever their address. -/
theorem decode_replyFrame (address : UInt8) (v : UInt16) : decode (replyFrame address [v]) = .ok [v] := by
  have hframe : replyFrame address [v] = [address, 0x04, 2, highByte v, lowByte v] ++
      [lowByte (crc16 [address, 0x04, 2, highByte v, lowByte v]), highByte (crc16 [address, 0x04, 2, highByte v, lowByte v])] := rfl
  have hreceive : receiveResponse (replyFrame address [v]) = .ok (replyFrame address [v]) := by
    unfold receiveResponse
    rw [if_neg (by rw [hframe]; simp)]
    dsimp only
    rw [if_neg]
    rw [hframe]
    exact not_not.mpr (word_bytes _).symm
  have hregister : extractRegister (replyFrame address [v]) 0 = .ok v := by
    rw [hframe]
    show Except.ok (word (highByte v) (lowByte v)) = _
    rw [word_bytes]
  unfold decode
  rw [hreceive]
  show decodeResponse registerCount (replyFrame address [v]) = _
  have hdecode : decodeResponse registerCount (replyFrame address [v]) =
      (List.range registerCount.toNat).mapM (extractRegister (replyFrame address [v])) := by
    rw [hframe]
    rfl
  rw [hdecode]
  show (do let r ← extractRegister (replyFrame address [v]) 0; let rs ← pure []; pure (r :: rs)) = _
  rw [hregister]
  rfl

/-- What the two conditions come to at a read: a frame that is accepted is the slave's own. -/
def Own (b : Bridge) : Input → Prop
  | .read n => ∀ slave regs, n ≤ expectedResponse registerCount → b.phase = .awaiting slave →
      decode ((b.line.take n).map SentByte.byte) = .ok regs →
        ((b.line.take n).map SentByte.byte).head? = some (UInt8.ofNat slave) ∧
          ∀ x ∈ b.line.take n, x.sender = slave ∧ x.asked = true
  | _ => True

/-- What is read as the reply of a slave is marked as the slave has sent it. -/
theorem answered_read {h : List Event} {b : Bridge} {n slave : Nat} (ht : Tracks h b) (hown : Own b (.read n))
    (hphase : b.phase = .awaiting slave) (hn : n ≤ expectedResponse registerCount) :
    Answered h slave (nodeState slave (readResult (decode ((b.line.take n).map SentByte.byte)))) := by
  cases hdecode : decode ((b.line.take n).map SentByte.byte) with
  | error e => exact answered_exception h slave
  | ok regs =>
    intro _
    have hlen : ((b.line.take n).map SentByte.byte).length ≤ expectedResponse registerCount := by
      rw [List.length_map, List.length_take]
      omega
    obtain ⟨address, v, rfl, hframe⟩ := decode_ok hlen hdecode
    obtain ⟨hhead, hsent⟩ := hown slave [v] hn hphase hdecode
    refine ⟨v, rfl, ?_⟩
    have haddress : address = UInt8.ofNat slave := by
      rw [hframe] at hhead
      exact Option.some.inj hhead
    have hline : waiting slave b.line = replyFrame address [v] ++ waiting slave (b.line.drop n) := by
      rw [← hframe, ← waiting_of_own hsent, ← waiting_append, List.take_append_drop]
    have hsuffix := ht.line slave
    rw [hline, haddress] at hsuffix
    exact (List.prefix_append _ _).isInfix.trans hsuffix.isInfix

theorem Tracks.step {h out : List Event} {b b' : Bridge} {a : Input} (ht : Tracks h b) (hown : Own b a)
    (hstep : bridge.step b a = some (b', out)) : Tracks (h ++ out) b' ∧ JustifiedFrom h out := by
  have hsilent : ∀ phase, Tracks (h ++ []) { b with phase := phase } ∧ JustifiedFrom h [] := by
    intro phase
    rw [List.append_nil]
    exact ⟨ht.withPhase phase, justifiedFrom_nil h⟩
  cases a with
  | send slave bytes =>
    cases hstep
    exact ⟨ht.send slave bytes, justifiedFrom_cons trivial (justifiedFrom_nil _)⟩
  | poll =>
    obtain ⟨-, rfl, rfl⟩ := poll_step hstep
    exact hsilent _
  | write written =>
    obtain ⟨slave, -, ⟨rfl, rfl⟩ | ⟨e, hsettle⟩⟩ := write_step hstep
    · exact ⟨ht.requested slave, justifiedFrom_cons trivial (justifiedFrom_nil _)⟩
    · exact ht.settle (answered_exception h slave) hsettle
  | read n =>
    obtain ⟨slave, hphase, hn, hsettle⟩ := read_step hstep
    exact (ht.read n).settle (answered_read ht hown hphase hn) hsettle
  | serialPortError =>
    obtain ⟨rfl, rfl⟩ := serialPortError_step hstep
    exact hsilent _

theorem tracks_start : Tracks [] .start ∧ Attributed [] := by
  refine ⟨Tracks.start, ?_⟩
  intro before e after heq
  simp at heq

theorem tracks_of_run {inputs : List Input} {b : Bridge} {h : List Event} (hrun : bridge.run .start inputs = some (b, h))
    (hown : bridge.Along Own .start inputs) : Tracks h b ∧ Attributed h := by
  refine bridge.run_induction (I := fun h b => Tracks h b ∧ Attributed h) ?_ (h := []) tracks_start hown hrun
  rintro h b a b' out ⟨ht, ha⟩ hok hstep
  obtain ⟨ht', hout⟩ := ht.step hok hstep
  exact ⟨ht', ha.append hout⟩

/-! ## What is on the line has been sent -/

theorem sentBytes_append (h out : List Event) : sentBytes h <+: sentBytes (h ++ out) := by
  unfold sentBytes
  rw [List.foldl_append]
  generalize h.foldl hear (fun _ => false, []) = heard
  induction out generalizing heard with
  | nil => exact List.prefix_rfl
  | cons e out ih =>
    refine List.IsPrefix.trans ?_ (ih (hear heard e))
    cases e with
    | sent slave bytes => exact List.prefix_append _ _
    | requested slave => exact List.prefix_rfl
    | marked slave node => exact List.prefix_rfl
    | published publication => exact List.prefix_rfl

theorem Honest.of_append {h out : List Event} (hhonest : Honest (h ++ out)) : Honest h := by
  intro slave v before frame after hpos hle hsent
  obtain ⟨more, hmore⟩ := sentBytes_append h out
  refine hhonest slave v before frame (after ++ more) hpos hle ?_
  rw [← hmore, hsent, List.append_assoc]

/-- What waits on the line is the end of what was sent, and it is one of the five slaves that is polled. -/
structure Heard (h : List Event) (b : Bridge) : Prop where
  asked : (h.foldl hear (fun _ => false, [])).1 = b.asked
  line : b.line <:+ sentBytes h
  polled : ∀ slave, b.phase = .requesting slave ∨ b.phase = .awaiting slave → 1 ≤ slave ∧ slave ≤ 5

namespace Heard
variable {h : List Event} {b : Bridge}

theorem start : Heard [] .start := ⟨rfl, List.suffix_rfl, by rintro slave (hphase | hphase) <;> cases hphase⟩

/-- Events without bytes and requests. -/
theorem quiet (hb : Heard h b) {out : List Event} (hout : ∀ e ∈ out, ∀ heard, hear heard e = heard) {b' : Bridge}
    (hasked : b'.asked = b.asked) (hline : b'.line <:+ b.line)
    (hpolled : ∀ slave, b'.phase = .requesting slave ∨ b'.phase = .awaiting slave → 1 ≤ slave ∧ slave ≤ 5) :
    Heard (h ++ out) b' := by
  have hsame : (h ++ out).foldl hear (fun _ => false, []) = h.foldl hear (fun _ => false, []) := by
    rw [List.foldl_append]
    generalize h.foldl hear (fun _ => false, []) = heard
    induction out with
    | nil => rfl
    | cons e out ih =>
      obtain ⟨he, hrest⟩ := List.forall_mem_cons.mp hout
      rw [List.foldl_cons, he heard, ih hrest]
  refine ⟨?_, ?_, hpolled⟩
  · rw [hsame, hasked, hb.asked]
  · unfold sentBytes
    rw [hsame]
    exact hline.trans hb.line

theorem settle (hb : Heard h b) {b' : Bridge} {slave : Nat} {result : ReadResult} {out : List Event}
    (hsettle : b.settle slave result = (b', out)) : Heard (h ++ out) b' := by
  obtain ⟨hlt, rfl, rfl⟩ | ⟨-, rfl, rfl⟩ := Bridge.settle_cases hsettle
  · refine hb.quiet ?_ rfl List.suffix_rfl ?_
    · intro e he heard
      rw [List.mem_singleton.mp he]
      rfl
    · rintro s (hphase | hphase) <;> cases hphase
      exact ⟨Nat.le_add_left 1 slave, hlt⟩
  · refine hb.quiet ?_ rfl List.suffix_rfl ?_
    · intro e he heard
      rcases List.mem_pair.mp he with rfl | rfl <;> rfl
    · rintro s (hphase | hphase) <;> cases hphase

theorem step {b' : Bridge} {a : Input} {out : List Event} (hb : Heard h b) (hstep : bridge.step b a = some (b', out)) :
    Heard (h ++ out) b' := by
  cases a with
  | send slave bytes =>
    cases hstep
    refine ⟨?_, ?_, hb.polled⟩
    · rw [List.foldl_append]
      exact hb.asked
    · unfold sentBytes
      rw [List.foldl_append]
      show b.line ++ _ <:+ (h.foldl hear (fun _ => false, [])).2 ++ _
      rw [hb.asked, List.suffix_append_inj_of_length_eq rfl]
      exact ⟨hb.line, rfl⟩
  | poll =>
    obtain ⟨-, rfl, rfl⟩ := poll_step hstep
    refine hb.quiet (fun _ he => absurd he List.not_mem_nil) rfl List.suffix_rfl ?_
    rintro s (hphase | hphase) <;> cases hphase
    exact ⟨le_rfl, by decide⟩
  | write written =>
    obtain ⟨slave, hphase, ⟨rfl, rfl⟩ | ⟨e, hsettle⟩⟩ := write_step hstep
    · refine ⟨?_, ?_, ?_⟩
      · rw [List.foldl_append]
        show Function.update (h.foldl hear (fun _ => false, [])).1 slave true = _
        rw [hb.asked]
      · unfold sentBytes
        rw [List.foldl_append]
        exact hb.line
      · rintro s (hs | hs) <;> cases hs
        exact hb.polled slave (.inl hphase)
    · exact hb.settle hsettle
  | read n =>
    obtain ⟨slave, -, -, hsettle⟩ := read_step hstep
    have hread : Heard h { b with line := b.line.drop n } :=
      ⟨hb.asked, (List.drop_suffix n b.line).trans hb.line, hb.polled⟩
    exact hread.settle hsettle
  | serialPortError =>
    obtain ⟨rfl, rfl⟩ := serialPortError_step hstep
    refine hb.quiet (fun _ he => absurd he List.not_mem_nil) rfl List.suffix_rfl ?_
    rintro s (hphase | hphase) <;> cases hphase

/-- Of an honest line, a frame with the right address is the slave's own. -/
theorem own (hb : Heard h b) (hhonest : Honest h) {a : Input} (haddressed : Addressed b a) : Own b a := by
  cases a with
  | read n =>
    intro slave regs hn hphase hdecode
    have hlen : ((b.line.take n).map SentByte.byte).length ≤ expectedResponse registerCount := by
      rw [List.length_map, List.length_take]
      omega
    obtain ⟨address, v, rfl, hframe⟩ := decode_ok hlen hdecode
    have haddress := haddressed slave address v hphase hframe
    rw [haddress] at hframe
    obtain ⟨hpos, hle⟩ := hb.polled slave (.inr hphase)
    obtain ⟨read, hread⟩ := hb.line
    refine ⟨by rw [hframe]; rfl, hhonest slave v read _ (b.line.drop n) hpos hle ?_ hframe⟩
    rw [List.append_assoc, List.take_append_drop, hread]
  | send slave bytes => trivial
  | poll => trivial
  | write written => trivial
  | serialPortError => trivial

end Heard

/-- **Attribution**, for runs in which no slave sends in the name of another, and no reply of another address than the
awaited one waits on the line when one is read. -/
theorem attributed {inputs : List Input} {b : Bridge} {h : List Event} (hrun : bridge.run .start inputs = some (b, h))
    (hhonest : Honest h) (haddressed : bridge.Along Addressed .start inputs) : Attributed h := by
  have hinv : Heard h b ∧ (Honest h → Tracks h b ∧ Attributed h) := by
    refine bridge.run_induction (I := fun h b => Heard h b ∧ (Honest h → Tracks h b ∧ Attributed h)) ?_ (h := [])
      ⟨Heard.start, fun _ => tracks_start⟩ haddressed hrun
    rintro h b a b' out ⟨hheard, htracks⟩ hok hstep
    refine ⟨hheard.step hstep, fun hhonest => ?_⟩
    obtain ⟨ht, ha⟩ := htracks hhonest.of_append
    obtain ⟨ht', hout⟩ := ht.step (hheard.own hhonest.of_append hok) hstep
    exact ⟨ht', ha.append hout⟩
  exact (hinv.2 hhonest).2

theorem replyFrame_length (address : UInt8) (v : UInt16) :
    (replyFrame address [v]).length = expectedResponse registerCount := rfl

/-- What the checks accept with the address of a slave is the slave's own. -/
def OwnWindow (slave : Nat) (frame : List SentByte) : Prop :=
  (decode (frame.map SentByte.byte)).isOk = true → (frame.map SentByte.byte).head? = some (UInt8.ofNat slave) →
    ∀ x ∈ frame, x.sender = slave ∧ x.asked = true

instance (slave : Nat) (frame : List SentByte) : Decidable (OwnWindow slave frame) :=
  inferInstanceAs (Decidable (_ → _ → ∀ x ∈ frame, x.sender = slave ∧ x.asked = true))

/-- It is enough to look at as many bytes as a read takes, from every place on. -/
theorem honest_of_windows {h : List Event} (hall : ∀ i < (sentBytes h).length, ∀ slave < 6,
    OwnWindow slave (((sentBytes h).drop i).take (expectedResponse registerCount))) : Honest h := by
  intro slave v before frame after _ hle hsent hframe
  have hlength : frame.length = expectedResponse registerCount := by
    rw [← replyFrame_length (UInt8.ofNat slave) v, ← hframe, List.length_map]
  have hwindow : ((sentBytes h).drop before.length).take (expectedResponse registerCount) = frame := by
    rw [hsent, List.append_assoc, List.drop_left, ← hlength, List.take_left]
  have hlt : before.length < (sentBytes h).length := by
    have hseven : expectedResponse registerCount = 7 := rfl
    rw [hsent, List.length_append, List.length_append]
    omega
  have hhere := hall before.length hlt slave (by omega)
  rw [hwindow, OwnWindow, hframe, decode_replyFrame] at hhere
  exact hhere rfl rfl

/-- The same for the bytes that a read takes. -/
theorem addressed_of_decode {b : Bridge} {n : Nat} (h : ∀ slave, b.phase = .awaiting slave →
    (decode ((b.line.take n).map SentByte.byte)).isOk = true →
      ((b.line.take n).map SentByte.byte).head? = some (UInt8.ofNat slave)) : Addressed b (.read n) := by
  intro slave address v hphase hframe
  have hhere := h slave hphase
  rw [hframe, decode_replyFrame] at hhere
  exact Option.some.inj (hhere rfl)

/-- Slave 1 answers with 7. Slave 2 is late, and with three bytes of its reply only; they are read in front of the reply of
slave 3, and what is read is rejected. -/
def lateAndPartial : List Input :=
  [.poll, .write 8, .send 1 (replyFrame 1 [7]), .read 7, .write 8, .read 0, .write 8, .send 2 ((replyFrame 2 [5]).take 3),
    .send 3 (replyFrame 3 [9]), .read 7]

theorem attributed_lateAndPartial : ∃ b h, bridge.run .start lateAndPartial = some (b, h) ∧
    .marked 1 ⟨1, 7, .online⟩ ∈ h ∧ .marked 3 ⟨3, 0, .error⟩ ∈ h ∧ Attributed h := by
  have hevents : (bridge.run .start lateAndPartial).map Prod.snd =
      some [.requested 1, .sent 1 (replyFrame 1 [7]), .marked 1 ⟨1, 7, .online⟩, .requested 2, .marked 2 ⟨2, 0, .error⟩,
        .requested 3, .sent 2 ((replyFrame 2 [5]).take 3), .sent 3 (replyFrame 3 [9]),
        .marked 3 ⟨3, 0, .error⟩] := by decide +kernel
  obtain ⟨⟨b, h⟩, hrun, hout⟩ := Option.map_eq_some_iff.mp hevents
  cases hout
  refine ⟨b, _, hrun, by simp, by simp, attributed hrun (honest_of_windows (by decide +kernel)) ?_⟩
  refine ⟨trivial, fun b out h₁ => ?_⟩
  cases h₁
  refine ⟨trivial, fun b out h₂ => ?_⟩
  cases h₂
  refine ⟨trivial, fun b out h₃ => ?_⟩
  cases h₃
  refine ⟨addressed_of_decode ?_, fun b out h₄ => ?_⟩
  · rintro slave ⟨⟩
    decide +kernel
  cases h₄
  refine ⟨trivial, fun b out h₅ => ?_⟩
  cases h₅
  refine ⟨addressed_of_decode ?_, fun b out h₆ => ?_⟩
  · rintro slave ⟨⟩
    decide +kernel
  cases h₆
  refine ⟨trivial, fun b out h₇ => ?_⟩
  cases h₇
  refine ⟨trivial, fun b out h₈ => ?_⟩
  cases h₈
  refine ⟨trivial, fun b out h₉ => ?_⟩
  cases h₉
  refine ⟨addressed_of_decode ?_, fun _ _ _ => trivial⟩
  rintro slave ⟨⟩
  decide +kernel

/-- Slave 1 is too late, and its reply is read as the reply of slave 2, which has sent nothing. -/
theorem late_reply_misattributed :
    ∃ b h, bridge.run .start [.poll, .write 8, .read 0, .send 1 (replyFrame 1 [7]), .write 8, .read 7] = some (b, h) ∧
      .marked 2 ⟨2, 7, .online⟩ ∈ h ∧ (∀ bytes, .sent 2 bytes ∉ h) ∧ Honest h ∧ ¬Attributed h := by
  have hevents : (bridge.run .start
      [.poll, .write 8, .read 0, .send 1 (replyFrame 1 [7]), .write 8, .read 7]).map Prod.snd =
      some [.requested 1, .marked 1 ⟨1, 0, .error⟩, .sent 1 (replyFrame 1 [7]), .requested 2,
        .marked 2 ⟨2, 7, .online⟩] := by decide +kernel
  obtain ⟨⟨b, h⟩, hrun, hout⟩ := Option.map_eq_some_iff.mp hevents
  cases hout
  refine ⟨b, _, hrun, by simp, by simp, honest_of_windows (by decide +kernel), ?_⟩
  intro hattributed
  obtain ⟨v, -, hreplied⟩ := hattributed [.requested 1, .marked 1 ⟨1, 0, .error⟩, .sent 1 (replyFrame 1 [7]), .requested 2]
    (.marked 2 ⟨2, 7, .online⟩) [] rfl rfl
  have hnone : askedBytes 2 [.requested 1, .marked 1 ⟨1, 0, .error⟩, .sent 1 (replyFrame 1 [7]), .requested 2] = [] := rfl
  rw [Replied, hnone] at hreplied
  have hlen := hreplied.length_le
  simp [replyFrame, withCrc] at hlen

/-! ## Replies on time -/

/-- The slave that is asked sends once, its address first, before the read, which takes all of it. -/
def OnTime (b : Bridge) : Input → Prop
  | .send slave bytes => b.phase = .awaiting slave ∧ b.line = [] ∧ bytes.head? = some (UInt8.ofNat slave)
  | .read n => n = b.line.length
  | .serialPortError => b.line = []
  | _ => True

/-- On the line there is nothing but the reply that is awaited. -/
structure Awaited (b : Bridge) : Prop where
  asked : ∀ slave, b.phase = .awaiting slave → b.asked slave = true
  sent : ∀ x ∈ b.line, b.phase = .awaiting x.sender ∧ x.asked = true
  address : ∀ slave, b.phase = .awaiting slave → b.line ≠ [] →
    (b.line.map SentByte.byte).head? = some (UInt8.ofNat slave)

theorem Awaited.start : Awaited .start := ⟨nofun, nofun, nofun⟩

theorem Awaited.of_empty {b : Bridge} (hline : b.line = []) (hphase : ∀ slave, b.phase = .awaiting slave → b.asked slave = true) :
    Awaited b := by
  refine ⟨hphase, ?_, fun _ _ hne => absurd hline hne⟩
  rw [hline]
  nofun

/-- Where no reply is awaited, nothing is on the line. -/
theorem Awaited.line_eq_nil {b : Bridge} (hb : Awaited b) (hphase : ∀ slave, b.phase ≠ .awaiting slave) : b.line = [] := by
  apply List.eq_nil_iff_forall_not_mem.mpr
  intro x hx
  exact hphase x.sender (hb.sent x hx).1

theorem Awaited.settle {b b' : Bridge} {slave : Nat} {result : ReadResult} {out : List Event} (hline : b.line = [])
    (hsettle : b.settle slave result = (b', out)) : Awaited b' := by
  obtain ⟨-, rfl, rfl⟩ | ⟨-, rfl, rfl⟩ := Bridge.settle_cases hsettle
  · exact .of_empty hline nofun
  · exact .of_empty hline nofun

theorem Awaited.step {b b' : Bridge} {a : Input} {out : List Event} (hb : Awaited b) (hon : OnTime b a)
    (hstep : bridge.step b a = some (b', out)) : Awaited b' := by
  cases a with
  | send slave bytes =>
    obtain ⟨hphase, hline, hhead⟩ := hon
    cases hstep
    refine ⟨hb.asked, ?_, ?_⟩
    · intro x hx
      rw [hline, List.nil_append] at hx
      obtain ⟨byte, -, rfl⟩ := List.mem_map.mp hx
      exact ⟨hphase, hb.asked slave hphase⟩
    · intro s hs _
      have hslave : slave = s := Phase.awaiting.inj (hphase.symm.trans hs)
      subst hslave
      show ((b.line ++ _).map SentByte.byte).head? = _
      rw [hline, List.nil_append, List.map_map, ← hhead]
      exact congrArg List.head? (List.map_id bytes)
  | poll =>
    obtain ⟨hphase, rfl, rfl⟩ := poll_step hstep
    exact .of_empty (hb.line_eq_nil fun slave hs => by rw [hphase] at hs; cases hs) nofun
  | write written =>
    obtain ⟨slave, hphase, hcase⟩ := write_step hstep
    have hline := hb.line_eq_nil fun s hs => by rw [hphase] at hs; cases hs
    obtain ⟨rfl, rfl⟩ | ⟨e, hsettle⟩ := hcase
    · refine .of_empty hline ?_
      intro s hs
      cases hs
      exact Function.update_self _ _ _
    · exact .settle hline hsettle
  | read n =>
    obtain ⟨slave, -, -, hsettle⟩ := read_step hstep
    refine .settle ?_ hsettle
    show b.line.drop n = []
    rw [hon, List.drop_length]
  | serialPortError =>
    obtain ⟨rfl, rfl⟩ := serialPortError_step hstep
    exact .of_empty hon nofun

theorem Awaited.own {b : Bridge} {a : Input} (hb : Awaited b) (hon : OnTime b a) : Own b a := by
  cases a with
  | read n =>
    intro slave regs _ hphase hdecode
    rw [hon, List.take_length] at hdecode ⊢
    have hne : b.line ≠ [] := by
      intro hnil
      rw [hnil] at hdecode
      cases hdecode
    refine ⟨hb.address slave hphase hne, ?_⟩
    intro x hx
    obtain ⟨hsender, hasked⟩ := hb.sent x hx
    exact ⟨Phase.awaiting.inj (hsender.symm.trans hphase), hasked⟩
  | send slave bytes => trivial
  | poll => trivial
  | write written => trivial
  | serialPortError => trivial

/-- When every slave answers on time, whatever it answers, every node is attributed. -/
theorem attributed_of_onTime {inputs : List Input} {b : Bridge} {h : List Event}
    (hrun : bridge.run .start inputs = some (b, h)) (hon : bridge.Along OnTime .start inputs) : Attributed h := by
  have hown : bridge.Along Own .start inputs := by
    apply hon.of_invariant (I := Awaited) ?_ ?_ .start
    · exact fun b a b' out hb hok hstep => hb.step hok hstep
    · exact fun b a hb hok => hb.own hok
  exact (tracks_of_run hrun hown).2

end IbarraGateway.ModbusBridge
