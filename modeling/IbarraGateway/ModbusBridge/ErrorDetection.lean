import IbarraGateway.Lib.Crc
import IbarraGateway.ModbusBridge.ModbusRTUMaster

/-!
# What the CRC sees

* `crc16_toBitVec` : the table-driven loop is the register of the polynomial, fed with the bits as they are transmitted.
* `crc16_eq_bitwise` : it is CRC-16/MODBUS as that is defined, bit by bit.
* `crc16_eq_zero_iff` : a frame ends with its CRC exactly when nothing is left of it.
* `receiveResponse_detects` : what is accepted; bursts of sixteen bits and odd numbers of errors are not.
-/

namespace IbarraGateway.ModbusBridge

/-- A byte as it is transmitted, the lowest bit first. -/
def byteBits (b : UInt8) : List Bool := (List.range 8).map b.toNat.testBit

def transmitted (bytes : List UInt8) : List Bool := bytes.flatMap byteBits

def crcPoly : BitVec 16 := 0xA001#16

/-! ## The table -/

theorem crc16Table_eq {i : Nat} (hi : i < 2 ^ 8) :
    (crc16Table.getD i 0).toBitVec = (Crc.shift crcPoly)^[8] (BitVec.ofNat 16 i) := by
  have hall : ∀ i < 2 ^ 8, (crc16Table.getD i 0).toBitVec = (Crc.shift crcPoly)^[8] (BitVec.ofNat 16 i) := by decide +kernel
  exact hall i hi

theorem length_byteBits (b : UInt8) : (byteBits b).length = 8 := by
  rw [byteBits, List.length_map, List.length_range]

theorem byteBits_getD (b : UInt8) (i : Nat) : (byteBits b).getD i false = b.toNat.testBit i := by
  unfold byteBits
  by_cases hi : i < 8
  · simp [List.getD_eq_getElem?_getD, hi]
  · have hlt := b.toNat_lt
    rw [List.getD_eq_default _ _ (by simp; omega), Nat.testBit_lt_two_pow]
    exact Nat.lt_of_lt_of_le hlt (Nat.pow_le_pow_right (by decide) (Nat.le_of_not_lt hi))

theorem ofBits_byteBits (b : UInt8) : (Crc.ofBits (byteBits b) : BitVec 16) = BitVec.ofNat 16 b.toNat := by
  apply BitVec.eq_of_getLsbD_eq
  intro i hi
  rw [Crc.getLsbD_ofBits, byteBits_getD, BitVec.getLsbD_ofNat, Bool.and_comm]

/-- One turn of the loop. -/
theorem step_toBitVec (crc : UInt16) (byte : UInt8) :
    ((crc >>> 8) ^^^ crc16Table.getD (crc.toUInt8 ^^^ byte).toNat 0).toBitVec =
      Crc.run crcPoly crc.toBitVec (byteBits byte) := by
  have hindex : (crc.toUInt8 ^^^ byte).toNat = (crc.toBitVec ^^^ BitVec.ofNat 16 byte.toNat).toNat % 2 ^ 8 := by
    rw [BitVec.toNat_xor, UInt8.toNat_xor, Nat.xor_mod_two_pow]
    have hbyte := byte.toNat_lt
    simp only [UInt16.toNat_toUInt8, BitVec.toNat_ofNat]
    congr 1
    omega
  have hhigh : (BitVec.ofNat 16 byte.toNat) >>> 8 = 0#16 := by
    apply BitVec.eq_of_toNat_eq
    have hbyte := byte.toNat_lt
    rw [BitVec.toNat_ushiftRight, BitVec.toNat_ofNat, Nat.shiftRight_eq_div_pow, BitVec.toNat_ofNat]
    omega
  rw [Crc.run_eq_iterate crcPoly _ (by rw [length_byteBits]; decide), length_byteBits, ofBits_byteBits,
    Crc.iterate_shift_eq, BitVec.ushiftRight_xor_distrib, hhigh, BitVec.xor_zero, UInt16.toBitVec_xor, hindex,
    crc16Table_eq (Nat.mod_lt _ (Nat.two_pow_pos 8))]
  rfl

theorem foldl_toBitVec (data : List UInt8) (crc : UInt16) :
    (data.foldl (fun (crc : UInt16) (byte : UInt8) => (crc >>> 8) ^^^ crc16Table.getD (crc.toUInt8 ^^^ byte).toNat 0) crc).toBitVec =
      Crc.run crcPoly crc.toBitVec (transmitted data) := by
  induction data generalizing crc with
  | nil => rfl
  | cons byte data ih =>
    have hcons : transmitted (byte :: data) = byteBits byte ++ transmitted data := List.flatMap_cons
    rw [List.foldl_cons, ih, step_toBitVec, hcons, Crc.run_append]

/-- The loop is the register of the polynomial. -/
theorem crc16_toBitVec (data : List UInt8) :
    (crc16 data).toBitVec = Crc.run crcPoly 0xFFFF#16 (transmitted data) := foldl_toBitVec data 0xFFFF

/-! ## Bit by bit -/

/-- One bit of CRC-16/MODBUS: the lowest bit goes, and decides on the reflected polynomial. -/
def bitStep (crc : UInt16) : UInt16 := if crc &&& 1 = 1 then (crc >>> 1) ^^^ 0xA001 else crc >>> 1

/-- CRC-16/MODBUS as it is defined: from 0xFFFF, a byte onto the low end and its eight bits out, and nothing done to the end. -/
def crc16Bitwise (data : List UInt8) : UInt16 := data.foldl (fun crc byte => bitStep^[8] (crc ^^^ byte.toUInt16)) 0xFFFF

theorem and_one_eq_iff (crc : UInt16) : crc &&& 1 = 1 ↔ crc.toBitVec.getLsbD 0 = true := by
  rw [← UInt16.toNat_inj, UInt16.toNat_and, ← BitVec.testBit_toNat, Nat.testBit_zero, decide_eq_true_eq, UInt16.toNat_toBitVec]
  show crc.toNat &&& 1 = 1 ↔ _
  rw [Nat.and_one_is_mod]

theorem bitStep_toBitVec (crc : UInt16) : (bitStep crc).toBitVec = Crc.shift crcPoly crc.toBitVec := by
  unfold bitStep Crc.shift
  by_cases hbit : crc.toBitVec.getLsbD 0 = true
  · rw [if_pos ((and_one_eq_iff crc).mpr hbit), if_pos hbit]
    rfl
  · rw [if_neg (mt (and_one_eq_iff crc).mp hbit), if_neg hbit, BitVec.xor_zero]
    rfl

theorem iterate_bitStep_toBitVec (n : Nat) (crc : UInt16) :
    (bitStep^[n] crc).toBitVec = (Crc.shift crcPoly)^[n] crc.toBitVec := by
  induction n with
  | zero => rfl
  | succ n ih => rw [Function.iterate_succ_apply', Function.iterate_succ_apply', bitStep_toBitVec, ih]

/-- **A byte from the table**: eight bits of the definition are one turn of the loop. -/
theorem tableStep_eq (crc : UInt16) (byte : UInt8) :
    (crc >>> 8) ^^^ crc16Table.getD (crc.toUInt8 ^^^ byte).toNat 0 = bitStep^[8] (crc ^^^ byte.toUInt16) := by
  have hlength := length_byteBits byte
  have hbyte : byte.toUInt16.toBitVec = BitVec.ofNat 16 byte.toNat := (BitVec.ofNat_toNat 16 byte.toBitVec).symm
  apply UInt16.toBitVec_inj.mp
  rw [step_toBitVec, iterate_bitStep_toBitVec, Crc.run_eq_iterate crcPoly _ (by omega), hlength, ofBits_byteBits,
    UInt16.toBitVec_xor, hbyte]

/-- **The table-driven CRC is the definition**, for every message. -/
theorem crc16_eq_bitwise (data : List UInt8) : crc16 data = crc16Bitwise data := by
  have hstep : (fun (crc : UInt16) (byte : UInt8) => (crc >>> 8) ^^^ crc16Table.getD (crc.toUInt8 ^^^ byte).toNat 0) =
      fun crc byte => bitStep^[8] (crc ^^^ byte.toUInt16) := by
    funext crc byte
    exact tableStep_eq crc byte
  unfold crc16 crc16Bitwise
  rw [hstep]

/-- The check value of CRC-16/MODBUS: the digits from 1 to 9. -/
example : crc16Bitwise [0x31, 0x32, 0x33, 0x34, 0x35, 0x36, 0x37, 0x38, 0x39] = 0x4B37 := by decide +kernel

/-! ## The residue -/

theorem transmitted_append (bytes more : List UInt8) : transmitted (bytes ++ more) = transmitted bytes ++ transmitted more :=
  List.flatMap_append

theorem ofBits_word (high low : UInt8) :
    (Crc.ofBits (transmitted [low, high]) : BitVec 16) = (word high low).toBitVec := by
  apply BitVec.eq_of_getLsbD_eq
  intro i hi
  have hword : (word high low).toBitVec.getLsbD i = (256 * high.toNat + low.toNat).testBit i := by
    rw [← word_toNat]
    rfl
  have hlow := low.toNat_lt
  rw [Crc.getLsbD_ofBits, hword, show (256 : Nat) = 2 ^ 8 from rfl, Nat.testBit_two_pow_mul_add _ hlow]
  show ((byteBits low ++ (byteBits high ++ [])).getD i false && decide (i < 16)) = _
  rw [List.append_nil, decide_eq_true hi, Bool.and_true, List.getD_eq_getElem?_getD]
  by_cases hlt : i < 8
  · rw [List.getElem?_append_left (by rw [length_byteBits]; exact hlt), ← List.getD_eq_getElem?_getD, byteBits_getD, if_pos hlt]
  · rw [List.getElem?_append_right (by rw [length_byteBits]; omega), length_byteBits, ← List.getD_eq_getElem?_getD,
      byteBits_getD, if_neg hlt]

theorem crcPoly_msb : crcPoly.msb = true := by decide

/-- Nothing is left of a frame that ends with its CRC, and of no other. -/
theorem crc16_eq_zero_iff (data : List UInt8) (high low : UInt8) :
    crc16 (data ++ [low, high]) = 0 ↔ crc16 data = word high low := by
  have hlength : (transmitted [low, high]).length ≤ 16 := by
    rw [transmitted, List.flatMap_cons, List.flatMap_cons, List.flatMap_nil, List.append_nil, List.length_append,
      length_byteBits, length_byteBits]
  rw [← UInt16.toBitVec_inj, ← UInt16.toBitVec_inj, crc16_toBitVec, transmitted_append, Crc.run_append, ← crc16_toBitVec,
    Crc.run_eq_iterate crcPoly _ hlength, ofBits_word]
  constructor
  · intro hzero
    exact BitVec.xor_eq_zero_iff.mp (Crc.eq_zero_of_iterate_shift crcPoly_msb hzero)
  · intro heq
    rw [heq, BitVec.xor_self]
    exact Crc.iterate_shift_zero crcPoly _

theorem crc16_withCrc (adu : List UInt8) : crc16 (withCrc adu) = 0 := by
  rw [withCrc, crc16_eq_zero_iff]
  exact (word_bytes _).symm

/-- The last two bytes apart. -/
theorem exists_last_two {received : List UInt8} (h : 2 ≤ received.length) :
    ∃ data low high, received = data ++ [low, high] := by
  have hdrop : (received.drop (received.length - 2)).length = 2 := by
    rw [List.length_drop]
    omega
  obtain ⟨low, high, hlast⟩ := List.length_eq_two.mp hdrop
  exact ⟨received.take (received.length - 2), low, high, by rw [← hlast, List.take_append_drop]⟩

/-- `receive_response`, with the CRC's bytes in view. -/
theorem receiveResponse_append (data : List UInt8) (low high : UInt8) :
    receiveResponse (data ++ [low, high]) =
      if data.length < 2 then .error .timeout
      else if crc16 data ≠ word high low then .error .crcError else .ok (data ++ [low, high]) := by
  have hlength : (data ++ [low, high]).length = data.length + 2 := List.length_append
  have htake : (data ++ [low, high]).take (data.length + 2 - 2) = data := by simp
  have hlow : (data ++ [low, high]).getD (data.length + 2 - 2) 0 = low := by simp [List.getD_eq_getElem?_getD]
  have hhigh : (data ++ [low, high]).getD (data.length + 2 - 1) 0 = high := by simp [List.getD_eq_getElem?_getD]
  unfold receiveResponse
  rw [hlength, htake, hlow, hhigh]
  exact if_congr (by omega) rfl rfl

/-- Four bytes at least, of which the CRC leaves nothing. -/
theorem receiveResponse_ok_iff (received : List UInt8) :
    receiveResponse received = .ok received ↔ 4 ≤ received.length ∧ crc16 received = 0 := by
  by_cases hshort : received.length < 2
  · have htimeout : receiveResponse received = .error .timeout := if_pos (by omega)
    rw [htimeout]
    constructor
    · nofun
    · omega
  · obtain ⟨data, low, high, rfl⟩ := exists_last_two (Nat.le_of_not_lt hshort)
    rw [receiveResponse_append, crc16_eq_zero_iff, List.length_append]
    show _ ↔ 4 ≤ data.length + 2 ∧ _
    split
    · constructor
      · nofun
      · omega
    · split
      · rename_i hcrc
        constructor
        · nofun
        · exact fun h => absurd h.2 hcrc
      · rename_i hlength hcrc
        exact ⟨fun _ => ⟨by omega, not_not.mp hcrc⟩, fun _ => rfl⟩

/-! ## Errors -/

/-- A frame with the bits of a pattern turned over. -/
def disturb (frame errors : List UInt8) : List UInt8 := List.zipWith (· ^^^ ·) frame errors

/-- At most sixteen places from some place on. -/
def Burst (errors : List UInt8) : Prop := ∃ i, ∀ k, (transmitted errors)[k]? = some true → i ≤ k ∧ k < i + 16

def OddErrors (errors : List UInt8) : Prop := (transmitted errors).count true % 2 = 1

instance (errors : List UInt8) : Decidable (OddErrors errors) := inferInstanceAs (Decidable (_ = _))

theorem length_transmitted (bytes : List UInt8) : (transmitted bytes).length = 8 * bytes.length := by
  induction bytes with
  | nil => rfl
  | cons b bytes ih =>
    have hcons : transmitted (b :: bytes) = byteBits b ++ transmitted bytes := List.flatMap_cons
    rw [hcons, List.length_append, length_byteBits, ih, List.length_cons]
    omega

theorem byteBits_xor (a b : UInt8) : byteBits (a ^^^ b) = List.zipWith Bool.xor (byteBits a) (byteBits b) := by
  unfold byteBits
  rw [List.zipWith_map, List.zipWith_self]
  refine List.map_congr_left fun i _ => ?_
  rw [UInt8.toNat_xor, Nat.testBit_xor]

theorem transmitted_disturb {frame errors : List UInt8} (h : frame.length = errors.length) :
    transmitted (disturb frame errors) = List.zipWith Bool.xor (transmitted frame) (transmitted errors) := by
  induction frame generalizing errors with
  | nil => rfl
  | cons a frame ih =>
    cases errors with
    | nil => cases h
    | cons e errors =>
      have hcons : ∀ b bytes, transmitted (b :: bytes) = byteBits b ++ transmitted bytes := fun b bytes => List.flatMap_cons
      have hrest := ih (Nat.succ.inj h)
      unfold disturb at hrest ⊢
      rw [List.zipWith_cons_cons, hcons, hcons, hcons, hrest, byteBits_xor,
        List.zipWith_append (by rw [length_byteBits, length_byteBits])]

/-- What the errors leave of a frame that had nothing left. -/
theorem crc16_disturb {frame errors : List UInt8} (h : frame.length = errors.length) (hframe : crc16 frame = 0) :
    (crc16 (disturb frame errors)).toBitVec = Crc.run crcPoly 0#16 (transmitted errors) := by
  have hlength : (transmitted frame).length = (transmitted errors).length := by
    rw [length_transmitted, length_transmitted, h]
  have hzero : Crc.run crcPoly 0xFFFF#16 (transmitted frame) = 0#16 := by
    rw [← crc16_toBitVec, hframe]
    rfl
  have hxor := Crc.run_xor crcPoly hlength 0xFFFF#16 0#16
  rw [hzero, BitVec.xor_zero, BitVec.zero_xor] at hxor
  rw [crc16_toBitVec, transmitted_disturb h, hxor]

theorem exists_bit {errors : List UInt8} (h : ∃ e ∈ errors, e ≠ 0) : true ∈ transmitted errors := by
  obtain ⟨e, he, hne⟩ := h
  refine List.mem_flatMap.mpr ⟨e, he, ?_⟩
  have hnat : e.toNat ≠ 0 := fun hzero => hne (UInt8.toNat_inj.mp hzero)
  obtain ⟨i, hi⟩ := Nat.exists_testBit_of_ne_zero hnat
  have hlt : i < 8 := by
    by_contra hge
    rw [Nat.testBit_lt_two_pow (Nat.lt_of_lt_of_le e.toNat_lt (Nat.pow_le_pow_right (by decide) (Nat.le_of_not_lt hge)))] at hi
    cases hi
  exact List.mem_map.mpr ⟨i, List.mem_range.mpr hlt, hi⟩

/-- A frame is accepted when it has four bytes at least and the CRC over all of it is zero; a frame that was sent with its
CRC is not accepted with an error of up to sixteen consecutive bits, nor with an odd number of wrong bits. -/
theorem receiveResponse_detects :
    (∀ received, receiveResponse received = .ok received ↔ 4 ≤ received.length ∧ crc16 received = 0) ∧
    ∀ payload errors : List UInt8, errors.length = (withCrc payload).length → (∃ e ∈ errors, e ≠ 0) →
      Burst errors ∨ OddErrors errors → ∃ e, receiveResponse (disturb (withCrc payload) errors) = .error e := by
  refine ⟨receiveResponse_ok_iff, ?_⟩
  intro payload errors hlength hsome herrors
  have hresidue := crc16_disturb hlength.symm (crc16_withCrc payload)
  have hne : Crc.run crcPoly 0#16 (transmitted errors) ≠ 0#16 := by
    rcases herrors with ⟨i, hburst⟩ | hodd
    · exact Crc.run_confined crcPoly_msb hburst (exists_bit hsome)
    · exact Crc.run_odd (by decide) (by decide) hodd
  cases hreceive : receiveResponse (disturb (withCrc payload) errors) with
  | error e => exact ⟨e, rfl⟩
  | ok resp =>
    have hresp := (receiveResponse_ok hreceive).1
    subst hresp
    have hzero := ((receiveResponse_ok_iff _).mp hreceive).2
    rw [hzero] at hresidue
    exact absurd hresidue.symm hne

/-- A bit of a reply's register. -/
theorem receiveResponse_detects_bit :
    ∃ e, receiveResponse (disturb (withCrc [0x11, 0x04, 0x02, 0x00, 0x2A]) [0, 0, 0, 0, 0x08, 0, 0]) = .error e :=
  receiveResponse_detects.2 [0x11, 0x04, 0x02, 0x00, 0x2A] [0, 0, 0, 0, 0x08, 0, 0] (by decide) (by decide) (.inr (by decide))

/-- One byte and its CRC: nothing is left, and it is too short. -/
theorem short_frame_refused :
    crc16 (withCrc [0x11]) = 0 ∧ receiveResponse (withCrc [0x11]) = .error .timeout ∧
      ¬∀ received, (receiveResponse received = .ok received ↔ crc16 received = 0) := by
  have hzero : crc16 (withCrc [0x11]) = 0 := by decide
  have htimeout : receiveResponse (withCrc [0x11]) = .error .timeout := by decide
  refine ⟨hzero, htimeout, fun h => ?_⟩
  have haccepted := (h (withCrc [0x11])).mpr hzero
  rw [htimeout] at haccepted
  cases haccepted

end IbarraGateway.ModbusBridge
