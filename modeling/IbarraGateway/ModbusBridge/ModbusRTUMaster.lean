import IbarraGateway.ModbusBridge.TelemetryOrchestrator

/-!
# The Modbus master: function code 4

`ModbusRTUMaster` over what the serial port answers: how many bytes it wrote, and the bytes it read. Of a response the
CRC, the function code, the byte count and the length are checked; the address is not (`decodeResponse_one`).
-/

namespace IbarraGateway.ModbusBridge

/-! ## CRC -/

/-- `CRC16_TABLE`. -/
def crc16Table : List UInt16 := [
  0x0000, 0xC0C1, 0xC181, 0x0140, 0xC301, 0x03C0, 0x0280, 0xC241, 0xC601, 0x06C0, 0x0780, 0xC741,
  0x0500, 0xC5C1, 0xC481, 0x0440, 0xCC01, 0x0CC0, 0x0D80, 0xCD41, 0x0F00, 0xCFC1, 0xCE81, 0x0E40,
  0x0A00, 0xCAC1, 0xCB81, 0x0B40, 0xC901, 0x09C0, 0x0880, 0xC841, 0xD801, 0x18C0, 0x1980, 0xD941,
  0x1B00, 0xDBC1, 0xDA81, 0x1A40, 0x1E00, 0xDEC1, 0xDF81, 0x1F40, 0xDD01, 0x1DC0, 0x1C80, 0xDC41,
  0x1400, 0xD4C1, 0xD581, 0x1540, 0xD701, 0x17C0, 0x1680, 0xD641, 0xD201, 0x12C0, 0x1380, 0xD341,
  0x1100, 0xD1C1, 0xD081, 0x1040, 0xF001, 0x30C0, 0x3180, 0xF141, 0x3300, 0xF3C1, 0xF281, 0x3240,
  0x3600, 0xF6C1, 0xF781, 0x3740, 0xF501, 0x35C0, 0x3480, 0xF441, 0x3C00, 0xFCC1, 0xFD81, 0x3D40,
  0xFF01, 0x3FC0, 0x3E80, 0xFE41, 0xFA01, 0x3AC0, 0x3B80, 0xFB41, 0x3900, 0xF9C1, 0xF881, 0x3840,
  0x2800, 0xE8C1, 0xE981, 0x2940, 0xEB01, 0x2BC0, 0x2A80, 0xEA41, 0xEE01, 0x2EC0, 0x2F80, 0xEF41,
  0x2D00, 0xEDC1, 0xEC81, 0x2C40, 0xE401, 0x24C0, 0x2580, 0xE541, 0x2700, 0xE7C1, 0xE681, 0x2640,
  0x2200, 0xE2C1, 0xE381, 0x2340, 0xE101, 0x21C0, 0x2080, 0xE041, 0xA001, 0x60C0, 0x6180, 0xA141,
  0x6300, 0xA3C1, 0xA281, 0x6240, 0x6600, 0xA6C1, 0xA781, 0x6740, 0xA501, 0x65C0, 0x6480, 0xA441,
  0x6C00, 0xACC1, 0xAD81, 0x6D40, 0xAF01, 0x6FC0, 0x6E80, 0xAE41, 0xAA01, 0x6AC0, 0x6B80, 0xAB41,
  0x6900, 0xA9C1, 0xA881, 0x6840, 0x7800, 0xB8C1, 0xB981, 0x7940, 0xBB01, 0x7BC0, 0x7A80, 0xBA41,
  0xBE01, 0x7EC0, 0x7F80, 0xBF41, 0x7D00, 0xBDC1, 0xBC81, 0x7C40, 0xB401, 0x74C0, 0x7580, 0xB541,
  0x7700, 0xB7C1, 0xB681, 0x7640, 0x7200, 0xB2C1, 0xB381, 0x7340, 0xB101, 0x71C0, 0x7080, 0xB041,
  0x5000, 0x90C1, 0x9181, 0x5140, 0x9301, 0x53C0, 0x5280, 0x9241, 0x9601, 0x56C0, 0x5780, 0x9741,
  0x5500, 0x95C1, 0x9481, 0x5440, 0x9C01, 0x5CC0, 0x5D80, 0x9D41, 0x5F00, 0x9FC1, 0x9E81, 0x5E40,
  0x5A00, 0x9AC1, 0x9B81, 0x5B40, 0x9901, 0x59C0, 0x5880, 0x9841, 0x8801, 0x48C0, 0x4980, 0x8941,
  0x4B00, 0x8BC1, 0x8A81, 0x4A40, 0x4E00, 0x8EC1, 0x8F81, 0x4F40, 0x8D01, 0x4DC0, 0x4C80, 0x8C41,
  0x4400, 0x84C1, 0x8581, 0x4540, 0x8701, 0x47C0, 0x4680, 0x8641, 0x8201, 0x42C0, 0x4380, 0x8341,
  0x4100, 0x81C1, 0x8081, 0x4040]

def crc16 (data : List UInt8) : UInt16 :=
  data.foldl (fun crc byte => (crc >>> 8) ^^^ crc16Table.getD (crc.toUInt8 ^^^ byte).toNat 0) 0xFFFF

def lowByte (v : UInt16) : UInt8 := v.toUInt8

def highByte (v : UInt16) : UInt8 := (v >>> 8).toUInt8

/-- Two bytes as a number. -/
def word (high low : UInt8) : UInt16 := (high.toUInt16 <<< 8) ||| low.toUInt16

theorem word_toNat (high low : UInt8) : (word high low).toNat = 256 * high.toNat + low.toNat := by
  have hhigh := high.toNat_lt
  have hlow := low.toNat_lt
  have hor := Nat.shiftLeft_add_eq_or_of_lt (b := low.toNat) (i := 8) (by omega) high.toNat
  have hshift : (high.toNat <<< 8) % 2 ^ 16 = high.toNat <<< 8 := by
    rw [Nat.shiftLeft_eq]
    omega
  rw [word, UInt16.toNat_or, UInt16.toNat_shiftLeft, UInt8.toNat_toUInt16, UInt8.toNat_toUInt16]
  show (high.toNat <<< 8) % 2 ^ 16 ||| low.toNat = _
  rw [hshift, ← hor, Nat.shiftLeft_eq]
  omega

theorem highByte_word (high low : UInt8) : highByte (word high low) = high := by
  apply UInt8.toNat_inj.mp
  have hhigh := high.toNat_lt
  have hlow := low.toNat_lt
  rw [highByte, UInt16.toNat_toUInt8, UInt16.toNat_shiftRight, word_toNat]
  show (256 * high.toNat + low.toNat) >>> 8 % 2 ^ 8 = _
  rw [Nat.shiftRight_eq_div_pow]
  omega

theorem lowByte_word (high low : UInt8) : lowByte (word high low) = low := by
  apply UInt8.toNat_inj.mp
  have hlow := low.toNat_lt
  rw [lowByte, UInt16.toNat_toUInt8, word_toNat]
  omega

theorem word_bytes (v : UInt16) : word (highByte v) (lowByte v) = v := by
  apply UInt16.toNat_inj.mp
  have hv := v.toNat_lt
  rw [word_toNat, highByte, lowByte, UInt16.toNat_toUInt8, UInt16.toNat_toUInt8, UInt16.toNat_shiftRight]
  show 256 * (v.toNat >>> 8 % 2 ^ 8) + v.toNat % 2 ^ 8 = _
  rw [Nat.shiftRight_eq_div_pow]
  omega

/-! ## Errors -/

/-- `ModbusException` and what derives from it. -/
inductive ModbusException
  | timeout
  | crcError
  | frameError (detail : String)
  | exceptionResponse (code : UInt8)
  deriving DecidableEq, Repr

namespace ModbusException

def hexDigit (v : UInt8) : Char := "0123456789ABCDEF".toList.getD (v &&& 0x0F).toNat '0'

/-- `to_hex`. -/
def toHex (v : UInt8) : String := .ofList [hexDigit (v >>> 4), hexDigit v]

def what : ModbusException → String
  | timeout => "Modbus RTU: response timeout"
  | crcError => "Modbus RTU: CRC mismatch in response"
  | frameError detail => "Modbus RTU: frame error — " ++ detail
  | exceptionResponse code => "Modbus RTU: exception response 0x" ++ toHex code

end ModbusException

/-! ## Frames -/

/-- What `send_request` writes: the bytes and their CRC, low byte first. -/
def withCrc (adu : List UInt8) : List UInt8 := adu ++ [lowByte (crc16 adu), highByte (crc16 adu)]

def requestAdu (slaveId : UInt8) (startAddr count : UInt16) : List UInt8 :=
  [slaveId, 0x04, highByte startAddr, lowByte startAddr, highByte count, lowByte count]

/-- The reply of a slave: its address, the function code, the byte count, the registers, the CRC. -/
def replyFrame (slaveId : UInt8) (registers : List UInt16) : List UInt8 :=
  withCrc ([slaveId, 0x04, (2 * registers.length).toUInt8] ++ registers.flatMap fun v => [highByte v, lowByte v])

/-- `send_request`, which throws unless everything was written. -/
def sendRequest (adu : List UInt8) (written : Nat) : Except ModbusException Unit :=
  if written = (withCrc adu).length then .ok ()
  else .error (.frameError s!"short write: {written} of {(withCrc adu).length}")

/-- `receive_response` on the bytes that `read` delivered. -/
def receiveResponse (received : List UInt8) : Except ModbusException (List UInt8) :=
  if received.length < 4 then .error .timeout
  else
    let calcCrc := crc16 (received.take (received.length - 2))
    let rcvCrc := word (received.getD (received.length - 1) 0) (received.getD (received.length - 2) 0)
    if calcCrc ≠ rcvCrc then .error .crcError else .ok received

/-- The register at an index of a response. -/
def extractRegister (resp : List UInt8) (i : Nat) : Except ModbusException UInt16 :=
  let offset := 3 + i * 2
  if resp.length - 2 ≤ offset + 1 then .error (.frameError "truncated register data")
  else .ok (word (resp.getD offset 0) (resp.getD (offset + 1) 0))

/-- The length of the response to a request for `count` registers. -/
def expectedResponse (count : UInt16) : Nat := 3 + count.toNat * 2 + 2

/-- The part of `read_input_registers` that follows `receive_response`. -/
def decodeResponse (count : UInt16) (resp : List UInt8) : Except ModbusException (List UInt16) :=
  if resp.length < 5 then .error (.frameError s!"response too short: {resp.length}")
  else if resp.getD 1 0 = 0x04 ||| 0x80 then
    if resp.length < 3 then .error (.frameError "truncated exception response")
    else .error (.exceptionResponse (resp.getD 2 0))
  else if resp.getD 1 0 ≠ 0x04 then
    .error (.frameError ("unexpected function code: 0x" ++ ModbusException.toHex (resp.getD 1 0)))
  else if resp.getD 2 0 ≠ (count * 2).toUInt8 then
    .error (.frameError s!"byte count mismatch: expected {count.toNat * 2}, got {resp.getD 2 0}")
  else (List.range count.toNat).mapM (extractRegister resp)

/-- `read_input_registers`: `written` and `received` are the answers of the port. -/
def readInputRegisters (slaveId : UInt8) (startAddr count : UInt16) (written : Nat) (received : List UInt8) :
    Except ModbusException (List UInt16) := do
  if count < 1 ∨ 125 < count then throw (.frameError s!"register count out of range [1..125]: {count}")
  sendRequest (requestAdu slaveId startAddr count) written
  let resp ← receiveResponse received
  decodeResponse count resp

/-! ## What is accepted -/

theorem receiveResponse_ok {received resp : List UInt8} (h : receiveResponse received = .ok resp) :
    resp = received ∧ 4 ≤ received.length ∧ crc16 (received.take (received.length - 2)) =
      word (received.getD (received.length - 1) 0) (received.getD (received.length - 2) 0) := by
  unfold receiveResponse at h
  split at h
  · cases h
  rename_i hlen
  dsimp only at h
  split at h
  · cases h
  rename_i hcrc
  cases h
  exact ⟨rfl, by omega, not_not.mp hcrc⟩

theorem extractRegister_ok {resp : List UInt8} {i : Nat} {v : UInt16} (h : extractRegister resp i = .ok v) :
    3 + i * 2 + 1 < resp.length - 2 ∧ v = word (resp.getD (3 + i * 2) 0) (resp.getD (3 + i * 2 + 1) 0) := by
  unfold extractRegister at h
  dsimp only at h
  split at h
  · cases h
  · cases h
    exact ⟨by omega, rfl⟩

theorem decodeResponse_ok {count : UInt16} {resp : List UInt8} {registers : List UInt16}
    (h : decodeResponse count resp = .ok registers) :
    resp.getD 1 0 = 0x04 ∧ resp.getD 2 0 = (count * 2).toUInt8 ∧
      (List.range count.toNat).mapM (extractRegister resp) = .ok registers := by
  unfold decodeResponse at h
  split at h
  · cases h
  split at h
  · split at h <;> cases h
  split at h
  · cases h
  rename_i hfc
  split at h
  · cases h
  rename_i hcount
  exact ⟨not_not.mp hfc, not_not.mp hcount, h⟩

/-- One register is read from a frame with a reply of some slave. -/
theorem decodeResponse_one {received resp : List UInt8} {registers : List UInt16}
    (hreceive : receiveResponse received = .ok resp) (hdecode : decodeResponse 1 resp = .ok registers)
    (hlen : received.length ≤ expectedResponse 1) :
    ∃ address v, registers = [v] ∧ received = replyFrame address [v] := by
  obtain ⟨rfl, -, hcrc⟩ := receiveResponse_ok hreceive
  obtain ⟨hfc, hcount, hregs⟩ := decodeResponse_ok hdecode
  have hone : (List.range (1 : UInt16).toNat).mapM (extractRegister resp) = (extractRegister resp 0).map fun v => [v] := by
    show List.mapM (extractRegister resp) [0] = _
    rw [List.mapM_cons, List.mapM_nil]
    cases extractRegister resp 0 <;> rfl
  rw [hone] at hregs
  cases hv : extractRegister resp 0 with
  | error e =>
    rw [hv] at hregs
    cases hregs
  | ok v =>
    rw [hv] at hregs
    cases hregs
    obtain ⟨hlong, hvalue⟩ := extractRegister_ok hv
    have hseven : resp.length = 7 := by
      have hexpected : expectedResponse 1 = 7 := rfl
      omega
    match resp, hseven with
    | [a, b, c, d, e, f, g], _ =>
      have hb : b = 0x04 := hfc
      have hc : c = 2 := hcount
      have hv : v = word d e := hvalue
      have hcrc : crc16 [a, b, c, d, e] = word g f := hcrc
      refine ⟨a, v, rfl, ?_⟩
      show [a, b, c, d, e, f, g] = withCrc [a, 0x04, 2, highByte v, lowByte v]
      rw [hv, highByte_word, lowByte_word, withCrc, ← hb, ← hc, hcrc, highByte_word, lowByte_word]
      rfl

end IbarraGateway.ModbusBridge
