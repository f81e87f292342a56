import IbarraGateway.ModbusBridge.ErrorDetection

/-!
# Which responses are decoded, and as what

* `decodeResponse_ok_iff` : behind the CRC, the registers are read from exactly the replies that hold them.
* `readInputRegistersAt` : the same code with every access to the received bytes checked; no check fails
  (`readInputRegistersAt_eq`).
* `readInputRegisters_decodes` : what a call returns or throws for any bytes the port delivers.
-/

namespace IbarraGateway.ModbusBridge

/-! ## Registers -/

/-- The bytes of registers. -/
def registerBytes (registers : List UInt16) : List UInt8 := registers.flatMap fun v => [highByte v, lowByte v]

theorem registerBytes_cons (v : UInt16) (registers : List UInt16) :
    registerBytes (v :: registers) = highByte v :: lowByte v :: registerBytes registers := rfl

theorem length_registerBytes (registers : List UInt16) : (registerBytes registers).length = 2 * registers.length := by
  induction registers with
  | nil => rfl
  | cons v registers ih =>
    rw [registerBytes_cons, List.length_cons, List.length_cons, ih, List.length_cons]
    omega

/-- Any bytes, two for each register, are those of registers. -/
theorem exists_registers {n : Nat} {body : List UInt8} (h : body.length = 2 * n) :
    ∃ registers, registers.length = n ∧ body = registerBytes registers := by
  induction n generalizing body with
  | zero => exact ⟨[], rfl, List.length_eq_zero_iff.mp h⟩
  | succ n ih =>
    match body, h with
    | high :: low :: body, h =>
      obtain ⟨registers, hlength, rfl⟩ := @ih body (by simp at h; omega)
      refine ⟨word high low :: registers, by rw [List.length_cons, hlength], ?_⟩
      rw [registerBytes_cons, highByte_word, lowByte_word]

theorem registerBytes_getD {registers : List UInt16} {i : Nat} (hi : i < registers.length) :
    word ((registerBytes registers).getD (2 * i) 0) ((registerBytes registers).getD (2 * i + 1) 0) = registers[i] := by
  induction registers generalizing i with
  | nil => exact absurd hi (Nat.not_lt_zero i)
  | cons v registers ih =>
    rw [registerBytes_cons]
    cases i with
    | zero => exact word_bytes v
    | succ i => exact ih (Nat.lt_of_succ_lt_succ hi)

/-- A register of a reply. -/
theorem extractRegister_reply (a b c low high : UInt8) {registers : List UInt16} {i : Nat} (hi : i < registers.length) :
    extractRegister (a :: b :: c :: (registerBytes registers ++ [low, high])) i = .ok registers[i] := by
  have hlength := length_registerBytes registers
  have hbyte : ∀ k < 2 * registers.length,
      (a :: b :: c :: (registerBytes registers ++ [low, high])).getD (3 + k) 0 = (registerBytes registers).getD k 0 := by
    intro k hk
    rw [Nat.add_comm 3 k]
    show (registerBytes registers ++ [low, high]).getD k 0 = _
    rw [List.getD_append _ _ _ _ (by omega)]
  have hlong : ¬(a :: b :: c :: (registerBytes registers ++ [low, high])).length - 2 ≤ 3 + i * 2 + 1 := by
    simp only [List.length_cons, List.length_append, List.length_nil]
    omega
  rw [extractRegister, if_neg hlong, Nat.mul_comm i 2, hbyte _ (by omega), Nat.add_assoc 3, hbyte _ (by omega), registerBytes_getD hi]

/-! ## `mapM` over indices -/

section MapM
variable {ε α : Type}

theorem mapM_range_ok {f : Nat → Except ε α} {values : List α} (h : ∀ i, (hi : i < values.length) → f i = .ok values[i]) :
    (List.range values.length).mapM f = .ok values := by
  induction values generalizing f with
  | nil => rfl
  | cons v values ih =>
    have hrest := ih (f := fun i => f (i + 1)) fun i hi => h (i + 1) (Nat.succ_lt_succ hi)
    rw [List.length_cons, List.range_succ_eq_map, List.mapM_cons, h 0 (Nat.succ_pos _)]
    rw [List.mapM_map]
    show (do let rest ← (List.range values.length).mapM (fun i => f (i + 1)); pure (v :: rest)) = _
    rw [hrest]
    rfl

/-- What a `mapM` that succeeds says of each element. -/
theorem of_mapM_ok {β : Type} {f : β → Except ε α} {xs : List β} {values : List α} (h : xs.mapM f = .ok values) :
    values.length = xs.length ∧ ∀ x ∈ xs, ∃ v, f x = .ok v := by
  induction xs generalizing values with
  | nil =>
    cases h
    exact ⟨rfl, nofun⟩
  | cons x xs ih =>
    rw [List.mapM_cons] at h
    cases hx : f x with
    | error e =>
      rw [hx] at h
      cases h
    | ok v =>
      cases hxs : xs.mapM f with
      | error e =>
        rw [hx, hxs] at h
        cases h
      | ok rest =>
        rw [hx, hxs] at h
        cases h
        obtain ⟨hlength, hall⟩ := ih hxs
        refine ⟨by rw [List.length_cons, List.length_cons, hlength], ?_⟩
        intro y hy
        rcases List.mem_cons.mp hy with rfl | hy
        · exact ⟨v, hx⟩
        · exact hall y hy

theorem of_mapM_error {β : Type} {f : β → Except ε α} {xs : List β} {e : ε} (h : xs.mapM f = .error e) :
    ∃ x ∈ xs, f x = .error e := by
  induction xs with
  | nil => cases h
  | cons x xs ih =>
    rw [List.mapM_cons] at h
    cases hx : f x with
    | error d =>
      rw [hx] at h
      cases h
      exact ⟨x, List.mem_cons_self, hx⟩
    | ok v =>
      cases hxs : xs.mapM f with
      | error d =>
        rw [hx, hxs] at h
        cases h
        obtain ⟨y, hy, hf⟩ := ih hxs
        exact ⟨y, List.mem_cons_of_mem x hy, hf⟩
      | ok rest =>
        rw [hx, hxs] at h
        cases h

end MapM

/-! ## `read_input_registers` behind the CRC -/

section Decode
variable {count : UInt16}

theorem byteCount_eq (hmax : count ≤ 125) {n : Nat} (hn : n = count.toNat) : (2 * n).toUInt8 = (count * 2).toUInt8 := by
  have hle : count.toNat ≤ 125 := hmax
  apply UInt8.toNat_inj.mp
  rw [UInt16.toNat_toUInt8, UInt16.toNat_mul]
  show (2 * n) % 2 ^ 8 = count.toNat * 2 % 2 ^ 16 % 2 ^ 8
  omega

/-- A reply with its parts in view. -/
theorem replyFrame_eq (b : UInt8) (registers : List UInt16) :
    ∃ low high, replyFrame b registers =
      b :: 0x04 :: (2 * registers.length).toUInt8 :: (registerBytes registers ++ [low, high]) :=
  ⟨_, _, rfl⟩

theorem decodeResponse_reply (hmax : count ≤ 125) (b : UInt8) {registers : List UInt16}
    (hlength : registers.length = count.toNat) : decodeResponse count (replyFrame b registers) = .ok registers := by
  obtain ⟨low, high, hframe⟩ := replyFrame_eq b registers
  have hlong : ¬(replyFrame b registers).length < 5 := by
    rw [hframe]
    simp only [List.length_cons, List.length_append]
    omega
  have hbyteCount : (replyFrame b registers).getD 2 0 = (count * 2).toUInt8 := by
    rw [hframe]
    exact byteCount_eq hmax hlength
  have hfc : (replyFrame b registers).getD 1 0 = 0x04 := by
    rw [hframe]
    rfl
  rw [decodeResponse, if_neg hlong, hfc, if_neg (by decide), if_neg (not_not.mpr rfl), if_neg (not_not.mpr hbyteCount),
    ← hlength, hframe]
  exact mapM_range_ok fun i hi => extractRegister_reply _ _ _ _ _ hi

/-- Registers are read from the reply that holds them, and from nothing else of its length that has its CRC. -/
theorem decodeResponse_ok_iff (hpos : 1 ≤ count) (hmax : count ≤ 125) {resp : List UInt8} (hfour : 4 ≤ resp.length)
    (hcrc : crc16 resp = 0) (hlen : resp.length ≤ expectedResponse count) (registers : List UInt16) :
    decodeResponse count resp = .ok registers ↔
      ∃ b, registers.length = count.toNat ∧ resp = replyFrame b registers := by
  have hone : 1 ≤ count.toNat := hpos
  constructor
  · intro h
    obtain ⟨hfc, hbyteCount, hregs⟩ := decodeResponse_ok h
    obtain ⟨hlength, hall⟩ := of_mapM_ok hregs
    rw [List.length_range] at hlength
    -- the last register is there, so the response has its full length
    obtain ⟨v, hlast⟩ := hall (count.toNat - 1) (List.mem_range.mpr (by omega))
    have hlong := (extractRegister_ok hlast).1
    unfold expectedResponse at hlen
    obtain ⟨data, low, high, rfl⟩ := @exists_last_two resp (by omega)
    rw [List.length_append] at hlen hlong
    simp only [List.length_cons, List.length_nil] at hlen hlong
    match data, hlong with
    | b :: fc :: byteCount :: body, hlong =>
      simp only [List.length_cons] at hlen hlong
      obtain ⟨registers', hlength', rfl⟩ := @exists_registers count.toNat body (by omega)
      have hread : (List.range count.toNat).mapM (extractRegister (b :: fc :: byteCount :: (registerBytes registers' ++ [low, high]))) =
          .ok registers' := by
        rw [← hlength']
        exact mapM_range_ok fun i hi => extractRegister_reply _ _ _ _ _ hi
      have hsame : registers' = registers := Except.ok.inj (hread.symm.trans hregs)
      subst hsame
      have hfc : fc = 0x04 := hfc
      have hbyteCount : byteCount = (2 * registers'.length).toUInt8 := hbyteCount.trans (byteCount_eq hmax hlength).symm
      have hword := (crc16_eq_zero_iff _ high low).mp hcrc
      refine ⟨b, hlength, ?_⟩
      rw [replyFrame]
      show _ = withCrc (b :: 0x04 :: (2 * registers'.length).toUInt8 :: registerBytes registers')
      rw [withCrc, ← hfc, ← hbyteCount, hword, lowByte_word, highByte_word]
  · rintro ⟨b, hlength, rfl⟩
    exact decodeResponse_reply hmax b hlength

/-- Behind the CRC: registers, the slave's exception, or a frame error. -/
theorem decodeResponse_cases (resp : List UInt8) :
    (∃ registers, decodeResponse count resp = .ok registers) ∨
    (5 ≤ resp.length ∧ resp.getD 1 0 = 0x84 ∧ decodeResponse count resp = .error (.exceptionResponse (resp.getD 2 0))) ∨
    (¬(5 ≤ resp.length ∧ resp.getD 1 0 = 0x84) ∧ ∃ detail, decodeResponse count resp = .error (.frameError detail)) := by
  by_cases hshort : resp.length < 5
  · exact .inr (.inr ⟨fun h => absurd h.1 (by omega), _, if_pos hshort⟩)
  · by_cases hexception : resp.getD 1 0 = 0x04 ||| 0x80
    · refine .inr (.inl ⟨by omega, hexception, ?_⟩)
      rw [decodeResponse, if_neg hshort, if_pos hexception, if_neg (by omega)]
    · have hnot : ¬(5 ≤ resp.length ∧ resp.getD 1 0 = 0x84) := fun h => hexception h.2
      cases hresult : decodeResponse count resp with
      | ok registers => exact .inl ⟨registers, rfl⟩
      | error e =>
        refine .inr (.inr ⟨hnot, ?_⟩)
        rw [decodeResponse, if_neg hshort, if_neg hexception] at hresult
        split at hresult
        · cases hresult
          exact ⟨_, rfl⟩
        split at hresult
        · cases hresult
          exact ⟨_, rfl⟩
        · obtain ⟨i, -, hi⟩ := of_mapM_error hresult
          rw [extractRegister] at hi
          split at hi
          · cases hi
            exact ⟨_, rfl⟩
          · cases hi

end Decode

/-! ## Accesses -/

/-- A computation that reads the received bytes: `none` where it reads outside them. -/
abbrev Reading (α : Type) := ExceptT ModbusException Option α

def byteAt (bytes : List UInt8) (i : Nat) : Reading UInt8 := ExceptT.mk (bytes[i]?.map .ok)

/-- `crc16` on the first `len` bytes. -/
def crc16At (data : List UInt8) (len : Nat) : Reading UInt16 :=
  (List.range len).foldlM (fun crc i => do
    let byte ← byteAt data i
    return (crc >>> 8) ^^^ crc16Table.getD (crc.toUInt8 ^^^ byte).toNat 0) 0xFFFF

def receiveResponseAt (received : List UInt8) : Reading (List UInt8) :=
  if received.length < 4 then throw .timeout
  else do
    let calcCrc ← crc16At received (received.length - 2)
    let low ← byteAt received (received.length - 2)
    let high ← byteAt received (received.length - 1)
    if calcCrc ≠ word high low then throw .crcError else return received

def extractRegisterAt (resp : List UInt8) (i : Nat) : Reading UInt16 :=
  if resp.length - 2 ≤ 3 + i * 2 + 1 then throw (.frameError "truncated register data")
  else do
    let high ← byteAt resp (3 + i * 2)
    let low ← byteAt resp (3 + i * 2 + 1)
    return word high low

def decodeResponseAt (count : UInt16) (resp : List UInt8) : Reading (List UInt16) :=
  if resp.length < 5 then throw (.frameError s!"response too short: {resp.length}")
  else do
    let fc ← byteAt resp 1
    if fc = 0x04 ||| 0x80 then
      if resp.length < 3 then throw (.frameError "truncated exception response")
      else do
        let code ← byteAt resp 2
        throw (.exceptionResponse code)
    else if fc ≠ 0x04 then throw (.frameError ("unexpected function code: 0x" ++ ModbusException.toHex fc))
    else do
      let byteCount ← byteAt resp 2
      if byteCount ≠ (count * 2).toUInt8 then
        throw (.frameError s!"byte count mismatch: expected {count.toNat * 2}, got {byteCount}")
      else (List.range count.toNat).mapM (extractRegisterAt resp)

/-- `read_input_registers`, with every access to what was received checked. -/
def readInputRegistersAt (slaveId : UInt8) (startAddr count : UInt16) (written : Nat) (received : List UInt8) :
    Reading (List UInt16) :=
  if count < 1 ∨ 125 < count then throw (.frameError s!"register count out of range [1..125]: {count}")
  else do
    let _ ← (ExceptT.mk (some (sendRequest (requestAdu slaveId startAddr count) written)) : Reading Unit)
    let resp ← receiveResponseAt received
    decodeResponseAt count resp

/-- Every access is inside, and this is the outcome. -/
def Reads {α : Type} (m : Reading α) (outcome : Except ModbusException α) : Prop := m.run = some outcome

section Reads
variable {α β : Type}

theorem reads_byteAt {bytes : List UInt8} {i : Nat} (hi : i < bytes.length) : Reads (byteAt bytes i) (.ok (bytes.getD i 0)) := by
  show bytes[i]?.map Except.ok = _
  rw [List.getD_eq_getElem _ _ hi, List.getElem?_eq_getElem hi]
  rfl

theorem Reads.bind {m : Reading α} {x : Except ModbusException α} {f : α → Reading β} {g : α → Except ModbusException β}
    (hm : Reads m x) (hf : ∀ a, x = .ok a → Reads (f a) (g a)) : Reads (m >>= f) (x >>= g) := by
  unfold Reads at hm
  cases x with
  | error e =>
    show (ExceptT.run m).bind _ = _
    rw [hm]
    rfl
  | ok a =>
    show (ExceptT.run m).bind _ = _
    rw [hm]
    exact hf a rfl

theorem Reads.bind_ok {m : Reading α} {a : α} {f : α → Reading β} {y : Except ModbusException β}
    (hm : Reads m (.ok a)) (hf : Reads (f a) y) : Reads (m >>= f) y := by
  have h := hm.bind (f := f) (g := fun _ => y) fun b hb => by cases hb; exact hf
  exact h

theorem Reads.mapM {f : β → Reading α} {g : β → Except ModbusException α} {xs : List β} (h : ∀ x ∈ xs, Reads (f x) (g x)) :
    Reads (xs.mapM f) (xs.mapM g) := by
  induction xs with
  | nil => rfl
  | cons x xs ih =>
    rw [List.mapM_cons, List.mapM_cons]
    refine (h x List.mem_cons_self).bind fun v _ => ?_
    exact (ih fun y hy => h y (List.mem_cons_of_mem x hy)).bind fun rest _ => rfl

end Reads

theorem reads_crc16At {data : List UInt8} {len : Nat} (hlen : len ≤ data.length) :
    Reads (crc16At data len) (.ok (crc16 (data.take len))) := by
  induction len with
  | zero => rfl
  | succ len ih =>
    have htake : data.take (len + 1) = data.take len ++ [data.getD len 0] := by
      rw [List.take_succ_eq_append_getElem (by omega), List.getD_eq_getElem _ _ (by omega)]
    unfold crc16At at ih ⊢
    rw [List.range_succ, List.foldlM_append, htake, crc16, List.foldl_append]
    refine (ih (by omega)).bind_ok ?_
    rw [List.foldlM_cons]
    have hstep : Reads (do
        let byte ← byteAt data len
        return (crc16 (data.take len) >>> 8) ^^^ crc16Table.getD ((crc16 (data.take len)).toUInt8 ^^^ byte).toNat 0)
        (.ok ((crc16 (data.take len) >>> 8) ^^^
          crc16Table.getD ((crc16 (data.take len)).toUInt8 ^^^ data.getD len 0).toNat 0)) :=
      (reads_byteAt (by omega)).bind_ok rfl
    exact hstep.bind_ok rfl

theorem reads_receiveResponseAt (received : List UInt8) : Reads (receiveResponseAt received) (receiveResponse received) := by
  unfold receiveResponseAt receiveResponse
  split
  · rfl
  · refine (reads_crc16At (by omega)).bind_ok ((reads_byteAt (by omega)).bind_ok ((reads_byteAt (by omega)).bind_ok ?_))
    show Reads _ (if crc16 (received.take (received.length - 2)) ≠
      word (received.getD (received.length - 1) 0) (received.getD (received.length - 2) 0) then _ else _)
    split <;> rfl

theorem reads_extractRegisterAt (resp : List UInt8) (i : Nat) : Reads (extractRegisterAt resp i) (extractRegister resp i) := by
  unfold extractRegisterAt
  show Reads _ (if resp.length - 2 ≤ 3 + i * 2 + 1 then _ else _)
  split
  · rfl
  · exact (reads_byteAt (by omega)).bind_ok ((reads_byteAt (by omega)).bind_ok rfl)

theorem reads_decodeResponseAt (count : UInt16) (resp : List UInt8) :
    Reads (decodeResponseAt count resp) (decodeResponse count resp) := by
  unfold decodeResponseAt decodeResponse
  split
  · rfl
  · refine (reads_byteAt (by omega)).bind_ok ?_
    split
    · split
      · rfl
      · exact (reads_byteAt (by omega)).bind_ok rfl
    split
    · rfl
    · refine (reads_byteAt (by omega)).bind_ok ?_
      split
      · rfl
      · exact Reads.mapM fun i _ => reads_extractRegisterAt resp i

/-- No access is outside what was received. -/
theorem readInputRegistersAt_eq (slaveId : UInt8) (startAddr count : UInt16) (written : Nat) (received : List UInt8) :
    Reads (readInputRegistersAt slaveId startAddr count written received)
      (readInputRegisters slaveId startAddr count written received) := by
  unfold readInputRegistersAt readInputRegisters
  split
  · rfl
  · have hsend : Reads (ExceptT.mk (some (sendRequest (requestAdu slaveId startAddr count) written)))
        (sendRequest (requestAdu slaveId startAddr count) written) := rfl
    exact hsend.bind fun _ _ => (reads_receiveResponseAt received).bind fun resp _ => reads_decodeResponseAt count resp

/-! ## A call -/

theorem length_request (slaveId : UInt8) (startAddr count : UInt16) :
    (withCrc (requestAdu slaveId startAddr count)).length = 8 := rfl

/-- A request that is written whole leaves the rest to the bytes that are received. -/
theorem readInputRegisters_written {slaveId : UInt8} {startAddr count : UInt16} (hpos : 1 ≤ count) (hmax : count ≤ 125)
    (received : List UInt8) :
    readInputRegisters slaveId startAddr count 8 received = receiveResponse received >>= decodeResponse count := by
  have hrange : ¬(count < 1 ∨ 125 < count) := by
    rintro (h | h)
    · exact absurd hpos (UInt16.not_le.mpr h)
    · exact absurd hmax (UInt16.not_le.mpr h)
  have hsend : sendRequest (requestAdu slaveId startAddr count) 8 = .ok () := if_pos (length_request slaveId startAddr count).symm
  rw [readInputRegisters, if_neg hrange, hsend]
  rfl

/-- `receive_response` by length and residue. -/
theorem receiveResponse_cases (received : List UInt8) :
    (received.length < 4 ∧ receiveResponse received = .error .timeout) ∨
    (4 ≤ received.length ∧ crc16 received ≠ 0 ∧ receiveResponse received = .error .crcError) ∨
    (4 ≤ received.length ∧ crc16 received = 0 ∧ receiveResponse received = .ok received) := by
  by_cases hshort : received.length < 4
  · exact .inl ⟨hshort, if_pos hshort⟩
  · have hfour : 4 ≤ received.length := by omega
    by_cases hcrc : crc16 received = 0
    · exact .inr (.inr ⟨hfour, hcrc, (receiveResponse_ok_iff received).mpr ⟨hfour, hcrc⟩⟩)
    · refine .inr (.inl ⟨hfour, hcrc, ?_⟩)
      obtain ⟨data, low, high, rfl⟩ := @exists_last_two received (by omega)
      have htwo : ¬data.length < 2 := by
        have hlength : (data ++ [low, high]).length = data.length + 2 := List.length_append
        omega
      rw [receiveResponse_append, if_neg htwo, if_pos (fun h => hcrc ((crc16_eq_zero_iff _ _ _).mpr h))]

/-- What a call returns or throws for the bytes that the port delivers, which it never reads beyond. -/
theorem readInputRegisters_decodes {slaveId : UInt8} {startAddr count : UInt16} (hpos : 1 ≤ count) (hmax : count ≤ 125)
    {received : List UInt8} (hlen : received.length ≤ expectedResponse count) :
    (∀ registers, readInputRegisters slaveId startAddr count 8 received = .ok registers ↔
      ∃ b, registers.length = count.toNat ∧ received = replyFrame b registers) ∧
    (readInputRegisters slaveId startAddr count 8 received = .error .timeout ↔ received.length < 4) ∧
    (readInputRegisters slaveId startAddr count 8 received = .error .crcError ↔
      4 ≤ received.length ∧ crc16 received ≠ 0) ∧
    (∀ code, readInputRegisters slaveId startAddr count 8 received = .error (.exceptionResponse code) ↔
      5 ≤ received.length ∧ crc16 received = 0 ∧ received.getD 1 0 = 0x84 ∧ received.getD 2 0 = code) ∧
    ((∃ detail, readInputRegisters slaveId startAddr count 8 received = .error (.frameError detail)) ↔
      4 ≤ received.length ∧ crc16 received = 0 ∧ ¬(5 ≤ received.length ∧ received.getD 1 0 = 0x84) ∧
        ¬∃ b registers, registers.length = count.toNat ∧ received = replyFrame b registers) ∧
    Reads (readInputRegistersAt slaveId startAddr count 8 received)
      (readInputRegisters slaveId startAddr count 8 received) := by
  have hreads := readInputRegistersAt_eq slaveId startAddr count 8 received
  have hreply : ∀ b (registers : List UInt16), received = replyFrame b registers →
      4 ≤ received.length ∧ crc16 received = 0 := by
    rintro b registers rfl
    obtain ⟨low, high, hframe⟩ := replyFrame_eq b registers
    refine ⟨?_, crc16_withCrc _⟩
    rw [hframe]
    simp only [List.length_cons, List.length_append]
    omega
  rw [readInputRegisters_written hpos hmax] at hreads ⊢
  rcases receiveResponse_cases received with ⟨hshort, hresult⟩ | ⟨hfour, hcrc, hresult⟩ | ⟨hfour, hcrc, hresult⟩
  · have hcall : receiveResponse received >>= decodeResponse count = .error .timeout := by rw [hresult]; rfl
    have hno : ¬∃ b registers, registers.length = count.toNat ∧ received = replyFrame b registers :=
      fun ⟨b, registers, _, hb⟩ => absurd (hreply b registers hb).1 (by omega)
    rw [hcall] at hreads ⊢
    refine ⟨fun registers => ⟨nofun, fun ⟨b, hb⟩ => absurd ⟨b, registers, hb⟩ hno⟩, ⟨fun _ => hshort, fun _ => rfl⟩,
      ⟨nofun, fun h => absurd h.1 (by omega)⟩, fun code => ⟨nofun, fun h => absurd h.1 (by omega)⟩,
      ⟨nofun, fun h => absurd h.1 (by omega)⟩, hreads⟩
  · have hcall : receiveResponse received >>= decodeResponse count = .error .crcError := by rw [hresult]; rfl
    rw [hcall] at hreads ⊢
    refine ⟨fun registers => ⟨nofun, fun ⟨b, hb⟩ => absurd (hreply b registers hb.2).2 hcrc⟩, ⟨nofun, fun h => by omega⟩,
      ⟨fun _ => ⟨hfour, hcrc⟩, fun _ => rfl⟩, fun code => ⟨nofun, fun h => absurd h.2.1 hcrc⟩,
      ⟨nofun, fun h => absurd h.2.1 hcrc⟩, hreads⟩
  · have hcall : receiveResponse received >>= decodeResponse count = decodeResponse count received := by rw [hresult]; rfl
    have hok := decodeResponse_ok_iff hpos hmax hfour hcrc hlen
    rw [hcall] at hreads ⊢
    rcases @decodeResponse_cases count received with ⟨registers, hd⟩ | ⟨hfive, hfc, hd⟩ | ⟨hnot, detail, hd⟩
    · have hexists := (hok registers).mp hd
      have hnofc : received.getD 1 0 ≠ 0x84 := by
        rw [(decodeResponse_ok hd).1]
        decide
      refine ⟨hok, ?_, ?_, ?_, ?_, hreads⟩ <;> rw [hd]
      · exact ⟨nofun, fun h => by omega⟩
      · exact ⟨nofun, fun h => absurd hcrc h.2⟩
      · exact fun code => ⟨nofun, fun h => absurd h.2.2.1 hnofc⟩
      · exact ⟨nofun, fun h => absurd (hexists.imp fun b hb => ⟨registers, hb⟩) h.2.2.2⟩
    · refine ⟨hok, ?_, ?_, ?_, ?_, hreads⟩ <;> rw [hd]
      · exact ⟨nofun, fun h => by omega⟩
      · exact ⟨nofun, fun h => absurd hcrc h.2⟩
      · exact fun code => ⟨fun h => by cases h; exact ⟨hfive, hcrc, hfc, rfl⟩, fun h => by rw [h.2.2.2]⟩
      · exact ⟨nofun, fun h => absurd ⟨hfive, hfc⟩ h.2.2.1⟩
    · refine ⟨hok, ?_, ?_, ?_, ?_, hreads⟩
      · rw [hd]
        exact ⟨nofun, fun h => by omega⟩
      · rw [hd]
        exact ⟨nofun, fun h => absurd hcrc h.2⟩
      · rw [hd]
        exact fun code => ⟨nofun, fun h => absurd ⟨h.1, h.2.2.1⟩ hnot⟩
      · refine ⟨fun _ => ⟨hfour, hcrc, hnot, ?_⟩, fun _ => ⟨detail, hd⟩⟩
        rintro ⟨b, registers, hb⟩
        rw [(hok registers).mpr ⟨b, hb⟩] at hd
        cases hd

/-- Two registers of slave 0x11. -/
theorem readInputRegisters_decodes_two :
    readInputRegisters 0x11 0x0000 2 8 (replyFrame 0x11 [0x1234, 0x00FF]) = .ok [0x1234, 0x00FF] :=
  ((readInputRegisters_decodes (by decide) (by decide) (by decide)).1 _).mpr ⟨0x11, rfl, rfl⟩

end IbarraGateway.ModbusBridge
