import Mathlib

/-!
# Reading bytes as UTF-8

The decoder that replaces what is no UTF-8 : the longest start of a character that does not go on becomes one U+FFFD, and
the byte that does not fit is read again from the start. ASCII is read as itself wherever it stands, so a text with ASCII
around unknown bytes is read piece by piece (`decode_append`, `decode_ascii`), and it is read nowhere else
(`mem_of_mem_decode`).
-/

namespace IbarraGateway.Utf8

def replacement : Char := Char.ofNat 0xFFFD

/-- Between characters, or within one: how many bytes are owed, the range of the next one, and the bits so far. -/
inductive State
  | start
  | pending (owed : Nat) (low high : Nat) (bits : Nat)

/-- A byte that begins a character. -/
def first (b : Nat) : State × List Char :=
  if b ≤ 0x7F then (.start, [Char.ofNat b])
  else if 0xC2 ≤ b ∧ b ≤ 0xDF then (.pending 1 0x80 0xBF (b - 0xC0), [])
  else if 0xE0 ≤ b ∧ b ≤ 0xEF then
    (.pending 2 (if b = 0xE0 then 0xA0 else 0x80) (if b = 0xED then 0x9F else 0xBF) (b - 0xE0), [])
  else if 0xF0 ≤ b ∧ b ≤ 0xF4 then
    (.pending 3 (if b = 0xF0 then 0x90 else 0x80) (if b = 0xF4 then 0x8F else 0xBF) (b - 0xF0), [])
  else (.start, [replacement])

def step : State → Nat → State × List Char
  | .start, b => first b
  | .pending owed low high bits, b =>
    if low ≤ b ∧ b ≤ high then
      if owed ≤ 1 then (.start, [Char.ofNat (bits * 64 + (b - 0x80))])
      else (.pending (owed - 1) 0x80 0xBF (bits * 64 + (b - 0x80)), [])
    else ((first b).1, replacement :: (first b).2)

/-- What a character that does not go on leaves. -/
def flush : State → List Char
  | .start => []
  | .pending .. => [replacement]

def decodeFrom : State → List UInt8 → List Char
  | s, [] => flush s
  | s, b :: bytes => (step s b.toNat).2 ++ decodeFrom (step s b.toNat).1 bytes

def decode (bytes : List UInt8) : List Char := decodeFrom .start bytes

/-- The bytes of a text of ASCII. -/
def ascii (text : List Char) : List UInt8 := text.map fun c => UInt8.ofNat c.toNat

/-- A text of ASCII, by evaluation. -/
def IsAscii (text : List Char) : Prop := text.all (fun c => decide (c.toNat < 0x80)) = true

instance (text : List Char) : Decidable (IsAscii text) := inferInstanceAs (Decidable (_ = true))

theorem isAscii_append {text text' : List Char} : IsAscii (text ++ text') ↔ IsAscii text ∧ IsAscii text' := by
  unfold IsAscii
  rw [List.all_append, Bool.and_eq_true]

/-! ## Pieces -/

/-- Every state of the decoder waits for bytes behind ASCII. -/
def State.Waits : State → Prop
  | start => True
  | pending _ low _ _ => 0x80 ≤ low

theorem waits_start : State.start.Waits := trivial

theorem waits_first (b : Nat) : (first b).1.Waits := by
  unfold first
  split
  · trivial
  split
  · exact Nat.le_refl _
  split
  · show 0x80 ≤ if b = 0xE0 then 0xA0 else 0x80
    split <;> decide
  split
  · show 0x80 ≤ if b = 0xF0 then 0x90 else 0x80
    split <;> decide
  · trivial

theorem waits_step {s : State} (b : Nat) : (step s b).1.Waits := by
  cases s with
  | start => exact waits_first b
  | pending owed low high bits =>
    rw [step]
    split
    · split
      · trivial
      · exact Nat.le_refl _
    · exact waits_first b

/-- A byte of ASCII ends what stands before it. -/
theorem decodeFrom_ascii {s : State} (hs : s.Waits) {b : UInt8} (hb : b.toNat < 0x80) (bytes : List UInt8) :
    decodeFrom s (b :: bytes) = flush s ++ Char.ofNat b.toNat :: decode bytes := by
  have hfirst : first b.toNat = (.start, [Char.ofNat b.toNat]) := if_pos (Nat.le_of_lt_succ hb)
  rw [decodeFrom]
  cases s with
  | start =>
    rw [step, hfirst]
    rfl
  | pending owed low high bits =>
    have hout : ¬(low ≤ b.toNat ∧ b.toNat ≤ high) := fun h => absurd (Nat.le_trans hs h.1) (Nat.not_le_of_lt hb)
    rw [step, if_neg hout, hfirst]
    rfl

theorem decodeFrom_append {s : State} (hs : s.Waits) (bytes : List UInt8) {b : UInt8} (hb : b.toNat < 0x80)
    (rest : List UInt8) : decodeFrom s (bytes ++ b :: rest) = decodeFrom s bytes ++ decode (b :: rest) := by
  induction bytes generalizing s with
  | nil =>
    rw [List.nil_append, decode, decodeFrom_ascii hs hb, decodeFrom_ascii waits_start hb]
    rfl
  | cons a bytes ih =>
    rw [List.cons_append, decodeFrom, ih (waits_step _), decodeFrom, List.append_assoc]

/-- ASCII is read as itself. -/
theorem decode_ascii {text : List Char} (h : IsAscii text) (rest : List UInt8) :
    decode (ascii text ++ rest) = text ++ decode rest := by
  induction text with
  | nil => rfl
  | cons c text ih =>
    obtain ⟨hc, htext⟩ := Bool.and_eq_true_iff.mp (show (decide (c.toNat < 0x80) && text.all _) = true from h)
    have hlt := of_decide_eq_true hc
    have hbyte : (UInt8.ofNat c.toNat).toNat = c.toNat := UInt8.toNat_ofNat_of_lt' (Nat.lt_trans hlt (by decide))
    show decodeFrom .start (UInt8.ofNat c.toNat :: (ascii text ++ rest)) = _
    rw [decodeFrom_ascii waits_start (by rw [hbyte]; exact hlt), hbyte, Char.ofNat_toNat, ih htext]
    rfl

/-- Unknown bytes in front of ASCII. -/
theorem decode_append (bytes : List UInt8) {c : Char} {text : List Char} (h : IsAscii (c :: text)) (rest : List UInt8) :
    decode (bytes ++ (ascii (c :: text) ++ rest)) = decode bytes ++ (c :: text ++ decode rest) := by
  obtain ⟨hc, -⟩ := Bool.and_eq_true_iff.mp (show (decide (c.toNat < 0x80) && text.all _) = true from h)
  have hlt := of_decide_eq_true hc
  have hbyte : (UInt8.ofNat c.toNat).toNat < 0x80 := by
    rw [UInt8.toNat_ofNat_of_lt' (Nat.lt_trans hlt (by decide))]
    exact hlt
  rw [← decode_ascii h rest]
  exact decodeFrom_append waits_start bytes hbyte (ascii text ++ rest)

/-! ## Where ASCII comes from -/

/-- Whatever bytes follow, the character that is under way is behind ASCII. -/
def State.Wide : State → Prop
  | start => True
  | pending owed low _ bits => 0x80 ≤ (bits * 64 + (low - 0x80)) * 64 ^ (owed - 1)

theorem wide_first (b : Nat) : (first b).1.Wide := by
  unfold first
  split
  · trivial
  split
  · show 0x80 ≤ ((b - 0xC0) * 64 + (0x80 - 0x80)) * 64 ^ (1 - 1)
    omega
  split
  · show 0x80 ≤ ((b - 0xE0) * 64 + ((if b = 0xE0 then 0xA0 else 0x80) - 0x80)) * 64 ^ (2 - 1)
    split <;> omega
  split
  · show 0x80 ≤ ((b - 0xF0) * 64 + ((if b = 0xF0 then 0x90 else 0x80) - 0x80)) * 64 ^ (3 - 1)
    split <;> omega
  · trivial

theorem wide_step {s : State} (hs : s.Wide) (b : Nat) : (step s b).1.Wide := by
  cases s with
  | start => exact wide_first b
  | pending owed low high bits =>
    rw [step]
    split
    · rename_i hrange
      split
      · trivial
      · rename_i howed
        have hmore : bits * 64 + (low - 0x80) ≤ bits * 64 + (b - 0x80) :=
          Nat.add_le_add_left (Nat.sub_le_sub_right hrange.1 _) _
        show 0x80 ≤ ((bits * 64 + (b - 0x80)) * 64 + (0x80 - 0x80)) * 64 ^ (owed - 1 - 1)
        calc 0x80 ≤ (bits * 64 + (low - 0x80)) * 64 ^ (owed - 1) := hs
          _ ≤ (bits * 64 + (b - 0x80)) * 64 ^ (owed - 1) := Nat.mul_le_mul_right _ hmore
          _ = ((bits * 64 + (b - 0x80)) * 64 + (0x80 - 0x80)) * 64 ^ (owed - 1 - 1) := by
            rw [Nat.sub_self, Nat.add_zero, Nat.mul_assoc, ← Nat.pow_succ', Nat.succ_eq_add_one, Nat.sub_add_cancel (by omega)]
    · exact wide_first b

theorem toNat_ofNat (n : Nat) : (Char.ofNat n).toNat = if n.isValidChar then n else 0 := by
  unfold Char.ofNat
  split
  · rfl
  · rfl

section Ascii
variable {c : Char}

/-- No number behind ASCII has a character of ASCII but the null character. -/
theorem ofNat_ne (hc : c.toNat < 0x80) (hnull : c ≠ '\x00') {n : Nat} (hn : 0x80 ≤ n) : c ≠ Char.ofNat n := by
  intro heq
  have hvalue := congrArg Char.toNat heq
  rw [toNat_ofNat] at hvalue
  split at hvalue
  · omega
  · exact hnull (by rw [← Char.ofNat_toNat c, hvalue])

theorem ne_replacement (hc : c.toNat < 0x80) : c ≠ replacement := by
  rintro rfl
  exact absurd hc (by decide)

theorem mem_first (hc : c.toNat < 0x80) {b : Nat} (hmem : c ∈ (first b).2) : c.toNat = b := by
  unfold first at hmem
  split at hmem
  · rename_i hb
    rw [List.mem_singleton.mp hmem, toNat_ofNat, if_pos]
    exact .inl (by omega)
  split at hmem
  · cases hmem
  split at hmem
  · cases hmem
  split at hmem
  · cases hmem
  · exact absurd (List.mem_singleton.mp hmem) (ne_replacement hc)

theorem mem_step {s : State} (hs : s.Wide) {b : Nat} (hc : c.toNat < 0x80) (hnull : c ≠ '\x00')
    (hmem : c ∈ (step s b).2) : c.toNat = b := by
  cases s with
  | start => exact mem_first hc hmem
  | pending owed low high bits =>
    rw [step] at hmem
    split at hmem
    · rename_i hrange
      split at hmem
      · rename_i howed
        have hlow : 0x80 ≤ bits * 64 + (low - 0x80) := by
          have hwide : 0x80 ≤ (bits * 64 + (low - 0x80)) * 64 ^ (owed - 1) := hs
          rwa [Nat.sub_eq_zero_of_le howed, Nat.pow_zero, Nat.mul_one] at hwide
        exact absurd (List.mem_singleton.mp hmem) (ofNat_ne hc hnull (by omega))
      · cases hmem
    · rcases List.mem_cons.mp hmem with heq | hfirst
      · exact absurd heq (ne_replacement hc)
      · exact mem_first hc hfirst

/-- A character of ASCII is read from its byte only. -/
theorem mem_of_mem_decode {bytes : List UInt8} (hc : c.toNat < 0x80) (hnull : c ≠ '\x00') (hmem : c ∈ decode bytes) :
    UInt8.ofNat c.toNat ∈ bytes := by
  have hfrom : ∀ (bytes : List UInt8) (s : State), s.Wide → c ∈ decodeFrom s bytes → UInt8.ofNat c.toNat ∈ bytes := by
    intro bytes
    induction bytes with
    | nil =>
      intro s _ hmem
      cases s with
      | start => cases hmem
      | pending owed low high bits => exact absurd (List.mem_singleton.mp hmem) (ne_replacement hc)
    | cons b bytes ih =>
      intro s hs hmem
      rcases List.mem_append.mp hmem with hhere | hrest
      · rw [mem_step hs hc hnull hhere, UInt8.ofNat_toNat]
        exact List.mem_cons_self
      · exact List.mem_cons_of_mem _ (ih _ (wide_step hs _) hrest)
  exact hfrom bytes .start trivial hmem

end Ascii

/-! ## Encoding -/

/-- The bytes of a text. -/
def encode (text : List Char) : List UInt8 := text.flatMap String.utf8EncodeChar

theorem decodeFrom_ofNat (s : State) {b : Nat} (hb : b < 256) (bytes : List UInt8) :
    decodeFrom s (UInt8.ofNat b :: bytes) = (step s b).2 ++ decodeFrom (step s b).1 bytes := by
  rw [decodeFrom, UInt8.toNat_ofNat_of_lt' hb]

/-- The last byte of a character. -/
theorem decodeFrom_last {low high bits b : Nat} (hlow : low ≤ b) (hhigh : b ≤ high) (hb : b < 256) (bytes : List UInt8) :
    decodeFrom (.pending 1 low high bits) (UInt8.ofNat b :: bytes) = Char.ofNat (bits * 64 + (b - 0x80)) :: decode bytes := by
  rw [decodeFrom_ofNat _ hb, step, if_pos ⟨hlow, hhigh⟩, if_pos (Nat.le_refl _)]
  rfl

/-- A byte within a character. -/
theorem decodeFrom_more {owed low high bits b : Nat} (hlow : low ≤ b) (hhigh : b ≤ high) (hb : b < 256) (bytes : List UInt8) :
    decodeFrom (.pending (owed + 2) low high bits) (UInt8.ofNat b :: bytes) =
      decodeFrom (.pending (owed + 1) 0x80 0xBF (bits * 64 + (b - 0x80))) bytes := by
  rw [decodeFrom_ofNat _ hb, step, if_pos ⟨hlow, hhigh⟩, if_neg (by omega)]
  rfl

theorem decode_encodeChar (c : Char) (rest : List UInt8) : decode (String.utf8EncodeChar c ++ rest) = c :: decode rest := by
  have hvalid : c.toNat < 0xD800 ∨ 0xDFFF < c.toNat ∧ c.toNat < 0x110000 := c.valid
  have hc : ∀ n, n = c.toNat → Char.ofNat n = c := fun n hn => by rw [hn, Char.ofNat_toNat]
  show decodeFrom .start (String.utf8EncodeChar c ++ rest) = _
  rw [String.utf8EncodeChar, show c.val.toNat = c.toNat from rfl]
  generalize c.toNat = v at hvalid hc
  split
  · rw [List.cons_append, List.nil_append, decodeFrom_ofNat _ (by omega), step, first, if_pos ‹_›, hc v rfl]
    rfl
  split
  · rw [List.cons_append, List.cons_append, List.nil_append, decodeFrom_ofNat _ (by omega), step, first, if_neg (by omega),
      if_pos (by omega), List.nil_append, decodeFrom_last (by omega) (by omega) (by omega), hc _ (by omega)]
  split
  · have hlow : (if v / 4096 % 16 + 0xE0 = 0xE0 then 0xA0 else 0x80) ≤ v / 64 % 64 + 0x80 := by split <;> omega
    have hhigh : v / 64 % 64 + 0x80 ≤ if v / 4096 % 16 + 0xE0 = 0xED then 0x9F else 0xBF := by split <;> omega
    rw [List.cons_append, List.cons_append, List.cons_append, List.nil_append, decodeFrom_ofNat _ (by omega), step, first,
      if_neg (by omega), if_neg (by omega), if_pos (by omega), List.nil_append, decodeFrom_more hlow hhigh (by omega),
      decodeFrom_last (by omega) (by omega) (by omega), hc _ (by omega)]
  · have hlow : (if v / 262144 % 8 + 0xF0 = 0xF0 then 0x90 else 0x80) ≤ v / 4096 % 64 + 0x80 := by split <;> omega
    have hhigh : v / 4096 % 64 + 0x80 ≤ if v / 262144 % 8 + 0xF0 = 0xF4 then 0x8F else 0xBF := by split <;> omega
    rw [List.cons_append, List.cons_append, List.cons_append, List.cons_append, List.nil_append, decodeFrom_ofNat _ (by omega),
      step, first, if_neg (by omega), if_neg (by omega), if_neg (by omega), if_pos (by omega), List.nil_append,
      decodeFrom_more hlow hhigh (by omega), decodeFrom_more (by omega) (by omega) (by omega),
      decodeFrom_last (by omega) (by omega) (by omega), hc _ (by omega)]

/-- A text is read back from its bytes. -/
theorem decode_encode (text : List Char) (rest : List UInt8) : decode (encode text ++ rest) = text ++ decode rest := by
  induction text with
  | nil => rfl
  | cons c text ih =>
    rw [encode, List.flatMap_cons, List.append_assoc, decode_encodeChar]
    exact congrArg (c :: ·) ih

end IbarraGateway.Utf8
