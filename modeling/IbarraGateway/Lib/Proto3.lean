import Mathlib.Data.List.Basic
import Mathlib.Tactic.Ring
import Mathlib.Tactic.NormNum

/-!
# The proto3 wire format

A message is a list of fields on the wire: a number and a value of one of four wire types. This file writes and reads
such lists (`encodeFields`, `decodeFields`), and reads them against a descriptor: a scalar or a string is the last field
with its number *and* its wire type, a repeated message is every such field, and everything else is unknown.

* `decodeFields_encodeFields` : the reader recovers every list of fields that was written.
* `lastVarint_scalar`, `lastLen_scalar`, `allLen_messages` : what a field reads as, by a descriptor that agrees with the
  writer's or not.

Groups, which proto3 does not write, are rejected.
-/

namespace IbarraGateway.Proto3

/-! ## Varints -/

/-- Base-128 groups of `v`, least significant first, at most `k` of them. -/
def encodeVarint : Nat → Nat → List UInt8
  | 0, _ => []
  | k + 1, v => if v < 128 then [UInt8.ofNat v] else UInt8.ofNat (v % 128 + 128) :: encodeVarint k (v / 128)

/-- Reads a varint of at most `k` bytes. -/
def decodeVarint : Nat → List UInt8 → Option (Nat × List UInt8)
  | 0, _ => none
  | _ + 1, [] => none
  | k + 1, b :: bs =>
    if b.toNat < 128 then some (b.toNat, bs)
    else (decodeVarint k bs).map fun r => (b.toNat - 128 + 128 * r.1, r.2)

theorem encodeVarint_length (k v : Nat) (hk : 0 < k) : 0 < (encodeVarint k v).length := by
  obtain ⟨k, rfl⟩ := Nat.exists_eq_succ_of_ne_zero hk.ne'
  rw [encodeVarint]
  split <;> simp

theorem decodeVarint_encodeVarint (k v : Nat) (rest : List UInt8) (hk : 0 < k) (hv : v < 128 ^ k) :
    decodeVarint k (encodeVarint k v ++ rest) = some (v, rest) := by
  induction k generalizing v with
  | zero => exact absurd hk (Nat.lt_irrefl 0)
  | succ k ih =>
    rw [encodeVarint]
    by_cases hlt : v < 128
    · have hb : (UInt8.ofNat v).toNat = v := by rw [UInt8.toNat_ofNat']; omega
      rw [if_pos hlt, List.singleton_append, decodeVarint, if_pos (by omega), hb]
    · have hb : (UInt8.ofNat (v % 128 + 128)).toNat = v % 128 + 128 := by rw [UInt8.toNat_ofNat']; omega
      have hdiv : v / 128 < 128 ^ k := by
        rw [Nat.div_lt_iff_lt_mul (by decide), ← pow_succ]
        exact hv
      have hpos : 0 < k := by
        by_contra h0
        rw [Nat.eq_zero_of_not_pos h0, pow_zero] at hdiv
        omega
      rw [if_neg hlt, List.cons_append, decodeVarint, if_neg (by omega), ih _ hpos hdiv, hb, Option.map_some,
        Nat.add_sub_cancel, Nat.mod_add_div]

/-! ## Fields -/

/-- A value on the wire. -/
inductive WireValue
  | varint (v : Nat)
  | i64 (bytes : List UInt8)
  | len (bytes : List UInt8)
  | i32 (bytes : List UInt8)
  deriving DecidableEq, Repr

namespace WireValue

def wireType : WireValue → Nat
  | varint _ => 0
  | i64 _ => 1
  | len _ => 2
  | i32 _ => 5

/-- Fits the wire: 64 bits in a varint, a length of a varint, and the fixed widths. -/
def Fits : WireValue → Prop
  | varint v => v < 2 ^ 64
  | i64 bytes => bytes.length = 8
  | len bytes => bytes.length < 2 ^ 64
  | i32 bytes => bytes.length = 4

def encode : WireValue → List UInt8
  | varint v => encodeVarint 10 v
  | i64 bytes => bytes
  | len bytes => encodeVarint 10 bytes.length ++ bytes
  | i32 bytes => bytes

end WireValue

/-- The first `n` bytes and the rest, if there are as many. -/
def splitBytes (n : Nat) (bs : List UInt8) : Option (List UInt8 × List UInt8) :=
  if n ≤ bs.length then some (bs.take n, bs.drop n) else none

theorem splitBytes_append (bs rest : List UInt8) : splitBytes bs.length (bs ++ rest) = some (bs, rest) := by
  rw [splitBytes, if_pos (by simp), List.take_left, List.drop_left]

/-- Reads a value of the given wire type; a varint counts modulo `2 ^ 64`. -/
def decodeValue (wireType : Nat) (bs : List UInt8) : Option (WireValue × List UInt8) :=
  if wireType = 0 then (decodeVarint 10 bs).map fun r => (.varint (r.1 % 2 ^ 64), r.2)
  else if wireType = 1 then (splitBytes 8 bs).map fun r => (.i64 r.1, r.2)
  else if wireType = 2 then
    (decodeVarint 10 bs).bind fun l => (splitBytes (l.1 % 2 ^ 64) l.2).map fun r => (.len r.1, r.2)
  else if wireType = 5 then (splitBytes 4 bs).map fun r => (.i32 r.1, r.2)
  else none

theorem decodeValue_encode (w : WireValue) (rest : List UInt8) (h : w.Fits) :
    decodeValue w.wireType (w.encode ++ rest) = some (w, rest) := by
  have hsmall : ∀ v, v < 2 ^ 64 → v < 128 ^ 10 := fun v hv => lt_trans hv (by norm_num)
  cases w with
  | varint v =>
    have h : v < 2 ^ 64 := h
    simp only [decodeValue, WireValue.wireType, WireValue.encode, if_true]
    rw [decodeVarint_encodeVarint 10 v rest (by decide) (hsmall v h), Option.map_some, Nat.mod_eq_of_lt h]
  | i64 bytes =>
    have h : bytes.length = 8 := h
    simp only [decodeValue, WireValue.wireType, WireValue.encode, one_ne_zero, if_true, if_false]
    rw [← h, splitBytes_append, Option.map_some]
  | len bytes =>
    have h : bytes.length < 2 ^ 64 := h
    have hlen := decodeVarint_encodeVarint 10 bytes.length (bytes ++ rest) (by decide) (hsmall _ h)
    simp only [decodeValue, WireValue.wireType, WireValue.encode, OfNat.ofNat_ne_zero, OfNat.ofNat_ne_one, if_true,
      if_false]
    rw [List.append_assoc, hlen, Option.bind_some, Nat.mod_eq_of_lt h, splitBytes_append, Option.map_some]
  | i32 bytes =>
    have h : bytes.length = 4 := h
    simp only [decodeValue, WireValue.wireType, WireValue.encode, OfNat.ofNat_ne_zero, OfNat.ofNat_ne_one, if_true,
      if_false, Nat.reduceEqDiff]
    rw [← h, splitBytes_append, Option.map_some]

/-- A field on the wire. -/
structure WireField where
  number : Nat
  value : WireValue
  deriving DecidableEq, Repr

namespace WireField

/-- A field number that a schema may use, with a value that fits. -/
structure Fits (f : WireField) : Prop where
  number_pos : 0 < f.number
  number_lt : f.number < 2 ^ 29
  value : f.value.Fits

def tag (f : WireField) : Nat := f.number * 8 + f.value.wireType

def encode (f : WireField) : List UInt8 := encodeVarint 5 f.tag ++ f.value.encode

end WireField

/-- Reads one field: the tag of at most 32 bits, then the value. -/
def decodeField (bs : List UInt8) : Option (WireField × List UInt8) :=
  (decodeVarint 5 bs).bind fun t =>
    if t.1 / 8 = 0 ∨ 2 ^ 32 ≤ t.1 then none
    else (decodeValue (t.1 % 8) t.2).map fun r => (⟨t.1 / 8, r.1⟩, r.2)

theorem WireValue.wireType_lt (w : WireValue) : w.wireType < 8 := by
  cases w <;> simp [wireType]

theorem decodeField_encode (f : WireField) (rest : List UInt8) (h : f.Fits) :
    decodeField (f.encode ++ rest) = some (f, rest) := by
  have hw := f.value.wireType_lt
  have hpos := h.number_pos
  have hlt := h.number_lt
  have hdiv : f.tag / 8 = f.number := by unfold WireField.tag; omega
  have hmod : f.tag % 8 = f.value.wireType := by unfold WireField.tag; omega
  have htag : f.tag < 2 ^ 32 := by unfold WireField.tag; omega
  rw [decodeField, WireField.encode, List.append_assoc,
    decodeVarint_encodeVarint 5 f.tag _ (by decide) (lt_trans htag (by norm_num)), Option.bind_some]
  simp only [hdiv, hmod]
  rw [if_neg (by omega), decodeValue_encode _ _ h.value, Option.map_some]

/-- A message is written field by field. -/
def encodeFields (fs : List WireField) : List UInt8 := fs.flatMap WireField.encode

def decodeFieldsWithin : Nat → List UInt8 → Option (List WireField)
  | _, [] => some []
  | 0, _ :: _ => none
  | k + 1, b :: bs => (decodeField (b :: bs)).bind fun r => (decodeFieldsWithin k r.2).map fun fs => r.1 :: fs

/-- Reads fields to the end; each takes a byte at least. -/
def decodeFields (bs : List UInt8) : Option (List WireField) := decodeFieldsWithin bs.length bs

theorem WireField.encode_length_pos (f : WireField) : 0 < f.encode.length := by
  have h := encodeVarint_length 5 f.tag (by decide)
  rw [WireField.encode, List.length_append]
  omega

theorem decodeFieldsWithin_encodeFields (fs : List WireField) (h : ∀ f ∈ fs, f.Fits) (k : Nat)
    (hk : (encodeFields fs).length ≤ k) : decodeFieldsWithin k (encodeFields fs) = some fs := by
  induction fs generalizing k with
  | nil => cases k <;> rfl
  | cons f fs ih =>
    have hpos := f.encode_length_pos
    rw [encodeFields, List.flatMap_cons, ← encodeFields] at hk ⊢
    rw [List.length_append] at hk
    obtain ⟨k, rfl⟩ := Nat.exists_eq_succ_of_ne_zero (show k ≠ 0 by omega)
    obtain ⟨b, bs, hbs⟩ := List.exists_cons_of_length_pos (l := f.encode ++ encodeFields fs)
      (by rw [List.length_append]; omega)
    rw [hbs, decodeFieldsWithin, ← hbs, decodeField_encode f _ (h f List.mem_cons_self), Option.bind_some,
      ih (fun g hg => h g (List.mem_cons_of_mem _ hg)) k (by omega), Option.map_some]

/-- A field is no longer than a message it stands in. -/
theorem length_encode_le {f : WireField} {fs : List WireField} (h : f ∈ fs) :
    f.encode.length ≤ (encodeFields fs).length := by
  rw [encodeFields, List.flatMap_def]
  exact (List.sublist_flatten_of_mem (List.mem_map_of_mem h)).length_le

/-- **Round trip.** What was written is read. -/
theorem decodeFields_encodeFields (fs : List WireField) (h : ∀ f ∈ fs, f.Fits) :
    decodeFields (encodeFields fs) = some fs :=
  decodeFieldsWithin_encodeFields fs h _ le_rfl

/-- An embedded message that was written fits the wire when the whole message does. -/
theorem WireField.len_fits {number : Nat} {bytes : List UInt8} {fs : List WireField} (hpos : 0 < number)
    (hlt : number < 2 ^ 29) (hf : ⟨number, .len bytes⟩ ∈ fs) (hfs : (encodeFields fs).length < 2 ^ 64) :
    (⟨number, .len bytes⟩ : WireField).Fits := by
  refine ⟨hpos, hlt, ?_⟩
  have hle := length_encode_le hf
  rw [WireField.encode, WireValue.encode, List.length_append, List.length_append] at hle
  show bytes.length < 2 ^ 64
  omega

/-! ## Reading against a descriptor -/

/-- A scalar of a proto3 message: not on the wire when it has the default value. -/
def scalar (number v : Nat) : List WireField := if v = 0 then [] else [⟨number, .varint v⟩]

/-- The last varint with the number, or the default. -/
def lastVarint (number : Nat) (fs : List WireField) : Nat :=
  fs.foldl (fun v f => match f with
    | ⟨k, .varint w⟩ => if k = number then w else v
    | _ => v) 0

/-- The last length-delimited value with the number, or the default. -/
def lastLen (number : Nat) (fs : List WireField) : List UInt8 :=
  fs.foldl (fun v f => match f with
    | ⟨k, .len w⟩ => if k = number then w else v
    | _ => v) []

/-- The elements of a repeated message. -/
def allLen (number : Nat) (fs : List WireField) : List (List UInt8) :=
  fs.filterMap fun f => match f with
    | ⟨k, .len w⟩ => if k = number then some w else none
    | _ => none

@[simp] theorem lastVarint_nil (number : Nat) : lastVarint number [] = 0 := rfl

@[simp] theorem lastLen_nil (number : Nat) : lastLen number [] = [] := rfl

/-- A scalar written under the number is what a reader of the number sees, when nothing stood there before. -/
theorem lastVarint_scalar (number k v : Nat) (fs : List WireField) :
    lastVarint number (fs ++ scalar k v) = if k = number ∧ v ≠ 0 then v else lastVarint number fs := by
  unfold scalar
  by_cases hv : v = 0
  · simp [hv]
  · by_cases hk : k = number
    · simp [lastVarint, hv, hk]
    · simp [lastVarint, hv, hk]

/-- A reader of strings does not see a scalar: a field of another wire type is unknown. -/
@[simp] theorem lastLen_scalar (number k v : Nat) (fs : List WireField) :
    lastLen number (fs ++ scalar k v) = lastLen number fs := by
  unfold scalar
  split <;> simp [lastLen]

/-- The only field of a message. -/
theorem lastVarint_scalar_first (number k v : Nat) :
    lastVarint number (scalar k v) = if k = number then v else 0 := by
  have h := lastVarint_scalar number k v []
  rw [List.nil_append] at h
  rw [h, lastVarint_nil]
  by_cases hk : k = number <;> by_cases hv : v = 0 <;> simp [hk, hv]

@[simp] theorem lastLen_scalar_first (number k v : Nat) : lastLen number (scalar k v) = [] :=
  lastLen_scalar number k v []

theorem allLen_messages (number : Nat) (ms : List (List UInt8)) :
    allLen number (ms.map fun m => ⟨number, .len m⟩) = ms := by
  induction ms with
  | nil => rfl
  | cons m ms ih =>
    rw [List.map_cons, allLen, List.filterMap_cons]
    simp only [if_true]
    rw [← allLen, ih]

theorem scalar_fits {number v : Nat} (hpos : 0 < number) (hlt : number < 2 ^ 29) (hv : v < 2 ^ 64) :
    ∀ f ∈ scalar number v, f.Fits := by
  unfold scalar
  split
  · simp
  · intro f hf
    rw [List.mem_singleton] at hf
    subst hf
    exact ⟨hpos, hlt, hv⟩

end IbarraGateway.Proto3
