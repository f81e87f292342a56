import Mathlib.Data.List.Basic
import Mathlib.Tactic.Ring
import Mathlib.Tactic.NormNum

/-!
# Little-endian words and files of fixed-size records

* `leBytes` and `leNat` write and read an unsigned word of `k` bytes, least significant byte first.
* `RecordCodec ρ` is the memory image of a struct: a width, a writer and a reader, with the law that the reader undoes
  the writer.
* `RecordCodec.records` is the list of whole records of a file; bytes after the last whole record do not count.
-/

namespace IbarraGateway

/-! ## Little-endian words -/

/-- The `k` low bytes of `v`, least significant first. -/
def leBytes : Nat → Nat → List UInt8
  | 0, _ => []
  | k + 1, v => UInt8.ofNat (v % 256) :: leBytes k (v / 256)

/-- The number whose little-endian bytes are given. -/
def leNat : List UInt8 → Nat
  | [] => 0
  | b :: bs => b.toNat + 256 * leNat bs

@[simp] theorem leBytes_length (k v : Nat) : (leBytes k v).length = k := by
  induction k generalizing v with
  | zero => rfl
  | succ k ih => rw [leBytes, List.length_cons, ih]

theorem leNat_leBytes (k v : Nat) (hv : v < 256 ^ k) : leNat (leBytes k v) = v := by
  induction k generalizing v with
  | zero =>
    rw [pow_zero] at hv
    rw [leBytes, leNat]
    omega
  | succ k ih =>
    have hdiv : v / 256 < 256 ^ k := by
      rw [Nat.div_lt_iff_lt_mul (by decide), ← pow_succ]
      exact hv
    rw [leBytes, leNat, ih _ hdiv, UInt8.toNat_ofNat', Nat.mod_eq_of_lt (Nat.mod_lt v (by decide))]
    exact Nat.mod_add_div v 256

/-! ## Records -/

/-- The image of a value of `ρ` in a file: `size` bytes. -/
structure RecordCodec (ρ : Type) where
  size : Nat
  encode : ρ → List UInt8
  decode : List UInt8 → ρ
  size_pos : 0 < size
  length_encode : ∀ r, (encode r).length = size
  decode_encode : ∀ r, decode (encode r) = r

namespace RecordCodec
variable {ρ : Type} (c : RecordCodec ρ)

/-- The first `n` records of a file. -/
def firstRecords : Nat → List UInt8 → List ρ
  | 0, _ => []
  | n + 1, bs => c.decode (bs.take c.size) :: firstRecords n (bs.drop c.size)

/-- The whole records of a file. -/
def records (bs : List UInt8) : List ρ := c.firstRecords (bs.length / c.size) bs

/-- A file that holds whole records only. -/
def Whole (bs : List UInt8) : Prop := c.size ∣ bs.length

@[simp] theorem firstRecords_length (n : Nat) (bs : List UInt8) : (c.firstRecords n bs).length = n := by
  induction n generalizing bs with
  | zero => rfl
  | succ n ih => rw [firstRecords, List.length_cons, ih]

theorem records_length (bs : List UInt8) : (c.records bs).length = bs.length / c.size := by
  rw [records, firstRecords_length]

/-- Too short for one more record. -/
theorem records_of_lt {bs : List UInt8} (h : bs.length < c.size) : c.records bs = [] := by
  rw [records, Nat.div_eq_of_lt h]
  rfl

/-- The first record and the rest of the file. -/
theorem records_of_le {bs : List UInt8} (h : c.size ≤ bs.length) :
    c.records bs = c.decode (bs.take c.size) :: c.records (bs.drop c.size) := by
  have hdiv : bs.length / c.size = (bs.drop c.size).length / c.size + 1 := by
    rw [List.length_drop, ← Nat.add_div_right _ c.size_pos, Nat.sub_add_cancel h]
  rw [records, hdiv, firstRecords, records]

theorem firstRecords_append (n : Nat) (bs bs' : List UInt8) (h : n * c.size ≤ bs.length) :
    c.firstRecords n (bs ++ bs') = c.firstRecords n bs := by
  induction n generalizing bs with
  | zero => rfl
  | succ n ih =>
    have hle : c.size ≤ bs.length := le_trans (Nat.le_mul_of_pos_left _ (Nat.succ_pos n)) h
    have hrest : n * c.size ≤ (bs.drop c.size).length := by
      rw [List.length_drop]
      rw [Nat.succ_mul] at h
      omega
    rw [firstRecords, firstRecords, List.take_append_of_le_length hle, List.drop_append_of_le_length hle, ih _ hrest]

theorem firstRecords_add (m n : Nat) (bs : List UInt8) :
    c.firstRecords (m + n) bs = c.firstRecords m bs ++ c.firstRecords n (bs.drop (m * c.size)) := by
  induction m generalizing bs with
  | zero => simp [firstRecords]
  | succ m ih =>
    rw [show m + 1 + n = m + n + 1 by ring, firstRecords, firstRecords, ih, List.drop_drop, List.cons_append,
      Nat.succ_mul, Nat.add_comm (m * c.size)]

/-- Appending to a file of whole records appends the records. -/
theorem records_append {bs : List UInt8} (h : c.Whole bs) (bs' : List UInt8) :
    c.records (bs ++ bs') = c.records bs ++ c.records bs' := by
  obtain ⟨n, hn⟩ := h
  have hlen : (bs ++ bs').length / c.size = n + bs'.length / c.size := by
    rw [List.length_append, hn, Nat.mul_add_div c.size_pos]
  have hdiv : bs.length / c.size = n := by rw [hn, Nat.mul_div_cancel_left _ c.size_pos]
  have hdrop : (bs ++ bs').drop (n * c.size) = bs' := by
    rw [Nat.mul_comm, ← hn, List.drop_left]
  rw [records, records, records, hlen, hdiv, firstRecords_add, hdrop,
    firstRecords_append _ _ _ _ (by rw [hn, Nat.mul_comm])]

@[simp] theorem records_encode (r : ρ) : c.records (c.encode r) = [r] := by
  have hlen := c.length_encode r
  rw [c.records_of_le hlen.ge, ← hlen, List.take_length, List.drop_length, c.decode_encode,
    c.records_of_lt (by rw [List.length_nil]; exact c.size_pos)]

@[simp] theorem records_nil : c.records [] = [] :=
  c.records_of_lt (by rw [List.length_nil]; exact c.size_pos)

theorem whole_nil : c.Whole [] := ⟨0, rfl⟩

theorem whole_append_encode {bs : List UInt8} (h : c.Whole bs) (r : ρ) : c.Whole (bs ++ c.encode r) := by
  obtain ⟨n, hn⟩ := h
  exact ⟨n + 1, by rw [List.length_append, hn, c.length_encode, Nat.mul_succ]⟩

theorem whole_drop {bs : List UInt8} (h : c.Whole bs) : c.Whole (bs.drop c.size) := by
  obtain ⟨n, hn⟩ := h
  exact ⟨n - 1, by rw [List.length_drop, hn, Nat.mul_sub_one]⟩

/-- A file of whole records has as many bytes as its records need. -/
theorem length_of_whole {bs : List UInt8} (h : c.Whole bs) : bs.length = (c.records bs).length * c.size := by
  rw [records_length, Nat.div_mul_cancel h]

end RecordCodec
end IbarraGateway
