import Mathlib.Data.List.Basic
import Mathlib.Data.Nat.Bitwise

/-!
# Cyclic redundancy checks, least significant bit first

A register of `w` bits that takes a message bit by bit; the polynomial `poly` is given reflected.

* `feed_xor` : a step is linear, so what an error does to the register does not depend on the message.
* `shift_injective` : where the polynomial has its top bit, nothing is lost in a step. So an error of `w` consecutive bits
  is always seen (`run_confined`).
* `parity_run` : where the polynomial has an odd number of bits, the register has the message's parity. So an odd number of
  errors is always seen.
-/

namespace IbarraGateway.Crc
variable {w : Nat}

/-- The register moves down by one place; the bit that leaves it is the one that decides on the polynomial. -/
def shift (poly v : BitVec w) : BitVec w := (v >>> 1) ^^^ (if v.getLsbD 0 then poly else 0#w)

/-- The lowest bit. -/
def bit (b : Bool) : BitVec w := if b then 1#w else 0#w

def feed (poly v : BitVec w) (b : Bool) : BitVec w := shift poly (v ^^^ bit b)

def run (poly v : BitVec w) (bits : List Bool) : BitVec w := bits.foldl (feed poly) v

/-- The first bit of a list is the lowest one. -/
def ofBits : List Bool → BitVec w
  | [] => 0#w
  | b :: bits => bit b ^^^ (ofBits bits <<< 1)

@[simp] theorem run_nil (poly v : BitVec w) : run poly v [] = v := rfl

@[simp] theorem run_cons (poly v : BitVec w) (b : Bool) (bits : List Bool) :
    run poly v (b :: bits) = run poly (feed poly v b) bits := rfl

theorem run_append (poly v : BitVec w) (bits more : List Bool) :
    run poly v (bits ++ more) = run poly (run poly v bits) more := List.foldl_append

/-! ## Linearity -/

theorem ite_xor (a b : Bool) (x : BitVec w) :
    (if Bool.xor a b then x else 0#w) = (if a then x else 0#w) ^^^ (if b then x else 0#w) := by
  cases a <;> cases b <;> simp

theorem bit_xor (a b : Bool) : (bit (Bool.xor a b) : BitVec w) = bit a ^^^ bit b := ite_xor a b 1#w

theorem xor_xor_xor_comm (a b c d : BitVec w) : (a ^^^ b) ^^^ (c ^^^ d) = (a ^^^ c) ^^^ (b ^^^ d) := by ac_rfl

theorem shift_xor (poly a b : BitVec w) : shift poly (a ^^^ b) = shift poly a ^^^ shift poly b := by
  unfold shift
  rw [BitVec.ushiftRight_xor_distrib, BitVec.getLsbD_xor, ite_xor, xor_xor_xor_comm]

theorem feed_xor (poly a b : BitVec w) (c d : Bool) :
    feed poly (a ^^^ b) (Bool.xor c d) = feed poly a c ^^^ feed poly b d := by
  unfold feed
  rw [bit_xor, xor_xor_xor_comm, shift_xor]

/-- An error adds to the register what it would leave in an empty one. -/
theorem run_xor (poly : BitVec w) {bits errors : List Bool} (h : bits.length = errors.length) (a b : BitVec w) :
    run poly (a ^^^ b) (List.zipWith Bool.xor bits errors) = run poly a bits ^^^ run poly b errors := by
  induction bits generalizing a b errors with
  | nil =>
    obtain rfl := List.length_eq_zero_iff.mp h.symm
    rfl
  | cons c bits ih =>
    cases errors with
    | nil => cases h
    | cons d errors =>
      rw [List.zipWith_cons_cons, run_cons, run_cons, run_cons, feed_xor]
      exact ih (Nat.succ.inj h) _ _

/-! ## Shifting -/

@[simp] theorem shift_zero (poly : BitVec w) : shift poly 0#w = 0#w := by simp [shift]

theorem feed_false (poly v : BitVec w) : feed poly v false = shift poly v := by
  rw [feed, bit, if_neg Bool.false_ne_true, BitVec.xor_zero]

theorem run_false (poly v : BitVec w) (n : Nat) : run poly v (List.replicate n false) = (shift poly)^[n] v := by
  induction n generalizing v with
  | zero => rfl
  | succ n ih => rw [List.replicate_succ, run_cons, feed_false, ih, Function.iterate_succ_apply]

theorem iterate_shift_zero (poly : BitVec w) (n : Nat) : (shift poly)^[n] 0#w = 0#w :=
  Function.iterate_fixed (shift_zero poly) n

theorem iterate_shift_xor (poly a b : BitVec w) (n : Nat) :
    (shift poly)^[n] (a ^^^ b) = (shift poly)^[n] a ^^^ (shift poly)^[n] b := by
  induction n generalizing a b with
  | zero => rfl
  | succ n ih => rw [Function.iterate_succ_apply, Function.iterate_succ_apply, Function.iterate_succ_apply, shift_xor, ih]

/-- What a step takes to zero is zero, where the polynomial has its top bit. -/
theorem eq_zero_of_shift {poly v : BitVec w} (hpoly : poly.msb = true) (h : shift poly v = 0#w) : v = 0#w := by
  rw [BitVec.msb_eq_getLsbD_last] at hpoly
  have hpos : 0 < w := by
    by_contra hw
    rw [BitVec.getLsbD_of_ge _ _ (by omega)] at hpoly
    cases hpoly
  have hlow : v.getLsbD 0 = false := by
    have htop : (shift poly v).getLsbD (w - 1) = false := by rw [h, BitVec.getLsbD_zero]
    have hbeyond : v.getLsbD (1 + (w - 1)) = false := BitVec.getLsbD_of_ge v _ (by omega)
    rw [shift, BitVec.getLsbD_xor, BitVec.getLsbD_ushiftRight, hbeyond, Bool.false_xor] at htop
    by_contra hbit
    rw [Bool.not_eq_false] at hbit
    rw [if_pos hbit, hpoly] at htop
    cases htop
  have hrest : v >>> 1 = 0#w := by
    rw [shift, hlow, if_neg Bool.false_ne_true, BitVec.xor_zero] at h
    exact h
  apply BitVec.eq_of_getLsbD_eq
  intro i _
  cases i with
  | zero => simpa using hlow
  | succ i =>
    have hi := congrArg (BitVec.getLsbD · i) hrest
    simpa [Nat.add_comm] using hi

theorem eq_zero_of_iterate_shift {poly v : BitVec w} (hpoly : poly.msb = true) {n : Nat} (h : (shift poly)^[n] v = 0#w) :
    v = 0#w := by
  induction n with
  | zero => exact h
  | succ n ih =>
    rw [Function.iterate_succ_apply'] at h
    exact ih (eq_zero_of_shift hpoly h)

/-- A register without its top bit, moved up and down again. -/
theorem shift_shiftLeft (poly : BitVec w) {v : BitVec w} (h : v.msb = false) : shift poly (v <<< 1) = v := by
  have hlow : (v <<< 1).getLsbD 0 = false := by simp
  rw [shift, hlow, if_neg Bool.false_ne_true, BitVec.xor_zero]
  apply BitVec.eq_of_getLsbD_eq
  intro i hi
  rw [BitVec.msb_eq_getLsbD_last] at h
  by_cases hlast : i = w - 1
  · subst hlast
    rw [h, BitVec.getLsbD_ushiftRight]
    exact BitVec.getLsbD_of_ge _ _ (by omega)
  · rw [BitVec.getLsbD_ushiftRight, BitVec.getLsbD_shiftLeft, Nat.add_sub_cancel_left]
    simp [show 1 + i < w by omega]

theorem getLsbD_bit (b : Bool) (i : Nat) : (bit b : BitVec w).getLsbD i = (b && decide (i = 0) && decide (i < w)) := by
  cases b
  · simp [bit]
  · rw [bit, if_pos rfl]
    by_cases hi : i = 0
    · subst hi
      simp
    · simp [hi, BitVec.getLsbD_one]

theorem getLsbD_ofBits (bits : List Bool) (i : Nat) :
    (ofBits bits : BitVec w).getLsbD i = (bits.getD i false && decide (i < w)) := by
  induction bits generalizing i with
  | nil => simp [ofBits]
  | cons b bits ih =>
    rw [ofBits, BitVec.getLsbD_xor, getLsbD_bit, BitVec.getLsbD_shiftLeft]
    cases i with
    | zero => simp
    | succ i =>
      have hprev := ih i
      rw [List.getD_cons_succ]
      simp only [Nat.add_sub_cancel]
      rw [hprev]
      by_cases hlt : i + 1 < w
      · simp [hlt, show i < w by omega]
      · simp [hlt]

/-- A register takes no more bits than it has places as one number. -/
theorem run_eq_iterate (poly v : BitVec w) {bits : List Bool} (h : bits.length ≤ w) :
    run poly v bits = (shift poly)^[bits.length] (v ^^^ ofBits bits) := by
  induction bits generalizing v with
  | nil => simp [ofBits]
  | cons b bits ih =>
    rw [List.length_cons] at h
    have hmsb : (ofBits bits : BitVec w).msb = false := by
      rw [BitVec.msb_eq_getLsbD_last, getLsbD_ofBits, List.getD_eq_default _ _ (by omega)]
      rfl
    rw [run_cons, ih _ (by omega), List.length_cons, Function.iterate_succ_apply, ofBits, ← BitVec.xor_assoc, shift_xor,
      shift_shiftLeft poly hmsb, feed]

/-! ## Bursts -/

theorem ofBits_eq_zero {bits : List Bool} (hlength : bits.length ≤ w) (h : (ofBits bits : BitVec w) = 0#w) :
    ∀ b ∈ bits, b = false := by
  intro b hb
  obtain ⟨i, hi, rfl⟩ := List.mem_iff_getElem.mp hb
  have hbit := getLsbD_ofBits (w := w) bits i
  rw [h, List.getD_eq_getElem _ _ hi] at hbit
  simpa [show i < w by omega] using hbit.symm

/-- An error of at most `w` consecutive bits leaves something in the register. -/
theorem run_burst {poly : BitVec w} (hpoly : poly.msb = true) {burst : List Bool} (hlength : burst.length ≤ w)
    (hsome : true ∈ burst) (before after : Nat) :
    run poly 0#w (List.replicate before false ++ burst ++ List.replicate after false) ≠ 0#w := by
  intro hzero
  rw [run_append, run_append, run_false, run_false, iterate_shift_zero, run_eq_iterate poly 0#w hlength, BitVec.zero_xor] at hzero
  have hbits := eq_zero_of_iterate_shift hpoly (eq_zero_of_iterate_shift hpoly hzero)
  exact absurd (ofBits_eq_zero hlength hbits true hsome) (by decide)

/-- An error that is confined to `w` places from place `i` on. -/
theorem run_confined {poly : BitVec w} (hpoly : poly.msb = true) {bits : List Bool} {i : Nat}
    (hconfined : ∀ k, bits[k]? = some true → i ≤ k ∧ k < i + w) (hsome : true ∈ bits) : run poly 0#w bits ≠ 0#w := by
  have hfalse : ∀ {part : List Bool}, true ∉ part → part = List.replicate part.length false := by
    intro part hpart
    apply List.eq_replicate_of_mem
    intro b hb
    by_contra hb'
    rw [Bool.not_eq_false] at hb'
    exact hpart (hb' ▸ hb)
  have hbefore : true ∉ bits.take i := by
    intro hmem
    obtain ⟨k, hk⟩ := List.mem_iff_getElem?.mp hmem
    rw [List.getElem?_take] at hk
    split at hk
    · have := hconfined k hk
      omega
    · cases hk
  have hafter : true ∉ (bits.drop i).drop w := by
    intro hmem
    obtain ⟨k, hk⟩ := List.mem_iff_getElem?.mp hmem
    rw [List.drop_drop, List.getElem?_drop] at hk
    have := hconfined _ hk
    omega
  have hsplit : bits = bits.take i ++ (bits.drop i).take w ++ (bits.drop i).drop w := by
    rw [List.append_assoc, List.take_append_drop, List.take_append_drop]
  have hburst : true ∈ (bits.drop i).take w := by
    rw [hsplit, List.mem_append, List.mem_append] at hsome
    rcases hsome with (h | h) | h
    · exact absurd h hbefore
    · exact h
    · exact absurd h hafter
  rw [hsplit, hfalse hbefore, hfalse hafter]
  exact run_burst hpoly (List.length_take_le _ _) hburst _ _

/-! ## Parity -/

/-- Whether the number of bits that are set is odd. -/
def odd (bits : List Bool) : Bool := bits.foldr Bool.xor false

theorem odd_append (bits more : List Bool) : odd (bits ++ more) = Bool.xor (odd bits) (odd more) := by
  induction bits with
  | nil => simp [odd]
  | cons b bits ih =>
    unfold odd at ih ⊢
    rw [List.cons_append, List.foldr_cons, List.foldr_cons, ih, Bool.xor_assoc]

theorem odd_iff (bits : List Bool) : odd bits = true ↔ bits.count true % 2 = 1 := by
  induction bits with
  | nil => simp [odd]
  | cons b bits ih =>
    unfold odd at ih ⊢
    rw [List.foldr_cons]
    cases b
    · simp [ih]
    · rw [List.count_cons_self, Bool.true_xor, Bool.not_eq_true']
      rw [← Bool.not_eq_true, ih]
      omega

/-- The parity of a register. -/
def parity (v : BitVec w) : Bool := odd ((List.range w).map v.getLsbD)

theorem odd_map_xor (f g : Nat → Bool) (l : List Nat) :
    odd (l.map fun i => Bool.xor (f i) (g i)) = Bool.xor (odd (l.map f)) (odd (l.map g)) := by
  induction l with
  | nil => rfl
  | cons i l ih =>
    unfold odd at ih ⊢
    rw [List.map_cons, List.map_cons, List.map_cons, List.foldr_cons, List.foldr_cons, List.foldr_cons, ih]
    cases f i <;> cases g i <;> simp

theorem parity_xor (a b : BitVec w) : parity (a ^^^ b) = Bool.xor (parity a) (parity b) := by
  unfold parity
  rw [← odd_map_xor]
  refine congrArg odd (List.map_congr_left fun i _ => ?_)
  rw [BitVec.getLsbD_xor]

theorem parity_zero : parity 0#w = false := by
  have h := parity_xor 0#w 0#w
  rw [BitVec.xor_self, Bool.xor_self] at h
  exact h

theorem parity_ite (b : Bool) (x : BitVec w) : parity (if b then x else 0#w) = (b && parity x) := by
  cases b
  · exact parity_zero
  · rfl

/-- Moved down, a register loses its lowest bit. -/
theorem parity_shiftRight (v : BitVec w) : parity (v >>> 1) = Bool.xor (parity v) (v.getLsbD 0) := by
  cases w with
  | zero => simp [parity, odd]
  | succ n =>
    have hdown : (List.range (n + 1)).map (v >>> 1).getLsbD = (List.range n).map (fun i => v.getLsbD (i + 1)) ++ [false] := by
      rw [List.range_succ, List.map_append]
      congr 1
      · refine List.map_congr_left fun i _ => ?_
        rw [BitVec.getLsbD_ushiftRight, Nat.add_comm 1 i]
      · have htop : (v >>> 1).getLsbD n = false := by
          rw [BitVec.getLsbD_ushiftRight]
          exact BitVec.getLsbD_of_ge v _ (by omega)
        rw [List.map_singleton, htop]
    have hfull : (List.range (n + 1)).map v.getLsbD = v.getLsbD 0 :: (List.range n).map (fun i => v.getLsbD (i + 1)) := by
      rw [List.range_succ_eq_map, List.map_cons, List.map_map]
      rfl
    unfold parity
    rw [hdown, hfull, odd_append]
    unfold odd
    rw [List.foldr_cons]
    cases v.getLsbD 0 <;> simp

theorem parity_shift {poly : BitVec w} (hpoly : parity poly = true) (v : BitVec w) : parity (shift poly v) = parity v := by
  rw [shift, parity_xor, parity_shiftRight, parity_ite, hpoly, Bool.and_true, Bool.xor_assoc, Bool.xor_self, Bool.xor_false]

theorem parity_bit (hw : 0 < w) (b : Bool) : parity (bit b : BitVec w) = b := by
  obtain ⟨n, rfl⟩ : ∃ n, w = n + 1 := ⟨w - 1, by omega⟩
  have hone : parity 1#(n + 1) = true := by
    have hshift := parity_shiftRight 1#(n + 1)
    have hzero : 1#(n + 1) >>> 1 = 0#(n + 1) := by
      apply BitVec.eq_of_getLsbD_eq
      intro i _
      simp [BitVec.getLsbD_one]
    rw [hzero, parity_zero] at hshift
    simpa [BitVec.getLsbD_one] using hshift.symm
  rw [bit, parity_ite, hone, Bool.and_true]

theorem parity_run {poly : BitVec w} (hpoly : parity poly = true) (hw : 0 < w) (v : BitVec w) (bits : List Bool) :
    parity (run poly v bits) = Bool.xor (parity v) (odd bits) := by
  induction bits generalizing v with
  | nil => simp [odd]
  | cons b bits ih =>
    rw [run_cons, ih, feed, parity_shift hpoly, parity_xor, parity_bit hw]
    unfold odd
    rw [List.foldr_cons, Bool.xor_assoc]

/-- An odd number of errors leaves something in the register. -/
theorem run_odd {poly : BitVec w} (hpoly : parity poly = true) (hw : 0 < w) {bits : List Bool}
    (hodd : bits.count true % 2 = 1) : run poly 0#w bits ≠ 0#w := by
  intro hzero
  have hparity := parity_run hpoly hw 0#w bits
  rw [hzero, parity_zero, Bool.false_xor, (odd_iff bits).mpr hodd] at hparity
  cases hparity

/-! ## Several bits at a time -/

/-- A register whose lowest places are empty only moves down. -/
theorem iterate_shift_of_low (poly : BitVec w) {v : BitVec w} {k n : Nat} (hlow : ∀ i < n, v.getLsbD i = false) (hk : k ≤ n) :
    (shift poly)^[k] v = v >>> k := by
  induction k with
  | zero => simp
  | succ k ih =>
    rw [Function.iterate_succ_apply', ih (by omega), shift]
    have hbit : (v >>> k).getLsbD 0 = false := by simpa using hlow k (by omega)
    rw [hbit, if_neg Bool.false_ne_true, BitVec.xor_zero, BitVec.shiftRight_add]

/-- `n` steps: those of the low `n` places, which a table may hold, and the rest moved down. -/
theorem iterate_shift_eq (poly v : BitVec w) (n : Nat) :
    (shift poly)^[n] v = (v >>> n) ^^^ (shift poly)^[n] (BitVec.ofNat w (v.toNat % 2 ^ n)) := by
  have hbits : ∀ i, (BitVec.ofNat w (v.toNat % 2 ^ n)).getLsbD i = (decide (i < n) && v.getLsbD i) := by
    intro i
    rw [BitVec.getLsbD_ofNat, Nat.testBit_mod_two_pow, BitVec.testBit_toNat]
    by_cases hi : i < w
    · simp [hi]
    · simp [BitVec.getLsbD_of_ge v i (by omega)]
  have hlow : ∀ i < n, (v ^^^ BitVec.ofNat w (v.toNat % 2 ^ n)).getLsbD i = false := by
    intro i hi
    rw [BitVec.getLsbD_xor, hbits]
    simp [hi]
  have hhigh : (v ^^^ BitVec.ofNat w (v.toNat % 2 ^ n)) >>> n = v >>> n := by
    apply BitVec.eq_of_getLsbD_eq
    intro i _
    rw [BitVec.getLsbD_ushiftRight, BitVec.getLsbD_ushiftRight, BitVec.getLsbD_xor, hbits]
    rw [decide_eq_false (by omega), Bool.false_and, Bool.xor_false]
  have hsplit : v = (v ^^^ BitVec.ofNat w (v.toNat % 2 ^ n)) ^^^ BitVec.ofNat w (v.toNat % 2 ^ n) := by
    rw [BitVec.xor_assoc, BitVec.xor_self, BitVec.xor_zero]
  conv_lhs => rw [hsplit]
  rw [iterate_shift_xor, iterate_shift_of_low poly hlow (Nat.le_refl n), hhigh]

end IbarraGateway.Crc
