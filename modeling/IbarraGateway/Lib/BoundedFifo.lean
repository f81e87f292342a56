import Mathlib.Data.List.Infix
import Mathlib.Data.List.Nodup

/-!
# FIFOs that drop their oldest element

A queue is the list of its elements, oldest first; capacity 0 stands for no bound. What a push evicts and what it leaves
are together the old queue with the new element (`evicted_append_push`), so order and conservation are one equation.
After any pushes a bounded queue is the end of what was pushed (`Window`).
-/

namespace IbarraGateway.BoundedFifo
variable {α : Type}

def Full (cap : Nat) (q : List α) : Prop := 0 < cap ∧ cap ≤ q.length

instance (cap : Nat) (q : List α) : Decidable (Full cap q) := inferInstanceAs (Decidable (_ ∧ _))

def evicted (cap : Nat) (q : List α) : List α := if Full cap q then q.take 1 else []

def push (cap : Nat) (q : List α) (x : α) : List α := if Full cap q then q.tail ++ [x] else q ++ [x]

theorem evicted_append_push (cap : Nat) (q : List α) (x : α) : evicted cap q ++ push cap q x = q ++ [x] := by
  unfold evicted push
  split
  · rw [← List.append_assoc, List.take_one]
    cases q <;> rfl
  · rfl

theorem push_suffix (cap : Nat) (q : List α) (x : α) : push cap q x <:+ q ++ [x] :=
  ⟨evicted cap q, evicted_append_push cap q x⟩

theorem mem_push_self (cap : Nat) (q : List α) (x : α) : x ∈ push cap q x := by
  unfold push
  split <;> simp

theorem push_ne_nil (cap : Nat) (q : List α) (x : α) : push cap q x ≠ [] :=
  List.ne_nil_of_mem (mem_push_self cap q x)

theorem push_length_le {cap : Nat} {q : List α} (hcap : 0 < cap) (hq : q.length ≤ cap) (x : α) :
    (push cap q x).length ≤ cap := by
  unfold push
  split
  · rw [List.length_append, List.length_tail, List.length_singleton]
    omega
  · rename_i hroom
    have hlt : q.length < cap := by
      unfold Full at hroom
      omega
    rw [List.length_append, List.length_singleton]
    omega

theorem push_of_room {cap : Nat} {q : List α} (h : ¬ Full cap q) (x : α) : push cap q x = q ++ [x] := if_neg h

theorem evicted_of_room {cap : Nat} {q : List α} (h : ¬ Full cap q) : evicted cap q = [] := if_neg h

theorem evicted_length (cap : Nat) (q : List α) : (evicted cap q).length = if Full cap q then 1 else 0 := by
  unfold evicted
  split
  · rename_i hfull
    unfold Full at hfull
    rw [List.length_take]
    omega
  · rfl

/-- The last `min l.length cap` elements of a list. -/
structure Window (cap : Nat) (l q : List α) : Prop where
  suffix : q <:+ l
  length : q.length = min l.length cap

theorem Window.nil (cap : Nat) : Window cap ([] : List α) [] :=
  ⟨List.suffix_rfl, by simp⟩

theorem Window.push {cap : Nat} {l q : List α} (h : Window cap l q) (hcap : 0 < cap) (x : α) :
    Window cap (l ++ [x]) (push cap q x) := by
  obtain ⟨⟨before, rfl⟩, hlength⟩ := h
  rw [List.length_append] at hlength
  refine ⟨(push_suffix cap q x).trans ⟨before, (List.append_assoc _ _ _).symm⟩, ?_⟩
  simp only [List.length_append, List.length_singleton]
  by_cases hfull : Full cap q
  · rw [BoundedFifo.push, if_pos hfull, List.length_append, List.length_tail, List.length_singleton]
    unfold Full at hfull
    omega
  · rw [push_of_room hfull, List.length_append, List.length_singleton]
    unfold Full at hfull
    omega

end IbarraGateway.BoundedFifo
