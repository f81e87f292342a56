import Mathlib.Data.List.Induction
import Mathlib.Data.List.Perm.Basic
import Mathlib.Logic.Function.Basic

/-!
# Maps with an order of iteration of their own

A hash table keeps its entries in an order that follows from the keys put into it, and says nothing else about it.

* `IterationOrder` : where a new key goes, any rearrangement of the others allowed.
* `assignAll` : a map built by assignments. `find_assignAll` : the last value given to a key; `keys_assignAll` : the order
  depends on the keys alone.
-/

namespace IbarraGateway

/-- The order of iteration after the insertion of a new key. -/
structure IterationOrder (κ : Type) where
  insert : List κ → κ → List κ
  perm : ∀ ks k, (insert ks k).Perm (k :: ks)

/-- A new key goes to the front. -/
def IterationOrder.newestFirst (κ : Type) : IterationOrder κ where
  insert ks k := k :: ks
  perm _ _ := .refl _

/-- Each key once, in the order of iteration, and the value of each. -/
structure UnorderedMap {κ : Type} (order : IterationOrder κ) (ν : Type) where
  keys : List κ
  find : κ → Option ν
  nodup : keys.Nodup
  mem_keys : ∀ k, k ∈ keys ↔ (find k).isSome = true

namespace IterationOrder
variable {κ : Type} [DecidableEq κ] (order : IterationOrder κ)

/-- The keys after `m[k] = v`. -/
def assign (ks : List κ) (k : κ) : List κ := if k ∈ ks then ks else order.insert ks k

variable {order}

theorem mem_assign {ks : List κ} {k j : κ} : j ∈ order.assign ks k ↔ j = k ∨ j ∈ ks := by
  rw [assign]
  split_ifs with hk
  · constructor
    · exact Or.inr
    · rintro (rfl | hj)
      · exact hk
      · exact hj
  · rw [(order.perm ks k).mem_iff, List.mem_cons]

theorem nodup_assign {ks : List κ} (h : ks.Nodup) (k : κ) : (order.assign ks k).Nodup := by
  rw [assign]
  split_ifs with hk
  · exact h
  · rw [(order.perm ks k).nodup_iff]
    exact List.nodup_cons.mpr ⟨hk, h⟩

variable (order)

/-- The order of iteration after assignments to the keys `ks`, one after another. -/
def keysAfter (ks : List κ) : List κ := ks.foldl order.assign []

theorem keysAfter_append_singleton (ks : List κ) (k : κ) :
    order.keysAfter (ks ++ [k]) = order.assign (order.keysAfter ks) k := by
  rw [keysAfter, List.foldl_append]
  rfl

theorem mem_keysAfter {ks : List κ} {j : κ} : j ∈ order.keysAfter ks ↔ j ∈ ks := by
  induction ks using List.reverseRecOn with
  | nil => rfl
  | append_singleton ks k ih =>
    rw [keysAfter_append_singleton, mem_assign, ih, List.mem_append, List.mem_singleton, or_comm]

theorem keysAfter_eq_nil_iff {ks : List κ} : order.keysAfter ks = [] ↔ ks = [] := by
  simp only [List.eq_nil_iff_forall_not_mem, mem_keysAfter]

end IterationOrder

namespace UnorderedMap
variable {κ : Type} {order : IterationOrder κ} {ν : Type}

def empty : UnorderedMap order ν where
  keys := []
  find _ := none
  nodup := List.nodup_nil
  mem_keys k := by simp

/-- The value of the entry that `begin()` is at. -/
def first (m : UnorderedMap order ν) : Option ν := m.keys.head?.bind m.find

variable [DecidableEq κ]

/-- `m[k] = v`. -/
def assign (m : UnorderedMap order ν) (k : κ) (v : ν) : UnorderedMap order ν where
  keys := order.assign m.keys k
  find := Function.update m.find k (some v)
  nodup := IterationOrder.nodup_assign m.nodup k
  mem_keys j := by
    rw [IterationOrder.mem_assign, m.mem_keys, Function.update_apply]
    split_ifs with h
    · simp [h]
    · simp [h]

/-- The map after the assignments, one after another. -/
def assignAll (order : IterationOrder κ) (calls : List (κ × ν)) : UnorderedMap order ν :=
  calls.foldl (fun m c => m.assign c.1 c.2) empty

/-- The value assigned last to the key. -/
def lastAssigned (calls : List (κ × ν)) (k : κ) : Option ν := (calls.reverse.find? fun c => c.1 = k).map Prod.snd

theorem assignAll_append_singleton (calls : List (κ × ν)) (c : κ × ν) :
    assignAll order (calls ++ [c]) = (assignAll order calls).assign c.1 c.2 := by
  rw [assignAll, List.foldl_append]
  rfl

theorem keys_assignAll (calls : List (κ × ν)) : (assignAll order calls).keys = order.keysAfter (calls.map Prod.fst) := by
  induction calls using List.reverseRecOn with
  | nil => rfl
  | append_singleton calls c ih =>
    rw [assignAll_append_singleton, List.map_append, List.map_singleton, IterationOrder.keysAfter_append_singleton, ← ih]
    rfl

theorem find_assignAll (calls : List (κ × ν)) (k : κ) : (assignAll order calls).find k = lastAssigned calls k := by
  induction calls using List.reverseRecOn with
  | nil => rfl
  | append_singleton calls c ih =>
    rw [assignAll_append_singleton, lastAssigned, List.reverse_append, List.reverse_singleton, List.singleton_append,
      List.find?_cons]
    show Function.update (assignAll order calls).find c.1 (some c.2) k = _
    rw [Function.update_apply, ih]
    by_cases hk : k = c.1
    · simp [hk]
    · simp [hk, Ne.symm hk, lastAssigned]

/-- The first entry is the one of the first key, with the value assigned to it last. -/
theorem first_assignAll (calls : List (κ × ν)) :
    (assignAll order calls).first = (order.keysAfter (calls.map Prod.fst)).head?.bind (lastAssigned calls) := by
  rw [first, keys_assignAll]
  congr 1
  funext k
  exact find_assignAll calls k

theorem lastAssigned_eq_none_iff {calls : List (κ × ν)} {k : κ} : lastAssigned calls k = none ↔ k ∉ calls.map Prod.fst := by
  simp only [lastAssigned, Option.map_eq_none_iff, List.find?_eq_none, List.mem_reverse, decide_eq_true_eq, List.mem_map,
    not_exists, not_and]

theorem lastAssigned_mapValue {μ : Type} (g : ν → μ) (calls : List (κ × ν)) (k : κ) :
    lastAssigned (calls.map fun c => (c.1, g c.2)) k = (lastAssigned calls k).map g := by
  rw [lastAssigned, lastAssigned, ← List.map_reverse, List.find?_map, Option.map_map, Option.map_map]
  rfl

/-- Assignments that give each key the value of a function. -/
theorem lastAssigned_map (f : κ → ν) {ks : List κ} {k : κ} (h : k ∈ ks) : lastAssigned (ks.map fun j => (j, f j)) k = some (f k) := by
  cases hlast : lastAssigned (ks.map fun j => (j, f j)) k with
  | none =>
    rw [lastAssigned_eq_none_iff, List.map_map] at hlast
    exact absurd (List.mem_map.mpr ⟨k, h, rfl⟩) hlast
  | some v =>
    simp only [lastAssigned, Option.map_eq_some_iff] at hlast
    obtain ⟨c, hfind, rfl⟩ := hlast
    obtain ⟨j, -, rfl⟩ := List.mem_map.mp (List.mem_reverse.mp (List.mem_of_find?_eq_some hfind))
    have hkey := List.find?_some hfind
    rw [decide_eq_true_eq] at hkey
    rw [← hkey]

end UnorderedMap

end IbarraGateway
