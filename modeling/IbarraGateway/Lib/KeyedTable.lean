import Mathlib.Data.List.Nodup
import Mathlib.Order.Nat

/-!
# Tables with a numeric primary key

The rows stand in the order of their keys, so a key names at most one row and `ORDER BY key` is the order of the list.

* `find`, `modify`, `append` : select, update and insert by key; `find_modify` and `find_append` say what a reader of
  any key sees afterwards.
* `first k p` : the first `k` rows that meet `p`, and `mem_first_iff` : a row is among them when fewer than `k` such rows
  stand before it.
-/

namespace IbarraGateway

/-- Rows in the order of their keys. -/
structure KeyedTable {ρ : Type} (key : ρ → Nat) where
  rows : List ρ
  ordered : rows.Pairwise fun r r' => key r < key r'

namespace KeyedTable
variable {ρ : Type} {key : ρ → Nat}

def empty : KeyedTable key := ⟨[], .nil⟩

/-- The row with the key. -/
def find (t : KeyedTable key) (id : Nat) : Option ρ := t.rows.find? fun r => key r = id

/-- The keys in use. -/
def keys (t : KeyedTable key) : List Nat := t.rows.map key

/-- `f` on the row with the key. -/
def modify (t : KeyedTable key) (id : Nat) (f : ρ → ρ) (hf : ∀ r, key (f r) = key r) : KeyedTable key where
  rows := t.rows.map fun r => if key r = id then f r else r
  ordered := by
    apply List.Pairwise.map _ _ t.ordered
    intro r r' h
    rw [apply_ite key, apply_ite key, hf, hf, ite_self, ite_self]
    exact h

/-- A key above all keys in use, `1` for the empty table. -/
def nextKeyOf (key : ρ → Nat) : List ρ → Nat
  | [] => 1
  | r :: rs => max (key r + 1) (nextKeyOf key rs)

theorem lt_nextKeyOf {rs : List ρ} {r : ρ} (h : r ∈ rs) : key r < nextKeyOf key rs := by
  induction rs with
  | nil => exact absurd h List.not_mem_nil
  | cons r' rs ih =>
    rw [nextKeyOf]
    rcases List.mem_cons.mp h with rfl | h
    · omega
    · have := ih h
      omega

def nextKey (t : KeyedTable key) : Nat := nextKeyOf key t.rows

/-- A row at the end, under a key above all others. -/
def append (t : KeyedTable key) (r : ρ) (h : key r = t.nextKey) : KeyedTable key where
  rows := t.rows ++ [r]
  ordered := by
    apply List.pairwise_append.mpr
    refine ⟨t.ordered, List.pairwise_singleton _ _, fun r₁ h₁ r₂ h₂ => ?_⟩
    rw [List.mem_singleton] at h₂
    subst h₂
    rw [h]
    exact lt_nextKeyOf h₁

/-- The first `k` rows that meet `p`, in the order of their keys. -/
def first (t : KeyedTable key) (k : Nat) (p : ρ → Bool) : List ρ := (t.rows.filter p).take k

/-! ## Lookup -/

theorem eq_of_key_eq {t : KeyedTable key} {r r' : ρ} (h : r ∈ t.rows) (h' : r' ∈ t.rows) (heq : key r = key r') :
    r = r' := by
  have hnodup : (t.rows.map key).Nodup := List.Pairwise.map key (fun _ _ hlt => hlt) (t.ordered.imp fun hlt => hlt.ne)
  exact List.inj_on_of_nodup_map hnodup h h' heq

theorem find_eq_some_iff {t : KeyedTable key} {id : Nat} {r : ρ} : t.find id = some r ↔ r ∈ t.rows ∧ key r = id := by
  constructor
  · intro h
    exact ⟨List.mem_of_find?_eq_some h, by simpa using List.find?_some h⟩
  · rintro ⟨hr, rfl⟩
    rcases hfind : t.find (key r) with _ | r'
    · exact absurd (decide_eq_true rfl) (List.find?_eq_none.mp hfind r hr)
    · have hmem := List.mem_of_find?_eq_some hfind
      have hkey : key r' = key r := by simpa using List.find?_some hfind
      rw [eq_of_key_eq hmem hr hkey]

theorem find_modify (t : KeyedTable key) (id id' : Nat) (f : ρ → ρ) (hf : ∀ r, key (f r) = key r) :
    (t.modify id f hf).find id' = if id' = id then (t.find id).map f else t.find id' := by
  apply Option.ext
  intro r
  rw [find_eq_some_iff]
  by_cases hid : id' = id
  · subst hid
    rw [if_pos rfl, Option.map_eq_some_iff]
    constructor
    · rintro ⟨hr, hkey⟩
      obtain ⟨r₀, hr₀, rfl⟩ := List.mem_map.mp hr
      by_cases h₀ : key r₀ = id'
      · rw [if_pos h₀]
        exact ⟨r₀, find_eq_some_iff.mpr ⟨hr₀, h₀⟩, rfl⟩
      · rw [if_neg h₀] at hkey
        exact absurd hkey h₀
    · rintro ⟨r₀, hfind, rfl⟩
      obtain ⟨hr₀, rfl⟩ := find_eq_some_iff.mp hfind
      exact ⟨List.mem_map.mpr ⟨r₀, hr₀, if_pos rfl⟩, hf r₀⟩
  · rw [if_neg hid, find_eq_some_iff]
    constructor
    · rintro ⟨hr, hkey⟩
      obtain ⟨r₀, hr₀, rfl⟩ := List.mem_map.mp hr
      by_cases h₀ : key r₀ = id
      · rw [if_pos h₀, hf] at hkey
        omega
      · rw [if_neg h₀] at hkey ⊢
        exact ⟨hr₀, hkey⟩
    · rintro ⟨hr, rfl⟩
      exact ⟨List.mem_map.mpr ⟨r, hr, if_neg hid⟩, rfl⟩

theorem find_append (t : KeyedTable key) (r : ρ) (h : key r = t.nextKey) (id : Nat) :
    (t.append r h).find id = if id = t.nextKey then some r else t.find id := by
  apply Option.ext
  intro r'
  rw [find_eq_some_iff]
  show r' ∈ t.rows ++ [r] ∧ key r' = id ↔ _
  rw [List.mem_append, List.mem_singleton]
  by_cases hid : id = t.nextKey
  · rw [if_pos hid, Option.some_inj]
    constructor
    · rintro ⟨hr' | rfl, rfl⟩
      · exact absurd hid (lt_nextKeyOf hr').ne
      · rfl
    · rintro rfl
      exact ⟨Or.inr rfl, h.trans hid.symm⟩
  · rw [if_neg hid, find_eq_some_iff]
    constructor
    · rintro ⟨hr' | rfl, rfl⟩
      · exact ⟨hr', rfl⟩
      · exact absurd h hid
    · rintro ⟨hr', rfl⟩
      exact ⟨Or.inl hr', rfl⟩

@[simp] theorem keys_modify (t : KeyedTable key) (id : Nat) (f : ρ → ρ) (hf : ∀ r, key (f r) = key r) :
    (t.modify id f hf).keys = t.keys := by
  unfold keys
  show (t.rows.map _).map key = _
  rw [List.map_map]
  apply List.map_congr_left
  intro r _
  show key (if key r = id then f r else r) = key r
  rw [apply_ite key, hf, ite_self]

/-- The key of a row in front stands in front. -/
theorem exists_index_lt {t : KeyedTable key} {m id id' : Nat} (h : t.keys[m]? = some id) (hmem : id' ∈ t.keys)
    (hlt : id' < id) : ∃ i < m, t.keys[i]? = some id' := by
  have hsorted : t.keys.Pairwise fun a b => a < b := List.Pairwise.map key (fun _ _ hlt => hlt) t.ordered
  obtain ⟨i, hi, rfl⟩ := List.getElem_of_mem hmem
  obtain ⟨hm, rfl⟩ := List.getElem?_eq_some_iff.mp h
  refine ⟨i, ?_, List.getElem?_eq_getElem hi⟩
  by_contra hge
  rcases Nat.lt_or_eq_of_le (Nat.le_of_not_lt hge) with hmi | rfl
  · have := List.pairwise_iff_getElem.mp hsorted m i hm hi hmi
    omega
  · omega

/-! ## The first rows -/

theorem mem_take_iff {l : List ρ} (hl : l.Pairwise fun r r' => key r < key r') {r : ρ} {k : Nat} :
    r ∈ l.take k ↔ r ∈ l ∧ (l.countP fun r' => key r' < key r) < k := by
  induction l generalizing k with
  | nil => simp
  | cons x xs ih =>
    obtain ⟨hx, hxs⟩ := List.pairwise_cons.mp hl
    rcases k with _ | k
    · simp
    rw [List.take_succ_cons, List.mem_cons, List.mem_cons, ih hxs]
    constructor
    · rintro (rfl | ⟨hr, hcount⟩)
      · refine ⟨Or.inl rfl, ?_⟩
        have hzero : ((r :: xs).countP fun r' => key r' < key r) = 0 := by
          rw [List.countP_eq_zero]
          intro r' hr'
          rcases List.mem_cons.mp hr' with rfl | hr'
          · simp
          · simpa using (hx r' hr').le
        omega
      · refine ⟨Or.inr hr, ?_⟩
        rw [List.countP_cons, if_pos (by simpa using hx r hr)]
        omega
    · rintro ⟨rfl | hr, hcount⟩
      · exact Or.inl rfl
      · right
        rw [List.countP_cons, if_pos (by simpa using hx r hr)] at hcount
        exact ⟨hr, by omega⟩

/-- A row is among the first `k` when fewer than `k` such rows stand before it. -/
theorem mem_first_iff {t : KeyedTable key} {k : Nat} {p : ρ → Bool} {r : ρ} :
    r ∈ t.first k p ↔ (r ∈ t.rows ∧ p r) ∧ (t.rows.countP fun r' => key r' < key r && p r') < k := by
  rw [first, mem_take_iff (t.ordered.filter p), List.mem_filter, List.countP_filter]

theorem first_pairwise (t : KeyedTable key) (k : Nat) (p : ρ → Bool) :
    (t.first k p).Pairwise fun r r' => key r < key r' :=
  (t.ordered.filter p).sublist (List.take_sublist _ _)

theorem filter_behind {front back : List ρ} (hl : (front ++ back).Pairwise fun r r' => key r < key r') :
    ((front ++ back).filter fun r => key r ∉ front.map key) = back := by
  have hfront : (front.filter fun r => key r ∉ front.map key) = [] :=
    List.filter_eq_nil_iff.mpr fun r hr => by simpa using List.mem_map_of_mem (f := key) hr
  have hback : (back.filter fun r => key r ∉ front.map key) = back := by
    refine List.filter_eq_self.mpr fun r hr => decide_eq_true fun hmem => ?_
    obtain ⟨r', hr', heq⟩ := List.mem_map.mp hmem
    have hlt := (List.pairwise_append.mp hl).2.2 r' hr' r hr
    omega
  rw [List.filter_append, hfront, hback, List.nil_append]

/-- What stands behind the first `k` rows, by key. -/
theorem filter_not_mem_take {l : List ρ} (hl : l.Pairwise fun r r' => key r < key r') (k : Nat) :
    (l.filter fun r => key r ∉ (l.take k).map key) = l.drop k := by
  have hwhole : (l.take k ++ l.drop k).Pairwise fun r r' => key r < key r' := by rwa [List.take_append_drop]
  have hbehind := filter_behind hwhole
  rwa [List.take_append_drop] at hbehind

/-- One row of those that meet `p`, and the others. -/
theorem filter_perm_cons {l : List ρ} (hl : l.Pairwise fun r r' => key r < key r') {p : ρ → Bool} {r : ρ} (hr : r ∈ l)
    (hp : p r) : (l.filter p).Perm (r :: l.filter fun r' => key r' ≠ key r && p r') := by
  induction l with
  | nil => cases hr
  | cons x l ih =>
    obtain ⟨hx, hl⟩ := List.pairwise_cons.mp hl
    rcases List.mem_cons.mp hr with rfl | hr
    · have hrest : (l.filter fun r' => key r' ≠ key r && p r') = l.filter p := by
        refine List.filter_congr fun r' hr' => ?_
        have hne : key r' ≠ key r := (hx r' hr').ne'
        simp [hne]
      rw [List.filter_cons_of_pos hp, List.filter_cons_of_neg (by simp), hrest]
    · have hne : key x ≠ key r := (hx r hr).ne
      by_cases hpx : p x
      · rw [List.filter_cons_of_pos hpx, List.filter_cons_of_pos (by simp [hne, hpx])]
        exact ((ih hl hr).cons x).trans (List.Perm.swap r x _)
      · rw [List.filter_cons_of_neg hpx, List.filter_cons_of_neg (by simp [hpx])]
        exact ih hl hr

end KeyedTable
end IbarraGateway
