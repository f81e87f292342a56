import IbarraGateway.CloudSync.Blocking

/-!
# Draining the table

Rounds of polling whose POSTs are all accepted: each uploads the first ten `PENDING` rows, in the order of their ids, and
each of them once. After `k` rounds `10 * k` rows have left, whatever the order of the answers (`rounds_drain`).
-/

namespace IbarraGateway.CloudSync

/-- The POSTs in the order in which they are made. -/
def posted (h : List Effect) : List (Nat × Mutation) :=
  h.filterMap fun
    | .post id mutation => some (id, mutation)
    | .answered _ _ _ => none

/-- A row and its POST. -/
def Row.post (r : Row) : Nat × Mutation := (r.id, buildMutation r)

/-- The `PENDING` rows in the order of their ids. -/
def Sync.pending (s : Sync) : List Row := s.table.rows.filter fun r => r.syncStatus = .pending

/-- Every POST is accepted. -/
def AllAccepted (h : List Effect) : Prop := AcceptedFor (fun _ => true) h

theorem posted_append (h h' : List Effect) : posted (h ++ h') = posted h ++ posted h' := List.filterMap_append

theorem firstPending_eq (s : Sync) : s.table.firstPending = s.pending.take 10 := rfl

/-! ## A round -/

/-- Rows with the ids are `SYNCED`. -/
def settle (done : List Nat) (r : Row) : Row := if r.id ∈ done then { r with syncStatus := .synced } else r

theorem settle_cons (id : Nat) (done : List Nat) (r : Row) :
    (if (settle done r).id = id then Update.synced.apply (settle done r) else settle done r) = settle (id :: done) r := by
  unfold settle
  by_cases hid : r.id = id <;> by_cases hdone : r.id ∈ done <;> simp [hid, hdone, Update.apply] <;> simp_all

theorem filter_settle (done : List Nat) (rows : List Row) :
    ((rows.map (settle done)).filter fun r => r.syncStatus = .pending) =
      (rows.filter fun r => r.syncStatus = .pending).filter fun r => r.id ∉ done := by
  induction rows with
  | nil => rfl
  | cons r rows ih =>
    rw [List.map_cons, List.filter_cons, List.filter_cons, ih]
    by_cases hdone : r.id ∈ done
    · have hsettled : (settle done r).syncStatus ≠ .pending := by simp [settle, hdone]
      rw [if_neg (by simpa using hsettled)]
      split
      · rw [List.filter_cons_of_neg (by simpa using hdone)]
      · rfl
    · have hsettled : settle done r = r := by simp [settle, hdone]
      rw [hsettled]
      split
      · rw [List.filter_cons_of_pos (by simpa using hdone)]
      · rfl

/-- In the middle of a round on `rows`: those in `done` are answered, the others are fetched. -/
structure Uploading (table : TelemetryBuffer) (rows : List Row) (done : List Nat) (s : Sync) : Prop where
  table_eq : s.table.rows = table.rows.map (settle done)
  calls : s.calls.Perm ((rows.filter fun r => r.id ∉ done).map fun r => ⟨r, .fetching⟩)
  done_sub : done ⊆ rows.map Row.id

theorem Uploading.fetching {table : TelemetryBuffer} {rows : List Row} {done : List Nat} {s : Sync}
    (hu : Uploading table rows done s) {c : Call} (hc : c ∈ s.calls) :
    c.phase = .fetching ∧ c.row ∈ rows ∧ c.row.id ∉ done := by
  obtain ⟨r, hr, rfl⟩ := List.mem_map.mp (hu.calls.mem_iff.mp hc)
  obtain ⟨hmem, hdone⟩ := List.mem_filter.mp hr
  exact ⟨rfl, hmem, by simpa using hdone⟩

theorem resumeFetch_accepted (cfg : Config) (s : Sync) (row : Row) {result : FetchResult} (h : result.Accepted) :
    resumeFetch cfg s row result = s.update row.id .synced := by
  cases result with
  | response status body => exact if_pos h.1
  | rejected message => exact absurd h.1 id

/-- **Step lemma**: an accepted answer settles its row. -/
theorem Uploading.continue {table : TelemetryBuffer} {rows : List Row} (hrows : rows.Pairwise fun r r' => r.id < r'.id)
    {done : List Nat} {s t : Sync} {a : Input} {cfg : Config} {out : List Effect} (hu : Uploading table rows done s)
    (ha : a.Continues) (hstep : step cfg s a = some (t, out)) (hacc : AllAccepted out) :
    (∃ done, Uploading table rows done t) ∧ posted out = [] := by
  cases a with
  | insert => exact False.elim ha
  | poll => exact False.elim ha
  | wake i =>
    obtain ⟨row, delay, hget, -⟩ := step_wake hstep
    obtain ⟨hphase, -⟩ := hu.fetching (List.mem_of_getElem? hget)
    cases hphase
  | respond i result =>
    obtain ⟨row, hans⟩ := step_respond hstep
    obtain ⟨calls, hperm, hrest⟩ := hans.rest
    obtain ⟨-, hrow, hdone⟩ := hu.fetching hans.mem_calls.1
    rw [resumeFetch_accepted cfg _ row (hans.accepted hacc rfl)] at hrest
    refine ⟨⟨row.id :: done, ?_, ?_, ?_⟩, by rw [hans.out]; rfl⟩
    · rw [hrest]
      show ((s.table.update row.id .synced).rows) = _
      show s.table.rows.map _ = _
      rw [hu.table_eq, List.map_map]
      exact List.map_congr_left fun r _ => settle_cons row.id done r
    · rw [hrest]
      have hothers := KeyedTable.filter_perm_cons (p := fun r => decide (r.id ∉ done)) hrows hrow (by simpa using hdone)
      have hcalls := (hperm.symm.trans hu.calls).trans (hothers.map fun r => (⟨r, .fetching⟩ : Call))
      rw [List.map_cons] at hcalls
      have hfilter : (rows.filter fun r => r.id ≠ row.id && decide (r.id ∉ done)) =
          rows.filter fun r => r.id ∉ row.id :: done := by
        refine List.filter_congr fun r _ => ?_
        simp
      rw [hfilter] at hcalls
      exact hcalls.cons_inv
    · exact List.cons_subset.mpr ⟨List.mem_map_of_mem hrow, hu.done_sub⟩

theorem beginAll_of_parses (cfg : Config) {rows : List Row} (hparses : ∀ r ∈ rows, cfg.parses r.payload = true) (s : Sync) :
    beginAll cfg s rows =
      ({ s with calls := s.calls ++ rows.map fun r => ⟨r, .fetching⟩ }, rows.map fun r => .post r.id (buildMutation r)) := by
  induction rows generalizing s with
  | nil => simp [beginAll]
  | cons r rows ih =>
    obtain ⟨hr, hrows⟩ := List.forall_mem_cons.mp hparses
    have hbegin : beginSync cfg s r = (s.suspend ⟨r, .fetching⟩, [.post r.id (buildMutation r)]) := if_pos hr
    rw [beginAll, hbegin]
    dsimp only
    rw [ih hrows]
    simp [Sync.suspend]

theorem posted_posts (rows : List Row) : posted (rows.map fun r => .post r.id (buildMutation r)) = rows.map Row.post := by
  rw [posted, List.filterMap_map]
  exact congrFun (List.filterMap_eq_map (f := Row.post)) rows

/-- A tick starts with nothing settled. -/
theorem uploading_poll (cfg : Config) {s : Sync} (hcalls : s.calls = [])
    (hparses : ∀ r ∈ s.table.firstPending, cfg.parses r.payload = true) :
    Uploading s.table s.table.firstPending [] (pollOnce cfg s).1 ∧
      posted (pollOnce cfg s).2 = s.table.firstPending.map Row.post := by
  rw [pollOnce, beginAll_of_parses cfg hparses]
  refine ⟨⟨?_, ?_, List.nil_subset _⟩, posted_posts _⟩
  · have hid : settle [] = id := by
      funext r
      simp [settle]
    rw [hid, List.map_id]
  · rw [hcalls, List.nil_append, List.filter_eq_self.mpr (by simp)]

/-- **Round lemma**: ten rows leave, in order. -/
theorem round_drain {cfg : Config} {s t : Sync} {h : List Effect} (hround : Round cfg s h t) (hcalls : s.calls = [])
    (hparses : ∀ r ∈ s.pending, cfg.parses r.payload = true) (hacc : AllAccepted h) :
    posted h = (s.pending.take 10).map Row.post ∧ t.pending = s.pending.drop 10 := by
  obtain ⟨inputs, hcont, hrun, hdone⟩ := hround
  obtain ⟨v, out, outs, hpoll, hrest, rfl⟩ := (cloudSync cfg).run_cons_iff.mp hrun
  obtain ⟨rfl, rfl⟩ := eq_of_some_eq (show some (pollOnce cfg s) = some (v, out) from hpoll)
  have hfirst : ∀ r ∈ s.table.firstPending, cfg.parses r.payload = true := fun r hr =>
    hparses r (List.mem_of_mem_take hr)
  have hordered : s.table.firstPending.Pairwise fun r r' => r.id < r'.id := KeyedTable.first_pairwise _ _ _
  obtain ⟨hbegun, hposts⟩ := uploading_poll cfg hcalls hfirst
  have hinv := (cloudSync cfg).run_induction
    (I := fun h u => AllAccepted h → (∃ done, Uploading s.table s.table.firstPending done u) ∧ posted h = [])
    (fun h u a w out hI ha hstep haccepted => ?_) (h := []) (fun _ => ⟨⟨[], hbegun⟩, rfl⟩)
    ((cloudSync cfg).along_of_mem hcont _) hrest
  · obtain ⟨⟨done, hu⟩, hnone⟩ := hinv (AcceptedFor.append_iff.mp hacc).2
    refine ⟨?_, ?_⟩
    · rw [posted_append, hposts, show posted outs = [] from hnone, List.append_nil, firstPending_eq]
    · have hall : ∀ r ∈ s.table.firstPending, r.id ∈ done := by
        have hnil := hu.calls
        rw [hdone, List.nil_perm, List.map_eq_nil_iff, List.filter_eq_nil_iff] at hnil
        exact fun r hr => by simpa using hnil r hr
      have hbehind : (s.pending.filter fun r => r.id ∉ s.table.firstPending.map Row.id) = s.pending.drop 10 :=
        KeyedTable.filter_not_mem_take (s.table.ordered.filter _) 10
      rw [← hbehind, Sync.pending, hu.table_eq, filter_settle]
      refine List.filter_congr fun r _ => ?_
      have hiff : r.id ∈ done ↔ r.id ∈ s.table.firstPending.map Row.id := by
        constructor
        · exact fun hr => hu.done_sub hr
        · intro hr
          obtain ⟨r', hr', heq⟩ := List.mem_map.mp hr
          rw [← heq]
          exact hall r' hr'
      exact decide_eq_decide.mpr (not_congr hiff)
  · obtain ⟨haccepted₁, haccepted₂⟩ := AcceptedFor.append_iff.mp haccepted
    obtain ⟨⟨done, hu⟩, hnone⟩ := hI haccepted₁
    obtain ⟨hnext, hout⟩ := hu.continue hordered ha hstep haccepted₂
    exact ⟨hnext, by rw [posted_append, hnone, hout]; rfl⟩

/-- **Draining.** With every POST accepted, `k` rounds upload the first `10 * k` pending rows, in the order of their ids and
each once, and leave the others pending. -/
theorem rounds_drain {cfg : Config} {k : Nat} {s t : Sync} {h : List Effect} (hrounds : Rounds cfg k s h t)
    (hcalls : s.calls = []) (hparses : ∀ r ∈ s.pending, cfg.parses r.payload = true) (hacc : AllAccepted h) :
    posted h = (s.pending.take (10 * k)).map Row.post ∧ t.pending = s.pending.drop (10 * k) := by
  induction hrounds with
  | zero s => exact ⟨rfl, rfl⟩
  | @succ k s t u h h' hround hrest ih =>
    obtain ⟨hacc₁, hacc₂⟩ := AcceptedFor.append_iff.mp hacc
    obtain ⟨hposts, hpending⟩ := round_drain hround hcalls hparses hacc₁
    have hdone : t.calls = [] := by
      obtain ⟨-, -, -, hdone⟩ := hround
      exact hdone
    have hparses' : ∀ r ∈ t.pending, cfg.parses r.payload = true := by
      rw [hpending]
      exact fun r hr => hparses r (List.mem_of_mem_drop hr)
    obtain ⟨hposts', hpending'⟩ := ih hdone hparses' hacc₂
    rw [posted_append, hposts, hposts', hpending', hpending, ← List.map_append, ← List.take_add, List.drop_drop,
      Nat.mul_succ, Nat.add_comm]
    exact ⟨rfl, rfl⟩

end IbarraGateway.CloudSync
