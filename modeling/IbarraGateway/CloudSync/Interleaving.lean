import IbarraGateway.CloudSync.Sync
import Mathlib.Data.List.Perm.Basic

/-!
# Overlapping uploads

`last_error` is written by many and read by none, so the table is followed through `Sync.book`, which leaves it out.
A step of the event loop is then one of two (`step_cases`): it keeps the book and starts fetches, or it takes the answer
of one fetch and writes its verdict into the row of that fetch.

The verdict comes from the row as it was when the `syncRecord` began. It is right when no other fetch of the row was under
way meanwhile: the guard `NoOverlap`, which `pollOnce` does not have. Under it a fetch works from the row as it is now
(`Clean`), and no row goes back (`Advances`).
-/

namespace IbarraGateway.CloudSync

/-! ## The book -/

def Row.book (r : Row) : Row := { r with lastError := none }

/-- The row with the id, `last_error` left out. -/
def Sync.book (s : Sync) (id : Nat) : Option Row := (s.table.find id).map Row.book

theorem Update.apply_book (u : Update) (r : Row) : (u.apply r.book).book = (u.apply r).book := by
  cases u <;> rfl

theorem book_update (s : Sync) (id id' : Nat) (u : Update) :
    (s.update id u).book id' = if id' = id then (s.book id).map fun r => (u.apply r).book else s.book id' := by
  unfold Sync.book
  show ((s.table.modify id u.apply u.apply_id).find id').map Row.book = _
  rw [KeyedTable.find_modify, apply_ite (Option.map Row.book), Option.map_map, Option.map_map]
  congr 2
  funext r
  exact (u.apply_book r).symm

theorem book_update_lastError (s : Sync) (id : Nat) (e : String) : (s.update id (.lastError e)).book = s.book := by
  funext id'
  rw [book_update]
  split
  · rename_i hid
    subst hid
    show ((s.table.find _).map Row.book).map _ = _
    rw [Option.map_map]
    rfl
  · rfl

theorem book_eq_of_mem {s : Sync} {r : Row} (h : r ∈ s.table.rows) : s.book r.id = some r.book := by
  rw [Sync.book, KeyedTable.find_eq_some_iff.mpr ⟨h, rfl⟩]
  rfl

theorem mem_of_book {s : Sync} {id : Nat} {r : Row} (h : s.book id = some r) :
    ∃ row ∈ s.table.rows, row.id = id ∧ row.book = r := by
  obtain ⟨row, hfind, rfl⟩ := Option.map_eq_some_iff.mp h
  obtain ⟨hmem, hid⟩ := KeyedTable.find_eq_some_iff.mp hfind
  exact ⟨row, hmem, hid, rfl⟩

theorem mem_keys_iff {s : Sync} {id : Nat} : id ∈ s.table.keys ↔ ∃ r, s.book id = some r := by
  constructor
  · intro h
    obtain ⟨row, hrow, rfl⟩ := List.mem_map.mp h
    exact ⟨row.book, book_eq_of_mem hrow⟩
  · rintro ⟨r, hr⟩
    obtain ⟨row, hrow, rfl, -⟩ := mem_of_book hr
    exact List.mem_map_of_mem hrow

theorem book_insert (s : Sync) (record : Record) (id : Nat) :
    Sync.book { s with table := s.table.insert record } id =
      if id = s.table.nextKey then some (record.row s.table.nextKey).book else s.book id := by
  unfold Sync.book
  show ((s.table.append (record.row s.table.nextKey) (record.row_id _)).find id).map Row.book = _
  rw [KeyedTable.find_append, apply_ite (Option.map Row.book)]
  rfl

theorem book_nextKey (s : Sync) : s.book s.table.nextKey = none := by
  unfold Sync.book
  rw [Option.map_eq_none_iff]
  rcases hfind : s.table.find s.table.nextKey with _ | r
  · rfl
  · obtain ⟨hr, hid⟩ := KeyedTable.find_eq_some_iff.mp hfind
    have hlt : r.id < s.table.nextKey := KeyedTable.lt_nextKeyOf hr
    omega

@[simp] theorem keys_update (s : Sync) (id : Nat) (u : Update) : (s.update id u).table.keys = s.table.keys :=
  KeyedTable.keys_modify s.table id u.apply u.apply_id

/-! ## Starting fetches -/

theorem mem_firstPending {t : TelemetryBuffer} {r : Row} (h : r ∈ t.firstPending) :
    r ∈ t.rows ∧ r.syncStatus = .pending := by
  have hmem := (KeyedTable.mem_first_iff.mp h).1
  exact ⟨hmem.1, by simpa using hmem.2⟩

/-- The calls that rows begin: one fetch for each payload that is JSON. -/
def begun (cfg : Config) (rows : List Row) : List Call :=
  (rows.filter fun r => cfg.parses r.payload).map fun r => ⟨r, .fetching⟩

theorem beginSync_spec (cfg : Config) (s : Sync) (row : Row) :
    (beginSync cfg s row).1.book = s.book ∧ (beginSync cfg s row).1.calls = s.calls ++ begun cfg [row] ∧
      ∀ e ∈ (beginSync cfg s row).2, ∃ id m, e = .post id m := by
  unfold beginSync begun
  split
  · rename_i hparses
    refine ⟨rfl, ?_, ?_⟩
    · simp [Sync.suspend, hparses]
    · simp
  · rename_i hparses
    refine ⟨book_update_lastError _ _ _, ?_, ?_⟩
    · simp [Sync.update, hparses]
    · simp

theorem beginAll_spec (cfg : Config) (s : Sync) (rows : List Row) :
    (beginAll cfg s rows).1.book = s.book ∧ (beginAll cfg s rows).1.calls = s.calls ++ begun cfg rows ∧
      ∀ e ∈ (beginAll cfg s rows).2, ∃ id m, e = .post id m := by
  induction rows generalizing s with
  | nil => exact ⟨rfl, by simp [beginAll, begun], by simp [beginAll]⟩
  | cons row rows ih =>
    obtain ⟨hbook, hcalls, hpost⟩ := beginSync_spec cfg s row
    obtain ⟨ihbook, ihcalls, ihpost⟩ := ih (beginSync cfg s row).1
    refine ⟨ihbook.trans hbook, ?_, ?_⟩
    · rw [beginAll, ihcalls, hcalls, List.append_assoc, begun, begun, begun, ← List.map_append, ← List.filter_append]
      rfl
    · intro e he
      rcases List.mem_append.mp he with he | he
      · exact hpost e he
      · exact ihpost e he

/-! ## Taking an answer -/

/-- The `UPDATE` that an answer may lead to, for the row as the call has it. -/
def Verdict (cfg : Config) (row : Row) (result : FetchResult) (u : Update) : Prop :=
  result.Ok ∧ u = .synced ∨ ¬ result.Ok ∧ ((∃ e, u = .lastError e) ∨ (∃ e, u = .retried (row.retryCount + 1) e) ∨
    ∃ e, u = .failed (row.retryCount + 1) e ∧ cfg.maxRetries ≤ row.retryCount + 1)

/-- One `UPDATE`, and the backoff after it. -/
theorem resumeFetch_spec (cfg : Config) (s : Sync) (row : Row) (result : FetchResult) :
    ∃ u naps, resumeFetch cfg s row result = { s.update row.id u with calls := s.calls ++ naps } ∧
      (naps = [] ∨ ∃ delay, naps = [⟨row, .sleeping delay⟩]) ∧ Verdict cfg row result u := by
  rcases result with ⟨status, body⟩ | message
  · simp only [resumeFetch]
    split
    · rename_i hok
      exact ⟨.synced, [], by simp [Sync.update], Or.inl rfl, Or.inl ⟨hok, rfl⟩⟩
    rename_i hok
    split
    · split
      · rename_i hmax
        exact ⟨.failed (row.retryCount + 1) ("HTTP " ++ toString status), [], by simp [Sync.update], Or.inl rfl,
          Or.inr ⟨hok, Or.inr (Or.inr ⟨_, rfl, hmax⟩)⟩⟩
      · exact ⟨.retried (row.retryCount + 1) ("HTTP " ++ toString status), _, rfl, Or.inr ⟨_, rfl⟩,
          Or.inr ⟨hok, Or.inr (Or.inl ⟨_, rfl⟩)⟩⟩
    · exact ⟨.lastError ("HTTP " ++ toString status), [], by simp [Sync.update], Or.inl rfl,
        Or.inr ⟨hok, Or.inl ⟨_, rfl⟩⟩⟩
  · exact ⟨.lastError message, [], by simp [resumeFetch, Sync.update], Or.inl rfl, Or.inr ⟨id, Or.inl ⟨_, rfl⟩⟩⟩

/-- A verdict on the row itself does not lower its retries. -/
theorem Verdict.retryCount_le {cfg : Config} {row : Row} {result : FetchResult} {u : Update}
    (h : Verdict cfg row result u) : row.retryCount ≤ (u.apply row.book).book.retryCount := by
  rcases h with ⟨-, rfl⟩ | ⟨-, ⟨e, rfl⟩ | ⟨e, rfl⟩ | ⟨e, rfl, -⟩⟩
  · exact le_rfl
  · exact le_rfl
  · exact Nat.le_succ _
  · exact Nat.le_succ _

/-- A verdict that fails the row finds its retries used up. -/
theorem Verdict.exhausted {cfg : Config} {row : Row} {result : FetchResult} {u : Update}
    (h : Verdict cfg row result u) (hpending : row.syncStatus = .pending)
    (hfailed : (u.apply row.book).book.syncStatus = .failed) :
    cfg.maxRetries ≤ (u.apply row.book).book.retryCount := by
  rcases h with ⟨-, rfl⟩ | ⟨-, ⟨e, rfl⟩ | ⟨e, rfl⟩ | ⟨e, rfl, hmax⟩⟩
  · cases hfailed
  · exact absurd (hpending.symm.trans hfailed) (by decide)
  · exact absurd (hpending.symm.trans hfailed) (by decide)
  · exact hmax

/-- A row reads `SYNCED` after a verdict when it did before, or the status was a success. -/
theorem Verdict.ok_of_synced {cfg : Config} {row : Row} {result : FetchResult} {u : Update}
    (h : Verdict cfg row result u) {r : Row} (hsynced : (u.apply r).book.syncStatus = .synced) :
    r.syncStatus = .synced ∨ result.Ok := by
  rcases h with ⟨hok, -⟩ | ⟨-, ⟨e, rfl⟩ | ⟨e, rfl⟩ | ⟨e, rfl, -⟩⟩
  · exact Or.inr hok
  · exact Or.inl hsynced
  · exact Or.inl hsynced
  · cases hsynced

/-! ## What a step can do -/

/-- A step that takes no answer: the book is kept, new rows are `PENDING`, and new calls fetch a row as it is. -/
structure Quiet (s t : Sync) (out : List Effect) : Prop where
  book : ∀ id r, s.book id = some r → t.book id = some r
  newborn : ∀ id r, t.book id = some r → s.book id = some r ∨ r.syncStatus = .pending
  calls : ∀ c ∈ t.calls, c ∈ s.calls ∨
    c.phase = .fetching ∧ t.book c.row.id = some c.row.book ∧ c.row.syncStatus = .pending
  unanswered : ∀ id m result, .answered id m result ∉ out

/-- A step that takes the answer of one fetch. -/
structure Answer (cfg : Config) (s : Sync) (a : Input) (t : Sync) (out : List Effect) (row : Row)
    (result : FetchResult) : Prop where
  input : ∃ i, a = .respond i result
  rest : ∃ calls, s.calls.Perm (⟨row, .fetching⟩ :: calls) ∧ t = resumeFetch cfg { s with calls } row result
  out : out = [.answered row.id (buildMutation row) result]

theorem quiet_of_book_eq {s t : Sync} {out : List Effect} (hbook : t.book = s.book)
    (hcalls : ∀ c ∈ t.calls, c ∈ s.calls ∨ c.phase = .fetching ∧ ∃ r ∈ s.table.rows, c.row = r ∧ r.syncStatus = .pending)
    (hpost : ∀ e ∈ out, ∃ id m, e = .post id m) : Quiet s t out := by
  refine ⟨fun id r hr => by rw [hbook]; exact hr, fun id r hr => Or.inl (by rw [← hbook]; exact hr), ?_, ?_⟩
  · intro c hc
    rcases hcalls c hc with hc | ⟨hphase, r, hr, heq, hpending⟩
    · exact Or.inl hc
    · subst heq
      exact Or.inr ⟨hphase, by rw [hbook]; exact book_eq_of_mem hr, hpending⟩
  · intro id m result he
    obtain ⟨_, _, heq⟩ := hpost _ he
    cases heq

theorem eq_of_some_eq {p : Sync × List Effect} {t : Sync} {out : List Effect} (h : some p = some (t, out)) :
    t = p.1 ∧ out = p.2 := by
  cases h
  exact ⟨rfl, rfl⟩

theorem perm_eraseIdx {calls : List Call} {i : Nat} {c : Call} (h : calls[i]? = some c) :
    calls.Perm (c :: calls.eraseIdx i) := by
  obtain ⟨hi, rfl⟩ := List.getElem?_eq_some_iff.mp h
  exact (List.getElem_cons_eraseIdx_perm hi).symm

theorem step_respond {cfg : Config} {s t : Sync} {i : Nat} {result : FetchResult} {out : List Effect}
    (h : step cfg s (.respond i result) = some (t, out)) : ∃ row, Answer cfg s (.respond i result) t out row result := by
  rw [step] at h
  split at h
  · rename_i row hget
    cases h
    exact ⟨row, ⟨i, rfl⟩, ⟨_, perm_eraseIdx hget, rfl⟩, rfl⟩
  · cases h

/-- After the backoff nothing happens, or the row as it is now is tried again. -/
theorem step_wake {cfg : Config} {s t : Sync} {i : Nat} {out : List Effect}
    (h : step cfg s (.wake i) = some (t, out)) :
    ∃ row delay, s.calls[i]? = some ⟨row, .sleeping delay⟩ ∧
      (t = { s with calls := s.calls.eraseIdx i } ∧ out = [] ∨
        ∃ updated ∈ s.table.find row.id, updated.syncStatus = .pending ∧
          t = (beginSync cfg { s with calls := s.calls.eraseIdx i } updated).1 ∧
          out = (beginSync cfg { s with calls := s.calls.eraseIdx i } updated).2) := by
  rw [step] at h
  split at h
  · rename_i row delay hget
    refine ⟨row, delay, hget, ?_⟩
    rw [resumeSleep] at h
    split at h
    · cases h
      exact Or.inl ⟨rfl, rfl⟩
    rename_i updated hfind
    split at h
    · rename_i hpending
      exact Or.inr ⟨updated, hfind, hpending, eq_of_some_eq h⟩
    · cases h
      exact Or.inl ⟨rfl, rfl⟩
  · cases h

theorem step_cases {cfg : Config} {s t : Sync} {a : Input} {out : List Effect} (h : step cfg s a = some (t, out)) :
    Quiet s t out ∨ ∃ row result, Answer cfg s a t out row result := by
  cases a with
  | insert record =>
    cases h
    left
    refine ⟨fun id r hr => ?_, fun id r hr => ?_, fun c hc => Or.inl hc, by simp⟩
    · rw [book_insert, if_neg, hr]
      rintro rfl
      rw [book_nextKey] at hr
      cases hr
    · rw [book_insert] at hr
      split at hr
      · cases hr
        exact Or.inr rfl
      · exact Or.inl hr
  | poll =>
    obtain ⟨rfl, rfl⟩ := eq_of_some_eq h
    obtain ⟨hbook, hcalls, hpost⟩ := beginAll_spec cfg s s.table.firstPending
    left
    refine quiet_of_book_eq hbook (fun c hc => ?_) hpost
    rw [pollOnce, hcalls, List.mem_append] at hc
    refine hc.imp_right fun hc => ?_
    obtain ⟨r, hr, rfl⟩ := List.mem_map.mp hc
    obtain ⟨hmem, hpending⟩ := mem_firstPending (List.mem_filter.mp hr).1
    exact ⟨rfl, r, hmem, rfl, hpending⟩
  | respond i result =>
    obtain ⟨row, hans⟩ := step_respond h
    exact Or.inr ⟨row, result, hans⟩
  | wake i =>
    left
    have hsub : ∀ c ∈ s.calls.eraseIdx i, c ∈ s.calls := fun c hc => List.mem_of_mem_eraseIdx hc
    obtain ⟨_, _, -, ⟨rfl, rfl⟩ | ⟨row, hfind, hpending, rfl, rfl⟩⟩ := step_wake h
    · exact quiet_of_book_eq rfl (fun c hc => Or.inl (hsub c hc)) (by simp)
    · obtain ⟨hbook, hcalls, hpost⟩ := beginSync_spec cfg { s with calls := s.calls.eraseIdx i } row
      refine quiet_of_book_eq hbook (fun c hc => ?_) hpost
      rw [hcalls, List.mem_append] at hc
      refine hc.imp (hsub c) fun hc => ?_
      obtain ⟨r, hr, rfl⟩ := List.mem_map.mp hc
      rw [List.mem_singleton.mp (List.mem_filter.mp hr).1]
      exact ⟨rfl, row, (KeyedTable.find_eq_some_iff.mp hfind).1, rfl, hpending⟩

/-- An answer writes its verdict into the row of the fetch, and nothing else. -/
theorem Answer.verdict {cfg : Config} {s t : Sync} {a : Input} {out : List Effect} {row : Row} {result : FetchResult}
    (h : Answer cfg s a t out row result) : ∃ u, Verdict cfg row result u ∧
      ∀ id, t.book id = if id = row.id then (s.book id).map fun r => (u.apply r).book else s.book id := by
  obtain ⟨calls, -, rfl⟩ := h.rest
  obtain ⟨u, naps, heq, -, hu⟩ := resumeFetch_spec cfg { s with calls } row result
  refine ⟨u, hu, fun id => ?_⟩
  rw [heq]
  show Sync.book (Sync.update { s with calls } row.id u) id = _
  rw [book_update]
  by_cases hid : id = row.id
  · subst hid
    rfl
  · rw [if_neg hid, if_neg hid]
    rfl

theorem Answer.book_of_ne {cfg : Config} {s t : Sync} {a : Input} {out : List Effect} {row : Row}
    {result : FetchResult} (h : Answer cfg s a t out row result) {id : Nat} (hne : id ≠ row.id) :
    t.book id = s.book id := by
  obtain ⟨u, -, hbook⟩ := h.verdict
  rw [hbook, if_neg hne]

/-- A success sets the row `SYNCED`. -/
theorem Answer.synced {cfg : Config} {s t : Sync} {a : Input} {out : List Effect} {row : Row} {result : FetchResult}
    (h : Answer cfg s a t out row result) (hok : result.Ok) {r : Row} (hr : s.book row.id = some r) :
    ∃ r', t.book row.id = some r' ∧ r'.syncStatus = .synced := by
  obtain ⟨u, ⟨-, rfl⟩ | ⟨hnot, -⟩, hbook⟩ := h.verdict
  · exact ⟨_, by rw [hbook, if_pos rfl, hr, Option.map_some], rfl⟩
  · exact absurd hok hnot

theorem Answer.mem_calls {cfg : Config} {s t : Sync} {a : Input} {out : List Effect} {row : Row} {result : FetchResult}
    (h : Answer cfg s a t out row result) : (⟨row, .fetching⟩ : Call) ∈ s.calls ∧
      ∀ c ∈ t.calls, c ∈ s.calls ∨ ∃ delay, c = ⟨row, .sleeping delay⟩ := by
  obtain ⟨calls, hperm, rfl⟩ := h.rest
  obtain ⟨u, naps, heq, hnaps, -⟩ := resumeFetch_spec cfg { s with calls } row result
  refine ⟨hperm.mem_iff.mpr List.mem_cons_self, fun c hc => ?_⟩
  rw [heq] at hc
  rcases List.mem_append.mp hc with hc | hc
  · exact Or.inl (hperm.mem_iff.mpr (List.mem_cons_of_mem _ hc))
  · rcases hnaps with rfl | ⟨delay, rfl⟩
    · exact absurd hc List.not_mem_nil
    · exact Or.inr ⟨delay, List.mem_singleton.mp hc⟩

theorem buildMutation_apply (u : Update) (r : Row) : buildMutation (u.apply r).book = buildMutation r := by
  cases u <;> rfl

/-- No row is lost, and none changes its data. -/
theorem data_step {cfg : Config} {s t : Sync} {a : Input} {out : List Effect} (h : step cfg s a = some (t, out))
    {id : Nat} {r : Row} (hr : s.book id = some r) :
    ∃ r', t.book id = some r' ∧ buildMutation r' = buildMutation r := by
  rcases step_cases h with hq | ⟨row, result, hans⟩
  · exact ⟨r, hq.book id r hr, rfl⟩
  · obtain ⟨u, -, hbook⟩ := hans.verdict
    rw [hbook, hr]
    split
    · exact ⟨_, rfl, buildMutation_apply u r⟩
    · exact ⟨r, rfl, rfl⟩

/-! ## One fetch for a row at a time -/

/-- Unanswered fetches of the row with the id. -/
def fetchingIn (calls : List Call) (id : Nat) : Nat := calls.countP fun c => c.row.id = id ∧ c.phase = .fetching

/-- No step begins a fetch of a row while another one of that row is unanswered. -/
def NoOverlap (s : Sync) : Input → Prop
  | .poll => ∀ row ∈ s.table.firstPending, fetchingIn s.calls row.id = 0
  | .wake i => ∀ c ∈ s.calls[i]?, ∀ row ∈ s.table.find c.row.id,
      row.syncStatus = .pending → fetchingIn s.calls row.id = 0
  | _ => True

@[simp] theorem fetchingIn_append (calls calls' : List Call) (id : Nat) :
    fetchingIn (calls ++ calls') id = fetchingIn calls id + fetchingIn calls' id := List.countP_append

theorem fetchingIn_eraseIdx_le (calls : List Call) (i id : Nat) : fetchingIn (calls.eraseIdx i) id ≤ fetchingIn calls id :=
  (List.eraseIdx_sublist _ _).countP_le

theorem fetchingIn_begun_le {rows : List Row} (cfg : Config) (h : rows.Pairwise fun r r' => r.id < r'.id) (id : Nat) :
    fetchingIn (begun cfg rows) id ≤ 1 := by
  have hnodup : (rows.map Row.id).Nodup := List.Pairwise.map Row.id (fun _ _ hlt => hlt) (h.imp fun hlt => hlt.ne)
  have hcount := List.nodup_iff_count_le_one.mp hnodup id
  have hle : fetchingIn (begun cfg rows) id ≤ (rows.map Row.id).count id := by
    unfold fetchingIn begun
    rw [List.countP_map, List.countP_filter, List.count, List.countP_map]
    apply List.countP_mono_left
    intro r _ hr
    simpa using (by simpa using hr : r.id = id ∧ _).1
  omega

theorem fetchingIn_begun_eq_zero {rows : List Row} (cfg : Config) {id : Nat} (h : ∀ row ∈ rows, row.id ≠ id) :
    fetchingIn (begun cfg rows) id = 0 := by
  unfold fetchingIn
  rw [List.countP_eq_zero]
  intro c hc
  obtain ⟨r, hr, rfl⟩ := List.mem_map.mp hc
  simpa using h r (List.mem_filter.mp hr).1

/-- Beginning fetches of rows that are not being fetched leaves one fetch for each. -/
theorem fetchingIn_append_begun_le {calls : List Call} {rows : List Row} (cfg : Config)
    (hone : ∀ id, fetchingIn calls id ≤ 1) (hrows : rows.Pairwise fun r r' => r.id < r'.id)
    (hfree : ∀ row ∈ rows, fetchingIn calls row.id = 0) (id : Nat) : fetchingIn (calls ++ begun cfg rows) id ≤ 1 := by
  rw [fetchingIn_append]
  by_cases hex : ∃ row ∈ rows, row.id = id
  · obtain ⟨row, hrow, rfl⟩ := hex
    have hbegun := fetchingIn_begun_le cfg hrows row.id
    have hzero := hfree row hrow
    omega
  · have hbegun : fetchingIn (begun cfg rows) id = 0 :=
      fetchingIn_begun_eq_zero cfg fun row hrow hid => hex ⟨row, hrow, hid⟩
    have := hone id
    omega

theorem Answer.fetchingIn_eq {cfg : Config} {s t : Sync} {a : Input} {out : List Effect} {row : Row}
    {result : FetchResult} (h : Answer cfg s a t out row result) (id : Nat) :
    fetchingIn s.calls id = fetchingIn t.calls id + if row.id = id then 1 else 0 := by
  obtain ⟨calls, hperm, rfl⟩ := h.rest
  obtain ⟨u, naps, heq, hnaps, -⟩ := resumeFetch_spec cfg { s with calls } row result
  have hzero : fetchingIn naps id = 0 := by
    rcases hnaps with rfl | ⟨delay, rfl⟩ <;> simp [fetchingIn]
  rw [heq]
  show _ = fetchingIn (calls ++ naps) id + _
  rw [fetchingIn_append, hzero]
  unfold fetchingIn
  rw [hperm.countP_eq, List.countP_cons]
  simp

theorem one_fetch_step {cfg : Config} {s t : Sync} {a : Input} {out : List Effect}
    (hone : ∀ id, fetchingIn s.calls id ≤ 1) (hno : NoOverlap s a) (h : step cfg s a = some (t, out)) (id : Nat) :
    fetchingIn t.calls id ≤ 1 := by
  cases a with
  | insert record =>
    cases h
    exact hone id
  | poll =>
    obtain ⟨rfl, rfl⟩ := eq_of_some_eq h
    rw [pollOnce, (beginAll_spec cfg s _).2.1]
    exact fetchingIn_append_begun_le cfg hone (KeyedTable.first_pairwise _ _ _) hno id
  | respond i result =>
    obtain ⟨row, hans⟩ := step_respond h
    have := hans.fetchingIn_eq id
    have := hone id
    omega
  | wake i =>
    have hone' : ∀ id, fetchingIn (s.calls.eraseIdx i) id ≤ 1 :=
      fun id => (fetchingIn_eraseIdx_le _ _ _).trans (hone id)
    obtain ⟨_, _, hget, ⟨rfl, rfl⟩ | ⟨row, hfind, hpending, rfl, rfl⟩⟩ := step_wake h
    · exact hone' id
    · rw [(beginSync_spec cfg _ row).2.1]
      apply fetchingIn_append_begun_le cfg hone' (List.pairwise_singleton _ _)
      intro r hr
      rw [List.mem_singleton.mp hr]
      exact Nat.le_zero.mp ((fetchingIn_eraseIdx_le _ _ _).trans (hno _ hget row hfind hpending).le)

/-- At most one fetch for a row, and each works from the row as it is, which is `PENDING`. -/
structure Clean (s : Sync) : Prop where
  one_fetch : ∀ id, fetchingIn s.calls id ≤ 1
  current : ∀ c ∈ s.calls, c.phase = .fetching → s.book c.row.id = some c.row.book ∧ c.row.syncStatus = .pending

/-- No row goes back: what is `SYNCED` or `FAILED` stays so, and retries are not forgotten. -/
def Advances (s t : Sync) : Prop :=
  ∀ id r, s.book id = some r →
    ∃ r', t.book id = some r' ∧ (r.syncStatus ≠ .pending → r'.syncStatus = r.syncStatus) ∧ r.retryCount ≤ r'.retryCount

theorem Advances.refl (s : Sync) : Advances s s := fun _ r hr => ⟨r, hr, fun _ => rfl, le_rfl⟩

theorem Advances.trans {s t u : Sync} (h : Advances s t) (h' : Advances t u) : Advances s u := by
  intro id r hr
  obtain ⟨r₁, hr₁, hstatus, hretry⟩ := h id r hr
  obtain ⟨r₂, hr₂, hstatus', hretry'⟩ := h' id r₁ hr₁
  refine ⟨r₂, hr₂, fun hne => ?_, hretry.trans hretry'⟩
  rw [hstatus' (by rw [hstatus hne]; exact hne), hstatus hne]

theorem Clean.ne_of_answer {cfg : Config} {s t : Sync} {a : Input} {out : List Effect} {row : Row}
    {result : FetchResult} (hc : Clean s) (h : Answer cfg s a t out row result) {c : Call} (hmem : c ∈ t.calls)
    (hphase : c.phase = .fetching) : c.row.id ≠ row.id := by
  intro hid
  have hpos : 0 < fetchingIn t.calls row.id := List.countP_pos_iff.mpr ⟨c, hmem, by simp [hid, hphase]⟩
  have hsum := h.fetchingIn_eq row.id
  rw [if_pos rfl] at hsum
  have := hc.one_fetch row.id
  omega

/-- **Step lemma.** Without overlap the fetches stay clean and no row goes back. -/
theorem clean_step {cfg : Config} {s t : Sync} {a : Input} {out : List Effect} (hc : Clean s) (hno : NoOverlap s a)
    (h : step cfg s a = some (t, out)) : Clean t ∧ Advances s t := by
  have hone := one_fetch_step hc.one_fetch hno h
  rcases step_cases h with hq | ⟨row, result, hans⟩
  · refine ⟨⟨hone, fun c hmem hphase => ?_⟩, fun id r hr => ⟨r, hq.book id r hr, fun _ => rfl, le_rfl⟩⟩
    rcases hq.calls c hmem with hold | ⟨-, hbook, hpending⟩
    · obtain ⟨hbook, hpending⟩ := hc.current c hold hphase
      exact ⟨hq.book _ _ hbook, hpending⟩
    · exact ⟨hbook, hpending⟩
  · obtain ⟨hrow, hcalls⟩ := hans.mem_calls
    obtain ⟨hbook, hpending⟩ := hc.current _ hrow rfl
    refine ⟨⟨hone, fun c hmem hphase => ?_⟩, fun id r hr => ?_⟩
    · rcases hcalls c hmem with hold | ⟨delay, rfl⟩
      · rw [hans.book_of_ne (hc.ne_of_answer hans hmem hphase)]
        exact hc.current c hold hphase
      · cases hphase
    · by_cases hid : id = row.id
      · subst hid
        rw [show s.book row.id = some row.book from hbook] at hr
        cases hr
        obtain ⟨u, hu, hbook'⟩ := hans.verdict
        refine ⟨(u.apply row.book).book, ?_, fun hne => absurd hpending hne, hu.retryCount_le⟩
        rw [hbook', if_pos rfl, show s.book row.id = some row.book from hbook, Option.map_some]
      · exact ⟨r, by rw [hans.book_of_ne hid, hr], fun _ => rfl, le_rfl⟩

end IbarraGateway.CloudSync
