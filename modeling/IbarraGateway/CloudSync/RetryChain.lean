import IbarraGateway.CloudSync.Sync

/-!
# The retries of one call

`syncRecord` on one row while nothing else runs. It is suspended at one place at a time, so what the event loop runs next is
the answer to the fetch or the end of the backoff (`upTo`), and the state after some answers is a function of them.

`retry_chain` : the chain ends at the first answer that is no server error, and at the latest with the `maxRetries`-th attempt;
the counter that it keeps is in the row, which it reads again after each backoff.
-/

namespace IbarraGateway.CloudSync

/-- HTTP 5xx: no status code is above 599. -/
def FetchResult.ServerError : FetchResult → Prop
  | response status _ => 500 ≤ status
  | rejected _ => False

instance : DecidablePred FetchResult.ServerError
  | .response status _ => inferInstanceAs (Decidable (500 ≤ status))
  | .rejected _ => inferInstanceAs (Decidable False)

/-- The events of the first answers: a backoff ends between each and the next. -/
def upTo (answers : Nat → FetchResult) : Nat → List Input
  | 0 => []
  | n + 1 => ((List.range n).flatMap fun i => [.respond 0 (answers i), .wake 0]) ++ [.respond 0 (answers n)]

/-- `syncRecord(row)` with nothing else on the event loop, and the events that it waits for. -/
def syncAlone (cfg : Config) (table : TelemetryBuffer) (row : Row) (inputs : List Input) : Option (Sync × List Effect) :=
  let begun := beginSync cfg (.boot table) row
  ((cloudSync cfg).run begun.1 inputs).map fun r => (r.1, begun.2 ++ r.2)

def postsIn (h : List Effect) : Nat :=
  h.countP fun
    | .post _ _ => true
    | .answered _ _ _ => false

/-- After `n` answers: `n` POSTs were made, the call is suspended in the phases (none when it has returned), and the row
in the table is as told. -/
def After (cfg : Config) (table : TelemetryBuffer) (row : Row) (answers : Nat → FetchResult) (n : Nat)
    (phases : List Phase) (P : Row → Prop) : Prop :=
  ∃ s h r, syncAlone cfg table row (upTo answers n) = some (s, h) ∧ postsIn h = n ∧ s.calls.map Call.phase = phases ∧
    s.table.find row.id = some r ∧ P r

/-- The chain of one call on a row, for the answers that it gets. -/
structure RetryChain (cfg : Config) (table : TelemetryBuffer) (row : Row) (answers : Nat → FetchResult) : Prop where
  /-- It returns, after at most `maxRetries - retry_count` POSTs. -/
  returns : ∃ n ≤ cfg.maxRetries - row.retryCount, After cfg table row answers n [] fun _ => True
  backoff : ∀ j, 0 < j → row.retryCount + j < cfg.maxRetries → (∀ i < j, (answers i).ServerError) →
    After cfg table row answers j [.sleeping (min (cfg.baseDelayMs * 2 ^ (row.retryCount + j - 1)) 60000)]
      fun r => r.syncStatus = .pending ∧ r.retryCount = row.retryCount + j
  synced : ∀ j, row.retryCount + j < cfg.maxRetries → (∀ i < j, (answers i).ServerError) → (answers j).Ok →
    After cfg table row answers (j + 1) [] fun r => r.syncStatus = .synced ∧ r.retryCount = row.retryCount + j
  kept : ∀ j, row.retryCount + j < cfg.maxRetries → (∀ i < j, (answers i).ServerError) →
    ¬(answers j).Ok → ¬(answers j).ServerError →
    After cfg table row answers (j + 1) []
      fun r => r.syncStatus = .pending ∧ r.retryCount = row.retryCount + j ∧ ∃ e, r.lastError = some e
  exhausted : (∀ i, row.retryCount + i < cfg.maxRetries → (answers i).ServerError) →
    After cfg table row answers (cfg.maxRetries - row.retryCount) []
      fun r => r.syncStatus = .failed ∧ r.retryCount = cfg.maxRetries

/-! ## One answer -/

theorem find_update (t : TelemetryBuffer) (id : Nat) (u : Update) : (t.update id u).find id = (t.find id).map u.apply := by
  show (t.modify id u.apply u.apply_id).find id = _
  rw [KeyedTable.find_modify, if_pos rfl]

section Answer
variable (cfg : Config) (t : TelemetryBuffer) (r : Row)

theorem resumeFetch_ok {result : FetchResult} (h : result.Ok) :
    resumeFetch cfg ⟨t, []⟩ r result = ⟨t.update r.id .synced, []⟩ := by
  cases result with
  | response status body => exact if_pos h
  | rejected message => exact absurd h id

theorem resumeFetch_kept {result : FetchResult} (hok : ¬result.Ok) (h : ¬result.ServerError) :
    ∃ e, resumeFetch cfg ⟨t, []⟩ r result = ⟨t.update r.id (.lastError e), []⟩ := by
  cases result with
  | response status body => exact ⟨"HTTP " ++ toString status, (if_neg hok).trans (if_neg h)⟩
  | rejected message => exact ⟨message, rfl⟩

/-- A server error before the last attempt puts the call to sleep. -/
theorem resumeFetch_sleeps {r : Row} {result : FetchResult} (h : result.ServerError) (hr : r.retryCount + 1 < cfg.maxRetries) :
    ∃ e, resumeFetch cfg ⟨t, []⟩ r result = ⟨t.update r.id (.retried (r.retryCount + 1) e),
      [⟨r, .sleeping (min (cfg.baseDelayMs * 2 ^ r.retryCount) 60000)⟩]⟩ := by
  cases result with
  | response status body =>
    have h : 500 ≤ status := h
    refine ⟨"HTTP " ++ toString status, ?_⟩
    unfold resumeFetch
    dsimp only
    rw [if_neg (by omega), if_pos h, if_neg (by omega)]
    rfl
  | rejected message => exact absurd h id

/-- A server error at the last attempt fails the row. -/
theorem resumeFetch_fails {r : Row} {result : FetchResult} (h : result.ServerError) (hr : r.retryCount + 1 = cfg.maxRetries) :
    ∃ e, resumeFetch cfg ⟨t, []⟩ r result = ⟨t.update r.id (.failed cfg.maxRetries e), []⟩ := by
  cases result with
  | response status body =>
    have h : 500 ≤ status := h
    refine ⟨"HTTP " ++ toString status, ?_⟩
    unfold resumeFetch
    dsimp only
    rw [if_neg (by omega), if_pos h, if_pos (by omega), hr]
    rfl
  | rejected message => exact absurd h id

end Answer

/-! ## The attempts -/

variable {cfg : Config} {t : TelemetryBuffer} {r : Row}

theorem postsIn_append (h h' : List Effect) : postsIn (h ++ h') = postsIn h + postsIn h' := List.countP_append

theorem beginSync_alone (hparses : cfg.parses r.payload = true) :
    beginSync cfg ⟨t, []⟩ r = (⟨t, [⟨r, .fetching⟩]⟩, [.post r.id (buildMutation r)]) := if_pos hparses

theorem syncAlone_append {table : TelemetryBuffer} {row : Row} {as bs : List Input} {s s' : Sync} {h h' : List Effect}
    (has : syncAlone cfg table row as = some (s, h)) (hbs : (cloudSync cfg).run s bs = some (s', h')) :
    syncAlone cfg table row (as ++ bs) = some (s', h ++ h') := by
  obtain ⟨⟨s₁, h₁⟩, hrun, heq⟩ := Option.map_eq_some_iff.mp has
  cases heq
  refine Option.map_eq_some_iff.mpr ⟨(s', h₁ ++ h'), ?_, ?_⟩
  · exact (cloudSync cfg).run_append_iff.mpr ⟨_, h₁, h', hrun, hbs, rfl⟩
  · rw [List.append_assoc]

/-- The call waits for the answer with the number `j`, and works from the row as it is in the table. -/
structure Waiting (row : Row) (j : Nat) (s : Sync) (h : List Effect) (now : Row) : Prop where
  calls : s.calls = [⟨now, .fetching⟩]
  posts : postsIn h = j + 1
  find : s.table.find row.id = some now
  payload : now.payload = row.payload
  status : now.syncStatus = .pending
  retryCount : now.retryCount = row.retryCount + j

theorem Waiting.id {row now : Row} {j : Nat} {s : Sync} {h : List Effect} (hw : Waiting row j s h now) : now.id = row.id :=
  (KeyedTable.find_eq_some_iff.mp hw.find).2

/-- The answer to the fetch. -/
theorem Waiting.respond {row now : Row} {j : Nat} {s : Sync} {h : List Effect} (hw : Waiting row j s h now)
    (cfg : Config) (result : FetchResult) : (cloudSync cfg).run s [.respond 0 result] =
      some (resumeFetch cfg ⟨s.table, []⟩ now result, [.answered now.id (buildMutation now) result]) := by
  obtain ⟨table, calls⟩ := s
  obtain rfl : calls = _ := hw.calls
  rfl

/-- The end of a backoff: the row is read again and sent again. -/
theorem run_wake {now : Row} (delay : Nat) (hfind : t.find r.id = some now) (hpending : now.syncStatus = .pending)
    (hparses : cfg.parses now.payload = true) : (cloudSync cfg).run ⟨t, [⟨r, .sleeping delay⟩]⟩ [.wake 0] =
      some (⟨t, [⟨now, .fetching⟩]⟩, [.post now.id (buildMutation now)]) := by
  have hstep : resumeSleep cfg ⟨t, []⟩ r = (⟨t, [⟨now, .fetching⟩]⟩, [.post now.id (buildMutation now)]) := by
    unfold resumeSleep
    dsimp only
    rw [hfind]
    dsimp only
    rw [if_pos hpending, beginSync_alone hparses]
  exact (cloudSync cfg).run_cons_iff.mpr ⟨_, _, [], congrArg some hstep, rfl, (List.append_nil _).symm⟩

/-- A server error and the end of the backoff: the next attempt. -/
theorem Waiting.retry {row now : Row} {j : Nat} {s : Sync} {h : List Effect} (hw : Waiting row j s h now)
    (hparses : cfg.parses row.payload = true) (hmax : row.retryCount + (j + 1) < cfg.maxRetries) {result : FetchResult}
    (hresult : result.ServerError) : ∃ s' h' now', (cloudSync cfg).run s [.respond 0 result, .wake 0] = some (s', h') ∧
      Waiting row (j + 1) s' (h ++ h') now' := by
  have hcount : now.retryCount + 1 < cfg.maxRetries := by rw [hw.retryCount]; omega
  obtain ⟨e, hsleeps⟩ := resumeFetch_sleeps cfg s.table hresult hcount
  have hrespond := hw.respond cfg result
  rw [hsleeps] at hrespond
  have hfind : (s.table.update now.id (.retried (now.retryCount + 1) e)).find now.id =
      some ((Update.retried (now.retryCount + 1) e).apply now) := by
    rw [find_update, hw.id, hw.find, Option.map_some]
  have hwake := run_wake (min (cfg.baseDelayMs * 2 ^ now.retryCount) 60000) hfind hw.status
    ((congrArg cfg.parses hw.payload).trans hparses)
  refine ⟨_, _, (Update.retried (now.retryCount + 1) e).apply now,
    (cloudSync cfg).run_append_iff.mpr ⟨_, _, _, hrespond, hwake, rfl⟩, ?_⟩
  refine ⟨rfl, ?_, ?_, hw.payload, hw.status, ?_⟩
  · rw [postsIn_append, hw.posts]
    rfl
  · rw [← hw.id]
    exact hfind
  · show now.retryCount + 1 = _
    rw [hw.retryCount, Nat.add_assoc]

/-- Each server error leads to the next attempt. -/
theorem exists_waiting {table : TelemetryBuffer} {row : Row} (hrow : row ∈ table.rows) (hpending : row.syncStatus = .pending)
    (hparses : cfg.parses row.payload = true) {answers : Nat → FetchResult} {j : Nat}
    (hmax : row.retryCount + j < cfg.maxRetries) (herrors : ∀ i < j, (answers i).ServerError) :
    ∃ s h now, syncAlone cfg table row ((List.range j).flatMap fun i => [.respond 0 (answers i), .wake 0]) = some (s, h) ∧
      Waiting row j s h now := by
  induction j with
  | zero =>
    refine ⟨⟨table, [⟨row, .fetching⟩]⟩, [.post row.id (buildMutation row)], row, ?_, ⟨rfl, rfl, ?_, rfl, hpending, rfl⟩⟩
    · unfold syncAlone Sync.boot
      rw [beginSync_alone hparses]
      rfl
    · exact KeyedTable.find_eq_some_iff.mpr ⟨hrow, rfl⟩
  | succ j ih =>
    obtain ⟨s, h, now, hrun, hw⟩ := ih (by omega) fun i hi => herrors i (by omega)
    obtain ⟨s', h', now', hretry, hw'⟩ := hw.retry hparses hmax (herrors j (by omega))
    refine ⟨s', h ++ h', now', ?_, hw'⟩
    rw [List.range_succ, List.flatMap_append]
    exact syncAlone_append hrun hretry

section Chain
variable {table : TelemetryBuffer} {row : Row} (hrow : row ∈ table.rows) (hpending : row.syncStatus = .pending)
  (hparses : cfg.parses row.payload = true) {answers : Nat → FetchResult} {j : Nat}
include hrow hpending hparses

/-- What the answer with the number `j` does, when the others were server errors. -/
theorem after_succ (hmax : row.retryCount + j < cfg.maxRetries) (herrors : ∀ i < j, (answers i).ServerError)
    {phases : List Phase} {P : Row → Prop} (hanswer : ∀ t now, now.id = row.id → now.syncStatus = .pending →
      now.retryCount = row.retryCount + j → ∃ u, (resumeFetch cfg ⟨t, []⟩ now (answers j)).table = t.update now.id u ∧
        (resumeFetch cfg ⟨t, []⟩ now (answers j)).calls.map Call.phase = phases ∧ P (u.apply now)) :
    After cfg table row answers (j + 1) phases P := by
  obtain ⟨s, h, now, hrun, hw⟩ := exists_waiting hrow hpending hparses hmax herrors
  obtain ⟨u, htable, hphases, hP⟩ := hanswer s.table now hw.id hw.status hw.retryCount
  refine ⟨_, _, u.apply now, syncAlone_append hrun (hw.respond cfg (answers j)), ?_, hphases, ?_, hP⟩
  · rw [postsIn_append, hw.posts]
    rfl
  · rw [htable, hw.id, find_update, hw.find, Option.map_some]

theorem after_ok (hmax : row.retryCount + j < cfg.maxRetries) (herrors : ∀ i < j, (answers i).ServerError)
    (hok : (answers j).Ok) : After cfg table row answers (j + 1) []
      fun r => r.syncStatus = .synced ∧ r.retryCount = row.retryCount + j := by
  refine after_succ hrow hpending hparses hmax herrors fun t now _ _ hcount => ⟨.synced, ?_⟩
  rw [resumeFetch_ok cfg t now hok]
  exact ⟨rfl, rfl, rfl, hcount⟩

theorem after_kept (hmax : row.retryCount + j < cfg.maxRetries) (herrors : ∀ i < j, (answers i).ServerError)
    (hok : ¬(answers j).Ok) (herror : ¬(answers j).ServerError) : After cfg table row answers (j + 1) []
      fun r => r.syncStatus = .pending ∧ r.retryCount = row.retryCount + j ∧ ∃ e, r.lastError = some e := by
  refine after_succ hrow hpending hparses hmax herrors fun t now _ hstatus hcount => ?_
  obtain ⟨e, hkept⟩ := resumeFetch_kept cfg t now hok herror
  rw [hkept]
  exact ⟨.lastError e, rfl, rfl, hstatus, hcount, e, rfl⟩

theorem after_backoff (hmax : row.retryCount + (j + 1) < cfg.maxRetries) (herrors : ∀ i < j + 1, (answers i).ServerError) :
    After cfg table row answers (j + 1) [.sleeping (min (cfg.baseDelayMs * 2 ^ (row.retryCount + j)) 60000)]
      fun r => r.syncStatus = .pending ∧ r.retryCount = row.retryCount + (j + 1) := by
  refine after_succ hrow hpending hparses (by omega) (fun i hi => herrors i (by omega)) fun t now _ hstatus hcount => ?_
  have hbelow : now.retryCount + 1 < cfg.maxRetries := by omega
  obtain ⟨e, hsleeps⟩ := resumeFetch_sleeps cfg t (herrors j (by omega)) hbelow
  rw [hsleeps, ← hcount]
  exact ⟨.retried (now.retryCount + 1) e, rfl, rfl, hstatus, by rw [← Nat.add_assoc, ← hcount]; rfl⟩

theorem after_last (hmax : row.retryCount + (j + 1) = cfg.maxRetries) (herrors : ∀ i < j + 1, (answers i).ServerError) :
    After cfg table row answers (j + 1) [] fun r => r.syncStatus = .failed ∧ r.retryCount = cfg.maxRetries := by
  refine after_succ hrow hpending hparses (by omega) (fun i hi => herrors i (by omega)) fun t now _ _ hcount => ?_
  have hlast : now.retryCount + 1 = cfg.maxRetries := by omega
  obtain ⟨e, hfails⟩ := resumeFetch_fails cfg t (herrors j (by omega)) hlast
  rw [hfails]
  exact ⟨.failed cfg.maxRetries e, rfl, rfl, rfl, rfl⟩

end Chain

theorem After.mono {table : TelemetryBuffer} {row : Row} {answers : Nat → FetchResult} {n : Nat} {phases : List Phase}
    {P Q : Row → Prop} (h : After cfg table row answers n phases P) (hPQ : ∀ r, P r → Q r) :
    After cfg table row answers n phases Q := by
  obtain ⟨s, out, r, hrun, hposts, hphases, hfind, hP⟩ := h
  exact ⟨s, out, r, hrun, hposts, hphases, hfind, hPQ r hP⟩

/-- **The retry chain of one call**, for every pending row with attempts left and a payload that is JSON, and for every
sequence of answers. -/
theorem retry_chain (cfg : Config) (table : TelemetryBuffer) (row : Row) (answers : Nat → FetchResult)
    (hrow : row ∈ table.rows) (hpending : row.syncStatus = .pending) (hparses : cfg.parses row.payload = true)
    (hleft : row.retryCount < cfg.maxRetries) : RetryChain cfg table row answers := by
  have hexhausted : (∀ i, row.retryCount + i < cfg.maxRetries → (answers i).ServerError) →
      After cfg table row answers (cfg.maxRetries - row.retryCount) []
        fun r => r.syncStatus = .failed ∧ r.retryCount = cfg.maxRetries := by
    intro herrors
    obtain ⟨j, hj⟩ := Nat.exists_eq_add_of_lt hleft
    have hlast : cfg.maxRetries - row.retryCount = j + 1 := by omega
    rw [hlast]
    exact after_last hrow hpending hparses (by omega) fun i hi => herrors i (by omega)
  refine ⟨?_, fun j hj hmax herrors => ?_, fun j => after_ok hrow hpending hparses,
    fun j => after_kept hrow hpending hparses, hexhausted⟩
  · by_cases herrors : ∀ i, row.retryCount + i < cfg.maxRetries → (answers i).ServerError
    · exact ⟨_, le_rfl, (hexhausted herrors).mono fun _ _ => trivial⟩
    · -- the first answer that is no server error
      simp only [not_forall] at herrors
      have hfirst := Nat.find_spec herrors
      have hbefore := fun i => Nat.find_min (m := i) herrors
      generalize Nat.find herrors = j at hfirst hbefore
      obtain ⟨hj, herror⟩ := hfirst
      have hearlier : ∀ i < j, (answers i).ServerError := fun i hi =>
        not_not.mp fun hnot => hbefore i hi ⟨by omega, hnot⟩
      refine ⟨j + 1, by omega, ?_⟩
      by_cases hok : (answers j).Ok
      · exact (after_ok hrow hpending hparses hj hearlier hok).mono fun _ _ => trivial
      · exact (after_kept hrow hpending hparses hj hearlier hok herror).mono fun _ _ => trivial
  · obtain ⟨k, rfl⟩ := Nat.exists_eq_add_one_of_ne_zero (Nat.ne_of_gt hj)
    exact after_backoff hrow hpending hparses hmax herrors

def retriedOnce : Row := ⟨1, "novamex/ibarra", "\x7b\x7d", "ONLINE", "2026-01-01 00:00:00", .pending, 1, some "HTTP 503"⟩

theorem retry_chain_once : RetryChain ⟨5, 1000, fun _ => true⟩ ⟨[retriedOnce], List.pairwise_singleton _ _⟩ retriedOnce
    fun i => .response (if i < 2 then 503 else 200) none :=
  retry_chain _ _ _ _ (List.mem_singleton_self _) rfl rfl (by decide)

end IbarraGateway.CloudSync
