import IbarraGateway.CloudSync.Rounds

/-!
# Ten rows can block the outbox

One direction counts rounds: each round uploads the first good row that is left (`Rounds.syncedBelow`). The other one
builds them: when every POST of a row that is not good gets a 404, ten such rows fill the window of every tick and the
rows behind them are never tried (`Blocked.exists_rounds`).
-/

namespace IbarraGateway.CloudSync

theorem Rounds.keys_eq {cfg : Config} {k : Nat} {s t : Sync} {h : List Effect} (hr : Rounds cfg k s h t)
    (hcalls : s.calls = []) : t.table.keys = s.table.keys := by
  induction hr with
  | zero s => rfl
  | succ hround _ ih =>
    rw [ih hround.choose_spec.2.2]
    exact (round_progress (fun _ => true) hround hcalls).1.keys

/-- **Run lemma.** After `k` rounds the first `k` rows are uploaded, as far as they are good. -/
theorem Rounds.syncedBelow {good : Nat → Bool} {cfg : Config} {k m : Nat} {s t : Sync} {h : List Effect}
    (hr : Rounds cfg k s h t) (hs : Ready good cfg s) (hm : SyncedBelow good s m) (hacc : AcceptedFor good h) :
    SyncedBelow good t (m + k) := by
  induction hr generalizing m with
  | zero s => exact hm
  | succ hround _ ih =>
    obtain ⟨hacc₁, hacc₂⟩ := AcceptedFor.append_iff.mp hacc
    have hnext := ih (hs.round hround hacc₁) (hm.round hs hround hacc₁) hacc₂
    rw [show m + (_ + 1) = m + 1 + _ from (Nat.add_right_comm m 1 _).symm]
    exact hnext

/-! ## Rounds that never reach a row -/

/-- Good rows are accepted, the others get a 404. -/
def answer (good : Nat → Bool) (id : Nat) : FetchResult := .response (if good id then 200 else 404) none

theorem resumeFetch_answer (good : Nat → Bool) (cfg : Config) (s : Sync) (row : Row) :
    ∃ u, resumeFetch cfg s row (answer good row.id) = s.update row.id u ∧ (good row.id ∨ ∃ e, u = .lastError e) := by
  unfold answer
  by_cases hgood : good row.id
  · exact ⟨.synced, by simp [resumeFetch, hgood], Or.inl hgood⟩
  · exact ⟨.lastError ("HTTP " ++ toString 404), by simp [resumeFetch, hgood], Or.inr ⟨_, rfl⟩⟩

theorem answer_accepted {good : Nat → Bool} {id : Nat} (h : good id) : (answer good id).Accepted := by
  unfold answer
  rw [if_pos h]
  decide

/-- All fetches are answered, one after the other: only good rows that were fetched change in the book. -/
theorem exists_drain (good : Nat → Bool) (cfg : Config) (calls : List Call) (hcalls : ∀ c ∈ calls, c.phase = .fetching)
    (table : TelemetryBuffer) : ∃ inputs t h, (∀ a ∈ inputs, a.Continues) ∧
      (cloudSync cfg).run ⟨table, calls⟩ inputs = some (t, h) ∧ t.calls = [] ∧ AcceptedFor good h ∧
      t.table.keys = table.keys ∧
      ∀ id, (good id → ∀ c ∈ calls, c.row.id ≠ id) → t.book id = Sync.book ⟨table, calls⟩ id := by
  induction calls generalizing table with
  | nil => exact ⟨[], _, _, by simp, rfl, rfl, by simp [AcceptedFor], rfl, fun _ _ => rfl⟩
  | cons c calls ih =>
    obtain ⟨row, phase⟩ := c
    obtain rfl : phase = .fetching := hcalls _ List.mem_cons_self
    obtain ⟨u, heq, hu⟩ := resumeFetch_answer good cfg ⟨table, calls⟩ row
    obtain ⟨inputs, t, h, hcont, hrun, hdone, hacc, hkeys, hbook⟩ :=
      ih (fun c hc => hcalls c (List.mem_cons_of_mem _ hc)) (table.update row.id u)
    have hstep : (cloudSync cfg).step ⟨table, ⟨row, .fetching⟩ :: calls⟩ (.respond 0 (answer good row.id)) =
        some (⟨table.update row.id u, calls⟩, [.answered row.id (buildMutation row) (answer good row.id)]) := by
      show some (resumeFetch cfg ⟨table, calls⟩ row _, _) = _
      rw [heq]
      rfl
    refine ⟨.respond 0 (answer good row.id) :: inputs, t, _, ?_,
      (cloudSync cfg).run_cons_iff.mpr ⟨_, _, h, hstep, hrun, rfl⟩, hdone, ?_, ?_, fun id hid => ?_⟩
    · intro a ha
      rcases List.mem_cons.mp ha with rfl | ha
      · trivial
      · exact hcont a ha
    · refine AcceptedFor.append_iff.mpr ⟨fun id m result hm hgood => ?_, hacc⟩
      obtain ⟨rfl, -, rfl⟩ := Effect.answered.inj (List.mem_singleton.mp hm)
      exact answer_accepted hgood
    · exact hkeys.trans (keys_update ⟨table, calls⟩ row.id u)
    · rw [hbook id fun hgood c hc => hid hgood c (List.mem_cons_of_mem _ hc)]
      show Sync.book (Sync.update ⟨table, calls⟩ row.id u) id = Sync.book ⟨table, calls⟩ id
      rcases hu with hgood | ⟨e, rfl⟩
      · rw [book_update, if_neg]
        rintro rfl
        exact hid hgood _ List.mem_cons_self rfl
      · rw [book_update_lastError]

/-- Ten rows that are not good wait in front of row `g`, and it waits too. -/
structure Blocked (good : Nat → Bool) (s : Sync) (g : Nat) : Prop where
  calls : s.calls = []
  pending : ∀ id r, s.book id = some r → (good id → id = g) → r.syncStatus = .pending
  ten : 10 ≤ inFront good s.table g

theorem Blocked.not_mem_firstPending {good : Nat → Bool} {s : Sync} {g : Nat} (h : Blocked good s g) {row : Row}
    (hrow : row ∈ s.table.firstPending) : row.id ≠ g := by
  rintro rfl
  have hlt := (KeyedTable.mem_first_iff.mp hrow).2
  have hle : inFront good s.table row.id ≤ s.table.rows.countP fun r => r.id < row.id && r.syncStatus = .pending := by
    rw [inFront_eq_rows]
    apply List.countP_mono_left
    intro r hr hp
    simp only [Bool.and_eq_true, decide_eq_true_eq, Bool.not_eq_true'] at hp ⊢
    refine ⟨hp.1, h.pending r.id r.book (book_eq_of_mem hr) fun hgood => ?_⟩
    rw [hp.2] at hgood
    cases hgood
  have hten := h.ten
  omega

theorem Blocked.exists_round {good : Nat → Bool} {s : Sync} {g : Nat} (hb : Blocked good s g) (cfg : Config) :
    ∃ h t, Round cfg s h t ∧ AcceptedFor good h ∧ Blocked good t g := by
  obtain ⟨hbook, hcalls, hpost⟩ := beginAll_spec cfg s s.table.firstPending
  rw [hb.calls, List.nil_append] at hcalls
  obtain ⟨inputs, t, h, hcont, hrun, hdone, hacc, hkeys, hsame⟩ := exists_drain good cfg (pollOnce cfg s).1.calls
    (fun c hc => by
      rw [pollOnce, hcalls] at hc
      obtain ⟨r, -, rfl⟩ := List.mem_map.mp hc
      rfl) (pollOnce cfg s).1.table
  have hkept : ∀ id, (good id → id = g) → t.book id = s.book id := by
    intro id hid
    rw [hsame id]
    · exact congrFun hbook id
    · intro hgood c hc
      rw [pollOnce, hcalls] at hc
      obtain ⟨r, hr, rfl⟩ := List.mem_map.mp hc
      rw [hid hgood]
      exact hb.not_mem_firstPending (List.mem_filter.mp hr).1
  refine ⟨_, t, ⟨inputs, hcont, (cloudSync cfg).run_cons_iff.mpr ⟨_, _, h, rfl, hrun, rfl⟩, hdone⟩, ?_, hdone, ?_, ?_⟩
  · refine AcceptedFor.append_iff.mpr ⟨fun id m result hm => ?_, hacc⟩
    obtain ⟨_, _, heq⟩ := hpost _ hm
    cases heq
  · intro id r hr hid
    rw [hkept id hid] at hr
    exact hb.pending id r hr hid
  · unfold inFront
    rw [hkeys, pollOnce, keys_beginAll]
    exact hb.ten

theorem Blocked.exists_rounds {good : Nat → Bool} {s : Sync} {g : Nat} (hb : Blocked good s g) (cfg : Config) (k : Nat) :
    ∃ h t, Rounds cfg k s h t ∧ AcceptedFor good h ∧ Blocked good t g := by
  induction k generalizing s with
  | zero => exact ⟨[], s, .zero s, by simp [AcceptedFor], hb⟩
  | succ k ih =>
    obtain ⟨h, t, hround, hacc, ht⟩ := hb.exists_round cfg
    obtain ⟨h', u, hrounds, hacc', hu⟩ := ih ht
    exact ⟨h ++ h', u, .succ hround hrounds, AcceptedFor.append_iff.mpr ⟨hacc, hacc'⟩, hu⟩

/-! ## The condition -/

/-- After `n * maxRetries` rounds, `n` the number of rows, every good row is `SYNCED`, whatever becomes of the others. -/
def NoBlocking (cfg : Config) (table : TelemetryBuffer) (good : Nat → Bool) : Prop :=
  ∀ h t, Rounds cfg (table.rows.length * cfg.maxRetries) (.boot table) h t → AcceptedFor good h →
    ∀ row ∈ table.rows, good row.id → ∃ row' ∈ t.table.rows, row'.id = row.id ∧ row'.syncStatus = .synced

theorem pending_of_boot {table : TelemetryBuffer} (hpending : ∀ row ∈ table.rows, row.syncStatus = .pending)
    {id : Nat} {r : Row} (hr : (Sync.boot table).book id = some r) : r.syncStatus = .pending := by
  obtain ⟨row, hrow, -, rfl⟩ := mem_of_book hr
  exact hpending row hrow

theorem SyncedIn.exists_row {s : Sync} {id : Nat} (h : SyncedIn s id) :
    ∃ row ∈ s.table.rows, row.id = id ∧ row.syncStatus = .synced := by
  obtain ⟨r, hr, hsynced⟩ := h
  obtain ⟨row, hrow, hid, rfl⟩ := mem_of_book hr
  exact ⟨row, hrow, hid, hsynced⟩

/-- A blocked row is not uploaded, however long one waits. -/
theorem Blocked.not_noBlocking {good : Nat → Bool} {cfg : Config} {table : TelemetryBuffer} {row : Row}
    (hb : Blocked good (.boot table) row.id) (hrow : row ∈ table.rows) (hgood : good row.id) :
    ¬ NoBlocking cfg table good := by
  intro hall
  obtain ⟨h, t, hrounds, hacc, ht⟩ := hb.exists_rounds cfg (table.rows.length * cfg.maxRetries)
  obtain ⟨row', hrow', hid, hsynced⟩ := hall h t hrounds hacc row hrow hgood
  have hpending := ht.pending row'.id row'.book (book_eq_of_mem hrow') fun _ => hid
  exact absurd (hsynced.symm.trans hpending) (by decide)

/-- **No head-of-line blocking.** On a table of `PENDING` rows every good row is uploaded, whatever becomes of the others,
exactly when fewer than ten rows that are not good stand before each of them. -/
theorem no_blocking_iff (cfg : Config) (table : TelemetryBuffer) (good : Nat → Bool)
    (hpending : ∀ row ∈ table.rows, row.syncStatus = .pending)
    (hparses : ∀ row ∈ table.rows, good row.id → cfg.parses row.payload) :
    NoBlocking cfg table good ↔
      ∀ row ∈ table.rows, good row.id → 0 < cfg.maxRetries ∧ inFront good table row.id < 10 := by
  constructor
  · intro hall row hrow hgood
    constructor
    · by_contra hzero
      have hnone : table.rows.length * cfg.maxRetries = 0 := by
        rw [Nat.eq_zero_of_not_pos hzero, Nat.mul_zero]
      unfold NoBlocking at hall
      rw [hnone] at hall
      obtain ⟨row', hrow', -, hsynced⟩ := hall [] _ (.zero _) (by simp [AcceptedFor]) row hrow hgood
      exact absurd ((hpending row' hrow').symm.trans hsynced) (by decide)
    · by_contra hten
      have hb : Blocked good (.boot table) row.id :=
        ⟨rfl, fun id r hr _ => pending_of_boot hpending hr, Nat.le_of_not_lt hten⟩
      exact hb.not_noBlocking hrow hgood hall
  · intro hfew h t hrounds hacc row hrow hgood
    have hready : Ready good cfg (.boot table) := by
      refine ⟨rfl, fun id r hr _ => ?_, fun id r hr hid => ?_, fun id hid hgood => ?_⟩
      · rw [pending_of_boot hpending hr]
        decide
      · obtain ⟨row, hrow, rfl, rfl⟩ := mem_of_book hr
        exact hparses row hrow hid
      · obtain ⟨row, hrow, rfl⟩ := List.mem_map.mp hid
        exact (hfew row hrow hgood).2
    have hsynced := hrounds.syncedBelow hready (m := 0) (fun i hi => absurd hi (Nat.not_lt_zero i)) hacc
    obtain ⟨i, hi, hget⟩ := List.getElem_of_mem (List.mem_map_of_mem hrow : row.id ∈ table.keys)
    have hlen : i < table.rows.length := by
      simpa only [KeyedTable.keys, List.length_map] using hi
    have hle : table.rows.length ≤ table.rows.length * cfg.maxRetries :=
      Nat.le_mul_of_pos_right _ (hfew row hrow hgood).1
    apply (hsynced i (by omega) row.id ?_ hgood).exists_row
    rw [hrounds.keys_eq rfl]
    exact List.getElem?_eq_some_iff.mpr ⟨hi, hget⟩

theorem noRows_ordered : ([] : List Row).Pairwise fun r r' => r.id < r'.id := .nil

/-- `k` rows that are no JSON, and a good one behind them. -/
def badRowsThenGood (k : Nat) : TelemetryBuffer :=
  (List.replicate k "oops" ++ ["42"]).foldl
    (fun t payload => t.insert ⟨"novamex/linea1/telemetry", payload, "ONLINE", "2026-01-01 00:00:00"⟩)
    ⟨[], noRows_ordered⟩

def fiveRetries : Config := ⟨5, 1000, fun text => text ≠ "oops"⟩

theorem no_blocking_iff_nine : NoBlocking fiveRetries (badRowsThenGood 9) fun id => id = 10 :=
  (no_blocking_iff fiveRetries (badRowsThenGood 9) (fun id => id = 10) (by decide) (by decide)).mpr (by decide)

/-- Ten rows that are no JSON keep the eleventh from ever being sent. -/
theorem ten_bad_rows_block :
    ¬ ∀ cfg table good, (∀ row ∈ table.rows, row.syncStatus = .pending) →
      (∀ row ∈ table.rows, good row.id → cfg.parses row.payload) → NoBlocking cfg table good := by
  intro hall
  have hpending : ∀ row ∈ (badRowsThenGood 10).rows, row.syncStatus = .pending := by decide
  have hb : Blocked (fun id => id = 11) (.boot (badRowsThenGood 10)) 11 :=
    ⟨rfl, fun id r hr _ => pending_of_boot hpending hr, by decide⟩
  have hrow : ((badRowsThenGood 10).find 11).get (by decide) ∈ (badRowsThenGood 10).rows := by decide
  exact hb.not_noBlocking hrow (by decide) (hall fiveRetries (badRowsThenGood 10) (fun id => id = 11) hpending (by decide))

end IbarraGateway.CloudSync
