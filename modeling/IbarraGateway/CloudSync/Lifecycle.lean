import IbarraGateway.CloudSync.Interleaving

/-!
# Uploaded once, never back, never for nothing

Three properties of a row over all interleavings, from the start of the process on any table.

* `accepted_at_most_once` and `lifecycle_of_no_overlap` need that no two fetches of a row overlap.
* `synced_was_accepted` needs that no success status carries GraphQL errors, since `syncRecord` does not read the body.
-/

namespace IbarraGateway.CloudSync

theorem clean_boot (table : TelemetryBuffer) : Clean (Sync.boot table) :=
  ⟨fun _ => Nat.zero_le _, fun _ hc => absurd hc List.not_mem_nil⟩

/-! ## Accepted at most once -/

/-- How often Hasura took the row. -/
def acceptedOf (id : Nat) (h : List Effect) : Nat :=
  h.countP fun
    | .answered id' _ result => id' = id ∧ result.Accepted
    | .post _ _ => false

@[simp] theorem acceptedOf_append (id : Nat) (h h' : List Effect) :
    acceptedOf id (h ++ h') = acceptedOf id h + acceptedOf id h' := List.countP_append

theorem Quiet.acceptedOf_eq {s t : Sync} {out : List Effect} (h : Quiet s t out) (id : Nat) : acceptedOf id out = 0 := by
  unfold acceptedOf
  rw [List.countP_eq_zero]
  intro e he
  rcases e with ⟨id', m⟩ | ⟨id', m, result⟩
  · simp
  · exact absurd he (h.unanswered id' m result)

/-- A row that was taken is `SYNCED` or `FAILED`, and was taken once. -/
def TakenOnce (h : List Effect) (s : Sync) : Prop :=
  ∀ id, acceptedOf id h = 0 ∨ acceptedOf id h = 1 ∧ ∃ r, s.book id = some r ∧ r.syncStatus ≠ .pending

theorem TakenOnce.mono {h : List Effect} {s t : Sync} (ht : TakenOnce h s) (hadv : Advances s t) : TakenOnce h t := by
  intro id
  rcases ht id with hzero | ⟨hone, r, hr, hne⟩
  · exact Or.inl hzero
  · obtain ⟨r', hr', hstatus, -⟩ := hadv id r hr
    exact Or.inr ⟨hone, r', hr', by rw [hstatus hne]; exact hne⟩

theorem takenOnce_step {cfg : Config} {h : List Effect} {s t : Sync} {a : Input} {out : List Effect} (hc : Clean s)
    (ht : TakenOnce h s) (hno : NoOverlap s a) (hstep : step cfg s a = some (t, out)) : TakenOnce (h ++ out) t := by
  have hadv := (clean_step hc hno hstep).2
  rcases step_cases hstep with hq | ⟨row, result, hans⟩
  · intro id
    rw [acceptedOf_append, hq.acceptedOf_eq, Nat.add_zero]
    exact ht.mono hadv id
  · obtain ⟨hbook, hpending⟩ := hc.current _ hans.mem_calls.1 rfl
    intro id
    rw [acceptedOf_append, hans.out]
    by_cases hid : row.id = id ∧ result.Accepted
    · obtain ⟨rfl, haccepted⟩ := hid
      have hzero : acceptedOf row.id h = 0 := by
        rcases ht row.id with hzero | ⟨-, r, hr, hne⟩
        · exact hzero
        · rw [show s.book row.id = some row.book from hbook] at hr
          cases hr
          exact absurd hpending hne
      have hone : acceptedOf row.id [.answered row.id (buildMutation row) result] = 1 := by
        simp [acceptedOf, haccepted]
      obtain ⟨r', hr', hsynced⟩ := hans.synced haccepted.1 hbook
      exact Or.inr ⟨by omega, r', hr', by rw [hsynced]; decide⟩
    · have hzero : acceptedOf id [.answered row.id (buildMutation row) result] = 0 := by
        simp [acceptedOf, hid]
      rw [hzero, Nat.add_zero]
      exact ht.mono hadv id

/-- **Uploaded once.** Without overlapping fetches of a row, every row is accepted at most once. -/
theorem accepted_at_most_once (cfg : Config) (table : TelemetryBuffer) (inputs : List Input) (s : Sync)
    (h : List Effect) (hrun : (cloudSync cfg).run (.boot table) inputs = some (s, h))
    (hno : (cloudSync cfg).Along NoOverlap (.boot table) inputs) (id : Nat) : acceptedOf id h ≤ 1 := by
  have hinv := (cloudSync cfg).run_induction (I := fun h s => Clean s ∧ TakenOnce h s)
    (fun h s a t out hI hok hstep => ⟨(clean_step hI.1 hok hstep).1, takenOnce_step hI.1 hI.2 hok hstep⟩)
    (h := []) ⟨clean_boot table, fun _ => Or.inl rfl⟩ hno hrun
  rw [List.nil_append] at hinv
  rcases hinv.2 id with hzero | ⟨hone, -⟩
  · omega
  · omega

/-- One retry, and every payload is JSON. -/
def oneRetry : Config := ⟨1, 1000, fun _ => true⟩

/-- A table with one new row. -/
def oneRow : TelemetryBuffer :=
  TelemetryBuffer.insert ⟨[], List.Pairwise.nil⟩ ⟨"novamex/linea1/telemetry", "42", "ONLINE", "2026-01-01 00:00:00"⟩

theorem accepted_at_most_once_one :
    acceptedOf 1 [.post 1 (buildMutation ((oneRow.find 1).get (by decide))),
      .answered 1 (buildMutation ((oneRow.find 1).get (by decide))) (.response 200 none)] ≤ 1 :=
  accepted_at_most_once oneRetry oneRow [.poll, .respond 0 (.response 200 none)] _ _ rfl
    ⟨fun _ _ => rfl, fun _ _ _ => ⟨trivial, fun _ _ _ => trivial⟩⟩ 1

/-- Two ticks of the interval before the first answer upload the row twice. -/
theorem overlapping_polls_upload_twice :
    ¬ ∀ cfg table inputs s h, (cloudSync cfg).run (.boot table) inputs = some (s, h) → ∀ id, acceptedOf id h ≤ 1 := by
  intro hall
  have h := hall oneRetry oneRow [.poll, .poll, .respond 0 (.response 200 none), .respond 0 (.response 200 none)] _ _ rfl 1
  exact absurd h (by decide)

/-! ## The life of a row -/

/-- From `s` to `t` no row goes back, and a `FAILED` row has used up its retries. -/
structure Lifecycle (cfg : Config) (s t : Sync) : Prop where
  settled : ∀ row ∈ s.table.rows, row.syncStatus ≠ .pending →
    ∃ row' ∈ t.table.rows, row'.id = row.id ∧ row'.syncStatus = row.syncStatus
  retries : ∀ row ∈ s.table.rows, ∃ row' ∈ t.table.rows, row'.id = row.id ∧ row.retryCount ≤ row'.retryCount
  exhausted : ∀ row ∈ t.table.rows, row.syncStatus = .failed → cfg.maxRetries ≤ row.retryCount

def Exhausted (cfg : Config) (s : Sync) : Prop :=
  ∀ id r, s.book id = some r → r.syncStatus = .failed → cfg.maxRetries ≤ r.retryCount

theorem exhausted_step {cfg : Config} {s t : Sync} {a : Input} {out : List Effect} (hc : Clean s) (he : Exhausted cfg s)
    (hstep : step cfg s a = some (t, out)) : Exhausted cfg t := by
  intro id r hr hfailed
  rcases step_cases hstep with hq | ⟨row, result, hans⟩
  · rcases hq.newborn id r hr with hold | hpending
    · exact he id r hold hfailed
    · rw [hpending] at hfailed
      cases hfailed
  · by_cases hid : id = row.id
    · subst hid
      obtain ⟨hbook, hpending⟩ := hc.current _ hans.mem_calls.1 rfl
      obtain ⟨u, hu, hbook'⟩ := hans.verdict
      rw [hbook', if_pos rfl, show s.book row.id = some row.book from hbook, Option.map_some] at hr
      cases hr
      exact hu.exhausted hpending hfailed
    · rw [hans.book_of_ne hid] at hr
      exact he id r hr hfailed

/-- **No way back.** Without overlapping fetches of a row, `SYNCED` and `FAILED` are final, the retries never decrease,
and a row fails with its retries used up. -/
theorem lifecycle_of_no_overlap (cfg : Config) (table : TelemetryBuffer) (before after : List Input) (s t : Sync)
    (h h' : List Effect) (hfailed : ∀ row ∈ table.rows, row.syncStatus = .failed → cfg.maxRetries ≤ row.retryCount)
    (hbefore : (cloudSync cfg).run (.boot table) before = some (s, h))
    (hafter : (cloudSync cfg).run s after = some (t, h'))
    (hno : (cloudSync cfg).Along NoOverlap (.boot table) (before ++ after)) : Lifecycle cfg s t := by
  obtain ⟨hno₁, hno₂⟩ := (cloudSync cfg).along_append hno hbefore
  have hstart : Clean (Sync.boot table) ∧ Exhausted cfg (Sync.boot table) := by
    refine ⟨clean_boot table, fun id r hr hstatus => ?_⟩
    obtain ⟨row, hmem, -, rfl⟩ := mem_of_book hr
    exact hfailed row hmem hstatus
  have hinv : ∀ s a t out, Clean s ∧ Exhausted cfg s → NoOverlap s a → step cfg s a = some (t, out) →
      Clean t ∧ Exhausted cfg t :=
    fun s a t out hI hok hstep => ⟨(clean_step hI.1 hok hstep).1, exhausted_step hI.1 hI.2 hstep⟩
  have hs := (cloudSync cfg).run_invariant hinv hstart hno₁ hbefore
  have ht := (cloudSync cfg).run_invariant hinv hs hno₂ hafter
  have hadv : Advances s t := (cloudSync cfg).run_compose (I := Clean) (R := fun s _ t => Advances s t) Advances.refl
    Advances.trans (fun s a t out hc hok hstep => clean_step hc hok hstep) hs.1 hno₂ hafter
  refine ⟨fun row hrow hne => ?_, fun row hrow => ?_, fun row hrow hstatus => ?_⟩
  · obtain ⟨r', hr', hstatus, -⟩ := hadv row.id row.book (book_eq_of_mem hrow)
    obtain ⟨row', hmem, hid, rfl⟩ := mem_of_book hr'
    exact ⟨row', hmem, hid, hstatus hne⟩
  · obtain ⟨r', hr', -, hretry⟩ := hadv row.id row.book (book_eq_of_mem hrow)
    obtain ⟨row', hmem, hid, rfl⟩ := mem_of_book hr'
    exact ⟨row', hmem, hid, hretry⟩
  · exact ht.2 row.id row.book (book_eq_of_mem hrow) hstatus

theorem lifecycle_of_no_overlap_one : ∃ s t h h',
    (cloudSync oneRetry).run (.boot oneRow) [.poll, .respond 0 (.response 503 none)] = some (s, h) ∧
    (cloudSync oneRetry).run s [.poll] = some (t, h') ∧ Lifecycle oneRetry s t := by
  refine ⟨_, _, _, _, rfl, rfl, ?_⟩
  apply lifecycle_of_no_overlap oneRetry oneRow [.poll, .respond 0 (.response 503 none)] [.poll] _ _ _ _ ?_ rfl rfl
  · refine ⟨fun _ _ => rfl, fun t out ht => ⟨trivial, fun t out ht' => ?_⟩⟩
    cases ht
    cases ht'
    exact ⟨fun _ _ => rfl, fun _ _ _ => trivial⟩
  · decide

/-- Of two fetches under way the first fails the row and the second uploads it: `FAILED` was not final. -/
theorem stale_answer_revives_row :
    ¬ ∀ cfg table before after s t h h',
      (∀ row ∈ table.rows, row.syncStatus = .failed → cfg.maxRetries ≤ row.retryCount) →
      (cloudSync cfg).run (.boot table) before = some (s, h) → (cloudSync cfg).run s after = some (t, h') →
      Lifecycle cfg s t := by
  intro hall
  have hlife := hall oneRetry oneRow [.poll, .poll, .respond 0 (.response 503 none)] [.respond 0 (.response 200 none)]
    _ _ _ _ (by decide) rfl rfl
  obtain ⟨row', hmem, -, hstatus⟩ := hlife.settled _ List.mem_cons_self (by decide)
  rw [List.mem_singleton.mp hmem] at hstatus
  exact absurd hstatus (by decide)

/-! ## Uploaded when `SYNCED` -/

/-- No success status comes with GraphQL errors. -/
def Input.Honest : Input → Prop
  | .respond _ result => result.Ok → ¬ result.ReportsErrors
  | _ => True

/-- Every call carries the data of its row, and every `SYNCED` row was accepted with its data. -/
structure Justified (h : List Effect) (s : Sync) : Prop where
  data : ∀ c ∈ s.calls, ∃ r, s.book c.row.id = some r ∧ buildMutation r = buildMutation c.row
  accepted : ∀ id r, s.book id = some r → r.syncStatus = .synced →
    ∃ result, .answered id (buildMutation r) result ∈ h ∧ result.Accepted

theorem justified_step {cfg : Config} {h : List Effect} {s t : Sync} {a : Input} {out : List Effect}
    (hj : Justified h s) (ha : a.Honest) (hstep : step cfg s a = some (t, out)) : Justified (h ++ out) t := by
  have hkeep : ∀ c ∈ s.calls, ∃ r, t.book c.row.id = some r ∧ buildMutation r = buildMutation c.row := by
    intro c hc
    obtain ⟨r, hr, hdata⟩ := hj.data c hc
    obtain ⟨r', hr', hdata'⟩ := data_step hstep hr
    exact ⟨r', hr', hdata'.trans hdata⟩
  have hold : ∀ id r, s.book id = some r → r.syncStatus = .synced →
      ∃ result, .answered id (buildMutation r) result ∈ h ++ out ∧ result.Accepted := by
    intro id r hr hsynced
    obtain ⟨result, hmem, hacc⟩ := hj.accepted id r hr hsynced
    exact ⟨result, List.mem_append_left _ hmem, hacc⟩
  rcases step_cases hstep with hq | ⟨row, result, hans⟩
  · refine ⟨fun c hc => ?_, fun id r hr hsynced => ?_⟩
    · rcases hq.calls c hc with hc | ⟨-, hbook, -⟩
      · exact hkeep c hc
      · exact ⟨_, hbook, rfl⟩
    · rcases hq.newborn id r hr with hr | hpending
      · exact hold id r hr hsynced
      · rw [hpending] at hsynced
        cases hsynced
  · obtain ⟨hrow, hcalls⟩ := hans.mem_calls
    refine ⟨fun c hc => ?_, fun id r hr hsynced => ?_⟩
    · rcases hcalls c hc with hc | ⟨delay, rfl⟩
      · exact hkeep c hc
      · exact hkeep ⟨row, .fetching⟩ hrow
    · obtain ⟨u, hu, hbook⟩ := hans.verdict
      obtain ⟨r₀, hr₀, hdata₀⟩ := hj.data _ hrow
      by_cases hid : id = row.id
      · subst hid
        rw [hbook, if_pos rfl, show s.book row.id = some r₀ from hr₀, Option.map_some] at hr
        cases hr
        rw [buildMutation_apply]
        rcases hu.ok_of_synced hsynced with hbefore | hok
        · exact hold _ r₀ hr₀ hbefore
        · obtain ⟨i, rfl⟩ := hans.input
          refine ⟨result, List.mem_append_right _ ?_, hok, ha hok⟩
          rw [hans.out, hdata₀]
          exact List.mem_singleton_self _
      · rw [hans.book_of_ne hid] at hr
        exact hold id r hr hsynced

/-- **Never for nothing.** Where no success status comes with GraphQL errors, a `SYNCED` row was accepted with its own
topic, payload, health and time. -/
theorem synced_was_accepted (cfg : Config) (table : TelemetryBuffer) (inputs : List Input) (s : Sync) (h : List Effect)
    (hnew : ∀ row ∈ table.rows, row.syncStatus ≠ .synced)
    (hrun : (cloudSync cfg).run (.boot table) inputs = some (s, h)) (hhonest : ∀ a ∈ inputs, a.Honest) :
    ∀ row ∈ s.table.rows, row.syncStatus = .synced →
      ∃ result, .answered row.id (buildMutation row) result ∈ h ∧ result.Accepted := by
  have hstart : Justified [] (Sync.boot table) := by
    refine ⟨fun _ hc => absurd hc List.not_mem_nil, fun id r hr hsynced => ?_⟩
    obtain ⟨row, hmem, -, rfl⟩ := mem_of_book hr
    exact absurd hsynced (hnew row hmem)
  have hinv := (cloudSync cfg).run_induction (I := Justified) (fun _ _ _ _ _ hj ha hstep => justified_step hj ha hstep)
    hstart ((cloudSync cfg).along_of_mem hhonest _) hrun
  intro row hrow hsynced
  exact hinv.accepted row.id row.book (book_eq_of_mem hrow) hsynced

theorem synced_was_accepted_one : ∃ s h,
    (cloudSync oneRetry).run (.boot oneRow) [.poll, .respond 0 (.response 200 (some (.obj [("data", .null)])))] =
      some (s, h) ∧ ∀ row ∈ s.table.rows, row.syncStatus = .synced →
        ∃ result, .answered row.id (buildMutation row) result ∈ h ∧ result.Accepted := by
  refine ⟨_, _, rfl, ?_⟩
  apply synced_was_accepted oneRetry oneRow [.poll, .respond 0 (.response 200 (some (.obj [("data", .null)])))] _ _ ?_ rfl
  · intro a ha
    rcases List.mem_pair.mp ha with rfl | rfl
    · trivial
    · exact fun _ => by decide
  · decide

/-- A failed mutation, answered with status 200 and its errors, leaves the row `SYNCED`. -/
theorem failed_mutation_reads_synced :
    ¬ ∀ cfg table inputs s h, (∀ row ∈ table.rows, row.syncStatus ≠ .synced) →
      (cloudSync cfg).run (.boot table) inputs = some (s, h) → ∀ row ∈ s.table.rows, row.syncStatus = .synced →
        ∃ result, .answered row.id (buildMutation row) result ∈ h ∧ result.Accepted := by
  intro hall
  obtain ⟨result, hmem, hacc⟩ := hall oneRetry oneRow
    [.poll, .respond 0 (.response 200 (some (.obj [("errors", .arr [])])))] _ _ (by decide) rfl _ List.mem_cons_self rfl
  rcases List.mem_pair.mp hmem with heq | heq
  · cases heq
  · obtain ⟨-, -, rfl⟩ := Effect.answered.inj heq
    exact absurd hacc (by decide)

end IbarraGateway.CloudSync
