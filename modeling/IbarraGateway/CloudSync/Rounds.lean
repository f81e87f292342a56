import IbarraGateway.CloudSync.Interleaving

/-!
# Rounds of polling, one after the other

A round is a tick of the interval and the continuations it leads to, until no `syncRecord` is suspended. A `good` row is
one whose payload is JSON and whose POSTs are all accepted.

Only the first ten `PENDING` rows are tried. A row that the code can neither upload nor fail (an unparsable payload, a
4xx, a network error) keeps its place among them for ever. So every good row is uploaded in the end, whatever becomes of
the others, exactly when fewer than ten rows that are not good stand before it (`no_blocking_iff`).
-/

namespace IbarraGateway.CloudSync

/-- Answers and ends of backoffs. -/
def Input.Continues : Input → Prop
  | .respond _ _ => True
  | .wake _ => True
  | _ => False

/-- One `pollOnce`, run to the end of all its `syncRecord`s. -/
def Round (cfg : Config) (s : Sync) (h : List Effect) (t : Sync) : Prop :=
  ∃ inputs, (∀ a ∈ inputs, a.Continues) ∧ (cloudSync cfg).run s (.poll :: inputs) = some (t, h) ∧ t.calls = []

inductive Rounds (cfg : Config) : Nat → Sync → List Effect → Sync → Prop
  | zero (s : Sync) : Rounds cfg 0 s [] s
  | succ {k : Nat} {s t u : Sync} {h h' : List Effect} : Round cfg s h t → Rounds cfg k t h' u →
      Rounds cfg (k + 1) s (h ++ h') u

/-- The POSTs of good rows are accepted. -/
def AcceptedFor (good : Nat → Bool) (h : List Effect) : Prop :=
  ∀ id m result, .answered id m result ∈ h → good id → result.Accepted

theorem AcceptedFor.append_iff {good : Nat → Bool} {h h' : List Effect} :
    AcceptedFor good (h ++ h') ↔ AcceptedFor good h ∧ AcceptedFor good h' := by
  constructor
  · intro hacc
    exact ⟨fun id m r hm => hacc id m r (List.mem_append_left _ hm),
      fun id m r hm => hacc id m r (List.mem_append_right _ hm)⟩
  · rintro ⟨hl, hr⟩ id m r hm
    rcases List.mem_append.mp hm with hm | hm
    · exact hl id m r hm
    · exact hr id m r hm

/-! ## The rows stay -/

theorem keys_beginSync (cfg : Config) (s : Sync) (row : Row) : (beginSync cfg s row).1.table.keys = s.table.keys := by
  unfold beginSync
  split
  · rfl
  · exact keys_update s row.id _

theorem keys_beginAll (cfg : Config) (s : Sync) (rows : List Row) :
    (beginAll cfg s rows).1.table.keys = s.table.keys := by
  induction rows generalizing s with
  | nil => rfl
  | cons row rows ih => exact (ih _).trans (keys_beginSync cfg s row)

theorem Answer.keys_eq {cfg : Config} {s t : Sync} {a : Input} {out : List Effect} {row : Row} {result : FetchResult}
    (h : Answer cfg s a t out row result) : t.table.keys = s.table.keys := by
  obtain ⟨calls, -, rfl⟩ := h.rest
  obtain ⟨u, naps, heq, -, -⟩ := resumeFetch_spec cfg { s with calls } row result
  rw [heq]
  exact keys_update { s with calls } row.id u

theorem keys_continue {cfg : Config} {s t : Sync} {a : Input} {out : List Effect} (ha : a.Continues)
    (h : step cfg s a = some (t, out)) : t.table.keys = s.table.keys := by
  cases a with
  | insert => exact False.elim ha
  | poll => exact False.elim ha
  | respond i result =>
    obtain ⟨row, hans⟩ := step_respond h
    exact hans.keys_eq
  | wake i =>
    obtain ⟨_, _, -, ⟨rfl, -⟩ | ⟨row, -, -, rfl, -⟩⟩ := step_wake h
    · rfl
    · exact keys_beginSync cfg _ row

/-! ## One call for a row at a time -/

def callsOf (calls : List Call) (id : Nat) : Nat := calls.countP fun c => c.row.id = id

/-- Within a round no row has two calls. -/
def Solo (s : Sync) : Prop := ∀ id, callsOf s.calls id ≤ 1

theorem fetchingIn_le_callsOf (calls : List Call) (id : Nat) : fetchingIn calls id ≤ callsOf calls id := by
  apply List.countP_mono_left
  intro c _ hc
  simp only [decide_eq_true_eq] at hc ⊢
  exact hc.1

theorem callsOf_eraseIdx {calls : List Call} {i : Nat} {c : Call} (h : calls[i]? = some c) (id : Nat) :
    callsOf calls id = callsOf (calls.eraseIdx i) id + if c.row.id = id then 1 else 0 := by
  unfold callsOf
  rw [(perm_eraseIdx h).countP_eq, List.countP_cons]
  simp

theorem callsOf_begun (cfg : Config) (rows : List Row) (id : Nat) :
    callsOf (begun cfg rows) id = fetchingIn (begun cfg rows) id := by
  unfold callsOf fetchingIn begun
  rw [List.countP_map, List.countP_map]
  apply List.countP_congr
  intro r _
  simp

/-- A continuation leaves at most one call where one was. -/
theorem callsOf_continue_le {cfg : Config} {s t : Sync} {a : Input} {out : List Effect} (ha : a.Continues)
    (h : step cfg s a = some (t, out)) (id : Nat) : callsOf t.calls id ≤ callsOf s.calls id := by
  cases a with
  | insert => exact False.elim ha
  | poll => exact False.elim ha
  | respond i result =>
    obtain ⟨row, hans⟩ := step_respond h
    obtain ⟨calls, hperm, rfl⟩ := hans.rest
    obtain ⟨u, naps, heq, hnaps, -⟩ := resumeFetch_spec cfg { s with calls } row result
    have hcons : callsOf s.calls id = callsOf calls id + if row.id = id then 1 else 0 := by
      unfold callsOf
      rw [hperm.countP_eq, List.countP_cons]
      simp
    have hnap : callsOf naps id ≤ if row.id = id then 1 else 0 := by
      rcases hnaps with rfl | ⟨delay, rfl⟩
      · exact Nat.zero_le _
      · simp [callsOf, List.countP_cons]
    rw [heq]
    show callsOf (calls ++ naps) id ≤ _
    rw [callsOf, List.countP_append, ← callsOf, ← callsOf]
    omega
  | wake i =>
    obtain ⟨row, delay, hget, hwake⟩ := step_wake h
    have herase : callsOf s.calls id = callsOf (s.calls.eraseIdx i) id + if row.id = id then 1 else 0 :=
      callsOf_eraseIdx hget id
    rcases hwake with ⟨rfl, -⟩ | ⟨updated, hfind, -, rfl, -⟩
    · show callsOf (s.calls.eraseIdx i) id ≤ _
      omega
    · have hid : updated.id = row.id := (KeyedTable.find_eq_some_iff.mp hfind).2
      have hbegun : callsOf (begun cfg [updated]) id ≤ if row.id = id then 1 else 0 := by
        rw [← hid]
        by_cases hparses : cfg.parses updated.payload = true <;> simp [begun, callsOf, hparses, List.countP_cons]
      rw [(beginSync_spec cfg _ updated).2.1, callsOf, List.countP_append, ← callsOf, ← callsOf]
      show callsOf (s.calls.eraseIdx i) id + _ ≤ _
      omega

/-- A call that sleeps is alone, so its waking cannot overlap. -/
theorem Solo.noOverlap {cfg : Config} {s t : Sync} {a : Input} {out : List Effect} (hs : Solo s) (ha : a.Continues)
    (h : step cfg s a = some (t, out)) : NoOverlap s a := by
  cases a with
  | insert => exact False.elim ha
  | poll => exact False.elim ha
  | respond i result => trivial
  | wake i =>
    intro c hc row hrow _
    obtain ⟨_, delay, hget, -⟩ := step_wake h
    rw [hc] at hget
    cases hget
    have hid : row.id = _ := (KeyedTable.find_eq_some_iff.mp hrow).2
    have herase := callsOf_eraseIdx hc row.id
    rw [if_pos hid.symm] at herase
    have hone := hs row.id
    have hsleep : fetchingIn s.calls row.id = fetchingIn (s.calls.eraseIdx i) row.id := by
      unfold fetchingIn
      rw [(perm_eraseIdx hc).countP_eq, List.countP_cons]
      simp
    have hle := fetchingIn_le_callsOf (s.calls.eraseIdx i) row.id
    omega

/-! ## What a round does for good rows -/

def SyncedIn (s : Sync) (id : Nat) : Prop := ∃ r, s.book id = some r ∧ r.syncStatus = .synced

/-- The row is being uploaded, or was. -/
def Served (s : Sync) (id : Nat) : Prop := (∃ c ∈ s.calls, c.row.id = id ∧ c.phase = .fetching) ∨ SyncedIn s id

/-- No good row has failed. -/
def Live (good : Nat → Bool) (s : Sync) : Prop := ∀ id r, s.book id = some r → good id → r.syncStatus ≠ .failed

structure Progress (good : Nat → Bool) (s : Sync) (out : List Effect) (t : Sync) : Prop where
  keys : t.table.keys = s.table.keys
  advances : Advances s t
  data : ∀ id r, s.book id = some r → ∃ r', t.book id = some r' ∧ buildMutation r' = buildMutation r
  served : AcceptedFor good out → ∀ id, good id → Served s id → Served t id
  live : AcceptedFor good out → Live good s → Live good t

theorem Progress.refl (good : Nat → Bool) (s : Sync) : Progress good s [] s :=
  ⟨rfl, Advances.refl s, fun _ r hr => ⟨r, hr, rfl⟩, fun _ _ _ h => h, fun _ h => h⟩

theorem Progress.trans {good : Nat → Bool} {s t u : Sync} {out out' : List Effect} (h : Progress good s out t)
    (h' : Progress good t out' u) : Progress good s (out ++ out') u := by
  refine ⟨h'.keys.trans h.keys, h.advances.trans h'.advances, fun id r hr => ?_, fun hacc id hgood hserved => ?_,
    fun hacc hlive => ?_⟩
  · obtain ⟨r₁, hr₁, hdata⟩ := h.data id r hr
    obtain ⟨r₂, hr₂, hdata'⟩ := h'.data id r₁ hr₁
    exact ⟨r₂, hr₂, hdata'.trans hdata⟩
  · obtain ⟨hacc₁, hacc₂⟩ := AcceptedFor.append_iff.mp hacc
    exact h'.served hacc₂ id hgood (h.served hacc₁ id hgood hserved)
  · obtain ⟨hacc₁, hacc₂⟩ := AcceptedFor.append_iff.mp hacc
    exact h'.live hacc₂ (h.live hacc₁ hlive)

theorem SyncedIn.mono {s t : Sync} {id : Nat} (h : SyncedIn s id) (hadv : Advances s t) : SyncedIn t id := by
  obtain ⟨r, hr, hsynced⟩ := h
  obtain ⟨r', hr', hstatus, -⟩ := hadv id r hr
  exact ⟨r', hr', by rw [hstatus (by rw [hsynced]; decide), hsynced]⟩

theorem Answer.accepted {good : Nat → Bool} {cfg : Config} {s t : Sync} {a : Input} {out : List Effect} {row : Row}
    {result : FetchResult} (h : Answer cfg s a t out row result) (hacc : AcceptedFor good out) (hgood : good row.id) :
    result.Accepted := by
  rw [h.out] at hacc
  exact hacc row.id _ result (List.mem_singleton_self _) hgood

/-- A fetch ends with its answer only. -/
theorem fetching_continue {cfg : Config} {s t : Sync} {a : Input} {out : List Effect} (ha : a.Continues)
    (h : step cfg s a = some (t, out)) {c : Call} (hc : c ∈ s.calls) (hphase : c.phase = .fetching) :
    c ∈ t.calls ∨ ∃ result, Answer cfg s a t out c.row result := by
  cases a with
  | insert => exact False.elim ha
  | poll => exact False.elim ha
  | respond i result =>
    obtain ⟨row, hans⟩ := step_respond h
    obtain ⟨calls, hperm, hrest⟩ := hans.rest
    rcases List.mem_cons.mp (hperm.mem_iff.mp hc) with rfl | hc
    · exact Or.inr ⟨result, hans⟩
    · left
      obtain ⟨u, naps, heq, -, -⟩ := resumeFetch_spec cfg { s with calls } row result
      rw [hrest, heq]
      exact List.mem_append_left _ hc
  | wake i =>
    left
    obtain ⟨row, delay, hget, hwake⟩ := step_wake h
    have hkept : c ∈ s.calls.eraseIdx i := by
      rcases List.mem_cons.mp ((perm_eraseIdx hget).mem_iff.mp hc) with rfl | hc
      · cases hphase
      · exact hc
    rcases hwake with ⟨rfl, -⟩ | ⟨updated, -, -, rfl, -⟩
    · exact hkept
    · rw [(beginSync_spec cfg _ updated).2.1]
      exact List.mem_append_left _ hkept

theorem live_step {good : Nat → Bool} {cfg : Config} {s t : Sync} {a : Input} {out : List Effect} (hc : Clean s)
    (h : step cfg s a = some (t, out)) (hacc : AcceptedFor good out) (hlive : Live good s) : Live good t := by
  intro id r hr hgood
  rcases step_cases h with hq | ⟨row, result, hans⟩
  · rcases hq.newborn id r hr with hr | hpending
    · exact hlive id r hr hgood
    · rw [hpending]
      decide
  · by_cases hid : id = row.id
    · subst hid
      obtain ⟨hbook, -⟩ := hc.current _ hans.mem_calls.1 rfl
      obtain ⟨r', hr', hsynced⟩ := hans.synced (hans.accepted hacc hgood).1 hbook
      rw [hr] at hr'
      cases hr'
      rw [hsynced]
      decide
    · rw [hans.book_of_ne hid] at hr
      exact hlive id r hr hgood

theorem progress_continue {good : Nat → Bool} {cfg : Config} {s t : Sync} {a : Input} {out : List Effect}
    (hI : Clean s ∧ Solo s) (ha : a.Continues) (h : step cfg s a = some (t, out)) :
    (Clean t ∧ Solo t) ∧ Progress good s out t := by
  obtain ⟨hc, hsolo⟩ := hI
  obtain ⟨hct, hadv⟩ := clean_step hc (hsolo.noOverlap ha h) h
  refine ⟨⟨hct, fun id => (callsOf_continue_le ha h id).trans (hsolo id)⟩, keys_continue ha h, hadv,
    fun id r hr => data_step h hr, fun hacc id hgood hserved => ?_, live_step hc h⟩
  rcases hserved with ⟨c, hmem, rfl, hphase⟩ | hsynced
  · rcases fetching_continue ha h hmem hphase with hkept | ⟨result, hans⟩
    · exact Or.inl ⟨c, hkept, rfl, hphase⟩
    · obtain ⟨hbook, -⟩ := hc.current c hmem hphase
      exact Or.inr (hans.synced (hans.accepted hacc hgood).1 hbook)
  · exact Or.inr (hsynced.mono hadv)

theorem clean_of_no_calls {s : Sync} (h : s.calls = []) : Clean s := by
  refine ⟨fun id => ?_, fun c hc => ?_⟩
  · rw [h]
    exact Nat.zero_le _
  · rw [h] at hc
    exact absurd hc List.not_mem_nil

/-- **Round lemma.** A round makes progress, and uploads the good rows that were in reach of its tick. -/
theorem round_progress (good : Nat → Bool) {cfg : Config} {s t : Sync} {h : List Effect} (hround : Round cfg s h t)
    (hcalls : s.calls = []) : Progress good s h t ∧ (AcceptedFor good h → ∀ row ∈ s.table.firstPending, good row.id →
      cfg.parses row.payload → SyncedIn t row.id) := by
  obtain ⟨inputs, hcont, hrun, hdone⟩ := hround
  obtain ⟨v, out, outs, hpoll, hcontinue, rfl⟩ := (cloudSync cfg).run_cons_iff.mp hrun
  have hpoll : step cfg s .poll = some (v, out) := hpoll
  have hc : Clean s := clean_of_no_calls hcalls
  have hno : NoOverlap s .poll := fun row _ => by rw [hcalls]; rfl
  obtain ⟨hcv, hadv⟩ := clean_step hc hno hpoll
  obtain ⟨rfl, rfl⟩ := eq_of_some_eq hpoll
  obtain ⟨hbook, hbegun, hpost⟩ := beginAll_spec cfg s s.table.firstPending
  rw [hcalls, List.nil_append] at hbegun
  have hsolo : Solo (pollOnce cfg s).1 := by
    intro id
    rw [pollOnce, hbegun, callsOf_begun]
    exact fetchingIn_begun_le cfg (KeyedTable.first_pairwise _ _ _) id
  have hfirst : Progress good s (pollOnce cfg s).2 (pollOnce cfg s).1 := by
    refine ⟨keys_beginAll cfg s _, hadv, fun id r hr => data_step hpoll hr, fun _ id _ hserved => ?_, live_step hc hpoll⟩
    rcases hserved with ⟨c, hmem, -⟩ | hsynced
    · rw [hcalls] at hmem
      exact absurd hmem List.not_mem_nil
    · exact Or.inr (hsynced.mono hadv)
  have hrest : Progress good (pollOnce cfg s).1 outs t :=
    (cloudSync cfg).run_compose (I := fun s => Clean s ∧ Solo s) (R := Progress good) (Progress.refl good)
      Progress.trans (fun _ _ _ _ hI ha hstep => progress_continue hI ha hstep) ⟨hcv, hsolo⟩
      ((cloudSync cfg).along_of_mem hcont _) hcontinue
  refine ⟨hfirst.trans hrest, fun hacc row hrow hgood hparses => ?_⟩
  have hserved : Served (pollOnce cfg s).1 row.id := by
    refine Or.inl ⟨⟨row, .fetching⟩, ?_, rfl, rfl⟩
    rw [pollOnce, hbegun]
    exact List.mem_map.mpr ⟨row, List.mem_filter.mpr ⟨hrow, hparses⟩, rfl⟩
  rcases hrest.served (AcceptedFor.append_iff.mp hacc).2 row.id hgood hserved with ⟨c, hmem, -⟩ | hsynced
  · rw [hdone] at hmem
    exact absurd hmem List.not_mem_nil
  · exact hsynced

/-! ## Fewer than ten in front -/

/-- Rows that are not good and stand before the row with the id. -/
def inFront (good : Nat → Bool) (t : TelemetryBuffer) (id : Nat) : Nat := t.keys.countP fun k => k < id && !good k

theorem inFront_eq_rows (good : Nat → Bool) (t : TelemetryBuffer) (id : Nat) :
    inFront good t id = t.rows.countP fun r => r.id < id && !good r.id :=
  List.countP_map

/-- With few such rows in front, and no good row pending in front, the next tick tries the row. -/
theorem mem_firstPending_of_inFront {good : Nat → Bool} {t : TelemetryBuffer} {row : Row} (hrow : row ∈ t.rows)
    (hpending : row.syncStatus = .pending) (hfew : inFront good t row.id < 10)
    (hbefore : ∀ r ∈ t.rows, r.id < row.id → good r.id → r.syncStatus ≠ .pending) : row ∈ t.firstPending := by
  refine KeyedTable.mem_first_iff.mpr ⟨⟨hrow, by simpa using hpending⟩, lt_of_le_of_lt ?_ hfew⟩
  rw [inFront_eq_rows]
  apply List.countP_mono_left
  intro r hr hp
  simp only [Bool.and_eq_true, decide_eq_true_eq, Bool.not_eq_true'] at hp ⊢
  refine ⟨hp.1, ?_⟩
  by_contra hgood
  exact hbefore r hr hp.1 (by simpa using hgood) hp.2

/-- What rounds need of the state they start in. -/
structure Ready (good : Nat → Bool) (cfg : Config) (s : Sync) : Prop where
  calls : s.calls = []
  live : Live good s
  parses : ∀ id r, s.book id = some r → good id → cfg.parses r.payload
  few : ∀ id ∈ s.table.keys, good id → inFront good s.table id < 10

/-- The first `m` rows of the table are uploaded, as far as they are good. -/
def SyncedBelow (good : Nat → Bool) (s : Sync) (m : Nat) : Prop :=
  ∀ i < m, ∀ id, s.table.keys[i]? = some id → good id → SyncedIn s id

theorem Ready.round {good : Nat → Bool} {cfg : Config} {s t : Sync} {h : List Effect} (hs : Ready good cfg s)
    (hround : Round cfg s h t) (hacc : AcceptedFor good h) : Ready good cfg t := by
  obtain ⟨hp, -⟩ := round_progress good hround hs.calls
  obtain ⟨-, -, -, hdone⟩ := hround
  refine ⟨hdone, hp.live hacc hs.live, fun id r hr hgood => ?_, fun id hid hgood => ?_⟩
  · obtain ⟨r₀, hr₀⟩ := mem_keys_iff.mp (show id ∈ s.table.keys by rw [← hp.keys]; exact mem_keys_iff.mpr ⟨r, hr⟩)
    obtain ⟨r', hr', hdata⟩ := hp.data id r₀ hr₀
    rw [hr] at hr'
    cases hr'
    have hpayload : r.payload = r₀.payload := congrArg Mutation.payload hdata
    rw [hpayload]
    exact hs.parses id r₀ hr₀ hgood
  · unfold inFront
    rw [hp.keys] at hid ⊢
    exact hs.few id hid hgood

theorem SyncedBelow.round {good : Nat → Bool} {cfg : Config} {s t : Sync} {h : List Effect} {m : Nat}
    (hm : SyncedBelow good s m) (hs : Ready good cfg s) (hround : Round cfg s h t) (hacc : AcceptedFor good h) :
    SyncedBelow good t (m + 1) := by
  obtain ⟨hp, hreach⟩ := round_progress good hround hs.calls
  intro i hi id hid hgood
  rw [hp.keys] at hid
  by_cases hlt : i < m
  · exact (hm i hlt id hid hgood).mono hp.advances
  obtain rfl : i = m := by omega
  obtain ⟨row, hrow, rfl⟩ := List.mem_map.mp (List.mem_of_getElem? hid)
  have hbook := book_eq_of_mem hrow
  by_cases hpending : row.syncStatus = .pending
  · apply hreach hacc row ?_ hgood (hs.parses row.id row.book hbook hgood)
    apply mem_firstPending_of_inFront hrow hpending (hs.few row.id (List.mem_of_getElem? hid) hgood)
    intro r hr hrlt hrgood hrpending
    obtain ⟨j, hj, hget⟩ := KeyedTable.exists_index_lt hid (List.mem_map_of_mem hr) hrlt
    obtain ⟨r', hr', hsynced⟩ := hm j hj r.id hget hrgood
    rw [book_eq_of_mem hr] at hr'
    cases hr'
    exact absurd (hrpending.symm.trans hsynced) (by decide)
  · have hsynced : row.syncStatus = .synced := by
      have hlive := hs.live row.id row.book hbook hgood
      rcases hstatus : row.syncStatus with _ | _ | _
      · exact absurd hstatus hpending
      · rfl
      · exact absurd hstatus hlive
    exact SyncedIn.mono ⟨row.book, hbook, hsynced⟩ hp.advances

end IbarraGateway.CloudSync
