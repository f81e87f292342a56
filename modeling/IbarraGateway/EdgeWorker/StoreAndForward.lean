import IbarraGateway.CloudSync.Drain
import IbarraGateway.EdgeWorker.Ingestion

/-!
# Store and forward

The edge worker and cloud_sync on their one table. A message that the worker cannot survive ends its process, which keeps
nothing but the table; a restart of cloud_sync loses the uploads that are suspended in it (`restartSync`). The two processes
and the answers of Hasura interleave in any order.

* `rows_are_messages` : what the table and the uploads consist of, after every run.
* `no_post_after_success` : what no interleaving and no restart brings back.
* `restart_recovers` : what a restart leaves to do, and that the rounds after it do it.
-/

namespace IbarraGateway.EdgeWorker
open CloudSync (TelemetryBuffer Row Sync Effect Mutation FetchResult buildMutation Rounds AllAccepted posted)

inductive EdgeInput
  | message (m : Message) (error : Option String)
  | poll
  | respond (i : Nat) (result : FetchResult)
  | wake (i : Nat)
  | restartSync

section
variable (p : Platform) (cfg : CloudSync.Config)

def edgeStep (s : Sync) : EdgeInput → Option (Sync × List Effect)
  | .message m error =>
    match receive p ⟨m.now, error⟩ m.topic m.payload s.table with
    | .ok (table, _) => some ({ s with table }, [])
    | .error _ => some (s, [])
  | .poll => CloudSync.step cfg s .poll
  | .respond i result => CloudSync.step cfg s (.respond i result)
  | .wake i => CloudSync.step cfg s (.wake i)
  | .restartSync => some (.boot s.table, [])

def edge : Machine Sync EdgeInput Effect := ⟨edgeStep p cfg⟩

/-- What a message leaves in the table. -/
def storedBy : EdgeInput → Option CloudSync.Record
  | .message m none => if topicMatches topicPrefix m.topic then (passing p m).bind (inserted p) else none
  | _ => none

end

/-- What is uploaded of a record. -/
def recordMutation (r : CloudSync.Record) : Mutation := buildMutation (r.row 0)

/-! ## What a step does to the contents -/

theorem contents_update (s : Sync) (id : Nat) (u : CloudSync.Update) :
    (s.update id u).table.rows.map buildMutation = s.table.rows.map buildMutation := by
  show (s.table.rows.map _).map buildMutation = _
  rw [List.map_map]
  refine List.map_congr_left fun r _ => ?_
  show buildMutation (if r.id = id then u.apply r else r) = buildMutation r
  split
  · cases u <;> rfl
  · rfl

/-- A step of cloud_sync on its own: no row comes or goes, and what is posted is in a `PENDING` row. -/
structure Uploads (s t : Sync) (out : List Effect) : Prop where
  keys : t.table.keys = s.table.keys
  contents : t.table.rows.map buildMutation = s.table.rows.map buildMutation
  posts : ∀ id m, .post id m ∈ out → ∃ row ∈ s.table.rows, row.syncStatus = .pending ∧ row.id = id ∧ buildMutation row = m

section
variable {p : Platform} {cfg : CloudSync.Config}

theorem uploads_beginSync (cfg : CloudSync.Config) (s : Sync) {row : Row} (hrow : row ∈ s.table.rows) (hpending : row.syncStatus = .pending) :
    Uploads s (CloudSync.beginSync cfg s row).1 (CloudSync.beginSync cfg s row).2 := by
  refine ⟨CloudSync.keys_beginSync cfg s row, ?_, ?_⟩
  · unfold CloudSync.beginSync
    split
    · rfl
    · exact contents_update s row.id _
  · intro id m hmem
    unfold CloudSync.beginSync at hmem
    split at hmem
    · obtain ⟨rfl, rfl⟩ := Effect.post.inj (List.mem_singleton.mp hmem)
      exact ⟨row, hrow, hpending, rfl, rfl⟩
    · exact absurd hmem List.not_mem_nil

theorem beginAll_contents (cfg : CloudSync.Config) (s : Sync) (rows : List Row) :
    (CloudSync.beginAll cfg s rows).1.table.rows.map buildMutation = s.table.rows.map buildMutation ∧
      ∀ id m, .post id m ∈ (CloudSync.beginAll cfg s rows).2 → ∃ row ∈ rows, row.id = id ∧ buildMutation row = m := by
  induction rows generalizing s with
  | nil => exact ⟨rfl, fun id m hmem => absurd hmem List.not_mem_nil⟩
  | cons row rows ih =>
    obtain ⟨hcontents, hposts⟩ := ih (CloudSync.beginSync cfg s row).1
    refine ⟨hcontents.trans ?_, fun id m hmem => ?_⟩
    · unfold CloudSync.beginSync
      split
      · rfl
      · exact contents_update s row.id _
    · rcases List.mem_append.mp hmem with hmem | hmem
      · unfold CloudSync.beginSync at hmem
        split at hmem
        · obtain ⟨rfl, rfl⟩ := Effect.post.inj (List.mem_singleton.mp hmem)
          exact ⟨row, List.mem_cons_self, rfl, rfl⟩
        · exact absurd hmem List.not_mem_nil
      · obtain ⟨row', hrow', heq⟩ := hposts id m hmem
        exact ⟨row', List.mem_cons_of_mem row hrow', heq⟩

theorem uploads_step {s t : Sync} {a : CloudSync.Input} {out : List Effect} (ha : a = .poll ∨ a.Continues)
    (hstep : CloudSync.step cfg s a = some (t, out)) : Uploads s t out := by
  rcases ha with rfl | ha
  · obtain ⟨rfl, rfl⟩ := CloudSync.eq_of_some_eq hstep
    obtain ⟨hcontents, hposts⟩ := beginAll_contents cfg s s.table.firstPending
    refine ⟨CloudSync.keys_beginAll cfg s _, hcontents, fun id m hmem => ?_⟩
    obtain ⟨row, hrow, heq⟩ := hposts id m hmem
    obtain ⟨hmem, hpending⟩ := CloudSync.mem_firstPending hrow
    exact ⟨row, hmem, hpending, heq⟩
  · cases a with
    | insert => exact False.elim ha
    | poll => exact False.elim ha
    | respond i result =>
      obtain ⟨row, hans⟩ := CloudSync.step_respond hstep
      obtain ⟨calls, -, rfl⟩ := hans.rest
      obtain ⟨u, naps, heq, -, -⟩ := CloudSync.resumeFetch_spec cfg { s with calls } row result
      refine ⟨hans.keys_eq, ?_, fun id m hmem => ?_⟩
      · rw [heq]
        exact contents_update { s with calls } row.id u
      · rw [hans.out] at hmem
        simp at hmem
    | wake i =>
      obtain ⟨_, _, -, ⟨rfl, rfl⟩ | ⟨row, hfind, hpending, rfl, rfl⟩⟩ := CloudSync.step_wake hstep
      · exact ⟨rfl, rfl, fun id m hmem => absurd hmem List.not_mem_nil⟩
      · have hrow := (KeyedTable.find_eq_some_iff.mp hfind).1
        have hu := uploads_beginSync cfg { s with calls := s.calls.eraseIdx i } hrow hpending
        exact ⟨hu.keys, hu.contents, hu.posts⟩

/-- A message, with all that the worker makes of it. -/
theorem receive_stored (m : Message) (error : Option String) (t : TelemetryBuffer) :
    (∃ e, receive p ⟨m.now, error⟩ m.topic m.payload t = .error e ∧ storedBy p (.message m error) = none) ∨
      ∃ logs, receive p ⟨m.now, error⟩ m.topic m.payload t =
        .ok ((storedBy p (.message m error)).elim t t.insert, logs) := by
  unfold receive storedBy
  by_cases htopic : topicMatches topicPrefix m.topic = true
  · rw [if_pos htopic]
    cases error with
    | some e =>
      rcases validate_cases (p := p) m with ⟨⟨e, hvalidate⟩, -⟩ | ⟨⟨logs, hvalidate⟩, -⟩ | ⟨record, hvalidate, -⟩
      · exact .inl ⟨e, by rw [handleMessage, hvalidate], rfl⟩
      · exact .inr ⟨logs, by rw [handleMessage, hvalidate]; rfl⟩
      · exact .inr ⟨_, by rw [handleMessage, hvalidate]; rfl⟩
    | none =>
      dsimp only
      rw [if_pos htopic]
      rcases validate_cases (p := p) m with ⟨⟨e, hvalidate⟩, hpassing⟩ | ⟨⟨logs, hvalidate⟩, hpassing⟩ |
        ⟨record, hvalidate, hpassing⟩
      · exact .inl ⟨e, by rw [handleMessage, hvalidate], by rw [hpassing]; rfl⟩
      · exact .inr ⟨logs, by rw [handleMessage, hvalidate, hpassing]; rfl⟩
      · right
        rw [handleMessage_of_validate m.now t hvalidate, hpassing, Option.bind_some, inserted]
        cases hbind : bindText p record.nodeHealth with
        | none => exact ⟨_, rfl⟩
        | some health => exact ⟨_, rfl⟩
  · rw [if_neg htopic]
    right
    refine ⟨[], ?_⟩
    cases error with
    | some e => rfl
    | none =>
      dsimp only
      rw [if_neg htopic]
      rfl

/-- A step of the edge: a row more, an upload, or a loss of what is suspended. -/
inductive EdgeStep (p : Platform) (cfg : CloudSync.Config) (s : Sync) (a : EdgeInput) : Sync → List Effect → Prop
  | idle (hnone : storedBy p a = none) : EdgeStep p cfg s a s []
  | stored {record : CloudSync.Record} (hsome : storedBy p a = some record) :
      EdgeStep p cfg s a { s with table := s.table.insert record } []
  | uploads {b : CloudSync.Input} {t : Sync} {out : List Effect} (hnone : storedBy p a = none)
      (hb : b = .poll ∨ b.Continues) (hstep : CloudSync.step cfg s b = some (t, out)) : EdgeStep p cfg s a t out
  | restart (hnone : storedBy p a = none) : EdgeStep p cfg s a (.boot s.table) []

theorem edge_step_inv {s t : Sync} {a : EdgeInput} {out : List Effect} (h : (edge p cfg).step s a = some (t, out)) :
    EdgeStep p cfg s a t out := by
  have h : edgeStep p cfg s a = some (t, out) := h
  cases a with
  | message m error =>
    rw [edgeStep] at h
    rcases receive_stored (p := p) m error s.table with ⟨e, hreceive, hnone⟩ | ⟨logs, hreceive⟩
    · rw [hreceive] at h
      cases h
      exact .idle hnone
    · rw [hreceive] at h
      cases h
      cases hstored : storedBy p (.message m error) with
      | none => exact .idle hstored
      | some record => exact .stored hstored
  | poll => exact .uploads rfl (.inl rfl) h
  | respond i result => exact .uploads (b := .respond i result) rfl (.inr trivial) h
  | wake i => exact .uploads (b := .wake i) rfl (.inr trivial) h
  | restartSync =>
    cases h
    exact .restart rfl

/-! ## Rows are messages -/

/-- The contents of the table: what it began with, then the messages in order; and every POST is that of a row. -/
structure RowsAreMessages (p : Platform) (table : TelemetryBuffer) (inputs : List EdgeInput) (h : List Effect) (s : Sync) :
    Prop where
  keys : table.keys <+: s.table.keys
  contents : s.table.rows.map buildMutation =
    table.rows.map buildMutation ++ (inputs.filterMap (storedBy p)).map recordMutation
  posts : ∀ id m, .post id m ∈ h → ∃ row ∈ s.table.rows, row.id = id ∧ buildMutation row = m

/-- Rows keep their places, so one with the id keeps its contents. -/
theorem row_kept {s t : Sync} (hkeys : s.table.keys <+: t.table.keys)
    (hcontents : s.table.rows.map buildMutation <+: t.table.rows.map buildMutation) {row : Row} (hrow : row ∈ s.table.rows) :
    ∃ row' ∈ t.table.rows, row'.id = row.id ∧ buildMutation row' = buildMutation row := by
  obtain ⟨i, hi, rfl⟩ := List.getElem_of_mem hrow
  have hlen : i < t.table.rows.length := by
    have hle := hkeys.length_le
    simp only [KeyedTable.keys, List.length_map] at hle
    omega
  refine ⟨t.table.rows[i], List.getElem_mem hlen, ?_, ?_⟩
  · have hget := List.prefix_iff_getElem?.mp hkeys i (by simpa [KeyedTable.keys] using hi)
    simpa [KeyedTable.keys, hlen, hi] using hget
  · have hget := List.prefix_iff_getElem?.mp hcontents i (by simpa using hi)
    simpa [hlen, hi] using hget

theorem RowsAreMessages.step {table : TelemetryBuffer} {inputs : List EdgeInput} {h : List Effect} {s t : Sync}
    {a : EdgeInput} {out : List Effect} (hI : RowsAreMessages p table inputs h s)
    (hstep : (edge p cfg).step s a = some (t, out)) : RowsAreMessages p table (inputs ++ [a]) (h ++ out) t := by
  have hone : ∀ {stored : Option CloudSync.Record}, storedBy p a = stored →
      (inputs ++ [a]).filterMap (storedBy p) = inputs.filterMap (storedBy p) ++ stored.toList := by
    rintro stored rfl
    rw [List.filterMap_append]
    cases hstored : storedBy p a <;> simp [hstored]
  cases edge_step_inv hstep with
  | idle hnone =>
    rw [List.append_nil]
    exact ⟨hI.keys, by rw [hone hnone]; simpa using hI.contents, hI.posts⟩
  | @stored record hsome =>
    have hrows : (s.table.insert record).rows = s.table.rows ++ [record.row s.table.nextKey] := rfl
    refine ⟨?_, ?_, ?_⟩
    · have hkeys : (s.table.insert record).keys = s.table.keys ++ [s.table.nextKey] := by
        rw [KeyedTable.keys, hrows, List.map_append]
        rfl
      show table.keys <+: (s.table.insert record).keys
      rw [hkeys]
      exact hI.keys.trans (List.prefix_append _ _)
    · rw [hone hsome, List.map_append, ← List.append_assoc, ← hI.contents]
      show (s.table.insert record).rows.map buildMutation = _
      rw [hrows, List.map_append]
      rfl
    · rw [List.append_nil]
      intro id m hmem
      obtain ⟨row, hrow, heq⟩ := hI.posts id m hmem
      exact ⟨row, List.mem_append_left _ hrow, heq⟩
  | uploads hnone hb hup =>
    have hu := uploads_step hb hup
    have hkept {row : Row} (hrow : row ∈ s.table.rows) :=
      row_kept (s := s) (t := t) (by rw [hu.keys]) (by rw [hu.contents]) hrow
    refine ⟨by rw [hu.keys]; exact hI.keys, by rw [hone hnone, hu.contents]; simpa using hI.contents, fun id m hmem => ?_⟩
    rcases List.mem_append.mp hmem with hmem | hmem
    · obtain ⟨row, hrow, rfl, rfl⟩ := hI.posts id m hmem
      exact hkept hrow
    · obtain ⟨row, hrow, -, rfl, rfl⟩ := hu.posts id m hmem
      exact hkept hrow
  | restart hnone =>
    rw [List.append_nil]
    refine ⟨hI.keys, ?_, hI.posts⟩
    show s.table.rows.map buildMutation = _
    rw [hone hnone]
    simpa using hI.contents

theorem rowsAreMessages_run {table : TelemetryBuffer} {inputs : List EdgeInput} {h : List Effect} {s : Sync}
    (hrun : (edge p cfg).run (.boot table) inputs = some (s, h)) : RowsAreMessages p table inputs h s :=
  (edge p cfg).run_snoc_induction (I := RowsAreMessages p table)
    ⟨List.prefix_refl _, by simp [Sync.boot], fun _ _ hmem => absurd hmem List.not_mem_nil⟩
    (fun _ _ _ _ _ _ _ hI _ hstep => hI.step hstep) ((edge p cfg).along_true _ _) hrun

/-! ## No way back -/

/-- A row that was answered with a success is `PENDING` no longer; what is suspended belongs to a row. -/
structure Settled (h : List Effect) (s : Sync) : Prop where
  calls : ∀ c ∈ s.calls, ∃ r, s.book c.row.id = some r
  done : ∀ id m result, .answered id m result ∈ h → result.Ok → ∃ r, s.book id = some r ∧ r.syncStatus ≠ .pending

/-- No POST of a row after a success of that row. -/
def NotAgain (before : List Effect) (e : Effect) : Prop :=
  ∀ id m m' result, e = .post id m → .answered id m' result ∈ before → ¬result.Ok

/-- Nothing writes `PENDING`. -/
theorem done_step {s t : Sync} {b : CloudSync.Input} {out : List Effect} (hstep : CloudSync.step cfg s b = some (t, out))
    {id : Nat} {r : Row} (hr : s.book id = some r) (hdone : r.syncStatus ≠ .pending) :
    ∃ r', t.book id = some r' ∧ r'.syncStatus ≠ .pending := by
  rcases CloudSync.step_cases hstep with hq | ⟨row, result, hans⟩
  · exact ⟨r, hq.book id r hr, hdone⟩
  · obtain ⟨u, hu, hbook⟩ := hans.verdict
    rw [hbook, hr]
    split
    · refine ⟨_, rfl, ?_⟩
      rcases hu with ⟨-, rfl⟩ | ⟨-, ⟨e, rfl⟩ | ⟨e, rfl⟩ | ⟨e, rfl, -⟩⟩
      · simp [CloudSync.Update.apply, CloudSync.Row.book]
      · exact hdone
      · exact hdone
      · simp [CloudSync.Update.apply, CloudSync.Row.book]
    · exact ⟨r, rfl, hdone⟩

theorem book_kept {s t : Sync} {b : CloudSync.Input} {out : List Effect} (hstep : CloudSync.step cfg s b = some (t, out))
    {id : Nat} (hr : ∃ r, s.book id = some r) : ∃ r, t.book id = some r := by
  obtain ⟨r, hr⟩ := hr
  obtain ⟨r', hr', -⟩ := CloudSync.data_step hstep hr
  exact ⟨r', hr'⟩

/-- **Step lemma** for cloud_sync. -/
theorem Settled.uploads {h : List Effect} {s t : Sync} {b : CloudSync.Input} {out : List Effect} (hI : Settled h s)
    (hb : b = .poll ∨ b.Continues) (hstep : CloudSync.step cfg s b = some (t, out)) :
    Settled (h ++ out) t ∧ Everywhere (fun before e => NotAgain (h ++ before) e) out := by
  rcases CloudSync.step_cases hstep with hq | ⟨row, result, hans⟩
  · refine ⟨⟨fun c hc => ?_, fun id m result hmem hok => ?_⟩, ?_⟩
    · rcases hq.calls c hc with hc | ⟨-, hbook, -⟩
      · exact book_kept hstep (hI.calls c hc)
      · exact ⟨_, hbook⟩
    · rcases List.mem_append.mp hmem with hmem | hmem
      · obtain ⟨r, hr, hdone⟩ := hI.done id m result hmem hok
        exact done_step hstep hr hdone
      · exact absurd hmem (hq.unanswered id m result)
    · rintro before e after rfl id m m' result rfl hmem hok
      obtain ⟨row, hrow, hpending, rfl, -⟩ := (uploads_step hb hstep).posts id m (by simp)
      rcases List.mem_append.mp hmem with hmem | hmem
      · obtain ⟨r, hr, hdone⟩ := hI.done row.id m' result hmem hok
        rw [CloudSync.book_eq_of_mem hrow] at hr
        cases hr
        exact hdone hpending
      · exact hq.unanswered row.id m' result (List.mem_append_left _ hmem)
  · obtain ⟨hrow, hcalls⟩ := hans.mem_calls
    refine ⟨⟨fun c hc => ?_, fun id m result' hmem hok => ?_⟩, ?_⟩
    · rcases hcalls c hc with hc | ⟨delay, rfl⟩
      · exact book_kept hstep (hI.calls c hc)
      · exact book_kept hstep (hI.calls ⟨row, .fetching⟩ hrow)
    · rcases List.mem_append.mp hmem with hmem | hmem
      · obtain ⟨r, hr, hdone⟩ := hI.done id m result' hmem hok
        exact done_step hstep hr hdone
      · rw [hans.out] at hmem
        obtain ⟨rfl, -, rfl⟩ := Effect.answered.inj (List.mem_singleton.mp hmem)
        obtain ⟨r, hr⟩ := hI.calls _ hrow
        obtain ⟨r', hr', hsynced⟩ := hans.synced hok hr
        exact ⟨r', hr', by rw [hsynced]; decide⟩
    · rw [hans.out, Everywhere.singleton_iff]
      intro id m m' result' hcontra
      cases hcontra

theorem Settled.step {h : List Effect} {s t : Sync} {a : EdgeInput} {out : List Effect} (hI : Settled h s)
    (hstep : (edge p cfg).step s a = some (t, out)) :
    Settled (h ++ out) t ∧ Everywhere (fun before e => NotAgain (h ++ before) e) out := by
  cases edge_step_inv hstep with
  | idle hnone =>
    rw [List.append_nil]
    exact ⟨hI, Everywhere.nil⟩
  | @stored record hsome =>
    have hinsert : CloudSync.step cfg s (.insert record) = some ({ s with table := s.table.insert record }, []) := rfl
    rw [List.append_nil]
    refine ⟨⟨fun c hc => book_kept hinsert (hI.calls c hc), fun id m result hmem hok => ?_⟩, Everywhere.nil⟩
    obtain ⟨r, hr, hdone⟩ := hI.done id m result hmem hok
    exact done_step hinsert hr hdone
  | uploads hnone hb hup => exact hI.uploads hb hup
  | restart hnone =>
    rw [List.append_nil]
    exact ⟨⟨fun c hc => absurd hc List.not_mem_nil, hI.done⟩, Everywhere.nil⟩

end

/-! ## Results -/

/-- **Rows are messages.** After every run the table holds what it held before, unchanged in its data, and behind it one row
for each message that the worker stored, in their order; every POST carries the data of the row with its id. -/
theorem rows_are_messages (p : Platform) (cfg : CloudSync.Config) (table : TelemetryBuffer) (inputs : List EdgeInput) (s : Sync)
    (h : List Effect) (hrun : (edge p cfg).run (.boot table) inputs = some (s, h)) : RowsAreMessages p table inputs h s :=
  rowsAreMessages_run hrun

/-- **No POST after a success**, in any interleaving and across restarts. -/
theorem no_post_after_success (p : Platform) (cfg : CloudSync.Config) (table : TelemetryBuffer) (inputs : List EdgeInput)
    (s : Sync) (h : List Effect) (hrun : (edge p cfg).run (.boot table) inputs = some (s, h)) : Everywhere NotAgain h := by
  have hinv := (edge p cfg).run_induction (I := fun h s => Settled h s ∧ Everywhere NotAgain h)
    (fun h s a t out hI _ hstep => ?_) (h := [])
    ⟨⟨fun c hc => absurd hc List.not_mem_nil, fun _ _ _ hmem => absurd hmem List.not_mem_nil⟩, Everywhere.nil⟩
    ((edge p cfg).along_true _ inputs) hrun
  · exact hinv.2
  · obtain ⟨hsettled, hout⟩ := hI.1.step hstep
    exact ⟨hsettled, Everywhere.append_iff.mpr ⟨hI.2, hout⟩⟩

/-- What is stored was printed by `JSON.stringify`. -/
theorem storedBy_payload {p : Platform} {a : EdgeInput} {record : CloudSync.Record} (h : storedBy p a = some record) :
    ∃ v, p.stringify v = some record.payload := by
  cases a with
  | message m error =>
    cases error with
    | some e => cases h
    | none =>
      rw [storedBy] at h
      split at h
      · obtain ⟨x, hx, hinserted⟩ := Option.bind_eq_some_iff.mp h
        obtain ⟨v, -, -, -, -, hpayload⟩ := validate_iff.mp (passing_eq_some_iff.mp hx).2
        obtain ⟨health, -, rfl⟩ := Option.map_eq_some_iff.mp hinserted
        exact ⟨v, hpayload⟩
      · cases h
  | poll => cases h
  | respond i result => cases h
  | wake i => cases h
  | restartSync => cases h

def emptyTable : TelemetryBuffer := .empty

/-- **Recovery.** Whatever the edge has been through since its first start, after a restart of cloud_sync `k` rounds that are
accepted upload the first `10 * k` of the rows still `PENDING`, each once and in order, and each is a message. -/
theorem restart_recovers (p : Platform) (cfg : CloudSync.Config) 
    (hparses : ∀ v text, p.stringify v = some text → cfg.parses text = true)
    (inputs : List EdgeInput) (s t : Sync) (h h' : List Effect) (k : Nat)
    (hrun : (edge p cfg).run (.boot emptyTable) inputs = some (s, h)) (hrounds : Rounds cfg k (.boot s.table) h' t)
    (hacc : AllAccepted h') :
    posted h' = (s.pending.take (10 * k)).map CloudSync.Row.post ∧ t.pending = s.pending.drop (10 * k) ∧
      ∀ r ∈ s.pending, ∃ record ∈ inputs.filterMap (storedBy p), buildMutation r = recordMutation record := by
  have hcontents := (rowsAreMessages_run hrun).contents
  have hmessage : ∀ r ∈ s.pending, ∃ record ∈ inputs.filterMap (storedBy p), buildMutation r = recordMutation record := by
    intro r hr
    have hmem : buildMutation r ∈ s.table.rows.map buildMutation := List.mem_map_of_mem (List.mem_of_mem_filter hr)
    rw [hcontents] at hmem
    obtain ⟨record, hrecord, heq⟩ := List.mem_map.mp (show _ ∈ (inputs.filterMap (storedBy p)).map recordMutation from hmem)
    exact ⟨record, hrecord, heq.symm⟩
  have hpayload : ∀ r ∈ s.pending, cfg.parses r.payload = true := by
    intro r hr
    obtain ⟨record, hrecord, heq⟩ := hmessage r hr
    obtain ⟨a, -, hstored⟩ := List.mem_filterMap.mp hrecord
    obtain ⟨v, hv⟩ := storedBy_payload hstored
    have hsame : r.payload = record.payload := congrArg Mutation.payload heq
    rw [hsame]
    exact hparses v _ hv
  obtain ⟨hposts, hpending⟩ := CloudSync.rounds_drain hrounds rfl hpayload hacc
  exact ⟨hposts, hpending, hmessage⟩

/-! ## A run -/

/-- The payload `\x7b"node_health":"OK"\x7d`. -/
def okMessage : Message where
  topic := "novamex/ibarra"
  payload := [0x7B, 0x22, 0x6E, 0x6F, 0x64, 0x65, 0x5F, 0x68, 0x65, 0x61, 0x6C, 0x74, 0x68, 0x22, 0x3A, 0x22, 0x4F, 0x4B, 0x22,
    0x7D]
  now := "2026-01-01 00:00:00"

def acceptsAll : CloudSync.Config := ⟨5, 1000, fun _ => true⟩

def okMutation : Mutation := recordMutation ⟨"novamex/ibarra", "ok", "OK", "2026-01-01 00:00:00"⟩

/-- Stored, posted, lost in a restart, posted again and accepted. -/
def okRun : List EdgeInput :=
  [.message okMessage none, .poll, .restartSync, .poll, .respond 0 (.response 200 none), .poll]

def okHistory : List Effect := [.post 1 okMutation, .post 1 okMutation, .answered 1 okMutation (.response 200 none)]

theorem ok_rows : ∃ s, RowsAreMessages okPlatform emptyTable okRun okHistory s :=
  ⟨_, rows_are_messages okPlatform acceptsAll emptyTable okRun _ okHistory rfl⟩

theorem ok_not_again : Everywhere NotAgain okHistory :=
  no_post_after_success okPlatform acceptsAll emptyTable okRun _ okHistory rfl

def okRow : Row := ⟨1, "novamex/ibarra", "ok", "OK", "2026-01-01 00:00:00", .pending, 0, none⟩

def okSync (row : Row) : Sync := ⟨⟨[row], List.pairwise_singleton _ _⟩, []⟩

/-- A row that waits for the restart. -/
theorem ok_recovers : posted [.post 1 okMutation, .answered 1 okMutation (.response 200 none)] = [okRow.post] := by
  have hround : CloudSync.Round acceptsAll (okSync okRow)
      [.post 1 okMutation, .answered 1 okMutation (.response 200 none)] (okSync { okRow with syncStatus := .synced }) :=
    ⟨[.respond 0 (.response 200 none)], by simp [CloudSync.Input.Continues], rfl, rfl⟩
  refine (restart_recovers okPlatform acceptsAll (fun _ _ _ => rfl) [.message okMessage none] (okSync okRow) _ [] _ 1 rfl
    (.succ hround (.zero _)) ?_).1
  intro id m result hmem _
  obtain ⟨-, -, rfl⟩ : id = 1 ∧ m = okMutation ∧ result = .response 200 none := by simpa using hmem
  decide

end IbarraGateway.EdgeWorker
