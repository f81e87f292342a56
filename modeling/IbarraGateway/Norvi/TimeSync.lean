import IbarraGateway.Norvi.Ledger

/-!
# Nothing is stamped before the first NTP date

The state machine is to connect, and to publish or spool events, only with a date of `time()` after 2024. The wait of
`STATE_SYNCING_TIME` ends on such a date or when the link is down, and what comes next is decided by a second look at the
link.

* `never_before_ntp_iff` : the order holds exactly when no wait that ended without a date is followed by a link that is up.
* `flapping_link_syncs` : a link that flaps between the two looks.
-/

namespace IbarraGateway.Norvi

/-! ## What is stated -/

/-- `time()` has returned a date after 2024 in a visit of `STATE_SYNCING_TIME`. -/
def DateSeen (h : List Effect) : Prop := ∃ now, .time now ∈ h ∧ year2025 ≤ now

/-- The effects that carry a date. -/
def Effect.Stamped : Effect → Prop
  | .publish _ _ _ => True
  | .append _ => True
  | _ => False

/-- The states and the flag that stand for a known date. -/
def Node.Dated (n : Node) : Prop :=
  n.currentState = .connectingMqtt ∨ n.currentState = .connected ∨ n.ntpSynced = true

/-- Effects that stand behind a date. -/
def StampedAfter (h out : List Effect) : Prop :=
  ∀ before e after, out = before ++ e :: after → e.Stamped → DateSeen (h ++ before)

structure NeverBeforeNtp (h : List Effect) (n : Node) : Prop where
  node : n.Dated → DateSeen h
  effects : StampedAfter [] h

/-- A wait that is left with the link up has ended on a date, or an earlier one has seen it. -/
def EndsOnDate (h : List Effect) (n : Node) (a : Answers) : Prop :=
  (checkWifi a n).currentState = .syncingTime → ntpLoop a.firstTime a.ntpPolls ≠ none → a.wifi = true →
    DateSeen h ∨ ∃ date ∈ a.firstTime :: ntpDates a.firstTime a.ntpPolls, year2025 ≤ date

/-! ## Dates -/

theorem dateSeen_append_iff {h out : List Effect} : DateSeen (h ++ out) ↔ DateSeen h ∨ DateSeen out := by
  constructor
  · rintro ⟨now, hnow, hyear⟩
    rcases List.mem_append.mp hnow with hnow | hnow
    · exact .inl ⟨now, hnow, hyear⟩
    · exact .inr ⟨now, hnow, hyear⟩
  · rintro (⟨now, hnow, hyear⟩ | ⟨now, hnow, hyear⟩)
    · exact ⟨now, List.mem_append_left out hnow, hyear⟩
    · exact ⟨now, List.mem_append_right h hnow, hyear⟩

theorem DateSeen.append {h : List Effect} (hd : DateSeen h) (out : List Effect) : DateSeen (h ++ out) :=
  dateSeen_append_iff.mpr (.inl hd)

theorem not_dateSeen {out : List Effect} (h : ∀ e ∈ out, ∀ now, e ≠ .time now) : ¬ DateSeen out := by
  rintro ⟨now, hnow, -⟩
  exact h _ hnow now rfl

/-- The dates of a visit. -/
theorem dateSeen_visit_iff {now : Int64} {polls : List (Bool × Int64)} {effects : List Effect}
    (h : ntpLoop now polls = some effects) :
    DateSeen (.time now :: effects) ↔ ∃ date ∈ now :: ntpDates now polls, year2025 ≤ date := by
  have hmem : ∀ date, Effect.time date ∈ .time now :: effects ↔ date ∈ now :: ntpDates now polls := by
    intro date
    rw [ntpLoop_eq h]
    simp
  constructor
  · rintro ⟨date, hdate, hyear⟩
    exact ⟨date, (hmem date).mp hdate, hyear⟩
  · rintro ⟨date, hdate, hyear⟩
    exact ⟨date, (hmem date).mpr hdate, hyear⟩

theorem stampedAfter_of_dateSeen {h : List Effect} (hd : DateSeen h) (out : List Effect) : StampedAfter h out :=
  fun before _ _ _ _ => hd.append before

theorem stampedAfter_of_quiet {out : List Effect} (hquiet : ∀ e ∈ out, ¬ e.Stamped) (h : List Effect) :
    StampedAfter h out := by
  intro before e after heq hstamped
  exact absurd hstamped (hquiet e (by simp [heq]))

theorem stampedAfter_append {h out out' : List Effect} (hout : StampedAfter h out) (hout' : StampedAfter (h ++ out) out') :
    StampedAfter h (out ++ out') := by
  intro before e after heq hstamped
  rcases List.append_eq_append_iff.mp heq with ⟨x, rfl, hx⟩ | ⟨x, rfl, hx⟩
  · have hd := hout' x e after hx hstamped
    rwa [List.append_assoc] at hd
  · rcases x with _ | ⟨e', x⟩
    · have hd := hout' [] e after hx.symm hstamped
      rwa [List.append_nil, List.append_nil] at hd
    · cases hx
      exact hout before e x rfl hstamped

/-! ## The parts of a pass -/

theorem checkWifi_dated {a : Answers} {n : Node} (h : (checkWifi a n).Dated) : n.Dated := by
  unfold checkWifi at h
  split at h
  · rcases h with h | h | h
    · cases h
    · cases h
    · exact .inr (.inr h)
  · exact h

/-- What the `switch` may do without a known date: nothing that needs one, or leave a visit with the link up. -/
structure Undated (a : Answers) (n m : Node) (out : List Effect) : Prop where
  quiet : ∀ e ∈ out, ¬ e.Stamped
  node : m.Dated → n.currentState = .syncingTime ∧ ntpLoop a.firstTime a.ntpPolls ≠ none ∧ a.wifi = true
  visit : n.currentState = .syncingTime →
    (DateSeen out ↔ ∃ date ∈ a.firstTime :: ntpDates a.firstTime a.ntpPolls, year2025 ≤ date)

theorem not_dated_of {n : Node} (state : ConnectionState) (hstate : n.currentState = state) (hsynced : n.ntpSynced = false)
    (hmqtt : state ≠ .connectingMqtt) (hconn : state ≠ .connected) : ¬ n.Dated := by
  rintro (h | h | h)
  · exact hmqtt (hstate.symm.trans h)
  · exact hconn (hstate.symm.trans h)
  · rw [hsynced] at h
    cases h

theorem syncVisit_undated {a : Answers} {n m : Node} {out : List Effect} (hstate : n.currentState = .syncingTime)
    (hsynced : n.ntpSynced = false) (h : SyncVisit a n m out) : Undated a n m out := by
  have hquiet : ∀ {effects}, ntpLoop a.firstTime a.ntpPolls = some effects →
      ∀ e ∈ Effect.time a.firstTime :: effects, ¬ e.Stamped := by
    intro effects hloop e he
    rw [ntpLoop_eq hloop] at he
    rcases List.mem_cons.mp he with rfl | he
    · exact id
    · obtain ⟨date, -, he⟩ := List.mem_flatMap.mp he
      rcases List.mem_pair.mp he with rfl | rfl
      · exact id
      · exact id
  cases h with
  | up hloop hwifi =>
    have hended : ntpLoop a.firstTime a.ntpPolls ≠ none := hloop ▸ Option.some_ne_none _
    exact ⟨hquiet hloop, fun _ => ⟨hstate, hended, hwifi⟩, fun _ => dateSeen_visit_iff hloop⟩
  | down hloop =>
    refine ⟨hquiet hloop, fun hm => ?_, fun _ => dateSeen_visit_iff hloop⟩
    exact absurd hm (not_dated_of .disconnected rfl hsynced nofun nofun)

theorem switchState_undated {a : Answers} {n m : Node} {out : List Effect} (hn : ¬ n.Dated)
    (h : switchState a n = some (m, out)) : Undated a n m out := by
  have hsynced : n.ntpSynced = false := by
    apply Bool.eq_false_iff.mpr
    intro hsynced
    exact hn (.inr (.inr hsynced))
  cases switchState_inv h with
  | connectingMqtt hstate => exact absurd (.inl hstate) hn
  | connected hstate => exact absurd (.inr (.inl hstate)) hn
  | syncingTime hstate hvisit => exact syncVisit_undated hstate hsynced hvisit
  | disconnected hstate =>
    refine ⟨nofun, fun hm => ?_, fun hs => absurd (hstate.symm.trans hs) nofun⟩
    unfold disconnected at hm
    split at hm
    · exact absurd hm (not_dated_of .connectingWifi rfl hsynced nofun nofun)
    · exact absurd hm hn
  | connectingWifi hstate =>
    refine ⟨nofun, fun hm => ?_, fun hs => absurd (hstate.symm.trans hs) nofun⟩
    unfold connectingWifi at hm
    split at hm
    · exact absurd hm (not_dated_of .syncingTime rfl hsynced nofun nofun)
    · split at hm
      · exact absurd hm (not_dated_of .disconnected rfl hsynced nofun nofun)
      · exact absurd hm hn

/-- Spooling changes neither the state nor the flag, and needs the flag. -/
theorem spoolOffline_dated (a : Answers) (n : Node) :
    ((spoolOffline a n).1.Dated ↔ n.Dated) ∧ (n.ntpSynced = false → ∀ e ∈ (spoolOffline a n).2, ¬ e.Stamped) ∧
      ¬ DateSeen (spoolOffline a n).2 := by
  unfold spoolOffline
  split
  · exact ⟨Iff.rfl, fun _ => nofun, not_dateSeen nofun⟩
  · split
    · exact ⟨Iff.rfl, fun _ => nofun, not_dateSeen nofun⟩
    · split
      · rename_i hsynced
        refine ⟨Iff.rfl, fun hnot => ?_, not_dateSeen (by simp)⟩
        rw [hnot] at hsynced
        cases hsynced.1
      · exact ⟨Iff.rfl, fun _ => by simp [Effect.Stamped], not_dateSeen (by simp)⟩

/-! ## Runs -/

theorem dateSeen_pass_iff {switched spooled : List Effect} (hspooled : ¬ DateSeen spooled) :
    DateSeen (.wdtReset :: switched ++ spooled ++ [.delay 100]) ↔ DateSeen switched := by
  have hreset : ¬ DateSeen [.wdtReset] := not_dateSeen (by simp)
  have hdelay : ¬ DateSeen [.delay 100] := not_dateSeen (by simp)
  rw [dateSeen_append_iff, dateSeen_append_iff, ← List.singleton_append, dateSeen_append_iff]
  tauto

theorem NeverBeforeNtp.pass {h out : List Effect} {n n' : Node} {a : Answers} (hn : NeverBeforeNtp h n)
    (hends : EndsOnDate h n a) (hpass : pass n a = some (n', out)) : NeverBeforeNtp (h ++ out) n' := by
  by_cases hdated : DateSeen h
  · exact ⟨fun _ => hdated.append out, stampedAfter_append hn.effects (stampedAfter_of_dateSeen hdated out)⟩
  obtain ⟨m, switched, hswitch, rfl, rfl⟩ := pass_cases hpass
  have hu := switchState_undated (fun hd => hdated (hn.node (checkWifi_dated hd))) hswitch
  obtain ⟨hspool, hquiet, hnone⟩ := spoolOffline_dated a m
  have hseen : m.Dated → DateSeen switched := by
    intro hm
    obtain ⟨hsyncing, hended, hup⟩ := hu.node hm
    exact (hu.visit hsyncing).mpr ((hends hsyncing hended hup).resolve_left hdated)
  have hswitched : StampedAfter h (.wdtReset :: switched) :=
    stampedAfter_of_quiet (List.forall_mem_cons.mpr ⟨id, hu.quiet⟩) h
  have hspooled : StampedAfter (h ++ .wdtReset :: switched) (spoolOffline a m).2 := by
    by_cases hsynced : m.ntpSynced = true
    · apply stampedAfter_of_dateSeen
      rw [← List.singleton_append, ← List.append_assoc]
      exact dateSeen_append_iff.mpr (.inr (hseen (.inr (.inr hsynced))))
    · exact stampedAfter_of_quiet (hquiet (Bool.eq_false_iff.mpr hsynced)) _
  refine ⟨fun hd => ?_, stampedAfter_append hn.effects ?_⟩
  · exact dateSeen_append_iff.mpr (.inr ((dateSeen_pass_iff hnone).mpr (hseen (hspool.mp hd))))
  · rw [List.nil_append]
    exact stampedAfter_append (stampedAfter_append hswitched hspooled) (stampedAfter_of_quiet (by simp [Effect.Stamped]) _)

/-- A visit that is left with the link up, its date known or not. -/
theorem dated_of_up {a : Answers} {n n' : Node} {out : List Effect} (hsyncing : (checkWifi a n).currentState = .syncingTime)
    (hup : a.wifi = true) (hpass : pass n a = some (n', out)) :
    n'.Dated ∧ (DateSeen out ↔ ∃ date ∈ a.firstTime :: ntpDates a.firstTime a.ntpPolls, year2025 ≤ date) := by
  obtain ⟨m, switched, hswitch, rfl, rfl⟩ := pass_cases hpass
  obtain ⟨hspool, -, hnone⟩ := spoolOffline_dated a m
  rw [dateSeen_pass_iff hnone, hspool]
  cases visit_of_switchState hsyncing hswitch with
  | up hloop => exact ⟨.inr (.inr rfl), dateSeen_visit_iff hloop⟩
  | down _ hwifi =>
    rw [hup] at hwifi
    cases hwifi

theorem NeverBeforeNtp.isr {h : List Effect} {n : Node} (hn : NeverBeforeNtp h n) (currentTime : Int64) :
    NeverBeforeNtp h (inputISR n currentTime) := by
  refine ⟨fun hd => hn.node ?_, hn.effects⟩
  unfold Node.Dated at hd ⊢
  rwa [inputISR_currentState, inputISR_ntpSynced] at hd

theorem NeverBeforeNtp.boot (spool : Option (List UInt8)) : NeverBeforeNtp [] (Node.boot spool) :=
  ⟨fun hd => absurd hd (not_dated_of .disconnected rfl rfl nofun nofun),
    stampedAfter_of_quiet (fun _ he => absurd he List.not_mem_nil) []⟩

/-- **Order**: in every run, the states, the flag and the effects that need a date come behind one, exactly when every wait
that is left with the link up has ended on a date or comes behind one. -/
theorem never_before_ntp_iff (spool : Option (List UInt8)) (inputs : List Input) :
    (∀ before after n h, inputs = before ++ after → networking.run (Node.boot spool) before = some (n, h) →
        NeverBeforeNtp h n) ↔
      ∀ before a after n h, inputs = before ++ .pass a :: after → networking.run (Node.boot spool) before = some (n, h) →
        EndsOnDate h n a := by
  constructor
  · intro hnever before a after n h heq hrun hsyncing hended hup
    have hpass : ∃ n' out, pass n a = some (n', out) := by
      obtain ⟨effects, hloop⟩ := Option.ne_none_iff_exists'.mp hended
      unfold Norvi.pass switchState
      rw [hsyncing]
      dsimp only
      unfold syncingTime
      rw [hloop]
      dsimp only
      rw [if_pos hup]
      exact ⟨_, _, rfl⟩
    obtain ⟨n', out, hpass⟩ := hpass
    have hrun' : networking.run (Node.boot spool) (before ++ [.pass a]) = some (n', h ++ out) := by
      rw [Machine.run_append_iff]
      refine ⟨n, h, out, hrun, ?_, rfl⟩
      rw [Machine.run_cons_iff]
      exact ⟨n', out, [], hpass, rfl, (List.append_nil out).symm⟩
    obtain ⟨hdated, hout⟩ := dated_of_up hsyncing hup hpass
    rw [← hout, ← dateSeen_append_iff]
    exact (hnever (before ++ [.pass a]) after n' (h ++ out) (by simp [heq]) hrun').node hdated
  · intro hends before after n h heq hrun
    have hinv : before <+: inputs → NeverBeforeNtp h n := by
      apply networking.run_snoc_induction (I := fun as h n => as <+: inputs → NeverBeforeNtp h n)
        (fun _ => NeverBeforeNtp.boot spool) ?_ (networking.along_true _ before) hrun
      intro as h n input n' out hrun' hn _ hstep hprefix
      obtain ⟨rest, hrest⟩ := hprefix
      have hsplit : inputs = as ++ input :: rest := by rw [← hrest, List.append_assoc, List.singleton_append]
      have has := hn ⟨input :: rest, hsplit.symm⟩
      cases input with
      | isr currentTime =>
        cases hstep
        rw [List.append_nil]
        exact has.isr currentTime
      | pass a => exact has.pass (hends as a rest n h hsplit hrun') hstep
    exact hinv ⟨after, heq.symm⟩

/-- The link is found down in the wait, and up behind it. -/
def flapping : Answers := { allWell with firstTime := 0, ntpPolls := [(false, 0)], now := 5 }

/-- Synchronised in 1970, and the greeting says so. -/
theorem flapping_link_syncs :
    ∃ n h, networking.run (Node.boot none) [.pass flapping, .pass flapping, .pass flapping, .pass flapping] = some (n, h) ∧
      n.ntpSynced = true ∧ .publish .status ⟨0, 5⟩ true ∈ h ∧ ¬ NeverBeforeNtp h n := by
  have hrun : (networking.run (Node.boot none) [.pass flapping, .pass flapping, .pass flapping, .pass flapping]).map
      (fun r => (r.1.ntpSynced, r.2)) =
      some (true, [.wdtReset, .delay 100, .wdtReset, .delay 100, .wdtReset, .time 0, .delay 100, .wdtReset,
        .publish .status ⟨0, 5⟩ true, .delay 100]) := by decide +kernel
  obtain ⟨⟨n, h⟩, hrun, hout⟩ := Option.map_eq_some_iff.mp hrun
  obtain ⟨hsynced, rfl⟩ := Prod.mk.inj hout
  refine ⟨n, _, hrun, hsynced, by simp, fun hnever => ?_⟩
  obtain ⟨date, hdate, hyear⟩ := hnever.node (.inr (.inr hsynced))
  have hzero : date = 0 := by simpa using hdate
  rw [hzero] at hyear
  exact absurd hyear (by decide)

end IbarraGateway.Norvi
