import IbarraGateway.GatewayTranslator.Conservation

/-!
# Shutdown

The final flush drains the buffer while the MQTT thread still runs; `worker.stop()` comes after the POST. What arrives in
between stays in the buffer, and nothing reports it: `shutdown_iff`.
-/

namespace IbarraGateway.GatewayTranslator

open BoundedFifo HasuraClient

/-- From the drain of the final flush on. -/
def Phase.flushed : Phase → Bool
  | inserting _ _ final => final
  | stopping => true
  | stopped => true
  | _ => false

/-- Every entry that arrived was inserted, was in the batch that the final flush reported as lost, or was dropped and
counted. -/
structure Settled (h : List Event) (g : Gateway) : Prop where
  accounted : (h.flatMap Event.arrivals).Perm (h.flatMap Event.confirms ++ h.flatMap Event.drops ++
    h.flatMap Event.losses)
  counted : g.droppedCount = (h.flatMap Event.drops).length

/-- No entry arrives after the drain of the final flush, and no reply ends the process. -/
def Quiet (g : Gateway) : Input → Prop
  | .arrive _ => g.phase.flushed = false
  | .attempt reply => ¬ BadReply reply
  | _ => True

theorem Tally.settled_iff {h : List Event} {g : Gateway} (ht : Tally h g) (hexit : g.phase.exited = true) :
    Settled h g ↔ h.flatMap Event.raises = [] ∧ g.buffer = [] := by
  have hperm := ht.perm
  have hnone : g.phase.inFlight = [] := by
    cases hphase : g.phase <;> rw [hphase] at hexit <;> first | rfl | cases hexit
  rw [hnone, List.append_nil] at hperm
  constructor
  · intro hs
    have hlen := (hs.accounted.symm.trans hperm).length_eq
    simp only [List.length_append] at hlen
    exact ⟨List.eq_nil_of_length_eq_zero (by omega), List.eq_nil_of_length_eq_zero (by omega)⟩
  · rintro ⟨hraises, hbuffer⟩
    rw [hraises, hbuffer, List.append_nil, List.nil_append] at hperm
    exact ⟨hperm, ht.dropped⟩

/-- A step keeps the buffer empty behind the final flush exactly when it is quiet. -/
theorem Moves.quiet_iff {g g' : Gateway} {x : Input} {out : List Event} (hmove : Moves g x g' out)
    (hheld : ∀ batch attempt final, g.phase = .inserting batch attempt final → batch ≠ []) :
    ((g.phase.flushed = true → g.buffer = []) ∧ Quiet g x) ↔
      out.flatMap Event.raises = [] ∧ (g'.phase.flushed = true → g'.buffer = []) := by
  have hraises := hmove.raises_iff hheld
  have hattempt {reply : Reply} (hx : x = .attempt reply) : Quiet g x ↔ out.flatMap Event.raises = [] := by
    rw [← not_iff_not, ← ne_eq (out.flatMap _), hraises, hx]
    simp [Quiet]
  cases hmove with
  | arrive data =>
    have hne := push_ne_nil g.cap g.buffer (⟨g.arrived, data⟩ : Arrival)
    simp only [Quiet]
    cases g.phase.flushed <;> simp [hne]
  | requeue entry rest hphase => simp [Quiet, hphase, Phase.flushed]
  | signal => simp [Quiet]
  | sleep hphase => simp [Quiet, hphase, Phase.flushed]
  | finalEmpty hphase hdown hnone => simp [Quiet, hnone]
  | finalDrain hphase => simp [Quiet, hphase, Phase.flushed]
  | drainEmpty hphase => simp [Quiet, hphase, Phase.flushed]
  | drain hphase => simp [Quiet, hphase, Phase.flushed]
  | requeued hphase => simp [Quiet, hphase, Phase.flushed]
  | stop hphase => simp [Quiet, hphase, Phase.flushed]
  | accepted batch attempt final hphase =>
    rw [hattempt rfl]
    cases final <;> simp [hphase, Phase.flushed]
  | retry batch attempt final hphase =>
    rw [hattempt rfl]
    simp [hphase, Phase.flushed]
  | failed batch attempt hphase =>
    rw [hattempt rfl]
    simp [hphase, Phase.flushed]
  | lost batch attempt hphase =>
    rw [hattempt rfl]
    simp [hphase, Phase.flushed]
  | raised batch attempt final hphase hbad =>
    have hne := hraises.mpr ⟨_, rfl, hbad⟩
    exact iff_of_false (fun hquiet => hquiet.2 hbad) (fun hnone => hne hnone.1)

theorem run_quiet_iff {maxBuffer : Int} {inputs : List Input} {g : Gateway} {h : List Event}
    (hrun : gateway.run (.start maxBuffer) inputs = some (g, h)) :
    gateway.Along Quiet (.start maxBuffer) inputs ↔
      h.flatMap Event.raises = [] ∧ (g.phase.flushed = true → g.buffer = []) := by
  refine gateway.run_snoc_induction
    (I := fun inputs h g => gateway.Along Quiet (.start maxBuffer) inputs ↔
      h.flatMap Event.raises = [] ∧ (g.phase.flushed = true → g.buffer = []))
    (iff_of_true trivial ⟨rfl, fun _ => rfl⟩) ?_ (gateway.along_true _ _) hrun
  intro before h g x g' out hbefore ih _ hstep
  have hmove := step_moves hstep
  have ht := run_tally hbefore
  have hnone : h.flatMap Event.raises = [] := by
    by_contra hne
    have hlive := hmove.not_exited
    rw [ht.raised.mp hne] at hlive
    cases hlive
  rw [gateway.along_snoc_iff hbefore, ih, List.flatMap_append, hnone, List.nil_append, ← hmove.quiet_iff ht.held]
  simp

/-- **Shutdown.** When the process exits, nothing is missing exactly when no entry came after the drain of the final
flush, and no reply ended the process. -/
theorem shutdown_iff (maxBuffer : Int) (inputs : List Input) (g : Gateway) (h : List Event)
    (hrun : gateway.run (.start maxBuffer) inputs = some (g, h)) (hexit : g.phase.exited = true) :
    Settled h g ↔ gateway.Along Quiet (.start maxBuffer) inputs := by
  rw [(run_tally hrun).settled_iff hexit, run_quiet_iff hrun]
  cases hphase : g.phase with
  | stopped => simp [Phase.flushed]
  | crashed =>
    have hne := (run_tally hrun).raised.mpr hphase
    exact iff_of_false (fun hs => hne hs.1) (fun hs => hne hs.1)
  | _ =>
    rw [hphase] at hexit
    cases hexit

/-- One entry, which the final flush inserts. -/
def flushOne : List Input :=
  [.arrive sampleEntry, .signal, .advance, .attempt (.response 200 (.json (.obj []))), .advance]

theorem shutdown_flushOne : ∃ g h,
    gateway.run (.start 1000) flushOne = some (g, h) ∧ g.phase = .stopped ∧ Settled h g := by
  refine ⟨_, _, rfl, rfl, (shutdown_iff 1000 flushOne _ _ rfl rfl).mpr ?_⟩
  exact (run_quiet_iff rfl).mpr ⟨rfl, fun _ => rfl⟩

/-- An entry that arrives while `main` logs the final flush. -/
theorem entry_left_behind :
    ¬ ∀ maxBuffer inputs g h, gateway.run (.start maxBuffer) inputs = some (g, h) → g.phase.exited = true →
      Settled h g := by
  intro hall
  have hs := hall 1000 [.signal, .advance, .arrive sampleEntry, .advance] _ _ rfl rfl
  have hlen := hs.accounted.length_eq
  revert hlen
  decide

end IbarraGateway.GatewayTranslator
