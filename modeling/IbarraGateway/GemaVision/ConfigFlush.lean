import IbarraGateway.GemaVision.CalibrationFile

/-!
# The configuration in memory and on disk

`ConfigManager` after `start`: calls of `apply_json` by one writer, a `stop` at any moment between them, and `flush_loop`,
atomic step by atomic step. Every access of the file succeeds. `stop` is called any number of times, the destructor's among them;
with the thread gone it takes back the flag of an update and flushes nothing.

* `FlushStep.Carries` : a flush on its way that will leave the configuration in memory on disk.
* `State.Ended` : what is left to do once the thread was told to end.
* `file_follows_ram` : where nothing is on its way, the file is the configuration in memory, if no `stop` took back an update.
-/

namespace IbarraGateway.GemaVision.ConfigFlush

/-- Where a thread is in `flush_to_disk`. -/
inductive FlushStep
  | preparing
  | opening
  | serializing
  | writing (text : Text)
  | replacing
  | syncing
  deriving DecidableEq, Repr

/-- Where the writer is in `apply_json` or `stop`. -/
inductive Writer
  | idle
  | storing (new : ConfigState)
  | scheduling
  | notifying
  | clearing
  | halting
  | waking
  | joining
  | flushing (step : FlushStep)
  deriving DecidableEq

/-- Where the thread is in `flush_loop`; it holds the lock in `woken` and `deciding`. -/
inductive Flusher
  | testing
  | waiting
  | woken
  | deciding
  | flushing (step : FlushStep)
  | returned
  deriving DecidableEq

structure State where
  disk : Option Text
  tmp : Option Text := none
  config : ConfigState
  flushRunning : Bool
  flushPending : Bool
  flusher : Flusher := .testing
  writer : Writer := .idle
  deriving DecidableEq

inductive Input
  | applyJson (jsonStr : Text)
  | stop
  /-- The next step of the call. -/
  | writer
  | flusher
  deriving DecidableEq

/-- `applied` : the pointer was swapped; `stopped` : `stop` returns. -/
inductive Event
  | applied (config : ConfigState)
  | stopped
  deriving DecidableEq

/-- The manager when `start` returns. -/
def State.started (disk : Option Text) : State where
  disk := disk
  config := loadFile {} disk
  flushRunning := true
  flushPending := disk.isSome

namespace State
variable (s : State)

/-- One step of `flush_to_disk`, and the next one. -/
def flushStep : FlushStep → State × Option FlushStep
  | .preparing => (s, some .opening)
  | .opening => ({ s with tmp := some [] }, some .serializing)
  | .serializing => (s, some (.writing (serialize s.config)))
  | .writing text => ({ s with tmp := some text }, some .replacing)
  | .replacing => ({ s with disk := s.tmp.or s.disk, tmp := none }, some .syncing)
  | .syncing => (s, none)

def flusherStep : Option State :=
  match s.flusher with
  | .testing => some { s with flusher := if s.flushRunning then .waiting else .returned }
  | .waiting => some { s with flusher := .woken }
  | .woken => some { s with flusher := if s.flushRunning then .deciding else .returned }
  | .deciding =>
    if s.flushPending then some { s with flushPending := false, flusher := .flushing .preparing }
    else some { s with flusher := .testing }
  | .flushing step =>
    match s.flushStep step with
    | (t, some next) => some { t with flusher := .flushing next }
    | (t, none) => some { t with flusher := .testing }
  | .returned => none

/-- `flush_mtx_` is not held by the thread. -/
def lockFree : Bool :=
  match s.flusher with
  | .woken | .deciding => false
  | _ => true

def writerStep : Option (State × List Event) :=
  match s.writer with
  | .idle => none
  | .storing new => some ({ s with config := new, writer := .scheduling }, [.applied new])
  | .scheduling => if s.lockFree then some ({ s with flushPending := true, writer := .notifying }, []) else none
  | .notifying => some ({ s with writer := .idle }, [])
  | .clearing => if s.lockFree then some ({ s with flushPending := false, writer := .halting }, []) else none
  | .halting =>
    if s.flushRunning then some ({ s with flushRunning := false, writer := .waking }, [])
    -- The thread was stopped before: the flag is gone, and there is no last flush.
    else some ({ s with writer := .idle }, [.stopped])
  | .waking => some ({ s with writer := .joining }, [])
  | .joining => if s.flusher = .returned then some ({ s with writer := .flushing .preparing }, []) else none
  | .flushing step =>
    match s.flushStep step with
    | (t, some next) => some ({ t with writer := .flushing next }, [])
    | (t, none) => some ({ t with writer := .idle }, [.stopped])

end State

def manager : Machine State Input Event where
  step s
    | .applyJson jsonStr =>
      if s.writer = .idle then some ({ s with writer := .storing (applyJson s.config jsonStr) }, []) else none
    | .stop => if s.writer = .idle then some ({ s with writer := .clearing }, []) else none
    | .writer => s.writerStep
    | .flusher => s.flusherStep.map fun t => (t, [])

/-- What the manager starts with is what `start` leaves of a new one. -/
theorem started_eq (disk : Option Text) :
    GemaVision.manager.step (.fresh disk) .start =
      some ({ disk := (State.started disk).disk, config := (State.started disk).config, configPath := true,
              flushRunning := (State.started disk).flushRunning, flushPending := (State.started disk).flushPending }, []) := rfl

/-! ## What is on its way -/

/-- This flush will leave the configuration in memory on disk, if that stays what it is. -/
def FlushStep.Carries (s : State) : FlushStep → Prop
  | .preparing | .opening | .serializing => True
  | .writing text => text = serialize s.config
  | .replacing => s.tmp = some (serialize s.config)
  | .syncing => False

namespace State
variable (s : State)

/-- `apply_json` has not returned. -/
def Applying : Prop := (∃ new, s.writer = .storing new) ∨ s.writer = .scheduling ∨ s.writer = .notifying

/-- A flush is to come: that of the thread, or the last one of the first `stop`, which has taken the flag back for it. -/
def FlushDue : Prop :=
  s.flushPending = true ∨ s.writer = .halting ∧ s.flushRunning = true ∨ s.writer = .waking ∨ s.writer = .joining

def Flushing : Prop := ∃ step, s.flusher = .flushing step ∨ s.writer = .flushing step

/-- A flush is to come, or the writer is about to ask for one. -/
def Behind : Prop := s.FlushDue ∨ s.writer = .scheduling

/-- The file is the configuration in memory. -/
def OnDisk : Prop := s.disk = some (serialize s.config)

instance : Decidable s.OnDisk := inferInstanceAs (Decidable (s.disk = some (serialize s.config)))

/-- With the flag of the thread down, either `stop` is on its way to its last flush, or the file misses at most what was applied
since. -/
def Ended : Prop :=
  s.writer = .waking ∨ s.writer = .joining ∨ (∃ step, s.writer = .flushing step) ∨
    s.flusher = .returned ∧ (s.OnDisk ∨ s.writer = .scheduling ∨
      s.flushPending = true ∧ s.writer ≠ .clearing ∧ s.writer ≠ .halting)

end State

/-- No `stop` once the thread was stopped, with an update pending that the file does not have. -/
def Unpending (s : State) : Input → Prop
  | .stop => s.flushRunning = true ∨ s.flushPending = false ∨ s.OnDisk
  | _ => True

instance (s : State) (a : Input) : Decidable (Unpending s a) := by unfold Unpending; split <;> infer_instance

/-- The configuration that was applied last, or the one `start` has loaded. -/
def lastApplied (disk : Option Text) (h : List Event) : ConfigState :=
  h.foldl (fun c e => match e with
    | .applied c' => c'
    | .stopped => c) (loadFile {} disk)

/-- There was an `apply_json`, be it that of `start`. -/
def Applied (disk : Option Text) (h : List Event) : Prop := disk.isSome = true ∨ ∃ c, .applied c ∈ h

/-! ## One step of a flush -/

structure SameButFiles (s t : State) : Prop where
  config : t.config = s.config
  flushRunning : t.flushRunning = s.flushRunning
  flushPending : t.flushPending = s.flushPending
  flusher : t.flusher = s.flusher
  writer : t.writer = s.writer

theorem same_flushStep (s : State) (step : FlushStep) : SameButFiles s (s.flushStep step).1 := by
  cases step <;> exact ⟨rfl, rfl, rfl, rfl, rfl⟩

/-- A flush that carries the configuration goes on to do so, until it is on disk. -/
theorem carries_flushStep {s : State} {step : FlushStep} (h : step.Carries s) :
    (∃ next, (s.flushStep step).2 = some next ∧ next.Carries (s.flushStep step).1) ∨
      (s.flushStep step).2 = some .syncing ∧ (s.flushStep step).1.OnDisk := by
  cases step with
  | preparing => exact Or.inl ⟨.opening, rfl, trivial⟩
  | opening => exact Or.inl ⟨.serializing, rfl, trivial⟩
  | serializing => exact Or.inl ⟨.writing (serialize s.config), rfl, rfl⟩
  | writing text => exact Or.inl ⟨.replacing, rfl, congrArg some h⟩
  | replacing =>
    refine Or.inr ⟨rfl, ?_⟩
    show s.tmp.or s.disk = some (serialize s.config)
    rw [show s.tmp = some (serialize s.config) from h]
    rfl
  | syncing => exact h.elim

theorem flushStep_syncing (s : State) : s.flushStep .syncing = (s, none) := rfl

/-! ## Every step -/

/-- The call has not touched the configuration, and owes no flush that was not due before it. -/
def Writer.Early : Writer → Prop
  | .idle | .storing _ | .clearing | .halting => True
  | _ => False

structure Follows (disk : Option Text) (h : List Event) (s : State) : Prop where
  config : s.config = lastApplied disk h
  /-- A flush of the thread that has read an older configuration is not the last one. -/
  stale : ∀ step, s.flusher = .flushing step → step.Carries s ∨ step = .syncing ∨ s.Behind
  last : ∀ step, s.writer = .flushing step → (step.Carries s ∨ step = .syncing ∧ s.OnDisk) ∧ s.flusher = .returned
  file : Applied disk h → s.Behind ∨ (∃ step, s.flusher = .flushing step ∧ step.Carries s) ∨
    (∃ step, s.writer = .flushing step) ∨ s.OnDisk
  returned : s.flusher = .returned → s.flushRunning = false
  ended : s.flushRunning = false → s.Ended
  stopped : h.getLast? = some .stopped → s.OnDisk ∧ s.flusher = .returned ∧ s.writer.Early

theorem follows_started (disk : Option Text) : Follows disk [] (.started disk) where
  config := rfl
  stale := nofun
  last := nofun
  file := by
    rintro (hdisk | ⟨c, hc⟩)
    · exact Or.inl (Or.inl (Or.inl hdisk))
    · exact absurd hc List.not_mem_nil
  returned := nofun
  ended := nofun
  stopped := nofun

theorem lastApplied_applied (disk : Option Text) (h : List Event) (c : ConfigState) : lastApplied disk (h ++ [.applied c]) = c := by
  simp [lastApplied]

theorem lastApplied_stopped (disk : Option Text) (h : List Event) : lastApplied disk (h ++ [.stopped]) = lastApplied disk h := by
  simp [lastApplied]

namespace Follows
variable {disk : Option Text} {h : List Event} {s t : State}

/-- Where the writer owes no flush, the flag alone says that one is to come. -/
theorem behind_of_quiet (hfrom : s.writer = .idle ∨ s.writer = .notifying) (writer : Writer) (hb : s.Behind) :
    { s with writer := writer }.Behind := by
  rcases hb with (hpending | hw) | hw
  · exact Or.inl (Or.inl hpending)
  · rcases hfrom with hfrom | hfrom <;> rw [hfrom] at hw <;> exact absurd hw (by simp)
  · rcases hfrom with hfrom | hfrom <;> rw [hfrom] at hw <;> exact nomatch hw

/-- Away from its last flush, the writer of a manager that was stopped finds the thread gone. -/
theorem missing (hs : Follows disk h s) (hrunning : s.flushRunning = false) (hwaking : s.writer ≠ .waking)
    (hjoining : s.writer ≠ .joining) (hflushing : ∀ step, s.writer ≠ .flushing step) :
    s.flusher = .returned ∧ (s.OnDisk ∨ s.writer = .scheduling ∨
      s.flushPending = true ∧ s.writer ≠ .clearing ∧ s.writer ≠ .halting) := by
  rcases hs.ended hrunning with hw | hw | ⟨step, hw⟩ | hmissing
  · exact absurd hw hwaking
  · exact absurd hw hjoining
  · exact absurd hw (hflushing step)
  · exact hmissing

/-- A call begins, or the last step of `apply_json` is done. -/
theorem call (hs : Follows disk h s) (hfrom : s.writer = .idle ∨ s.writer = .notifying) {writer : Writer}
    (hwriter : writer = .idle ∨ (∃ new, writer = .storing new) ∨ writer = .clearing ∧ Unpending s .stop) :
    Follows disk h { s with writer := writer } := by
  have hbehind := behind_of_quiet hfrom writer
  refine ⟨hs.config, ?_, ?_, ?_, hs.returned, fun hrunning => ?_, fun hlast => ?_⟩
  · intro step hstep
    exact (hs.stale step hstep).imp id (Or.imp_right hbehind)
  · intro step hstep
    rcases hwriter with rfl | ⟨new, rfl⟩ | ⟨rfl, -⟩ <;> exact nomatch hstep
  · intro ha
    rcases hs.file ha with hb | hc | ⟨step, hstep⟩ | hd
    · exact Or.inl (hbehind hb)
    · exact Or.inr (Or.inl hc)
    · rcases hfrom with hfrom | hfrom <;> rw [hfrom] at hstep <;> exact nomatch hstep
    · exact Or.inr (Or.inr (Or.inr hd))
  · obtain ⟨hreturned, hmissing⟩ := hs.missing hrunning (by rcases hfrom with hw | hw <;> rw [hw] <;> nofun)
      (by rcases hfrom with hw | hw <;> rw [hw] <;> nofun) (by rcases hfrom with hw | hw <;> rw [hw] <;> nofun)
    refine Or.inr (Or.inr (Or.inr ⟨hreturned, ?_⟩))
    rcases hmissing with hd | hw | ⟨hpending, -⟩
    · exact Or.inl hd
    · rcases hfrom with hfrom | hfrom <;> rw [hfrom] at hw <;> exact nomatch hw
    · rcases hwriter with rfl | ⟨new, rfl⟩ | ⟨rfl, hup | hclear | hd⟩
      · exact Or.inr (Or.inr ⟨hpending, nofun, nofun⟩)
      · exact Or.inr (Or.inr ⟨hpending, nofun, nofun⟩)
      · exact absurd (hup.symm.trans hrunning) nofun
      · exact absurd (hclear.symm.trans hpending) nofun
      · exact Or.inl hd
  · obtain ⟨hd, hreturned, -⟩ := hs.stopped hlast
    refine ⟨hd, hreturned, ?_⟩
    rcases hwriter with rfl | ⟨new, rfl⟩ | ⟨rfl, -⟩ <;> exact trivial

/-- The writer goes on, with a flush still to come, and says nothing. -/
theorem behind (hs : Follows disk h s) {config : ConfigState} {running pending : Bool} {writer : Writer} {out : List Event}
    (hout : out = [] ∧ config = s.config ∨ out = [.applied config])
    (hbehind : { s with config := config, flushRunning := running, flushPending := pending, writer := writer }.Behind)
    (hflush : ∀ step, writer ≠ .flushing step) (hrunning : running = true → s.flushRunning = true)
    (hended : running = false →
      { s with config := config, flushRunning := running, flushPending := pending, writer := writer }.Ended)
    (hlater : out = [] → h.getLast? ≠ some .stopped) :
    Follows disk (h ++ out) { s with config := config, flushRunning := running, flushPending := pending, writer := writer } := by
  refine ⟨?_, fun step _ => Or.inr (Or.inr hbehind), fun step hstep => absurd hstep (hflush step), fun _ => Or.inl hbehind, ?_,
    hended, ?_⟩
  · rcases hout with ⟨rfl, rfl⟩ | rfl
    · rw [List.append_nil]
      exact hs.config
    · exact (lastApplied_applied disk h config).symm
  · intro hreturned
    have hstopped := hs.returned hreturned
    by_contra hrun
    rw [hrunning ((Bool.not_eq_false _).mp hrun)] at hstopped
    exact nomatch hstopped
  · intro hlast
    rcases hout with ⟨rfl, rfl⟩ | rfl
    · rw [List.append_nil] at hlast
      exact absurd hlast (hlater rfl)
    · rw [List.getLast?_concat] at hlast
      exact nomatch hlast

theorem not_stopped (hs : Follows disk h s) (hw : ¬s.writer.Early) : h.getLast? ≠ some .stopped :=
  fun hlast => hw (hs.stopped hlast).2.2

/-- The writer goes on in a `stop` that finds the thread gone: no flush is to come, and none is missing. -/
theorem again (hs : Follows disk h s) (hrunning : s.flushRunning = false) (hfrom : s.writer = .clearing ∨ s.writer = .halting)
    {pending : Bool} {writer : Writer} {out : List Event}
    (hto : out = [] ∧ writer = .halting ∨ out = [.stopped] ∧ writer = .idle) :
    Follows disk (h ++ out) { s with flushPending := pending, writer := writer } := by
  obtain ⟨hreturned, hmissing⟩ := hs.missing hrunning (by rcases hfrom with hw | hw <;> rw [hw] <;> nofun)
    (by rcases hfrom with hw | hw <;> rw [hw] <;> nofun) (by rcases hfrom with hw | hw <;> rw [hw] <;> nofun)
  have hd : s.OnDisk := by
    rcases hmissing with hd | hw | ⟨-, hclearing, hhalting⟩
    · exact hd
    · rcases hfrom with hfrom | hfrom <;> rw [hfrom] at hw <;> exact nomatch hw
    · exact absurd hfrom (not_or.mpr ⟨hclearing, hhalting⟩)
  refine ⟨?_, fun step hf => ?_, fun step hw => ?_, fun _ => Or.inr (Or.inr (Or.inr hd)), hs.returned,
    fun _ => Or.inr (Or.inr (Or.inr ⟨hreturned, Or.inl hd⟩)), fun _ => ⟨hd, hreturned, ?_⟩⟩
  · rcases hto with ⟨rfl, -⟩ | ⟨rfl, -⟩
    · rw [List.append_nil]
      exact hs.config
    · exact hs.config.trans (lastApplied_stopped disk h).symm
  · rw [show s.flusher = .flushing step from hf] at hreturned
    exact nomatch hreturned
  · rcases hto with ⟨-, rfl⟩ | ⟨-, rfl⟩ <;> exact nomatch hw
  · rcases hto with ⟨-, rfl⟩ | ⟨-, rfl⟩ <;> exact trivial

/-- In `apply_json`, on a manager that was stopped. -/
theorem returned_of_applying (hs : Follows disk h s) (hrunning : s.flushRunning = false)
    (hw : (∃ new, s.writer = .storing new) ∨ s.writer = .scheduling) : s.flusher = .returned := by
  apply (hs.missing hrunning ?_ ?_ ?_).1 <;> rcases hw with ⟨new, hw⟩ | hw <;> rw [hw] <;> nofun

theorem writerStep (hs : Follows disk h s) {out : List Event} (hstep : s.writerStep = some (t, out)) :
    Follows disk (h ++ out) t := by
  unfold State.writerStep at hstep
  split at hstep
  · exact nomatch hstep
  · rename_i new hwriter
    cases hstep
    exact hs.behind (Or.inr rfl) (Or.inr rfl) nofun id
      (fun hrunning => Or.inr (Or.inr (Or.inr ⟨hs.returned_of_applying hrunning (Or.inl ⟨new, hwriter⟩), Or.inr (Or.inl rfl)⟩))) nofun
  · rename_i hwriter
    split at hstep
    · cases hstep
      refine hs.behind (Or.inl ⟨rfl, rfl⟩) (Or.inl (Or.inl rfl)) nofun id (fun hrunning => ?_)
        fun _ => hs.not_stopped (by rw [hwriter]; exact id)
      exact Or.inr (Or.inr (Or.inr ⟨hs.returned_of_applying hrunning (Or.inr hwriter), Or.inr (Or.inr ⟨rfl, nofun, nofun⟩)⟩))
    · exact nomatch hstep
  · rename_i hwriter
    cases hstep
    rw [List.append_nil]
    exact hs.call (Or.inr hwriter) (Or.inl rfl)
  · rename_i hwriter
    split at hstep
    · cases hstep
      by_cases hrunning : s.flushRunning = true
      · refine hs.behind (Or.inl ⟨rfl, rfl⟩) (Or.inl (Or.inr (Or.inl ⟨rfl, hrunning⟩))) nofun id
          (fun hended => absurd (hrunning.symm.trans hended) nofun) fun _ hlast => ?_
        rw [hs.returned (hs.stopped hlast).2.1] at hrunning
        exact nomatch hrunning
      · exact hs.again ((Bool.not_eq_true _).mp hrunning) (Or.inl hwriter) (Or.inl ⟨rfl, rfl⟩)
    · exact nomatch hstep
  · rename_i hwriter
    split at hstep
    · rename_i hrunning
      cases hstep
      refine hs.behind (Or.inl ⟨rfl, rfl⟩) (Or.inl (Or.inr (Or.inr (Or.inl rfl)))) nofun nofun (fun _ => Or.inl rfl)
        fun _ hlast => ?_
      rw [hs.returned (hs.stopped hlast).2.1] at hrunning
      exact nomatch hrunning
    · rename_i hrunning
      cases hstep
      exact hs.again ((Bool.not_eq_true _).mp hrunning) (Or.inr hwriter) (Or.inr ⟨rfl, rfl⟩)
  · rename_i hwriter
    cases hstep
    exact hs.behind (Or.inl ⟨rfl, rfl⟩) (Or.inl (Or.inr (Or.inr (Or.inr rfl)))) nofun id (fun _ => Or.inr (Or.inl rfl))
      fun _ => hs.not_stopped (by rw [hwriter]; exact id)
  · rename_i hwriter
    split at hstep
    · rename_i hreturned
      cases hstep
      rw [List.append_nil]
      refine ⟨hs.config, fun step hf => ?_, fun step hf => ?_, fun _ => Or.inr (Or.inr (Or.inl ⟨_, rfl⟩)), hs.returned,
        fun _ => Or.inr (Or.inr (Or.inl ⟨_, rfl⟩)), fun hlast => absurd hlast (hs.not_stopped (by rw [hwriter]; exact id))⟩
      · rw [show s.flusher = .returned from hreturned] at hf
        exact nomatch hf
      · cases hf
        exact ⟨Or.inl trivial, hreturned⟩
    · exact nomatch hstep
  · rename_i step hwriter
    obtain ⟨hcarries, hreturned⟩ := hs.last step hwriter
    rcases hcarries with hcarries | ⟨rfl, hdisk⟩
    · obtain ⟨u, next, hflush, hnext⟩ : ∃ u next, s.flushStep step = (u, some next) ∧
          (next.Carries u ∨ next = .syncing ∧ u.OnDisk) := by
        rcases carries_flushStep hcarries with ⟨next, hsome, hc⟩ | ⟨hsome, hd⟩
        · exact ⟨_, next, Prod.ext rfl hsome, Or.inl hc⟩
        · exact ⟨_, .syncing, Prod.ext rfl hsome, Or.inr ⟨rfl, hd⟩⟩
      have hsame := same_flushStep s step
      rw [hflush] at hstep hsame
      cases hstep
      rw [List.append_nil]
      have hreturned' : u.flusher = .returned := hsame.flusher.trans hreturned
      refine ⟨hsame.config.trans hs.config, fun step' hf => ?_, fun step' hf => ?_,
        fun _ => Or.inr (Or.inr (Or.inl ⟨_, rfl⟩)), fun _ => hsame.flushRunning.trans (hs.returned hreturned),
        fun _ => Or.inr (Or.inr (Or.inl ⟨_, rfl⟩)), fun hlast => absurd hlast (hs.not_stopped (by rw [hwriter]; exact id))⟩
      · rw [show u.flusher = .flushing step' from hf] at hreturned'
        exact nomatch hreturned'
      · cases hf
        exact ⟨hnext, hreturned'⟩
    · rw [flushStep_syncing] at hstep
      cases hstep
      refine ⟨?_, fun step' hf => ?_, nofun, fun _ => Or.inr (Or.inr (Or.inr hdisk)), hs.returned,
        fun _ => Or.inr (Or.inr (Or.inr ⟨hreturned, Or.inl hdisk⟩)), fun _ => ⟨hdisk, hreturned, trivial⟩⟩
      · exact hs.config.trans (lastApplied_stopped disk h).symm
      · rw [show s.flusher = .flushing step' from hf] at hreturned
        exact nomatch hreturned

/-- While the thread has not returned, what `Ended` says is about the writer alone. -/
theorem ended_of_left (hs : Follows disk h s) (hleft : s.flusher ≠ .returned) (hrunning : t.flushRunning = s.flushRunning)
    (hwriter : t.writer = s.writer) : t.flushRunning = false → t.Ended := by
  intro hended
  unfold State.Ended
  rw [hwriter]
  rcases hs.ended (hrunning.symm.trans hended) with hw | hw | hw | hmissing
  · exact Or.inl hw
  · exact Or.inr (Or.inl hw)
  · exact Or.inr (Or.inr (Or.inl hw))
  · exact absurd hmissing.1 hleft

/-- The thread goes on outside a flush. -/
theorem outside (hs : Follows disk h s) {flusher : Flusher} (hfrom : ∀ step, s.flusher = .flushing step → step = .syncing)
    (hleft : s.flusher ≠ .returned) (hto : ∀ step, flusher ≠ .flushing step)
    (hreturned : flusher = .returned → s.flushRunning = false) : Follows disk h { s with flusher := flusher } := by
  refine ⟨hs.config, fun step hf => absurd hf (hto step), fun step hw => ?_, fun ha => ?_, hreturned,
    hs.ended_of_left hleft rfl rfl, fun hlast => ?_⟩
  · exact absurd (hs.last step hw).2 hleft
  · rcases hs.file ha with hb | ⟨step, hf, hc⟩ | hw | hd
    · exact Or.inl hb
    · rw [hfrom step hf] at hc
      exact hc.elim
    · exact Or.inr (Or.inr (Or.inl hw))
    · exact Or.inr (Or.inr (Or.inr hd))
  · exact absurd (hs.stopped hlast).2.1 hleft

/-- The thread looks whether it is to go on. -/
theorem check (hs : Follows disk h s) {next : Flusher} (hfrom : ∀ step, s.flusher ≠ .flushing step)
    (hleft : s.flusher ≠ .returned) (hto : ∀ step, next ≠ .flushing step) (hnext : next ≠ .returned) :
    Follows disk h { s with flusher := if s.flushRunning then next else .returned } := by
  apply hs.outside (fun step hf => absurd hf (hfrom step)) hleft
  · intro step
    split_ifs
    · exact hto step
    · exact nofun
  · intro hreturned
    split_ifs at hreturned with hrunning
    · exact absurd hreturned hnext
    · exact (Bool.not_eq_true _).mp hrunning

/-- The thread goes on within a flush. -/
theorem within (hs : Follows disk h s) {step : FlushStep} (hf : s.flusher = .flushing step) {u : State} (hsame : SameButFiles s u)
    {flusher : Flusher} (hleft : flusher ≠ .returned)
    (hcase : u.Behind ∨ ∃ next, flusher = .flushing next ∧ (next.Carries u ∨ next = .syncing ∧ u.OnDisk)) :
    Follows disk h { u with flusher := flusher } := by
  have hnot : s.flusher ≠ .returned := by rw [hf]; nofun
  refine ⟨hsame.config.trans hs.config, fun step' hstep' => ?_, fun step' hw => ?_, fun _ => ?_, fun hr => absurd hr hleft,
    hs.ended_of_left hnot hsame.flushRunning hsame.writer, fun hlast => absurd (hs.stopped hlast).2.1 hnot⟩
  · rcases hcase with hb | ⟨next, rfl, hc | ⟨rfl, -⟩⟩
    · exact Or.inr (Or.inr hb)
    · cases hstep'
      exact Or.inl hc
    · cases hstep'
      exact Or.inr (Or.inl rfl)
  · exact absurd (hs.last step' (hsame.writer.symm.trans hw)).2 hnot
  · rcases hcase with hb | ⟨next, rfl, hc | ⟨-, hd⟩⟩
    · exact Or.inl hb
    · exact Or.inr (Or.inl ⟨next, rfl, hc⟩)
    · exact Or.inr (Or.inr (Or.inr hd))

theorem behind_same (hsame : SameButFiles s t) (hb : s.Behind) : t.Behind := by
  unfold State.Behind State.FlushDue at hb ⊢
  rwa [hsame.flushPending, hsame.flushRunning, hsame.writer]

theorem flusherStep (hs : Follows disk h s) (hstep : s.flusherStep = some t) : Follows disk h t := by
  unfold State.flusherStep at hstep
  split at hstep
  · rename_i hf
    cases hstep
    exact hs.check (by rw [hf]; nofun) (by rw [hf]; nofun) nofun nofun
  · rename_i hf
    cases hstep
    exact hs.outside (by rw [hf]; nofun) (by rw [hf]; nofun) nofun nofun
  · rename_i hf
    cases hstep
    exact hs.check (by rw [hf]; nofun) (by rw [hf]; nofun) nofun nofun
  · rename_i hf
    have hleft : s.flusher ≠ .returned := by rw [hf]; nofun
    split at hstep
    · cases hstep
      refine ⟨hs.config, fun step hflush => ?_, fun step hw => absurd (hs.last step hw).2 hleft,
        fun _ => Or.inr (Or.inl ⟨_, rfl, trivial⟩), nofun, hs.ended_of_left hleft rfl rfl,
        fun hlast => absurd (hs.stopped hlast).2.1 hleft⟩
      cases hflush
      exact Or.inl trivial
    · cases hstep
      exact hs.outside (by rw [hf]; nofun) hleft nofun nofun
  · rename_i step hf
    have hsame := same_flushStep s step
    rcases hs.stale step hf with hcarries | rfl | hbehind
    · rcases carries_flushStep hcarries with ⟨next, hsome, hc⟩ | ⟨hsome, hd⟩
      · rw [show s.flushStep step = (_, some next) from Prod.ext rfl hsome] at hstep
        cases hstep
        exact hs.within hf hsame nofun (Or.inr ⟨next, rfl, Or.inl hc⟩)
      · rw [show s.flushStep step = (_, some .syncing) from Prod.ext rfl hsome] at hstep
        cases hstep
        exact hs.within hf hsame nofun (Or.inr ⟨.syncing, rfl, Or.inr ⟨rfl, hd⟩⟩)
    · rw [flushStep_syncing] at hstep
      cases hstep
      refine hs.outside (fun step' hf' => ?_) (by rw [hf]; nofun) nofun nofun
      rw [hf] at hf'
      cases hf'
      rfl
    · have hlater := behind_same hsame hbehind
      split at hstep
      · rename_i u next hflush
        rw [hflush] at hsame hlater
        cases hstep
        exact hs.within hf hsame nofun (Or.inl hlater)
      · rename_i u hflush
        rw [hflush] at hsame hlater
        cases hstep
        exact hs.within hf hsame nofun (Or.inl hlater)
  · exact nomatch hstep

theorem step (hs : Follows disk h s) {a : Input} (hok : Unpending s a) {out : List Event}
    (hstep : manager.step s a = some (t, out)) : Follows disk (h ++ out) t := by
  cases a with
  | applyJson jsonStr =>
    simp only [manager] at hstep
    split at hstep
    · rename_i hidle
      cases hstep
      rw [List.append_nil]
      exact hs.call (Or.inl hidle) (Or.inr (Or.inl ⟨_, rfl⟩))
    · exact nomatch hstep
  | stop =>
    simp only [manager] at hstep
    split at hstep
    · rename_i hidle
      cases hstep
      rw [List.append_nil]
      exact hs.call (Or.inl hidle) (Or.inr (Or.inr ⟨rfl, hok⟩))
    · exact nomatch hstep
  | writer => exact hs.writerStep hstep
  | flusher =>
    obtain ⟨u, hu, heq⟩ := Option.map_eq_some_iff.mp hstep
    cases heq
    rw [List.append_nil]
    exact hs.flusherStep hu

theorem run {inputs : List Input} (hrun : manager.run (.started disk) inputs = some (s, h))
    (hstops : manager.Along Unpending (.started disk) inputs) : Follows disk h s := by
  apply manager.run_induction (I := Follows disk) ?_ (follows_started disk) hstops hrun
  exact fun _ _ _ _ _ hs hok hstep => hs.step hok hstep

end Follows

/-- What a `stop` does that finds the thread gone. -/
theorem run_stop_again (hidle : s.writer = .idle) (hrunning : s.flushRunning = false) (hreturned : s.flusher = .returned) :
    manager.run s [.stop, .writer, .writer] = some ({ s with flushPending := false, writer := .idle }, [.stopped]) := by
  obtain ⟨disk, tmp, config, running, pending, flusher, writer⟩ := s
  obtain rfl : writer = .idle := hidle
  obtain rfl : running = false := hrunning
  obtain rfl : flusher = .returned := hreturned
  rfl

/-- **The file follows the memory** where no `stop` takes back an update: when `stop` returns it is the configuration that was
applied last; and from the first `apply_json` on it is the one in memory wherever no call and no flush is on its way. A `stop`
that takes back an update the file does not have returns with another configuration on disk. -/
theorem file_follows_ram {disk : Option Text} {inputs : List Input} {s : State} {h : List Event}
    (hrun : manager.run (.started disk) inputs = some (s, h)) (hstops : manager.Along Unpending (.started disk) inputs) :
    (h.getLast? = some .stopped → s.disk = some (serialize (lastApplied disk h))) ∧
    (Applied disk h → ¬s.Applying → ¬s.FlushDue → ¬s.Flushing → s.disk = some (serialize s.config)) ∧
    (s.writer = .idle → ¬Unpending s .stop →
      ∃ t, manager.run s [.stop, .writer, .writer] = some (t, [.stopped]) ∧
        t.disk ≠ some (serialize (lastApplied disk (h ++ [.stopped])))) := by
  have hs := Follows.run hrun hstops
  refine ⟨fun hlast => ?_, fun ha hcall hdue hflush => ?_, fun hidle hpending => ?_⟩
  · rw [← hs.config]
    exact (hs.stopped hlast).1
  · rcases hs.file ha with (hd | hw) | ⟨step, hf, -⟩ | ⟨step, hw⟩ | hd
    · exact absurd hd hdue
    · exact absurd (Or.inr (Or.inl hw)) hcall
    · exact absurd ⟨step, Or.inl hf⟩ hflush
    · exact absurd ⟨step, Or.inr hw⟩ hflush
    · exact hd
  · obtain ⟨hrunning, hrest⟩ := not_or.mp hpending
    have hstopped : s.flushRunning = false := (Bool.not_eq_true _).mp hrunning
    have hreturned := (hs.missing hstopped (by rw [hidle]; nofun) (by rw [hidle]; nofun) (by rw [hidle]; nofun)).1
    refine ⟨_, run_stop_again hidle hstopped hreturned, ?_⟩
    rw [lastApplied_stopped, ← hs.config]
    exact (not_or.mp hrest).2

def idleMode : List Input := [.applyJson "\x7b\"mode\": \"idle\"\x7d".toList, .writer, .writer, .writer]

/-- The first `stop`, with the thread at the head of its loop. -/
def firstStop : List Input := [.stop, .writer, .writer, .writer, .flusher] ++ List.replicate 7 .writer

/-- An update that lands between the thread's snapshot and its rename, the flush after it, and two calls of `stop`. -/
def lateUpdate : List Input :=
  List.replicate 7 .flusher ++ idleMode ++ List.replicate 13 .flusher ++ firstStop ++ [.stop, .writer, .writer]

theorem late_update_on_disk :
    ∃ s h, manager.run (.started (some "\x7b\x7d".toList)) lateUpdate = some (s, h) ∧ h.getLast? = some .stopped ∧
      (lastApplied (some "\x7b\x7d".toList) h).mode = "idle".toList ∧
      s.disk = some (serialize (lastApplied (some "\x7b\x7d".toList) h)) := by
  have hend : (manager.run (.started (some "\x7b\x7d".toList)) lateUpdate).map
      (fun r => (r.2.getLast?, (lastApplied (some "\x7b\x7d".toList) r.2).mode)) = some (some .stopped, "idle".toList) := by
    decide +kernel
  have hstops : manager.Along Unpending (.started (some "\x7b\x7d".toList)) lateUpdate := by decide +kernel
  obtain ⟨⟨s, h⟩, hrun, hout⟩ := Option.map_eq_some_iff.mp hend
  obtain ⟨hlast, hmode⟩ := Prod.mk.inj hout
  exact ⟨s, h, hrun, hlast, hmode, (file_follows_ram hrun hstops).1 hlast⟩

/-- The update after the first `stop` is in memory, and the `stop` of the destructor takes its flag back. -/
theorem update_after_stop_lost :
    ∃ s h, manager.run (.started (some "\x7b\x7d".toList)) (firstStop ++ idleMode ++ [.stop, .writer, .writer]) = some (s, h) ∧
      h.getLast? = some .stopped ∧ s.disk ≠ some (serialize (lastApplied (some "\x7b\x7d".toList) h)) := by
  have hend : (manager.run (.started (some "\x7b\x7d".toList)) (firstStop ++ idleMode ++ [.stop, .writer, .writer])).map
      (fun r => (r.2.getLast?, decide (r.1.disk = some (serialize (lastApplied (some "\x7b\x7d".toList) r.2))))) =
      some (some .stopped, false) := by decide +kernel
  obtain ⟨⟨s, h⟩, hrun, hout⟩ := Option.map_eq_some_iff.mp hend
  obtain ⟨hlast, hdisk⟩ := Prod.mk.inj hout
  exact ⟨s, h, hrun, hlast, of_decide_eq_false hdisk⟩

end IbarraGateway.GemaVision.ConfigFlush
