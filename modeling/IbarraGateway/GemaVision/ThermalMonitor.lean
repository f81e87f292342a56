import IbarraGateway.Lib.Machine

/-!
# Thermal monitor

`monitor_loop` reads the zone's file once a round and keeps the level of the reading; the callback gets the state when the
level is a new one. The rate is stored beside the level and nothing depends on it.

* `reported_eq` : the last callback had the level of the state.
* `lawful_iff` : when a run of the loop has hysteresis.
-/

namespace IbarraGateway.GemaVision.Thermal

inductive Level
  | ok
  | warm
  | hot
  | hotter
  | critical
  | emergency
  deriving DecidableEq, Repr

namespace Level

/-- The enumeration's values. -/
def toNat : Level → Nat
  | ok => 0
  | warm => 1
  | hot => 2
  | hotter => 3
  | critical => 4
  | emergency => 5

end Level

def monitorLog : Int := 65

def warnThrottle : Int := 70

def actionReduceRes : Int := 75

def actionSkip : Int := 80

def emergencyStop : Int := 85

/-- Restore the previous level only after cooling this much. -/
def hysteresis : Int := 5

/-- The reading a level begins at. -/
def Level.threshold : Level → Option Int
  | ok => none
  | warm => some monitorLog
  | hot => some warnThrottle
  | hotter => some actionReduceRes
  | critical => some actionSkip
  | emergency => some emergencyStop

structure State where
  tempCelsius : Int := 0
  level : Level := .ok
  deriving DecidableEq, Repr

/-- What is read from the zone's file, in thousandths of a degree: 0 where it begins with something else than a number, and -1
where it is empty, for then the variable keeps what it held. `none` when the file cannot be opened. -/
abbrev Zone := Option Int

def readTemp : Zone → Int
  | none => -1
  | some millicelsius => if millicelsius < 0 then -1 else millicelsius / 1000

def evaluateLevel (temp : Int) : Level :=
  if emergencyStop ≤ temp then .emergency
  else if actionSkip ≤ temp then .critical
  else if actionReduceRes ≤ temp then .hotter
  else if warnThrottle ≤ temp then .hot
  else if monitorLog ≤ temp then .warm
  else .ok

/-- One round, with the call of the callback. -/
def State.round (s : State) (zone : Zone) : State × List State :=
  if 0 ≤ readTemp zone then
    let new : State := ⟨readTemp zone, evaluateLevel (readTemp zone)⟩
    (new, if new.level ≠ s.level then [new] else [])
  else (s, [])

/-- The loop; every round runs. -/
def monitorLoop : Machine State Zone State where
  step s zone := some (s.round zone)

/-- The state after some rounds. -/
def State.after (s : State) (zones : List Zone) : State := zones.foldl (fun s zone => (s.round zone).1) s

/-- The readings that count. -/
def temps (zones : List Zone) : List Int := (zones.map readTemp).filter fun temp => 0 ≤ temp

/-! ## Levels and thresholds -/

theorem le_evaluateLevel_iff {level : Level} {θ temp : Int} (h : level.threshold = some θ) :
    level.toNat ≤ (evaluateLevel temp).toNat ↔ θ ≤ temp := by
  cases level <;> simp only [Level.threshold, Option.some.injEq, reduceCtorEq] at h <;> subst h <;> unfold evaluateLevel <;>
    split_ifs <;> simp only [Level.toNat, monitorLog, warnThrottle, actionReduceRes, actionSkip, emergencyStop] at * <;> omega

theorem Level.toNat_injective : Function.Injective Level.toNat := by
  intro level level' h
  cases level <;> cases level' <;> first | rfl | cases h

/-- The thresholds lie at least the hysteresis apart. -/
theorem threshold_spaced {level level' : Level} {θ θ' : Int} (h : level.threshold = some θ) (h' : level'.threshold = some θ')
    (hlt : level.toNat < level'.toNat) : θ + hysteresis ≤ θ' := by
  cases level <;> cases level' <;> simp only [Level.threshold, Option.some.injEq, reduceCtorEq] at h h' <;> subst h <;> subst h' <;>
    simp only [Level.toNat, monitorLog, warnThrottle, actionReduceRes, actionSkip, emergencyStop, hysteresis] at * <;> omega

/-! ## Hysteresis -/

/-- A level is reached at its threshold, left at `hysteresis` below it and not before, and nothing happens in between. -/
structure Lawful (old new : Level) (temp : Int) : Prop where
  rises : ∀ (level : Level) (θ : Int), level.threshold = some θ → θ ≤ temp → level.toNat ≤ new.toNat
  drops : ∀ (level : Level) (θ : Int), level.threshold = some θ → level.toNat ≤ old.toNat → new.toNat < level.toNat → temp ≤ θ - hysteresis
  stays : ∀ (level : Level) (θ : Int), level.threshold = some θ → θ - hysteresis < temp → temp < θ →
    old = level ∨ old.toNat + 1 = level.toNat → new = old

/-- From a threshold or above, the next reading is less than `hysteresis` below it. -/
def FallsIntoBand (temp next : Int) : Prop :=
  ∃ (level : Level) (θ : Int), level.threshold = some θ ∧ θ ≤ temp ∧ θ - hysteresis < next ∧ next < θ

theorem lawful_step_iff {temp next : Int} :
    Lawful (evaluateLevel temp) (evaluateLevel next) next ↔ ¬FallsIntoBand temp next := by
  constructor
  · rintro h ⟨level, θ, hθ, hold, hband, hnext⟩
    have hdrop := h.drops level θ hθ ((le_evaluateLevel_iff hθ).mpr hold)
      (Nat.lt_of_not_le fun hle => absurd ((le_evaluateLevel_iff hθ).mp hle) (by omega))
    omega
  · intro h
    constructor
    · intro level θ hθ hle
      exact (le_evaluateLevel_iff hθ).mpr hle
    · intro level θ hθ hold hnew
      by_contra hband
      have hnext : next < θ := by
        by_contra hle
        have hreached : level.toNat ≤ (evaluateLevel next).toNat := (le_evaluateLevel_iff hθ).mpr (by omega)
        omega
      exact h ⟨level, θ, hθ, (le_evaluateLevel_iff hθ).mp hold, by omega, hnext⟩
    · intro level θ hθ hband hnext hold
      rcases hold with hold | hold
      · exact absurd ⟨level, θ, hθ, (le_evaluateLevel_iff hθ).mp (hold ▸ Nat.le_refl _), hband, hnext⟩ h
      · have hnew : (evaluateLevel next).toNat < level.toNat :=
          Nat.lt_of_not_le fun hle => absurd ((le_evaluateLevel_iff hθ).mp hle) (by omega)
        have hstay : (evaluateLevel temp).toNat ≤ (evaluateLevel next).toNat := by
          cases hθ' : (evaluateLevel temp).threshold with
          | none =>
            have hok : evaluateLevel temp = .ok := by
              revert hθ'
              cases evaluateLevel temp <;> simp [Level.threshold]
            rw [hok]
            exact Nat.zero_le _
          | some θ' =>
            have hspaced := threshold_spaced hθ' hθ (by omega)
            exact (le_evaluateLevel_iff hθ').mpr (by omega)
        exact Level.toNat_injective (by omega)

/-! ## Runs -/

theorem round_of_neg {s : State} {zone : Zone} (h : ¬0 ≤ readTemp zone) : s.round zone = (s, []) := if_neg h

theorem round_of_nonneg {s : State} {zone : Zone} (h : 0 ≤ readTemp zone) :
    (s.round zone).1 = ⟨readTemp zone, evaluateLevel (readTemp zone)⟩ := by
  rw [State.round, if_pos h]

/-- The rounds in which every step has hysteresis. -/
def HasHysteresis (s : State) (zones : List Zone) : Prop :=
  Everywhere (fun before zone => 0 ≤ readTemp zone →
    Lawful (s.after before).level (s.after (before ++ [zone])).level (readTemp zone)) zones

theorem hasHysteresis_cons_iff {s : State} {zone : Zone} {zones : List Zone} :
    HasHysteresis s (zone :: zones) ↔
      (0 ≤ readTemp zone → Lawful s.level (s.round zone).1.level (readTemp zone)) ∧ HasHysteresis (s.round zone).1 zones :=
  Everywhere.cons_iff

theorem hasHysteresis_iff {temp : Int} {s : State} (hs : s.level = evaluateLevel temp) (zones : List Zone) :
    HasHysteresis s zones ↔ (temp :: temps zones).IsChain fun temp next => ¬FallsIntoBand temp next := by
  induction zones generalizing temp s with
  | nil => exact iff_of_true Everywhere.nil (List.IsChain.singleton _)
  | cons zone zones ih =>
    rw [hasHysteresis_cons_iff]
    by_cases hvalid : 0 ≤ readTemp zone
    · have htemps : temps (zone :: zones) = readTemp zone :: temps zones := by simp [temps, hvalid]
      have hlevel : (s.round zone).1.level = evaluateLevel (readTemp zone) := by rw [round_of_nonneg hvalid]
      rw [htemps, List.isChain_cons_cons, ih hlevel, hlevel, hs, lawful_step_iff, imp_iff_right hvalid]
    · have htemps : temps (zone :: zones) = temps zones := by simp [temps, hvalid]
      rw [htemps, round_of_neg hvalid, ih hs]
      exact and_iff_right fun hle => absurd hle hvalid

/-- A run has hysteresis just where no reading falls from a threshold into the band below it. -/
theorem lawful_iff (zones : List Zone) :
    Everywhere (fun before zone => 0 ≤ readTemp zone →
      Lawful (State.after {} before).level (State.after {} (before ++ [zone])).level (readTemp zone)) zones ↔
    (0 :: temps zones).IsChain fun temp next => ¬FallsIntoBand temp next :=
  @hasHysteresis_iff 0 {} rfl zones

/-- Down from 65 to 64. -/
theorem drops_inside_band :
    ¬∀ zones : List Zone, Everywhere (fun before zone => 0 ≤ readTemp zone →
      Lawful (State.after {} before).level (State.after {} (before ++ [zone])).level (readTemp zone)) zones := by
  intro h
  have hstep := h [some 65000, some 64000] [some 65000] (some 64000) [] rfl (by decide)
  have hdrop := hstep.drops .warm monitorLog rfl (by decide) (by decide)
  revert hdrop
  decide

/-- The level the callbacks have told of. -/
def reported (calls : List State) : Level := (calls.getLast?.map State.level).getD .ok

theorem reported_round {calls : List State} {s : State} (h : reported calls = s.level) (zone : Zone) :
    reported (calls ++ (s.round zone).2) = (s.round zone).1.level := by
  by_cases hvalid : 0 ≤ readTemp zone
  · rw [State.round, if_pos hvalid]
    by_cases hlevel : evaluateLevel (readTemp zone) = s.level
    · simp [hlevel, h]
    · simp [hlevel, reported]
  · rw [round_of_neg hvalid, List.append_nil, h]

theorem reported_eq {s : State} {zones : List Zone} {calls : List State} (h : monitorLoop.run {} zones = some (s, calls)) :
    reported calls = s.level := by
  have hstart : reported [] = ({} : State).level := rfl
  refine monitorLoop.run_induction (I := fun calls s => reported calls = s.level) ?_ hstart (monitorLoop.along_true _ _) h
  intro calls s zone t out hcalls _ hstep
  rw [monitorLoop, Option.some.injEq] at hstep
  have hround := reported_round hcalls zone
  rwa [hstep] at hround

theorem after_eq {s t : State} {zones : List Zone} {calls : List State} (h : monitorLoop.run s zones = some (t, calls)) :
    s.after zones = t := by
  induction zones generalizing s calls with
  | nil =>
    rw [Machine.run_nil, Option.some.injEq] at h
    exact congrArg Prod.fst h
  | cons zone zones ih =>
    obtain ⟨u, out, outs, hstep, hrun, rfl⟩ := monitorLoop.run_cons_iff.mp h
    rw [monitorLoop, Option.some.injEq] at hstep
    rw [State.after, List.foldl_cons, hstep]
    exact ih hrun

end IbarraGateway.GemaVision.Thermal
