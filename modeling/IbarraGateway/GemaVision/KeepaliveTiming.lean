import IbarraGateway.GemaVision.ConfigManager
import IbarraGateway.GemaVision.Watchdog
import IbarraGateway.Lib.Machine

/-!
# The time between two pings

The counts of `keepalive_loop` as the machine has them, and the text that `main` takes the interval from. The time is what is
slept; that a write or a step takes time as well is left out.

* `keepaliveLoop_refines` : for intervals that the counts can hold the loop is `Watchdog.keepaliveLoop`.
* `slept_between` : every run sleeps the same between two pings.
* `keepalive_timing` : for which intervals that is the interval, and for which texts it is short enough for the device.
-/

namespace IbarraGateway.GemaVision.KeepaliveTiming
open DecimalText (isSpace scanSign)

/-! ## The loop -/

/-- `slicing i` : the loop variable of the sliced sleep. -/
inductive Place
  | checking
  | pinging
  | slicing (i : Int32)
  | returned
  deriving DecidableEq, Repr

/-- The locals of `keepalive_loop`, and where it is. -/
structure State where
  chunkMs : Int64
  iterations : Int32
  place : Place
  deriving DecidableEq, Repr

inductive Event
  | ping
  | slept (ms : Nat)
  deriving DecidableEq, Repr

/-- What `sleep_for` sleeps: nothing for a negative time. -/
def sleepFor (ms : Int64) : Nat := ms.toInt.toNat

/-- The head of `keepalive_loop`, with what `interval_.count()` returns; `none` where the division is by zero. The conversion
to `int` keeps the low bits. -/
def enter (totalMs : Int64) : Option State :=
  let chunkMs := min totalMs 100
  if chunkMs = 0 then none else some ⟨chunkMs, (totalMs / chunkMs).toInt32, .checking⟩

/-- `keepalive_loop` behind its head; the input is what `running_.load()` returns, where the step has one. -/
def keepaliveLoop : Machine State Bool Event where
  step s running :=
    match s.place with
    | .checking => some ({ s with place := if running then .pinging else .returned }, [])
    | .pinging => some ({ s with place := .slicing 0 }, [.ping])
    | .slicing i =>
      if i < s.iterations then
        if running then some ({ s with place := .slicing (i + 1) }, [.slept (sleepFor s.chunkMs)])
        else some ({ s with place := .returned }, [])
      else some ({ s with place := .checking }, [])
    | .returned => none

/-! ## The interval of `main` -/

/-- Where the daemon is built for: `long` has 32 bits on the board and 64 where it is tested. -/
inductive Target
  | board
  | host
  deriving DecidableEq, Repr

def longMax : Target → Int
  | .board => 2 ^ 31 - 1
  | .host => 2 ^ 63 - 1

/-- `strtol` with base 10; `none` where `end` stays at the start, and the nearest `long` where the number is none. -/
def strtol (target : Target) (env : Text) : Option Int :=
  let r := scanSign (env.dropWhile isSpace)
  match r.2.takeWhile Char.isDigit with
  | [] => none
  | ds => some (max (-longMax target - 1) (min (r.1 * Nat.ofDigitChars 10 ds 0) (longMax target)))

/-- The interval that `main` hands to the constructor; `none` where `GEMA_WATCHDOG_INTERVAL_SEC` is not set. -/
def mainInterval (target : Target) (env : Option Text) : Int64 := Int64.ofInt (1000 * watchdogInterval (env.bind (strtol target)))

/-! ## What is stated -/

def slept : List Event → Nat
  | [] => 0
  | .ping :: h => slept h
  | .slept ms :: h => ms + slept h

/-- Between two pings, one after the other. -/
def BetweenPings (between h : List Event) : Prop :=
  ∃ before after, h = before ++ .ping :: (between ++ .ping :: after) ∧ .ping ∉ between

/-- The division has a result, and every run sleeps the interval between two pings, less a part of a slice. -/
def Sliced (totalMs : Int64) : Prop :=
  ∃ s, enter totalMs = some s ∧ ∀ inputs t h between, keepaliveLoop.run s inputs = some (t, h) → BetweenPings between h →
    (slept between : Int) ≤ totalMs.toInt ∧ totalMs.toInt - s.chunkMs.toInt < slept between

/-- In no run are two pings further apart than the timeout. -/
def HoldsOff (timeoutMs : Nat) (totalMs : Int64) : Prop :=
  ∀ s, enter totalMs = some s → ∀ inputs t h between, keepaliveLoop.run s inputs = some (t, h) → BetweenPings between h →
    slept between ≤ timeoutMs

/-- The timeout of the device, "typically 15 s". -/
def wdtTimeoutMs : Nat := 15000

/-! ## A round -/

/-- What is slept in a round of the loop. -/
def State.round (s : State) : Nat := s.iterations.toInt.toNat * sleepFor s.chunkMs

def count : Option Nat → Event → Option Nat
  | _, .ping => some 0
  | since, .slept ms => since.map (· + ms)

/-- What was slept since the last ping; `none` before the first one. -/
def sinceLast (h : List Event) : Option Nat := h.foldl count none

theorem sinceLast_append (h : List Event) (e : Event) : sinceLast (h ++ [e]) = count (sinceLast h) e := List.foldl_append

theorem foldl_count {between : List Event} (hnot : .ping ∉ between) (ms : Nat) :
    between.foldl count (some ms) = some (ms + slept between) := by
  induction between generalizing ms with
  | nil => rfl
  | cons e between ih =>
    rw [List.mem_cons, not_or] at hnot
    cases e with
    | ping => exact absurd rfl hnot.1
    | slept ms' =>
      rw [List.foldl_cons, slept, ← Nat.add_assoc]
      exact ih hnot.2 (ms + ms')

/-- Behind a ping it is the sum. -/
theorem sinceLast_ping {between : List Event} (hnot : .ping ∉ between) (before : List Event) :
    sinceLast (before ++ .ping :: between) = some (slept between) := by
  unfold sinceLast
  rw [List.foldl_append, List.foldl_cons, count, foldl_count hnot, Nat.zero_add]

/-! ## The steps -/

/-- The loop variable does not run over. -/
theorem toInt_add_one {i n : Int32} (h : i < n) : (i + 1).toInt = i.toInt + 1 := by
  have hlt := Int32.lt_iff_toInt_lt.mp h
  have hmax := n.toInt_lt
  have hmin := i.le_toInt
  rw [Int32.toInt_add, Int32.toInt_one]
  exact Int.bmod_eq_of_le (by omega) (by omega)

/-- What a step of the loop can do. -/
inductive Step (s : State) (running : Bool) : State → List Event → Prop
  | check (hplace : s.place = .checking) : Step s running { s with place := if running then .pinging else .returned } []
  | ping (hplace : s.place = .pinging) : Step s running { s with place := .slicing 0 } [.ping]
  | sleep {i : Int32} (hplace : s.place = .slicing i) (hlt : i < s.iterations) (hrunning : running = true) :
      Step s running { s with place := .slicing (i + 1) } [.slept (sleepFor s.chunkMs)]
  | stop {i : Int32} (hplace : s.place = .slicing i) (hlt : i < s.iterations) (hrunning : running = false) :
      Step s running { s with place := .returned } []
  | finish {i : Int32} (hplace : s.place = .slicing i) (hend : ¬i < s.iterations) : Step s running { s with place := .checking } []

theorem step_inv {s t : State} {running : Bool} {out : List Event} (hstep : keepaliveLoop.step s running = some (t, out)) :
    Step s running t out := by
  obtain ⟨chunkMs, iterations, place⟩ := s
  cases place with
  | checking =>
    cases hstep
    exact .check rfl
  | pinging =>
    cases hstep
    exact .ping rfl
  | slicing i =>
    simp only [keepaliveLoop] at hstep
    by_cases hlt : i < iterations
    · rw [if_pos hlt] at hstep
      cases running with
      | true =>
        cases hstep
        exact .sleep rfl hlt rfl
      | false =>
        cases hstep
        exact .stop rfl hlt rfl
    · rw [if_neg hlt] at hstep
      cases hstep
      exact .finish rfl hlt
  | returned => exact nomatch hstep

/-- How much of a round is behind the thread. -/
def State.Slept (s : State) (h : List Event) : Prop :=
  match s.place with
  | .checking | .pinging => sinceLast h = none ∨ sinceLast h = some s.round
  | .slicing i => ∃ k : Nat, i.toInt = k ∧ k ≤ s.iterations.toInt.toNat ∧ sinceLast h = some (k * sleepFor s.chunkMs)
  | .returned => True

structure Rounds (s₀ : State) (h : List Event) (s : State) : Prop where
  chunkMs : s.chunkMs = s₀.chunkMs
  iterations : s.iterations = s₀.iterations
  slept : s.Slept h
  pings : Everywhere (fun before e => e = .ping → sinceLast before = none ∨ sinceLast before = some s₀.round) h

theorem Rounds.round {s₀ s : State} {h : List Event} (hs : Rounds s₀ h s) : s.round = s₀.round := by
  rw [State.round, State.round, hs.chunkMs, hs.iterations]

theorem Rounds.step {s₀ s t : State} {h out : List Event} {running : Bool} (hs : Rounds s₀ h s) (hstep : Step s running t out) :
    Rounds s₀ (h ++ out) t := by
  have hround := hs.round
  obtain ⟨hchunk, hiterations, hslept, hpings⟩ := hs
  cases hstep with
  | check hplace =>
    simp only [State.Slept, hplace] at hslept
    rw [List.append_nil]
    refine ⟨hchunk, hiterations, ?_, hpings⟩
    cases running with
    | true => exact hslept
    | false => trivial
  | ping hplace =>
    simp only [State.Slept, hplace] at hslept
    refine ⟨hchunk, hiterations, ⟨0, rfl, Nat.zero_le _, ?_⟩, Everywhere.snoc_iff.mpr ⟨hpings, fun _ => hround ▸ hslept⟩⟩
    rw [sinceLast_append, Nat.zero_mul, count]
  | sleep hplace hlt =>
    simp only [State.Slept, hplace] at hslept
    obtain ⟨k, hk, -, hsince⟩ := hslept
    have hltInt := Int32.lt_iff_toInt_lt.mp hlt
    refine ⟨hchunk, hiterations, ⟨k + 1, ?_, ?_, ?_⟩, Everywhere.snoc_iff.mpr ⟨hpings, nofun⟩⟩
    · rw [toInt_add_one hlt, hk]
      rfl
    · show k + 1 ≤ s.iterations.toInt.toNat
      omega
    · rw [sinceLast_append, hsince, Nat.succ_mul]
      rfl
  | stop =>
    rw [List.append_nil]
    exact ⟨hchunk, hiterations, trivial, hpings⟩
  | finish hplace hend =>
    simp only [State.Slept, hplace] at hslept
    obtain ⟨k, hk, hle, hsince⟩ := hslept
    have hlast : k = s.iterations.toInt.toNat := by
      rw [Int32.lt_iff_toInt_lt] at hend
      omega
    rw [List.append_nil]
    refine ⟨hchunk, hiterations, Or.inr ?_, hpings⟩
    rw [hsince, hlast]
    rfl

/-- **Between two pings** every run sleeps for a round. -/
theorem slept_between {s t : State} {inputs : List Bool} {h between : List Event} (hplace : s.place = .checking)
    (hrun : keepaliveLoop.run s inputs = some (t, h)) (hbetween : BetweenPings between h) : slept between = s.round := by
  have hstart : Rounds s [] s := by
    refine ⟨rfl, rfl, ?_, .nil⟩
    rw [State.Slept, hplace]
    exact Or.inl rfl
  have hs : Rounds s h t := by
    apply keepaliveLoop.run_induction (I := Rounds s) ?_ hstart (keepaliveLoop.along_true _ _) hrun
    exact fun _ _ _ _ _ hs _ hstep => hs.step (step_inv hstep)
  obtain ⟨before, after, rfl, hnot⟩ := hbetween
  have hping := hs.pings (before ++ .ping :: between) .ping after (by simp) rfl
  rw [sinceLast_ping hnot] at hping
  rcases hping with hnone | hsome
  · exact nomatch hnone
  · exact Option.some.inj hsome

theorem run_slices {s : State} {i : Int32} {k : Nat} (hi : i.toInt + k = s.iterations.toInt) :
    keepaliveLoop.run { s with place := .slicing i } (List.replicate k true) =
      some ({ s with place := .slicing s.iterations }, List.replicate k (.slept (sleepFor s.chunkMs))) := by
  induction k generalizing i with
  | zero =>
    have heq : i = s.iterations := Int32.toInt_inj.mp (by omega)
    rw [heq]
    rfl
  | succ k ih =>
    have hlt : i < s.iterations := Int32.lt_iff_toInt_lt.mpr (by omega)
    have hrest := ih (i := i + 1) (by rw [toInt_add_one hlt]; omega)
    have hstep : keepaliveLoop.step { s with place := .slicing i } true =
        some ({ s with place := .slicing (i + 1) }, [.slept (sleepFor s.chunkMs)]) := if_pos hlt
    rw [List.replicate_succ, List.replicate_succ]
    exact keepaliveLoop.run_cons_of hstep hrest

/-- A thread that is left to itself pings again. -/
theorem exists_pings {s : State} (hplace : s.place = .checking) :
    ∃ inputs t h between, keepaliveLoop.run s inputs = some (t, h) ∧ BetweenPings between h := by
  obtain ⟨i, k, hslices, hend⟩ : ∃ (i : Int32) (k : Nat),
      keepaliveLoop.run { s with place := .slicing 0 } (List.replicate k true) =
        some ({ s with place := .slicing i }, List.replicate k (.slept (sleepFor s.chunkMs))) ∧ ¬i < s.iterations := by
    by_cases hpos : 0 < s.iterations
    · have hposInt := Int32.lt_iff_toInt_lt.mp hpos
      rw [Int32.toInt_zero] at hposInt
      refine ⟨s.iterations, s.iterations.toInt.toNat, run_slices ?_, Int32.lt_irrefl⟩
      rw [Int32.toInt_zero]
      omega
    · exact ⟨0, 0, rfl, hpos⟩
  obtain ⟨chunkMs, iterations, place⟩ := s
  obtain rfl : place = .checking := hplace
  have hback : keepaliveLoop.step ⟨chunkMs, iterations, .slicing i⟩ true = some (⟨chunkMs, iterations, .checking⟩, []) :=
    if_neg hend
  have hagain : keepaliveLoop.run ⟨chunkMs, iterations, .slicing i⟩ [true, true, true] =
      some (⟨chunkMs, iterations, .slicing 0⟩, [.ping]) := keepaliveLoop.run_cons_of hback rfl
  have hround := keepaliveLoop.run_append_iff.mpr ⟨_, _, _, hslices, hagain, rfl⟩
  have hfirst : keepaliveLoop.run ⟨chunkMs, iterations, .checking⟩ [true, true] =
      some (⟨chunkMs, iterations, .slicing 0⟩, [.ping]) := rfl
  refine ⟨_, _, _, _, keepaliveLoop.run_append_iff.mpr ⟨_, _, _, hfirst, hround, rfl⟩, [], [], rfl, ?_⟩
  intro hping
  exact nomatch List.eq_of_mem_replicate hping

/-! ## The counts -/

theorem toInt_chunkMs (totalMs : Int64) : (min totalMs 100).toInt = min totalMs.toInt 100 := by
  have hle : totalMs ≤ 100 ↔ totalMs.toInt ≤ 100 := Int64.le_iff_toInt_le
  show (if totalMs ≤ 100 then totalMs else 100).toInt = _
  by_cases h : totalMs ≤ 100
  · rw [if_pos h, Int.min_eq_left (hle.mp h)]
  · rw [if_neg h, Int.min_eq_right (Int.le_of_not_le (mt hle.mpr h))]
    rfl

theorem enter_zero : enter 0 = none := rfl

/-- The number of slices, cut to an `int`. -/
theorem enter_of_ne {totalMs : Int64} (hne : totalMs.toInt ≠ 0) :
    ∃ s, enter totalMs = some s ∧ s.place = .checking ∧ s.chunkMs.toInt = min totalMs.toInt 100 ∧
      s.iterations.toInt = (totalMs.toInt.tdiv (min totalMs.toInt 100)).bmod (2 ^ 32) := by
  have hchunk := toInt_chunkMs totalMs
  have hzero : min totalMs 100 ≠ 0 := by
    intro h
    rw [h, Int64.toInt_zero] at hchunk
    omega
  refine ⟨_, if_neg hzero, rfl, hchunk, ?_⟩
  have hdiv : (totalMs / min totalMs 100).toInt = totalMs.toInt.tdiv (min totalMs.toInt 100) := by
    by_cases hsmall : totalMs.toInt ≤ 100
    · rw [Int64.toInt_div, hchunk, Int.min_eq_left hsmall, Int.tdiv_self hne]
      rfl
    · rw [← hchunk]
      apply Int64.toInt_div_of_ne_right
      intro h
      have hminus : (-1 : Int64).toInt = -1 := rfl
      rw [h, hminus] at hchunk
      omega
  rw [Int64.toInt_toInt32, hdiv]

/-- How long a round is, with the conversion to `int` in it. -/
theorem round_eq {totalMs : Int64} {s : State} (henter : enter totalMs = some s) :
    s.round = if totalMs.toInt ≤ 100 then totalMs.toInt.toNat else ((totalMs.toInt / 100).bmod (2 ^ 32)).toNat * 100 := by
  have hne : totalMs.toInt ≠ 0 := by
    intro h
    rw [Int64.toInt_inj.mp (h.trans Int64.toInt_zero.symm), enter_zero] at henter
    exact nomatch henter
  obtain ⟨s', henter', -, hchunk, hiterations⟩ := enter_of_ne hne
  obtain rfl : s' = s := Option.some.inj (henter'.symm.trans henter)
  rw [State.round, sleepFor, hchunk, hiterations]
  by_cases hsmall : totalMs.toInt ≤ 100
  · rw [if_pos hsmall, Int.min_eq_left hsmall, Int.tdiv_self hne]
    exact Nat.one_mul _
  · rw [if_neg hsmall, Int.min_eq_right (by omega), Int.tdiv_eq_ediv_of_nonneg (by omega)]
    rfl

/-! ## The loop without machine words -/

/-- A place of the loop and the same place of the thread. -/
inductive Place.Tracks : Place → Keepalive → Prop
  | checking : Tracks .checking .checking
  | pinging : Tracks .pinging .pinging
  | slicing {i : Int32} (k : Nat) (hk : i.toInt = k) : Tracks (.slicing i) (.sleeping k)
  | returned : Tracks .returned .returned

structure Tracks (s : State) (w : Watchdog) : Prop where
  chunkMs : s.chunkMs.toInt = w.chunk
  iterations : s.iterations.toInt = w.iterations
  place : s.place.Tracks w.thread

/-- The counts are those of `Watchdog` where no conversion changes them. -/
theorem tracks_enter {totalMs : Int64} (hpos : 0 < totalMs.toInt) (hlt : totalMs.toInt < 100 * 2 ^ 31) :
    ∃ s, enter totalMs = some s ∧ Tracks s ((Watchdog.create totalMs.toInt.toNat).start true).1 := by
  obtain ⟨s, henter, hplace, hchunk, hiterations⟩ := @enter_of_ne totalMs (by omega)
  have hmin : min totalMs.toInt 100 = ((min totalMs.toInt.toNat 100 : Nat) : Int) := by omega
  refine ⟨s, henter, hchunk.trans hmin, ?_, ?_⟩
  · rw [hiterations, Int.tdiv_eq_ediv_of_nonneg (by omega)]
    show _ = ((totalMs.toInt.toNat / min totalMs.toInt.toNat 100 : Nat) : Int)
    rw [Int.natCast_ediv, ← hmin, Int.toNat_of_nonneg (by omega)]
    by_cases hsmall : totalMs.toInt ≤ 100
    · rw [Int.min_eq_left hsmall, Int.ediv_self (by omega)]
      rfl
    · rw [Int.min_eq_right (by omega)]
      exact Int.bmod_eq_of_le (by omega) (by omega)
  · rw [hplace]
    exact .checking

theorem keepaliveLoop_pinging {w : Watchdog} (hthread : w.thread = .pinging) (written : Bool) :
    ∃ n out, w.keepaliveLoop written = some ({ w with pingCount := n, thread := .sleeping 0 }, out) := by
  unfold Watchdog.keepaliveLoop Watchdog.ping
  rw [hthread]
  dsimp only
  split
  · exact ⟨_, _, rfl⟩
  · exact ⟨_, _, rfl⟩

/-- A step of the loop is the step of `Watchdog.keepaliveLoop`, whatever becomes of the write. -/
theorem keepaliveLoop_refines {s t : State} {w : Watchdog} {running : Bool} {out : List Event} (hs : Tracks s w)
    (hstep : keepaliveLoop.step s running = some (t, out)) (written : Bool) :
    ∃ w' out', ({ w with running := running } : Watchdog).keepaliveLoop written = some (w', out') ∧ Tracks t w' := by
  obtain ⟨hchunk, hiterations, htracks⟩ := hs
  obtain ⟨interval, fd, old, pingCount, thread⟩ := w
  have hn (running : Bool) (thread : Keepalive) :
      s.iterations.toInt = (⟨interval, fd, running, pingCount, thread⟩ : Watchdog).iterations := hiterations
  cases step_inv hstep with
  | check hplace =>
    rw [hplace] at htracks
    cases htracks
    refine ⟨_, _, rfl, hchunk, hiterations, ?_⟩
    cases running with
    | true => exact .pinging
    | false => exact .returned
  | ping hplace =>
    rw [hplace] at htracks
    cases htracks
    obtain ⟨n, out', hping⟩ := keepaliveLoop_pinging (w := ⟨interval, fd, running, pingCount, .pinging⟩) rfl written
    exact ⟨_, _, hping, hchunk, hiterations, .slicing 0 Int32.toInt_zero⟩
  | sleep hplace hlt hrunning =>
    rw [hplace] at htracks
    obtain - | - | ⟨k, hk⟩ := htracks
    have hltInt := Int32.lt_iff_toInt_lt.mp hlt
    have hltNat : k < (⟨interval, fd, true, pingCount, .sleeping k⟩ : Watchdog).iterations := by
      have hcount := hn true (.sleeping k)
      omega
    subst hrunning
    refine ⟨_, _, if_pos hltNat, hchunk, hiterations, .slicing (k + 1) ?_⟩
    rw [toInt_add_one hlt, hk]
    rfl
  | stop hplace hlt hrunning =>
    rw [hplace] at htracks
    obtain - | - | ⟨k, hk⟩ := htracks
    have hltInt := Int32.lt_iff_toInt_lt.mp hlt
    have hltNat : k < (⟨interval, fd, false, pingCount, .sleeping k⟩ : Watchdog).iterations := by
      have hcount := hn false (.sleeping k)
      omega
    subst hrunning
    exact ⟨_, _, if_pos hltNat, hchunk, hiterations, .returned⟩
  | finish hplace hend =>
    rw [hplace] at htracks
    obtain - | - | ⟨k, hk⟩ := htracks
    rw [Int32.lt_iff_toInt_lt] at hend
    have hlast : ¬k < (⟨interval, fd, running, pingCount, .sleeping k⟩ : Watchdog).iterations := by
      have hcount := hn running (.sleeping k)
      omega
    exact ⟨_, _, if_neg hlast, hchunk, hiterations, .checking⟩

/-! ## The intervals -/

/-- What is said of every run is a matter of one round. -/
theorem sliced_iff_round {totalMs : Int64} {s : State} (henter : enter totalMs = some s) (hplace : s.place = .checking) :
    Sliced totalMs ↔ (s.round : Int) ≤ totalMs.toInt ∧ totalMs.toInt - s.chunkMs.toInt < s.round := by
  constructor
  · rintro ⟨s', henter', hall⟩
    obtain rfl : s' = s := Option.some.inj (henter'.symm.trans henter)
    obtain ⟨inputs, t, h, between, hrun, hbetween⟩ := exists_pings hplace
    have hslept := slept_between hplace hrun hbetween
    rw [← hslept]
    exact hall inputs t h between hrun hbetween
  · intro hround
    refine ⟨s, henter, fun inputs t h between hrun hbetween => ?_⟩
    rw [slept_between hplace hrun hbetween]
    exact hround

theorem holdsOff_iff_round {timeoutMs : Nat} {totalMs : Int64} {s : State} (henter : enter totalMs = some s)
    (hplace : s.place = .checking) : HoldsOff timeoutMs totalMs ↔ s.round ≤ timeoutMs := by
  constructor
  · intro hall
    obtain ⟨inputs, t, h, between, hrun, hbetween⟩ := exists_pings hplace
    rw [← slept_between hplace hrun hbetween]
    exact hall s henter inputs t h between hrun hbetween
  · intro hround s' henter' inputs t h between hrun hbetween
    obtain rfl : s' = s := Option.some.inj (henter'.symm.trans henter)
    rw [slept_between hplace hrun hbetween]
    exact hround

/-- A number of slices that an `int` does not hold becomes a smaller one. -/
theorem bmod_lt_of_large {q : Int} (hq : 2 ^ 31 ≤ q) : (q.bmod (2 ^ 32)).toNat < q.toNat := by
  have hlt : q.bmod (2 ^ 32) < (2 ^ 32 + 1) / 2 := Int.bmod_lt (by decide)
  omega

/-- **The intervals** for which the sliced sleep is right. -/
theorem sliced_iff (totalMs : Int64) : Sliced totalMs ↔ 0 < totalMs.toInt ∧ totalMs.toInt < 100 * 2 ^ 31 := by
  by_cases hzero : totalMs.toInt = 0
  · have htotal : totalMs = 0 := Int64.toInt_inj.mp (hzero.trans Int64.toInt_zero.symm)
    rw [hzero, htotal]
    apply iff_of_false
    · rintro ⟨s, henter, -⟩
      exact nomatch henter
    · exact fun h => Int.lt_irrefl 0 h.1
  obtain ⟨s, henter, hplace, hchunk, -⟩ := enter_of_ne hzero
  rw [sliced_iff_round henter hplace, round_eq henter, hchunk]
  by_cases hsmall : totalMs.toInt ≤ 100
  · rw [if_pos hsmall]
    omega
  · rw [if_neg hsmall]
    by_cases hlarge : 2 ^ 31 ≤ totalMs.toInt / 100
    · have hlt := bmod_lt_of_large hlarge
      omega
    · have hbmod : (totalMs.toInt / 100).bmod (2 ^ 32) = totalMs.toInt / 100 := Int.bmod_eq_of_le (by omega) (by omega)
      rw [hbmod]
      omega

/-! ## The texts -/

theorem watchdogInterval_le (val : Option Int) : 1 ≤ watchdogInterval val ∧ watchdogInterval val ≤ 300 := by
  cases val with
  | none => decide
  | some val =>
    simp only [watchdogInterval]
    by_cases hrange : 1 ≤ val ∧ val ≤ 300
    · rw [if_pos hrange]
      omega
    · rw [if_neg hrange]
      decide

theorem toInt_mainInterval (target : Target) (env : Option Text) :
    (mainInterval target env).toInt = 1000 * watchdogInterval (env.bind (strtol target)) := by
  have hle := watchdogInterval_le (env.bind (strtol target))
  exact Int64.toInt_ofInt_of_le (by omega) (by omega)

/-- The thread that the daemon starts. -/
theorem tracks_main (target : Target) (env : Option Text) :
    ∃ s, enter (mainInterval target env) = some s ∧
      Tracks s ((Watchdog.create (1000 * watchdogInterval (env.bind (strtol target)))).start true).1 := by
  have hle := watchdogInterval_le (env.bind (strtol target))
  have hint := toInt_mainInterval target env
  have htracks := @tracks_enter (mainInterval target env) (by omega) (by omega)
  rwa [hint] at htracks

/-- Two pings of the daemon are as far apart as the interval says. -/
theorem holdsOff_mainInterval (timeoutMs : Nat) (target : Target) (env : Option Text) :
    HoldsOff timeoutMs (mainInterval target env) ↔ 1000 * watchdogInterval (env.bind (strtol target)) ≤ timeoutMs := by
  have hle := watchdogInterval_le (env.bind (strtol target))
  have hint := toInt_mainInterval target env
  obtain ⟨s, henter, hplace, -⟩ := @enter_of_ne (mainInterval target env) (by omega)
  have hbmod : ((mainInterval target env).toInt / 100).bmod (2 ^ 32) = (mainInterval target env).toInt / 100 :=
    Int.bmod_eq_of_le (by omega) (by omega)
  rw [holdsOff_iff_round henter hplace, round_eq henter, if_neg (by omega), hbmod]
  omega

theorem watchdogInterval_le_iff (val : Option Int) :
    1000 * watchdogInterval val ≤ wdtTimeoutMs ↔ ∀ v, val = some v → ¬(16 ≤ v ∧ v ≤ 300) := by
  unfold wdtTimeoutMs
  cases val with
  | none => exact iff_of_true (by decide) nofun
  | some val =>
    simp only [Option.some.injEq, forall_eq', watchdogInterval]
    by_cases hrange : 1 ≤ val ∧ val ≤ 300
    · rw [if_pos hrange]
      omega
    · rw [if_neg hrange]
      omega

/-- **The keepalive's timing**: the sliced sleep is right for the intervals from 1 ms up to what an `int` can count in slices,
and so for all that `main` takes from its text; and the device is held off unless the text has a number from 16 to 300. -/
theorem keepalive_timing (totalMs : Int64) (target : Target) (env : Option Text) :
    (Sliced totalMs ↔ 0 < totalMs.toInt ∧ totalMs.toInt < 100 * 2 ^ 31) ∧ Sliced (mainInterval target env) ∧
      (HoldsOff wdtTimeoutMs (mainInterval target env) ↔ ∀ val, env.bind (strtol target) = some val → ¬(16 ≤ val ∧ val ≤ 300)) := by
  have hle := watchdogInterval_le (env.bind (strtol target))
  refine ⟨sliced_iff totalMs, (sliced_iff _).mpr ?_, ?_⟩
  · rw [toInt_mainInterval]
    omega
  · rw [holdsOff_mainInterval, watchdogInterval_le_iff]

/-- Five minutes, which `main` accepts; and two intervals of the constructor, for which there is no slice and no sleep. -/
theorem board_reset_at_300 :
    ¬HoldsOff wdtTimeoutMs (mainInterval .board (some "300".toList)) ∧ ¬Sliced 0 ∧ ¬Sliced (-100) := by
  refine ⟨?_, ?_, ?_⟩
  · rw [holdsOff_mainInterval]
    decide
  · rw [sliced_iff]
    decide
  · rw [sliced_iff]
    decide

end IbarraGateway.GemaVision.KeepaliveTiming
