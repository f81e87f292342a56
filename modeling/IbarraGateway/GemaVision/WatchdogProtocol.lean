import IbarraGateway.GemaVision.Watchdog
import IbarraGateway.Lib.Machine

/-!
# The protocol of the watchdog's device

`start`, `stop` and `ping` of one owner, and the thread of `keepalive_loop`, atomic step by atomic step. Whether the device can
be opened and whether a write succeeds is said from outside. The descriptor is closed before `fd_` is reset.

* `start_refines`, `ping_refines`, `close_refines` : whole calls are the steps of `Watchdog`.
* `Phase` : what goes with each place the owner can be at.
* `device_protocol` : when the device is open, and the order of what is written to it.
-/

namespace IbarraGateway.GemaVision.WatchdogProtocol

/-- `'V'`. -/
def magic : UInt8 := 0x56

def keepalive : UInt8 := 0x0A

/-- Where a thread is in `ping`. -/
inductive Ping
  | testing
  | writing
  | counting
  deriving DecidableEq, Repr

/-- Where the owner is in its call. -/
inductive Owner
  | idle
  | opening
  | failing
  | resetting
  | spawning
  | joining
  | disarming
  | closing
  | forgetting
  | pinging (ping : Ping)
  deriving DecidableEq, Repr

/-- `sleeping i` : the loop variable of the sliced sleep. -/
inductive Feeder
  | absent
  | checking
  | pinging (ping : Ping)
  | sleeping (i : Nat)
  | returned
  deriving DecidableEq, Repr

/-- `fd` : `fd_ >= 0`; `device` : the device is open. -/
structure State where
  interval : Nat
  running : Bool := false
  fd : Bool := false
  device : Bool := false
  pingCount : Nat := 0
  owner : Owner := .idle
  feeder : Feeder := .absent
  deriving DecidableEq, Repr

/-- With what `open` and `write` answer. -/
inductive Input
  | start
  | stop
  | ping
  | owner (done : Bool)
  | feeder (done : Bool)
  deriving DecidableEq, Repr

inductive Event
  | opened
  | write (byte : UInt8) (done : Bool)
  | closed
  deriving DecidableEq, Repr

namespace State
variable (s : State)

def iterations : Nat := (Watchdog.create s.interval).iterations

/-- One step of `ping`, and the next one. -/
def pingStep (done : Bool) : Ping → State × Option Ping × List Event
  | .testing => (s, if s.fd then some .writing else none, [])
  | .writing => (s, if done then some .counting else none, [.write keepalive done])
  | .counting => ({ s with pingCount := s.pingCount + 1 }, none, [])

/-- The head of a call. -/
def call : Input → Option State
  | .start => if s.owner = .idle then some (if s.running then s else { s with running := true, owner := .opening }) else none
  | .stop => if s.owner = .idle then some (if s.running then { s with running := false, owner := .joining } else s) else none
  | .ping => if s.owner = .idle then some { s with owner := .pinging .testing } else none
  | _ => none

def ownerStep (done : Bool) : Option (State × List Event) :=
  match s.owner with
  | .idle => none
  | .opening =>
    if done then some ({ s with fd := true, device := true, owner := .resetting }, [.opened])
    else some ({ s with fd := false, owner := .failing }, [])
  | .failing => some ({ s with running := false, owner := .idle }, [])
  | .resetting => some ({ s with pingCount := 0, owner := .spawning }, [])
  | .spawning => some ({ s with feeder := .checking, owner := .idle }, [])
  | .joining => if s.feeder = .returned then some ({ s with feeder := .absent, owner := .disarming }, []) else none
  | .disarming => if s.fd then some ({ s with owner := .closing }, [.write magic done]) else some ({ s with owner := .idle }, [])
  | .closing => some ({ s with device := false, owner := .forgetting }, [.closed])
  | .forgetting => some ({ s with fd := false, owner := .idle }, [])
  | .pinging ping =>
    match s.pingStep done ping with
    | (t, some next, out) => some ({ t with owner := .pinging next }, out)
    | (t, none, out) => some ({ t with owner := .idle }, out)

def feederStep (done : Bool) : Option (State × List Event) :=
  match s.feeder with
  | .absent => none
  | .checking => some ({ s with feeder := if s.running then .pinging .testing else .returned }, [])
  | .pinging ping =>
    match s.pingStep done ping with
    | (t, some next, out) => some ({ t with feeder := .pinging next }, out)
    | (t, none, out) => some ({ t with feeder := .sleeping 0 }, out)
  | .sleeping i =>
    if i < s.iterations then some ({ s with feeder := if s.running then .sleeping (i + 1) else .returned }, [])
    else some ({ s with feeder := .checking }, [])
  | .returned => none

end State

def process : Machine State Input Event where
  step s
    | .owner done => s.ownerStep done
    | .feeder done => s.feederStep done
    | a => (s.call a).map fun t => (t, [])

/-! ## Whole calls -/

/-- The thread's place without the steps of `ping`. -/
def Feeder.coarse : Feeder → Keepalive
  | .absent => .absent
  | .checking => .checking
  | .pinging _ => .pinging
  | .sleeping i => .sleeping i
  | .returned => .returned

/-- The watchdog whose calls are one step each. -/
def State.coarse (s : State) : Watchdog := ⟨s.interval, s.fd, s.running, s.pingCount, s.feeder.coarse⟩

/-- The owner's steps up to the return of `start` are `Watchdog.start`. -/
theorem start_refines {s : State} (hidle : s.owner = .idle) (opened : Bool) :
    ∃ n, (process.run s (.start :: List.replicate n (.owner opened))).map (fun r => (r.1.coarse, r.1.owner)) =
      some ((s.coarse.start opened).1, .idle) := by
  obtain ⟨interval, running, fd, device, pingCount, owner, feeder⟩ := s
  obtain rfl : owner = .idle := hidle
  cases running with
  | true => exact ⟨0, rfl⟩
  | false =>
    cases opened with
    | true => exact ⟨3, rfl⟩
    | false => exact ⟨2, rfl⟩

/-- The thread's steps in a round of `ping` are one step of `Watchdog.keepaliveLoop`. -/
theorem ping_refines {s : State} (hfeeder : s.feeder = .pinging .testing) (written : Bool) :
    ∃ n, (process.run s (List.replicate n (.feeder written))).map (fun r => r.1.coarse) =
      (s.coarse.keepaliveLoop written).map Prod.fst := by
  obtain ⟨interval, running, fd, device, pingCount, owner, feeder⟩ := s
  obtain rfl : feeder = .pinging .testing := hfeeder
  cases fd with
  | false => exact ⟨1, rfl⟩
  | true =>
    cases written with
    | true => exact ⟨3, rfl⟩
    | false => exact ⟨2, rfl⟩

/-- The owner's last steps in `stop` are `Watchdog.close`. -/
theorem close_refines {s : State} (howner : s.owner = .disarming) (written : Bool) :
    ∃ n, (process.run s (List.replicate n (.owner written))).map (fun r => (r.1.coarse, r.1.owner)) =
      some (s.coarse.close.1, .idle) := by
  obtain ⟨interval, running, fd, device, pingCount, owner, feeder⟩ := s
  obtain rfl : owner = .disarming := howner
  cases fd with
  | false => exact ⟨1, rfl⟩
  | true => exact ⟨3, rfl⟩

/-! ## What goes together -/

/-- The thread is there. -/
def Feeder.Alive (f : Feeder) : Prop := f ≠ .absent

/-- The thread is in its loop. -/
def Feeder.Feeds (f : Feeder) : Prop := f ≠ .absent ∧ f ≠ .returned

/-- Started and not yet stopped, with its thread; or not. -/
def State.Settled (s : State) : Prop :=
  s.running = true ∧ s.fd = true ∧ s.device = true ∧ s.feeder.Feeds ∨
    s.running = false ∧ s.fd = false ∧ s.device = false ∧ s.feeder = .absent

/-- For each place of the owner: the flag, the descriptor, the device and the thread. -/
def State.Phase (s : State) : Prop :=
  match s.owner with
  | .idle => s.Settled
  | .opening | .failing => s.running = true ∧ s.fd = false ∧ s.device = false ∧ s.feeder = .absent
  | .resetting | .spawning => s.running = true ∧ s.fd = true ∧ s.device = true ∧ s.feeder = .absent
  | .joining => s.running = false ∧ s.fd = true ∧ s.device = true ∧ s.feeder.Alive
  | .disarming | .closing => s.running = false ∧ s.fd = true ∧ s.device = true ∧ s.feeder = .absent
  | .forgetting => s.running = false ∧ s.fd = true ∧ s.device = false ∧ s.feeder = .absent
  | .pinging .testing => s.Settled
  | .pinging _ => s.running = true ∧ s.fd = true ∧ s.device = true ∧ s.feeder.Feeds

/-- What a step writes, opens or closes. -/
inductive Effect (s t : State) : List Event → Prop
  | silent (hdevice : t.device = true → s.device = true) (howner : t.owner = .closing ↔ s.owner = .closing) : Effect s t []
  | opened (ht : t.owner ≠ .closing) : Effect s t [.opened]
  | fed (done : Bool) (hdevice : s.device = true) (hs : s.owner ≠ .closing) (ht : t.owner ≠ .closing) :
      Effect s t [.write keepalive done]
  | disarmed (done : Bool) (ht : t.owner = .closing) : Effect s t [.write magic done]
  | closed (hs : s.owner = .closing) (ht : t.owner ≠ .closing) (hdevice : t.device = false) : Effect s t [.closed]

/-- While there is a thread, the device is open and nobody is about to close it. -/
theorem State.Phase.open {s : State} (hs : s.Phase) (hfeeder : s.feeder ≠ .absent) :
    s.fd = true ∧ s.device = true ∧ s.owner ≠ .closing := by
  obtain ⟨interval, running, fd, device, pingCount, owner, feeder⟩ := s
  simp only [Phase, Settled] at hs
  dsimp only at hfeeder
  rcases owner with _ | _ | _ | _ | _ | _ | _ | _ | _ | (_ | _ | _) <;> simp_all

/-- The thread goes on; it returns only when it is told to. -/
theorem State.Phase.feed {s : State} (hs : s.Phase) {feeder : Feeder} {pingCount : Nat} (hfrom : s.feeder ≠ .absent)
    (hto : feeder ≠ .absent) (hreturned : feeder = .returned → s.running = false) :
    { s with feeder := feeder, pingCount := pingCount }.Phase := by
  obtain ⟨interval, running, fd, device, count, owner, old⟩ := s
  simp only [Phase, Settled, Feeder.Feeds, Feeder.Alive] at hs ⊢
  dsimp only at hfrom hreturned
  rcases owner with _ | _ | _ | _ | _ | _ | _ | _ | _ | (_ | _ | _) <;> simp_all

theorem pingStep_open {s : State} {done : Bool} (hfd : s.fd = true) : s.pingStep done .testing = (s, some .writing, []) := by
  rw [State.pingStep, if_pos hfd]

theorem pingStep_shut {s : State} {done : Bool} (hfd : s.fd = false) : s.pingStep done .testing = (s, none, []) := by
  rw [State.pingStep, hfd, if_neg Bool.false_ne_true]

theorem phase_call {s t : State} {a : Input} (hs : s.Phase) (hstep : s.call a = some t) : t.Phase ∧ Effect s t [] := by
  have hidle : s.owner = .idle := by
    by_contra hnot
    cases a <;> simp [State.call, hnot] at hstep
  have hsettled : s.Settled := by
    simpa only [State.Phase, hidle] using hs
  cases a with
  | start =>
    rw [State.call, if_pos hidle, Option.some.injEq] at hstep
    rcases hsettled with ⟨hrunning, -⟩ | ⟨hrunning, hfd, hdevice, hfeeder⟩
    · rw [if_pos hrunning] at hstep
      subst hstep
      exact ⟨hs, .silent id Iff.rfl⟩
    · rw [if_neg (by simp [hrunning])] at hstep
      subst hstep
      exact ⟨⟨rfl, hfd, hdevice, hfeeder⟩, .silent id (by simp [hidle])⟩
  | stop =>
    rw [State.call, if_pos hidle, Option.some.injEq] at hstep
    rcases hsettled with ⟨hrunning, hfd, hdevice, hfeeder⟩ | ⟨hrunning, -⟩
    · rw [if_pos hrunning] at hstep
      subst hstep
      exact ⟨⟨rfl, hfd, hdevice, hfeeder.1⟩, .silent id (by simp [hidle])⟩
    · rw [if_neg (by simp [hrunning])] at hstep
      subst hstep
      exact ⟨hs, .silent id Iff.rfl⟩
  | ping =>
    rw [State.call, if_pos hidle, Option.some.injEq] at hstep
    subst hstep
    exact ⟨hsettled, .silent id (by simp [hidle])⟩
  | owner done => exact nomatch hstep
  | feeder done => exact nomatch hstep

theorem phase_ownerStep {s t : State} {done : Bool} {out : List Event} (hs : s.Phase)
    (hstep : s.ownerStep done = some (t, out)) : t.Phase ∧ Effect s t out := by
  unfold State.ownerStep at hstep
  split at hstep
  · exact nomatch hstep
  · rename_i howner
    obtain ⟨hrunning, hfd, hdevice, hfeeder⟩ : s.running = true ∧ s.fd = false ∧ s.device = false ∧ s.feeder = .absent := by
      simpa only [State.Phase, howner] using hs
    cases done with
    | true =>
      cases hstep
      exact ⟨⟨hrunning, rfl, rfl, hfeeder⟩, .opened nofun⟩
    | false =>
      cases hstep
      exact ⟨⟨hrunning, rfl, hdevice, hfeeder⟩, .silent id (by simp [howner])⟩
  · rename_i howner
    obtain ⟨-, hfd, hdevice, hfeeder⟩ : s.running = true ∧ s.fd = false ∧ s.device = false ∧ s.feeder = .absent := by
      simpa only [State.Phase, howner] using hs
    cases hstep
    exact ⟨Or.inr ⟨rfl, hfd, hdevice, hfeeder⟩, .silent id (by simp [howner])⟩
  · rename_i howner
    cases hstep
    exact ⟨by simpa only [State.Phase, howner] using hs, .silent id (by simp [howner])⟩
  · rename_i howner
    obtain ⟨hrunning, hfd, hdevice, -⟩ : s.running = true ∧ s.fd = true ∧ s.device = true ∧ s.feeder = .absent := by
      simpa only [State.Phase, howner] using hs
    cases hstep
    exact ⟨Or.inl ⟨hrunning, hfd, hdevice, nofun, nofun⟩, .silent id (by simp [howner])⟩
  · rename_i howner
    obtain ⟨hrunning, hfd, hdevice, -⟩ : s.running = false ∧ s.fd = true ∧ s.device = true ∧ s.feeder.Alive := by
      simpa only [State.Phase, howner] using hs
    split at hstep
    · cases hstep
      exact ⟨⟨hrunning, hfd, hdevice, rfl⟩, .silent id (by simp [howner])⟩
    · exact nomatch hstep
  · rename_i howner
    obtain ⟨hrunning, hfd, hdevice, hfeeder⟩ : s.running = false ∧ s.fd = true ∧ s.device = true ∧ s.feeder = .absent := by
      simpa only [State.Phase, howner] using hs
    rw [if_pos hfd] at hstep
    cases hstep
    exact ⟨⟨hrunning, hfd, hdevice, hfeeder⟩, .disarmed done rfl⟩
  · rename_i howner
    obtain ⟨hrunning, hfd, -, hfeeder⟩ : s.running = false ∧ s.fd = true ∧ s.device = true ∧ s.feeder = .absent := by
      simpa only [State.Phase, howner] using hs
    cases hstep
    exact ⟨⟨hrunning, hfd, rfl, hfeeder⟩, .closed howner nofun rfl⟩
  · rename_i howner
    obtain ⟨hrunning, -, hdevice, hfeeder⟩ : s.running = false ∧ s.fd = true ∧ s.device = false ∧ s.feeder = .absent := by
      simpa only [State.Phase, howner] using hs
    cases hstep
    exact ⟨Or.inr ⟨hrunning, rfl, hdevice, hfeeder⟩, .silent id (by simp [howner])⟩
  · rename_i ping howner
    have hnot : s.owner ≠ .closing := by rw [howner]; nofun
    cases ping with
    | testing =>
      have hsettled : s.Settled := by simpa only [State.Phase, howner] using hs
      rcases hsettled with hopen | hclosed
      · rw [pingStep_open hopen.2.1] at hstep
        cases hstep
        exact ⟨hopen, .silent id (by simp [howner])⟩
      · rw [pingStep_shut hclosed.2.1] at hstep
        cases hstep
        exact ⟨Or.inr hclosed, .silent id (by simp [howner])⟩
    | writing =>
      have hopen : s.running = true ∧ s.fd = true ∧ s.device = true ∧ s.feeder.Feeds := by
        simpa only [State.Phase, howner] using hs
      cases done with
      | true =>
        cases hstep
        exact ⟨hopen, .fed true hopen.2.2.1 hnot nofun⟩
      | false =>
        cases hstep
        exact ⟨Or.inl hopen, .fed false hopen.2.2.1 hnot nofun⟩
    | counting =>
      have hopen : s.running = true ∧ s.fd = true ∧ s.device = true ∧ s.feeder.Feeds := by
        simpa only [State.Phase, howner] using hs
      cases hstep
      exact ⟨Or.inl hopen, .silent id (by simp [howner])⟩

theorem phase_feederStep {s t : State} {done : Bool} {out : List Event} (hs : s.Phase)
    (hstep : s.feederStep done = some (t, out)) : t.Phase ∧ Effect s t out := by
  unfold State.feederStep at hstep
  split at hstep
  · exact nomatch hstep
  · rename_i hfeeder
    cases hstep
    refine ⟨hs.feed (by rw [hfeeder]; nofun) ?_ ?_, .silent id Iff.rfl⟩
    · split_ifs <;> exact nofun
    · split_ifs with hrunning
      · exact nofun
      · exact fun _ => (Bool.not_eq_true _).mp hrunning
  · rename_i ping hfeeder
    have hthere : s.feeder ≠ .absent := by rw [hfeeder]; nofun
    obtain ⟨hfd, hdevice, hnot⟩ := hs.open hthere
    cases ping with
    | testing =>
      rw [pingStep_open hfd] at hstep
      cases hstep
      exact ⟨hs.feed hthere nofun nofun, .silent id Iff.rfl⟩
    | writing =>
      cases done with
      | true =>
        cases hstep
        exact ⟨hs.feed hthere nofun nofun, .fed true hdevice hnot hnot⟩
      | false =>
        cases hstep
        exact ⟨hs.feed hthere nofun nofun, .fed false hdevice hnot hnot⟩
    | counting =>
      cases hstep
      exact ⟨hs.feed hthere nofun nofun, .silent id Iff.rfl⟩
  · rename_i i hfeeder
    have hthere : s.feeder ≠ .absent := by rw [hfeeder]; nofun
    split at hstep
    · cases hstep
      refine ⟨hs.feed hthere ?_ ?_, .silent id Iff.rfl⟩
      · split_ifs <;> exact nofun
      · split_ifs with hrunning
        · exact nofun
        · exact fun _ => (Bool.not_eq_true _).mp hrunning
    · cases hstep
      exact ⟨hs.feed hthere nofun nofun, .silent id Iff.rfl⟩
  · exact nomatch hstep

/-! ## What is written -/

/-- The last of what opens or disarms the device was the magic byte. -/
def disarmed (h : List Event) : Bool :=
  h.foldl (fun d e => match e with
    | .opened => false
    | .write byte _ => byte = magic || d
    | .closed => d) false

structure Ordered (h : List Event) (s : State) : Prop where
  phase : s.Phase
  armed : s.device = true → s.owner ≠ .closing → disarmed h = false
  closing : s.owner = .closing → ∃ done, h.getLast? = some (.write magic done)
  closes : Everywhere (fun before e => e = .closed → ∃ done, before.getLast? = some (.write magic done)) h
  feeds : Everywhere (fun before e => ∀ done, e = .write keepalive done → disarmed before = false) h

theorem ordered_create (interval : Nat) : Ordered [] { interval := interval } where
  phase := Or.inr ⟨rfl, rfl, rfl, rfl⟩
  armed := nofun
  closing := nofun
  closes := .nil
  feeds := .nil

theorem disarmed_append (h : List Event) (e : Event) : disarmed (h ++ [e]) = match e with
    | .opened => false
    | .write byte _ => byte = magic || disarmed h
    | .closed => disarmed h := by
  rw [disarmed, List.foldl_append]
  rfl

theorem Ordered.effect {h out : List Event} {s t : State} (hs : Ordered h s) (ht : t.Phase) (he : Effect s t out) :
    Ordered (h ++ out) t := by
  have hcloses (e : Event) (he : e = .closed → ∃ done, h.getLast? = some (.write magic done)) :
      Everywhere (fun before e => e = .closed → ∃ done, before.getLast? = some (.write magic done)) (h ++ [e]) :=
    Everywhere.snoc_iff.mpr ⟨hs.closes, he⟩
  have hfeeds (e : Event) (he : ∀ done, e = .write keepalive done → disarmed h = false) :
      Everywhere (fun before e => ∀ done, e = .write keepalive done → disarmed before = false) (h ++ [e]) :=
    Everywhere.snoc_iff.mpr ⟨hs.feeds, he⟩
  cases he with
  | silent hdevice howner =>
    rw [List.append_nil]
    exact ⟨ht, fun hd ho => hs.armed (hdevice hd) (mt howner.mpr ho), fun ho => hs.closing (howner.mp ho), hs.closes, hs.feeds⟩
  | opened hto =>
    exact ⟨ht, fun _ _ => disarmed_append h _, fun ho => absurd ho hto, hcloses _ nofun, hfeeds _ nofun⟩
  | fed done hdevice hfrom hto =>
    have harmed := hs.armed hdevice hfrom
    refine ⟨ht, fun _ _ => ?_, fun ho => absurd ho hto, hcloses _ nofun, hfeeds _ fun _ _ => harmed⟩
    have hbyte : (decide (keepalive = magic) || false) = false := by decide
    rw [disarmed_append, harmed]
    exact hbyte
  | disarmed done hto =>
    refine ⟨ht, fun _ ho => absurd hto ho, fun _ => ⟨done, List.getLast?_concat⟩, hcloses _ nofun, hfeeds _ ?_⟩
    intro done' heq
    exact absurd (Event.write.inj heq).1 (by decide)
  | closed hfrom hto hdevice =>
    refine ⟨ht, fun hd => ?_, fun ho => absurd ho hto, hcloses _ fun _ => hs.closing hfrom, hfeeds _ nofun⟩
    rw [hdevice] at hd
    exact nomatch hd

theorem Ordered.step {h out : List Event} {s t : State} {a : Input} (hs : Ordered h s)
    (hstep : process.step s a = some (t, out)) : Ordered (h ++ out) t := by
  have hcall {a : Input} (hstep : ((s.call a).map fun t => (t, ([] : List Event))) = some (t, out)) : Ordered (h ++ out) t := by
    obtain ⟨u, hu, heq⟩ := Option.map_eq_some_iff.mp hstep
    cases heq
    obtain ⟨hphase, heffect⟩ := phase_call hs.phase hu
    exact hs.effect hphase heffect
  cases a with
  | start => exact hcall hstep
  | stop => exact hcall hstep
  | ping => exact hcall hstep
  | owner done =>
    obtain ⟨hphase, heffect⟩ := phase_ownerStep hs.phase hstep
    exact hs.effect hphase heffect
  | feeder done =>
    obtain ⟨hphase, heffect⟩ := phase_feederStep hs.phase hstep
    exact hs.effect hphase heffect

/-- The device stays disarmed until it is opened. -/
theorem opened_of_armed {h h' : List Event} {done : Bool} (h1 : disarmed (h ++ .write magic done :: h') = false) : .opened ∈ h' := by
  induction h' using List.reverseRecOn with
  | nil =>
    rw [disarmed_append] at h1
    exact absurd h1 (by simp)
  | append_singleton h' e ih =>
    rw [← List.cons_append, ← List.append_assoc, disarmed_append] at h1
    cases e with
    | opened => simp
    | write byte done' =>
      rw [Bool.or_eq_false_iff] at h1
      exact List.mem_append_left _ (ih h1.2)
    | closed => exact List.mem_append_left _ (ih h1)

/-- **The device's protocol**, whatever the steps of owner and thread: between calls the device is open just while the watchdog
runs, right before a close stands the magic byte, and between that byte and a keepalive the device was opened. -/
theorem device_protocol (interval : Nat) {inputs : List Input} {s : State} {h : List Event}
    (hrun : process.run { interval := interval } inputs = some (s, h)) :
    (s.owner = .idle → (s.device = true ↔ s.running = true)) ∧
    Everywhere (fun before e => e = .closed → ∃ done, before.getLast? = some (.write magic done)) h ∧
    ∀ before between after done done', h = before ++ .write magic done :: (between ++ .write keepalive done' :: after) →
      .opened ∈ between := by
  have hs : Ordered h s := by
    apply process.run_induction (I := Ordered) ?_ (ordered_create interval) (process.along_true _ _) hrun
    exact fun _ _ _ _ _ hs _ hstep => hs.step hstep
  refine ⟨fun hidle => ?_, hs.closes, ?_⟩
  · have hsettled : s.Settled := by simpa only [State.Phase, hidle] using hs.phase
    rcases hsettled with ⟨hrunning, -, hdevice, -⟩ | ⟨hrunning, -, hdevice, -⟩
    · rw [hrunning, hdevice]
    · rw [hrunning, hdevice]
  · intro before between after done done' heq
    rw [← List.cons_append, ← List.append_assoc] at heq
    exact opened_of_armed (hs.feeds _ _ _ heq done' rfl)

/-- A failed start, a start, a keepalive, and a stop. -/
def oneLife : List Input :=
  [.start, .owner false, .owner false, .start, .owner true, .owner true, .owner true, .feeder true, .feeder true, .feeder true,
    .feeder true, .stop, .feeder true, .owner true, .owner true, .owner true, .owner true]

theorem device_protocol_one_life :
    ∃ s, process.run { interval := 5000 } oneLife =
        some (s, [.opened, .write keepalive true, .write magic true, .closed]) ∧ (s.device = true ↔ s.running = true) := by
  have hend : (process.run { interval := 5000 } oneLife).map (fun r => (r.1.owner, r.2)) =
      some (.idle, [.opened, .write keepalive true, .write magic true, .closed]) := by decide +kernel
  obtain ⟨⟨s, h⟩, hrun, hout⟩ := Option.map_eq_some_iff.mp hend
  obtain ⟨hidle, rfl⟩ := Prod.mk.inj hout
  exact ⟨s, hrun, (device_protocol 5000 hrun).1 hidle⟩

end IbarraGateway.GemaVision.WatchdogProtocol
