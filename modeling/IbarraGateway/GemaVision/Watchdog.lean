/-!
# Hardware watchdog

The device, and the thread that feeds it. A ping is a write of one byte; the environment says whether it succeeds. The steps
of `stop` are apart, since it waits for the thread.
-/

namespace IbarraGateway.GemaVision

/-- `sleeping i` : the loop variable of the sliced sleep. -/
inductive Keepalive
  | absent
  | checking
  | pinging
  | sleeping (i : Nat)
  | returned
  deriving DecidableEq, Repr

/-- `interval` in milliseconds; `fd` says whether the device is open. -/
structure Watchdog where
  interval : Nat
  fd : Bool
  running : Bool
  pingCount : Nat
  thread : Keepalive
  deriving DecidableEq, Repr

inductive WatchdogEvent
  | pinged
  | disarmed
  | closed
  deriving DecidableEq, Repr

namespace Watchdog

def create (interval : Nat) : Watchdog := ⟨interval, false, false, 0, .absent⟩

/-- The watchdog, and what `start` returns. -/
def start (w : Watchdog) (opened : Bool) : Watchdog × Bool :=
  if w.running then (w, true)
  else if opened then ({ w with fd := true, running := true, pingCount := 0, thread := .checking }, true)
  else ({ w with fd := false, running := false }, false)

def ping (w : Watchdog) (written : Bool) : Watchdog × List WatchdogEvent :=
  if w.fd && written then ({ w with pingCount := w.pingCount + 1 }, [.pinged]) else (w, [])

def chunk (w : Watchdog) : Nat := min w.interval 100

def iterations (w : Watchdog) : Nat := w.interval / w.chunk

/-- `keepalive_loop`. -/
def keepaliveLoop (w : Watchdog) (written : Bool) : Option (Watchdog × List WatchdogEvent) :=
  match w.thread with
  | .absent => none
  | .checking => some ({ w with thread := if w.running then .pinging else .returned }, [])
  | .pinging =>
    let (w, out) := w.ping written
    some ({ w with thread := .sleeping 0 }, out)
  | .sleeping i =>
    if i < w.iterations then some ({ w with thread := if w.running then .sleeping (i + 1) else .returned }, [])
    else some ({ w with thread := .checking }, [])
  | .returned => none

/-- The end of `stop`, when the thread has returned. -/
def close (w : Watchdog) : Watchdog × List WatchdogEvent :=
  if w.fd then ({ w with fd := false }, [.disarmed, .closed]) else (w, [])

end Watchdog

/-- The keepalive interval of `main`, in seconds: what `strtol` makes of `GEMA_WATCHDOG_INTERVAL_SEC`, `none` when it is not
set or no digits are there. -/
def watchdogInterval : Option Int → Nat
  | some val => if 1 ≤ val ∧ val ≤ 300 then val.toNat else 5
  | none => 5

end IbarraGateway.GemaVision
