import HotplugDetect.Work.Item

/-! # Delayed work items

A delayed item is armed with a deadline. Arming it again replaces the deadline. A client may take
the item over before its deadline, and cancelling disarms it and waits for the run in flight.
-/

namespace HotplugDetect

structure DelayedWork (β : Type) extends Lane β where
  deadline : Option Nat := none
  deriving DecidableEq

namespace DelayedWork

variable {β : Type}

def schedule (w : DelayedWork β) (instant : Nat) : DelayedWork β :=
  { w with toLane := w.toLane.notify, deadline := some instant }

def disarm (w : DelayedWork β) : DelayedWork β :=
  { w with toLane := w.toLane.notify, deadline := none }

def armed (w : DelayedWork β) : Bool := w.deadline.isSome

def due (w : DelayedWork β) (now : Nat) : Bool := w.deadline.any (· ≤ now)

/-- The worker holds the run lock. The deadline may have been moved or dropped while it waited. -/
def claim (w : DelayedWork β) (now : Nat) : DelayedWork β × Moved :=
  if w.due now then ({ w with deadline := none }, .claimed)
  else ({ w with toLane := w.toLane.finish }, .looking)

/-- One move of the worker on its way to the next run. When both a notification and the instant
have come, `timerFirst` tells which one the worker notices; the notification is then kept. -/
def seek (w : DelayedWork β) (now : Nat) (timerFirst : Bool) : DelayedWork β × Moved :=
  match w.worker with
  | some .idle =>
    if w.due now && (timerFirst || !w.permit) then
      ({ w with toLane := w.toLane.ask }, .looking)
    else if w.permit then ({ w with permit := false }, .looking)
    else ({ w with worker := some (.parked w.deadline false) }, .looking)
  | some (.parked u notified) =>
    if u.any (· ≤ now) && (timerFirst || !notified) then
      ({ w with toLane := { w.toLane with permit := w.permit || notified }.ask }, .looking)
    else if notified then ({ w with worker := some .idle }, .looking)
    else (w, .looking)
  | some .claiming => if w.run.heldBy .worker then claim w now else (w, .looking)
  | _ => (w, .looking)

end DelayedWork

end HotplugDetect
