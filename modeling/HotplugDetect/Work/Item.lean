import HotplugDetect.Work.Lane

/-! # Work items

Queueing an item that is already pending changes nothing, and queueing it during a run leads to one
more run. Cancelling drops the pending run and waits for the one in flight.
-/

namespace HotplugDetect

structure Work (β : Type) extends Lane β where
  pending : Bool := false
  deriving DecidableEq

inductive Moved
  /-- The worker has claimed a run and holds the run lock. -/
  | claimed
  /-- The worker goes on looking, or has to wait. -/
  | looking
  deriving DecidableEq

namespace Work

variable {β : Type}

/-- Also answers whether the item was not pending before. -/
def queue (w : Work β) : Work β × Bool :=
  if w.pending then (w, false)
  else ({ w with toLane := w.toLane.notify, pending := true }, true)

@[simp] theorem pending_queue (w : Work β) : w.queue.1.pending = true := by
  unfold queue
  split <;> simp_all

def disarm (w : Work β) : Work β := { w with pending := false }

/-- The worker holds the run lock. A cancel that came first has dropped the run. -/
def claim (w : Work β) : Work β × Moved :=
  if w.pending then ({ w with pending := false }, .claimed)
  else ({ w with toLane := w.toLane.finish }, .looking)

/-- One move of the worker on its way to the next run. -/
def seek (w : Work β) : Work β × Moved :=
  match w.worker with
  | some .idle =>
    if w.permit then ({ w with toLane := { w.toLane with permit := false }.ask }, .looking)
    else ({ w with worker := some (.parked none false) }, .looking)
  | some (.parked _ true) => ({ w with toLane := w.toLane.ask }, .looking)
  | some .claiming => if w.run.heldBy .worker then claim w else (w, .looking)
  | _ => (w, .looking)

end Work

end HotplugDetect
