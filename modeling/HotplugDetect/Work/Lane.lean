import HotplugDetect.Work.Lock

/-! # Lanes

A lane is the place where one worker serves one work item. The worker waits for a notification,
takes the run lock, and holds it for one run. Clients take the same lock to wait for a run to end.
A notification that finds no waiting worker is kept, but only one of them.
-/

namespace HotplugDetect

/-- A party that takes the run lock of a lane. -/
inductive Claimant
  | worker
  | client (id : Nat)
  deriving DecidableEq

/-- Where the worker of a lane stands. -/
inductive Station (β : Type)
  /-- About to look for a notification. -/
  | idle
  /-- Waiting for a notification, or for an instant. -/
  | parked (alarm : Option Nat) (notified : Bool)
  /-- Has asked for the run lock, and waits for it or owns it by now. -/
  | claiming
  /-- In a run that was not made at once; the rest of the run is kept. -/
  | running (rest : β)
  deriving DecidableEq

structure Lane (β : Type) where
  /-- A kept notification. -/
  permit : Bool := false
  run : Lock Claimant := {}
  worker : Option (Station β) := none
  deriving DecidableEq

namespace Lane

variable {β : Type}

def notify (l : Lane β) : Lane β :=
  match l.worker with
  | some (.parked u false) => { l with worker := some (.parked u true) }
  | _ => { l with permit := true }

@[simp] theorem run_notify (l : Lane β) : l.notify.run = l.run := by
  unfold notify
  split <;> rfl

def start (l : Lane β) : Lane β :=
  { l with worker := l.worker.or (some .idle) }

/-- The worker goes away. It passes an unused notification on and gives the run lock back. -/
def stop (l : Lane β) : Lane β :=
  match l.worker with
  | none => l
  | some .idle => { l with worker := none }
  | some (.parked _ notified) => { l with worker := none, permit := l.permit || notified }
  | some .claiming => { l with worker := none, run := l.run.leave .worker }
  | some (.running _) => { l with worker := none, run := l.run.leave .worker }

def ask (l : Lane β) : Lane β :=
  { l with worker := some .claiming, run := l.run.request .worker }

def begin (l : Lane β) (rest : β) : Lane β := { l with worker := some (.running rest) }

def finish (l : Lane β) : Lane β :=
  { l with worker := some .idle, run := l.run.release }

def rest? (l : Lane β) : Option β :=
  match l.worker with
  | some (.running rest) => some rest
  | _ => none

/-- Whether the worker has something to do; `ready` answers for a run that was not made at once. -/
def canMove (l : Lane β) (now : Nat) (ready : β → Bool) : Bool :=
  match l.worker with
  | none => false
  | some .idle => true
  | some (.parked u notified) => notified || u.any (· ≤ now)
  | some .claiming => l.run.heldBy .worker
  | some (.running rest) => ready rest

/-- The instant for which the worker waits, when it has nothing else to do. -/
def alarm? (l : Lane β) : Option Nat :=
  match l.worker with
  | some (.parked u false) => u
  | _ => none

end Lane

end HotplugDetect
