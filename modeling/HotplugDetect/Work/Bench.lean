import HotplugDetect.Work.Item
import HotplugDetect.Work.Sleep

/-! # A work item on a bench

One worker serves one item while clients queue and cancel it. Every step of the worker, of a client
and of the clock is an action of its own, so that runs of actions are the interleavings; the waiting
functions below drive the worker whenever it can move.
-/

namespace HotplugDetect

structure RunRecord where
  start : Nat
  stop : Option Nat := none
  deriving DecidableEq

def RunRecord.close (now : Nat) : List RunRecord → List RunRecord
  | r :: rest => { r with stop := some now } :: rest
  | [] => []

structure WorkBench where
  /-- A run in flight is over at the instant that its station holds. -/
  work : Work Nat := {}
  /-- The clients whose cancel waits for the run lock. -/
  cancelling : List Nat := []
  now : Nat := 0
  /-- The runs so far, last one first. -/
  runs : List RunRecord := []

namespace WorkBench

inductive Action
  | queue
  | cancel (client : Nat)
  /-- A cancel that waits goes on. -/
  | resume (client : Nat)
  /-- The worker moves; a run that it claims takes `length`. -/
  | move (length : Nat)
  /-- The clock goes on to an instant. -/
  | advance (instant : Nat)

def endRun (b : WorkBench) : WorkBench :=
  { b with
    work := { b.work with toLane := b.work.toLane.finish }
    runs := RunRecord.close b.now b.runs }

def beginRun (b : WorkBench) (length : Nat) : WorkBench :=
  let b := { b with
    work := { b.work with worker := some (.running (wakeUp b.now length)) }
    runs := { start := b.now } :: b.runs }
  if length = 0 then b.endRun else b

def move (b : WorkBench) (length : Nat) : WorkBench :=
  match b.work.worker with
  | some (.running stop) => if stop ≤ b.now then b.endRun else b
  | _ =>
    match b.work.seek with
    | (work, .claimed) => { b with work }.beginRun length
    | (work, .looking) => { b with work }

def requestRun (b : WorkBench) (client : Nat) : WorkBench :=
  { b with work := { b.work with run := b.work.run.request (.client client) } }

def releaseRun (b : WorkBench) : WorkBench :=
  { b with work := { b.work with run := b.work.run.release } }

def holdsRun (b : WorkBench) (client : Nat) : Bool := b.work.run.heldBy (.client client)

def cancel (b : WorkBench) (client : Nat) : WorkBench :=
  if client ∈ b.cancelling then b
  else
    let b := { b with work := b.work.disarm }.requestRun client
    if b.holdsRun client then b.releaseRun
    else { b with cancelling := b.cancelling ++ [client] }

def resume (b : WorkBench) (client : Nat) : WorkBench :=
  if client ∈ b.cancelling ∧ b.holdsRun client then
    { b with cancelling := b.cancelling.erase client }.releaseRun
  else b

def act (b : WorkBench) : Action → WorkBench
  | .queue => { b with work := b.work.queue.1 }
  | .cancel client => b.cancel client
  | .resume client => b.resume client
  | .move length => b.move length
  | .advance instant => { b with now := max b.now instant }

def manned : WorkBench := { work := { worker := some .idle } }

def canMove (b : WorkBench) : Bool := b.work.canMove b.now (· ≤ b.now)

def settle (b : WorkBench) (length : Nat) : Nat → WorkBench
  | 0 => b
  | fuel + 1 => if b.canMove then (b.move length).settle length fuel else b

/-- More moves than a worker can make at one instant. -/
def movesPerInstant : Nat := 16

def quiet (b : WorkBench) (length : Nat) : WorkBench := b.settle length movesPerInstant

def alarm? (b : WorkBench) : Option Nat :=
  match b.work.worker with
  | some (.running stop) => some stop
  | _ => none

/-- Lets the time pass up to an instant, stopping at every earlier alarm. The worker has not moved
at the last instant. One run may be in flight and one more be due. -/
def passUntil (b : WorkBench) (length instant : Nat) : Nat → WorkBench
  | 0 => b.act (.advance instant)
  | fuel + 1 =>
    let b := b.quiet length
    match b.alarm? with
    | some a =>
      if a < instant then (b.act (.advance a)).passUntil length instant fuel
      else b.act (.advance instant)
    | none => b.act (.advance instant)

def pass (b : WorkBench) (length ms : Nat) : WorkBench :=
  b.passUntil length (wakeUp b.now ms) movesPerInstant

def cancelled (b : WorkBench) (length : Nat) : WorkBench :=
  go (b.cancel 0) movesPerInstant
where
  go (b : WorkBench) : Nat → WorkBench
    | 0 => b
    | fuel + 1 =>
      if b.cancelling.isEmpty then b
      else
        let b := b.quiet length
        if b.holdsRun 0 then b.resume 0
        else match b.alarm? with
          | some a => go (b.act (.advance a)) fuel
          | none => b

end WorkBench

end HotplugDetect
