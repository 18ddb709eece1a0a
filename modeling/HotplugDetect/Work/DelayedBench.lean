import HotplugDetect.Work.Bench
import HotplugDetect.Work.Delayed

/-! # A delayed work item on a bench

One worker serves one delayed item while clients arm it, take it over, and cancel it. A client that
took the item over keeps the run lock until it gives it back.
-/

namespace HotplugDetect

/-- What a client does on a delayed item. -/
inductive Visit
  | cancelling
  | taking
  /-- The item was taken over and its run belongs to the client. -/
  | holding
  deriving DecidableEq

structure DelayedBench where
  work : DelayedWork Nat := {}
  visits : List (Nat × Visit) := []
  now : Nat := 0
  /-- The runs of the worker so far, last one first. -/
  runs : List RunRecord := []

namespace DelayedBench

inductive Action
  | schedule (delay : Nat)
  | cancel (client : Nat)
  | take (client : Nat)
  /-- A client that waits for the run lock goes on. -/
  | resume (client : Nat)
  /-- A client gives back what it took over. -/
  | giveBack (client : Nat)
  | move (length : Nat) (timerFirst : Bool)
  | advance (instant : Nat)

def endRun (b : DelayedBench) : DelayedBench :=
  { b with
    work := { b.work with toLane := b.work.toLane.finish }
    runs := RunRecord.close b.now b.runs }

def beginRun (b : DelayedBench) (length : Nat) : DelayedBench :=
  let b := { b with
    work := { b.work with worker := some (.running (wakeUp b.now length)) }
    runs := { start := b.now } :: b.runs }
  if length = 0 then b.endRun else b

def move (b : DelayedBench) (length : Nat) (timerFirst : Bool) : DelayedBench :=
  match b.work.worker with
  | some (.running stop) => if stop ≤ b.now then b.endRun else b
  | _ =>
    match b.work.seek b.now timerFirst with
    | (work, .claimed) => { b with work }.beginRun length
    | (work, .looking) => { b with work }

def requestRun (b : DelayedBench) (client : Nat) : DelayedBench :=
  { b with work := { b.work with run := b.work.run.request (.client client) } }

def releaseRun (b : DelayedBench) : DelayedBench :=
  { b with work := { b.work with run := b.work.run.release } }

def holdsRun (b : DelayedBench) (client : Nat) : Bool := b.work.run.heldBy (.client client)

def leave (b : DelayedBench) (client : Nat) : DelayedBench :=
  { b with visits := b.visits.filter (·.1 != client) }

/-- The client holds the run lock: an armed item is now its own. -/
def takeOver (b : DelayedBench) (client : Nat) : DelayedBench :=
  let armed := b.work.armed
  let b := { b with work := b.work.disarm }
  if armed then { b with visits := b.visits ++ [(client, .holding)] } else b.releaseRun

def busy (b : DelayedBench) (client : Nat) : Bool := (b.visits.lookup client).isSome

def cancel (b : DelayedBench) (client : Nat) : DelayedBench :=
  if b.busy client then b
  else
    let b := { b with work := b.work.disarm }.requestRun client
    if b.holdsRun client then b.releaseRun
    else { b with visits := b.visits ++ [(client, .cancelling)] }

def take (b : DelayedBench) (client : Nat) : DelayedBench :=
  if b.busy client then b
  else
    let b := b.requestRun client
    if b.holdsRun client then b.takeOver client
    else { b with visits := b.visits ++ [(client, .taking)] }

def resume (b : DelayedBench) (client : Nat) : DelayedBench :=
  if b.holdsRun client then
    match b.visits.lookup client with
    | some .cancelling => (b.leave client).releaseRun
    | some .taking => (b.leave client).takeOver client
    | _ => b
  else b

def giveBack (b : DelayedBench) (client : Nat) : DelayedBench :=
  if b.visits.lookup client = some .holding then (b.leave client).releaseRun else b

def act (b : DelayedBench) : Action → DelayedBench
  | .schedule delay => { b with work := b.work.schedule (b.now + delay) }
  | .cancel client => b.cancel client
  | .take client => b.take client
  | .resume client => b.resume client
  | .giveBack client => b.giveBack client
  | .move length timerFirst => b.move length timerFirst
  | .advance instant => { b with now := max b.now instant }

def manned : DelayedBench := { work := { worker := some .idle } }

def canMove (b : DelayedBench) : Bool := b.work.canMove b.now (· ≤ b.now)

def settle (b : DelayedBench) (length : Nat) : Nat → DelayedBench
  | 0 => b
  | fuel + 1 => if b.canMove then (b.move length true).settle length fuel else b

def quiet (b : DelayedBench) (length : Nat) : DelayedBench :=
  b.settle length WorkBench.movesPerInstant

def alarm? (b : DelayedBench) : Option Nat :=
  match b.work.worker with
  | some (.running stop) => some stop
  | _ => b.work.toLane.alarm?

def passUntil (b : DelayedBench) (length instant : Nat) : Nat → DelayedBench
  | 0 => b.act (.advance instant)
  | fuel + 1 =>
    let b := b.quiet length
    match b.alarm? with
    | some a =>
      if a < instant then (b.act (.advance a)).passUntil length instant fuel
      else b.act (.advance instant)
    | none => b.act (.advance instant)

def pass (b : DelayedBench) (length ms : Nat) : DelayedBench :=
  b.passUntil length (wakeUp b.now ms) WorkBench.movesPerInstant

def await (b : DelayedBench) (length : Nat) : Nat → DelayedBench
  | 0 => b
  | fuel + 1 =>
    match b.visits.lookup 0 with
    | none => b
    | some .holding => b
    | some _ =>
      let b := b.quiet length
      if b.holdsRun 0 then b.resume 0
      else match b.alarm? with
        | some a => (b.act (.advance a)).await length fuel
        | none => b

def cancelled (b : DelayedBench) (length : Nat) : DelayedBench :=
  (b.cancel 0).await length WorkBench.movesPerInstant

/-- Takes the item over and tells whether it was armed. The client may keep it for some time; when
it gives the item back then, the worker has moved as far as it can without the run lock. -/
def taken (b : DelayedBench) (length : Nat) (hold : Option Nat) : DelayedBench × Bool :=
  let b := (b.take 0).await length WorkBench.movesPerInstant
  let armed := b.visits.lookup 0 = some .holding
  match hold with
  | none => (b.giveBack 0, armed)
  | some ms => (((b.pass length ms).quiet length).giveBack 0, armed)

end DelayedBench

end HotplugDetect
