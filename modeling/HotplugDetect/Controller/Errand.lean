import HotplugDetect.Controller.Worker
import HotplugDetect.Knob

/-! # Operations that wait for runs in flight

Cancelling all work and setting a knob take the run lock of a job. While a run is in flight such an
operation is an errand of its client, which goes on once the lock was handed over.
-/

namespace HotplugDetect.Controller

variable {ρ : Type}

def withErrand (s : Controller ρ) (client : Nat) (e : Errand) : Controller ρ :=
  { s with errands := s.errands ++ [(client, e)] }

def withoutErrand (s : Controller ρ) (client : Nat) : Controller ρ :=
  { s with errands := s.errands.filter (·.1 != client) }

def errand? (s : Controller ρ) (client : Nat) : Option Errand := s.errands.lookup client

def requestRun (s : Controller ρ) (j : Job) (client : Nat) : Controller ρ :=
  s.withLane j fun l => { l with run := l.run.request (.client client) }

def holdsRun (s : Controller ρ) (j : Job) (client : Nat) : Bool :=
  (s.lane j).run.heldBy (.client client)

def releaseRun (s : Controller ρ) (j : Job) : Controller ρ :=
  (s.withLane j fun l => { l with run := l.run.release }).rouse j

def disarm (s : Controller ρ) : Job → Controller ρ
  | .digital => { s with digital := s.digital.disarm }
  | .generic => { s with generic := s.generic.disarm }
  | .pollInit => { s with pollInit := s.pollInit.disarm }
  | .reenable => { s with reenable := s.reenable.disarm }.rouse .reenable

/-- The workers stop where they wait. A run of the digital-port job does not wait: it is made to its
end before. -/
def stopAll (s : Controller ρ) (client : Nat) : Controller ρ :=
  let waiting := s.requestRun .digital client
  if s.digital.rest?.isSome && !waiting.holdsRun .digital client then
    waiting.withErrand client (.cancel .digital [] true)
  else s.stopWorkers

/-- Cancels the jobs one after the other, each as soon as it is not in flight. -/
def cancelJobs (s : Controller ρ) (client : Nat) (stop : Bool) : List Job → Controller ρ
  | [] => if stop then s.stopAll client else s
  | j :: rest =>
    let s := (s.disarm j).requestRun j client
    if s.holdsRun j client then (s.releaseRun j).cancelJobs client stop rest
    else s.withErrand client (.cancel j rest stop)

/-- Drops all pending events and work. -/
def cancelAll (s : Controller ρ) (client : Nat) : Controller ρ :=
  if (s.errand? client).isSome then s
  else
    { s with longPorts := ∅, shortPorts := ∅, eventPins := ∅ }.cancelJobs client false Job.all

def shutdown (s : Controller ρ) (client : Nat) : Controller ρ :=
  if (s.errand? client).isSome then s
  else
    { s with longPorts := ∅, shortPorts := ∅, eventPins := ∅ }.cancelJobs client true Job.all

/-- The client holds the run lock of the re-enable job: an armed recovery happens right now. -/
def recoverNow (s : Controller ρ) : Controller ρ :=
  let armed := s.reenable.armed
  let s := s.disarm .reenable
  (if armed then s.reenablePass else s).releaseRun .reenable

def flush (s : Controller ρ) (client : Nat) : Controller ρ :=
  let s := s.requestRun .reenable client
  if s.holdsRun .reenable client then s.recoverNow else s.withErrand client .flush

/-- Puts new storm settings in force: every count starts anew and a past storm is forgotten. -/
def configure (s : Controller ρ) (client : Nat) (config : StormConfig) : Controller ρ :=
  { s with table := { s.table with config }.clearCounts }.flush client

def setThreshold (s : Controller ρ) (client : Nat) (k : ThresholdKnob) : Controller ρ :=
  if (s.errand? client).isSome then s
  else
    let threshold := match k with
      | .reset => defaultThreshold
      | .set n => n
    (s.note (.threshold threshold)).configure client { s.table.config with threshold }

def setShortStorms (s : Controller ρ) (client : Nat) (k : ShortStormKnob) : Controller ρ :=
  if (s.errand? client).isSome then s
  else
    let shortStorms := match k with
      | .reset => s.caps.countsShortStorms
      | .set on => on
    (s.note (.shortStorms shortStorms)).configure client { s.table.config with shortStorms }

/-- The errand goes on, if the lock that it waits for was handed over. -/
def resume (s : Controller ρ) (client : Nat) : Controller ρ :=
  match s.errand? client with
  | some (.cancel j rest stop) =>
    if s.holdsRun j client then
      ((s.withoutErrand client).releaseRun j).cancelJobs client stop rest
    else s
  | some .flush =>
    if s.holdsRun .reenable client then (s.withoutErrand client).recoverNow else s
  | none => s

def abandon (s : Controller ρ) (client : Nat) : Controller ρ :=
  match s.errand? client with
  | some e =>
    ((s.withoutErrand client).withLane e.job fun l =>
      { l with run := l.run.leave (.client client) }).rouse e.job
  | none => s

end HotplugDetect.Controller
