import HotplugDetect.Controller.Errand
import HotplugDetect.Controller.Turn
import HotplugDetect.Work.Sleep

/-! # Actions and the passing of time

Every operation, every move of a worker and every step of the clock is an action, so that lists of
actions are the runs of a controller. The functions below let the time pass and wait for errands.
-/

namespace HotplugDetect

inductive Action
  | interrupt (i : Interrupt)
  | raw (pinMask longMask : UInt32)
  | init
  | forcePolling (on : Bool)
  | setIrqs (on : Bool)
  | disable (pin : Pin)
  | enable (pin : Pin)
  | setThreshold (client : Nat) (k : ThresholdKnob)
  | setShortStorms (client : Nat) (k : ShortStormKnob)
  | cancelAll (client : Nat)
  | shutdown (client : Nat)
  /-- An errand that waits goes on. -/
  | resume (client : Nat)
  | abandon (client : Nat)
  | start
  /-- An outside party asks for the lock on the display configuration. -/
  | hold (party : Nat)
  /-- An outside party gives the lock back, or does not wait for it any longer. -/
  | release (party : Nat)
  | move (j : Job) (timerFirst : Bool)
  /-- The turn of the first worker is over. -/
  | giveWay
  /-- The clock goes on to an instant. -/
  | advance (instant : Nat)

namespace Controller

variable {ρ : Type}

/-- Every pin is enabled, and the poll modes are left to the worker. -/
def init (s : Controller ρ) : Controller ρ :=
  ({ s with table := s.table.reset, pollForced := false }.queuePollInit).setupIrqs

def forcePolling (s : Controller ρ) (on : Bool) : Controller ρ :=
  { s with pollForced := on }.queuePollInit

def disable (s : Controller ρ) (pin : Pin) : Controller ρ × Bool :=
  let (table, done) := s.table.disable pin
  ({ s with table }, done)

def enable (s : Controller ρ) (pin : Pin) : Controller ρ :=
  { s with table := s.table.enable pin }

def held (s : Controller ρ) : Bool :=
  match s.mode.holder with
  | some (.outside _) => true
  | _ => false

/-- Every outside party asks once. -/
def hold (s : Controller ρ) (party : Nat) : Controller ρ :=
  if .outside party ∈ s.mode.line then s else s.requestMode (.outside party)

def release (s : Controller ρ) (party : Nat) : Controller ρ :=
  if s.mode.heldBy (.outside party) then s.releaseMode
  else { s with mode := s.mode.leave (.outside party) }

def advance (s : Controller ρ) (instant : Nat) : Controller ρ :=
  { s with now := max s.now instant }.rouse .reenable

def act [Probe ρ] (s : Controller ρ) : Action → Controller ρ
  | .interrupt i => s.interrupt i
  | .raw pinMask longMask => s.raw pinMask longMask
  | .init => s.init
  | .forcePolling on => s.forcePolling on
  | .setIrqs on => { s with irqsEnabled := on }
  | .disable pin => (s.disable pin).1
  | .enable pin => s.enable pin
  | .setThreshold client k => s.setThreshold client k
  | .setShortStorms client k => s.setShortStorms client k
  | .cancelAll client => s.cancelAll client
  | .shutdown client => s.shutdown client
  | .resume client => s.resume client
  | .abandon client => s.abandon client
  | .start => (s.start true).toOption.getD s
  | .hold party => s.hold party
  | .release party => s.release party
  | .move j timerFirst => s.move j timerFirst
  | .giveWay => s.giveWay
  | .advance instant => s.advance instant

def run [Probe ρ] (s : Controller ρ) (as : List Action) : Controller ρ := as.foldl act s

/-- The instant at which the recovery is due. -/
def alarm? (s : Controller ρ) : Option Nat := s.reenable.toLane.alarm?

/-- Lets the time pass up to an instant, stopping at every earlier alarm. At the last instant the
workers have not acted yet. -/
def sleepUntil [BoundedProbe ρ] (instant : Nat) : Nat → Controller ρ → Controller ρ
  | 0, s => s.advance instant
  | fuel + 1, s =>
    let s := s.settle
    match s.alarm? with
    | some a =>
      if a < instant then sleepUntil instant fuel (s.advance a) else s.advance instant
    | none => s.advance instant

/-- A recovery does not arm another one, so that few alarms go off by themselves. -/
def alarmsPerSleep : Nat := 4

def sleep [BoundedProbe ρ] (s : Controller ρ) (ms : Nat) : Controller ρ :=
  sleepUntil (wakeUp s.now ms) alarmsPerSleep s

/-- Lets the workers act until the errand of a client is done or cannot go on. -/
def awaitErrand [BoundedProbe ρ] (client : Nat) : Nat → Controller ρ → Controller ρ
  | 0, s => s
  | fuel + 1, s =>
    match s.errand? client with
    | none => s
    | some e =>
      let s := s.settle
      if s.holdsRun e.job client then awaitErrand client fuel (s.resume client) else s

/-- Waits for an errand, which takes one run lock after the other. -/
def await [BoundedProbe ρ] (s : Controller ρ) (client : Nat) : Controller ρ :=
  awaitErrand client (Job.all.length + 2) s

/-- Waits for an errand for some time and then gives it up; tells whether it was done. -/
def awaitFor [BoundedProbe ρ] (s : Controller ρ) (client ms : Nat) : Controller ρ × Bool :=
  let s := s.await client
  if (s.errand? client).isNone then (s, true)
  else
    let s := (s.sleep ms).await client
    if (s.errand? client).isNone then (s, true) else (s.abandon client, false)

def stormStatus (s : Controller ρ) : StormStatus := ⟨s.table.config.threshold, s.reenable.armed⟩

def shortStormStatus (s : Controller ρ) : ShortStormStatus := ⟨s.table.config.shortStorms⟩

end Controller

end HotplugDetect
