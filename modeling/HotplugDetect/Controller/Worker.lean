import HotplugDetect.Controller.Passes

/-! # The workers

A worker looks for its work and runs it. One move takes it to the next lock, for which it asks, or
to the next place where it has to wait. Other parties may act between two moves, also when the
worker owns the lock by then. The workers that can move stand in a line.
-/

namespace HotplugDetect.Controller

variable {ρ : Type}

def lane (s : Controller ρ) : Job → Lane Rest
  | .digital => s.digital.toLane
  | .generic => s.generic.toLane
  | .pollInit => s.pollInit.toLane
  | .reenable => s.reenable.toLane

def withLane (s : Controller ρ) (j : Job) (f : Lane Rest → Lane Rest) : Controller ρ :=
  match j with
  | .digital => { s with digital := { s.digital with toLane := f s.digital.toLane } }
  | .generic => { s with generic := { s.generic with toLane := f s.generic.toLane } }
  | .pollInit => { s with pollInit := { s.pollInit with toLane := f s.pollInit.toLane } }
  | .reenable => { s with reenable := { s.reenable with toLane := f s.reenable.toLane } }

def beginRun (s : Controller ρ) (j : Job) (rest : Rest) : Controller ρ :=
  s.withLane j (·.begin rest)

def finishRun (s : Controller ρ) (j : Job) : Controller ρ := s.withLane j Lane.finish

def requestMode (s : Controller ρ) (p : ModeParty) : Controller ρ :=
  { s with mode := s.mode.request p }

def moveDigital (s : Controller ρ) : Controller ρ :=
  match s.digital.worker with
  | some (.running rest) =>
    match rest.pulses with
    | some (long, short) =>
      let (s, refused) := s.deliver long short ∅ Port.all
      s.beginRun .digital { pins := refused }
    | none => (s.fallBack rest.pins).finishRun .digital
  | _ =>
    match s.digital.seek with
    | (digital, .looking) => { s with digital }
    | (digital, .claimed) =>
      let (s, rest) := { s with digital }.takePulses
      s.beginRun .digital rest

def moveGeneric [Probe ρ] (s : Controller ρ) : Controller ρ :=
  match s.generic.worker with
  | some (.running rest) =>
    if s.mode.heldBy .generic then (s.probePass rest.pins).finishRun .generic else s
  | _ =>
    match s.generic.seek with
    | (generic, .looking) => { s with generic }
    | (generic, .claimed) =>
      let (s, pins) := { s with generic }.takeEvents
      (s.beginRun .generic { pins }).requestMode .generic

def movePollInit (s : Controller ρ) : Controller ρ :=
  match s.pollInit.worker with
  | some (.running rest) =>
    if s.mode.heldBy .pollInit then (s.pollInitPass rest.pins).finishRun .pollInit else s
  | _ =>
    match s.pollInit.seek with
    | (pollInit, .looking) => { s with pollInit }
    | (pollInit, .claimed) =>
      ({ s with pollInit }.beginRun .pollInit { pins := s.table.pinsIn .disabled }).requestMode
        .pollInit

def moveReenable (s : Controller ρ) (timerFirst : Bool) : Controller ρ :=
  match s.reenable.seek s.now timerFirst with
  | (reenable, .looking) => { s with reenable }
  | (reenable, .claimed) =>
    ({ s with reenable }.beginRun .reenable {}).reenablePass.finishRun .reenable

/-- One move of a worker. It stays at the head of the line until it has to wait. -/
def move [Probe ρ] (s : Controller ρ) (j : Job) (timerFirst : Bool) : Controller ρ :=
  let s := match j with
    | .digital => s.moveDigital
    | .generic => s.moveGeneric
    | .pollInit => s.movePollInit
    | .reenable => s.moveReenable timerFirst
  { s with ready := (if s.canMove j then [j] else []) ++ s.ready.filter (· ≠ j) }

def start (s : Controller ρ) (executor : Bool) : Except Failure (Controller ρ) :=
  if !executor then .error .noExecutor
  else if s.started then .error .alreadyStarted
  else
    let s := Job.all.foldl (fun s j => (s.withLane j Lane.start).rouse j) s
    .ok (s.note (.started Job.all.length))

/-- The workers go away where they stand. A run that waits for the lock on the display configuration
does not want it any more. -/
def stopWorkers (s : Controller ρ) : Controller ρ :=
  let s := Job.all.foldl (fun s j => s.withLane j Lane.stop) s
  { s with mode := (s.mode.leave .generic).leave .pollInit, ready := [] }.note .stopped

end HotplugDetect.Controller
