import HotplugDetect.Controller.Action
import HotplugDetect.Scenario.Basic
import HotplugDetect.Simulation.Report

/-! # Simulations

A simulation runs the controller on the hardware of a scenario. Sinks are attached to connectors and
removed, and a probe answers whether its sink came or went since it was last asked.
-/

namespace HotplugDetect

structure Sink where
  connected : Bool
  /-- What the last probe saw. -/
  reported : Bool
  detects : Nat := 0
  deriving DecidableEq

def Sink.detect (s : Sink) : Detection Sink where
  changed := s.reported != s.connected
  raised := []
  next := { s with reported := s.connected, detects := s.detects + 1 }

instance : BoundedProbe Sink where
  detect := Sink.detect
  budget _ := 0
  budget_detect _ := Nat.le_refl 0

/-- What a simulation remembers, in the order in which it happened. -/
inductive Moment
  | core (e : Event)
  | step (s : Step)
  | disabled (pin : Pin) (wasEnabled : Bool)
  deriving DecidableEq

/-- The message that a moment leaves in the log. -/
def Moment.message? : Moment → Option Message
  | core (.note m) => some m
  | core (.call (.irqSetup enabled _ _)) => some (.enabledPins enabled)
  | core (.call _) => none
  | step s => some (.step s.describe)
  | disabled _ _ => none

/-- A line of the event log. -/
structure LogRecord where
  event : String
  data : Json

def Moment.record? : Moment → Option LogRecord
  | core (.call .hotplugEvent) => some ⟨"hotplug_event", .null⟩
  | core _ => none
  | step s => some ⟨"step", s.write⟩
  | disabled pin wasEnabled =>
    some ⟨"disable_pin", .object [("pin", Pin.codec.write pin), ("was_enabled", wasEnabled)]⟩

structure Simulation where
  name : Option String
  core : Controller Sink
  ports : List DigitalPortSpec
  /-- Everything that happened so far, last one first. The controller hands its own events over
  after every step. -/
  history : List Moment := []

namespace Simulation

def gather (s : Simulation) : Simulation :=
  { s with
    history := s.core.trace.map Moment.core ++ s.history
    core := { s.core with trace := [] } }

def remember (s : Simulation) (m : Moment) : Simulation :=
  { s with history := m :: s.history }

def withCore (s : Simulation) (f : Controller Sink → Controller Sink) : Simulation :=
  { s with core := f s.core }

def connector (c : ConnectorSpec) : Connector Sink :=
  .make c.name c.pin c.preference c.multiStream
    { connected := c.connected, reported := c.connected }

/-- What a port answers to pulses, if it is registered. -/
def handler (ports : List DigitalPortSpec) (port : Port) : Option PulseHandler :=
  (ports.find? (·.port = port)).map fun d =>
    { usual := fun long => if long then d.handlesLong else d.handlesShort }

/-- Builds the hardware of a valid scenario and starts the workers. The settings of the scenario win
over the others. -/
def new (scenario : Scenario) (settings : Settings) : Except Failure Simulation := do
  scenario.validate
  let core := Controller.ofSettings (scenario.settings.getD settings)
    (scenario.connectors.map connector) (handler scenario.digitalPorts)
  let core ← core.start true
  let core := core.note (.simulating scenario.connectors.length scenario.digitalPorts.length)
  .ok (gather { name := scenario.name, core, ports := scenario.digitalPorts })

def plug (s : Simulation) (name : String) (connected : Bool) : Except Failure Simulation :=
  match s.core.connectors.named name with
  | none => .error (.unknownConnector name)
  | some _ =>
    .ok <| s.withCore fun core =>
      { core with
        connectors := core.connectors.map fun c =>
          if c.name = name then { c with probe := { c.probe with connected } } else c }

def disablePin (s : Simulation) (pin : Pin) : Simulation :=
  let (core, done) := s.core.disable pin
  { s with core }.remember (.disabled pin done)

def client : Nat := 0

def perform (s : Simulation) : Step → Except Failure Simulation
  | .irq pins long times =>
    .ok (s.withCore (Nat.repeat (·.interrupt ⟨.ofList pins, .ofList long⟩) times.toNat))
  | .raw pinMask longMask => .ok (s.withCore (·.raw pinMask longMask))
  | .wait ms => .ok (s.withCore (·.sleep ms.toNat))
  | .plug name connected => s.plug name connected
  | .disablePin pin => .ok (s.disablePin pin)
  | .enablePin pin => .ok (s.withCore (·.enable pin))
  | .forcePolling on => .ok (s.withCore (·.forcePolling on))
  | .irqsEnabled on => .ok (s.withCore ({ · with irqsEnabled := on }))
  | .threshold value => do
    let k ← ThresholdKnob.parse value
    .ok (s.withCore fun core => (core.setThreshold client k).await client)
  | .shortStorms value => do
    let k ← ShortStormKnob.parse value
    .ok (s.withCore fun core => (core.setShortStorms client k).await client)
  | .init => .ok (s.withCore Controller.init)

/-- The time in milliseconds that the workers get after every step. -/
def settleTime : Nat := 5

/-- One step and the time after it. A step that fails ends there. -/
def runStep (s : Simulation) (step : Step) : Simulation × Option Failure :=
  let s := s.remember (.step step)
  match s.perform step with
  | .error e => (s, some e)
  | .ok s => ((s.withCore (·.sleep settleTime)).gather, none)

def runSteps (s : Simulation) : List Step → Simulation × Option Failure
  | [] => (s, none)
  | step :: rest =>
    match s.runStep step with
    | (s, none) => s.runSteps rest
    | (s, some e) => (s, some e)

/-- The calls of collaborators so far, last one first. -/
def calls (s : Simulation) : List Call :=
  s.history.filterMap fun
    | .core (.call c) => some c
    | _ => none

def pulses (s : Simulation) (port : Port) (long : Bool) : Nat :=
  s.calls.count (.pulse port long)

def irqEnabled (s : Simulation) : PinSet :=
  (s.calls.findSome? fun
    | .irqSetup enabled _ _ => some enabled
    | _ => none).getD ∅

def irqSetups (s : Simulation) : Nat :=
  s.calls.countP fun
    | .irqSetup _ _ _ => true
    | _ => false

def report (s : Simulation) : Report where
  scenario := s.name
  pins := s.core.table.status
  connectors := s.core.connectors.map fun c =>
    ⟨c.name, c.pin, c.polled, c.probe.connected, c.probe.detects⟩
  ports := s.ports.map fun d => ⟨d.port, s.pulses d.port true, s.pulses d.port false⟩
  irqSetups := s.irqSetups
  irqEnabled := s.irqEnabled
  pollEnables := s.calls.count .pollEnable
  hotplugEvents := s.calls.count .hotplugEvent
  irqEvents := s.calls.count .irqEvent
  forced := s.core.pollForced
  storm := ⟨s.core.stormStatus.threshold, s.core.stormStatus.detected,
    s.core.shortStormStatus.enabled⟩

def messages (ms : List Moment) : List Message := ms.reverse.filterMap Moment.message?

def records (s : Simulation) : List LogRecord := s.history.reverse.filterMap Moment.record?

def reportRecord (r : Report) : LogRecord := ⟨"report", r.write⟩

/-- Runs all steps; the lines of the event log come with the report or the failure. -/
def run (s : Simulation) (steps : List Step) : Except Failure Report × List LogRecord :=
  match s.runSteps steps with
  | (s, some e) => (.error e, s.records)
  | (s, none) => (.ok s.report, s.records ++ [reportRecord s.report])

end Simulation

end HotplugDetect
