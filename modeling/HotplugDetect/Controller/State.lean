import HotplugDetect.Connector
import HotplugDetect.Controller.Event
import HotplugDetect.Settings
import HotplugDetect.Work.Delayed

/-! # The state of the controller

The controller holds the pin table, the events that wait for deferred work, and four work items with
their workers. Its collaborators are part of the state as far as their answers matter: the probes of
the connectors, the pulses that digital ports handle, and whether display interrupts are on.
-/

namespace HotplugDetect

inductive Job
  | digital
  | generic
  | pollInit
  | reenable
  deriving DecidableEq

def Job.all : List Job := [.digital, .generic, .pollInit, .reenable]

inductive ModeParty
  | generic
  | pollInit
  | outside (id : Nat)
  deriving DecidableEq

/-- An interrupt: the pins that fired, and those whose pulse may have been long. -/
structure Interrupt where
  fired : PinSet
  long : PinSet
  deriving DecidableEq

/-- The answer of a digital port to a pulse. Interrupts may arrive before it answers. -/
structure PulseAnswer where
  handled : Bool
  raised : List Interrupt := []
  deriving DecidableEq

/-- A digital port has answers to as many pulses as one likes, and a usual one to those after
them. -/
structure PulseHandler where
  script : List (Bool → PulseAnswer) := []
  usual : Bool → Bool

namespace PulseHandler

def answer (h : PulseHandler) (long : Bool) : PulseAnswer :=
  match h.script with
  | [] => { handled := h.usual long }
  | f :: _ => f long

def next (h : PulseHandler) : PulseHandler := { h with script := h.script.tail }

/-- No fewer than the interrupts that the port may still raise. -/
def budget (h : PulseHandler) : Nat :=
  h.script.foldr (fun f n => (f true).raised.length + (f false).raised.length + n) 0

theorem budget_next (h : PulseHandler) (long : Bool) :
    h.next.budget + (h.answer long).raised.length ≤ h.budget := by
  obtain ⟨_ | ⟨f, fs⟩, usual⟩ := h
  · exact Nat.le_refl 0
  · cases long <;> simp [budget, next, answer] <;> omega

end PulseHandler

/-- The answer of a probe. Interrupts may arrive while it runs. -/
structure Detection (ρ : Type) where
  changed : Bool
  raised : List Interrupt
  next : ρ

/-- Probes tell whether the status of a connector changed since they were last asked. -/
class Probe (ρ : Type) where
  detect : ρ → Detection ρ

/-- Probes that raise interrupts only a bounded number of times. -/
class BoundedProbe (ρ : Type) extends Probe ρ where
  /-- The interrupts that the probe may still raise. -/
  budget : ρ → Nat
  budget_detect : ∀ p : ρ, budget (detect p).next + (detect p).raised.length ≤ budget p

/-- What an operation in progress does once it has the run lock that it waits for. -/
inductive Errand
  /-- Cancelling all work: the job whose lock is awaited, the jobs after it, and whether the workers
  are stopped in the end. -/
  | cancel (job : Job) (rest : List Job) (stop : Bool)
  /-- Recovering at once after a knob was set. -/
  | flush
  deriving DecidableEq

def Errand.job : Errand → Job
  | cancel job _ _ => job
  | flush => .reenable

/-- What is left of a run that was not made at once. -/
structure Rest where
  /-- The pins that were taken, or were disabled when the run began, or whose pulses were
  refused. -/
  pins : PinSet := ∅
  /-- The ports whose long and short pulses have yet to be handed over. -/
  pulses : Option (PortSet × PortSet) := none
  deriving DecidableEq

structure Controller (ρ : Type) where
  caps : PlatformCaps
  reenableDelay : Nat
  reenableDigital : Bool
  digitalPorts : Port → Option PulseHandler
  connectors : ConnectorList ρ
  table : PinTable
  longPorts : PortSet := ∅
  shortPorts : PortSet := ∅
  eventPins : PinSet := ∅
  pollForced : Bool := false
  /-- An interrupt on a disabled pin was reported before. -/
  warned : Bool := false
  irqsEnabled : Bool := true
  mode : Lock ModeParty := {}
  digital : Work Rest := {}
  generic : Work Rest := {}
  pollInit : Work Rest := {}
  reenable : DelayedWork Rest := {}
  /-- The operations in progress, by client. -/
  errands : List (Nat × Errand) := []
  /-- The workers that can move, in the order in which they became able to. -/
  ready : List Job := []
  /-- The clock in milliseconds. -/
  now : Nat := 0
  /-- Calls and messages, last one first. -/
  trace : List Event := []

namespace Controller

variable {ρ : Type}

def ofSettings (s : Settings) (connectors : ConnectorList ρ)
    (digitalPorts : Port → Option PulseHandler) : Controller ρ where
  caps := s.platform
  reenableDelay := s.storm.reenableDelay.toNat
  reenableDigital := s.storm.reenableDigital
  digitalPorts
  connectors
  table := .ofConfig s.stormConfig

def emit (s : Controller ρ) (e : Event) : Controller ρ := { s with trace := e :: s.trace }

def call (s : Controller ρ) (c : Call) : Controller ρ := s.emit (.call c)

def note (s : Controller ρ) (m : Message) : Controller ρ := s.emit (.note m)

def setupIrqs (s : Controller ρ) : Controller ρ :=
  if s.irqsEnabled then
    s.call (.irqSetup (s.table.pinsIn .enabled) (s.table.pinsIn .disabled)
      (s.table.pinsIn .autoDisabled))
  else s

def portForPin (s : Controller ρ) (pin : Pin) : Option Port :=
  HotplugDetect.portForPin pin s.caps.alternateWiring

def pinForPort (s : Controller ρ) (port : Port) : Option Pin :=
  HotplugDetect.pinForPort port s.caps.alternateWiring

/-- The registered digital port that a pin serves. -/
def digitalPortForPin (s : Controller ρ) (pin : Pin) : Option Port :=
  (s.portForPin pin).filter fun port => (s.digitalPorts port).isSome

def eligible (s : Controller ρ) (pin : Pin) : Bool :=
  s.reenableDigital || (s.digitalPortForPin pin).isNone

def started (s : Controller ρ) : Bool := s.digital.worker.isSome

/-- Whether the worker of a job has something to do. -/
def canMove (s : Controller ρ) : Job → Bool
  | .digital => s.digital.canMove s.now fun _ => true
  | .generic => s.generic.canMove s.now fun _ => s.mode.heldBy .generic
  | .pollInit => s.pollInit.canMove s.now fun _ => s.mode.heldBy .pollInit
  | .reenable => s.reenable.canMove s.now fun _ => true

/-- A worker that can move joins the end of the line, once. -/
def rouse (s : Controller ρ) (j : Job) : Controller ρ :=
  if s.canMove j ∧ j ∉ s.ready then { s with ready := s.ready ++ [j] } else s

theorem rouse_eq (s : Controller ρ) (j : Job) : ∃ line, s.rouse j = { s with ready := line } := by
  unfold rouse
  split
  · exact ⟨_, rfl⟩
  · exact ⟨s.ready, rfl⟩

def queueDigital (s : Controller ρ) : Controller ρ :=
  { s with digital := s.digital.queue.1 }.rouse .digital

def queueGeneric (s : Controller ρ) : Controller ρ :=
  { s with generic := s.generic.queue.1 }.rouse .generic

def queuePollInit (s : Controller ρ) : Controller ρ :=
  { s with pollInit := s.pollInit.queue.1 }.rouse .pollInit

end Controller

end HotplugDetect
