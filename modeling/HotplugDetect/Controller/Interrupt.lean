import HotplugDetect.Controller.State

/-! # The interrupt path

Every fired pin is judged on its own, in bit order. Pulses of digital ports are kept for their port
whatever the state of the pin, and only enabled pins reach the storm detector. Deferred work is
queued when all pins were judged.
-/

namespace HotplugDetect

/-- What has to happen once every fired pin was judged. -/
structure Demand where
  storm : Bool := false
  digital : Bool := false
  generic : Bool := false
  deriving DecidableEq

namespace Controller

variable {ρ : Type}

def keepPulse (s : Controller ρ) (port : Port) (long : Bool) : Controller ρ :=
  if long then { s with longPorts := s.longPorts.insert port }
  else { s with shortPorts := s.shortPorts.insert port }

/-- Masked pins keep firing on some hardware; elsewhere the first such interrupt is a warning. -/
def reportDisabled (s : Controller ρ) (pin : Pin) : Controller ρ :=
  { s.note (.disabledPin pin (s.caps.gmchDisplay || s.warned)) with
    warned := s.warned || !s.caps.gmchDisplay }

/-- Shows a pulse to the storm detector. A storming pin is not probed any more. -/
def detectStorm (s : Controller ρ) (pin : Pin) (long : Bool) (d : Demand) :
    Controller ρ × Demand :=
  match s.table.observe pin long s.now with
  | (table, .storm) =>
    ({ s with table, eventPins := s.eventPins.erase pin }.note (.storm pin),
      { d with storm := true, generic := true })
  | (table, .counted count) => ({ s with table }.note (.counted pin count), d)
  | (table, .ignored) => ({ s with table }, d)

/-- A pulse on a pin that is not served by a digital port waits for the generic run. -/
def judge (s : Controller ρ) (pin : Pin) (digital long : Bool) (d : Demand) :
    Controller ρ × Demand :=
  match s.table.state pin with
  | .disabled => (s.reportDisabled pin, d)
  | .autoDisabled => (s, d)
  | .enabled =>
    if digital then s.detectStorm pin long d
    else { s with eventPins := s.eventPins.insert pin }.detectStorm pin long
      { d with generic := true }

/-- One fired pin. Without a digital port every pulse counts as a long one. -/
def receive (s : Controller ρ) (long : PinSet) (pin : Pin) (d : Demand) :
    Controller ρ × Demand :=
  match s.digitalPortForPin pin with
  | some port =>
    let s := s.note (.digitalPulse port (long.contains pin))
    (s.keepPulse port (long.contains pin)).judge pin true (long.contains pin)
      { d with digital := true }
  | none => s.judge pin false true d

def receiveAll (s : Controller ρ) (long : PinSet) (d : Demand) :
    List Pin → Controller ρ × Demand
  | [] => (s, d)
  | pin :: pins =>
    let (s, d) := s.receive long pin d
    s.receiveAll long d pins

def answer (s : Controller ρ) (d : Demand) : Controller ρ :=
  let s := if d.storm then s.setupIrqs else s
  let s := if d.digital then s.queueDigital else s
  if d.generic then s.queueGeneric else s

def interrupt (s : Controller ρ) (i : Interrupt) : Controller ρ :=
  let (s, d) := s.receiveAll i.long {} i.fired.toList
  s.answer d

/-- The registers may have more bits than there are pins. -/
def raw (s : Controller ρ) (pinMask longMask : UInt32) : Controller ρ :=
  let unknown := Mask.unknownBits Pin (pinMask ||| longMask)
  let s := if unknown = 0 then s else s.note (.unknownBits unknown)
  s.interrupt ⟨.ofBits pinMask, .ofBits longMask⟩

end Controller

end HotplugDetect
