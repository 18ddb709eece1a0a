import HotplugDetect.Controller.Interrupt

/-! # The deferred passes

What one run of each job does: pulses go to their digital ports, storming pins are handed over to
polling, connectors are probed, poll modes are set anew, and the pins of a past storm recover.
-/

namespace HotplugDetect

namespace Connector

variable {ρ : Type}

/-- Sets the poll mode anew. The answer is whether interrupts would be the choice, but the pin
delivers none. -/
def initPoll (c : Connector ρ) (hasHotplug forced : Bool) (disabled : PinSet) :
    Connector ρ × Bool :=
  let c := { c with polled := c.preference }
  if c.multiStream then (c, false)
  else
    let c :=
      if c.polled = .unset ∧ hasHotplug ∧ c.pin.isSome then
        { c with polled := if forced then .connectDisconnect else .hpd }
      else c
    if c.polled = .hpd ∧ c.isOn disabled then ({ c with polled := .connectDisconnect }, true)
    else (c, false)

def recoversWith (c : Connector ρ) (pin : Pin) : Bool := c.pin = some pin && !c.multiStream

def recovered (c : Connector ρ) (pin : Pin) : Connector ρ :=
  if c.recoversWith pin then { c with polled := .restored c.preference } else c

def listensOn (c : Connector ρ) (pins : PinSet) : Bool := c.polled = .hpd && c.isOn pins

def switched (c : Connector ρ) (pins : PinSet) : Connector ρ :=
  if c.listensOn pins then { c with polled := .connectDisconnect } else c

end Connector

namespace Controller

variable {ρ : Type}

def noteAll (s : Controller ρ) (ms : List Message) : Controller ρ := ms.foldl note s

def pulseFor (s : Controller ρ) (long short : PortSet) (port : Port) :
    Option (PulseHandler × Bool) :=
  if long.contains port || short.contains port then
    (s.digitalPorts port).map fun h => (h, long.contains port)
  else none

def withHandler (s : Controller ρ) (port : Port) (h : PulseHandler) : Controller ρ :=
  { s with digitalPorts := fun p => if p = port then some h else s.digitalPorts p }

/-- Hands a pulse to its port. The interrupts that the port raised are handled before it answers. -/
def pulse (s : Controller ρ) (port : Port) (h : PulseHandler) (long : Bool) : Controller ρ :=
  (h.answer long).raised.foldl interrupt ((s.call (.pulse port long)).withHandler port h.next)

/-- Hands the taken pulses to their ports. The pins of refused pulses are the result. -/
def deliver (s : Controller ρ) (long short : PortSet) (refused : PinSet) :
    List Port → Controller ρ × PinSet
  | [] => (s, refused)
  | port :: ports =>
    match s.pulseFor long short port with
    | none => s.deliver long short refused ports
    | some (h, isLong) =>
      let s := s.pulse port h isLong
      if (h.answer isLong).handled then s.deliver long short refused ports
      else s.deliver long short ((s.pinForPort port).elim refused refused.insert) ports

/-- The first part of the run of the digital-port job. A long pulse hides a short one on the same
port. -/
def takePulses (s : Controller ρ) : Controller ρ × Rest :=
  ({ s with longPorts := ∅, shortPorts := ∅ }, { pulses := some (s.longPorts, s.shortPorts) })

/-- The last part of the run of the digital-port job: the generic job gets the refused pulses. -/
def fallBack (s : Controller ρ) (refused : PinSet) : Controller ρ :=
  if refused.isEmpty then s
  else { s with eventPins := s.eventPins ∪ refused }.queueGeneric

def mitigate (s : Controller ρ) : Controller ρ :=
  let storming := s.table.pinsIn .autoDisabled
  let s := s.noteAll
    ((s.connectors.filter (·.listensOn storming)).map (.switching ·.name))
  { s with
    connectors := s.connectors.map (·.switched storming)
    table := storming.toList.foldl (fun t pin => (t.mitigate pin).1) s.table }

def scheduleReenable (s : Controller ρ) : Controller ρ :=
  { s with reenable := s.reenable.schedule (s.now + s.reenableDelay) }.rouse .reenable

/-- The first part of the run of the generic job, up to the lock. The connectors on the taken pins
are probed in the second part. -/
def takeEvents (s : Controller ρ) : Controller ρ × PinSet :=
  let taken := s.eventPins
  let s := { s.note .encoders with eventPins := ∅ }
  if (s.table.pinsIn .autoDisabled).isEmpty then (s, taken)
  else ((s.mitigate.call .pollEnable).scheduleReenable, taken)

def probe [Probe ρ] (s : Controller ρ) (c : Connector ρ) :
    Controller ρ × Connector ρ × Bool :=
  let s := (s.note (.connectorEvent c.name)).call (.detect c.name)
  let d := Probe.detect c.probe
  (d.raised.foldl interrupt s, { c with probe := d.next }, d.changed)

def probeAll [Probe ρ] (s : Controller ρ) (pins : PinSet) :
    List (Connector ρ) → Controller ρ × List (Connector ρ) × Bool
  | [] => (s, [], false)
  | c :: cs =>
    if c.isOn pins then
      let (s, c, changed) := s.probe c
      let (s, cs, more) := s.probeAll pins cs
      (s, c :: cs, changed || more)
    else
      let (s, cs, more) := s.probeAll pins cs
      (s, c :: cs, more)

def releaseMode (s : Controller ρ) : Controller ρ :=
  ({ s with mode := s.mode.release }.rouse .generic).rouse .pollInit

/-- The second part of the run of the generic job, under the lock. -/
def probePass [Probe ρ] (s : Controller ρ) (pins : PinSet) : Controller ρ :=
  let (s, connectors, changed) := s.probeAll pins s.connectors
  let s := { s with connectors }.releaseMode
  if changed then s.call .hotplugEvent else s

/-- Sets the poll modes of the connectors one after the other; tells whether to poll. -/
def reinitializeAll (s : Controller ρ) (forced : Bool) (disabled : PinSet) (polling : Bool) :
    List (Connector ρ) → Controller ρ × List (Connector ρ) × Bool
  | [] => (s, [], polling)
  | c :: cs =>
    let (c, stays) := c.initPoll s.caps.hasHotplug forced disabled
    let s := if stays then s.note (.staysPolling c.name) else s
    let (s, cs, polling) := s.reinitializeAll forced disabled (polling || stays) cs
    (s, c :: cs, polling)

/-- The run of the poll-init job, under the lock; `disabled` was read before the lock was taken. -/
def pollInitPass (s : Controller ρ) (disabled : PinSet) : Controller ρ :=
  let forced := s.pollForced
  let (s, connectors, polling) := s.reinitializeAll forced disabled forced s.connectors
  let s := { s with connectors }
  let s := if polling then s.call .pollEnable else s
  let s := s.releaseMode
  if forced then s else s.call .irqEvent

/-- The pins that a storm disabled and that recover by themselves. -/
def recoverable (s : Controller ρ) : List Pin :=
  (s.table.pinsIn .disabled).toList.filter fun pin =>
    (s.table.get pin).mitigated && s.eligible pin

def recoverPin (s : Controller ρ) (pin : Pin) : Controller ρ :=
  let returning := s.connectors.filter fun c =>
    c.recoversWith pin && c.polled != .restored c.preference
  { s.noteAll (returning.map (.reenabling ·.name)) with
    table := s.table.enable pin
    connectors := s.connectors.map (·.recovered pin) }

def reenablePass (s : Controller ρ) : Controller ρ :=
  let pins := s.recoverable
  if pins.isEmpty then s
  else ((pins.foldl recoverPin s).note (.reenabled (.ofList pins))).setupIrqs

end Controller

end HotplugDetect
