import HotplugDetect.Words

/-! # Reports

The state of the pins, the connectors and the digital ports at the end of a simulation, and how
often the display side was called.
-/

namespace HotplugDetect

structure ConnectorReport where
  name : String
  pin : Option Pin
  mode : PollMode
  connected : Bool
  detects : Nat
  deriving DecidableEq

def ConnectorReport.write (c : ConnectorReport) : Json :=
  .object
    [("name", c.name), ("pin", Json.optional Pin.codec.write c.pin),
     ("poll_mode", PollMode.codec.write c.mode), ("connected", c.connected),
     ("detects", .nat c.detects)]

structure PortReport where
  port : Port
  long : Nat
  short : Nat
  deriving DecidableEq

def PortReport.write (p : PortReport) : Json :=
  .object
    [("port", Port.codec.write p.port), ("long_pulses", .nat p.long),
     ("short_pulses", .nat p.short)]

structure StormReport where
  threshold : UInt32
  detected : Bool
  shortStorms : Bool
  deriving DecidableEq

def StormReport.write (s : StormReport) : Json :=
  .object
    [("threshold", .nat s.threshold.toNat), ("detected", s.detected),
     ("short_storm_enabled", s.shortStorms)]

structure Report where
  scenario : Option String
  pins : List PinStatus
  connectors : List ConnectorReport
  ports : List PortReport
  irqSetups : Nat
  /-- The pins whose interrupts were on when they were last programmed. -/
  irqEnabled : PinSet
  pollEnables : Nat
  hotplugEvents : Nat
  irqEvents : Nat
  forced : Bool
  storm : StormReport
  deriving DecidableEq

def Report.write (r : Report) : Json :=
  .object
    [("scenario", Json.optional .text r.scenario),
     ("pins", Json.list PinStatus.codec.write r.pins),
     ("connectors", Json.list ConnectorReport.write r.connectors),
     ("digital_ports", Json.list PortReport.write r.ports),
     ("irq_setups", .nat r.irqSetups),
     ("irq_enabled_pins", Json.list Pin.codec.write r.irqEnabled.toList),
     ("poll_enables", .nat r.pollEnables),
     ("hotplug_events", .nat r.hotplugEvents),
     ("irq_events", .nat r.irqEvents),
     ("polling_forced", r.forced),
     ("storm", r.storm.write)]

end HotplugDetect
