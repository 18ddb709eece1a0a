import HotplugDetect.PinTable

/-! # What the controller shows to the outside

Calls of its collaborators and messages for its log, each recorded when it happens.
-/

namespace HotplugDetect

inductive Call
  /-- The interrupt enables are programmed after the pin states shown. -/
  | irqSetup (enabled disabled autoDisabled : PinSet)
  | pulse (port : Port) (long : Bool)
  | detect (connector : String)
  | pollEnable
  | hotplugEvent
  | irqEvent
  deriving DecidableEq

inductive Level
  | debug
  | info
  | warn
  deriving DecidableEq

def Level.key : Level → String
  | debug => "debug"
  | info => "info"
  | warn => "warn"

inductive Message
  | unknownBits (bits : UInt32)
  | digitalPulse (port : Port) (long : Bool)
  | storm (pin : Pin)
  | counted (pin : Pin) (count : UInt32)
  /-- An interrupt on a disabled pin; the first one is worth a warning. -/
  | disabledPin (pin : Pin) (warned : Bool)
  | encoders
  | connectorEvent (name : String)
  | switching (name : String)
  | staysPolling (name : String)
  | reenabling (name : String)
  | reenabled (pins : PinSet)
  | threshold (value : UInt32)
  | shortStorms (on : Bool)
  | started (workers : Nat)
  | stopped
  | simulating (connectors ports : Nat)
  | step (text : String)
  | enabledPins (pins : PinSet)
  deriving DecidableEq

namespace Message

def level : Message → Level
  | disabledPin _ warned => if warned then .debug else .warn
  | switching _ => .info
  | reenabled _ => .info
  | simulating _ _ => .info
  | _ => .debug

def hexText (w : UInt32) : String := "0x" ++ String.ofList (Nat.toDigits 16 w.toNat)

def text : Message → String
  | unknownBits bits => "Ignoring unknown hotplug bits " ++ hexText bits
  | digitalPulse port long =>
    "digital hpd port " ++ port.key ++ " - " ++ (if long then "long" else "short")
  | storm pin => "HPD interrupt storm detected on pin " ++ pin.label
  | counted pin count =>
    "Received HPD interrupt on pin " ++ pin.label ++ " - cnt: " ++ toString count.toNat
  | disabledPin pin _ => "Received HPD interrupt on pin " ++ pin.label ++ " although disabled"
  | encoders => "running encoder hotplug functions"
  | connectorEvent name => "Connector " ++ name ++ " received hotplug event"
  | switching name =>
    "HPD interrupt storm detected on connector " ++ name ++
      ": switching from hotplug detection to polling"
  | staysPolling name => "Connector " ++ name ++ " stays on polling, its HPD pin is disabled"
  | reenabling name => "Reenabling HPD on connector " ++ name
  | reenabled pins => "Re-enabled HPD on pins " ++ pins.describe
  | threshold value =>
    if value = 0 then "Disabling HPD storm detection"
    else "Setting HPD storm detection threshold to " ++ toString value.toNat
  | shortStorms on => (if on then "Enabling" else "Disabling") ++ " short HPD storm detection"
  | started workers => "Started " ++ toString workers ++ " hotplug workers"
  | stopped => "Hotplug workers stopped"
  | simulating connectors ports =>
    "Simulating " ++ toString connectors ++ " connectors, " ++ toString ports ++ " digital ports"
  | step text => "step: " ++ text
  | enabledPins pins => "irq setup: enabled pins " ++ pins.describe

end Message

inductive Event
  | call (c : Call)
  | note (m : Message)
  deriving DecidableEq

end HotplugDetect
