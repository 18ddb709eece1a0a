import HotplugDetect.Words

/-! # The steps of a scenario

A step is written as an object whose `op` names it; its fields stand beside the name.
-/

namespace HotplugDetect

inductive Step
  /-- The pins fire, as often as told; the others are those with a long pulse. -/
  | irq (pins long : List Pin) (times : UInt32)
  /-- One interrupt given by register values. -/
  | raw (pinMask longMask : UInt32)
  | wait (ms : UInt64)
  /-- A sink is attached to a connector, or removed. -/
  | plug (connector : String) (connected : Bool)
  | disablePin (pin : Pin)
  | enablePin (pin : Pin)
  | forcePolling (on : Bool)
  /-- The platform turns display interrupts on or off. -/
  | irqsEnabled (on : Bool)
  | threshold (value : String)
  | shortStorms (value : String)
  | init
  deriving DecidableEq

namespace Step

def irqRecord : Record (List Pin × List Pin × UInt32) where
  name := "struct variant Step::Irq"
  initial := ([], [], 1)
  fields :=
    [.of "pins" true (.list Pin.codec) (·.1) fun s v => (v, s.2),
     .of "long" false (.list Pin.codec) (·.2.1) fun s v => (s.1, v, s.2.2),
     .of "repeat" false .word32 (·.2.2) fun s v => (s.1, s.2.1, v)]

def rawRecord : Record (UInt32 × UInt32) where
  name := "struct variant Step::Raw"
  initial := (0, 0)
  fields :=
    [.of "pin_mask" true .word32 (·.1) fun s v => (v, s.2),
     .of "long_mask" false .word32 (·.2) fun s v => (s.1, v)]

def plugRecord : Record (String × Bool) where
  name := "struct variant Step::Plug"
  initial := ("", false)
  fields :=
    [.of "connector" true .text (·.1) fun s v => (v, s.2),
     .of "connected" true .flag (·.2) fun s v => (s.1, v)]

def single {α : Type} (name key : String) (c : Codec α) (initial : α) : Record α where
  name := "struct variant Step::" ++ name
  initial
  fields := [.of key true c id fun _ v => v]

def waitRecord : Record UInt64 := single "Wait" "ms" .word64 0

def disablePinRecord : Record Pin := single "DisablePin" "pin" Pin.codec .tv

def enablePinRecord : Record Pin := single "EnablePin" "pin" Pin.codec .tv

def forcePollingRecord : Record Bool := single "ForcePolling" "on" .flag false

def irqsEnabledRecord : Record Bool := single "IrqsEnabled" "on" .flag false

def thresholdRecord : Record String := single "StormCtl" "value" .text ""

def shortStormsRecord : Record String := single "ShortStormCtl" "value" .text ""

def initRecord : Record Unit := ⟨"struct variant Step::Init", (), []⟩

def op : Step → String
  | irq _ _ _ => "irq"
  | raw _ _ => "raw"
  | wait _ => "wait"
  | plug _ _ => "plug"
  | disablePin _ => "disable_pin"
  | enablePin _ => "enable_pin"
  | forcePolling _ => "force_polling"
  | irqsEnabled _ => "irqs_enabled"
  | threshold _ => "storm_ctl"
  | shortStorms _ => "short_storm_ctl"
  | init => "init"

def variants : List (Variant Step) :=
  [irqRecord.variant "irq" fun (pins, long, times) => irq pins long times,
   rawRecord.variant "raw" fun (pinMask, longMask) => raw pinMask longMask,
   waitRecord.variant "wait" wait,
   plugRecord.variant "plug" fun (connector, connected) => plug connector connected,
   disablePinRecord.variant "disable_pin" disablePin,
   enablePinRecord.variant "enable_pin" enablePin,
   forcePollingRecord.variant "force_polling" forcePolling,
   irqsEnabledRecord.variant "irqs_enabled" irqsEnabled,
   thresholdRecord.variant "storm_ctl" threshold,
   shortStormsRecord.variant "short_storm_ctl" shortStorms,
   initRecord.variant "init" fun _ => init]

def members : Step → List (String × Json)
  | irq pins long times => irqRecord.members (pins, long, times)
  | raw pinMask longMask => rawRecord.members (pinMask, longMask)
  | wait ms => waitRecord.members ms
  | plug connector connected => plugRecord.members (connector, connected)
  | disablePin pin => disablePinRecord.members pin
  | enablePin pin => enablePinRecord.members pin
  | forcePolling on => forcePollingRecord.members on
  | irqsEnabled on => irqsEnabledRecord.members on
  | threshold value => thresholdRecord.members value
  | shortStorms value => shortStormsRecord.members value
  | init => []

def write (s : Step) : Json := .object (("op", .text s.op) :: s.members)

def tagged : Tagged Step := ⟨"internally tagged enum Step", "op", variants, write⟩

def codec : Codec Step := tagged.codec

def describePins (ps : List Pin) : String :=
  "[" ++ String.intercalate ", " (ps.map Pin.ident) ++ "]"

def describeWith (name : String) (fields : List (String × String)) : String :=
  name ++ " \x7b " ++ String.intercalate ", " (fields.map fun (k, v) => k ++ ": " ++ v) ++ " \x7d"

def describe : Step → String
  | irq pins long times =>
    describeWith "Irq"
      [("pins", describePins pins), ("long", describePins long),
       ("repeat", toString times.toNat)]
  | raw pinMask longMask =>
    describeWith "Raw"
      [("pin_mask", toString pinMask.toNat), ("long_mask", toString longMask.toNat)]
  | wait ms => describeWith "Wait" [("ms", toString ms.toNat)]
  | plug connector connected =>
    describeWith "Plug"
      [("connector", Text.quoted connector), ("connected", toString connected)]
  | disablePin pin => describeWith "DisablePin" [("pin", pin.ident)]
  | enablePin pin => describeWith "EnablePin" [("pin", pin.ident)]
  | forcePolling on => describeWith "ForcePolling" [("on", toString on)]
  | irqsEnabled on => describeWith "IrqsEnabled" [("on", toString on)]
  | threshold value => describeWith "StormCtl" [("value", Text.quoted value)]
  | shortStorms value => describeWith "ShortStormCtl" [("value", Text.quoted value)]
  | init => "Init"

end Step

end HotplugDetect
