import HotplugDetect.Knob
import HotplugDetect.Scenario.Step
import HotplugDetect.Settings

/-! # Scenarios

A scenario lists simulated hardware and the steps to take on it. A valid scenario names its hardware
without ambiguity and has no step that could fail half way through.
-/

namespace HotplugDetect

structure ConnectorSpec where
  name : String
  pin : Option Pin := none
  preference : PollMode := .unset
  /-- A sink is attached at the start. -/
  connected : Bool := false
  multiStream : Bool := false
  deriving DecidableEq

namespace ConnectorSpec

def record : Record ConnectorSpec where
  name := "struct ConnectorSpec"
  initial := { name := "" }
  fields :=
    [.of "name" true .text name ({ · with name := · }),
     .of "pin" false (.optional Pin.codec) pin ({ · with pin := · }),
     .of "poll_preference" false PollMode.codec preference ({ · with preference := · }),
     .of "connected" false .flag connected ({ · with connected := · }),
     .of "mst" false .flag multiStream ({ · with multiStream := · })]

def codec : Codec ConnectorSpec := record.codec

end ConnectorSpec

structure DigitalPortSpec where
  port : Port
  handlesLong : Bool := true
  handlesShort : Bool := true
  deriving DecidableEq

namespace DigitalPortSpec

def record : Record DigitalPortSpec where
  name := "struct DigitalPortSpec"
  initial := { port := .A }
  fields :=
    [.of "port" true Port.codec port ({ · with port := · }),
     .of "handles_long" false .flag handlesLong ({ · with handlesLong := · }),
     .of "handles_short" false .flag handlesShort ({ · with handlesShort := · })]

def codec : Codec DigitalPortSpec := record.codec

end DigitalPortSpec

structure Scenario where
  name : Option String := none
  /-- In force instead of the settings from elsewhere. -/
  settings : Option Settings := none
  connectors : List ConnectorSpec := []
  digitalPorts : List DigitalPortSpec := []
  steps : List Step
  deriving DecidableEq

namespace Scenario

def record : Record Scenario where
  name := "struct Scenario"
  initial := { steps := [] }
  fields :=
    [.of "name" false (.optional .text) name ({ · with name := · }),
     .of "settings" false (.optional Settings.codec) settings ({ · with settings := · }),
     .of "connectors" false (.list ConnectorSpec.codec) connectors
       ({ · with connectors := · }),
     .of "digital_ports" false (.list DigitalPortSpec.codec) digitalPorts
       ({ · with digitalPorts := · }),
     .of "steps" true (.list Step.codec) steps ({ · with steps := · })]

def codec : Codec Scenario := record.codec

/-- Names are present and distinct; `seen` holds the earlier ones. -/
def checkConnectors (seen : List String) : List ConnectorSpec → Except Failure Unit
  | [] => .ok ()
  | c :: cs =>
    if c.name = "" then .error (.scenario "connector with empty name")
    else if c.name ∈ seen then .error (.scenario ("duplicate connector " ++ c.name))
    else checkConnectors (c.name :: seen) cs

def checkPorts (seen : List Port) : List DigitalPortSpec → Except Failure Unit
  | [] => .ok ()
  | d :: ds =>
    if d.port ∈ seen then .error (.scenario ("duplicate digital port " ++ d.port.key))
    else checkPorts (d.port :: seen) ds

/-- A knob value that cannot be read is reported with the index of its step. -/
def checkKnob {α : Type} (index : Nat) : Except Failure α → Except Failure Unit
  | .ok _ => .ok ()
  | .error e => .error (.scenario ("step " ++ toString index ++ ": " ++ e.message))

def checkStep (names : List String) (index : Nat) : Step → Except Failure Unit
  | .plug connector _ =>
    if connector ∈ names then .ok () else .error (.unknownConnector connector)
  | .threshold value => checkKnob index (ThresholdKnob.parse value)
  | .shortStorms value => checkKnob index (ShortStormKnob.parse value)
  | _ => .ok ()

def checkSteps (names : List String) : Nat → List Step → Except Failure Unit
  | _, [] => .ok ()
  | index, s :: ss => do
    checkStep names index s
    checkSteps names (index + 1) ss

/-- Reports the first fault: settings, connectors, digital ports, steps. -/
def validate (s : Scenario) : Except Failure Unit := do
  match s.settings with
  | some settings => settings.validate
  | none => .ok ()
  checkConnectors [] s.connectors
  checkPorts [] s.digitalPorts
  checkSteps (s.connectors.map (·.name)) 0 s.steps

/-- What was read, if it is valid. -/
def checked (read : Except ReadError Scenario) : Except Failure Scenario := do
  let s ← read.mapError Failure.json
  s.validate
  .ok s

def parse (text : String) : Except Failure Scenario := checked (codec.decode text)

end Scenario

end HotplugDetect
