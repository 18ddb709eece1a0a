import HotplugDetect.Mask
import HotplugDetect.Text.Quoted

/-! # Connectors

A connector is a display output. It is watched by interrupts on its pin or by polling, and carries a
probe that tells whether its status changed.
-/

namespace HotplugDetect

/-- How the status of a connector is watched. -/
inductive PollMode
  | unset
  | hpd
  | connectDisconnect
  deriving DecidableEq, Inhabited

namespace PollMode

def all : List PollMode := [unset, hpd, connectDisconnect]

def key : PollMode → String
  | unset => "none"
  | hpd => "hpd"
  | connectDisconnect => "connect_disconnect"

def ident : PollMode → String
  | unset => "None"
  | hpd => "Hpd"
  | connectDisconnect => "ConnectDisconnect"

def restored (preference : PollMode) : PollMode :=
  if preference = unset then hpd else preference

end PollMode

structure Connector (ρ : Type) where
  name : String
  pin : Option Pin
  /-- One stream of a shared link; those are probed elsewhere. -/
  multiStream : Bool
  preference : PollMode
  polled : PollMode
  probe : ρ

namespace Connector

variable {ρ : Type}

def make (name : String) (pin : Option Pin) (preference : PollMode) (multiStream : Bool)
    (probe : ρ) : Connector ρ :=
  ⟨name, pin, multiStream, preference, preference, probe⟩

def isOn (c : Connector ρ) (pins : PinSet) : Bool := c.pin.any pins.contains

def describePin : Option Pin → String
  | none => "None"
  | some p => "Some(" ++ p.ident ++ ")"

def describe (c : Connector ρ) : String :=
  "Connector \x7b name: " ++ Text.quoted c.name ++ ", hpd_pin: " ++ describePin c.pin ++
    ", mst: " ++ toString c.multiStream ++ ", poll_preference: " ++ c.preference.ident ++
    ", polled: " ++ c.polled.ident ++ " \x7d"

end Connector

/-- The registered connectors, in the order of registration. Names need not be distinct. -/
abbrev ConnectorList (ρ : Type) := List (Connector ρ)

namespace ConnectorList

variable {ρ : Type}

def register (cs : ConnectorList ρ) (c : Connector ρ) : ConnectorList ρ := cs ++ [c]

def unregister (cs : ConnectorList ρ) (name : String) : ConnectorList ρ :=
  cs.filter (·.name != name)

def named (cs : ConnectorList ρ) (name : String) : Option (Connector ρ) :=
  cs.find? (·.name == name)

def polledBy (cs : ConnectorList ρ) (mode : PollMode) : ConnectorList ρ :=
  cs.filter (·.polled = mode)

def setPolled (cs : ConnectorList ρ) (name : String) (mode : PollMode) : ConnectorList ρ :=
  match cs with
  | [] => []
  | c :: rest =>
    if c.name = name then { c with polled := mode } :: rest else c :: setPolled rest name mode

end ConnectorList

end HotplugDetect
