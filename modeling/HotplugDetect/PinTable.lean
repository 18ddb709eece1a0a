import HotplugDetect.Mask

/-! # Storm statistics and the state of every pin

Each interrupt on a pin adds a weight to the pin's counter. The counter covers one window of fixed
length and starts anew with the first pulse outside it. A counter above the threshold is a storm.
-/

namespace HotplugDetect

def defaultThreshold : UInt32 := 50

inductive PinState
  | enabled
  | disabled
  | autoDisabled
  deriving DecidableEq, Inhabited

namespace PinState

def all : List PinState := [enabled, disabled, autoDisabled]

def key : PinState → String
  | enabled => "enabled"
  | disabled => "disabled"
  | autoDisabled => "auto_disabled"

end PinState

structure StormConfig where
  /-- The weighted pulses that one window may hold; zero turns detection off. -/
  threshold : UInt32 := defaultThreshold
  shortStorms : Bool := true
  /-- The length of one window in milliseconds. -/
  period : Nat := 1000
  deriving DecidableEq

/-- Pulses that take part in storm detection. -/
def StormConfig.counts (c : StormConfig) (long : Bool) : Bool :=
  c.threshold != 0 && (long || c.shortStorms)

def pulseWeight (long : Bool) : UInt32 := if long then 10 else 1

/-- Addition that stays at the largest register value. -/
def addSaturating (a b : UInt32) : UInt32 :=
  if a.toNat + b.toNat < UInt32.size then a + b else 0xFFFFFFFF

structure PinStats where
  windowStart : Option Nat := none
  count : UInt32 := 0
  state : PinState := .enabled
  /-- Disabled because of a storm, as opposed to an administrative disable. -/
  mitigated : Bool := false
  deriving DecidableEq, Inhabited

/-- What a pulse meant to the storm detector. -/
inductive Verdict
  | ignored
  | counted (count : UInt32)
  | storm
  deriving DecidableEq

namespace PinStats

/-- The window is half open: the instant at its end is outside. -/
def inWindow (s : PinStats) (period now : Nat) : Bool :=
  match s.windowStart with
  | none => false
  | some start => start ≤ now && now < start + period

def openWindow (s : PinStats) (period now : Nat) : PinStats :=
  if s.inWindow period now then s else { s with windowStart := some now, count := 0 }

def observe (s : PinStats) (c : StormConfig) (long : Bool) (now : Nat) : PinStats × Verdict :=
  if c.counts long then
    let w := s.openWindow c.period now
    let count := addSaturating w.count (pulseWeight long)
    if c.threshold < count then ({ w with count, state := .autoDisabled }, .storm)
    else ({ w with count }, .counted count)
  else (s, .ignored)

end PinStats

structure PinStatus where
  pin : Pin
  state : PinState
  count : UInt32
  mitigated : Bool
  deriving DecidableEq

structure PinTable where
  stats : Vector PinStats 10
  config : StormConfig
  deriving DecidableEq

namespace PinTable

def ofConfig (config : StormConfig) : PinTable := ⟨Vector.replicate 10 {}, config⟩

def get (t : PinTable) (p : Pin) : PinStats := getElem t.stats p.index p.index_lt

def put (t : PinTable) (p : Pin) (s : PinStats) : PinTable :=
  { t with stats := t.stats.set p.index s p.index_lt }

@[simp] theorem get_ofConfig (c : StormConfig) (p : Pin) : (ofConfig c).get p = {} := by
  simp [get, ofConfig]

theorem get_put (t : PinTable) (p q : Pin) (s : PinStats) :
    (t.put p s).get q = if q = p then s else t.get q := by
  simp only [get, put, Vector.getElem_set, Pin.index_inj, eq_comm]

def state (t : PinTable) (p : Pin) : PinState := (t.get p).state

def reset (t : PinTable) : PinTable :=
  { t with stats := t.stats.map ({ · with count := 0, state := .enabled, mitigated := false }) }

theorem get_reset (t : PinTable) (p : Pin) :
    t.reset.get p = { t.get p with count := 0, state := .enabled, mitigated := false } := by
  simp [get, reset]

def clearCounts (t : PinTable) : PinTable :=
  { t with stats := t.stats.map ({ · with count := 0 }) }

theorem get_clearCounts (t : PinTable) (p : Pin) :
    t.clearCounts.get p = { t.get p with count := 0 } := by
  simp [get, clearCounts]

def observe (t : PinTable) (p : Pin) (long : Bool) (now : Nat) : PinTable × Verdict :=
  let (s, v) := (t.get p).observe t.config long now
  (t.put p s, v)

theorem get_observe (t : PinTable) (p q : Pin) (long : Bool) (now : Nat) :
    (t.observe p long now).1.get q =
      if q = p then ((t.get p).observe t.config long now).1 else t.get q :=
  get_put t p q _

/-- Hands a storming pin over to polling; false when no storm was waiting on it. -/
def mitigate (t : PinTable) (p : Pin) : PinTable × Bool :=
  if t.state p = .autoDisabled then
    (t.put p { t.get p with state := .disabled, mitigated := true }, true)
  else (t, false)

/-- The administrative disable; false unless the pin was enabled. -/
def disable (t : PinTable) (p : Pin) : PinTable × Bool :=
  if t.state p = .enabled then (t.put p { t.get p with state := .disabled }, true)
  else (t, false)

def enable (t : PinTable) (p : Pin) : PinTable :=
  t.put p { t.get p with state := .enabled, mitigated := false }

theorem get_enable (t : PinTable) (p q : Pin) :
    (t.enable p).get q =
      if q = p then { t.get p with state := .enabled, mitigated := false } else t.get q :=
  get_put t p q _

def pinsIn (t : PinTable) (state : PinState) : PinSet :=
  Mask.ofList (Pin.all.filter (t.state · = state))

def status (t : PinTable) : List PinStatus :=
  Pin.all.map fun p => ⟨p, (t.get p).state, (t.get p).count, (t.get p).mitigated⟩

end PinTable

end HotplugDetect
