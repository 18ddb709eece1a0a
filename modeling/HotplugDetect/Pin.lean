/-! # Pins and ports

A pin is a physical hot-plug detect line and a port is a logical output.
The wiring of a platform pairs some pins with the port that they serve.
-/

namespace HotplugDetect

inductive Pin
  | tv | crt | sdvoB | sdvoC | portA | portB | portC | portD | portE | portF
  deriving DecidableEq, Inhabited

inductive Port
  | A | B | C | D | E | F
  deriving DecidableEq, Inhabited

/-- A finite enumeration whose members have consecutive bit positions in a 32-bit register. -/
class Indexed (α : Type) where
  members : List α
  index : α → Nat

namespace Pin

def all : List Pin :=
  [tv, crt, sdvoB, sdvoC, portA, portB, portC, portD, portE, portF]

def index : Pin → Nat
  | tv => 0
  | crt => 1
  | sdvoB => 2
  | sdvoC => 3
  | portA => 4
  | portB => 5
  | portC => 6
  | portD => 7
  | portE => 8
  | portF => 9

instance : Indexed Pin := ⟨all, index⟩

def ofIndex? (i : Nat) : Option Pin := all[i]?

theorem mem_all (p : Pin) : p ∈ all := by cases p <;> decide

theorem index_lt (p : Pin) : p.index < 10 := by cases p <;> decide

theorem all_get_index (p : Pin) : all[p.index]? = some p := by cases p <;> rfl

theorem index_inj {p q : Pin} : p.index = q.index ↔ p = q :=
  ⟨fun h => Option.some.inj (by rw [← all_get_index, ← all_get_index, h]), fun h => h ▸ rfl⟩

/-- The name printed on diagnostics. -/
def label : Pin → String
  | tv => "TV"
  | crt => "CRT"
  | sdvoB => "SDVO-B"
  | sdvoC => "SDVO-C"
  | portA => "PORT-A"
  | portB => "PORT-B"
  | portC => "PORT-C"
  | portD => "PORT-D"
  | portE => "PORT-E"
  | portF => "PORT-F"

/-- The name used when a whole value is described. -/
def ident : Pin → String
  | tv => "Tv"
  | crt => "Crt"
  | sdvoB => "SdvoB"
  | sdvoC => "SdvoC"
  | portA => "PortA"
  | portB => "PortB"
  | portC => "PortC"
  | portD => "PortD"
  | portE => "PortE"
  | portF => "PortF"

/-- The name used in settings and scenario files. -/
def key : Pin → String
  | tv => "tv"
  | crt => "crt"
  | sdvoB => "sdvo_b"
  | sdvoC => "sdvo_c"
  | portA => "port_a"
  | portB => "port_b"
  | portC => "port_c"
  | portD => "port_d"
  | portE => "port_e"
  | portF => "port_f"

end Pin

namespace Port

def all : List Port := [A, B, C, D, E, F]

def index : Port → Nat
  | A => 0
  | B => 1
  | C => 2
  | D => 3
  | E => 4
  | F => 5

instance : Indexed Port := ⟨all, index⟩

def ofIndex? (i : Nat) : Option Port := all[i]?

theorem mem_all (p : Port) : p ∈ all := by cases p <;> decide

def key : Port → String
  | A => "A"
  | B => "B"
  | C => "C"
  | D => "D"
  | E => "E"
  | F => "F"

end Port

def fixedWiring : List (Pin × Port) :=
  [(.portA, .A), (.portB, .B), (.portC, .C), (.portD, .D), (.portE, .E), (.portF, .F)]

/-- The pairs of a platform; on the alternate one port F is also wired to the pin of port E.
Earlier pairs win. -/
def wiring (alternate : Bool) : List (Pin × Port) :=
  (if alternate then [(.portE, .F)] else []) ++ fixedWiring

def portForPin (pin : Pin) (alternate : Bool) : Option Port :=
  ((wiring alternate).find? (·.1 = pin)).map (·.2)

def pinForPort (port : Port) (alternate : Bool) : Option Pin :=
  ((wiring alternate).find? (·.2 = port)).map (·.1)

end HotplugDetect
