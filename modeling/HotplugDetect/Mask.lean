import HotplugDetect.Pin

/-! # Sets of pins and ports

A mask keeps a set in the bits of a 32-bit register: bit `i` stands for the member with index `i`.
Raw register values enter a mask only after their unknown bits were dropped.
-/

namespace HotplugDetect

@[ext]
structure Mask (α : Type) where
  bits : UInt32

instance {α : Type} : DecidableEq (Mask α) := fun m n =>
  if h : m.bits = n.bits then isTrue (Mask.ext h) else isFalse fun e => h (congrArg Mask.bits e)

abbrev PinSet := Mask Pin

abbrev PortSet := Mask Port

namespace Mask

variable {α : Type}

def empty : Mask α := ⟨0⟩

instance : EmptyCollection (Mask α) := ⟨empty⟩

instance : Inhabited (Mask α) := ⟨empty⟩

def isEmpty (m : Mask α) : Bool := m.bits == 0

def union (m n : Mask α) : Mask α := ⟨m.bits ||| n.bits⟩

instance : Union (Mask α) := ⟨union⟩

/-- The set and what is left when it was taken away. -/
def take (m : Mask α) : Mask α × Mask α := (m, ∅)

variable [Indexed α]

/-- The register value with only the bit of `a` set. -/
def bit (a : α) : UInt32 := 1 <<< (Indexed.index a).toUInt32

def contains (m : Mask α) (a : α) : Bool := m.bits &&& bit a != 0

def insert (m : Mask α) (a : α) : Mask α := ⟨m.bits ||| bit a⟩

def erase (m : Mask α) (a : α) : Mask α := ⟨m.bits &&& ~~~bit a⟩

def ofList (as : List α) : Mask α := as.foldl insert empty

def full : Mask α := ofList Indexed.members

/-- The members named by a register value; its other bits are dropped. -/
def ofBits (raw : UInt32) : Mask α := ⟨raw &&& (full (α := α)).bits⟩

/-- The bits of a register value that name no member. -/
def unknownBits (α : Type) [Indexed α] (raw : UInt32) : UInt32 :=
  raw &&& ~~~(full (α := α)).bits

def toList (m : Mask α) : List α := (Indexed.members (α := α)).filter m.contains

def popCount (raw : UInt32) : Nat :=
  (List.range 32).countP (raw.toNat.testBit ·)

def size (m : Mask α) : Nat := popCount m.bits

end Mask

def PinSet.describe (m : PinSet) : String :=
  "\x7b" ++ String.intercalate ", " (m.toList.map Pin.ident) ++ "\x7d"

def PortSet.describe (m : PortSet) : String :=
  "\x7b" ++ String.intercalate ", " (m.toList.map Port.key) ++ "\x7d"

end HotplugDetect
