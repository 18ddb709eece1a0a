import HotplugDetect.Number.Binary64

/-! # Numerals

The written form of a number and its value. A plain integer of 64 bits keeps its exact value; every
other numeral is a binary floating-point number, computed from the leading digits that fit into
64 bits and one power of ten.
-/

namespace HotplugDetect

structure Numeral where
  negative : Bool
  whole : List Nat
  fraction : Option (List Nat)
  /-- The sign, true for a minus, and the digits. -/
  exponent : Option (Bool × List Nat)
  deriving DecidableEq

inductive Number
  | integer (n : Int)
  | float (x : Binary64)
  deriving DecidableEq

namespace Numeral

def digitOf (c : Char) : Nat := c.toNat - '0'.toNat

def readDigits (cs : List Char) : List Nat × List Char :=
  ((cs.takeWhile Char.isDigit).map digitOf, cs.dropWhile Char.isDigit)

/-- A whole part has no leading zero but the lone one. -/
def wholeAllowed : List Nat → Bool
  | [] => false
  | 0 :: rest => rest.isEmpty
  | _ => true

def readFraction : List Char → Option (Option (List Nat) × List Char)
  | '.' :: cs =>
    let (ds, rest) := readDigits cs
    if ds.isEmpty then none else some (some ds, rest)
  | cs => some (none, cs)

def readSign : List Char → Bool × List Char
  | '-' :: cs => (true, cs)
  | '+' :: cs => (false, cs)
  | cs => (false, cs)

def readExponent (cs : List Char) : Option (Option (Bool × List Nat) × List Char) :=
  match cs with
  | [] => some (none, [])
  | c :: rest =>
    if c = 'e' ∨ c = 'E' then
      let (minus, rest) := readSign rest
      let (ds, rest) := readDigits rest
      if ds.isEmpty then none else some (some (minus, ds), rest)
    else some (none, cs)

/-- The longest numeral at the start of a text. -/
def read (cs : List Char) : Option (Numeral × List Char) := do
  let (negative, cs) := match cs with
    | '-' :: rest => (true, rest)
    | _ => (false, cs)
  let (whole, cs) := readDigits cs
  if !wholeAllowed whole then none
  let (fraction, cs) ← readFraction cs
  let (exponent, cs) ← readExponent cs
  some (⟨negative, whole, fraction, exponent⟩, cs)

/-- Appends digits as long as the value fits into 64 bits; also the number of digits left out. -/
def absorb (value : Nat) : List Nat → Nat × Nat
  | [] => (value, 0)
  | d :: ds =>
    if value * 10 + d < twoTo 64 then absorb (value * 10 + d) ds else (value, ds.length + 1)

/-- The value of exponent digits; none when it does not fit into 31 bits. -/
def exponentValue (ds : List Nat) : Option Nat :=
  ds.foldl (fun acc d =>
    acc.bind fun n => if n * 10 + d < twoTo 31 then some (n * 10 + d) else none)
    (some 0)

/-- `value * 10 ^ e` with one rounding per operation; none beyond the largest value. Below
`10 ^ -308` the scaling is done in steps, of which three reach zero from any start. -/
def scale (value : Binary64) (e : Int) : Nat → Option Binary64
  | 0 => some value
  | steps + 1 =>
    if e.natAbs ≤ 308 then
      (Binary64.powerOfTen e.natAbs).bind fun p => if 0 ≤ e then value.mul p else value.div p
    else if value.significand = 0 then some value
    else if 0 ≤ e then none
    else ((Binary64.powerOfTen 308).bind value.div).bind (scale · (e + 308) steps)

def float (negative : Bool) (value : Nat) (e : Int) : Option Number := do
  let x ← scale (← Binary64.ofRatio value 1) e 4
  some (.float { x with negative })

def integer (negative : Bool) (value : Nat) : Option Number :=
  if !negative then some (.integer value)
  else if value = 0 ∨ twoTo 63 < value then float true value 0
  else some (.integer (-value))

/-- The value of a numeral; none when it is beyond the largest floating-point number. -/
def value (n : Numeral) : Option Number :=
  let (whole, skipped) := absorb 0 n.whole
  let (digits, scale) : Nat × Int := match n.fraction with
    | none => (whole, skipped)
    | some ds =>
      let (digits, left) := absorb whole ds
      (digits, skipped - (ds.length - left : Nat))
  match n.exponent with
  | none =>
    if n.fraction.isNone ∧ skipped = 0 then integer n.negative digits
    else float n.negative digits scale
  | some (minus, ds) =>
    match exponentValue ds with
    | some e => float n.negative digits (if minus then scale - e else scale + e)
    | none => if digits ≠ 0 ∧ !minus then none else float n.negative 0 0

end Numeral

end HotplugDetect
