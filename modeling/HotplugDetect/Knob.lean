import HotplugDetect.Failure
import HotplugDetect.Text.Blank

/-! # The storm control knobs

Two values that an operator sets and reads as text: the storm threshold, and whether short pulses
count. White space around a value is ignored.
-/

namespace HotplugDetect

inductive ThresholdKnob
  | reset
  | set (threshold : UInt32)
  deriving DecidableEq

inductive ShortStormKnob
  | reset
  | set (on : Bool)
  deriving DecidableEq

namespace Knob

def decimalValue (digits : List Char) : Nat :=
  digits.foldl (fun n c => n * 10 + (c.toNat - '0'.toNat)) 0

def dropPlus : List Char → List Char
  | '+' :: cs => cs
  | cs => cs

def word32? (cs : List Char) : Option UInt32 :=
  let digits := dropPlus cs
  if digits ≠ [] ∧ digits.all Char.isDigit ∧ decimalValue digits < UInt32.size then
    some (UInt32.ofNat (decimalValue digits))
  else none

def yesWords : List String := ["y", "yes", "1", "on", "true"]

def noWords : List String := ["n", "no", "0", "off", "false"]

/-- A yes or no in any of its spellings, in letters of either case. -/
def truth? (cs : List Char) : Option Bool :=
  let word := String.ofList (cs.map Char.toLower)
  if word ∈ yesWords then some true
  else if word ∈ noWords then some false
  else none

def resetWord : List Char := ['r', 'e', 's', 'e', 't']

end Knob

namespace ThresholdKnob

def parse (s : String) : Except Failure ThresholdKnob :=
  let v := Text.trim s.toList
  if v = Knob.resetWord then .ok reset
  else match Knob.word32? v with
    | some n => .ok (set n)
    | none => .error (.invalidKnob s)

end ThresholdKnob

namespace ShortStormKnob

def parse (s : String) : Except Failure ShortStormKnob :=
  let v := Text.trim s.toList
  if v = Knob.resetWord then .ok reset
  else match Knob.truth? v with
    | some on => .ok (set on)
    | none => .error (.invalidKnob s)

end ShortStormKnob

def yesNo (b : Bool) : String := if b then "yes" else "no"

structure StormStatus where
  threshold : UInt32
  /-- A storm was handed over to polling and the recovery is still due. -/
  detected : Bool
  deriving DecidableEq

def StormStatus.text (s : StormStatus) : String :=
  "Threshold: " ++ toString s.threshold.toNat ++ "\nDetected: " ++ yesNo s.detected ++ "\n"

structure ShortStormStatus where
  enabled : Bool
  deriving DecidableEq

def ShortStormStatus.text (s : ShortStormStatus) : String :=
  "Enabled: " ++ yesNo s.enabled ++ "\n"

end HotplugDetect
