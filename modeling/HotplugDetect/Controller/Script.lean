import HotplugDetect.Controller.State

/-! # Scripted probes

A script lists the answers of a probe in advance; the last answer is given again and again. The
first calls raise the same interrupt each.
-/

namespace HotplugDetect

structure Script where
  answers : List Bool
  interrupt : Interrupt
  /-- The calls that still raise the interrupt. -/
  raises : Nat := 0
  deriving DecidableEq

namespace Script

def next (s : Script) : Script :=
  { s with
    answers := if s.answers.tail.isEmpty then s.answers else s.answers.tail
    raises := s.raises - 1 }

def detect (s : Script) : Detection Script where
  changed := s.answers.head?.getD false
  raised := if s.raises = 0 then [] else [s.interrupt]
  next := s.next

theorem raises_detect (s : Script) :
    s.detect.next.raises + s.detect.raised.length ≤ s.raises := by
  by_cases h : s.raises = 0 <;> simp [detect, next, h]
  omega

instance : BoundedProbe Script := { detect, budget := raises, budget_detect := raises_detect }

end Script

end HotplugDetect
