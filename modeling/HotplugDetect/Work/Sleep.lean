/-! # Sleeping

The clock counts milliseconds. A party that sleeps names a length, and a length beyond the longest
one counts as the longest one.
-/

namespace HotplugDetect

/-- Thirty years of 365 days. -/
def longestSleep : Nat := 30 * 365 * 24 * 60 * 60 * 1000

/-- The instant at which a sleep is over. -/
def wakeUp (now ms : Nat) : Nat := now + min ms longestSleep

end HotplugDetect
