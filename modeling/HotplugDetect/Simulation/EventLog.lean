import HotplugDetect.Files.Host
import HotplugDetect.Simulation.Basic

/-! # The event log

A log file gets one line for every record, with the time at which it was written. Without an open
file nothing is written.
-/

namespace HotplugDetect

/-- The members of a line stand in the order of their names. -/
def LogRecord.line (r : LogRecord) (time : Nat) : String :=
  (Json.object [("data", r.data), ("event", r.event), ("ts_ms", .nat time)]).compact ++ "\n"

structure EventLog where
  path : Option String := none

namespace EventLog

def enabled (l : EventLog) : Bool := l.path.isSome

def close (_ : EventLog) : EventLog := {}

variable {m : Type → Type} [Monad m]

/-- Lines go behind what the file holds. -/
def openFile (host : Host m) (path : String) : m (Except Failure EventLog) := do
  let made ← match Path.parent? path with
    | none => pure (.ok ())
    | some parent =>
      if parent = "" then pure (.ok ())
      else (·.mapError (Failure.fileWrite parent)) <$> host.makeDirectories parent
  match made with
  | .error e => return .error e
  | .ok () =>
    match ← host.append path "" with
    | .error e => return .error (.fileWrite path e)
    | .ok () => return .ok ⟨some path⟩

def log (host : Host m) (l : EventLog) (r : LogRecord) : m Unit := do
  match l.path with
  | none => pure ()
  | some path => let _ ← host.append path (r.line (← host.clock))

end EventLog

end HotplugDetect
