import HotplugDetect.Json.Mismatch

/-! # Failures

The core never fails. Failures come from the edges around it: settings files, operator knobs,
scenarios, and the start of the workers. Each cause has one wording.
-/

namespace HotplugDetect

inductive FileFault
  | notFound
  | occupied
  | notDirectory
  | isDirectory
  | nameTooLong
  | notUtf8
  | zeroInName
  | other (text : String)
  deriving DecidableEq

def FileFault.message : FileFault → String
  | notFound => "No such file or directory (os error 2)"
  | occupied => "File exists (os error 17)"
  | notDirectory => "Not a directory (os error 20)"
  | isDirectory => "Is a directory (os error 21)"
  | nameTooLong => "File name too long (os error 36)"
  | notUtf8 => "stream did not contain valid UTF-8"
  | zeroInName => "file name contained an unexpected NUL byte"
  | other text => text

inductive Failure
  | io (fault : FileFault)
  | fileRead (path : String) (fault : FileFault)
  | fileWrite (path : String) (fault : FileFault)
  | config (text : String)
  | json (error : ReadError)
  | invalidSetting (field reason : String)
  | invalidKnob (text : String)
  | noExecutor
  | alreadyStarted
  | scenario (text : String)
  | unknownConnector (name : String)
  | generic (text : String)
  deriving DecidableEq

namespace Failure

def message : Failure → String
  | io fault => "I/O error: " ++ fault.message
  | fileRead path fault => "Failed to read file " ++ path ++ ": " ++ fault.message
  | fileWrite path fault => "Failed to write file " ++ path ++ ": " ++ fault.message
  | config text => "Configuration error: " ++ text
  | json error => "Failed to parse JSON: " ++ error.message
  | invalidSetting field reason =>
    "Invalid configuration value for " ++ field ++ ": " ++ reason
  | invalidKnob text => "Invalid storm control value: " ++ Text.quoted text
  | noExecutor => "No async runtime available to run hotplug work"
  | alreadyStarted => "Hotplug workers already started"
  | scenario text => "Scenario error: " ++ text
  | unknownConnector name => "Unknown connector: " ++ name
  | generic text => text

def cause? : Failure → Option String
  | fileRead _ fault => some fault.message
  | fileWrite _ fault => some fault.message
  | json error => some error.message
  | _ => none

end Failure

theorem bind_eq_ok {ε α β : Type} {x : Except ε α} {f : α → Except ε β} {b : β} :
    (x >>= f) = .ok b ↔ ∃ a, x = .ok a ∧ f a = .ok b := by
  cases x <;> simp [bind, Except.bind]

end HotplugDetect
