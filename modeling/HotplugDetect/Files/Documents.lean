import HotplugDetect.Files.Host
import HotplugDetect.Scenario.Basic

/-! # Settings files and scenario files

Both hold JSON text of limited size. A settings file that is missing stands for the defaults, and a
settings file is only written with valid settings.
-/

namespace HotplugDetect

def readText (path : String) (content : ByteArray) : Except Failure String :=
  match String.fromUTF8? content with
  | some text => .ok text
  | none => .error (.fileRead path .notUtf8)

def tooLarge (path : String) (size limit : Nat) : String :=
  Text.quoted path ++ " too large (" ++ toString size ++ " bytes, max " ++
    toString limit ++ ")"

namespace Settings

def sizeLimit : Nat := 65536

def defaultPath : String := "/etc/hpdstorm/hotplug.json"

/-- The file named by the environment, unless that is empty. -/
def path (environment : Option String) : String :=
  match environment with
  | none => defaultPath
  | some p => if p = "" then defaultPath else p

def ofContent (path : String) (content : ByteArray) : Except Failure Settings := do
  if sizeLimit < content.size then
    .error (.config ("Settings file " ++ tooLarge path content.size sizeLimit))
  else
    let s ← parse (← readText path content)
    s.validate
    .ok s

/-- What is found under a path that cannot be reached counts as missing. -/
def ofLook (path : String) : Except FileFault ByteArray → Except Failure Settings
  | .ok content => ofContent path content
  | .error .isDirectory => .error (.fileRead path .isDirectory)
  | .error _ => .ok {}

variable {m : Type → Type} [Monad m]

def load (host : Host m) (path : String) : m (Except Failure Settings) := do
  return ofLook path (← host.look path)

def text (s : Settings) : String := (codec.write s).pretty

/-- Makes the directory of the file first. -/
def save (host : Host m) (path : String) (s : Settings) : m (Except Failure Unit) := do
  match s.validate with
  | .error e => return .error e
  | .ok () =>
    let made ← match Path.parent? path with
      | none => pure (.ok ())
      | some parent => (·.mapError (Failure.fileWrite parent)) <$> host.makeDirectories parent
    match made with
    | .error e => return .error e
    | .ok () => return (← host.write path s.text).mapError (.fileWrite path)

end Settings

namespace Scenario

def sizeLimit : Nat := 1048576

def ofContent (path : String) (content : ByteArray) : Except Failure Scenario := do
  if sizeLimit < content.size then
    .error (.scenario (tooLarge path content.size sizeLimit))
  else parse (← readText path content)

def ofLook (path : String) : Except FileFault ByteArray → Except Failure Scenario
  | .ok content => ofContent path content
  | .error e => .error (.fileRead path e)

def load {m : Type → Type} [Monad m] (host : Host m) (path : String) :
    m (Except Failure Scenario) := do
  return ofLook path (← host.look path)

end Scenario

end HotplugDetect
