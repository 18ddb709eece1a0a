import HotplugDetect.Files.Documents
import HotplugDetect.Simulation.EventLog

/-! # The command line

Options are read from left to right. A run loads settings and a scenario, simulates it, and prints
the report; a failure is printed with everything that led to it.
-/

namespace HotplugDetect.CommandLine

def version : String := "0.1.0"

def help : String :=
  "hpdstorm " ++ version ++ " - Display hot-plug storm simulator\n" ++
  "\n" ++
  "USAGE:\n" ++
  "    hpdstorm [OPTIONS] SCENARIO.json\n" ++
  "\n" ++
  "OPTIONS:\n" ++
  "    -c, --config PATH      Settings file (default: $HPDSTORM_SETTINGS or " ++
  "/etc/hpdstorm/hotplug.json)\n" ++
  "    -e, --event-log PATH   Append JSON-lines events to PATH\n" ++
  "    -v, --version          Print version\n" ++
  "    -h, --help             Print this help\n" ++
  "\n" ++
  "ENVIRONMENT:\n" ++
  "    HPDSTORM_LOG           Log level (trace, debug, info, warn, error)\n" ++
  "    HPDSTORM_SETTINGS      Settings file path\n"

structure Options where
  config : Option String
  eventLog : Option String
  scenario : String
  deriving DecidableEq

inductive Request
  | help
  | version
  | run (o : Options)
  deriving DecidableEq

inductive UsageError
  | configPath
  | eventLogPath
  | unknownArgument (arg : String)
  | secondScenario
  | noScenario
  deriving DecidableEq

namespace UsageError

def message : UsageError → String
  | configPath => "--config requires a path argument"
  | eventLogPath => "--event-log requires a path argument"
  | unknownArgument arg => "Unknown argument: " ++ arg
  | secondScenario => "Only one scenario file may be given"
  | noScenario => "Missing scenario file"

def showsHelp : UsageError → Bool
  | unknownArgument _ => true
  | noScenario => true
  | _ => false

end UsageError

/-- Reads the arguments behind those that gave the first three values. -/
def read (config eventLog scenario : Option String) : List String → Except UsageError Request
  | [] =>
    match scenario with
    | some s => .ok (.run ⟨config, eventLog, s⟩)
    | none => .error .noScenario
  | arg :: rest =>
    if arg = "-h" ∨ arg = "--help" then .ok .help
    else if arg = "-v" ∨ arg = "--version" then .ok .version
    else if arg = "-c" ∨ arg = "--config" then
      match rest with
      | [] => .error .configPath
      | path :: rest => read (some path) eventLog scenario rest
    else if arg = "-e" ∨ arg = "--event-log" then
      match rest with
      | [] => .error .eventLogPath
      | path :: rest => read config (some path) scenario rest
    else if arg.startsWith "-" then .error (.unknownArgument arg)
    else if scenario.isSome then .error .secondScenario
    else read config eventLog (some arg) rest

def parse (args : List String) : Except UsageError Request := read none none none args

/-- What a program leaves behind. -/
structure Outcome where
  code : Nat := 0
  out : String := ""
  err : String := ""
  deriving DecidableEq

def indented (number : Option Nat) (text : String) : String :=
  match number with
  | none => "    " ++ text.replace "\n" "\n    "
  | some n => "    " ++ toString n ++ ": " ++ text.replace "\n" "\n       "

/-- A failure below the action that it ended. Several causes are numbered. -/
def explain (action : String) (e : Failure) : String :=
  "Error: " ++ action ++ "\n\nCaused by:\n" ++
    (match e.cause? with
    | none => indented none e.message
    | some cause => indented (some 0) e.message ++ "\n" ++ indented (some 1) cause) ++ "\n"

def failed (action : String) (e : Failure) : Outcome := { code := 1, err := explain action e }

def misused (e : UsageError) : Outcome where
  code := 1
  err := (if e.showsHelp then help else "") ++ "Error: " ++ e.message ++ "\n"

variable {m : Type → Type} [Monad m]

def openLog (host : Host m) : Option String → m (Except Failure EventLog)
  | none => pure (.ok {})
  | some path => EventLog.openFile host path

def logAll (host : Host m) (l : EventLog) : List LogRecord → m Unit
  | [] => pure ()
  | r :: rs => do
    l.log host r
    logAll host l rs

/-- Runs a loaded scenario and prints the report. -/
def simulate (host : Host m) (log : EventLog) (scenario : Scenario) (settings : Settings) :
    m Outcome := do
  match Simulation.new scenario settings with
  | .error e => return failed "setting up simulation" e
  | .ok sim =>
    let (result, records) := sim.run scenario.steps
    logAll host log records
    match result with
    | .error e => return failed "running scenario" e
    | .ok report => return { out := report.write.pretty ++ "\n" }

def runWith (host : Host m) (environment : Option String) (o : Options) : m Outcome := do
  let settingsPath := o.config.getD (Settings.path environment)
  match ← Settings.load host settingsPath with
  | .error e => return failed ("loading settings from " ++ Text.quoted settingsPath) e
  | .ok settings =>
    match ← Scenario.load host o.scenario with
    | .error e => return failed ("loading scenario " ++ Text.quoted o.scenario) e
    | .ok scenario =>
      match ← openLog host o.eventLog with
      | .error e => return failed "opening event log" e
      | .ok log => simulate host log scenario settings

/-- The whole program; `environment` names a settings file. -/
def run (host : Host m) (environment : Option String) (args : List String) : m Outcome :=
  match parse args with
  | .error e => pure (misused e)
  | .ok .help => pure { err := help }
  | .ok .version => pure { out := "hpdstorm " ++ version ++ "\n" }
  | .ok (.run o) => runWith host environment o

end HotplugDetect.CommandLine
