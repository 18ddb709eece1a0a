import HotplugDetect.CommandLine
import Std.Time.DateTime.Timestamp

/-! # The program

The command line on the files, the clock and the output streams of the machine. Simulated time does
not take real time.
-/

namespace HotplugDetect

namespace FileFault

def ofCode (code : Nat) (details : String) : FileFault :=
  if code = 2 then notFound
  else if code = 17 then occupied
  else if code = 20 then notDirectory
  else if code = 21 then isDirectory
  else if code = 36 then nameTooLong
  else other (details ++ " (os error " ++ toString code ++ ")")

def ofError : IO.Error → FileFault
  | .noFileOrDirectory _ _ _ => notFound
  | .alreadyExists _ _ _ => occupied
  | .inappropriateType _ code details => ofCode code.toNat details
  | .invalidArgument _ code details => ofCode code.toNat details
  | .permissionDenied _ code details => ofCode code.toNat details
  | .resourceExhausted _ code details => ofCode code.toNat details
  | .otherError code details => ofCode code.toNat details
  | e => other e.toString

end FileFault

def attempt {α : Type} (act : IO α) : IO (Except FileFault α) := do
  try return .ok (← act)
  catch e => return .error (.ofError e)

def machine : Host IO where
  look path := attempt (IO.FS.readBinFile path)
  makeDirectories path := attempt (IO.FS.createDirAll path)
  write path text := attempt (IO.FS.writeFile path text)
  append path text := attempt (IO.FS.withFile path .append (·.putStr text))
  clock := return (← Std.Time.Timestamp.now).toMillisecondsSinceUnixEpoch.toInt.toNat

end HotplugDetect

open HotplugDetect

def main (args : List String) : IO UInt32 := do
  let o ← CommandLine.run machine (← IO.getEnv "HPDSTORM_SETTINGS") args
  (← IO.getStdout).putStr o.out
  (← IO.getStderr).putStr o.err
  return UInt32.ofNat o.code
