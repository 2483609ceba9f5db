import OpenApiManifest.CommandLine.Program
import Std.Time.Format

/-!
# The command line

Runs the program on a real system: the arguments and the surroundings come from the process, and each
part of a script is done to the files and outputs of the system.
-/

namespace OpenApiManifest.CommandLine

/-- What an error of the system says about a file. -/
def FileFault.ofSystem : IO.Error → FileFault
  | .noFileOrDirectory .. => .notFound
  | .alreadyExists .. => .exists
  | .permissionDenied .. => .denied
  | .inappropriateType _ 20 _ => .notDirectory
  | .inappropriateType _ 21 _ => .isDirectory
  | error => .other (toString error)

/-- Does something to a file and notes a fault. -/
def attempt {α : Type} (action : IO α) : IO (Except FileFault α) := do
  try return .ok (← action)
  catch error => return .error (FileFault.ofSystem error)

def now : IO Clock := do
  let time ← Std.Time.PlainTime.now
  return ⟨time.hour.val.toNat, time.minute.val.toNat, time.second.val.toNat⟩

def Script.perform : Script Unit → IO (Except (List String) Unit)
  | .done value => return .ok value
  | .fail chain => return .error chain
  | .readFile path next => do
    let bytes ← attempt (IO.FS.readBinFile path)
    perform (next (bytes.map fun bytes => bytes.data.toList))
  | .createDirectory path next => do perform (next (← attempt (IO.FS.createDirAll path)))
  | .writeFile path text next => do perform (next (← attempt (IO.FS.writeFile path text)))
  | .print line next => do
    IO.println line
    perform next
  | .complain line next => do
    IO.eprintln line
    perform next
  | .readClock next => do perform (next (← now))

def surroundings : IO Surroundings := do
  return {
    terminal := ← (← IO.getStdout).isTty
    noColor := ← IO.getEnv "NO_COLOR"
    background := ← IO.getEnv "COLORFGBG" }

end OpenApiManifest.CommandLine

open OpenApiManifest.CommandLine in
def main (arguments : List String) : IO UInt32 := do
  match Request.ofArguments arguments with
  | .help => do
    IO.println usage
    return 0
  | .version => do
    IO.println versionText
    return 0
  | .misuse => do
    IO.eprintln usage
    return 2
  | .run invocation => do
    match ← (invocation.script (← surroundings)).perform with
    | .ok () => return 0
    | .error chain => do
      IO.eprintln (failureText chain)
      return 1
