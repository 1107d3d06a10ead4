import ShellPrompt.CommandLine
import ShellPrompt.CommandLine.PromptLine
import Std.Time.DateTime.Timestamp

/-!
# ShellPrompt.Main

The program: arguments, environment and files on one side, standard output on the other.
-/

namespace ShellPrompt
namespace CommandLine

def fileError : IO.Error → FileError
  | .noFileOrDirectory .. => .notFound
  | .inappropriateType .. => .isDirectory
  | .permissionDenied .. => .denied
  | _ => .denied

def find (path : Path) : IO Found := do
  try
    let content ← IO.FS.readBinFile path.display
    return .content content.toList
  catch e =>
    match fileError e with
    | .notFound => return .missing
    | e => return .unreadable e

/-- The content of a log file, created where it is missing; nothing if it cannot be opened. -/
def openLog (path : Path) : IO (Option Text.Bytes) := do
  try
    let _ ← IO.FS.Handle.mk path.display .append
    let content ← IO.FS.readBinFile path.display
    return some content.toList
  catch _ => return none

/-- Brings a log file from one content to another, appending where that is enough. -/
def updateLog (path : Path) (before after : Text.Bytes) : IO Unit := do
  if before.isPrefixOf after then
    let handle ← IO.FS.Handle.mk path.display .append
    handle.write (after.drop before.length).toByteArray
  else IO.FS.writeBinFile path.display after.toByteArray

def nanosNow : IO Nat := do
  let now ← Std.Time.Timestamp.now
  return now.toNanosecondsSinceUnixEpoch.val.toNat

/-- What can be told of the surroundings. `detectedWidth` is left at none: there is no way here to
ask the terminal for its size, so without a width on the command line the standard one is
assumed. -/
def detectShell : IO Shell := do
  let home ← IO.getEnv "HOME"
  let config ← IO.getEnv "PROMPT_ENGINE_CONFIG"
  return {
    cwd := Path.ofString (← IO.currentDir).toString
    home := home.map Path.ofString
    configEnv := config.filter (!·.isEmpty) }

def printPrompt (a : Arguments) : IO UInt32 := do
  let shell ← detectShell
  let log? ← match a.logFile with
    | some path => openLog path
    | none => pure none
  let found ← match configPath a shell with
    | some path => find path
    | none => pure .missing
  let sink? := log?.map fun content => Log.Sink.file { maxBytes := logLimit } content
  let observers := { logger := sink?.map loggerOn, clock := (← nanosNow) / 1000000 }
  let (line, observers) :=
    (promptLine Pipeline.eager (fun _ => found) a shell).run.run observers
  if let some path := a.logFile then
    if let some before := log? then
      if let some logger := observers.logger then
        updateLog path before ((logger.sink.content?).getD before)
  match line with
  | .ok line =>
    let out ← IO.getStdout
    out.putStr line
    out.flush
    return 0
  | .error _ =>
    IO.eprintln "Error: the prompt cannot be rendered"
    return 1

def printSessionKey : IO UInt32 := do
  let process ← IO.rand 0 0xFFFFFFFF
  IO.println (sessionKey (UInt32.ofNat process) (← nanosNow))
  return 0

def run (arguments : List String) : IO UInt32 := do
  match Command.parse arguments with
  | .ok (.prompt a) => printPrompt a
  | .ok .session => printSessionKey
  | .error e =>
    if e.exitCode = 0 then IO.println e.message else IO.eprintln e.message
    return UInt32.ofNat e.exitCode

end CommandLine
end ShellPrompt

def main (arguments : List String) : IO UInt32 := ShellPrompt.CommandLine.run arguments
