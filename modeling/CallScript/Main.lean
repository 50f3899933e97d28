import CallScript.CommandLine.Run

/-!
# The program

The process around the command line. Files and typed lines are read here, and what a step recorded is
written here; what is written, and what the process ends with, is decided by the command line and the
shell.
-/

namespace CallScript.Main

open CommandLine

def exitCode : Option (Option Int) → UInt32
  | some (some code) => UInt32.ofInt code
  | _ => 0

def chooseStyle : IO Text.Style := do
  if (← IO.getEnv "NO_COLOR").isSome then return .plain
  if (← IO.getEnv "FORCE_COLOR").isSome then return .coloured
  if (← IO.getEnv "TERM") == some "dumb" then return .plain
  return if ← (← IO.getStdout).isTty then .coloured else .plain

def readBytes (path : String) : IO (Option (List UInt8)) := do
  match ← (IO.FS.readBinFile path).toBaseIO with
  | .ok bytes => return some bytes.toList
  | .error _ => return none

def write (out err : String) : IO Unit := do
  let stdout ← IO.getStdout
  stdout.putStr out
  stdout.flush
  let stderr ← IO.getStderr
  stderr.putStr err
  stderr.flush

def writeOut (shell : Shell) : IO Shell := do
  let desk := shell.desk
  write (shownText desk.world.events) (logText desk.session.verbose desk.world.events)
  return { shell with desk := { desk with world := { desk.world with events := #[] } } }

partial def converse (limits : Limits) (input : IO.FS.Stream) (shell : Shell) : IO UInt32 := do
  match Shell.showPrompt shell with
  | .error _ shell => discard (writeOut shell); return 1
  | .ok _ shell =>
    let shell ← writeOut shell
    let typed ← input.getLine
    let step :=
      if typed.isEmpty then Shell.obey limits .endOfInput
      else Shell.onLine limits typed
    match step shell with
    | .error (.exit code) shell => discard (writeOut shell); return exitCode (some code)
    | .error _ shell => discard (writeOut shell); return 1
    | .ok .quit shell => discard (writeOut shell); return 0
    | .ok _ shell => converse limits input (← writeOut shell)

def runProcess (args : List String) : IO UInt32 := do
  let style ← chooseStyle
  let limits := Limits.standard
  match parse args with
  | .ok settings =>
    if settings.eval.isNone && settings.file.isNone then
      converse limits (← IO.getStdin) (← writeOut (openShell style settings))
    else
      let bytes ← settings.file.bindM readBytes
      let outcome := follow limits style (fun _ => bytes) [] settings
      write outcome.out outcome.err
      return exitCode outcome.exit
  | .error stop =>
    let outcome := stop.outcome
    write outcome.out outcome.err
    return exitCode outcome.exit

end CallScript.Main

def main (args : List String) : IO UInt32 :=
  CallScript.Main.runProcess args
