import ServiceEngine.CommandLine.Run
import Std.Time.DateTime.Timestamp

/-!
# The program

The command line on a real host: files, variables, the wall clock and standard output. All decisions
are made in `ServiceEngine.runCommandLine`.
-/

namespace ServiceEngine.Main

/-- The text of a file, if it can be read. -/
def readFile (path : String) : IO (Option String) := do
  try
    return some (← IO.FS.readFile path)
  catch _ =>
    return none

/-- The variables of the process. -/
def vars : IO (Fields String) := do
  let text := (← readFile "/proc/self/environ").getD ""
  let entries := (Text.splitBy (· = '\x00') text.toList).filterMap (Text.cut? '=')
  return Fields.ofEntries (entries.map (fun (name, value) =>
    (String.ofList name, String.ofList value)))

def now : IO Int := do
  return (← Std.Time.Timestamp.now).toMillisecondsSinceUnixEpoch.val

/-- Write notices to standard error. -/
def report (notices : List Notice) : IO Unit := do
  for notice in notices do
    IO.eprintln notice.text

/-- Let time pass for an engine that runs since `start`, as it passes on the monotonic clock. -/
partial def keepRunning (start : Nat) (e : Engine) : IO Engine := do
  let passed := (← IO.monoMsNow) - start
  let e := e.advance (passed - e.elapsed)
  report (e.notices.toList.map Prod.snd)
  let wait := match e.nextDue? with
    | some due => min (due - e.elapsed) 1000
    | none => 1000
  IO.sleep (UInt32.ofNat (max wait 1))
  keepRunning start { e with notices := #[] }

def host : IO (Host IO) := do
  return {
    vars := ← vars
    readFile := readFile
    print := fun text => do
      IO.print text
      (← IO.getStdout).flush
    now := now
    untilInterrupted := fun e => do keepRunning (← IO.monoMsNow) e }

/-- How the program is called. -/
def usage : String :=
  "Usage: keel [--config FILE] [--program FILE] COMMAND\n" ++
  "Commands:\n" ++
  "  routes\n" ++
  "  jobs\n" ++
  "  call METHOD PATH [--body JSON] [--seed JSON] [--dump]\n" ++
  "  run-job NAME [--seed JSON]\n" ++
  "  run"

end ServiceEngine.Main

/-- Run the command line; the exit code is 0 if all went well, 1 on an error and 2 on a command line
that is not understood. -/
def main (words : List String) : IO UInt32 := do
  match ← ServiceEngine.runCommandLine (← ServiceEngine.Main.host) words with
  | .usage =>
    IO.eprintln ServiceEngine.Main.usage
    return 2
  | .ended notices none =>
    ServiceEngine.Main.report notices
    return 0
  | .ended notices (some why) =>
    ServiceEngine.Main.report notices
    IO.eprintln ("Error: " ++ why.message)
    return 1
