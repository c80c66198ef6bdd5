import PeerWarden.CommandLine
import PeerWarden.Run.Timetable

/-!
# The Program

Reads the arguments and the configuration file, prints what follows from them, and runs the two cycles on the
clock of the host.
-/

namespace PeerWarden.Program

open CommandLine

/-- What is found under a path on disk. -/
def readFile (path : String) : IO File :=
  tryCatch (return .contents (← IO.FS.readBinFile path)) fun
    | .noFileOrDirectory .. => return .absent
    | .inappropriateType .. => return .directory
    | e => return .refused (toString e)

/-- The longest time in milliseconds that is slept at once. -/
def maxNap : Nat := 60000

/-- The shortest time between two cycles of a loop that the timers of the host can measure. -/
def timerStep : Span := Span.millisecond

/-- Runs the cycles of a timetable as they become due, until nothing is due any more. -/
partial def runCycles (w : Warden) (start : Nat) (t : Timetable) (s : Session) : IO Unit := do
  -- No signal to stop is planned, so the horizon is the end of time.
  let some (cycle, due) := t.next? lastInstant.toNat | return
  let now ← IO.monoNanosNow
  if now < start + due then
    IO.sleep (UInt32.ofNat (min ((start + due - now) / Span.millisecond + 1) maxNap))
    runCycles w start t s
  else
    let (s, succeeded) := w.iterate (fun time => start + time) cycle due s
    let delay := max timerStep ((Cadence.ofSchedule w.config.schedule cycle).delay succeeded)
    runCycles w start (t.defer (due + delay) cycle) s

/-- The exit code that stands for an abort. -/
def abortCode : Nat := 134

/-- Prints how the program ends, or runs it. -/
def perform : Launch → IO UInt32
  | .finished outcome => do
    (← IO.getStdout).putStr outcome.stdout
    (← IO.getStderr).putStr outcome.stderr
    return UInt32.ofNat (outcome.exitCode.getD abortCode)
  | .running config => do
    let w := Warden.standalone config
    runCycles w (← IO.monoNanosNow) .both w.start
    return 0

end PeerWarden.Program

open PeerWarden CommandLine in
/-- The entry of the program. -/
def main (args : List String) : IO UInt32 := do
  let demand := Demand.ofArguments {} args
  let file ← match demand with
    | .execute _ path => Program.readFile path
    | _ => pure .absent
  Program.perform (launch (fun _ => file) demand)
