import Arcade8080.CommandLine.Session

/-!
# Command line

Reads the program, runs it by the clock of the host with a pause of a millisecond
between turns, and writes a save file if the computer faults.
-/

namespace Arcade8080.CommandLine

/-- Prints the texts of an error, its causes indented under it. -/
def report (chain : List String) : IO UInt32 := do
  IO.eprintln ("Error: " ++ chain.headD "")
  match chain.tail with
  | [] => pure ()
  | [cause] => IO.eprintln ("\nCaused by:\n    " ++ cause)
  | causes =>
    IO.eprintln "\nCaused by:"
    for (cause, k) in causes.zipIdx do
      IO.eprintln s!"    {k}: {cause}"
  return 1

/-- The clock of the host, counted from `origin`. -/
def readClock (origin : Nat) : IO Reading := do
  let elapsed := (← IO.monoNanosNow) - origin
  return ⟨elapsed, elapsed.toFloat / 1000000000 * 1000000⟩

partial def play (origin : Nat) (s : Session) : IO (Except Crash Progress) := do
  match s.turn (← readClock origin) with
  | .again s =>
    IO.sleep 1
    play origin s
  | .over progress => return .ok progress
  | .crashed crash => return .error crash

def run (options : Options) : IO UInt32 := do
  let image ←
    try
      pure (Except.ok (← IO.FS.readBinFile options.romPath).toList)
    catch error => pure (Except.error error.toString)
  match image with
  | .error cause => report ((RunError.unreadable options.romPath).chain ++ [cause])
  | .ok image =>
    match Session.start options image with
    | .error error => report error.chain
    | .ok session =>
      match ← play (← IO.monoNanosNow) session with
      | .ok _ => return 0
      | .error crash =>
        match options.crashPath with
        | none => report (RunError.crashed crash).chain
        | some path =>
          try
            IO.FS.writeBinFile path ⟨crash.saved.encode.toArray⟩
            report (RunError.crashed crash).chain
          catch error => report ((RunError.unwritable path).chain ++ [error.toString])

end Arcade8080.CommandLine

def main (args : List String) : IO UInt32 :=
  match Arcade8080.Options.parse args with
  | .options options => Arcade8080.CommandLine.run options
  | .refused error => Arcade8080.CommandLine.report error.chain
  | .overflow => do
    IO.eprintln "run duration is out of range"
    return 101
