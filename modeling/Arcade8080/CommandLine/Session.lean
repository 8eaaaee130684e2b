import Arcade8080.Board.Basic
import Arcade8080.CommandLine.Options

/-!
# Sessions

A session runs a program on a board with the default settings. Before each turn
the time limit is checked; a turn is one tick of the board. The clock is read
outside: a turn is given the time passed since the session began, for the limit,
and the time that the board sees.
-/

namespace Arcade8080

/-- What a run has done so far. -/
structure Progress where
  ticks : Nat := 0
  cycles : Nat := 0
deriving DecidableEq

/-- Why a run ended before its time. -/
inductive RunError
  | unreadable (path : String)
  | unloadable (path : String) (fault : Fault)
  | crashed (crash : Crash)
  | unwritable (path : String)

/-- The texts of an error, from the outermost to its root. Causes that the
operating system gives for a file are not among them. -/
def RunError.chain : RunError → List String
  | .unreadable path => ["failed to read ROM '" ++ path ++ "'"]
  | .unloadable path fault => ["failed to load ROM '" ++ path ++ "'", fault.message]
  | .crashed crash => ["emulation stopped", crash.message, crash.fault.message]
  | .unwritable path => ["failed to write crash snapshot '" ++ path ++ "'"]

/-- Two readings of the clock taken for a turn. -/
structure Reading where
  /-- Nanoseconds since the session began. -/
  elapsed : Nat
  /-- Microseconds on the clock of the board. -/
  now : Float

structure Session where
  board : Board
  limit : Option Nat
  progress : Progress := {}

/-- How a turn ended. -/
inductive Turn
  | again (session : Session)
  | over (progress : Progress)
  | crashed (crash : Crash)

namespace Session

/-- A session at its beginning, or why the program could not be loaded. -/
def start (options : Options) (image : List UInt8) : Except RunError Session :=
  match (Board.build {}).loadRom image with
  | (.ok (), board) => .ok { board := board, limit := options.runFor }
  | (.error fault, _) => .error (.unloadable options.romPath fault)

def turn (s : Session) (reading : Reading) : Turn :=
  match s with
  | ⟨board, limit, progress⟩ =>
    if limit.any (· ≤ reading.elapsed) then .over progress
    else
      match board.tick reading.now with
      | (.ok cycles, board) =>
        .again ⟨board.drain.2, limit, ⟨progress.ticks + 1, progress.cycles + cycles.toNat⟩⟩
      | (.error crash, _) => .crashed crash

/-- Takes turns by a given clock, starting with its reading number `count`, for at
most `fuel` turns. -/
def play (clock : Nat → Reading) : Nat → Nat → Session → Option (Except Crash Progress)
  | 0, _, _ => none
  | fuel + 1, count, s =>
    match s.turn (clock count) with
    | .again s => play clock fuel (count + 1) s
    | .over progress => some (.ok progress)
    | .crashed crash => some (.error crash)

end Session

end Arcade8080
