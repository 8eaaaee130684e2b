/-!
# Log messages

A message has a level. Levels are ordered by severity, and a log that is kept at
one level holds the messages of that level and of the more severe ones.
-/

namespace Arcade8080

inductive Level
  | error
  | warn
  | info
  | debug
  | trace
deriving DecidableEq

def Level.name : Level → String
  | .error => "ERROR"
  | .warn => "WARN"
  | .info => "INFO"
  | .debug => "DEBUG"
  | .trace => "TRACE"

/-- Greater numbers are less severe. -/
def Level.rank : Level → Nat
  | .error => 0
  | .warn => 1
  | .info => 2
  | .debug => 3
  | .trace => 4

structure Message where
  level : Level
  text : String
deriving DecidableEq

def Message.line (m : Message) : String := m.level.name ++ " " ++ m.text

/-- Whether a log kept at one level holds the messages of another. -/
def Level.holds (kept level : Level) : Bool := level.rank ≤ kept.rank

/-- Messages in the order in which they were written. -/
abbrev Log := Array Message

/-- The lines of a log kept at a level. -/
def Log.lines (log : Log) (kept : Level) : List String :=
  (log.toList.filter fun m => kept.holds m.level).map Message.line

end Arcade8080
