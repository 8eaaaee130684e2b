import Arcade8080.Numeric.DecimalText

/-!
# Command-line options

The arguments are the path of a program, the seconds to run it and the path for a
save file in case of a fault. Only the first is required; arguments after the
third are ignored.

The seconds are rounded to a double first, and that double is rounded to whole
nanoseconds, ties to even. A duration holds less than `2 ^ 64` seconds. A longer
one is not reported as a mistake of the user: it stops the program.
-/

namespace Arcade8080

structure Options where
  romPath : String
  /-- How long to run, in nanoseconds. Without it a run ends with a fault only. -/
  runFor : Option Nat := none
  crashPath : Option String := none
deriving DecidableEq

inductive ArgumentError
  | noArguments
  | badNumber (text : String) (cause : DecimalError)
  | notADuration
deriving DecidableEq

/-- What becomes of the arguments. -/
inductive ParsedArguments
  | options (options : Options)
  | refused (error : ArgumentError)
  /-- The duration cannot be held. -/
  | overflow
deriving DecidableEq

/-- The texts of an error, from the outermost to its root. -/
def ArgumentError.chain : ArgumentError → List String
  | .noArguments => ["usage: emul8080 <rom_path> [run_seconds] [crash_snapshot_path]"]
  | .badNumber text cause => ["invalid run duration '" ++ text ++ "'", cause.message]
  | .notADuration => ["run duration must be a non-negative number of seconds"]

/-- A number of seconds as a duration. -/
inductive Seconds
  | nanoseconds (count : Nat)
  | notADuration
  | overflow
deriving DecidableEq

namespace Seconds

def ofDouble (negative : Bool) (magnitude : Dyadic) : Seconds :=
  if negative && magnitude.mantissa != 0 then .notADuration
  else
    let count := magnitude.times 1000000000
    if count < 1000000000 <<< 64 then .nanoseconds count else .overflow

def ofNumber : DecimalNumber → Seconds
  | .notANumber => .notADuration
  | .infinite _ => .notADuration
  | .finite negative mantissa exponent =>
    match DecimalNumber.nearestMagnitude mantissa exponent with
    | none => .notADuration
    | some magnitude => ofDouble negative magnitude

end Seconds

namespace Options

/-- The options for a path, the seconds and the arguments after them. -/
def withSeconds (romPath seconds : String) (rest : List String) : ParsedArguments :=
  match DecimalNumber.ofText seconds with
  | .error cause => .refused (.badNumber seconds cause)
  | .ok number =>
    match Seconds.ofNumber number with
    | .nanoseconds count => .options ⟨romPath, some count, rest.head?⟩
    | .notADuration => .refused .notADuration
    | .overflow => .overflow

def parse : List String → ParsedArguments
  | [] => .refused .noArguments
  | [romPath] => .options ⟨romPath, none, none⟩
  | romPath :: seconds :: rest => withSeconds romPath seconds rest

end Options

end Arcade8080
