import Arcade8080.Computer.Interrupt
import Arcade8080.Pacing.Slice

/-!
# Pacing

The pacer turns time that has passed into cycles to be spent. Each tick is given
a reading of the clock; the time since the last successful tick, times the rate,
is what the tick wants to spend, up to a cap. A tick with an interrupt request
makes the request and executes nothing.

The very first reading is remembered whether or not its tick succeeds. Later
readings are remembered only on success, so time lost to a fault is made up.
-/

namespace Arcade8080

/-- The largest cap. A slice of that budget can overshoot it by the slowest
instruction without leaving the range of the count. -/
def maxCap : UInt32 := 4294967295 - Instruction.maxCycles

structure Pacer where
  lastReading : Option Float := none
  /-- The most that one tick sets out to spend. -/
  cap : UInt32
  /-- Cycles for each microsecond. -/
  rate : UInt32
  cap_le : cap ≤ maxCap

namespace Pacer

/-- A pacer that has not seen a clock yet. -/
def start (cap rate : UInt32) : Pacer :=
  { cap := min cap maxCap
    rate := rate
    cap_le := by
      show (if cap ≤ maxCap then cap else maxCap) ≤ maxCap
      split
      · assumption
      · exact UInt32.le_refl _ }

/-- The time passed at `now`, by the readings remembered. -/
def elapsed (p : Pacer) (now : Float) : Float := now - p.lastReading.getD now

/-- What a tick wants to spend after `elapsed` microseconds, before the cap. Time
that runs backwards, or is no number, is worth nothing. -/
def wanted (p : Pacer) (elapsed : Float) : Float :=
  (if 0 < elapsed then elapsed else 0) * p.rate.toFloat

/-- The cycles for `elapsed` microseconds, fractions dropped and up to the cap. -/
def budget (p : Pacer) (elapsed : Float) : UInt32 := min p.cap (p.wanted elapsed).toUInt32

/-- Whether a tick wants more than the cap. -/
def exceeds (p : Pacer) (elapsed : Float) : Bool := p.cap.toFloat < p.wanted elapsed

theorem budget_le_cap (p : Pacer) (elapsed : Float) : p.budget elapsed ≤ p.cap := by
  show (if p.cap ≤ _ then p.cap else _) ≤ p.cap
  split
  · exact UInt32.le_refl _
  · next h => exact UInt32.le_of_lt (UInt32.not_le.mp h)

variable {β : Type} [Bus β]

/-- A tick's work: the request, or a slice of the budget. -/
def work (p : Pacer) (now : Float) (request : Option UInt8) (c : Computer β) :
    Except Fault UInt32 × Computer β :=
  match request with
  | some vector =>
    match c.interrupt vector with
    | (.ok _, c) => (.ok 0, c)
    | (.error fault, c) => (.error fault, c)
  | none => c.slice (p.budget (p.elapsed now)) 0

/-- One tick at `now`, with the interrupt requested at that time, if any. Reports
the cycles spent. -/
def tick (p : Pacer) (now : Float) (request : Option UInt8) (c : Computer β) :
    Except Fault UInt32 × Pacer × Computer β :=
  match p.work now request c with
  | (.ok cycles, c) => (.ok cycles, { p with lastReading := some now }, c)
  | (.error fault, c) =>
    (.error fault, { p with lastReading := some (p.lastReading.getD now) }, c)

end Pacer

end Arcade8080
