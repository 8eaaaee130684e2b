import Arcade8080.Computer.Run
import Arcade8080.Log.Message
import Arcade8080.Numeric.Binary64
import Arcade8080.Pacing.Pacer

/-!
# The log of a computer

What an operation writes to the log follows from the computer it starts from.
Executing keeps no log of its own; the functions here say, beside each operation,
which messages belong to it and in which order.
-/

namespace Arcade8080

variable {α β : Type}

/-- Buses that have something to say about accesses to their ports. -/
class Bus.Noted (β : Type) [Bus β] where
  inputNotes : β → UInt8 → List Message := fun _ _ => []
  outputNotes : β → UInt8 → UInt8 → List Message := fun _ _ _ => []

instance [Bus β] [Bus.Noted β] : Bus.Noted (Option β) where
  inputNotes bus port := (bus.map fun device => Bus.Noted.inputNotes device port).getD []
  outputNotes bus port value :=
    (bus.map fun device => Bus.Noted.outputNotes device port value).getD []

instance [Bus α] [Bus β] [Bus.Noted α] [Bus.Noted β] : Bus.Noted (α ⊕ β) where
  inputNotes
    | .inl device, port => Bus.Noted.inputNotes device port
    | .inr device, port => Bus.Noted.inputNotes device port
  outputNotes
    | .inl device, port, value => Bus.Noted.outputNotes device port value
    | .inr device, port, value => Bus.Noted.outputNotes device port value

instance [Bus β] [Bus.Noted β] : Bus.Noted (Monitored β) where
  inputNotes bus := Bus.Noted.inputNotes bus.device
  outputNotes bus := Bus.Noted.outputNotes bus.device

instance : Bus.Noted Tape where

namespace Computer

/-- An instruction about to be executed, with the processor before it. -/
def traceMessage (p : Processor) (i : Instruction) : Message :=
  ⟨.trace, s!"{Hex.word p.pc}: {Hex.byte i.encode} {i.mnemonic} [{p.text}]"⟩

/-- What an interrupt request writes. A request that fails writes nothing. -/
def interruptLog (vector : UInt8) (c : Computer β) : List Message :=
  match c.interrupt vector with
  | (.ok true, c) =>
    [⟨.debug, s!"interrupt {vector} taken, jumping to {Hex.word c.processor.pc}"⟩]
  | (.ok false, _) => [⟨.debug, s!"interrupt {vector} ignored, interrupts disabled"⟩]
  | (.error _, _) => []

variable [Bus β] [Bus.Noted β]

/-- What executing one instruction writes. A byte that is no instruction writes
nothing. The instruction itself is written to logs that hold traces only, since
its text is long and there are many of them. -/
def stepLog (kept : Level) (c : Computer β) : List Message :=
  match c.instruction? with
  | none => []
  | some i =>
    let notes :=
      match i.effect c.processor c.memory.read with
      | .input port => if Bus.attached c.bus then Bus.Noted.inputNotes c.bus port else []
      | .output port value =>
        if Bus.attached c.bus then Bus.Noted.outputNotes c.bus port value else []
      | _ => []
    if kept.holds .trace then traceMessage c.processor i :: notes else notes

/-- Adds what a run writes. -/
def runLog (kept : Level) : Nat → Computer β → Log → Log
  | 0, _, log => log
  | fuel + 1, c, log =>
    if c.memory.programEnd ≤ c.processor.pc.toNat then log
    else
      let log := log ++ c.stepLog kept
      match c.step with
      | (.ok completion, next) => if completion.wrapped then log else runLog kept fuel next log
      | (.error _, _) => log

/-- Adds what a slice writes that looks at no more than `fuel` instructions. -/
def sliceLog (kept : Level) (budget : UInt32) : Nat → UInt32 → Computer β → Log → Log
  | 0, _, _, log => log
  | fuel + 1, spent, c, log =>
    if spent < budget then
      let log := log ++ c.stepLog kept
      match c.execute with
      | (.ok cycles, next) => sliceLog kept budget fuel (saturatingAdd spent cycles) next log
      | (.error _, _) => log
    else log

end Computer

namespace Pacer

variable [Bus β] [Bus.Noted β]

def clampLog (p : Pacer) (elapsed : Float) : List Message :=
  if p.exceeds elapsed then
    [⟨.debug, s!"clamping {wholeText (p.wanted elapsed)} cycles of catch-up to {p.cap}"⟩]
  else []

/-- What a tick writes. Every instruction costs a cycle at least, so a slice looks
at no more instructions than its budget has cycles. -/
def tickLog (kept : Level) (p : Pacer) (now : Float) (request : Option UInt8)
    (c : Computer β) : Log :=
  let budget := p.budget (p.elapsed now)
  let log := (p.clampLog (p.elapsed now)).toArray
  match request with
  | some vector => log ++ c.interruptLog vector
  | none => c.sliceLog kept budget budget.toNat 0 log

end Pacer

end Arcade8080
