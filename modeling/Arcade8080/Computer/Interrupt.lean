import Arcade8080.Computer.Basic
import Arcade8080.Execution.Effect

/-!
# Interrupt requests

A request is taken when the latch is set. Taking it clears the latch, pushes the
program counter and goes on at eight times the vector. If the push fails the
latch stays clear, and nothing else has happened to the processor.
-/

namespace Arcade8080.Computer

variable {β : Type}

/-- The address at which a vector is served. -/
def serviceAddress (vector : UInt8) : UInt16 := vector.toUInt16 * 8

/-- Requests an interrupt and reports whether it was taken. -/
def interrupt (vector : UInt8) (c : Computer β) : Except Fault Bool × Computer β :=
  match c with
  | ⟨p, memory, bus⟩ =>
    if p.interruptEnable then
      let p := { p with interruptEnable := false }
      let (stores, after) := p.push p.pc
      match memory.storeAll stores with
      | (memory, none) => (.ok true, ⟨{ after with pc := serviceAddress vector }, memory, bus⟩)
      | (memory, some address) => (.error (.romWrite address), ⟨p, memory, bus⟩)
    else (.ok false, ⟨p, memory, bus⟩)

end Arcade8080.Computer
