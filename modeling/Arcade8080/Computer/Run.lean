import Arcade8080.Computer.Execute

/-!
# Running to the end

A run executes until something stops it: a fault, a program counter outside the
loaded image, or an instruction that goes on past the top of memory. Programs
need not stop, so a run is given the number of instructions it may look at, and
answers `none` when that is used up.
-/

namespace Arcade8080.Computer

variable {β : Type} [Bus β]

def run : Nat → Computer β → Option (Fault × Computer β)
  | 0, _ => none
  | fuel + 1, c =>
    if c.memory.programEnd ≤ c.processor.pc.toNat then some (.pastEnd, c)
    else
      match c.step with
      | (.ok completion, c) => if completion.wrapped then some (.pastEnd, c) else run fuel c
      | (.error fault, c) => some (fault, c)

end Arcade8080.Computer
