import Arcade8080.Computer.Basic
import Arcade8080.Execution.Effect
import Arcade8080.Instruction.Cost

/-!
# Executing one instruction

The result comes together with the computer afterwards, because a fault can
leave its mark: when the second of two stores is refused, the first one has been
made. Processor and bus are as they were after any fault.
-/

namespace Arcade8080

/-- An instruction that was carried out: its cost, and whether it went on from
the top of memory to address zero without jumping there. -/
structure Completion where
  cycles : UInt32
  wrapped : Bool
deriving DecidableEq

/-- The address at which execution goes on after an instruction of this length at `pc`. -/
def Flow.target (flow : Flow) (pc length : UInt16) : UInt16 :=
  match flow with
  | .next => pc + length
  | .jump target => target

def Flow.wraps (flow : Flow) (pc length : UInt16) : Bool :=
  match flow with
  | .next => 65536 ≤ pc.toNat + length.toNat
  | .jump _ => false

namespace Computer

variable {β : Type} [Bus β]

/-- The instruction at the program counter, if there is one. -/
def instruction? (c : Computer β) : Option Instruction :=
  Instruction.decode? (c.memory.read c.processor.pc)

/-- Applies the effect of `i` to a computer. -/
def commit (i : Instruction) (effect : Effect) (c : Computer β) :
    Except Fault Completion × Computer β :=
  match c with
  | ⟨p, memory, bus⟩ =>
    match effect with
    | .change stores after flow =>
      match memory.storeAll stores with
      | (memory, none) =>
        (.ok ⟨i.cycles, flow.wraps p.pc i.length⟩,
          ⟨{ after with pc := flow.target p.pc i.length }, memory, bus⟩)
      | (memory, some address) => (.error (.romWrite address), ⟨p, memory, bus⟩)
    | .input port =>
      if Bus.attached bus then
        let (value, bus) := Bus.input bus port
        (.ok ⟨i.cycles, Flow.next.wraps p.pc i.length⟩,
          ⟨{ p with regs.a := value, pc := p.pc + i.length }, memory, bus⟩)
      else (.error .noBus, ⟨p, memory, bus⟩)
    | .output port value =>
      if Bus.attached bus then
        (.ok ⟨i.cycles, Flow.next.wraps p.pc i.length⟩,
          ⟨{ p with pc := p.pc + i.length }, memory, Bus.output bus port value⟩)
      else (.error .noBus, ⟨p, memory, bus⟩)
    | .unsupported => (.error (.unsupported i), ⟨p, memory, bus⟩)

/-- Executes the instruction at the program counter. -/
def step (c : Computer β) : Except Fault Completion × Computer β :=
  match c.instruction? with
  | none => (.error (.undefinedByte (c.memory.read c.processor.pc)), c)
  | some i => commit i (i.effect c.processor c.memory.read) c

/-- Executes one instruction and reports its cost. -/
def execute (c : Computer β) : Except Fault UInt32 × Computer β :=
  match c.step with
  | (.ok completion, c) => (.ok completion.cycles, c)
  | (.error fault, c) => (.error fault, c)

theorem commit_cycles {i : Instruction} {effect : Effect} {c c' : Computer β} {r : Completion}
    (h : commit i effect c = (.ok r, c')) : r.cycles = i.cycles := by
  rcases c with ⟨p, memory, bus⟩
  cases effect with
  | change stores after flow =>
    simp only [commit] at h
    split at h <;> cases h
    rfl
  | input port =>
    simp only [commit] at h
    split at h <;> cases h
    rfl
  | output port value =>
    simp only [commit] at h
    split at h <;> cases h
    rfl
  | unsupported => cases h

theorem step_cycles {c c' : Computer β} {r : Completion} (h : c.step = (.ok r, c')) :
    4 ≤ r.cycles.toNat ∧ r.cycles.toNat ≤ 18 := by
  unfold step at h
  split at h
  · simp at h
  · rw [commit_cycles h]
    exact Instruction.cycles_bounds _

theorem execute_cycles {c c' : Computer β} {cycles : UInt32} (h : c.execute = (.ok cycles, c')) :
    4 ≤ cycles.toNat ∧ cycles.toNat ≤ 18 := by
  unfold execute at h
  split at h
  next hs =>
    obtain ⟨h, -⟩ := Prod.mk.inj h
    cases Except.ok.inj h
    exact step_cycles hs
  · simp at h

end Computer

end Arcade8080
