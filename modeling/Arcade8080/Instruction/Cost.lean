import Arcade8080.Instruction.Basic

/-!
# Length and cost

How many bytes an instruction takes up, operands included, and how many cycles
it is charged. A conditional call or return costs the same whether or not its
condition holds.
-/

namespace Arcade8080.Instruction

def length : Instruction → UInt16
  | .lxi _ | .shld | .lhld | .sta | .lda | .jmp | .jmpIf _ | .call | .callIf _ => 3
  | .mvi _ | .operateImmediate _ | .output | .input => 2
  | _ => 1

def cycles : Instruction → UInt32
  | .nop => 4
  | .lxi _ => 10
  | .stax _ | .ldax _ => 7
  | .inx _ | .dcx _ => 5
  | .dad _ => 10
  | .inr .m | .dcr .m => 10
  | .inr _ | .dcr _ => 5
  | .mvi .m => 10
  | .mvi _ => 7
  | .rotate _ => 4
  | .shld | .lhld => 16
  | .daa | .cma | .stc | .cmc => 4
  | .sta | .lda => 13
  | .mov .m _ | .mov _ .m => 7
  | .mov _ _ => 5
  | .hlt => 7
  | .operate _ .m => 7
  | .operate _ _ => 4
  | .operateImmediate _ => 7
  | .ret => 10
  | .retIf _ => 11
  | .jmp | .jmpIf _ => 10
  | .call | .callIf _ => 17
  | .pop _ => 10
  | .push _ => 11
  | .rst _ => 11
  | .output | .input => 10
  | .xthl => 18
  | .pchl | .sphl => 5
  | .xchg | .di | .ei => 4

/-- The cost of the slowest instruction, which is `xthl`. -/
def maxCycles : UInt32 := 18

theorem cycles_bounds (i : Instruction) : 4 ≤ i.cycles.toNat ∧ i.cycles.toNat ≤ 18 := by
  unfold cycles
  split <;> decide

theorem length_bounds (i : Instruction) : 1 ≤ i.length.toNat ∧ i.length.toNat ≤ 3 := by
  unfold length
  split <;> decide

end Arcade8080.Instruction
