/-!
# Instructions

The instructions of the 8080 by the names its manual gives them. Operand bytes
that follow an instruction in memory are not part of it: `mvi .b` stands for
`MVI B` with any immediate byte.

The type also has `mov .m .m`, which the machine does not: its place in the
encoding belongs to `hlt`.
-/

namespace Arcade8080

/-- A byte register, or the memory byte that H and L point at. -/
inductive ByteOperand
  | b | c | d | e | h | l | m | a
deriving DecidableEq

/-- A word operand. -/
inductive Pair
  | bc | de | hl | sp
deriving DecidableEq

/-- A pair that can hold an address for the accumulator. -/
inductive IndexPair
  | bc | de
deriving DecidableEq

/-- What can be pushed and popped; `psw` is the accumulator and the flags. -/
inductive StackPair
  | bc | de | hl | psw
deriving DecidableEq

inductive Condition
  | notZero | zero | notCarry | carry | parityOdd | parityEven | positive | negative
deriving DecidableEq

/-- The eight operations between the accumulator and a byte. -/
inductive ByteOperation
  | add | addCarry | subtract | subtractBorrow | and | xor | or | compare
deriving DecidableEq

/-- The four rotations of the accumulator. -/
inductive Rotation
  | left | right | leftThroughCarry | rightThroughCarry
deriving DecidableEq

inductive Instruction
  | nop
  | lxi (pair : Pair)
  | stax (pair : IndexPair)
  | ldax (pair : IndexPair)
  | inx (pair : Pair)
  | dcx (pair : Pair)
  | dad (pair : Pair)
  | inr (operand : ByteOperand)
  | dcr (operand : ByteOperand)
  | mvi (target : ByteOperand)
  | rotate (rotation : Rotation)
  | shld
  | lhld
  | daa
  | cma
  | sta
  | lda
  | stc
  | cmc
  | mov (target source : ByteOperand)
  | hlt
  | operate (operation : ByteOperation) (operand : ByteOperand)
  | operateImmediate (operation : ByteOperation)
  | ret
  | retIf (condition : Condition)
  | jmp
  | jmpIf (condition : Condition)
  | call
  | callIf (condition : Condition)
  | pop (pair : StackPair)
  | push (pair : StackPair)
  | rst (n : Fin 8)
  | output
  | input
  | xthl
  | pchl
  | xchg
  | di
  | ei
  | sphl
deriving DecidableEq

end Arcade8080
