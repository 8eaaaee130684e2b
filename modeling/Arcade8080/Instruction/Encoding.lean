import Arcade8080.Instruction.Basic
import Arcade8080.Word

/-!
# Instruction bytes

An instruction byte falls into a quadrant, its top two bits, and two fields of
three bits. Operands, conditions and operations are numbered by such a field;
pairs by its upper two bits, the lowest one choosing between two instructions.

Twelve bytes are undefined, and `decode?` answers `none` for them.
-/

namespace Arcade8080

/-- The operand with this number in the encoding. -/
def ByteOperand.ofField : Fin 8 → ByteOperand
  | 0 => .b | 1 => .c | 2 => .d | 3 => .e | 4 => .h | 5 => .l | 6 => .m | 7 => .a

def ByteOperand.field : ByteOperand → UInt8
  | .b => 0 | .c => 1 | .d => 2 | .e => 3 | .h => 4 | .l => 5 | .m => 6 | .a => 7

def Pair.field : Pair → UInt8
  | .bc => 0 | .de => 1 | .hl => 2 | .sp => 3

def IndexPair.field : IndexPair → UInt8
  | .bc => 0 | .de => 1

def StackPair.field : StackPair → UInt8
  | .bc => 0 | .de => 1 | .hl => 2 | .psw => 3

def Condition.ofField : Fin 8 → Condition
  | 0 => .notZero | 1 => .zero | 2 => .notCarry | 3 => .carry
  | 4 => .parityOdd | 5 => .parityEven | 6 => .positive | 7 => .negative

def Condition.field : Condition → UInt8
  | .notZero => 0 | .zero => 1 | .notCarry => 2 | .carry => 3
  | .parityOdd => 4 | .parityEven => 5 | .positive => 6 | .negative => 7

def ByteOperation.ofField : Fin 8 → ByteOperation
  | 0 => .add | 1 => .addCarry | 2 => .subtract | 3 => .subtractBorrow
  | 4 => .and | 5 => .xor | 6 => .or | 7 => .compare

def ByteOperation.field : ByteOperation → UInt8
  | .add => 0 | .addCarry => 1 | .subtract => 2 | .subtractBorrow => 3
  | .and => 4 | .xor => 5 | .or => 6 | .compare => 7

namespace Instruction

/-- The first quadrant: words, single-byte arithmetic and direct addressing. -/
def ofFirstQuadrant (row : Fin 8) : Fin 8 → Option Instruction
  | 0 => if row = 0 then some .nop else none
  | 1 => match row with
    | 0 => some (.lxi .bc) | 2 => some (.lxi .de) | 4 => some (.lxi .hl) | 6 => some (.lxi .sp)
    | 1 => some (.dad .bc) | 3 => some (.dad .de) | 5 => some (.dad .hl) | 7 => some (.dad .sp)
  | 2 => match row with
    | 0 => some (.stax .bc) | 2 => some (.stax .de) | 4 => some .shld | 6 => some .sta
    | 1 => some (.ldax .bc) | 3 => some (.ldax .de) | 5 => some .lhld | 7 => some .lda
  | 3 => match row with
    | 0 => some (.inx .bc) | 2 => some (.inx .de) | 4 => some (.inx .hl) | 6 => some (.inx .sp)
    | 1 => some (.dcx .bc) | 3 => some (.dcx .de) | 5 => some (.dcx .hl) | 7 => some (.dcx .sp)
  | 4 => some (.inr (.ofField row))
  | 5 => some (.dcr (.ofField row))
  | 6 => some (.mvi (.ofField row))
  | 7 => match row with
    | 0 => some (.rotate .left) | 1 => some (.rotate .right)
    | 2 => some (.rotate .leftThroughCarry) | 3 => some (.rotate .rightThroughCarry)
    | 4 => some .daa | 5 => some .cma | 6 => some .stc | 7 => some .cmc

/-- The last quadrant: transfers of control, the stack, ports and immediates. -/
def ofLastQuadrant (row : Fin 8) : Fin 8 → Option Instruction
  | 0 => some (.retIf (.ofField row))
  | 1 => match row with
    | 0 => some (.pop .bc) | 2 => some (.pop .de) | 4 => some (.pop .hl) | 6 => some (.pop .psw)
    | 1 => some .ret | 3 => none | 5 => some .pchl | 7 => some .sphl
  | 2 => some (.jmpIf (.ofField row))
  | 3 => match row with
    | 0 => some .jmp | 1 => none | 2 => some .output | 3 => some .input
    | 4 => some .xthl | 5 => some .xchg | 6 => some .di | 7 => some .ei
  | 4 => some (.callIf (.ofField row))
  | 5 => match row with
    | 0 => some (.push .bc) | 2 => some (.push .de) | 4 => some (.push .hl) | 6 => some (.push .psw)
    | 1 => some .call | 3 => none | 5 => none | 7 => none
  | 6 => some (.operateImmediate (.ofField row))
  | 7 => some (.rst row)

/-- The instruction that a byte stands for, if it stands for one. -/
def decode? (byte : UInt8) : Option Instruction :=
  let row := threeBits (byte.toNat / 8)
  let column := threeBits byte.toNat
  match byte.toNat / 64 with
  | 0 => ofFirstQuadrant row column
  | 1 => if byte = 0x76 then some .hlt else some (.mov (.ofField row) (.ofField column))
  | 2 => some (.operate (.ofField row) (.ofField column))
  | _ => ofLastQuadrant row column

def encode : Instruction → UInt8
  | .nop => 0x00
  | .lxi pair => 0x01 + 16 * pair.field
  | .stax pair => 0x02 + 16 * pair.field
  | .inx pair => 0x03 + 16 * pair.field
  | .dad pair => 0x09 + 16 * pair.field
  | .ldax pair => 0x0a + 16 * pair.field
  | .dcx pair => 0x0b + 16 * pair.field
  | .inr operand => 0x04 + 8 * operand.field
  | .dcr operand => 0x05 + 8 * operand.field
  | .mvi target => 0x06 + 8 * target.field
  | .rotate .left => 0x07
  | .rotate .right => 0x0f
  | .rotate .leftThroughCarry => 0x17
  | .rotate .rightThroughCarry => 0x1f
  | .shld => 0x22
  | .daa => 0x27
  | .lhld => 0x2a
  | .cma => 0x2f
  | .sta => 0x32
  | .stc => 0x37
  | .lda => 0x3a
  | .cmc => 0x3f
  | .mov target source => 0x40 + 8 * target.field + source.field
  | .hlt => 0x76
  | .operate operation operand => 0x80 + 8 * operation.field + operand.field
  | .operateImmediate operation => 0xc6 + 8 * operation.field
  | .retIf condition => 0xc0 + 8 * condition.field
  | .pop pair => 0xc1 + 16 * pair.field
  | .jmpIf condition => 0xc2 + 8 * condition.field
  | .jmp => 0xc3
  | .callIf condition => 0xc4 + 8 * condition.field
  | .push pair => 0xc5 + 16 * pair.field
  | .rst n => 0xc7 + 8 * UInt8.ofNat n
  | .ret => 0xc9
  | .call => 0xcd
  | .output => 0xd3
  | .input => 0xdb
  | .xthl => 0xe3
  | .pchl => 0xe9
  | .xchg => 0xeb
  | .di => 0xf3
  | .sphl => 0xf9
  | .ei => 0xfb

/-- Encoding undoes decoding. -/
theorem encode_of_decode? {byte : UInt8} {i : Instruction} (h : decode? byte = some i) :
    i.encode = byte := by
  have hb : ∀ byte i, decode? byte = some i → i.encode = byte := forall_byte (by decide +kernel)
  exact hb byte i h

end Instruction

end Arcade8080
