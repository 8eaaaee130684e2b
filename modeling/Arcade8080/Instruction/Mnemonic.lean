import Arcade8080.Instruction.Basic

/-!
# Mnemonics

The assembler's name of an instruction with its register operands. Immediate
operands are not shown.
-/

namespace Arcade8080

def ByteOperand.name : ByteOperand → String
  | .b => "B" | .c => "C" | .d => "D" | .e => "E" | .h => "H" | .l => "L" | .m => "M" | .a => "A"

def Pair.name : Pair → String
  | .bc => "B" | .de => "D" | .hl => "H" | .sp => "SP"

def IndexPair.name : IndexPair → String
  | .bc => "B" | .de => "D"

def StackPair.name : StackPair → String
  | .bc => "B" | .de => "D" | .hl => "H" | .psw => "PSW"

/-- What a condition adds to `J`, `C` and `R`. -/
def Condition.suffix : Condition → String
  | .notZero => "NZ" | .zero => "Z" | .notCarry => "NC" | .carry => "C"
  | .parityOdd => "PO" | .parityEven => "PE" | .positive => "P" | .negative => "M"

def ByteOperation.name : ByteOperation → String
  | .add => "ADD" | .addCarry => "ADC" | .subtract => "SUB" | .subtractBorrow => "SBB"
  | .and => "ANA" | .xor => "XRA" | .or => "ORA" | .compare => "CMP"

def ByteOperation.immediateName : ByteOperation → String
  | .add => "ADI" | .addCarry => "ACI" | .subtract => "SUI" | .subtractBorrow => "SBI"
  | .and => "ANI" | .xor => "XRI" | .or => "ORI" | .compare => "CPI"

def Rotation.name : Rotation → String
  | .left => "RLC" | .right => "RRC" | .leftThroughCarry => "RAL" | .rightThroughCarry => "RAR"

def Instruction.mnemonic : Instruction → String
  | .nop => "NOP"
  | .lxi pair => "LXI " ++ pair.name
  | .stax pair => "STAX " ++ pair.name
  | .ldax pair => "LDAX " ++ pair.name
  | .inx pair => "INX " ++ pair.name
  | .dcx pair => "DCX " ++ pair.name
  | .dad pair => "DAD " ++ pair.name
  | .inr operand => "INR " ++ operand.name
  | .dcr operand => "DCR " ++ operand.name
  | .mvi target => "MVI " ++ target.name
  | .rotate rotation => rotation.name
  | .shld => "SHLD"
  | .lhld => "LHLD"
  | .daa => "DAA"
  | .cma => "CMA"
  | .sta => "STA"
  | .lda => "LDA"
  | .stc => "STC"
  | .cmc => "CMC"
  | .mov target source => "MOV " ++ target.name ++ "," ++ source.name
  | .hlt => "HLT"
  | .operate operation operand => operation.name ++ " " ++ operand.name
  | .operateImmediate operation => operation.immediateName
  | .ret => "RET"
  | .retIf condition => "R" ++ condition.suffix
  | .jmp => "JMP"
  | .jmpIf condition => "J" ++ condition.suffix
  | .call => "CALL"
  | .callIf condition => "C" ++ condition.suffix
  | .pop pair => "POP " ++ pair.name
  | .push pair => "PUSH " ++ pair.name
  | .rst n => "RST " ++ toString n.val
  | .output => "OUT"
  | .input => "IN"
  | .xthl => "XTHL"
  | .pchl => "PCHL"
  | .xchg => "XCHG"
  | .di => "DI"
  | .ei => "EI"
  | .sphl => "SPHL"

end Arcade8080
