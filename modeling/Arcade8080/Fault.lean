import Arcade8080.Instruction.Encoding
import Arcade8080.Instruction.Mnemonic
import Arcade8080.Text.Hex

/-!
# Faults

What can go wrong in a computer. No fault is mended inside: the instruction is
given up and the caller is told.
-/

namespace Arcade8080

inductive Fault
  /-- The byte to be executed is no instruction. -/
  | undefinedByte (byte : UInt8)
  /-- The instruction exists but is not carried out. -/
  | unsupported (instruction : Instruction)
  /-- A store below the ROM boundary. -/
  | romWrite (address : UInt16)
  /-- A port was used and nothing is attached. -/
  | noBus
  /-- The program counter left the loaded image. -/
  | pastEnd
  /-- An image longer than memory. -/
  | oversized (length : Nat)
deriving DecidableEq

def Fault.message : Fault → String
  | .undefinedByte byte => s!"unknown opcode 0x{Hex.upperByte byte}"
  | .unsupported instruction =>
    s!"unhandled operation {instruction.mnemonic} (0x{Hex.upperByte instruction.encode})"
  | .romWrite address => s!"cannot write to ROM at 0x{Hex.upperWord address}"
  | .noBus => "no I/O bus attached"
  | .pastEnd => "program counter ran past the loaded image"
  | .oversized length => s!"image of {length} bytes does not fit in 64 KiB"

end Arcade8080
