import Arcade8080.Processor.Flags
import Arcade8080.Processor.Registers
import Arcade8080.Text.Hex

/-!
# Processor

All that the processor carries from one instruction to the next. Memory and the
devices on its bus are not part of it.
-/

namespace Arcade8080

structure Processor where
  regs : Registers := {}
  sp : UInt16 := 0
  pc : UInt16 := 0
  flags : Flags := {}
  /-- The latch that `EI` sets and `DI` clears. -/
  interruptEnable : Bool := false
deriving DecidableEq

namespace Processor

/-- The processor after a reset: every field is zero. -/
def zero : Processor := {}

/-- The state in one line, words with four digits and bytes with two. -/
def text (p : Processor) : String :=
  s!"pc={Hex.word p.pc} sp={Hex.word p.sp} a={Hex.byte p.regs.a} bc={Hex.word p.regs.bc} " ++
  s!"de={Hex.word p.regs.de} hl={Hex.word p.regs.hl} f={Hex.byte p.flags.pack} " ++
  s!"inte={p.interruptEnable.toNat}"

end Processor

end Arcade8080
