import Arcade8080.Arithmetic.Byte
import Arcade8080.Arithmetic.Decimal
import Arcade8080.Memory
import Arcade8080.Processor.Basic

/-!
# The effect of an instruction

An instruction reads the processor and memory first and settles then what it is
going to do: a list of stores, the processor as it will be, and where execution
goes on. Nothing is written here. Whoever applies an effect makes the stores in
order, and changes the processor only if all of them were accepted. Instructions
that use a port leave the exchange to the bus.

The program counter in `after` is the old one. It is replaced when the effect is
applied.
-/

namespace Arcade8080

/-- Where execution goes on. -/
inductive Flow
  | next
  | jump (target : UInt16)
deriving DecidableEq

inductive Effect
  | change (stores : List Store) (after : Processor) (flow : Flow)
  | input (port : UInt8)
  | output (port value : UInt8)
  | unsupported
deriving DecidableEq

/-- A change of the processor alone. -/
def Effect.update (after : Processor) : Effect := .change [] after .next

namespace Processor

/-- A word pushed on the stack: the upper byte is stored first, the lower one under it. -/
def push (p : Processor) (value : UInt16) : List Store × Processor :=
  ([⟨p.sp - 1, highByte value⟩, ⟨p.sp - 2, lowByte value⟩], { p with sp := p.sp - 2 })

/-- The word on top of the stack, and the processor without it. -/
def pop (p : Processor) (view : View) : UInt16 × Processor :=
  (view.word p.sp, { p with sp := p.sp + 2 })

def immediate (p : Processor) (view : View) : UInt8 := view (p.pc + 1)

def immediateWord (p : Processor) (view : View) : UInt16 := view.word (p.pc + 1)

def withA (p : Processor) (value : UInt8) : Processor := { p with regs.a := value }

end Processor

def ByteOperand.read (operand : ByteOperand) (p : Processor) (view : View) : UInt8 :=
  match operand with
  | .b => p.regs.b
  | .c => p.regs.c
  | .d => p.regs.d
  | .e => p.regs.e
  | .h => p.regs.h
  | .l => p.regs.l
  | .m => view p.regs.hl
  | .a => p.regs.a

/-- Puts a value into a register of `p`, or has it stored at the address in H and L. -/
def ByteOperand.assign (operand : ByteOperand) (value : UInt8) (p : Processor) : Effect :=
  match operand with
  | .b => .update { p with regs.b := value }
  | .c => .update { p with regs.c := value }
  | .d => .update { p with regs.d := value }
  | .e => .update { p with regs.e := value }
  | .h => .update { p with regs.h := value }
  | .l => .update { p with regs.l := value }
  | .m => .change [⟨p.regs.hl, value⟩] p .next
  | .a => .update { p with regs.a := value }

def Pair.read (pair : Pair) (p : Processor) : UInt16 :=
  match pair with
  | .bc => p.regs.bc
  | .de => p.regs.de
  | .hl => p.regs.hl
  | .sp => p.sp

def Pair.write (pair : Pair) (p : Processor) (value : UInt16) : Processor :=
  match pair with
  | .bc => { p with regs := p.regs.setBC value }
  | .de => { p with regs := p.regs.setDE value }
  | .hl => { p with regs := p.regs.setHL value }
  | .sp => { p with sp := value }

def IndexPair.read (pair : IndexPair) (p : Processor) : UInt16 :=
  match pair with
  | .bc => p.regs.bc
  | .de => p.regs.de

def StackPair.read (pair : StackPair) (p : Processor) : UInt16 :=
  match pair with
  | .bc => p.regs.bc
  | .de => p.regs.de
  | .hl => p.regs.hl
  | .psw => wordOf p.regs.a p.flags.pack

def StackPair.write (pair : StackPair) (p : Processor) (value : UInt16) : Processor :=
  match pair with
  | .bc => { p with regs := p.regs.setBC value }
  | .de => { p with regs := p.regs.setDE value }
  | .hl => { p with regs := p.regs.setHL value }
  | .psw => { p with regs.a := highByte value, flags := Flags.unpack (lowByte value) }

namespace Effect

/-- Pushes `back` and goes on at `target`. -/
def call (p : Processor) (back target : UInt16) : Effect :=
  let (stores, after) := p.push back
  .change stores after (.jump target)

/-- Pops an address and goes on there. -/
def ret (p : Processor) (view : View) : Effect :=
  let (target, after) := p.pop view
  .change [] after (.jump target)

/-- Goes on at the address that follows the instruction byte. -/
def jump (p : Processor) (view : View) : Effect :=
  .change [] p (.jump (p.immediateWord view))

/-- Calls the address that follows the instruction byte. -/
def callImmediate (p : Processor) (view : View) : Effect :=
  call p (p.pc + 3) (p.immediateWord view)

/-- An operation of the accumulator with `value`. -/
def operate (operation : ByteOperation) (p : Processor) (value : UInt8) : Effect :=
  let (a, flags) := operation.apply p.flags p.regs.a value
  .update { p with regs.a := a, flags := flags }

end Effect

def Instruction.effect (i : Instruction) (p : Processor) (view : View) : Effect :=
  match i with
  | .nop => .update p
  -- moving data
  | .lxi pair => .update (pair.write p (p.immediateWord view))
  | .stax pair => .change [⟨pair.read p, p.regs.a⟩] p .next
  | .ldax pair => .update (p.withA (view (pair.read p)))
  | .mvi target => target.assign (p.immediate view) p
  | .mov target source => target.assign (source.read p view) p
  | .sta => .change [⟨p.immediateWord view, p.regs.a⟩] p .next
  | .lda => .update (p.withA (view (p.immediateWord view)))
  | .shld =>
    let address := p.immediateWord view
    .change [⟨address, p.regs.l⟩, ⟨address + 1, p.regs.h⟩] p .next
  | .lhld => .update { p with regs := p.regs.setHL (view.word (p.immediateWord view)) }
  | .xchg => .update { p with regs := (p.regs.setDE p.regs.hl).setHL p.regs.de }
  -- counting
  | .inx pair => .update (pair.write p (pair.read p + 1))
  | .dcx pair => .update (pair.write p (pair.read p - 1))
  | .inr operand =>
    let (value, flags) := Arithmetic.increment p.flags (operand.read p view)
    operand.assign value { p with flags := flags }
  | .dcr operand =>
    let (value, flags) := Arithmetic.decrement p.flags (operand.read p view)
    operand.assign value { p with flags := flags }
  -- arithmetic
  | .operate operation operand => .operate operation p (operand.read p view)
  | .operateImmediate operation => .operate operation p (p.immediate view)
  | .dad pair =>
    let sum := p.regs.hl.toNat + (pair.read p).toNat
    .update { p with
      regs := p.regs.setHL (UInt16.ofNat sum), flags := { p.flags with carry := 65536 ≤ sum } }
  | .daa =>
    let (a, flags) := Arithmetic.decimalAdjust p.flags p.regs.a
    .update { p with regs.a := a, flags := flags }
  | .rotate rotation =>
    let (a, carry) := rotation.apply p.flags.carry p.regs.a
    .update { p with regs.a := a, flags := { p.flags with carry := carry } }
  | .cma => .update (p.withA (~~~p.regs.a))
  | .stc => .update { p with flags := { p.flags with carry := true } }
  | .cmc => .update { p with flags := { p.flags with carry := !p.flags.carry } }
  -- transfer of control
  | .jmp => .jump p view
  | .jmpIf condition => if condition.holds p.flags then .jump p view else .update p
  | .call => .callImmediate p view
  | .callIf condition => if condition.holds p.flags then .callImmediate p view else .update p
  | .ret => .ret p view
  | .retIf condition => if condition.holds p.flags then .ret p view else .update p
  | .rst n => .call p (p.pc + 1) (UInt16.ofNat (8 * n.val))
  | .pchl => .change [] p (.jump p.regs.hl)
  -- the stack
  | .push pair =>
    let (stores, after) := p.push (pair.read p)
    .change stores after .next
  | .pop pair =>
    let (value, after) := p.pop view
    .update (pair.write after value)
  | .xthl =>
    .change [⟨p.sp, p.regs.l⟩, ⟨p.sp + 1, p.regs.h⟩]
      { p with regs := p.regs.setHL (view.word p.sp) } .next
  | .sphl => .update { p with sp := p.regs.hl }
  -- ports and the processor itself
  | .input => .input (p.immediate view)
  | .output => .output (p.immediate view) p.regs.a
  | .ei => .update { p with interruptEnable := true }
  | .di => .update { p with interruptEnable := false }
  | .hlt => .unsupported

end Arcade8080
