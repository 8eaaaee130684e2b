import Arcade8080.Execution.Effect

/-!
# What an instruction may change in the processor

The registers an instruction has for its destination, the flags it sets, where it
leaves the stack pointer, and whether it goes on elsewhere than at the instruction
after it: each is a table over all instructions. Every effect keeps to the tables,
and what they leave out stays as it was.
-/

namespace Arcade8080

inductive Register
  | a | b | c | d | e | h | l
deriving DecidableEq

def Registers.get (regs : Registers) : Register → UInt8
  | .a => regs.a
  | .b => regs.b
  | .c => regs.c
  | .d => regs.d
  | .e => regs.e
  | .h => regs.h
  | .l => regs.l

inductive Flag
  | zero | sign | parity | carry | auxCarry
deriving DecidableEq

def Flags.get (f : Flags) : Flag → Bool
  | .zero => f.zero
  | .sign => f.sign
  | .parity => f.parity
  | .carry => f.carry
  | .auxCarry => f.auxCarry

theorem Registers.ext_get {regs regs' : Registers} (h : ∀ r, regs.get r = regs'.get r) :
    regs = regs' := by
  cases regs
  cases regs'
  exact Registers.mk.injEq .. |>.mpr ⟨h .a, h .b, h .c, h .d, h .e, h .h, h .l⟩

theorem Flags.ext_get {f g : Flags} (h : ∀ flag, f.get flag = g.get flag) : f = g := by
  cases f
  cases g
  exact Flags.mk.injEq .. |>.mpr ⟨h .zero, h .sign, h .parity, h .carry, h .auxCarry⟩

/-! ## The tables -/

def ByteOperand.registers : ByteOperand → List Register
  | .b => [.b] | .c => [.c] | .d => [.d] | .e => [.e] | .h => [.h] | .l => [.l]
  | .m => []
  | .a => [.a]

def Pair.registers : Pair → List Register
  | .bc => [.b, .c] | .de => [.d, .e] | .hl => [.h, .l] | .sp => []

def StackPair.registers : StackPair → List Register
  | .bc => [.b, .c] | .de => [.d, .e] | .hl => [.h, .l] | .psw => [.a]

/-- A comparison leaves the accumulator as it is. -/
def ByteOperation.registers : ByteOperation → List Register
  | .compare => []
  | _ => [.a]

namespace Instruction

/-- The general registers that an instruction may change. -/
def destinations : Instruction → List Register
  | .lxi pair | .inx pair | .dcx pair => pair.registers
  | .mvi target | .mov target _ | .inr target | .dcr target => target.registers
  | .operate operation _ | .operateImmediate operation => operation.registers
  | .ldax _ | .lda | .input | .daa | .rotate _ | .cma => [.a]
  | .dad _ | .lhld | .xthl => [.h, .l]
  | .xchg => [.d, .e, .h, .l]
  | .pop pair => pair.registers
  | _ => []

/-- The flags that an instruction may change. Counting leaves the carry alone. -/
def flagsWritten : Instruction → List Flag
  | .operate _ _ | .operateImmediate _ | .daa | .pop .psw =>
    [.zero, .sign, .parity, .carry, .auxCarry]
  | .inr _ | .dcr _ => [.zero, .sign, .parity, .auxCarry]
  | .dad _ | .rotate _ | .stc | .cmc => [.carry]
  | _ => []

/-- The stack pointer after an instruction. -/
def stackPointer (i : Instruction) (p : Processor) (view : View) : UInt16 :=
  match i with
  | .lxi .sp => p.immediateWord view
  | .inx .sp => p.sp + 1
  | .dcx .sp => p.sp - 1
  | .sphl => p.regs.hl
  | .push _ | .call | .rst _ => p.sp - 2
  | .callIf condition => if condition.holds p.flags then p.sp - 2 else p.sp
  | .pop _ | .ret => p.sp + 2
  | .retIf condition => if condition.holds p.flags then p.sp + 2 else p.sp
  | _ => p.sp

/-- Whether an instruction settles itself where execution goes on. Under a condition it
does so if the condition holds. -/
def transfers (i : Instruction) (f : Flags) : Bool :=
  match i with
  | .jmp | .call | .ret | .rst _ | .pchl => true
  | .jmpIf condition | .callIf condition | .retIf condition => condition.holds f
  | _ => false

/-- From `p` to `after` no more has changed than the tables say. The program counter is
not looked at. -/
structure Frame (i : Instruction) (p : Processor) (view : View) (after : Processor) : Prop where
  registers : ∀ r, r ∉ i.destinations → after.regs.get r = p.regs.get r
  flags : ∀ f, f ∉ i.flagsWritten → after.flags.get f = p.flags.get f
  sp : after.sp = i.stackPointer p view
  latch : i ≠ .ei → i ≠ .di → after.interruptEnable = p.interruptEnable

end Instruction

/-! ## Writing to registers and flags -/

section Writes

variable {r : Register} {flag : Flag}

theorem Registers.get_withA (regs : Registers) (value : UInt8) (h : r ∉ [Register.a]) :
    ({ regs with a := value } : Registers).get r = regs.get r := by
  cases r with
  | a => exact absurd List.mem_cons_self h
  | _ => rfl

theorem Registers.get_setHL (regs : Registers) (value : UInt16)
    (h : r ∉ [Register.h, Register.l]) : (regs.setHL value).get r = regs.get r := by
  cases r with
  | h => exact absurd (by decide) h
  | l => exact absurd (by decide) h
  | _ => rfl

theorem Registers.get_setBC (regs : Registers) (value : UInt16)
    (h : r ∉ [Register.b, Register.c]) : (regs.setBC value).get r = regs.get r := by
  cases r with
  | b => exact absurd (by decide) h
  | c => exact absurd (by decide) h
  | _ => rfl

theorem Registers.get_setDE (regs : Registers) (value : UInt16)
    (h : r ∉ [Register.d, Register.e]) : (regs.setDE value).get r = regs.get r := by
  cases r with
  | d => exact absurd (by decide) h
  | e => exact absurd (by decide) h
  | _ => rfl

theorem Flags.get_withCarry (f : Flags) (carry : Bool) (h : flag ∉ [Flag.carry]) :
    ({ f with carry := carry } : Flags).get flag = f.get flag := by
  cases flag with
  | carry => exact absurd List.mem_cons_self h
  | _ => rfl

/-- Flags that may all have changed need not be looked at. -/
theorem Flag.mem_all (flag : Flag) :
    flag ∈ [Flag.zero, Flag.sign, Flag.parity, Flag.carry, Flag.auxCarry] := by
  cases flag <;> decide

/-- Flags that agree in the carry agree in all that counting leaves alone. -/
theorem Flags.get_of_carry {f g : Flags} (hc : g.carry = f.carry)
    (h : flag ∉ [Flag.zero, Flag.sign, Flag.parity, Flag.auxCarry]) : g.get flag = f.get flag := by
  cases flag with
  | carry => exact hc
  | zero => exact absurd (by decide) h
  | sign => exact absurd (by decide) h
  | parity => exact absurd (by decide) h
  | auxCarry => exact absurd (by decide) h

theorem ByteOperation.get_apply (operation : ByteOperation) (p : Processor) (value : UInt8)
    (h : r ∉ operation.registers) :
    ({ p.regs with a := (operation.apply p.flags p.regs.a value).1 } : Registers).get r =
      p.regs.get r := by
  cases operation with
  | compare => rfl
  | _ => exact p.regs.get_withA _ h

/-- Assigning to an operand changes its register, and the processor in nothing else. -/
theorem ByteOperand.assign_frame {operand : ByteOperand} {value : UInt8} {p after : Processor}
    {stores : List Store} {flow : Flow} (h : operand.assign value p = .change stores after flow) :
    (∀ r, r ∉ operand.registers → after.regs.get r = p.regs.get r) ∧ after.flags = p.flags ∧
      after.sp = p.sp ∧ after.interruptEnable = p.interruptEnable ∧ flow = .next := by
  cases operand <;> cases h <;> refine ⟨?_, rfl, rfl, rfl, rfl⟩ <;> intro r hr <;> cases r <;>
    first | rfl | exact absurd List.mem_cons_self hr

theorem Pair.get_write (pair : Pair) (p : Processor) (value : UInt16) (h : r ∉ pair.registers) :
    (pair.write p value).regs.get r = p.regs.get r := by
  cases pair with
  | bc => exact p.regs.get_setBC value h
  | de => exact p.regs.get_setDE value h
  | hl => exact p.regs.get_setHL value h
  | sp => rfl

theorem Pair.flags_write (pair : Pair) (p : Processor) (value : UInt16) :
    (pair.write p value).flags = p.flags := by
  cases pair <;> rfl

theorem Pair.latch_write (pair : Pair) (p : Processor) (value : UInt16) :
    (pair.write p value).interruptEnable = p.interruptEnable := by
  cases pair <;> rfl

theorem StackPair.get_write (pair : StackPair) (p : Processor) (value : UInt16)
    (h : r ∉ pair.registers) : (pair.write p value).regs.get r = p.regs.get r := by
  cases pair with
  | bc => exact p.regs.get_setBC value h
  | de => exact p.regs.get_setDE value h
  | hl => exact p.regs.get_setHL value h
  | psw => exact p.regs.get_withA _ h

end Writes

/-! ## Every effect keeps to the tables -/

namespace Instruction

theorem effect_frame {i : Instruction} {p after : Processor} {view : View} {stores : List Store}
    {flow : Flow} (h : i.effect p view = .change stores after flow) : i.Frame p view after := by
  cases i with
  | lxi pair | inx pair | dcx pair =>
    cases h
    exact ⟨fun r hr => pair.get_write p _ hr, fun f _ => by rw [pair.flags_write],
      by cases pair <;> rfl, fun _ _ => pair.latch_write p _⟩
  | mvi target | mov target source =>
    obtain ⟨hr, hf, hs, hl, -⟩ := ByteOperand.assign_frame h
    exact ⟨hr, fun f _ => by rw [hf], hs, fun _ _ => hl⟩
  | inr operand | dcr operand =>
    obtain ⟨hr, hf, hs, hl, -⟩ := ByteOperand.assign_frame h
    exact ⟨hr, fun f hw => by rw [hf]; exact Flags.get_of_carry rfl hw, hs, fun _ _ => hl⟩
  | operate operation operand | operateImmediate operation =>
    cases h
    exact ⟨fun r hr => operation.get_apply p _ hr, fun f hw => absurd f.mem_all hw, rfl,
      fun _ _ => rfl⟩
  | ldax pair | lda | cma =>
    cases h
    exact ⟨fun r hr => p.regs.get_withA _ hr, fun _ _ => rfl, rfl, fun _ _ => rfl⟩
  | daa =>
    cases h
    exact ⟨fun r hr => p.regs.get_withA _ hr, fun f hw => absurd f.mem_all hw, rfl,
      fun _ _ => rfl⟩
  | rotate rotation =>
    cases h
    exact ⟨fun r hr => p.regs.get_withA _ hr, fun f hw => p.flags.get_withCarry _ hw, rfl,
      fun _ _ => rfl⟩
  | dad pair =>
    cases h
    exact ⟨fun r hr => p.regs.get_setHL _ hr, fun f hw => p.flags.get_withCarry _ hw, rfl,
      fun _ _ => rfl⟩
  | stc | cmc =>
    cases h
    exact ⟨fun _ _ => rfl, fun f hw => p.flags.get_withCarry _ hw, rfl, fun _ _ => rfl⟩
  | lhld | xthl =>
    cases h
    exact ⟨fun r hr => p.regs.get_setHL _ hr, fun _ _ => rfl, rfl, fun _ _ => rfl⟩
  | xchg =>
    cases h
    refine ⟨fun r hr => ?_, fun _ _ => rfl, rfl, fun _ _ => rfl⟩
    have hde : r ∉ [Register.d, .e] := fun hm => hr (List.mem_append_left [Register.h, .l] hm)
    have hhl : r ∉ [Register.h, .l] := fun hm => hr (List.mem_append_right [Register.d, .e] hm)
    rw [Registers.get_setHL _ _ hhl, Registers.get_setDE _ _ hde]
  | pop pair =>
    cases h
    refine ⟨fun r hr => pair.get_write _ _ hr, fun f hw => ?_, by cases pair <;> rfl,
      fun _ _ => by cases pair <;> rfl⟩
    cases pair with
    | psw => exact absurd f.mem_all hw
    | _ => rfl
  | jmpIf condition =>
    simp only [effect] at h
    split at h <;> cases h <;> exact ⟨fun _ _ => rfl, fun _ _ => rfl, rfl, fun _ _ => rfl⟩
  | callIf condition | retIf condition =>
    simp only [effect] at h
    split at h
    next hc =>
      cases h
      exact ⟨fun _ _ => rfl, fun _ _ => rfl, (if_pos hc).symm, fun _ _ => rfl⟩
    next hc =>
      cases h
      exact ⟨fun _ _ => rfl, fun _ _ => rfl, (if_neg hc).symm, fun _ _ => rfl⟩
  | ei =>
    cases h
    exact ⟨fun _ _ => rfl, fun _ _ => rfl, rfl, fun hn _ => absurd rfl hn⟩
  | di =>
    cases h
    exact ⟨fun _ _ => rfl, fun _ _ => rfl, rfl, fun _ hn => absurd rfl hn⟩
  | _ => cases h <;> exact ⟨fun _ _ => rfl, fun _ _ => rfl, rfl, fun _ _ => rfl⟩

/-- Execution goes on at the next instruction unless the instruction settles it. -/
theorem effect_flow {i : Instruction} {p after : Processor} {view : View} {stores : List Store}
    {flow : Flow} (h : i.effect p view = .change stores after flow) :
    flow = .next ↔ i.transfers p.flags = false := by
  cases i with
  | mvi target | mov target source | inr operand | dcr operand =>
    simp [transfers, (ByteOperand.assign_frame h).2.2.2.2]
  | jmpIf condition | callIf condition | retIf condition =>
    simp only [effect] at h
    split at h
    next hc =>
      cases h
      simp [transfers, hc]
    next hc =>
      cases h
      simp [transfers, hc]
  | _ => cases h <;> simp [transfers]

end Instruction

end Arcade8080
