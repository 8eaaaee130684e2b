import Arcade8080.Proofs.Arithmetic.Equations
import Arcade8080.Proofs.Computer.WideArithmetic

/-!
# Arithmetic instructions

Executing an instruction that calculates takes the operand from where the instruction says, as
it is before the instruction, and leaves a result and flags that solve the equations of the
operation. Nothing of this depends on whether operand and result share a place, or on whether
the bytes of the instruction have been stored by the program itself.
-/

namespace Arcade8080

/-! ## Words -/

theorem Pair.read_write (pair : Pair) (p : Processor) (value pc : UInt16) :
    pair.read { pair.write p value with pc := pc } = value := by
  cases pair with
  | bc => exact wordOf_bytes value
  | de => exact wordOf_bytes value
  | hl => exact wordOf_bytes value
  | sp => rfl

/-- `DAD` adds to the word in H and L. -/
theorem dad_balance (pair : Pair) (p : Processor) :
    let sum := p.regs.hl.toNat + (pair.read p).toNat
    (p.regs.setHL (UInt16.ofNat sum)).hl.toNat + 65536 * (decide (65536 ≤ sum)).toNat = sum := by
  intro sum
  have hl := p.regs.hl.toNat_lt
  have hr := (pair.read p).toNat_lt
  rw [Registers.hl_setHL, UInt16.toNat_ofNat']
  exact Arithmetic.carry_balance (by omega)

variable {β : Type} [Bus β]

namespace Computer

/-! ## Carrying out -/

/-- The operand can be assigned to: it is a register, or a byte of memory outside the ROM. -/
def Assignable (operand : ByteOperand) (c : Computer β) : Prop :=
  operand = .m → ¬ c.processor.regs.hl < c.memory.romBoundary

variable {c : Computer β} {i : Instruction}

theorem completes_update {after : Processor} (hi : c.instruction? = some i)
    (he : i.effect c.processor c.memory.read = .update after) :
    c.Completes i ⟨{ after with pc := c.processor.pc + i.length }, c.memory, c.bus⟩ :=
  ⟨execute_update hi he, rfl⟩

/-- An instruction that assigns to an operand leaves the value there, and no other change to
the flags than it says. -/
theorem completes_assign {operand : ByteOperand} {value : UInt8} {f : Flags}
    (hi : c.instruction? = some i)
    (he : i.effect c.processor c.memory.read =
      operand.assign value { c.processor with flags := f })
    (ha : c.Assignable operand) :
    ∃ d, c.Completes i d ∧ operand.read d.processor d.memory.read = value ∧
      d.processor.flags = f := by
  cases operand with
  | m =>
    refine ⟨_, ⟨execute_change hi he ?_, rfl⟩, ?_, rfl⟩
    · intro s hs
      rw [List.mem_singleton.mp hs]
      exact ha rfl
    · show (c.memory.put _).read _ = value
      rw [Memory.read_put]
      exact if_pos rfl
  | _ => exact ⟨_, completes_update hi he, rfl, rfl⟩

/-- Assigning to a byte of the ROM is refused. -/
theorem refused_assign {operand : ByteOperand} {value : UInt8} {f : Flags}
    (hi : c.instruction? = some i)
    (he : i.effect c.processor c.memory.read =
      operand.assign value { c.processor with flags := f })
    (ha : ¬ c.Assignable operand) :
    c.execute = (.error (.romWrite c.processor.regs.hl), c) := by
  obtain ⟨rfl, hrom⟩ := Classical.not_imp.mp ha
  have hs := step_of_instruction? hi
  rw [he, ByteOperand.assign,
    commit_change_refused (Memory.storeAll_cons_refused [] (Classical.not_not.mp hrom))] at hs
  exact execute_of_step_error hs

/-- **Arithmetic instructions solve their equations.** Each of them is carried out; only `INR`
and `DCR` of a byte in the ROM are refused, and change nothing. Operands and the carry are
those before the instruction, wherever they come from. -/
theorem arithmetic_equations (c : Computer β) :
    let p := c.processor
    let view := c.memory.read
    (∀ operation operand, c.instruction? = some (.operate operation operand) →
      ∃ d, c.Completes (.operate operation operand) d ∧
        operation.Equations p.regs.a (operand.read p view) c.carry
          d.processor.regs.a d.processor.flags) ∧
    (∀ operation, c.instruction? = some (.operateImmediate operation) →
      ∃ d, c.Completes (.operateImmediate operation) d ∧
        operation.Equations p.regs.a (p.immediate view) c.carry
          d.processor.regs.a d.processor.flags) ∧
    (∀ operand, c.instruction? = some (.inr operand) →
      (c.Assignable operand → ∃ d, c.Completes (.inr operand) d ∧
        IsCount 1 ((operand.read p view).toNat % 16 = 15) (operand.read p view) c.carry
          (operand.read d.processor d.memory.read) d.processor.flags) ∧
      (¬ c.Assignable operand → c.execute = (.error (.romWrite p.regs.hl), c))) ∧
    (∀ operand, c.instruction? = some (.dcr operand) →
      (c.Assignable operand → ∃ d, c.Completes (.dcr operand) d ∧
        IsCount 255 ((operand.read p view).toNat % 16 ≠ 0) (operand.read p view) c.carry
          (operand.read d.processor d.memory.read) d.processor.flags) ∧
      (¬ c.Assignable operand → c.execute = (.error (.romWrite p.regs.hl), c))) ∧
    (∀ pair, c.instruction? = some (.dad pair) →
      ∃ d, c.Completes (.dad pair) d ∧
        d.processor.regs.hl.toNat + 65536 * d.carry.toNat =
          p.regs.hl.toNat + (pair.read p).toNat) ∧
    (∀ pair, c.instruction? = some (.inx pair) →
      ∃ d, c.Completes (.inx pair) d ∧
        (pair.read d.processor).toNat = ((pair.read p).toNat + 1) % 65536) ∧
    ∀ pair, c.instruction? = some (.dcx pair) →
      ∃ d, c.Completes (.dcx pair) d ∧
        (pair.read d.processor).toNat = ((pair.read p).toNat + 65535) % 65536 := by
  intro p view
  refine ⟨?_, ?_, ?_, ?_, ?_, ?_, ?_⟩
  · intro operation operand hi
    exact ⟨_, completes_update hi rfl, operation.equations_apply _ _ _⟩
  · intro operation hi
    exact ⟨_, completes_update hi rfl, operation.equations_apply _ _ _⟩
  · intro operand hi
    refine ⟨fun ha => ?_, refused_assign hi rfl⟩
    obtain ⟨d, hd, hread, hflags⟩ := completes_assign hi rfl ha
    refine ⟨d, hd, ?_⟩
    rw [hread, hflags]
    exact Arithmetic.isCount_increment p.flags _
  · intro operand hi
    refine ⟨fun ha => ?_, refused_assign hi rfl⟩
    obtain ⟨d, hd, hread, hflags⟩ := completes_assign hi rfl ha
    refine ⟨d, hd, ?_⟩
    rw [hread, hflags]
    exact Arithmetic.isCount_decrement p.flags _
  · intro pair hi
    exact ⟨_, completes_update hi rfl, dad_balance pair p⟩
  · intro pair hi
    refine ⟨_, completes_update hi rfl, ?_⟩
    rw [Pair.read_write, UInt16.toNat_add]
    rfl
  · intro pair hi
    refine ⟨_, completes_update hi rfl, ?_⟩
    rw [Pair.read_write, UInt16.toNat_sub, Nat.add_comm]
    rfl

/-- `ADD A` carries out of both halves, and `INR M` counts the byte that it is itself. -/
theorem aliased_on_bench :
    (∃ d, (bench [0x87] 0 0 0 (0x88, {})).Completes (.operate .add .a) d ∧
      IsSum 0x88 0x88 false d.processor.regs.a d.processor.flags) ∧
    ∃ d, (bench [0x34] 0 0 0 (0, {})).Completes (.inr .m) d ∧
      IsCount 1 ((0x34 : UInt8).toNat % 16 = 15) 0x34 false
        (d.memory.read d.processor.regs.hl) d.processor.flags := by
  have hl : [(0x87 : UInt8)].length ≤ 65536 := by decide
  have hl' : [(0x34 : UInt8)].length ≤ 65536 := by decide
  obtain ⟨hoperate, -⟩ := arithmetic_equations (bench [0x87] 0 0 0 (0x88, {}))
  obtain ⟨-, -, hinr, -⟩ := arithmetic_equations (bench [0x34] 0 0 0 (0, {}))
  have hself : ByteOperand.m.read (bench [0x34] 0 0 0 (0, {})).processor
      (bench [0x34] 0 0 0 (0, {})).memory.read = 0x34 := read_bench hl' 0
  refine ⟨hoperate .add .a ((instruction?_bench hl).trans (by decide)), ?_⟩
  obtain ⟨d, hd, hcount⟩ := (hinr .m ((instruction?_bench hl').trans (by decide))).1
    fun _ => UInt16.not_lt_zero
  rw [hself] at hcount
  exact ⟨d, hd, hcount⟩

end Computer

end Arcade8080
