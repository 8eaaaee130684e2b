import Arcade8080.Proofs.Arithmetic.Agreement
import Arcade8080.Proofs.Computer.ArithmeticInstructions

/-!
# Instructions side by side

Two computers, each about to execute an instruction of its own. They may differ in everything
but what the two instructions are given: the accumulator, the operand and perhaps the carry.
Where two instructions are to calculate the same, so do the two computers, although the
instructions are carried out along different ways.
-/

namespace Arcade8080

variable {β γ : Type} [Bus β] [Bus γ]

namespace Computer

/-- Both computers carry out their next instruction, and are then related. -/
def SideBySide (R : Computer β → Computer γ → Prop) (c : Computer β) (c' : Computer γ) : Prop :=
  ∃ cycles d cycles' d', c.execute = (.ok cycles, d) ∧ c'.execute = (.ok cycles', d') ∧ R d d'

variable {c : Computer β} {c' : Computer γ} {operand : ByteOperand}

theorem sideBySide_of_isNext {x y : Calculation} {R : UInt8 × Flags → UInt8 × Flags → Prop}
    (hx : x.IsNext c) (hy : y.IsNext c')
    (h : R (x.apply c.accumulator) (y.apply c'.accumulator)) :
    SideBySide (fun d d' => R d.accumulator d'.accumulator) c c' := by
  obtain ⟨cycles, d, he, hd⟩ := hx.execute
  obtain ⟨cycles', d', he', hd'⟩ := hy.execute
  refine ⟨cycles, d, cycles', d', he, he', ?_⟩
  show R d.accumulator d'.accumulator
  rw [hd, hd']
  exact h

/-- A byte that is counted, beside an accumulator that is added to or taken from. -/
theorem sideBySide_of_count {i : Instruction} {y : Calculation} {r : UInt8 × Flags}
    (hi : c.instruction? = some i) (ha : c.Assignable operand)
    (he : i.effect c.processor c.memory.read =
      operand.assign r.1 { c.processor with flags := r.2 })
    (hy : y.IsNext c')
    (h : r = Arithmetic.withCarry c.carry (y.apply c'.accumulator)) :
    SideBySide (fun d d' => (operand.read d.processor d.memory.read, d.processor.flags) =
      Arithmetic.withCarry c.carry d'.accumulator) c c' := by
  obtain ⟨d, ⟨hx, -⟩, hread, hflags⟩ := completes_assign hi he ha
  obtain ⟨cycles', d', he', hd'⟩ := hy.execute
  refine ⟨_, d, cycles', d', hx, he', ?_⟩
  show (operand.read d.processor d.memory.read, d.processor.flags) = _
  rw [hread, hflags, hd']
  exact h

/-- **Ways that were written apart come to the same.** Beside each other, from the same
accumulator:
a difference is the sum with the complement, its borrows being missing carries;
a byte that is counted becomes what the sum or difference with one becomes, and its flags do
too, except that the carry is kept;
a comparison leaves the flags of a difference, and the accumulator alone;
a clear carry takes no part in a sum or a difference;
and rotating to the left through the carry is adding the accumulator to itself, as `DAD H` is
shifting H and L to the left. -/
theorem separate_ways_agree (c : Computer β) (c' : Computer γ) :
    let a := c.processor.regs.a
    let a' := c'.processor.regs.a
    (∀ v, (Calculation.operate .subtract v).IsNext c →
      (Calculation.operate .addCarry (~~~v)).IsNext c' → a' = a → c'.carry = true →
      SideBySide (fun d d' => d.accumulator = Arithmetic.invertCarry d'.accumulator) c c') ∧
    (∀ v, (Calculation.operate .subtractBorrow v).IsNext c →
      (Calculation.operate .addCarry (~~~v)).IsNext c' → a' = a → (c'.carry = !c.carry) →
      SideBySide (fun d d' => d.accumulator = Arithmetic.invertCarry d'.accumulator) c c') ∧
    (∀ operand, c.instruction? = some (.inr operand) → c.Assignable operand →
      (Calculation.operate .add 1).IsNext c' → a' = operand.read c.processor c.memory.read →
      SideBySide (fun d d' => (operand.read d.processor d.memory.read, d.processor.flags) =
        Arithmetic.withCarry c.carry d'.accumulator) c c') ∧
    (∀ operand, c.instruction? = some (.dcr operand) → c.Assignable operand →
      (Calculation.operate .subtract 1).IsNext c' →
      a' = operand.read c.processor c.memory.read →
      SideBySide (fun d d' => (operand.read d.processor d.memory.read, d.processor.flags) =
        Arithmetic.withCarry c.carry d'.accumulator) c c') ∧
    (∀ v, (Calculation.operate .compare v).IsNext c →
      (Calculation.operate .subtract v).IsNext c' → a' = a →
      SideBySide (fun d d' => d.accumulator = (a, d'.processor.flags)) c c') ∧
    (∀ v, (Calculation.operate .addCarry v).IsNext c → c.carry = false →
      (Calculation.operate .add v).IsNext c' → a' = a →
      SideBySide (fun d d' => d.accumulator = d'.accumulator) c c') ∧
    (∀ v, (Calculation.operate .subtractBorrow v).IsNext c → c.carry = false →
      (Calculation.operate .subtract v).IsNext c' → a' = a →
      SideBySide (fun d d' => d.accumulator = d'.accumulator) c c') ∧
    (c.instruction? = some (.rotate .leftThroughCarry) →
      c'.instruction? = some (.operate .addCarry .a) → a' = a → c'.carry = c.carry →
      SideBySide (fun d d' => d.processor.regs.a = d'.processor.regs.a ∧ d.carry = d'.carry)
        c c') ∧
    (c.instruction? = some (.dad .hl) →
      ∃ d, c.Completes (.dad .hl) d ∧ d.processor.regs.hl = c.processor.regs.hl <<< 1 ∧
        d.carry = c.processor.regs.hl.toNat.testBit 15) := by
  intro a a'
  refine ⟨?_, ?_, ?_, ?_, ?_, ?_, ?_, ?_, ?_⟩
  · intro v hx hy ha hc
    apply sideBySide_of_isNext (R := fun r r' => r = Arithmetic.invertCarry r') hx hy
    show Arithmetic.subtract a v false = Arithmetic.invertCarry (Arithmetic.add a' (~~~v) c'.carry)
    rw [ha, hc]
    exact Arithmetic.subtract_eq_add a v false
  · intro v hx hy ha hc
    apply sideBySide_of_isNext (R := fun r r' => r = Arithmetic.invertCarry r') hx hy
    show Arithmetic.subtract a v c.carry =
      Arithmetic.invertCarry (Arithmetic.add a' (~~~v) c'.carry)
    rw [ha, hc]
    exact Arithmetic.subtract_eq_add a v c.carry
  · intro operand hi hw hy ha
    apply sideBySide_of_count (r := Arithmetic.increment c.processor.flags a') hi hw _ hy
    · exact Arithmetic.increment_eq_add c.processor.flags a'
    · rw [ha]
      rfl
  · intro operand hi hw hy ha
    apply sideBySide_of_count (r := Arithmetic.decrement c.processor.flags a') hi hw _ hy
    · exact Arithmetic.decrement_eq_subtract c.processor.flags a'
    · rw [ha]
      rfl
  · intro v hx hy ha
    apply sideBySide_of_isNext (R := fun r r' => r = (a, r'.2)) hx hy
    show (a, (Arithmetic.subtract a v false).2) = (a, (Arithmetic.subtract a' v false).2)
    rw [ha]
  · intro v hx hc hy ha
    apply sideBySide_of_isNext (R := fun r r' => r = r') hx hy
    show Arithmetic.add a v c.carry = Arithmetic.add a' v false
    rw [ha, hc]
  · intro v hx hc hy ha
    apply sideBySide_of_isNext (R := fun r r' => r = r') hx hy
    show Arithmetic.subtract a v c.carry = Arithmetic.subtract a' v false
    rw [ha, hc]
  · intro hi hi' ha hc
    have hx : (Calculation.rotate .leftThroughCarry).IsNext c := hi
    have hy : (Calculation.operate .addCarry a').IsNext c' := .inl ⟨.a, hi', rfl⟩
    apply sideBySide_of_isNext (R := fun r r' => r.1 = r'.1 ∧ r.2.carry = r'.2.carry) hx hy
    obtain ⟨hbyte, hcarry⟩ := Prod.mk.inj (Arithmetic.rotate_eq_add c.carry a)
    show _ = (Arithmetic.add a' a' c'.carry).1 ∧ _ = (Arithmetic.add a' a' c'.carry).2.carry
    rw [ha, hc]
    exact ⟨hbyte, hcarry⟩
  · intro hi
    obtain ⟨hword, hcarry⟩ := Arithmetic.double_eq_shift c.processor.regs.hl
    refine ⟨_, completes_update hi rfl, ?_, hcarry⟩
    show (c.processor.regs.setHL _).hl = _
    rw [Registers.hl_setHL]
    exact hword

/-- `SUB B` from 0x10 borrows into the lower half as `ADC B` of the complement does not carry out
of it. `INR A` from 0x0F carries out of it as `ADD B` of one does, and `RAL` doubles 0x81 as
`ADC A` does. -/
theorem side_by_side_on_bench :
    SideBySide (fun d d' => d.accumulator = Arithmetic.invertCarry d'.accumulator)
      (bench [0x90] 0x01 0 0 (0x10, {})) (bench [0x88] 0xFE 0 0 (0x10, { carry := true })) ∧
    SideBySide (fun d d' => (d.processor.regs.a, d.processor.flags) =
      Arithmetic.withCarry true d'.accumulator)
      (bench [0x3C] 0 0 0 (0x0F, { carry := true })) (bench [0x80] 1 0 0 (0x0F, {})) ∧
    SideBySide (fun d d' => d.processor.regs.a = d'.processor.regs.a ∧ d.carry = d'.carry)
      (bench [0x17] 0 0 0 (0x81, {})) (bench [0x8F] 0 0 0 (0x81, {})) := by
  have hl (byte : UInt8) : [byte].length ≤ 65536 := show 1 ≤ 65536 by decide
  obtain ⟨hsubtract, -⟩ := separate_ways_agree
    (bench [0x90] 0x01 0 0 (0x10, {})) (bench [0x88] 0xFE 0 0 (0x10, { carry := true }))
  obtain ⟨-, -, hcount, -⟩ := separate_ways_agree
    (bench [0x3C] 0 0 0 (0x0F, { carry := true })) (bench [0x80] 1 0 0 (0x0F, {}))
  obtain ⟨-, -, -, -, -, -, -, hrotate, -⟩ := separate_ways_agree
    (bench [0x17] 0 0 0 (0x81, {})) (bench [0x8F] 0 0 0 (0x81, {}))
  refine ⟨?_, ?_, ?_⟩
  · exact hsubtract 0x01 (.inl ⟨.b, (instruction?_bench (hl _)).trans (by decide), rfl⟩)
      (.inl ⟨.b, (instruction?_bench (hl _)).trans (by decide), by decide⟩) rfl rfl
  · exact hcount .a ((instruction?_bench (hl _)).trans (by decide)) (fun h => nomatch h)
      (.inl ⟨.b, (instruction?_bench (hl _)).trans (by decide), rfl⟩) rfl
  · exact hrotate ((instruction?_bench (hl _)).trans (by decide))
      ((instruction?_bench (hl _)).trans (by decide)) rfl (show false = false from rfl)

end Computer

end Arcade8080
