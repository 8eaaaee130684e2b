import Arcade8080.Execution.Effect
import Arcade8080.Instruction.Cost

/-!
# What an instruction reads

An instruction reads the bytes it takes up and the bytes of its data. Both are
lists of addresses: the first follows from the program counter and the length, the
second is a table. The effect of an instruction depends on memory at these
addresses only.
-/

namespace Arcade8080

/-- Where an operand is read in memory, if it is read there. -/
def ByteOperand.addresses (operand : ByteOperand) (p : Processor) : List UInt16 :=
  match operand with
  | .m => [p.regs.hl]
  | _ => []

namespace Instruction

/-- Where the bytes of an instruction are, operands included. -/
def fetchAddresses (i : Instruction) (p : Processor) : List UInt16 :=
  (List.range i.length.toNat).map fun k => p.pc + UInt16.ofNat k

/-- Where an instruction reads its data. A conditional return pops only when it is made. -/
def dataAddresses (i : Instruction) (p : Processor) (view : View) : List UInt16 :=
  match i with
  | .mov _ source => source.addresses p
  | .inr operand | .dcr operand | .operate _ operand => operand.addresses p
  | .ldax pair => [pair.read p]
  | .lda => [p.immediateWord view]
  | .lhld => [p.immediateWord view, p.immediateWord view + 1]
  | .pop _ | .ret | .xthl => [p.sp, p.sp + 1]
  | .retIf condition => if condition.holds p.flags then [p.sp, p.sp + 1] else []
  | _ => []

end Instruction

/-! ## Views that agree -/

section Agreement

variable {v w : View} {p : Processor}

theorem View.word_congr {address : UInt16} (h : ∀ a ∈ [address, address + 1], v a = w a) :
    v.word address = w.word address := by
  have hl := h address List.mem_cons_self
  have hh := h (address + 1) (List.mem_cons_of_mem _ List.mem_cons_self)
  rw [word, word, hl, hh]

theorem ByteOperand.read_congr {operand : ByteOperand}
    (h : ∀ a ∈ operand.addresses p, v a = w a) : operand.read p v = operand.read p w := by
  cases operand with
  | m => exact h p.regs.hl List.mem_cons_self
  | _ => rfl

namespace Instruction

variable {i : Instruction}

theorem mem_fetchAddresses {k : Nat} (h : k < i.length.toNat) (p : Processor) :
    p.pc + UInt16.ofNat k ∈ i.fetchAddresses p :=
  List.mem_map.mpr ⟨k, List.mem_range.mpr h, rfl⟩

/-- An instruction begins at the program counter. -/
theorem mem_fetchAddresses_pc (i : Instruction) (p : Processor) : p.pc ∈ i.fetchAddresses p := by
  have hm := mem_fetchAddresses i.length_bounds.1 p
  rwa [show p.pc + UInt16.ofNat 0 = p.pc from UInt16.add_zero _] at hm

theorem immediate_congr (h : ∀ a ∈ i.fetchAddresses p, v a = w a) (hl : i.length = 2) :
    p.immediate v = p.immediate w := by
  have h1 : 1 < i.length.toNat := by rw [hl]; decide
  exact h _ (mem_fetchAddresses h1 p)

theorem immediateWord_congr (h : ∀ a ∈ i.fetchAddresses p, v a = w a) (hl : i.length = 3) :
    p.immediateWord v = p.immediateWord w := by
  have h1 : 1 < i.length.toNat := by rw [hl]; decide
  have h2 : 2 < i.length.toNat := by rw [hl]; decide
  have hlow : v (p.pc + 1) = w (p.pc + 1) := h _ (mem_fetchAddresses h1 p)
  have hhigh : v (p.pc + 1 + 1) = w (p.pc + 1 + 1) := by
    rw [UInt16.add_assoc]
    exact h _ (mem_fetchAddresses h2 p)
  rw [Processor.immediateWord, Processor.immediateWord, View.word, View.word, hlow, hhigh]

/-- The effect of an instruction depends on what it reads. -/
theorem effect_congr (hf : ∀ a ∈ i.fetchAddresses p, v a = w a)
    (hd : ∀ a ∈ i.dataAddresses p v, v a = w a) : i.effect p v = i.effect p w := by
  cases i with
  | lxi pair | sta | shld | jmp | jmpIf condition | call | callIf condition =>
    have hw := immediateWord_congr hf rfl
    simp only [effect, Effect.jump, Effect.callImmediate, hw]
  | mvi target | operateImmediate operation | input | output =>
    have hb := immediate_congr hf rfl
    simp only [effect, hb]
  | mov target operand | inr operand | dcr operand | operate operation operand =>
    have ho := operand.read_congr hd
    simp only [effect, ho]
  | ldax pair =>
    have hb := hd (pair.read p) List.mem_cons_self
    simp only [effect, hb]
  | lda =>
    have hw := immediateWord_congr hf rfl
    have hb := hd (p.immediateWord v) List.mem_cons_self
    rw [hw] at hb
    simp only [effect, hw, hb]
  | lhld =>
    have hw := immediateWord_congr hf rfl
    have hb := View.word_congr hd
    rw [hw] at hb
    simp only [effect, hw, hb]
  | pop pair | ret | xthl =>
    have hb := View.word_congr hd
    simp only [effect, Effect.ret, Processor.pop, hb]
  | retIf condition =>
    simp only [effect]
    split
    next hc =>
      rw [dataAddresses, if_pos hc] at hd
      have hb := View.word_congr hd
      simp only [Effect.ret, Processor.pop, hb]
    next => rfl
  | _ => rfl

end Instruction

end Agreement

end Arcade8080
