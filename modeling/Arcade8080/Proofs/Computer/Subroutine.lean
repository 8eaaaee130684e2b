import Arcade8080.Proofs.Computer.Footprint
import Arcade8080.Proofs.Computer.Stack
import Arcade8080.Proofs.Operation

/-!
# Subroutines return to their callers

A subroutine is entered by a call, by an `RST` or by an interrupt. Each leaves the address
to go back to in the two bytes below the stack pointer. What the subroutine does in between
does not matter, and neither does how long it takes: as long as it does not store over
these two bytes, a return with the stack pointer where it was on entry goes back to that
address. Nothing is assumed of where the stack is; it may wrap around.
-/

namespace Arcade8080

namespace Computer

variable {β : Type}

/-! ## Entry -/

/-- From `c` to `d` a subroutine at `target` is entered that is to go back to `back`. The
operand of a call is the one in memory before the call. -/
inductive Enters [Bus β] (c : Computer β) : (back target : UInt16) → (d : Computer β) → Prop
  | call {cycles : UInt32} {d : Computer β} :
      c.instruction? = some .call → c.execute = (.ok cycles, d) →
      Enters c (c.processor.pc + 3) (c.processor.immediateWord c.memory.read) d
  | callIf {condition : Condition} {cycles : UInt32} {d : Computer β} :
      c.instruction? = some (.callIf condition) →
      condition.holds c.processor.flags = true → c.execute = (.ok cycles, d) →
      Enters c (c.processor.pc + 3) (c.processor.immediateWord c.memory.read) d
  | rst {n : Fin 8} {cycles : UInt32} {d : Computer β} :
      c.instruction? = some (.rst n) → c.execute = (.ok cycles, d) →
      Enters c (c.processor.pc + 1) (UInt16.ofNat (8 * n.val)) d
  | interrupt {vector : UInt8} {d : Computer β} :
      c.interrupt vector = (.ok true, d) →
      Enters c c.processor.pc (UInt16.ofNat (8 * vector.toNat)) d

/-- What every entry leaves: the program counter at the target, and the address to go back
to on top of the stack. -/
structure Entered (c : Computer β) (back target : UInt16) (d : Computer β) : Prop where
  sp : d.processor.sp = c.processor.sp - 2
  pc : d.processor.pc = target
  upper : d.memory.read (c.processor.sp - 1) = highByte back
  lower : d.memory.read (c.processor.sp - 2) = lowByte back

variable {c d : Computer β} {back target : UInt16}

theorem Pushed.entered {e : Computer β} (h : Pushed (highByte back) (lowByte back) c e) :
    Entered c back target { e with processor.pc := target } :=
  ⟨congrArg Processor.sp h.processor, rfl, h.upper, h.lower⟩

theorem serviceAddress_eq (vector : UInt8) :
    serviceAddress vector = UInt16.ofNat (8 * vector.toNat) := by
  have hv := vector.toNat_lt
  apply UInt16.toNat_inj.mp
  simp only [serviceAddress, UInt16.toNat_mul, UInt8.toNat_toUInt16, UInt16.toNat_ofNat',
    UInt16.reduceToNat]
  omega

theorem entered_of_interrupt {vector : UInt8} (h : c.interrupt vector = (.ok true, d)) :
    Entered c c.processor.pc (UInt16.ofNat (8 * vector.toNat)) d := by
  rw [interrupt_eq_pushWord] at h
  split at h
  · split at h
    next e hpush =>
      cases h
      rw [← serviceAddress_eq]
      -- Only the latch differs between `c` and the computer that has pushed.
      have hent : Entered _ _ (serviceAddress vector) _ := (pushed_of_push hpush).entered
      exact ⟨hent.sp, hent.pc, hent.upper, hent.lower⟩
    · cases h
  · cases h

variable [Bus β]

theorem entered_of_execute {i : Instruction} {cycles : UInt32} (hi : c.instruction? = some i)
    (he : i.effect c.processor c.memory.read = .call c.processor back target)
    (h : c.execute = (.ok cycles, d)) : Entered c back target d := by
  have hp : i.effect c.processor c.memory.read =
      .change (c.processor.push back).1 (c.processor.push back).2 (.jump target) := he
  obtain ⟨e, hpushed, rfl⟩ := pushed_of_execute hi hp h
  exact hpushed.entered

theorem Enters.entered (h : Enters c back target d) : Entered c back target d := by
  cases h with
  | call hi hx => exact entered_of_execute hi rfl hx
  | callIf hi hc hx =>
    refine entered_of_execute hi ?_ hx
    rw [Instruction.effect, if_pos hc]
    rfl
  | rst hi hx => exact entered_of_execute hi rfl hx
  | interrupt hx => exact entered_of_interrupt hx

/-! ## In between -/

end Computer

/-- What a computer does while a program runs: an instruction, or a request from outside. -/
inductive ProgramStep
  | execute
  | interrupt (vector : UInt8)

namespace ProgramStep

open Computer

variable {β : Type} [Bus β]

/-- The step, taken at the first computer, succeeds and ends in the second. A request that is
ignored has succeeded too. -/
def Succeeds (step : ProgramStep) (c d : Computer β) : Prop :=
  match step with
  | .execute => ∃ cycles, c.execute = (.ok cycles, d)
  | .interrupt vector => ∃ taken, c.interrupt vector = (.ok taken, d)

/-- Where a step stores. -/
def storeAddresses (step : ProgramStep) (c : Computer β) : List UInt16 :=
  match step with
  | .execute => c.storeAddresses
  | .interrupt _ =>
    if c.processor.interruptEnable then [c.processor.sp - 1, c.processor.sp - 2] else []

/-- The step succeeds and stores at none of these addresses. -/
def Spares (kept : List UInt16) (step : ProgramStep) (c d : Computer β) : Prop :=
  step.Succeeds c d ∧ ∀ a ∈ kept, a ∉ step.storeAddresses c

variable {kept : List UInt16} {a : UInt16} {c d : Computer β}

theorem Spares.read {step : ProgramStep} (h : step.Spares kept c d) (ha : a ∈ kept) :
    d.memory.read a = c.memory.read a := by
  obtain ⟨hs, hk⟩ := h
  replace hk := hk a ha
  cases step with
  | execute =>
    obtain ⟨cycles, hx⟩ := hs
    have hd : d = c.execute.2 := by rw [hx]
    rw [hd, execute_memory]
    apply Memory.read_storeAll_of_not_mem
    rw [address_stores]
    exact hk
  | interrupt vector =>
    obtain ⟨taken, hx⟩ := hs
    rw [interrupt_eq_pushWord] at hx
    simp only [storeAddresses] at hk
    split at hx
    next hl =>
      rw [if_pos hl, List.mem_cons, List.mem_singleton, not_or] at hk
      split at hx
      next e hpush =>
        cases hx
        exact (pushed_of_push hpush).elsewhere a hk.1 hk.2
      · cases hx
    · cases hx
      rfl

/-- What each step spares is still there after any number of them. -/
theorem read_of_history {steps : List ProgramStep} (h : History (Spares kept) steps c d)
    (ha : a ∈ kept) : d.memory.read a = c.memory.read a :=
  h.keeps (P := fun e => e.memory.read a = c.memory.read a)
    (fun _ _ _ _ hs he => (hs.read ha).trans he) rfl

end ProgramStep

/-! ## Return -/

namespace Computer

variable {β : Type} {c d : Computer β} {back target : UInt16}

/-- The next instruction is a return that is going to be made. -/
def AtReturn (c : Computer β) : Prop :=
  c.instruction? = some .ret ∨
    ∃ condition, c.instruction? = some (.retIf condition) ∧
      condition.holds c.processor.flags = true

variable [Bus β]

/-- A return never fails. -/
theorem execute_atReturn (h : c.AtReturn) :
    ∃ cycles, c.execute = (.ok cycles, { c.popWord.2 with processor.pc := c.popWord.1 }) := by
  rcases h with hi | ⟨condition, hi, hc⟩
  · exact ⟨_, execute_ret hi rfl⟩
  · refine ⟨_, execute_ret hi ?_⟩
    rw [Instruction.effect, if_pos hc]

/-- **A subroutine returns to where it was entered from.** On entry the stack pointer has
gone down by two and execution is at the target. After any steps that succeed and spare the
two bytes under the old stack pointer, a return at the same depth of the stack goes on at the
address left there, and the stack pointer is the old one again. -/
theorem return_to_caller (h : Enters c back target d) :
    d.processor.sp = c.processor.sp - 2 ∧ d.processor.pc = target ∧
      ∀ steps e, History (ProgramStep.Spares [c.processor.sp - 1, c.processor.sp - 2]) steps d e →
        e.processor.sp = c.processor.sp - 2 → e.AtReturn →
        ∃ cycles f, e.execute = (.ok cycles, f) ∧
          f.processor.pc = back ∧ f.processor.sp = c.processor.sp := by
  obtain ⟨hsp, hpc, hu, hl⟩ := h.entered
  refine ⟨hsp, hpc, fun steps e hh hse hret => ?_⟩
  have hue := (ProgramStep.read_of_history hh List.mem_cons_self).trans hu
  have hle := (ProgramStep.read_of_history hh
    (List.mem_cons_of_mem _ List.mem_cons_self)).trans hl
  obtain ⟨cycles, hx⟩ := execute_atReturn hret
  rw [popWord_of_bytes hse hue hle] at hx
  exact ⟨cycles, _, hx, rfl, rfl⟩

/-! ## A call across the end of memory -/

/-- A `CALL` in the last two bytes and the first one, with the stack pointer such that it
pushes onto its own operand. The subroutine is a `NOP` and a `RET`. -/
def wrapping : Computer Ports :=
  { processor := { sp := 1, pc := 0xFFFE }
    memory := ((((Memory.blank 0).put ⟨0xFFFE, 0xCD⟩).put ⟨0xFFFF, 0x34⟩).put ⟨0, 0x12⟩).put
      ⟨0x1235, 0xC9⟩
    bus := Ports.idle {} }

theorem read_wrapping (address : UInt16) : wrapping.memory.read address =
    if 0x1235 = address then 0xC9 else if 0 = address then 0x12 else
      if 0xFFFF = address then 0x34 else if 0xFFFE = address then 0xCD else 0 := by
  simp only [wrapping, Memory.read_put, Memory.read_blank]

theorem enters_wrapping : ∃ d, Enters wrapping 1 0x1234 d ∧
    Instruction.call.Footprint wrapping d := by
  have hi : wrapping.instruction? = some .call := by
    rw [instruction?_eq_some_iff _ (by decide)]
    exact read_wrapping 0xFFFE
  have hw : wrapping.processor.immediateWord wrapping.memory.read = 0x1234 := by
    show wordOf (wrapping.memory.read 0) (wrapping.memory.read 0xFFFF) = 0x1234
    rw [read_wrapping, read_wrapping]
    decide
  have hs : wrapping.storeAddresses.find? (· < wrapping.memory.romBoundary) = none := by
    have hb : wrapping.memory.romBoundary = 0 := rfl
    rw [storeAddresses_of_instruction? hi, hb]
    decide
  obtain ⟨d, hx, hf⟩ := exists_footprint hi (by decide) (by decide) hs
  have hent := Enters.call hi hx
  rw [hw] at hent
  exact ⟨d, hent, hf⟩

theorem execute_nop {c : Computer Ports} (hi : c.instruction? = some .nop) :
    ∃ d, c.execute = (.ok 4, d) ∧ Instruction.nop.Footprint c d := by
  apply exists_footprint hi (by decide) (by decide)
  rw [storeAddresses_of_instruction? hi]
  rfl

/-- The call goes to the address that was its operand before the push, and the return comes
back to the address after the call, which is one. -/
theorem wrapping_returns_to_one :
    ∃ d e f cycles, Enters wrapping 1 0x1234 d ∧
      History (ProgramStep.Spares [0, 0xFFFF]) [.execute] d e ∧
      e.execute = (.ok cycles, f) ∧ f.processor.pc = 1 ∧ f.processor.sp = 1 := by
  obtain ⟨d, hent, hf⟩ := enters_wrapping
  obtain ⟨hsp, hpc, hret⟩ := return_to_caller hent
  have hmem (address : UInt16) (hu : address ≠ 0) (hl : address ≠ 0xFFFF) :
      d.memory.read address = wrapping.memory.read address := by
    apply hf.memory
    show address ∉ [0, 0xFFFF]
    simp [hu, hl]
  have hi : d.instruction? = some .nop := by
    rw [instruction?_eq_some_iff _ (by decide), opcode, hpc, hmem _ (by decide) (by decide)]
    exact read_wrapping 0x1234
  obtain ⟨e, hx, hfe⟩ := execute_nop hi
  have hpce : e.processor.pc = 0x1235 := by
    rw [hfe.programCounter rfl, hpc]
    rfl
  have hie : e.instruction? = some .ret := by
    rw [instruction?_eq_some_iff _ (by decide), opcode, hpce, hfe.memory _ List.not_mem_nil,
      hmem _ (by decide) (by decide)]
    exact read_wrapping 0x1235
  have hspares : ProgramStep.Spares [0, 0xFFFF] .execute d e := by
    refine ⟨⟨4, hx⟩, fun a _ => ?_⟩
    show a ∉ d.storeAddresses
    rw [storeAddresses_of_instruction? hi]
    exact List.not_mem_nil
  have hh : History (ProgramStep.Spares [0, 0xFFFF]) [.execute] d e := .cons hspares (.nil e)
  obtain ⟨cycles, f, hxe, hback, htop⟩ :=
    hret _ e hh (hfe.processor.sp.trans hsp) (Or.inl hie)
  exact ⟨d, e, f, cycles, hent, hh, hxe, hback, htop⟩

end Computer

end Arcade8080
