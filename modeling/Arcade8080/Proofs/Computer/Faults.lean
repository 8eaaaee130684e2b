import Arcade8080.Proofs.Computer.Outcome
import Arcade8080.Proofs.Instruction.Decoding

/-!
# When executing fails, and how

The state before an instruction settles whether it is carried out, and which
fault it comes to if not. What counts is the byte at the program counter, whether
anything is attached to the bus, and the first of its stores that goes below the
boundary. Nothing else stops an instruction; running past the image and loading
too much are faults of other operations.
-/

namespace Arcade8080.Computer

variable {β : Type}

/-- The byte at the program counter. -/
def opcode (c : Computer β) : UInt8 := c.memory.read c.processor.pc

theorem instruction?_eq_none_iff (c : Computer β) :
    c.instruction? = none ↔ c.opcode ∈ Instruction.undefinedBytes :=
  Instruction.decode?_eq_none_iff c.opcode

theorem instruction?_eq_some_iff (c : Computer β) {i : Instruction} (h : i ≠ .mov .m .m) :
    c.instruction? = some i ↔ c.opcode = i.encode :=
  Instruction.decode?_eq_some_iff h

/-- The store that the next instruction is refused, if it is refused one. -/
theorem storeAll_stores (c : Computer β) :
    (c.memory.storeAll c.stores).2 = c.storeAddresses.find? (· < c.memory.romBoundary) := by
  rw [Memory.storeAll_refused, address_stores]

variable [Bus β]

/-- When the next instruction comes to a fault, fault by fault. -/
def StopsWith (c : Computer β) : Fault → Prop
  | .undefinedByte byte => byte = c.opcode ∧ byte ∈ Instruction.undefinedBytes
  | .unsupported i => i = .hlt ∧ c.opcode = 0x76
  | .noBus => (c.opcode = 0xd3 ∨ c.opcode = 0xdb) ∧ Bus.attached c.bus = false
  | .romWrite address => c.storeAddresses.find? (· < c.memory.romBoundary) = some address
  | .pastEnd => False
  | .oversized _ => False

/-! ## Execution by kinds of instructions -/

theorem execute_undefined {c : Computer β} (h : c.instruction? = none) :
    c.execute = (.error (.undefinedByte c.opcode), c) := by
  simp only [execute, step, h]
  rfl

theorem execute_hlt {c : Computer β} (h : c.instruction? = some .hlt) :
    c.execute = (.error (.unsupported .hlt), c) := by
  simp only [execute, step_of_instruction? h]
  rfl

/-- An instruction that uses a port needs a bus, and nothing else. -/
theorem execute_port {c : Computer β} {i : Instruction} (hi : c.instruction? = some i)
    (hp : i = .output ∨ i = .input) :
    c.execute.1 = if Bus.attached c.bus then .ok i.cycles else .error .noBus := by
  rcases c with ⟨p, memory, bus⟩
  show _ = if Bus.attached bus then _ else _
  cases ha : Bus.attached bus with
  | true =>
    rcases hp with rfl | rfl
    · simp only [execute, step_of_instruction? hi, Instruction.effect, commit, ha]
      rfl
    · simp only [execute, step_of_instruction? hi, Instruction.effect, commit, ha]
      rfl
  | false =>
    rcases hp with rfl | rfl
    · simp only [execute, step_of_instruction? hi, Instruction.effect, commit, ha]
      rfl
    · simp only [execute, step_of_instruction? hi, Instruction.effect, commit, ha]
      rfl

/-- Any other instruction is carried out if its stores are accepted. -/
theorem execute_accepted {c : Computer β} {i : Instruction} (hi : c.instruction? = some i)
    (hh : i ≠ .hlt) (hp : ¬ (i = .output ∨ i = .input))
    (hs : c.storeAddresses.find? (· < c.memory.romBoundary) = none) :
    c.execute.1 = .ok i.cycles := by
  obtain ⟨ho, hin⟩ := not_or.mp hp
  obtain ⟨after, flow, he⟩ := Instruction.effect_eq_change hh hin ho c.processor c.memory.read
  have hst : i.stores c.processor c.memory.read = c.stores := (stores_of_instruction? hi).symm
  have hn : c.memory.storeAll c.stores = ((c.memory.storeAll c.stores).1, none) :=
    Prod.ext rfl (c.storeAll_stores.trans hs)
  have hc := step_of_instruction? hi
  rw [he, hst, commit_change hn] at hc
  rw [execute_of_step hc]

/-! ## Faults and their conditions -/

theorem execute_of_stopsWith {c : Computer β} {fault : Fault} (h : c.StopsWith fault) :
    c.execute.1 = .error fault := by
  cases fault with
  | undefinedByte byte =>
    obtain ⟨rfl, hb⟩ := h
    rw [execute_undefined (c.instruction?_eq_none_iff.mpr hb)]
  | unsupported i =>
    obtain ⟨rfl, hb⟩ := h
    rw [execute_hlt ((c.instruction?_eq_some_iff (by decide)).mpr hb)]
  | romWrite address =>
    have hs : c.memory.storeAll c.stores = ((c.memory.storeAll c.stores).1, some address) :=
      Prod.ext rfl (c.storeAll_stores.trans h)
    rw [execute_of_stores_refused hs]
  | noBus =>
    obtain ⟨hb | hb, ha⟩ := h
    · have hi : c.instruction? = some .output := (c.instruction?_eq_some_iff (by decide)).mpr hb
      rw [execute_port hi (Or.inl rfl), ha]
      rfl
    · have hi : c.instruction? = some .input := (c.instruction?_eq_some_iff (by decide)).mpr hb
      rw [execute_port hi (Or.inr rfl), ha]
      rfl
  | pastEnd => exact h.elim
  | oversized length => exact h.elim

/-- Where no fault is called for, the instruction is carried out. -/
theorem execute_of_not_stopsWith {c : Computer β} (h : ∀ fault, ¬ c.StopsWith fault) :
    ∃ i, c.instruction? = some i ∧ c.execute.1 = .ok i.cycles := by
  cases hi : c.instruction? with
  | none => exact absurd ⟨rfl, c.instruction?_eq_none_iff.mp hi⟩ (h (.undefinedByte c.opcode))
  | some i =>
    refine ⟨i, rfl, ?_⟩
    by_cases hh : i = .hlt
    · subst hh
      have hb := (c.instruction?_eq_some_iff (by decide)).mp hi
      exact absurd ⟨rfl, hb⟩ (h (.unsupported .hlt))
    by_cases hp : i = .output ∨ i = .input
    · have hb : c.opcode = 0xd3 ∨ c.opcode = 0xdb := by
        rcases hp with rfl | rfl
        · exact Or.inl ((c.instruction?_eq_some_iff (by decide)).mp hi)
        · exact Or.inr ((c.instruction?_eq_some_iff (by decide)).mp hi)
      have ha : Bus.attached c.bus = true := Bool.of_not_eq_false fun ha => h .noBus ⟨hb, ha⟩
      rw [execute_port hi hp, if_pos ha]
    · apply execute_accepted hi hh hp
      cases hs : c.storeAddresses.find? (· < c.memory.romBoundary) with
      | none => rfl
      | some address => exact absurd hs (h (.romWrite address))

/-- A fault is one that the state before the instruction called for. -/
theorem stopsWith_of_execute {c : Computer β} {fault : Fault} (h : c.execute.1 = .error fault) :
    c.StopsWith fault := by
  by_cases hs : ∃ other, c.StopsWith other
  · obtain ⟨other, ho⟩ := hs
    cases (execute_of_stopsWith ho).symm.trans h
    exact ho
  · obtain ⟨i, -, hok⟩ := execute_of_not_stopsWith (not_exists.mp hs)
    cases hok.symm.trans h

/-- **Executing fails exactly when it has to.** It reports a fault if and only if the
state before the instruction calls for that fault, and in every other case it carries the
instruction out and reports its cost. -/
theorem execute_error_iff_stopsWith (c : Computer β) :
    (∀ fault, c.execute.1 = .error fault ↔ c.StopsWith fault) ∧
      ((∃ fault, c.StopsWith fault) ∨
        ∃ i, c.instruction? = some i ∧ c.execute.1 = .ok i.cycles) := by
  by_cases hs : ∃ fault, c.StopsWith fault
  · refine ⟨fun fault => ⟨fun he => ?_, execute_of_stopsWith⟩, Or.inl hs⟩
    obtain ⟨other, ho⟩ := hs
    have h := (execute_of_stopsWith ho).symm.trans he
    cases h
    exact ho
  · obtain ⟨i, hi, hok⟩ := execute_of_not_stopsWith (not_exists.mp hs)
    refine ⟨fun fault => ⟨fun he => ?_, execute_of_stopsWith⟩, Or.inr ⟨i, hi, hok⟩⟩
    cases hok.symm.trans he

end Arcade8080.Computer
