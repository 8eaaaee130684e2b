import Arcade8080.Computer.Execute
import Arcade8080.Computer.Interrupt
import Arcade8080.Proofs.Execution.Stores
import Arcade8080.Proofs.Memory.Stores

/-!
# What a computer can do in one step

Executing and interrupting, taken apart once: which stores reach memory, what
becomes of the bus, and what a fault leaves behind. Later modules argue from
these statements and do not look into the effect of an instruction again.
-/

namespace Arcade8080.Computer

variable {β : Type}

/-- The stores that executing the next instruction asks for. -/
def stores (c : Computer β) : List Store :=
  match c.instruction? with
  | some i => i.stores c.processor c.memory.read
  | none => []

/-- Where the next instruction stores, in the order of its stores. -/
def storeAddresses (c : Computer β) : List UInt16 :=
  match c.instruction? with
  | some i => i.storeAddresses c.processor c.memory.read
  | none => []

theorem stores_of_instruction? {c : Computer β} {i : Instruction} (h : c.instruction? = some i) :
    c.stores = i.stores c.processor c.memory.read := by
  unfold stores
  rw [h]

theorem storeAddresses_of_instruction? {c : Computer β} {i : Instruction}
    (h : c.instruction? = some i) :
    c.storeAddresses = i.storeAddresses c.processor c.memory.read := by
  unfold storeAddresses
  rw [h]

theorem address_stores (c : Computer β) : c.stores.map Store.address = c.storeAddresses := by
  unfold stores storeAddresses
  cases c.instruction? with
  | none => rfl
  | some i => exact i.address_stores c.processor c.memory.read

section Execute

variable [Bus β]

theorem execute_snd (c : Computer β) : c.execute.2 = c.step.2 := by
  unfold execute
  split
  next h => rw [h]
  next h => rw [h]

theorem execute_fst (c : Computer β) : c.execute.1 = c.step.1.map Completion.cycles := by
  unfold execute
  split
  next h => rw [h]; rfl
  next h => rw [h]; rfl

theorem step_of_execute_error {c c' : Computer β} {fault : Fault}
    (h : c.execute = (.error fault, c')) : c.step = (.error fault, c') := by
  unfold execute at h
  split at h
  · cases h
  next hs =>
    cases h
    exact hs

theorem execute_of_step {c c' : Computer β} {completion : Completion}
    (h : c.step = (.ok completion, c')) : c.execute = (.ok completion.cycles, c') := by
  unfold execute
  rw [h]

theorem execute_of_step_error {c c' : Computer β} {fault : Fault}
    (h : c.step = (.error fault, c')) : c.execute = (.error fault, c') := by
  unfold execute
  rw [h]

theorem step_of_instruction? {c : Computer β} {i : Instruction} (h : c.instruction? = some i) :
    c.step = commit i (i.effect c.processor c.memory.read) c := by
  unfold step
  rw [h]

/-- A change whose stores are all accepted is carried out. -/
theorem commit_change {stores : List Store} {c : Computer β} {n : Memory}
    (h : c.memory.storeAll stores = (n, none)) (i : Instruction) (after : Processor)
    (flow : Flow) :
    commit i (.change stores after flow) c =
      (.ok ⟨i.cycles, flow.wraps c.processor.pc i.length⟩,
        ⟨{ after with pc := flow.target c.processor.pc i.length }, n, c.bus⟩) := by
  rcases c with ⟨p, memory, bus⟩
  replace h : memory.storeAll stores = (n, none) := h
  simp only [commit, h]

theorem commit_change_refused {stores : List Store} {c : Computer β} {n : Memory}
    {address : UInt16} (h : c.memory.storeAll stores = (n, some address)) (i : Instruction)
    (after : Processor) (flow : Flow) :
    commit i (.change stores after flow) c =
      (.error (.romWrite address), { c with memory := n }) := by
  rcases c with ⟨p, memory, bus⟩
  replace h : memory.storeAll stores = (n, some address) := h
  simp only [commit, h]

/-- An instruction whose stores stay out of the ROM is carried out. -/
theorem execute_change {c : Computer β} {i : Instruction} {stores : List Store}
    {after : Processor} {flow : Flow} (hi : c.instruction? = some i)
    (he : i.effect c.processor c.memory.read = .change stores after flow)
    (h : ∀ s ∈ stores, ¬ s.address < c.memory.romBoundary) :
    c.execute = (.ok i.cycles, ⟨{ after with pc := flow.target c.processor.pc i.length },
      stores.foldl Memory.put c.memory, c.bus⟩) := by
  have hs := step_of_instruction? hi
  rw [he, commit_change (Memory.storeAll_open h)] at hs
  exact execute_of_step hs

/-- The instruction is carried out: it is charged, and execution goes on after it. -/
def Completes (i : Instruction) (c d : Computer β) : Prop :=
  c.execute = (.ok i.cycles, d) ∧ d.processor.pc = c.processor.pc + i.length

/-- An instruction that stores anything does nothing to memory but carry out its stores. -/
theorem step_of_stores {c : Computer β} (h : c.stores ≠ []) :
    ∃ i after flow, c.step = commit i (.change c.stores after flow) c := by
  unfold stores at h ⊢
  cases hi : c.instruction? with
  | none =>
    rw [hi] at h
    exact absurd rfl h
  | some i =>
    rw [hi] at h
    obtain ⟨after, flow, he⟩ := Instruction.effect_of_stores h
    refine ⟨i, after, flow, ?_⟩
    rw [step_of_instruction? hi, he]

theorem execute_of_stores_accepted {c : Computer β} {n : Memory} (hne : c.stores ≠ [])
    (h : c.memory.storeAll c.stores = (n, none)) :
    ∃ cycles d, c.execute = (.ok cycles, d) ∧ d.memory = n := by
  obtain ⟨i, after, flow, hs⟩ := step_of_stores hne
  rw [commit_change h] at hs
  exact ⟨_, _, execute_of_step hs, rfl⟩

/-- The first refused store is the fault. -/
theorem execute_of_stores_refused {c : Computer β} {n : Memory} {address : UInt16}
    (h : c.memory.storeAll c.stores = (n, some address)) :
    c.execute = (.error (.romWrite address), { c with memory := n }) := by
  have hne : c.stores ≠ [] := by
    intro hn
    rw [hn] at h
    cases h
  obtain ⟨i, after, flow, hs⟩ := step_of_stores hne
  rw [commit_change_refused h] at hs
  exact execute_of_step_error hs

/-! ## Memory -/

theorem commit_memory (i : Instruction) (effect : Effect) (c : Computer β) :
    (commit i effect c).2.memory = (c.memory.storeAll effect.stores).1 := by
  rcases c with ⟨p, memory, bus⟩
  cases effect with
  | change stores after flow =>
    simp only [commit, Effect.stores]
    rcases memory.storeAll stores with ⟨n, _ | address⟩ <;> rfl
  | input port => simp only [commit]; split <;> rfl
  | output port value => simp only [commit]; split <;> rfl
  | unsupported => rfl

/-- Executing reaches memory through its stores only. -/
theorem execute_memory (c : Computer β) :
    c.execute.2.memory = (c.memory.storeAll c.stores).1 := by
  rw [execute_snd]
  unfold step stores
  cases c.instruction? with
  | none => rfl
  | some i => rw [commit_memory, Instruction.stores_effect]

/-! ## The bus -/

theorem commit_bus (i : Instruction) (effect : Effect) (c : Computer β) :
    (commit i effect c).2.bus = c.bus ∨
      (∃ port, (commit i effect c).2.bus = (Bus.input c.bus port).2) ∨
      ∃ port value, (commit i effect c).2.bus = Bus.output c.bus port value := by
  rcases c with ⟨p, memory, bus⟩
  cases effect with
  | change stores after flow =>
    left
    simp only [commit]
    rcases memory.storeAll stores with ⟨n, _ | address⟩ <;> rfl
  | input port =>
    simp only [commit]
    split
    · exact Or.inr (Or.inl ⟨port, rfl⟩)
    · exact Or.inl rfl
  | output port value =>
    simp only [commit]
    split
    · exact Or.inr (Or.inr ⟨port, value, rfl⟩)
    · exact Or.inl rfl
  | unsupported => exact Or.inl rfl

/-- Executing uses the bus once at most. -/
theorem execute_bus (c : Computer β) :
    c.execute.2.bus = c.bus ∨ (∃ port, c.execute.2.bus = (Bus.input c.bus port).2) ∨
      ∃ port value, c.execute.2.bus = Bus.output c.bus port value := by
  rw [execute_snd]
  unfold step
  cases c.instruction? with
  | none => exact Or.inl rfl
  | some i => exact commit_bus i _ c

/-! ## Faults -/

/-- After a fault, either there was nothing to store and nothing has changed, or a
store was refused; then the stores before it have been made. -/
theorem commit_error {i : Instruction} {effect : Effect} {c c' : Computer β} {fault : Fault}
    (h : commit i effect c = (.error fault, c')) :
    (effect.stores = [] ∧ c' = c) ∨ ∃ address n, fault = .romWrite address ∧
      c.memory.storeAll effect.stores = (n, some address) ∧ c' = { c with memory := n } := by
  rcases c with ⟨p, memory, bus⟩
  cases effect with
  | change stores after flow =>
    simp only [commit] at h
    split at h
    · cases h
    next n address hs =>
      cases h
      exact Or.inr ⟨address, n, rfl, hs, rfl⟩
  | input port =>
    simp only [commit] at h
    split at h
    · cases h
    · cases h
      exact Or.inl ⟨rfl, rfl⟩
  | output port value =>
    simp only [commit] at h
    split at h
    · cases h
    · cases h
      exact Or.inl ⟨rfl, rfl⟩
  | unsupported =>
    cases h
    exact Or.inl ⟨rfl, rfl⟩

theorem execute_error {c c' : Computer β} {fault : Fault}
    (h : c.execute = (.error fault, c')) :
    (c.stores = [] ∧ c' = c) ∨ ∃ address n, fault = .romWrite address ∧
      c.memory.storeAll c.stores = (n, some address) ∧ c' = { c with memory := n } := by
  have hs := step_of_execute_error h
  unfold step at hs
  unfold stores
  cases hi : c.instruction? with
  | none =>
    rw [hi] at hs
    cases hs
    exact Or.inl ⟨rfl, rfl⟩
  | some i =>
    rw [hi] at hs
    have he := commit_error hs
    rwa [Instruction.stores_effect] at he

end Execute

/-! ## Interrupts -/

theorem interrupt_bus (vector : UInt8) (c : Computer β) : (c.interrupt vector).2.bus = c.bus := by
  rcases c with ⟨p, memory, bus⟩
  simp only [interrupt]
  split
  · split <;> rfl
  · rfl

/-- An interrupt reaches memory through the push of the program counter only. -/
theorem interrupt_memory (vector : UInt8) (c : Computer β) :
    ∃ stores, (c.interrupt vector).2.memory = (c.memory.storeAll stores).1 := by
  rcases c with ⟨p, memory, bus⟩
  simp only [interrupt]
  split
  · split
    next n hs => exact ⟨_, (congrArg Prod.fst hs).symm⟩
    next n address hs => exact ⟨_, (congrArg Prod.fst hs).symm⟩
  · exact ⟨[], rfl⟩

/-- With the latch set and room on the stack, a request is taken. -/
theorem interrupt_taken {c : Computer β} {n : Memory} (vector : UInt8)
    (hl : c.processor.interruptEnable = true)
    (h : c.memory.storeAll (c.processor.push c.processor.pc).1 = (n, none)) :
    c.interrupt vector = (.ok true, ⟨{ c.processor with
      interruptEnable := false, sp := c.processor.sp - 2, pc := serviceAddress vector },
      n, c.bus⟩) := by
  rcases c with ⟨p, memory, bus⟩
  replace h : memory.storeAll (({ p with interruptEnable := false }).push p.pc).1 = (n, none) := h
  replace hl : p.interruptEnable = true := hl
  simp only [interrupt, hl, if_true, h]
  rfl

/-- A request fails only if the program counter cannot be pushed. The latch is clear then. -/
theorem interrupt_error {vector : UInt8} {c c' : Computer β} {fault : Fault}
    (h : c.interrupt vector = (.error fault, c')) :
    c.processor.interruptEnable = true ∧ ∃ address n, fault = .romWrite address ∧
      c.memory.storeAll (c.processor.push c.processor.pc).1 = (n, some address) ∧
      c' = { c with processor.interruptEnable := false, memory := n } := by
  rcases c with ⟨p, memory, bus⟩
  simp only [interrupt] at h
  split at h
  next hi =>
    split at h
    · cases h
    next n address hs =>
      cases h
      exact ⟨hi, address, n, rfl, hs, rfl⟩
  · cases h

end Arcade8080.Computer
