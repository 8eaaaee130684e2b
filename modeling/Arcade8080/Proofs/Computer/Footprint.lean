import Arcade8080.Board.Ports
import Arcade8080.Proofs.Computer.Faults
import Arcade8080.Proofs.Computer.Monitored
import Arcade8080.Proofs.Execution.Footprint

/-!
# The footprint of an executed instruction

An instruction that is carried out changes what its tables name and leaves
everything else alone: in the processor, in memory and on the bus. The tables are
those of the instruction that was fetched, also when its stores fall on its own
bytes.
-/

namespace Arcade8080

namespace Instruction

theorem length_storeAddresses_le_two (i : Instruction) (p : Processor) (view : View) :
    (i.storeAddresses p view).length ≤ 2 := by
  cases i with
  | mov target source => cases target <;> simp [storeAddresses]
  | mvi target => cases target <;> simp [storeAddresses]
  | inr operand | dcr operand => cases operand <;> simp [storeAddresses]
  | callIf condition => simp only [storeAddresses]; split <;> simp
  | _ => simp [storeAddresses]

variable {β : Type} [Bus β]

/-- The bus after an instruction. Only the two that use a port have used it, once and at
the port that their operand byte names. -/
def busAfter (i : Instruction) (c : Computer β) : β :=
  match i with
  | .input => (Bus.input c.bus (c.processor.immediate c.memory.read)).2
  | .output => Bus.output c.bus (c.processor.immediate c.memory.read) c.processor.regs.a
  | _ => c.bus

/-- The accesses to the bus that an instruction makes. -/
def accesses (i : Instruction) (c : Computer β) : List Access :=
  match i with
  | .input =>
    let port := c.processor.immediate c.memory.read
    [.input port (Bus.input c.bus port).1]
  | .output => [.output (c.processor.immediate c.memory.read) c.processor.regs.a]
  | _ => []

/-- From `c` to `d` no more has changed than `i` changes. -/
structure Footprint (i : Instruction) (c d : Computer β) : Prop where
  processor : i.Frame c.processor c.memory.read d.processor
  programCounter : i.transfers c.processor.flags = false →
    d.processor.pc = c.processor.pc + i.length
  memory : ∀ address, address ∉ i.storeAddresses c.processor c.memory.read →
    d.memory.read address = c.memory.read address
  romBoundary : d.memory.romBoundary = c.memory.romBoundary
  programEnd : d.memory.programEnd = c.memory.programEnd
  bus : d.bus = i.busAfter c

/-- Whether `i` at this place goes on past the last address without a jump. -/
def runsOver (i : Instruction) (p : Processor) : Bool :=
  !i.transfers p.flags && 65536 ≤ p.pc.toNat + i.length.toNat

end Instruction

namespace Computer

variable {β : Type}

/-- Whether the next instruction goes on past the last address without a jump. -/
def runsOver (c : Computer β) : Bool :=
  match c.instruction? with
  | some i => i.runsOver c.processor
  | none => false

theorem runsOver_of_instruction? {c : Computer β} {i : Instruction}
    (h : c.instruction? = some i) : c.runsOver = i.runsOver c.processor := by
  unfold runsOver
  rw [h]

variable [Bus β]

/-- An instruction other than the three special ones leaves its footprint through its change. -/
theorem commit_change_footprint {i : Instruction} {c d : Computer β} {after : Processor}
    {flow : Flow} {completion : Completion}
    (he : i.effect c.processor c.memory.read =
      .change (i.stores c.processor c.memory.read) after flow)
    (hb : i.busAfter c = c.bus)
    (h : commit i (i.effect c.processor c.memory.read) c = (.ok completion, d)) :
    completion = ⟨i.cycles, i.runsOver c.processor⟩ ∧ i.Footprint c d := by
  have hframe := Instruction.effect_frame he
  have hflow := Instruction.effect_flow he
  rw [he] at h
  have hm := commit_memory i (.change (i.stores c.processor c.memory.read) after flow) c
  rcases hs : c.memory.storeAll (i.stores c.processor c.memory.read) with ⟨n, _ | address⟩
  · rw [commit_change hs] at h
    cases h
    have hn : n = (c.memory.storeAll (i.stores c.processor c.memory.read)).1 := by rw [hs]
    refine ⟨?_, ⟨hframe.registers, hframe.flags, hframe.sp, hframe.latch⟩, ?_, ?_, ?_, ?_, hb.symm⟩
    · congr 1
      cases flow with
      | next => simp [Flow.wraps, Instruction.runsOver, hflow.mp rfl]
      | jump target =>
        have ht : i.transfers c.processor.flags = true := by
          apply Bool.of_not_eq_false
          intro hf
          cases hflow.mpr hf
        simp [Flow.wraps, Instruction.runsOver, ht]
    · intro ht
      rw [hflow.mpr ht]
      rfl
    · intro address ha
      rw [← Instruction.address_stores] at ha
      rw [hn]
      exact c.memory.read_storeAll_of_not_mem ha
    · rw [hn]
      exact (c.memory.sameRom_storeAll _).boundary
    · rw [hn]
      exact c.memory.programEnd_storeAll _
  · rw [commit_change_refused hs] at h
    cases h

theorem step_footprint {i : Instruction} {c d : Computer β} {completion : Completion}
    (hi : c.instruction? = some i) (h : c.step = (.ok completion, d)) :
    completion = ⟨i.cycles, i.runsOver c.processor⟩ ∧ i.Footprint c d := by
  rw [step_of_instruction? hi] at h
  by_cases hh : i = .hlt
  · subst hh
    cases h
  by_cases hp : i = .input
  · subst hp
    rcases c with ⟨p, memory, bus⟩
    simp only [Instruction.effect, commit] at h
    split at h
    · cases h
      exact ⟨rfl, ⟨fun r hr => p.regs.get_withA _ hr, fun _ _ => rfl, rfl, fun _ _ => rfl⟩,
        fun _ => rfl, fun _ _ => rfl, rfl, rfl, rfl⟩
    · cases h
  by_cases ho : i = .output
  · subst ho
    rcases c with ⟨p, memory, bus⟩
    simp only [Instruction.effect, commit] at h
    split at h
    · cases h
      exact ⟨rfl, ⟨fun _ _ => rfl, fun _ _ => rfl, rfl, fun _ _ => rfl⟩,
        fun _ => rfl, fun _ _ => rfl, rfl, rfl, rfl⟩
    · cases h
  obtain ⟨after, flow, he⟩ := Instruction.effect_eq_change hh hp ho c.processor c.memory.read
  refine commit_change_footprint he ?_ h
  unfold Instruction.busAfter
  split
  · exact absurd rfl hp
  · exact absurd rfl ho
  · rfl

theorem step_of_execute {c d : Computer β} {cycles : UInt32} (h : c.execute = (.ok cycles, d)) :
    ∃ completion, c.step = (.ok completion, d) ∧ completion.cycles = cycles := by
  unfold execute at h
  split at h
  next completion _ hs =>
    cases h
    exact ⟨completion, hs, rfl⟩
  · cases h

/-- An instruction whose stores are accepted leaves its footprint. -/
theorem exists_footprint {i : Instruction} {c : Computer β} (hi : c.instruction? = some i)
    (hh : i ≠ .hlt) (hp : ¬ (i = .output ∨ i = .input))
    (hs : c.storeAddresses.find? (· < c.memory.romBoundary) = none) :
    ∃ d, c.execute = (.ok i.cycles, d) ∧ i.Footprint c d := by
  have hx : c.execute = (.ok i.cycles, c.execute.2) := Prod.ext (execute_accepted hi hh hp hs) rfl
  obtain ⟨completion, hstep, -⟩ := step_of_execute hx
  exact ⟨_, hx, (step_footprint hi hstep).2⟩

/-- What a monitor records of an instruction is its accesses. -/
theorem accesses_monitored {i : Instruction} {c d : Computer β} {cycles : UInt32}
    (hi : c.instruction? = some i) (h : c.execute = (.ok cycles, d)) :
    ∃ m, c.monitored.execute = (.ok cycles, m) ∧ m.bus.device = d.bus ∧
      m.bus.accesses = i.accesses c := by
  have hm : c.monitored.execute = (.ok cycles, c.monitored.execute.2) :=
    Prod.ext (by rw [execute_monitored, h]) rfl
  have hi' : c.monitored.instruction? = some i := hi
  obtain ⟨_, hs, -⟩ := step_of_execute h
  obtain ⟨_, hs', -⟩ := step_of_execute hm
  have hb := (step_footprint hi hs).2.bus
  have hb' := (step_footprint hi' hs').2.bus
  refine ⟨_, hm, ?_, ?_⟩
  · rw [hb, hb']
    cases i <;> rfl
  · rw [hb']
    cases i <;> rfl

/-- **An instruction changes what it is there to change.** It costs what was fetched costs,
its stores go to two addresses at most, nothing in the computer changes that its tables do
not name, and on the bus it makes its own accesses and no others. -/
theorem execute_footprint {i : Instruction} {c d : Computer β} {cycles : UInt32}
    (hi : c.instruction? = some i) (h : c.execute = (.ok cycles, d)) :
    cycles = i.cycles ∧ i.Footprint c d ∧
      (i.storeAddresses c.processor c.memory.read).length ≤ 2 ∧
      ∃ m, c.monitored.execute = (.ok cycles, m) ∧ m.bus.device = d.bus ∧
        m.bus.accesses = i.accesses c := by
  obtain ⟨completion, hs, rfl⟩ := step_of_execute h
  obtain ⟨hc, hf⟩ := step_footprint hi hs
  exact ⟨congrArg Completion.cycles hc, hf, i.length_storeAddresses_le_two _ _,
    accesses_monitored hi h⟩

/-! ## A store over the storing instruction -/

/-- A computer about to execute an `SHLD` to the address of that `SHLD`. -/
def overwriting : Computer Ports :=
  { processor := { regs := { h := 0xC3, l := 0x76 }, pc := 0x2400 }
    memory := ((Memory.blank 0x2000).put ⟨0x2400, 0x22⟩).put ⟨0x2402, 0x24⟩
    bus := Ports.idle {} }

theorem read_overwriting (address : UInt16) : overwriting.memory.read address =
    if 0x2402 = address then 0x24 else if 0x2400 = address then 0x22 else 0 := by
  simp only [overwriting, Memory.read_put, Memory.read_blank]

theorem instruction?_overwriting : overwriting.instruction? = some .shld := by
  rw [instruction?_eq_some_iff _ (by decide)]
  exact read_overwriting 0x2400

theorem storeAddresses_overwriting :
    Instruction.shld.storeAddresses overwriting.processor overwriting.memory.read =
      [0x2400, 0x2401] := by
  show [wordOf (overwriting.memory.read 0x2402) (overwriting.memory.read 0x2401),
    wordOf (overwriting.memory.read 0x2402) (overwriting.memory.read 0x2401) + 1] = _
  rw [read_overwriting, read_overwriting]
  decide

/-- An `SHLD` that overwrites itself is charged and passed as an `SHLD`. Its third byte is
none of the two that it stores to. -/
theorem overwriting_passed_as_shld :
    overwriting.instruction? = some .shld ∧ ∃ d, overwriting.execute = (.ok 16, d) ∧
      d.processor.pc = 0x2403 ∧ d.memory.read 0x2402 = 0x24 := by
  have hi := instruction?_overwriting
  have ha := storeAddresses_overwriting
  have hs : overwriting.storeAddresses.find? (· < overwriting.memory.romBoundary) = none := by
    have hb : overwriting.memory.romBoundary = 0x2000 := rfl
    rw [storeAddresses_of_instruction? hi, ha, hb]
    decide
  have hok := execute_accepted hi (by decide) (by decide) hs
  rcases he : overwriting.execute with ⟨r, d⟩
  rw [he] at hok
  subst hok
  obtain ⟨-, hf, -⟩ := execute_footprint hi he
  refine ⟨hi, d, rfl, hf.programCounter rfl, ?_⟩
  rw [hf.memory 0x2402 (by rw [ha]; decide)]
  exact read_overwriting 0x2402

end Computer

end Arcade8080
