import Arcade8080.Board.Ports
import Arcade8080.Proofs.Computer.Faults
import Arcade8080.Proofs.Execution.Reads
import Mathlib.Data.List.TakeWhile

/-!
# Execution depends on what it reads

Two computers with the same processor, the same bus and the same boundary may have
different memories. As long as these agree in the bytes that the next instruction
takes up and in those that it reads as data, both computers come to the same
result, and their memories agree again wherever they did before and wherever the
instruction has stored. Nothing is said of how a run goes on: the next instruction
may read elsewhere.
-/

namespace Arcade8080

/-- Memories under the same boundary with the same bytes at the addresses in `P`. -/
structure Memory.AgreeOn (P : UInt16 → Prop) (m n : Memory) : Prop where
  romBoundary : m.romBoundary = n.romBoundary
  bytes : ∀ address, P address → m.read address = n.read address

namespace Memory.AgreeOn

variable {P Q : UInt16 → Prop} {m n : Memory}

theorem mono (h : AgreeOn P m n) (hq : ∀ address, Q address → P address) : AgreeOn Q m n :=
  ⟨h.romBoundary, fun address ha => h.bytes address (hq address ha)⟩

theorem put (h : AgreeOn P m n) (s : Store) :
    AgreeOn (fun a => P a ∨ a = s.address) (m.put s) (n.put s) := by
  refine ⟨h.romBoundary, fun address ha => ?_⟩
  rw [read_put, read_put]
  split
  · rfl
  next hne => exact h.bytes address (ha.resolve_right (Ne.symm hne))

/-- The same store is refused in both, and those before it have made both agree. -/
theorem storeAll (h : AgreeOn P m n) (stores : List Store) :
    (m.storeAll stores).2 = (n.storeAll stores).2 ∧
      AgreeOn (fun a => P a ∨ a ∈ (stores.map Store.address).takeWhile (m.romBoundary ≤ ·))
        (m.storeAll stores).1 (n.storeAll stores).1 := by
  induction stores generalizing P m n with
  | nil => exact ⟨rfl, h.mono fun a ha => ha.resolve_right List.not_mem_nil⟩
  | cons s rest ih =>
    rw [List.map_cons]
    by_cases hs : s.address < m.romBoundary
    · have hs' : s.address < n.romBoundary := h.romBoundary ▸ hs
      have hle : decide (m.romBoundary ≤ s.address) = false := by
        simpa using hs
      rw [storeAll_cons_refused rest hs, storeAll_cons_refused rest hs',
        List.takeWhile_cons, hle]
      exact ⟨rfl, h.mono fun a ha => ha.resolve_right List.not_mem_nil⟩
    · have hs' : ¬ s.address < n.romBoundary := h.romBoundary ▸ hs
      have hle : decide (m.romBoundary ≤ s.address) = true := by
        simpa using hs
      rw [storeAll_cons_accepted rest hs, storeAll_cons_accepted rest hs',
        List.takeWhile_cons, hle]
      obtain ⟨hr, ha⟩ := ih (h.put s)
      refine ⟨hr, ha.mono fun a hm => ?_⟩
      rcases hm with hp | hm
      · exact Or.inl (Or.inl hp)
      · rcases List.mem_cons.mp hm with he | hm
        · exact Or.inl (Or.inr he)
        · exact Or.inr hm

end Memory.AgreeOn

namespace Computer

variable {β : Type}

/-- Where the next instruction reads: its own bytes and its data. -/
def readAddresses (c : Computer β) : List UInt16 :=
  match c.instruction? with
  | some i => i.fetchAddresses c.processor ++ i.dataAddresses c.processor c.memory.read
  | none => [c.processor.pc]

/-- Where the stores of the next instruction reach memory: up to the first refused one. -/
def writtenAddresses (c : Computer β) : List UInt16 :=
  c.storeAddresses.takeWhile (c.memory.romBoundary ≤ ·)

/-- The same processor and bus, and memories that agree at the addresses in `P`. -/
structure AgreeOn (P : UInt16 → Prop) (c d : Computer β) : Prop where
  processor : c.processor = d.processor
  bus : c.bus = d.bus
  memory : c.memory.AgreeOn P d.memory

theorem mem_readAddresses_pc (c : Computer β) : c.processor.pc ∈ c.readAddresses := by
  unfold readAddresses
  cases c.instruction? with
  | none => exact List.mem_cons_self
  | some i => exact List.mem_append_left _ (i.mem_fetchAddresses_pc c.processor)

theorem readAddresses_of_instruction? {c : Computer β} {i : Instruction}
    (h : c.instruction? = some i) : c.readAddresses =
      i.fetchAddresses c.processor ++ i.dataAddresses c.processor c.memory.read := by
  unfold readAddresses
  rw [h]

variable [Bus β] {P : UInt16 → Prop} {c d : Computer β}

theorem AgreeOn.commit (h : AgreeOn P c d) (i : Instruction) (effect : Effect) :
    (commit i effect c).1 = (commit i effect d).1 ∧
      AgreeOn (fun a => P a ∨
          a ∈ (effect.stores.map Store.address).takeWhile (c.memory.romBoundary ≤ ·))
        (commit i effect c).2 (commit i effect d).2 := by
  rcases c with ⟨p, m, bus⟩
  rcases d with ⟨q, n, bus'⟩
  obtain ⟨hp, hb, hm⟩ := h
  replace hp : p = q := hp
  replace hb : bus = bus' := hb
  replace hm : m.AgreeOn P n := hm
  subst hp hb
  -- Only a change has stores; the others leave both memories as they are.
  have hkept : m.AgreeOn (fun a => P a ∨
      a ∈ ([].map Store.address).takeWhile (m.romBoundary ≤ ·)) n :=
    hm.mono fun a ha => ha.resolve_right List.not_mem_nil
  cases effect with
  | change stores after flow =>
    obtain ⟨hr, ha⟩ := hm.storeAll stores
    simp only [Computer.commit, Effect.stores]
    rcases hs : m.storeAll stores with ⟨m', refused⟩
    rcases hs' : n.storeAll stores with ⟨n', refused'⟩
    rw [hs, hs'] at hr ha
    cases hr
    cases refused with
    | none => exact ⟨rfl, rfl, rfl, ha⟩
    | some address => exact ⟨rfl, rfl, rfl, ha⟩
  | input port =>
    simp only [Computer.commit]
    split
    · exact ⟨rfl, rfl, rfl, hkept⟩
    · exact ⟨rfl, rfl, rfl, hkept⟩
  | output port value =>
    simp only [Computer.commit]
    split
    · exact ⟨rfl, rfl, rfl, hkept⟩
    · exact ⟨rfl, rfl, rfl, hkept⟩
  | unsupported => exact ⟨rfl, rfl, rfl, hkept⟩

theorem AgreeOn.step (h : AgreeOn P c d) (hr : ∀ a ∈ c.readAddresses, P a) :
    c.step.1 = d.step.1 ∧
      AgreeOn (fun a => P a ∨ a ∈ c.writtenAddresses) c.step.2 d.step.2 := by
  have hpc := h.memory.bytes _ (hr _ c.mem_readAddresses_pc)
  have hi : c.instruction? = d.instruction? := by
    unfold instruction?
    rw [← h.processor, hpc]
  cases hc : c.instruction? with
  | none =>
    have hd := hi.symm.trans hc
    simp only [Computer.step, hc, hd]
    refine ⟨?_, h.processor, h.bus, h.memory.mono fun a ha => ha.resolve_right ?_⟩
    · rw [← h.processor, hpc]
    · simp only [writtenAddresses, storeAddresses, hc]
      exact List.not_mem_nil
  | some i =>
    have hd := hi.symm.trans hc
    rw [readAddresses_of_instruction? hc] at hr
    have he : i.effect c.processor c.memory.read = i.effect d.processor d.memory.read := by
      rw [← h.processor]
      exact Instruction.effect_congr
        (fun a ha => h.memory.bytes a (hr a (List.mem_append_left _ ha)))
        (fun a ha => h.memory.bytes a (hr a (List.mem_append_right _ ha)))
    have hw : c.writtenAddresses =
        ((i.effect c.processor c.memory.read).stores.map Store.address).takeWhile
          (c.memory.romBoundary ≤ ·) := by
      rw [Instruction.stores_effect, Instruction.address_stores, writtenAddresses,
        storeAddresses_of_instruction? hc]
    rw [step_of_instruction? hc, step_of_instruction? hd, hw, ← he]
    exact h.commit i _

theorem AgreeOn.execute (h : AgreeOn P c d) (hr : ∀ a ∈ c.readAddresses, P a) :
    c.execute.1 = d.execute.1 ∧
      AgreeOn (fun a => P a ∨ a ∈ c.writtenAddresses) c.execute.2 d.execute.2 := by
  obtain ⟨he, h'⟩ := h.step hr
  rw [execute_fst, execute_fst, execute_snd, execute_snd, he]
  exact ⟨rfl, h'⟩

/-- An instruction that is carried out has made all of its stores. -/
theorem writtenAddresses_of_execute {cycles : UInt32} (h : c.execute.1 = .ok cycles) :
    c.writtenAddresses = c.storeAddresses := by
  have hn : (c.memory.storeAll c.stores).2 = none := by
    cases hs : (c.memory.storeAll c.stores).2 with
    | none => rfl
    | some address =>
      rw [execute_of_stores_refused (Prod.ext rfl hs)] at h
      cases h
  rw [storeAll_stores, List.find?_eq_none] at hn
  apply List.takeWhile_eq_self_iff.mpr
  intro a ha
  simpa using hn a ha

/-- **Execution is settled by what it reads.** Computers that agree in processor, bus and
boundary, and in the bytes that the next instruction reads, execute it with the same result.
Processor and bus are equal afterwards, and memory is where the instruction has stored and
where it was equal before. An instruction that succeeds has stored at all of its addresses. -/
theorem execute_agrees (h : AgreeOn (· ∈ c.readAddresses) c d) :
    c.execute.1 = d.execute.1 ∧
      AgreeOn (fun a => c.memory.read a = d.memory.read a ∨ a ∈ c.writtenAddresses)
        c.execute.2 d.execute.2 ∧
      ∀ cycles, c.execute.1 = .ok cycles → c.writtenAddresses = c.storeAddresses := by
  have hagree : AgreeOn (fun a => c.memory.read a = d.memory.read a) c d :=
    ⟨h.processor, h.bus, h.memory.romBoundary, fun _ ha => ha⟩
  obtain ⟨hr, ha⟩ := hagree.execute h.memory.bytes
  exact ⟨hr, ha, fun _ => writtenAddresses_of_execute⟩

/-! ## An instruction across the end of memory -/

/-- An `LHLD` in the last two bytes and the first one. It loads the last byte and the first
one too, which are its own operand. The byte at `0x1234` has nothing to do with it. -/
def straddling (elsewhere : UInt8) : Computer Ports :=
  { processor := { pc := 0xFFFE }
    memory := ((((Memory.blank 0x2000).put ⟨0xFFFE, 0x2A⟩).put ⟨0xFFFF, 0xFF⟩).put ⟨0, 0xFF⟩).put
      ⟨0x1234, elsewhere⟩
    bus := Ports.idle {} }

theorem read_straddling (elsewhere : UInt8) (address : UInt16) :
    (straddling elsewhere).memory.read address =
      if 0x1234 = address then elsewhere else if 0 = address then 0xFF else
        if 0xFFFF = address then 0xFF else if 0xFFFE = address then 0x2A else 0 := by
  simp only [straddling, Memory.read_put, Memory.read_blank]

theorem readAddresses_straddling (elsewhere : UInt8) :
    (straddling elsewhere).readAddresses = [0xFFFE, 0xFFFF, 0, 0xFFFF, 0] := by
  have hp : (straddling elsewhere).processor = { pc := 0xFFFE } := rfl
  have hi : (straddling elsewhere).instruction? = some .lhld := by
    rw [instruction?, hp, read_straddling]
    simpa using show Instruction.decode? 0x2A = some .lhld by decide
  have hw : (straddling elsewhere).processor.immediateWord (straddling elsewhere).memory.read =
      0xFFFF := by
    rw [hp, Processor.immediateWord, View.word, read_straddling, read_straddling]
    simpa using show wordOf 0xFF 0xFF = 0xFFFF by decide
  rw [readAddresses_of_instruction? hi, Instruction.dataAddresses, hw, hp]
  decide

/-- The same words in H and L from memories that differ. -/
theorem straddling_agrees :
    AgreeOn (· ∈ (straddling 1).readAddresses) (straddling 1) (straddling 2) ∧
      (straddling 1).memory.read 0x1234 ≠ (straddling 2).memory.read 0x1234 ∧
      (straddling 1).execute.1 = (straddling 2).execute.1 ∧
      (straddling 1).execute.2.processor = (straddling 2).execute.2.processor := by
  have h : AgreeOn (· ∈ (straddling 1).readAddresses) (straddling 1) (straddling 2) := by
    have hb (elsewhere : UInt8) : (straddling elsewhere).memory.romBoundary = 0x2000 := rfl
    refine ⟨rfl, rfl, (hb 1).trans (hb 2).symm, fun address ha => ?_⟩
    rw [readAddresses_straddling] at ha
    have hne : 0x1234 ≠ address := by
      rintro rfl
      revert ha
      decide
    rw [read_straddling, read_straddling, if_neg hne, if_neg hne]
  obtain ⟨hr, ha, -⟩ := execute_agrees h
  refine ⟨h, ?_, hr, ha.processor⟩
  rw [read_straddling, read_straddling]
  decide

end Computer

end Arcade8080
