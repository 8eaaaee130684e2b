import Arcade8080.Board.Ports
import Arcade8080.Proofs.Computer.Monitored
import Arcade8080.Proofs.Computer.Outcome

/-!
# What a fault leaves behind

A faulting instruction leaves processor and bus alone, and memory as well, but
for one byte in one situation: it stores a word, the first byte is accepted and
the second one is not. On the stack that takes a stack pointer just above the
boundary; for a word stored upwards it takes the last address of memory, whose
successor is zero. An interrupt that cannot be taken leaves what a push leaves,
and the latch clear.
-/

namespace Arcade8080

theorem sub_two_eq (w : UInt16) : w - 2 = w - 1 - 1 := by
  have hw := w.toNat_lt
  apply UInt16.toNat_inj.mp
  simp only [UInt16.toNat_sub, UInt16.reduceToNat]
  omega

/-- The byte left behind by a push whose second byte is refused. -/
def Processor.tornPush? (p : Processor) (word boundary : UInt16) : Option Store :=
  if p.sp - 1 = boundary ∧ 0 < boundary then some ⟨p.sp - 1, highByte word⟩ else none

/-- The byte left behind by an instruction whose second byte is refused. -/
def Instruction.tornStore? (i : Instruction) (p : Processor) (view : View)
    (boundary : UInt16) : Option Store :=
  match i.pushedWord? p, i.wordAddress? p view with
  | some word, _ => p.tornPush? word boundary
  | none, some a => if a = 0xFFFF ∧ 0 < boundary then some ⟨a, p.regs.l⟩ else none
  | none, none => none

namespace Memory

/-- Memory with a byte that may have been stored. -/
def putAny (m : Memory) : Option Store → Memory
  | none => m
  | some s => m.put s

theorem programEnd_putAny (m : Memory) (s? : Option Store) :
    (m.putAny s?).programEnd = m.programEnd := by
  cases s? with
  | none => rfl
  | some s => exact programEnd_put m s

theorem storeAll_push_refused {m n : Memory} {p : Processor} {word address : UInt16}
    (h : m.storeAll (p.push word).1 = (n, some address)) :
    n = m.putAny (p.tornPush? word m.romBoundary) := by
  rw [Processor.push, sub_two_eq] at h
  rw [storeAll_down_refused h, Processor.tornPush?]
  split <;> rfl

/-- The memory that is left by refused stores of an instruction. -/
theorem storeAll_instruction_refused {m n : Memory} {i : Instruction} {p : Processor}
    {view : View} {address : UInt16}
    (h : m.storeAll (i.stores p view) = (n, some address)) :
    n = m.putAny (i.tornStore? p view m.romBoundary) := by
  rw [Instruction.tornStore?]
  cases hp : i.pushedWord? p with
  | some word =>
    rw [Instruction.stores_of_pushedWord? hp] at h
    exact storeAll_push_refused h
  | none =>
    cases hw : i.wordAddress? p view with
    | some a =>
      rw [Instruction.stores_of_wordAddress? hw] at h
      rw [storeAll_up_refused h]
      show _ = m.putAny (if a = 0xFFFF ∧ 0 < m.romBoundary then some ⟨a, p.regs.l⟩ else none)
      split <;> rfl
    | none => exact storeAll_short_refused (Instruction.length_stores_le_one hp hw) h

end Memory

/-- A torn byte is the first of two neighbouring ones. -/
theorem Processor.push_of_tornPush? {p : Processor} {word boundary : UInt16} {s : Store}
    (h : p.tornPush? word boundary = some s) :
    ∃ t, (p.push word).1 = [s, t] ∧ t.address ≠ s.address := by
  rw [tornPush?] at h
  split at h
  · cases h
    refine ⟨⟨p.sp - 2, lowByte word⟩, rfl, ?_⟩
    show p.sp - 2 ≠ p.sp - 1
    grind
  · cases h

theorem Instruction.stores_of_tornStore? {i : Instruction} {p : Processor} {view : View}
    {boundary : UInt16} {s : Store} (h : i.tornStore? p view boundary = some s) :
    ∃ t, i.stores p view = [s, t] ∧ t.address ≠ s.address := by
  rw [tornStore?] at h
  cases hp : i.pushedWord? p with
  | some word =>
    rw [hp] at h
    obtain ⟨t, ht, hne⟩ := Processor.push_of_tornPush? h
    exact ⟨t, (stores_of_pushedWord? hp view).trans ht, hne⟩
  | none =>
    cases hw : i.wordAddress? p view with
    | some a =>
      rw [hp, hw] at h
      replace h : (if a = 0xFFFF ∧ 0 < boundary then some ⟨a, p.regs.l⟩ else none) = some s := h
      split at h
      · cases h
        refine ⟨_, stores_of_wordAddress? hw, ?_⟩
        show a + 1 ≠ a
        grind
      · cases h
    | none =>
      rw [hp, hw] at h
      cases h

namespace Computer

variable {β : Type}

/-- The byte that the next instruction would leave behind, were it refused. -/
def tornStore? (c : Computer β) : Option Store :=
  match c.instruction? with
  | some i => i.tornStore? c.processor c.memory.read c.memory.romBoundary
  | none => none

/-- The same computer with all of its memory open to stores. -/
def unprotected (c : Computer β) : Computer β := { c with memory := c.memory.unprotected }

theorem stores_of_tornStore? {c : Computer β} {s : Store} (h : c.tornStore? = some s) :
    ∃ t, c.stores = [s, t] ∧ t.address ≠ s.address := by
  unfold tornStore? at h
  unfold stores
  cases hi : c.instruction? with
  | none =>
    rw [hi] at h
    cases h
  | some i =>
    rw [hi] at h
    exact Instruction.stores_of_tornStore? h

theorem tornStore?_of_stores_nil {c : Computer β} (h : c.stores = []) : c.tornStore? = none := by
  cases ht : c.tornStore? with
  | none => rfl
  | some s =>
    obtain ⟨t, hs, -⟩ := stores_of_tornStore? ht
    rw [h] at hs
    cases hs

theorem storeAll_stores_refused {c : Computer β} {n : Memory} {address : UInt16}
    (h : c.memory.storeAll c.stores = (n, some address)) :
    n = c.memory.putAny c.tornStore? := by
  unfold stores at h
  unfold tornStore?
  cases hi : c.instruction? with
  | none =>
    rw [hi] at h
    cases h
  | some i =>
    rw [hi] at h
    exact Memory.storeAll_instruction_refused h

theorem interrupt_unprotected {c : Computer β} {s t : Store} (vector : UInt8)
    (hl : c.processor.interruptEnable = true)
    (hs : (c.processor.push c.processor.pc).1 = [s, t]) (hne : t.address ≠ s.address) :
    ∃ d, c.unprotected.interrupt vector = (.ok true, d) ∧
      d.memory.read s.address = s.value := by
  obtain ⟨n, hn, hv⟩ := c.memory.storeAll_unprotected_pair hne
  rw [← hs] at hn
  exact ⟨_, interrupt_taken (c := c.unprotected) vector hl hn, hv⟩

variable [Bus β]

theorem execute_unprotected {c : Computer β} {s t : Store} (hs : c.stores = [s, t])
    (hne : t.address ≠ s.address) :
    ∃ cycles d, c.unprotected.execute = (.ok cycles, d) ∧
      d.memory.read s.address = s.value := by
  obtain ⟨n, hn, hv⟩ := c.memory.storeAll_unprotected_pair hne
  have hu : c.unprotected.stores = [s, t] := hs
  rw [← hu] at hn
  have hn' : c.unprotected.stores ≠ [] := by
    rw [hu]
    exact List.cons_ne_nil s [t]
  obtain ⟨cycles, d, he, rfl⟩ := execute_of_stores_accepted hn' hn
  exact ⟨cycles, d, he, hv⟩

theorem execute_error_keeps {c c' : Computer β} {fault : Fault}
    (h : c.execute = (.error fault, c')) :
    c'.processor = c.processor ∧ c'.bus = c.bus := by
  rcases execute_error h with ⟨-, rfl⟩ | ⟨address, n, -, -, rfl⟩
  · exact ⟨rfl, rfl⟩
  · exact ⟨rfl, rfl⟩

theorem execute_error_memory {c c' : Computer β} {fault : Fault}
    (h : c.execute = (.error fault, c')) : c'.memory = c.memory.putAny c.tornStore? := by
  rcases execute_error h with ⟨hs, rfl⟩ | ⟨address, n, -, hr, rfl⟩
  · rw [tornStore?_of_stores_nil hs]
    rfl
  · exact storeAll_stores_refused hr

/-- A fault comes before any access to the bus: a monitor sees none. -/
theorem execute_error_monitored {c c' : Computer β} {fault : Fault}
    (h : c.execute = (.error fault, c')) :
    ∃ d, c.monitored.execute = (.error fault, d) ∧ d.bus.accesses = [] := by
  have hm : c.monitored.execute.1 = .error fault := by rw [execute_monitored, h]
  have he : c.monitored.execute = (.error fault, c.monitored.execute.2) := Prod.ext hm rfl
  refine ⟨_, he, ?_⟩
  rw [(execute_error_keeps he).2]
  rfl

/-- **A fault leaves the computer as it was, but for a torn byte.** Processor, end of
the image and bus are untouched, no port is accessed, and memory is what it was
with the torn byte stored, if there is one. Had nothing been refused, that byte
would have come to hold the same value. A request that fails leaves what a push
of the program counter leaves, and the latch clear. -/
theorem fault_leaves_torn_store (c : Computer β) :
    (∀ fault c', c.execute = (.error fault, c') →
      c'.processor = c.processor ∧ c'.bus = c.bus ∧
        (∃ d, c.monitored.execute = (.error fault, d) ∧ d.bus.accesses = []) ∧
        c'.memory.programEnd = c.memory.programEnd ∧
        c'.memory = c.memory.putAny c.tornStore? ∧
        ∀ s, c.tornStore? = some s → ∃ cycles d, c.unprotected.execute = (.ok cycles, d) ∧
          d.memory.read s.address = s.value) ∧
    ∀ vector fault c', c.interrupt vector = (.error fault, c') →
      c'.processor = { c.processor with interruptEnable := false } ∧ c'.bus = c.bus ∧
        c'.memory.programEnd = c.memory.programEnd ∧
        c'.memory =
          c.memory.putAny (c.processor.tornPush? c.processor.pc c.memory.romBoundary) ∧
        ∀ s, c.processor.tornPush? c.processor.pc c.memory.romBoundary = some s →
          ∃ d, c.unprotected.interrupt vector = (.ok true, d) ∧
            d.memory.read s.address = s.value := by
  constructor
  · intro fault c' h
    obtain ⟨hp, hb⟩ := execute_error_keeps h
    have hm := execute_error_memory h
    refine ⟨hp, hb, execute_error_monitored h, ?_, hm, ?_⟩
    · rw [hm]
      exact Memory.programEnd_putAny _ _
    · intro s hs
      obtain ⟨t, ht, hne⟩ := stores_of_tornStore? hs
      exact execute_unprotected ht hne
  · intro vector fault c' h
    obtain ⟨hl, address, n, -, hr, rfl⟩ := interrupt_error h
    have hm := Memory.storeAll_push_refused hr
    refine ⟨rfl, rfl, ?_, hm, ?_⟩
    · rw [hm]
      exact Memory.programEnd_putAny _ _
    · intro s hs
      obtain ⟨t, ht, hne⟩ := Processor.push_of_tornPush? hs
      exact interrupt_unprotected vector hl ht hne

/-- With the stack pointer just above the boundary, both `PUSH D` and an interrupt leave
the upper byte of what they push. -/
theorem push_at_boundary_leaves_upper_byte :
    let c : Computer Ports :=
      { processor :=
          { regs := { d := 0x56, e := 0x78 }, sp := 0x2001, pc := 0x1234, interruptEnable := true }
        memory := (Memory.blank 0x2000).put ⟨0x1234, 0xD5⟩
        bus := Ports.idle {} }
    (∃ c', c.execute = (.error (.romWrite 0x1FFF), c') ∧ c'.processor = c.processor ∧
      c'.memory = c.memory.put ⟨0x2000, 0x56⟩) ∧
    ∃ c', c.interrupt 2 = (.error (.romWrite 0x1FFF), c') ∧
      c'.processor.interruptEnable = false ∧ c'.memory = c.memory.put ⟨0x2000, 0x12⟩ := by
  intro c
  constructor
  · have hi : c.instruction? = some (.push .de) := by
      show Instruction.decode? (((Memory.blank 0x2000).put ⟨0x1234, 0xD5⟩).read 0x1234) = _
      rw [Memory.read_put]
      rfl
    have ht : c.tornStore? = some ⟨0x2000, 0x56⟩ := by
      unfold tornStore?
      rw [hi]
      decide
    have hs : c.stores = [⟨0x2000, 0x56⟩, ⟨0x1FFF, 0x78⟩] := by
      unfold stores
      rw [hi]
      decide
    have hr : c.memory.storeAll c.stores = (c.memory.put ⟨0x2000, 0x56⟩, some 0x1FFF) := by
      rw [hs, Memory.storeAll_cons_accepted _ (by decide),
        Memory.storeAll_cons_refused _ (by decide)]
    have he := execute_of_stores_refused hr
    obtain ⟨hp, -, -, -, hm, -⟩ := (fault_leaves_torn_store c).1 _ _ he
    rw [ht] at hm
    exact ⟨_, he, hp, hm⟩
  · have he : c.interrupt 2 = (.error (.romWrite 0x1FFF), (c.interrupt 2).2) := rfl
    have ht : c.processor.tornPush? c.processor.pc c.memory.romBoundary =
        some ⟨0x2000, 0x12⟩ := by decide
    obtain ⟨hp, -, -, hm, -⟩ := (fault_leaves_torn_store c).2 _ _ _ he
    rw [ht] at hm
    exact ⟨(c.interrupt 2).2, he, congrArg Processor.interruptEnable hp, hm⟩

end Computer

end Arcade8080
