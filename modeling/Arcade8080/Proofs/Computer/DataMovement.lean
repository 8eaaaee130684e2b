import Arcade8080.Proofs.Computer.Footprint
import Arcade8080.Proofs.Computer.WideArithmetic
import Arcade8080.Proofs.Execution.Moves

/-!
# Instructions that move data

An instruction that moves data ends where its moves, made at once, lead to: every target has
what its source had before the instruction, and everything else is as it was. It makes no
difference which of the places overlap, be it with each other or with the instruction itself.
-/

namespace Arcade8080

variable {β : Type}

namespace Computer

def value (c : Computer β) (place : Place) : UInt8 := place.value c.processor c.memory.read

theorem sp_of_value {c d : Computer β} (hh : c.value .stackHigh = d.value .stackHigh)
    (hl : c.value .stackLow = d.value .stackLow) : c.processor.sp = d.processor.sp := by
  have hh : highByte c.processor.sp = highByte d.processor.sp := hh
  have hl : lowByte c.processor.sp = lowByte d.processor.sp := hl
  rw [← wordOf_bytes c.processor.sp, hh, hl, wordOf_bytes]

/-- A computer is what its places hold, and little more. -/
theorem ext_value {c d : Computer β} (hv : ∀ place, c.value place = d.value place)
    (hpc : c.processor.pc = d.processor.pc)
    (hlatch : c.processor.interruptEnable = d.processor.interruptEnable)
    (hb : c.memory.romBoundary = d.memory.romBoundary)
    (he : c.memory.programEnd = d.memory.programEnd) (hbus : c.bus = d.bus) : c = d := by
  have hregs : c.processor.regs = d.processor.regs :=
    Registers.ext_get fun r => hv (.register r)
  have hsp : c.processor.sp = d.processor.sp := sp_of_value (hv .stackHigh) (hv .stackLow)
  have hflags : c.processor.flags = d.processor.flags := by
    have hpack : c.processor.flags.pack = d.processor.flags.pack := hv .flags
    rw [← Flags.unpack_pack c.processor.flags, hpack, Flags.unpack_pack]
  have hmemory : c.memory = d.memory := Memory.ext (fun address => hv (.memory address)) hb he
  rcases c with ⟨⟨_, _, _, _, _⟩, _, _⟩
  rcases d with ⟨⟨_, _, _, _, _⟩, _, _⟩
  simp only at hregs hsp hpc hflags hlatch hmemory hbus
  rw [hregs, hsp, hpc, hflags, hlatch, hmemory, hbus]

/-- The stores among the moves of `i` stay out of the ROM. -/
def Accepts (c : Computer β) (i : Instruction) : Prop :=
  ∀ address, .memory address ∈ i.targets c.processor c.memory.read →
    ¬ address < c.memory.romBoundary

/-- What is received is there after the change. -/
theorem value_of_receives {place : Place} {v : UInt8} {stores : List Store} {after : Processor}
    (c : Computer β) (h : place.Receives v c.memory.read stores after)
    (hn : (stores.map Store.address).Nodup) (pc : UInt16) (bus : β) :
    value ⟨{ after with pc := pc }, stores.foldl Memory.put c.memory, bus⟩ place =
      place.keep v := by
  cases place with
  | memory address => exact Memory.read_foldl_put_of_mem c.memory hn h
  | _ => exact h

end Computer

/-! ## Moves made at once -/

namespace Instruction

/-- From `c` to `d` the moves of `i` have been made at once, and nothing else has happened but
that the stack has shifted. -/
structure Transfer (i : Instruction) (c d : Computer β) : Prop where
  arrives : ∀ m ∈ i.moves c.processor c.memory.read,
    d.value m.target = m.target.keep (c.value m.source)
  stays : ∀ place ∉ i.targets c.processor c.memory.read, d.value place =
    place.value { c.processor with sp := c.processor.sp + i.stackShift } c.memory.read
  programCounter : d.processor.pc = c.processor.pc + i.length
  latch : d.processor.interruptEnable = c.processor.interruptEnable
  romBoundary : d.memory.romBoundary = c.memory.romBoundary
  programEnd : d.memory.programEnd = c.memory.programEnd
  bus : d.bus = c.bus

variable {i : Instruction} {c d e : Computer β}

/-- There is one computer to which the moves lead. -/
theorem Transfer.unique (h : i.Transfer c d) (h' : i.Transfer c e) : e = d := by
  apply Computer.ext_value
  · intro place
    by_cases hm : place ∈ i.targets c.processor c.memory.read
    · obtain ⟨m, hmove, rfl⟩ := List.mem_map.mp hm
      rw [h'.arrives m hmove, h.arrives m hmove]
    · rw [h'.stays place hm, h.stays place hm]
  · rw [h'.programCounter, h.programCounter]
  · rw [h'.latch, h.latch]
  · rw [h'.romBoundary, h.romBoundary]
  · rw [h'.programEnd, h.programEnd]
  · rw [h'.bus, h.bus]

end Instruction

/-! ## The effect of a move -/

section

variable [Bus β] {i : Instruction} {c d : Computer β}

theorem Instruction.busAfter_of_movesData (h : i.movesData = true) (c : Computer β) :
    i.busAfter c = c.bus := by
  cases i with
  | input | output => cases h
  | _ => rfl

theorem Instruction.transfers_of_movesData (h : i.movesData = true) (f : Flags) :
    i.transfers f = false := by
  cases i with
  | jmp | jmpIf | call | callIf | ret | retIf | rst | pchl => cases h
  | _ => rfl

/-- Where the footprint of an instruction is left and its moves arrive, nothing else happens. -/
theorem Instruction.Footprint.transfer (hf : i.Footprint c d) (h : i.movesData = true)
    (ha : ∀ m ∈ i.moves c.processor c.memory.read,
      d.value m.target = m.target.keep (c.value m.source)) : i.Transfer c d where
  arrives := ha
  stays place hm := by
    by_cases hp : ∃ address, place = .memory address
    · obtain ⟨address, rfl⟩ := hp
      exact hf.memory address fun hs => hm ((memory_mem_targets_iff h).mpr hs)
    · exact hf.processor.value_of_not_mem_targets h hm (fun address he => hp ⟨address, he⟩) _
  programCounter := hf.programCounter (transfers_of_movesData h _)
  latch := hf.processor.latch (by rintro rfl; cases h) (by rintro rfl; cases h)
  romBoundary := hf.romBoundary
  programEnd := hf.programEnd
  bus := hf.bus.trans (busAfter_of_movesData h c)

namespace Computer

/-- The effect of an instruction that moves data is to make its moves at once. -/
theorem commit_transfer (h : i.movesData = true) (ha : c.Accepts i) :
    ∃ completion d, commit i (i.effect c.processor c.memory.read) c = (.ok completion, d) ∧
      completion.cycles = i.cycles ∧ i.Transfer c d := by
  obtain ⟨stores, after, he, hreceives⟩ := Instruction.makes_moves h c.processor c.memory.read
  have hstores : i.stores c.processor c.memory.read = stores := by
    rw [← Instruction.stores_effect, he]
    rfl
  have haddresses : stores.map Store.address = i.storeAddresses c.processor c.memory.read := by
    rw [← hstores, Instruction.address_stores]
  have hopen : ∀ s ∈ stores, ¬ s.address < c.memory.romBoundary := by
    intro s hs
    apply ha
    rw [Instruction.memory_mem_targets_iff h, ← haddresses]
    exact List.mem_map_of_mem hs
  have hnodup : (stores.map Store.address).Nodup := by
    rw [haddresses]
    exact i.nodup_storeAddresses _ _
  have hcommit := commit_change (Memory.storeAll_open hopen) i after .next
  rw [← he] at hcommit
  rw [← hstores] at he
  obtain ⟨-, hf⟩ := commit_change_footprint he (Instruction.busAfter_of_movesData h c) hcommit
  refine ⟨_, _, hcommit, rfl, hf.transfer h fun m hm => ?_⟩
  exact c.value_of_receives (hreceives m hm) hnodup _ _

/-- The stores of an instruction that is carried out have been accepted. -/
theorem accepts_of_execute (hi : c.instruction? = some i) (h : i.movesData = true)
    {cycles : UInt32} (hx : c.execute.1 = .ok cycles) : c.Accepts i := by
  intro address hm hrom
  rw [Instruction.memory_mem_targets_iff h, ← storeAddresses_of_instruction? hi] at hm
  cases hs : c.storeAddresses.find? (· < c.memory.romBoundary) with
  | none => exact List.find?_eq_none.mp hs address hm (decide_eq_true hrom)
  | some refused =>
    have hstops : c.StopsWith (.romWrite refused) := hs
    cases hx.symm.trans (execute_of_stopsWith hstops)

end Computer

end

/-! ## Exchanges -/

namespace Instruction

variable {i : Instruction} {c d e : Computer β}

theorem Transfer.stays_put (h : i.Transfer c d) (hs : i.stackShift = 0) {place : Place}
    (hm : place ∉ i.targets c.processor c.memory.read) : d.value place = c.value place := by
  have hv := h.stays place hm
  rwa [hs, UInt16.add_zero] at hv

/-- Moves that go both ways bring every byte back when they are made twice. The flags would not
take a whole byte there. -/
theorem Transfer.value_twice (h : i.Transfer c d) (h' : i.Transfer d e) (hs : i.stackShift = 0)
    (hd : i.moves d.processor d.memory.read = i.moves c.processor c.memory.read)
    (hback : ∀ m ∈ i.moves c.processor c.memory.read,
      ⟨m.source, m.target⟩ ∈ i.moves c.processor c.memory.read)
    (hkeep : ∀ m ∈ i.moves c.processor c.memory.read, m.target.keep = id) (place : Place) :
    e.value place = c.value place := by
  have ht : i.targets d.processor d.memory.read = i.targets c.processor c.memory.read := by
    rw [targets, hd, targets]
  by_cases hm : place ∈ i.targets c.processor c.memory.read
  · obtain ⟨m, hmove, rfl⟩ := List.mem_map.mp hm
    have hthere : d.value m.source = m.source.keep (c.value m.target) :=
      h.arrives _ (hback m hmove)
    have hagain : e.value m.target = m.target.keep (d.value m.source) :=
      h'.arrives m (by rwa [hd])
    rw [hagain, hkeep m hmove, hthere, hkeep _ (hback m hmove)]
    rfl
  · rw [h'.stays_put hs (by rwa [ht]), h.stays_put hs hm]

/-- `XCHG` and `XTHL` exchange H and L for another word. -/
theorem moves_exchange (hi : i = .xchg ∨ i = .xthl) (p : Processor) (view : View) :
    ∃ other : WordPlace, other.high.keep = id ∧ other.low.keep = id ∧
      i.moves p view = Pair.hl.place.moves other ++ other.moves Pair.hl.place := by
  rcases hi with rfl | rfl
  · exact ⟨Pair.de.place, rfl, rfl, rfl⟩
  · exact ⟨.memory p.sp, rfl, rfl, rfl⟩

/-- An exchange leaves the places alone that it is between. -/
theorem Transfer.moves_exchange_eq (h : i.Transfer c d) (hi : i = .xchg ∨ i = .xthl) :
    i.moves d.processor d.memory.read = i.moves c.processor c.memory.read := by
  rcases hi with rfl | rfl
  · rfl
  · have hh : Place.stackHigh ∉ xthl.targets c.processor c.memory.read := by
      simp [targets, moves, WordPlace.moves, WordPlace.memory, Pair.place]
    have hl : Place.stackLow ∉ xthl.targets c.processor c.memory.read := by
      simp [targets, moves, WordPlace.moves, WordPlace.memory, Pair.place]
    have hsp : d.processor.sp = c.processor.sp :=
      Computer.sp_of_value (h.stays_put rfl hh) (h.stays_put rfl hl)
    rw [moves, hsp, moves]

/-- Made twice, an exchange is undone, and only the program counter has gone on. -/
theorem Transfer.exchange_twice (h : i.Transfer c d) (h' : i.Transfer d e)
    (hi : i = .xchg ∨ i = .xthl) : e = { c with processor.pc := c.processor.pc + 2 } := by
  obtain ⟨other, hhigh, hlow, hm⟩ := moves_exchange hi c.processor c.memory.read
  have hlength : i.length = 1 := by rcases hi with rfl | rfl <;> rfl
  have hshift : i.stackShift = 0 := by rcases hi with rfl | rfl <;> rfl
  apply Computer.ext_value
  · intro place
    have hv : e.value place = c.value place := by
      apply h.value_twice h' hshift (h.moves_exchange_eq hi)
      · rw [hm]
        simp [WordPlace.moves]
      · have hh : Pair.hl.place.high.keep = id := rfl
        have hl : Pair.hl.place.low.keep = id := rfl
        rw [hm]
        simp [WordPlace.moves, hhigh, hlow, hh, hl]
    rw [hv]
    cases place <;> rfl
  · rw [h'.programCounter, h.programCounter, hlength, UInt16.add_assoc]
    rfl
  · rw [h'.latch, h.latch]
  · rw [h'.romBoundary, h.romBoundary]
  · rw [h'.programEnd, h.programEnd]
  · rw [h'.bus, h.bus]

end Instruction

/-! ## Instructions that move data -/

namespace Computer

variable [Bus β]

/-- The computer with the effect of `i`, whatever stands at the program counter. -/
def apply (i : Instruction) (c : Computer β) : Computer β :=
  (commit i (i.effect c.processor c.memory.read) c).2

theorem transfer_apply {i : Instruction} {c : Computer β} (h : i.movesData = true)
    (ha : c.Accepts i) : i.Transfer c (c.apply i) := by
  obtain ⟨completion, d, hd, -, ht⟩ := commit_transfer h ha
  rwa [apply, hd]

/-- An instruction that moves data is carried out if its stores are accepted. -/
theorem completes_apply {i : Instruction} {c : Computer β} (hi : c.instruction? = some i)
    (h : i.movesData = true) (ha : c.Accepts i) : c.Completes i (c.apply i) := by
  obtain ⟨completion, d, hd, hcycles, ht⟩ := commit_transfer h ha
  have happly : c.apply i = d := congrArg Prod.snd hd
  rw [happly]
  refine ⟨?_, ht.programCounter⟩
  rw [← hcycles]
  exact execute_of_step ((step_of_instruction? hi).trans hd)

/-- **Moves are made at once.** An instruction that moves data is carried out exactly if the ROM
has no part in it as a target. It then leads to the one computer in which every target holds
what its source held before the instruction, and everything else is as it was. So an exchange
with H and L that is made twice is undone. -/
theorem moves_made_at_once (c : Computer β) :
    (∀ i, c.instruction? = some i → i.movesData = true →
      (c.execute.1 = .ok i.cycles ↔ c.Accepts i) ∧
      (c.Accepts i → ∃ d, c.Completes i d ∧ i.Transfer c d ∧ ∀ e, i.Transfer c e → e = d)) ∧
    ∀ i, i = .xchg ∨ i = .xthl → c.Accepts i →
      (c.instruction? = some i → c.Completes i (c.apply i)) ∧
      (c.apply i).apply i = { c with processor.pc := c.processor.pc + 2 } := by
  refine ⟨?_, ?_⟩
  · intro i hi h
    have hx (ha : c.Accepts i) : c.execute.1 = .ok i.cycles :=
      congrArg Prod.fst (completes_apply hi h ha).1
    refine ⟨⟨accepts_of_execute hi h, hx⟩, fun ha => ?_⟩
    exact ⟨_, completes_apply hi h ha, transfer_apply h ha,
      fun e he => (transfer_apply h ha).unique he⟩
  · intro i hi ha
    have h : i.movesData = true := by rcases hi with rfl | rfl <;> rfl
    have ht := transfer_apply h ha
    have ha' : (c.apply i).Accepts i := by
      rw [Accepts, Instruction.targets, ht.moves_exchange_eq hi, ht.romBoundary]
      exact ha
    exact ⟨fun hnext => completes_apply hnext h ha, ht.exchange_twice (transfer_apply h ha') hi⟩

/-- A computer about to execute an `XTHL` at address zero, with the last byte of memory on top
of the stack and the `XTHL` under it. -/
def crossing : Computer Ports :=
  { bench [0xE3] 0 0 0 (0, {}) with
    processor := { regs := { h := 0x12, l := 0x34 }, sp := 0xFFFF } }

theorem read_crossing (address : UInt16) :
    crossing.memory.read address = ([(0xE3 : UInt8)][address.toNat]?).getD 0 := by
  show (bench [0xE3] 0 0 0 (0, {})).memory.read address = _
  exact read_bench (by decide) address

theorem moves_crossing : Instruction.xthl.moves crossing.processor crossing.memory.read =
    [⟨.register .h, .memory 0⟩, ⟨.register .l, .memory 0xFFFF⟩,
      ⟨.memory 0, .register .h⟩, ⟨.memory 0xFFFF, .register .l⟩] := by
  decide

theorem moves_overwriting : Instruction.shld.moves overwriting.processor overwriting.memory.read =
    [⟨.memory 0x2401, .register .h⟩, ⟨.memory 0x2400, .register .l⟩] := by
  have hword : overwriting.processor.immediateWord overwriting.memory.read = 0x2400 := by
    show wordOf (overwriting.memory.read 0x2402) (overwriting.memory.read 0x2401) = _
    rw [read_overwriting, read_overwriting]
    decide
  rw [Instruction.moves, hword]
  rfl

/-- An `XTHL` exchanges H and L for the last byte of memory and for itself. An `SHLD` stores L
and H over itself. -/
theorem moved_over_themselves :
    (∃ d, crossing.Completes .xthl d ∧ d.processor.regs.h = 0xE3 ∧ d.processor.regs.l = 0 ∧
      d.memory.read 0 = 0x12 ∧ d.memory.read 0xFFFF = 0x34) ∧
    ∃ d, overwriting.Completes .shld d ∧ d.memory.read 0x2400 = 0x76 ∧
      d.memory.read 0x2401 = 0xC3 := by
  obtain ⟨hxthl, -⟩ := moves_made_at_once crossing
  obtain ⟨hshld, -⟩ := moves_made_at_once overwriting
  refine ⟨?_, ?_⟩
  · have hi : crossing.instruction? = some .xthl :=
      (congrArg Instruction.decode? (read_crossing 0)).trans (by decide)
    obtain ⟨d, hd, ht, -⟩ := (hxthl .xthl hi rfl).2 fun _ _ => UInt16.not_lt_zero
    have harrives := ht.arrives
    simp only [moves_crossing, List.forall_mem_cons] at harrives
    obtain ⟨hh, hl, hzero, hlast, -⟩ := harrives
    refine ⟨d, hd, hh.trans ?_, hl.trans ?_, hzero, hlast⟩
    · exact (read_crossing 0).trans (by decide)
    · exact (read_crossing 0xFFFF).trans (by decide)
  · have ha : overwriting.Accepts .shld := by
      have hb : overwriting.memory.romBoundary = 0x2000 := rfl
      rw [Accepts, Instruction.targets, moves_overwriting, hb]
      intro address hm
      simp only [List.map_cons, List.map_nil, List.mem_cons, List.not_mem_nil, or_false,
        Place.memory.injEq] at hm
      rcases hm with rfl | rfl <;> decide
    obtain ⟨d, hd, ht, -⟩ := (hshld .shld instruction?_overwriting rfl).2 ha
    have harrives := ht.arrives
    simp only [moves_overwriting, List.forall_mem_cons] at harrives
    obtain ⟨hhigh, hlow, -⟩ := harrives
    exact ⟨d, hd, hlow, hhigh⟩

end Computer

end Arcade8080
