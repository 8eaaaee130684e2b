import Arcade8080.Proofs.Execution.Footprint
import Arcade8080.Proofs.Execution.Stores

/-!
# Moving data

Some instructions do nothing but move bytes from places to places. Which ones they move is a
table, read off the processor and memory before the instruction: immediate operands are bytes
of memory in it like any others, and addresses are the old ones. Several moves of one
instruction are made at once, so that none of them sees what another one leaves.
-/

namespace Arcade8080

/-- A place for a byte. The flags are a byte in the layout in which they are pushed. -/
inductive Place
  | register (r : Register)
  | memory (address : UInt16)
  | flags
  | stackHigh
  | stackLow
deriving DecidableEq

namespace Place

def value (place : Place) (p : Processor) (view : View) : UInt8 :=
  match place with
  | .register r => p.regs.get r
  | .memory address => view address
  | .flags => p.flags.pack
  | .stackHigh => highByte p.sp
  | .stackLow => lowByte p.sp

/-- What there is after `v` has been put there. The flags take five bits of it. -/
def keep (place : Place) (v : UInt8) : UInt8 :=
  match place with
  | .flags => (Flags.unpack v).pack
  | _ => v

/-- A change brings `v` to the place: it is stored, or the processor has it afterwards. -/
def Receives (place : Place) (v : UInt8) (view : View) (stores : List Store)
    (after : Processor) : Prop :=
  match place with
  | .memory address => ⟨address, v⟩ ∈ stores
  | place => place.value after view = place.keep v

end Place

structure Move where
  target : Place
  source : Place
deriving DecidableEq

/-- The places of the two bytes of a word. -/
structure WordPlace where
  high : Place
  low : Place

namespace WordPlace

/-- A word in memory has its low byte at the lower address. -/
def memory (address : UInt16) : WordPlace := ⟨.memory (address + 1), .memory address⟩

def value (place : WordPlace) (p : Processor) (view : View) : UInt16 :=
  wordOf (place.high.value p view) (place.low.value p view)

def moves (target source : WordPlace) : List Move :=
  [⟨target.high, source.high⟩, ⟨target.low, source.low⟩]

def places (place : WordPlace) : List Place := [place.high, place.low]

end WordPlace

/-! ## The tables -/

def ByteOperand.place (operand : ByteOperand) (p : Processor) : Place :=
  match operand with
  | .b => .register .b
  | .c => .register .c
  | .d => .register .d
  | .e => .register .e
  | .h => .register .h
  | .l => .register .l
  | .m => .memory p.regs.hl
  | .a => .register .a

def Pair.place : Pair → WordPlace
  | .bc => ⟨.register .b, .register .c⟩
  | .de => ⟨.register .d, .register .e⟩
  | .hl => ⟨.register .h, .register .l⟩
  | .sp => ⟨.stackHigh, .stackLow⟩

def StackPair.place : StackPair → WordPlace
  | .bc => ⟨.register .b, .register .c⟩
  | .de => ⟨.register .d, .register .e⟩
  | .hl => ⟨.register .h, .register .l⟩
  | .psw => ⟨.register .a, .flags⟩

namespace Instruction

/-- Whether an instruction is there to move data. -/
def movesData : Instruction → Bool
  | .mov _ _ | .mvi _ | .lxi _ | .lda | .sta | .ldax _ | .stax _ | .lhld | .shld | .xchg
  | .push _ | .pop _ | .xthl | .sphl => true
  | _ => false

/-- The bytes that an instruction moves. -/
def moves (i : Instruction) (p : Processor) (view : View) : List Move :=
  match i with
  | .mov target source => [⟨target.place p, source.place p⟩]
  | .mvi target => [⟨target.place p, .memory (p.pc + 1)⟩]
  | .lxi pair => pair.place.moves (.memory (p.pc + 1))
  | .lda => [⟨.register .a, .memory (p.immediateWord view)⟩]
  | .sta => [⟨.memory (p.immediateWord view), .register .a⟩]
  | .ldax pair => [⟨.register .a, .memory (pair.read p)⟩]
  | .stax pair => [⟨.memory (pair.read p), .register .a⟩]
  | .lhld => Pair.hl.place.moves (.memory (p.immediateWord view))
  | .shld => (WordPlace.memory (p.immediateWord view)).moves Pair.hl.place
  | .xchg => Pair.hl.place.moves Pair.de.place ++ Pair.de.place.moves Pair.hl.place
  | .push pair => WordPlace.moves ⟨.memory (p.sp - 1), .memory (p.sp - 2)⟩ pair.place
  | .pop pair => pair.place.moves (.memory p.sp)
  | .xthl =>
    Pair.hl.place.moves (.memory p.sp) ++ (WordPlace.memory p.sp).moves Pair.hl.place
  | .sphl => Pair.sp.place.moves Pair.hl.place
  | _ => []

/-- By how much the stack grows or shrinks beside the moves. -/
def stackShift : Instruction → UInt16
  | .push _ => -2
  | .pop _ => 2
  | _ => 0

def targets (i : Instruction) (p : Processor) (view : View) : List Place :=
  (i.moves p view).map Move.target

end Instruction

/-! ## Every effect makes its moves -/

/-- The effect is a change that makes these moves and goes on at the next instruction. -/
def Effect.Makes (effect : Effect) (moves : List Move) (p : Processor) (view : View) : Prop :=
  ∃ stores after, effect = .change stores after .next ∧
    ∀ m ∈ moves, m.target.Receives (m.source.value p view) view stores after

section Receiving

variable {p after : Processor} {view : View} {stores : List Store}

theorem WordPlace.receives_moves {target source : WordPlace} {word : UInt16}
    (hw : source.value p view = word)
    (hh : target.high.Receives (highByte word) view stores after)
    (hl : target.low.Receives (lowByte word) view stores after) :
    ∀ m ∈ target.moves source, m.target.Receives (m.source.value p view) view stores after := by
  subst hw
  rw [value, highByte_wordOf] at hh
  rw [value, lowByte_wordOf] at hl
  exact List.forall_mem_cons.mpr ⟨hh, List.forall_mem_singleton.mpr hl⟩

/-- `SHLD` and `XTHL` store L first. -/
theorem WordPlace.receives_stores (address : UInt16) :
    ∀ m ∈ (WordPlace.memory address).moves Pair.hl.place, m.target.Receives
      (m.source.value p view) view [⟨address, p.regs.l⟩, ⟨address + 1, p.regs.h⟩] after := by
  have hh : (⟨address + 1, p.regs.h⟩ : Store) ∈
      [⟨address, p.regs.l⟩, ⟨address + 1, p.regs.h⟩] := .tail _ (.head _)
  exact List.forall_mem_cons.mpr ⟨hh, List.forall_mem_singleton.mpr (.head _)⟩

theorem ByteOperand.value_place (operand : ByteOperand) (p : Processor) (view : View) :
    (operand.place p).value p view = operand.read p view := by
  cases operand <;> rfl

theorem ByteOperand.makes_assign (operand : ByteOperand) {source : Place} {v : UInt8}
    (hv : source.value p view = v) :
    (operand.assign v p).Makes [⟨operand.place p, source⟩] p view := by
  subst hv
  cases operand with
  | m => exact ⟨_, _, rfl, List.forall_mem_singleton.mpr List.mem_cons_self⟩
  | _ => exact ⟨_, _, rfl, List.forall_mem_singleton.mpr rfl⟩

theorem Pair.makes_write (pair : Pair) {source : WordPlace} {word : UInt16}
    (hw : source.value p view = word) :
    (Effect.update (pair.write p word)).Makes (pair.place.moves source) p view := by
  cases pair <;> exact ⟨_, _, rfl, WordPlace.receives_moves hw rfl rfl⟩

theorem StackPair.makes_write (pair : StackPair) {source : WordPlace} {word : UInt16}
    (hw : source.value p view = word) :
    (Effect.update (pair.write after word)).Makes (pair.place.moves source) p view := by
  cases pair <;> exact ⟨_, _, rfl, WordPlace.receives_moves hw rfl rfl⟩

theorem StackPair.value_place (pair : StackPair) (p : Processor) (view : View) :
    pair.place.value p view = pair.read p := by
  cases pair <;> rfl

end Receiving

namespace Instruction

variable {i : Instruction} {p : Processor} {view : View}

theorem makes_moves (h : i.movesData = true) (p : Processor) (view : View) :
    (i.effect p view).Makes (i.moves p view) p view := by
  cases i with
  | mov target source => exact target.makes_assign (source.value_place p view)
  | mvi target => exact target.makes_assign rfl
  | lxi pair => exact pair.makes_write rfl
  | lda | ldax pair => exact ⟨_, _, rfl, List.forall_mem_singleton.mpr rfl⟩
  | sta | stax pair => exact ⟨_, _, rfl, List.forall_mem_singleton.mpr List.mem_cons_self⟩
  | lhld => exact ⟨_, _, rfl, WordPlace.receives_moves rfl rfl rfl⟩
  | shld => exact ⟨_, _, rfl, WordPlace.receives_stores _⟩
  | xchg =>
    have hde : Pair.de.place.value p view = p.regs.de := rfl
    have hhl : Pair.hl.place.value p view = p.regs.hl := rfl
    refine ⟨_, _, rfl, List.forall_mem_append.mpr ⟨?_, ?_⟩⟩
    · exact WordPlace.receives_moves hde rfl rfl
    · exact WordPlace.receives_moves hhl rfl rfl
  | push pair =>
    exact ⟨_, _, rfl, WordPlace.receives_moves (pair.value_place p view) (.head _)
      (.tail _ (.head _))⟩
  | pop pair => exact pair.makes_write rfl
  | xthl =>
    refine ⟨_, _, rfl, List.forall_mem_append.mpr ⟨?_, WordPlace.receives_stores _⟩⟩
    exact WordPlace.receives_moves rfl rfl rfl
  | sphl => exact ⟨_, _, rfl, WordPlace.receives_moves rfl rfl rfl⟩
  | _ => cases h

end Instruction

/-! ## Nothing changes but the targets -/

section Registers

variable {r : Register}

theorem ByteOperand.place_of_mem {operand : ByteOperand} (hr : r ∈ operand.registers)
    (p : Processor) : operand.place p = .register r := by
  cases operand with
  | m => cases hr
  | _ => rw [List.mem_singleton.mp hr, place]

theorem Pair.register_mem_places {pair : Pair} (hr : r ∈ pair.registers) :
    .register r ∈ pair.place.places := by
  cases pair with
  | sp => cases hr
  | _ => exact List.mem_map_of_mem (f := Place.register) hr

theorem StackPair.register_mem_places {pair : StackPair} (hr : r ∈ pair.registers) :
    .register r ∈ pair.place.places := by
  cases pair with
  | psw => exact List.mem_append_left [.flags] (List.mem_map_of_mem (f := Place.register) hr)
  | _ => exact List.mem_map_of_mem (f := Place.register) hr

end Registers

namespace Instruction

variable {i : Instruction} {p after : Processor} {view : View}

theorem register_mem_targets (h : i.movesData = true) {r : Register} (hr : r ∈ i.destinations)
    (p : Processor) (view : View) : .register r ∈ i.targets p view := by
  cases i with
  | mov target source | mvi target => exact List.mem_singleton.mpr (target.place_of_mem hr p).symm
  | lxi pair | pop pair => exact pair.register_mem_places hr
  | lda | ldax pair => exact List.mem_map_of_mem (f := Place.register) hr
  | lhld => exact Pair.hl.register_mem_places hr
  | xthl => exact List.mem_append_left _ (Pair.hl.register_mem_places hr)
  | xchg =>
    have hr : r ∈ Pair.de.registers ++ Pair.hl.registers := hr
    rcases List.mem_append.mp hr with hr | hr
    · exact List.mem_append_right Pair.hl.place.places (Pair.de.register_mem_places hr)
    · exact List.mem_append_left Pair.de.place.places (Pair.hl.register_mem_places hr)
  | sta | stax pair | shld | push pair | sphl => cases hr
  | _ => cases h

/-- The memory among the targets is what the instruction stores to. -/
theorem memory_mem_targets_iff (h : i.movesData = true) {address : UInt16} :
    .memory address ∈ i.targets p view ↔ address ∈ i.storeAddresses p view := by
  cases i with
  | mov target source | mvi target =>
    cases target <;> simp [targets, moves, ByteOperand.place, storeAddresses]
  | lxi pair => cases pair <;> simp [targets, moves, WordPlace.moves, Pair.place, storeAddresses]
  | pop pair =>
    cases pair <;> simp [targets, moves, WordPlace.moves, StackPair.place, storeAddresses]
  | shld | xthl =>
    simp [targets, moves, WordPlace.moves, WordPlace.memory, Pair.place, storeAddresses, or_comm]
  | lda | ldax pair | sta | stax pair | lhld | xchg | push pair | sphl =>
    simp [targets, moves, WordPlace.moves, Pair.place, storeAddresses]
  | _ => cases h

theorem flagsWritten_of_not_mem_targets (h : i.movesData = true)
    (hf : .flags ∉ i.targets p view) : i.flagsWritten = [] := by
  cases i with
  | pop pair =>
    cases pair with
    | psw => exact absurd (.tail _ (.head _)) hf
    | _ => rfl
  | operate | operateImmediate | daa | inr | dcr | dad | rotate | stc | cmc => cases h
  | _ => rfl

/-- Apart from the moves the stack pointer shifts. -/
theorem stackPointer_of_not_mem_targets (h : i.movesData = true)
    (hs : .stackHigh ∉ i.targets p view ∨ .stackLow ∉ i.targets p view) :
    i.stackPointer p view = p.sp + i.stackShift := by
  cases i with
  | lxi pair =>
    cases pair with
    | sp => exact hs.elim (absurd (.head _)) (absurd (.tail _ (.head _)))
    | _ => exact (UInt16.add_zero _).symm
  | sphl => exact hs.elim (absurd (.head _)) (absurd (.tail _ (.head _)))
  | push pair => exact UInt16.sub_eq_add_neg p.sp 2
  | pop pair => rfl
  | inx | dcx | call | callIf | rst | ret | retIf => cases h
  | _ => exact (UInt16.add_zero _).symm

/-- What is no target stays as it was, in the processor. -/
theorem Frame.value_of_not_mem_targets (hf : i.Frame p view after) (h : i.movesData = true)
    {place : Place} (hm : place ∉ i.targets p view) (hp : ∀ address, place ≠ .memory address)
    (v : View) : place.value after v = place.value { p with sp := p.sp + i.stackShift } view := by
  have hsp := hf.sp
  cases place with
  | register r => exact hf.registers r fun hr => hm (register_mem_targets h hr p view)
  | memory address => exact absurd rfl (hp address)
  | flags =>
    have hflag (f : Flag) : after.flags.get f = p.flags.get f := by
      apply hf.flags
      rw [flagsWritten_of_not_mem_targets h hm]
      exact List.not_mem_nil
    exact congrArg Flags.pack (Flags.ext_get hflag)
  | stackHigh =>
    rw [stackPointer_of_not_mem_targets h (.inl hm)] at hsp
    exact congrArg highByte hsp
  | stackLow =>
    rw [stackPointer_of_not_mem_targets h (.inr hm)] at hsp
    exact congrArg lowByte hsp

end Instruction

end Arcade8080
