import Arcade8080.Computer.Interrupt
import Arcade8080.Proofs.Computer.Outcome

/-!
# Pushing and popping

Whatever uses the stack does so by pushing or popping a word. Both are given here as
operations of a computer by themselves, with what they leave behind. Instructions that
push, call or return, and interrupts that are taken, are one such operation each, followed
by what they do to the program counter and the registers.
-/

namespace Arcade8080.Computer

variable {β : Type}

/-- Stores `high` just below the stack pointer and `low` below `high`. -/
def push (high low : UInt8) (c : Computer β) : Except Fault Unit × Computer β :=
  match c.store [⟨c.processor.sp - 1, high⟩, ⟨c.processor.sp - 2, low⟩] with
  | (.ok (), c) => (.ok (), { c with processor.sp := c.processor.sp - 2 })
  | (.error fault, c) => (.error fault, c)

def pushWord (word : UInt16) (c : Computer β) : Except Fault Unit × Computer β :=
  c.push (highByte word) (lowByte word)

/-- The two bytes on top of the stack, the upper one first, and the computer without them. -/
def pop (c : Computer β) : (UInt8 × UInt8) × Computer β :=
  let sp := c.processor.sp
  ((c.memory.read (sp + 1), c.memory.read sp), { c with processor.sp := sp + 2 })

def popWord (c : Computer β) : UInt16 × Computer β :=
  let ((high, low), c) := c.pop
  (wordOf high low, c)

/-- A word is pushed as the processor says. -/
theorem pushWord_eq (word : UInt16) (c : Computer β) :
    c.pushWord word = match c.store (c.processor.push word).1 with
      | (.ok (), d) => (.ok (), { d with processor.sp := (c.processor.push word).2.sp })
      | (.error fault, d) => (.error fault, d) := by
  rcases c with ⟨p, memory, bus⟩
  simp only [pushWord, push, store, Processor.push]
  rcases memory.storeAll [⟨p.sp - 1, highByte word⟩, ⟨p.sp - 2, lowByte word⟩] with
    ⟨n, _ | address⟩
  · rfl
  · rfl

theorem popWord_eq (c : Computer β) :
    c.popWord = ((c.processor.pop c.memory.read).1,
      { c with processor := (c.processor.pop c.memory.read).2 }) := rfl

/-- From `c` to `d`, two bytes have been pushed and nothing else has happened. -/
structure Pushed (high low : UInt8) (c d : Computer β) : Prop where
  processor : d.processor = { c.processor with sp := c.processor.sp - 2 }
  upper : d.memory.read (c.processor.sp - 1) = high
  lower : d.memory.read (c.processor.sp - 2) = low
  elsewhere : ∀ a, a ≠ c.processor.sp - 1 → a ≠ c.processor.sp - 2 →
    d.memory.read a = c.memory.read a
  romBoundary : d.memory.romBoundary = c.memory.romBoundary
  programEnd : d.memory.programEnd = c.memory.programEnd
  bus : d.bus = c.bus

theorem store_accepted {c d : Computer β} {stores : List Store}
    (h : c.store stores = (.ok (), d)) :
    d = { c with memory := stores.foldl Memory.put c.memory } := by
  rcases c with ⟨p, memory, bus⟩
  simp only [store] at h
  split at h
  next n hs =>
    cases h
    rw [Memory.storeAll_accepted hs]
  · cases h

theorem pushed_of_push {c d : Computer β} {high low : UInt8}
    (h : c.push high low = (.ok (), d)) : Pushed high low c d := by
  unfold push at h
  split at h
  next e hs =>
    cases h
    rw [store_accepted hs]
    have hne : c.processor.sp - 2 ≠ c.processor.sp - 1 := by grind
    constructor
    · rfl
    · show ((c.memory.put _).put _).read _ = high
      rw [Memory.read_put, if_neg hne, Memory.read_put, if_pos rfl]
    · show ((c.memory.put _).put _).read _ = low
      rw [Memory.read_put, if_pos rfl]
    · intro a hu hl
      show ((c.memory.put _).put _).read a = c.memory.read a
      rw [Memory.read_put, if_neg (Ne.symm hl), Memory.read_put, if_neg (Ne.symm hu)]
    · rfl
    · rfl
    · rfl
  · cases h

/-- A push above the ROM succeeds. -/
theorem push_accepted (high low : UInt8) {c : Computer β}
    (hu : ¬ c.processor.sp - 1 < c.memory.romBoundary)
    (hl : ¬ c.processor.sp - 2 < c.memory.romBoundary) :
    ∃ d, c.push high low = (.ok (), d) := by
  have hs : c.memory.storeAll [⟨c.processor.sp - 1, high⟩, ⟨c.processor.sp - 2, low⟩] =
      ((c.memory.put ⟨c.processor.sp - 1, high⟩).put ⟨c.processor.sp - 2, low⟩, none) := by
    rw [Memory.storeAll_cons_accepted _ hu, Memory.storeAll_cons_accepted _ hl]
    rfl
  rcases c with ⟨p, memory, bus⟩
  simp only [push, store, hs]
  exact ⟨_, rfl⟩

theorem popWord_of_bytes {c : Computer β} {s word : UInt16} (hsp : c.processor.sp = s - 2)
    (hu : c.memory.read (s - 1) = highByte word) (hl : c.memory.read (s - 2) = lowByte word) :
    c.popWord = (word, { c with processor.sp := s }) := by
  have hup : s - 2 + 1 = s - 1 := by grind
  have hs : s - 2 + 2 = s := by grind
  rw [popWord, pop, hsp, hup, hs, hu, hl]
  exact Prod.ext (wordOf_bytes word) rfl

/-! ## What uses the stack -/

/-- An interrupt that is taken pushes the program counter, with the latch already clear. -/
theorem interrupt_eq_pushWord (vector : UInt8) (c : Computer β) :
    c.interrupt vector =
      if c.processor.interruptEnable then
        match pushWord c.processor.pc { c with processor.interruptEnable := false } with
        | (.ok (), d) => (.ok true, { d with processor.pc := serviceAddress vector })
        | (.error fault, d) => (.error fault, d)
      else (.ok false, c) := by
  rcases c with ⟨p, memory, bus⟩
  simp only [interrupt, pushWord, push, store, Processor.push]
  split
  · rcases memory.storeAll [⟨p.sp - 1, highByte p.pc⟩, ⟨p.sp - 2, lowByte p.pc⟩] with
      ⟨n, _ | address⟩
    · rfl
    · rfl
  · rfl

section Instructions

variable [Bus β] {c : Computer β} {i : Instruction}

theorem commit_push (word : UInt16) (flow : Flow) :
    commit i (.change (c.processor.push word).1 (c.processor.push word).2 flow) c =
      match c.pushWord word with
      | (.ok (), d) =>
        (.ok ⟨i.cycles, flow.wraps c.processor.pc i.length⟩,
          { d with processor.pc := flow.target c.processor.pc i.length })
      | (.error fault, d) => (.error fault, d) := by
  rw [pushWord_eq]
  rcases c with ⟨p, memory, bus⟩
  simp only [commit, store]
  rcases memory.storeAll (p.push word).1 with ⟨n, _ | address⟩
  · rfl
  · rfl

/-- An instruction whose effect is a push does the push, and then goes on where it says. -/
theorem execute_eq_pushWord {word : UInt16} {flow : Flow} (hi : c.instruction? = some i)
    (he : i.effect c.processor c.memory.read =
      .change (c.processor.push word).1 (c.processor.push word).2 flow) :
    c.execute = match c.pushWord word with
      | (.ok (), d) =>
        (.ok i.cycles, { d with processor.pc := flow.target c.processor.pc i.length })
      | (.error fault, d) => (.error fault, d) := by
  have hs := step_of_instruction? hi
  rw [he, commit_push] at hs
  rcases hp : c.pushWord word with ⟨fault | ⟨⟩, d⟩
  · rw [hp] at hs
    exact execute_of_step_error hs
  · rw [hp] at hs
    exact execute_of_step hs

/-- An instruction that pushes and succeeds does nothing else but go on where it says. -/
theorem pushed_of_execute {word : UInt16} {flow : Flow} {cycles : UInt32} {d : Computer β}
    (hi : c.instruction? = some i)
    (he : i.effect c.processor c.memory.read =
      .change (c.processor.push word).1 (c.processor.push word).2 flow)
    (h : c.execute = (.ok cycles, d)) :
    ∃ e, Pushed (highByte word) (lowByte word) c e ∧
      d = { e with processor.pc := flow.target c.processor.pc i.length } := by
  rw [execute_eq_pushWord hi he] at h
  split at h
  next e hpush =>
    cases h
    exact ⟨e, pushed_of_push hpush, rfl⟩
  · cases h

/-- A return that is made pops the address at which it goes on. -/
theorem execute_ret (hi : c.instruction? = some i)
    (he : i.effect c.processor c.memory.read = .ret c.processor c.memory.read) :
    c.execute = (.ok i.cycles, { c.popWord.2 with processor.pc := c.popWord.1 }) := by
  have hs := step_of_instruction? hi
  rw [he] at hs
  rw [popWord_eq]
  exact execute_of_step hs

theorem execute_pop {pair : StackPair} (hi : c.instruction? = some (.pop pair)) :
    c.execute = (.ok 10, { c.popWord.2 with
      processor := { pair.write c.popWord.2.processor c.popWord.1 with
        pc := c.processor.pc + 1 } }) :=
  execute_of_step (step_of_instruction? hi)

end Instructions

end Arcade8080.Computer
