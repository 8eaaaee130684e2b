import Arcade8080.Execution.Effect

/-!
# What an instruction stores

The stores of each instruction, read off the processor and memory before it. At
most two bytes are stored. Two are stored either downwards, when a word is
pushed, or upwards, when H and L are stored as a word.
-/

namespace Arcade8080

def Effect.stores : Effect → List Store
  | .change stores _ _ => stores
  | _ => []

namespace Instruction

/-- The stores of an instruction in order. -/
def stores (i : Instruction) (p : Processor) (view : View) : List Store :=
  match i with
  | .stax pair => [⟨pair.read p, p.regs.a⟩]
  | .sta => [⟨p.immediateWord view, p.regs.a⟩]
  | .mov .m source => [⟨p.regs.hl, source.read p view⟩]
  | .mvi .m => [⟨p.regs.hl, p.immediate view⟩]
  | .inr .m => [⟨p.regs.hl, view p.regs.hl + 1⟩]
  | .dcr .m => [⟨p.regs.hl, view p.regs.hl - 1⟩]
  | .shld => [⟨p.immediateWord view, p.regs.l⟩, ⟨p.immediateWord view + 1, p.regs.h⟩]
  | .xthl => [⟨p.sp, p.regs.l⟩, ⟨p.sp + 1, p.regs.h⟩]
  | .push pair => (p.push (pair.read p)).1
  | .call => (p.push (p.pc + 3)).1
  | .callIf condition => if condition.holds p.flags then (p.push (p.pc + 3)).1 else []
  | .rst _ => (p.push (p.pc + 1)).1
  | _ => []

theorem stores_effect (i : Instruction) (p : Processor) (view : View) :
    (i.effect p view).stores = i.stores p view := by
  cases i with
  | mov target source => cases target <;> rfl
  | mvi target => cases target <;> rfl
  | inr operand => cases operand <;> rfl
  | dcr operand => cases operand <;> rfl
  | jmpIf condition => simp only [effect, stores]; split <;> rfl
  | callIf condition => simp only [effect, stores]; split <;> rfl
  | retIf condition => simp only [effect, stores]; split <;> rfl
  | _ => rfl

/-- Where an instruction stores, in the order of its stores. -/
def storeAddresses (i : Instruction) (p : Processor) (view : View) : List UInt16 :=
  match i with
  | .stax pair => [pair.read p]
  | .sta => [p.immediateWord view]
  | .mov .m _ | .mvi .m | .inr .m | .dcr .m => [p.regs.hl]
  | .shld => [p.immediateWord view, p.immediateWord view + 1]
  | .xthl => [p.sp, p.sp + 1]
  | .push _ | .call | .rst _ => [p.sp - 1, p.sp - 2]
  | .callIf condition => if condition.holds p.flags then [p.sp - 1, p.sp - 2] else []
  | _ => []

theorem address_stores (i : Instruction) (p : Processor) (view : View) :
    (i.stores p view).map Store.address = i.storeAddresses p view := by
  cases i with
  | mov target source => cases target <;> rfl
  | mvi target => cases target <;> rfl
  | inr operand => cases operand <;> rfl
  | dcr operand => cases operand <;> rfl
  | callIf condition => simp only [stores, storeAddresses]; split <;> rfl
  | _ => rfl

/-- No instruction stores twice to an address. -/
theorem nodup_storeAddresses (i : Instruction) (p : Processor) (view : View) :
    (i.storeAddresses p view).Nodup := by
  have hup (a : UInt16) : [a, a + 1].Nodup := by grind
  have hdown : [p.sp - 1, p.sp - 2].Nodup := by grind
  cases i with
  | mov target source | mvi target | inr target | dcr target =>
    cases target <;> simp [storeAddresses]
  | shld | xthl => exact hup _
  | push | call | rst => exact hdown
  | callIf condition =>
    rw [storeAddresses]
    split
    · exact hdown
    · exact List.nodup_nil
  | _ => simp [storeAddresses]

/-- An instruction that stores anything is a change, and its stores are all of it. -/
theorem effect_of_stores {i : Instruction} {p : Processor} {view : View}
    (h : i.stores p view ≠ []) :
    ∃ after flow, i.effect p view = .change (i.stores p view) after flow := by
  rw [← stores_effect] at h ⊢
  cases he : i.effect p view with
  | change stores after flow => exact ⟨after, flow, rfl⟩
  | input port => rw [he] at h; exact absurd rfl h
  | output port value => rw [he] at h; exact absurd rfl h
  | unsupported => rw [he] at h; exact absurd rfl h

/-- All instructions but three are changes, with their stores. -/
theorem effect_eq_change {i : Instruction} (hh : i ≠ .hlt) (hi : i ≠ .input)
    (ho : i ≠ .output) (p : Processor) (view : View) :
    ∃ after flow, i.effect p view = .change (i.stores p view) after flow := by
  cases i with
  | hlt => exact absurd rfl hh
  | input => exact absurd rfl hi
  | output => exact absurd rfl ho
  | mov target source => cases target <;> exact ⟨_, _, rfl⟩
  | mvi target => cases target <;> exact ⟨_, _, rfl⟩
  | inr operand => cases operand <;> exact ⟨_, _, rfl⟩
  | dcr operand => cases operand <;> exact ⟨_, _, rfl⟩
  | jmpIf condition => simp only [effect, stores]; split <;> exact ⟨_, _, rfl⟩
  | callIf condition => simp only [effect, stores]; split <;> exact ⟨_, _, rfl⟩
  | retIf condition => simp only [effect, stores]; split <;> exact ⟨_, _, rfl⟩
  | _ => exact ⟨_, _, rfl⟩

/-- The word that an instruction pushes, if it pushes one. A conditional call
pushes only when it is made. -/
def pushedWord? (i : Instruction) (p : Processor) : Option UInt16 :=
  match i with
  | .push pair => some (pair.read p)
  | .call => some (p.pc + 3)
  | .callIf condition => if condition.holds p.flags then some (p.pc + 3) else none
  | .rst _ => some (p.pc + 1)
  | _ => none

/-- Where an instruction stores H and L as a word, if it does. -/
def wordAddress? (i : Instruction) (p : Processor) (view : View) : Option UInt16 :=
  match i with
  | .shld => some (p.immediateWord view)
  | .xthl => some p.sp
  | _ => none

theorem stores_of_pushedWord? {i : Instruction} {p : Processor} {word : UInt16}
    (h : i.pushedWord? p = some word) (view : View) :
    i.stores p view = [⟨p.sp - 1, highByte word⟩, ⟨p.sp - 2, lowByte word⟩] := by
  cases i with
  | push pair => cases h; rfl
  | call => cases h; rfl
  | callIf condition =>
    simp only [pushedWord?] at h
    split at h
    next hc =>
      cases h
      simp only [stores, if_pos hc]
      rfl
    · cases h
  | rst n => cases h; rfl
  | _ => cases h

theorem stores_of_wordAddress? {i : Instruction} {p : Processor} {view : View} {a : UInt16}
    (h : i.wordAddress? p view = some a) :
    i.stores p view = [⟨a, p.regs.l⟩, ⟨a + 1, p.regs.h⟩] := by
  cases i with
  | shld => cases h; rfl
  | xthl => cases h; rfl
  | _ => cases h

/-- Any other instruction stores a byte at most. -/
theorem length_stores_le_one {i : Instruction} {p : Processor} {view : View}
    (hp : i.pushedWord? p = none) (hw : i.wordAddress? p view = none) :
    (i.stores p view).length ≤ 1 := by
  cases i with
  | mov target source => cases target <;> simp [stores]
  | mvi target => cases target <;> simp [stores]
  | inr operand => cases operand <;> simp [stores]
  | dcr operand => cases operand <;> simp [stores]
  | shld => cases hw
  | xthl => cases hw
  | push pair => cases hp
  | call => cases hp
  | callIf condition =>
    simp only [pushedWord?] at hp
    split at hp
    · cases hp
    next hc => simp [stores, hc]
  | rst n => cases hp
  | _ => simp [stores]

end Instruction

end Arcade8080
