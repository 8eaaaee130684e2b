import Arcade8080.Board.Ports
import Arcade8080.Proofs.Computer.Faults
import Arcade8080.Proofs.Computer.Stack
import Arcade8080.Proofs.Execution.Footprint

/-!
# Transfers of control under a condition

A jump, a call or a return under a condition is either made, and then it is the one without a
condition, or passed over. Which of the two it is depends on one flag, and of two conditions that
test the same flag one is met. A transfer that is passed over reads and writes nothing, so it
cannot fail; one that is made can, if it has to push onto the ROM. The cost is the same either
way. An `RST` is a call that differs from `CALL` in its target and in the address it pushes.
-/

namespace Arcade8080

/-- The transfers of control that come both without a condition and under one. -/
inductive Branch
  | jump
  | call
  | ret
deriving DecidableEq

namespace Branch

def always : Branch → Instruction
  | .jump => .jmp
  | .call => .call
  | .ret => .ret

def under (branch : Branch) (condition : Condition) : Instruction :=
  match branch with
  | .jump => .jmpIf condition
  | .call => .callIf condition
  | .ret => .retIf condition

/-- The bytes that a branch takes up, its target included. -/
def size : Branch → UInt16
  | .jump | .call => 3
  | .ret => 1

/-- What a branch under a condition is charged. -/
def charge : Branch → UInt32
  | .jump => 10
  | .call => 17
  | .ret => 11

theorem length_under (branch : Branch) (condition : Condition) :
    (branch.under condition).length = branch.size := by
  cases branch <;> rfl

theorem cycles_under (branch : Branch) (condition : Condition) :
    (branch.under condition).cycles = branch.charge := by
  cases branch <;> rfl

end Branch

/-- The two conditions that test a flag: the one that is met when it is clear, and the one that is
met when it is set. -/
def Flag.conditions? : Flag → Option (Condition × Condition)
  | .zero => some (.notZero, .zero)
  | .carry => some (.notCarry, .carry)
  | .parity => some (.parityOdd, .parityEven)
  | .sign => some (.positive, .negative)
  | .auxCarry => none

theorem Flag.holds_of_conditions? {flag : Flag} {clear set : Condition}
    (h : flag.conditions? = some (clear, set)) (f : Flags) :
    clear.holds f = !f.get flag ∧ set.holds f = f.get flag := by
  cases flag with
  | auxCarry => cases h
  | _ =>
    cases h
    exact ⟨rfl, rfl⟩

namespace Computer

variable {β : Type}

/-! ## Carrying out an instruction -/

/-- Pushes `back` and goes on at `target`. -/
def callTo (back target : UInt16) (c : Computer β) : Except Fault Bool × Computer β :=
  match c.pushWord back with
  | (.ok (), d) => (.ok false, { d with processor.pc := target })
  | (.error fault, d) => (.error fault, d)

/-- The instruction goes on elsewhere than at the one after it. -/
def Takes (i : Instruction) (c : Computer β) : Prop :=
  ∃ stores after target,
    i.effect c.processor c.memory.read = .change stores after (.jump target)

/-- The computer with its program counter moved on, past the last address to the first. -/
def passOver (size : UInt16) (c : Computer β) : Computer β :=
  { c with processor.pc := c.processor.pc + size }

variable [Bus β]

/-- Carries out `i`, whatever stands at the program counter. The answer is whether execution went
on past the last address without a jump. -/
def dispatch (i : Instruction) (c : Computer β) : Except Fault Bool × Computer β :=
  let (r, d) := commit i (i.effect c.processor c.memory.read) c
  (r.map Completion.wrapped, d)

variable {c : Computer β} {i j : Instruction}

/-- Executing is carrying out what stands at the program counter, at the cost of that. -/
theorem execute_eq_dispatch (hi : c.instruction? = some i) :
    c.execute = ((c.dispatch i).1.map fun _ => i.cycles, (c.dispatch i).2) := by
  have hs := step_of_instruction? hi
  rw [dispatch, ← hs]
  rcases hr : c.step with ⟨fault | completion, d⟩
  · exact execute_of_step_error hr
  · rw [hr] at hs
    rw [execute_of_step hr, commit_cycles hs.symm]
    rfl

/-- Where an instruction jumps to, its length plays no part. -/
theorem dispatch_of_jump {stores : List Store} {after : Processor} {target : UInt16}
    (hi : i.effect c.processor c.memory.read = .change stores after (.jump target))
    (hj : j.effect c.processor c.memory.read = .change stores after (.jump target)) :
    c.dispatch i = c.dispatch j := by
  rw [dispatch, dispatch, hi, hj]
  rcases hs : c.memory.storeAll stores with ⟨n, _ | address⟩
  · rw [commit_change hs, commit_change hs]
    rfl
  · rw [commit_change_refused hs, commit_change_refused hs]

/-- An instruction that has no effect is passed over. -/
theorem dispatch_of_update
    (hi : i.effect c.processor c.memory.read = .update c.processor) :
    c.dispatch i = (.ok (Flow.next.wraps c.processor.pc i.length), c.passOver i.length) := by
  rw [dispatch, hi, Effect.update, commit_change (n := c.memory) rfl]
  rfl

theorem dispatch_of_call {back target : UInt16}
    (hi : i.effect c.processor c.memory.read = .call c.processor back target) :
    c.dispatch i = c.callTo back target := by
  have hp : i.effect c.processor c.memory.read =
      .change (c.processor.push back).1 (c.processor.push back).2 (.jump target) := hi
  rw [dispatch, hp, commit_push, callTo]
  rcases c.pushWord back with ⟨fault | ⟨⟩, d⟩
  · rfl
  · rfl

/-! ## Made or passed over -/

omit [Bus β] in
theorem effect_under (branch : Branch) (condition : Condition) :
    (branch.under condition).effect c.processor c.memory.read =
      if condition.holds c.processor.flags then
        branch.always.effect c.processor c.memory.read
      else .update c.processor := by
  cases branch <;> rfl

omit [Bus β] in
theorem effect_always (branch : Branch) : ∃ stores after target,
    branch.always.effect c.processor c.memory.read = .change stores after (.jump target) := by
  cases branch <;> exact ⟨_, _, _, rfl⟩

omit [Bus β] in
theorem takes_under (branch : Branch) (condition : Condition) :
    c.Takes (branch.under condition) ↔ condition.holds c.processor.flags = true := by
  rw [Takes, effect_under]
  split
  next hc => exact iff_of_true (effect_always branch) hc
  next hc =>
    refine iff_of_false ?_ hc
    rintro ⟨stores, after, target, h⟩
    cases h

theorem dispatch_under (branch : Branch) (condition : Condition) :
    c.dispatch (branch.under condition) =
      if condition.holds c.processor.flags then c.dispatch branch.always
      else (.ok (Flow.next.wraps c.processor.pc branch.size), c.passOver branch.size) := by
  have he := effect_under (c := c) branch condition
  split
  next hc =>
    rw [if_pos hc] at he
    obtain ⟨stores, after, target, ha⟩ := effect_always (c := c) branch
    exact dispatch_of_jump (he.trans ha) ha
  next hc =>
    rw [if_neg hc] at he
    rw [dispatch_of_update he, branch.length_under]

/-- **A transfer under a condition is made in full or passed over.** If its condition holds, it
comes to just what the transfer without a condition comes to, faults included. If not, the
program counter moves on by its size and nothing else happens. Executing it costs the same in
both cases. Of the two conditions that test a flag, the value of the flag decides which one lets
transfers be made. An `RST` is a call to eight times its number, from one byte. -/
theorem made_or_passed_over (c : Computer β) :
    (∀ (branch : Branch) (condition : Condition),
      c.dispatch (branch.under condition) =
          (if condition.holds c.processor.flags then c.dispatch branch.always
          else (.ok (Flow.next.wraps c.processor.pc branch.size), c.passOver branch.size)) ∧
        (c.Takes (branch.under condition) ↔ condition.holds c.processor.flags = true) ∧
        (c.instruction? = some (branch.under condition) →
          c.execute = ((c.dispatch (branch.under condition)).1.map fun _ => branch.charge,
            (c.dispatch (branch.under condition)).2))) ∧
      (∀ (flag : Flag) clear set, flag.conditions? = some (clear, set) → ∀ branch : Branch,
        if c.processor.flags.get flag then
          c.Takes (branch.under set) ∧ ¬ c.Takes (branch.under clear)
        else c.Takes (branch.under clear) ∧ ¬ c.Takes (branch.under set)) ∧
      c.dispatch .call =
        c.callTo (c.processor.pc + 3) (c.processor.immediateWord c.memory.read) ∧
      ∀ n : Fin 8, c.dispatch (.rst n) =
        c.callTo (c.processor.pc + 1) (UInt16.ofNat (8 * n.val)) := by
  refine ⟨fun branch condition => ⟨dispatch_under branch condition,
    takes_under branch condition, fun hi => ?_⟩, fun flag clear set h branch => ?_,
    dispatch_of_call rfl, fun n => dispatch_of_call rfl⟩
  · rw [← branch.cycles_under condition]
    exact execute_eq_dispatch hi
  · obtain ⟨hclear, hset⟩ := flag.holds_of_conditions? h c.processor.flags
    rw [takes_under, takes_under, hclear, hset]
    cases c.processor.flags.get flag
    · exact ⟨rfl, Bool.false_ne_true⟩
    · exact ⟨rfl, Bool.false_ne_true⟩

/-! ## A call with the stack in the ROM -/

/-- A computer about to execute a `CNZ` across the end of memory, with the stack in the ROM. -/
def cornered (zero : Bool) : Computer Ports :=
  { processor := { sp := 0x0100, pc := 0xFFFE, flags := { zero := zero } }
    memory := (Memory.blank 0x2000).put ⟨0xFFFE, 0xC4⟩
    bus := Ports.idle {} }

theorem instruction?_cornered (zero : Bool) :
    (cornered zero).instruction? = some (Branch.call.under .notZero) := by
  rw [instruction?_eq_some_iff _ (by decide)]
  show ((Memory.blank 0x2000).put ⟨0xFFFE, 0xC4⟩).read 0xFFFE = _
  rw [Memory.read_put]
  rfl

/-- The call fails if it is to be made, and costs what a call costs if it is passed over. -/
theorem cornered_made_or_passed_over :
    (cornered false).execute = (.error (.romWrite 0x00FF), cornered false) ∧
      (cornered true).execute = (.ok 17, (cornered true).passOver 3) ∧
      ((cornered true).passOver 3).processor.pc = 1 ∧
      (cornered true).Takes (Branch.jump.under .zero) ∧
      ¬ (cornered true).Takes (Branch.jump.under .notZero) := by
  obtain ⟨hmade, -, hcall, -⟩ := made_or_passed_over (cornered false)
  obtain ⟨hpassed, hflag, -⟩ := made_or_passed_over (cornered true)
  obtain ⟨hd, -, hx⟩ := hmade .call .notZero
  obtain ⟨hd', -, hx'⟩ := hpassed .call .notZero
  obtain ⟨htaken, huntaken⟩ := hflag .zero .notZero .zero rfl .jump
  refine ⟨?_, ?_, rfl, htaken, huntaken⟩
  · have hpush : (cornered false).pushWord 1 =
        (.error (.romWrite 0x00FF), cornered false) := rfl
    have hcallTo : (cornered false).dispatch Branch.call.always =
        (.error (.romWrite 0x00FF), cornered false) := by
      show (cornered false).dispatch .call = _
      rw [hcall, show (cornered false).processor.pc + 3 = 1 from rfl, callTo, hpush]
    rw [hx (instruction?_cornered false), hd, if_pos (by decide), hcallTo]
    rfl
  · rw [hx' (instruction?_cornered true), hd', if_neg (by decide)]
    rfl

end Computer

end Arcade8080
