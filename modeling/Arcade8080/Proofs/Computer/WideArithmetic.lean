import Arcade8080.Board.Ports
import Arcade8080.Proofs.Computer.Outcome
import Arcade8080.Proofs.Operation
import Mathlib.Data.Nat.Digits.Defs
import Mathlib.Tactic.LinearCombination

/-!
# Arithmetic on wide numbers

A number of several bytes passes through the accumulator byte by byte. The same routine works
on each column of it: a byte is loaded, and some calculations follow. Within a column anything
may be done in between that leaves the accumulator and the flags alone. From one column to the
next only the carry has to be kept. So what a routine does to a whole number follows from what
it does to one column and its carry.
-/

namespace Arcade8080

/-- An instruction that computes in the accumulator, with the byte that it reads elsewhere. -/
inductive Calculation
  | operate (operation : ByteOperation) (value : UInt8)
  | rotate (rotation : Rotation)
  | adjust
deriving DecidableEq

/-- What is loaded into the accumulator, and what is done with it. -/
structure Routine where
  load : UInt8
  calculations : List Calculation

/-- A byte of each of two numbers, and the byte that comes out. -/
structure Column where
  left : UInt8
  right : UInt8
  result : UInt8

/-- The number with these digits, the lowest one first. -/
def number (base : Nat) (digit : UInt8 → Nat) (bytes : List UInt8) : Nat :=
  Nat.ofDigits base (bytes.map digit)

theorem number_cons (base : Nat) (digit : UInt8 → Nat) (v : UInt8) (bytes : List UInt8) :
    number base digit (v :: bytes) = digit v + base * number base digit bytes := by
  rw [number, List.map_cons, Nat.ofDigits_cons]
  rfl

/-- The accumulator and the flags after a calculation. -/
def Calculation.apply (calculation : Calculation) (s : UInt8 × Flags) : UInt8 × Flags :=
  match calculation with
  | .operate operation value => operation.apply s.2 s.1 value
  | .rotate rotation =>
    let (a, carry) := rotation.apply s.2.carry s.1
    (a, { s.2 with carry := carry })
  | .adjust => Arithmetic.decimalAdjust s.2 s.1

/-- The accumulator and the flags after a routine. -/
def Routine.apply (routine : Routine) (f : Flags) : UInt8 × Flags :=
  routine.calculations.foldl (fun s calculation => calculation.apply s) (routine.load, f)

variable {β : Type}

namespace Computer

/-- The accumulator and the flags. -/
def accumulator (c : Computer β) : UInt8 × Flags := (c.processor.regs.a, c.processor.flags)

def carry (c : Computer β) : Bool := c.processor.flags.carry

end Computer

/-! ## One calculation -/

/-- The calculation is what the computer executes next. -/
def Calculation.IsNext (calculation : Calculation) (c : Computer β) : Prop :=
  match calculation with
  | .operate operation value =>
    (∃ operand, c.instruction? = some (.operate operation operand) ∧
      operand.read c.processor c.memory.read = value) ∨
    c.instruction? = some (.operateImmediate operation) ∧
      c.processor.immediate c.memory.read = value
  | .rotate rotation => c.instruction? = some (.rotate rotation)
  | .adjust => c.instruction? = some .daa

theorem Calculation.IsNext.effect {calculation : Calculation} {c : Computer β}
    (h : calculation.IsNext c) :
    ∃ i, c.instruction? = some i ∧ i.effect c.processor c.memory.read =
      .update { c.processor with
        regs.a := (calculation.apply c.accumulator).1
        flags := (calculation.apply c.accumulator).2 } := by
  cases calculation with
  | operate operation value =>
    obtain ⟨operand, hi, rfl⟩ | ⟨hi, rfl⟩ := h
    · exact ⟨_, hi, rfl⟩
    · exact ⟨_, hi, rfl⟩
  | rotate rotation => exact ⟨_, h, rfl⟩
  | adjust => exact ⟨_, h, rfl⟩

variable [Bus β]

/-- An instruction that only changes the processor is carried out. -/
theorem Computer.execute_update {c : Computer β} {i : Instruction} {after : Processor}
    (hi : c.instruction? = some i)
    (he : i.effect c.processor c.memory.read = .update after) :
    c.execute =
      (.ok i.cycles, ⟨{ after with pc := c.processor.pc + i.length }, c.memory, c.bus⟩) := by
  have hs := step_of_instruction? hi
  rw [he, Effect.update, commit_change (n := c.memory) rfl] at hs
  exact execute_of_step hs

/-- A calculation does not fail. -/
theorem Calculation.IsNext.execute {calculation : Calculation} {c : Computer β}
    (h : calculation.IsNext c) :
    ∃ cycles d, c.execute = (.ok cycles, d) ∧ d.accumulator = calculation.apply c.accumulator := by
  obtain ⟨i, hi, he⟩ := h.effect
  exact ⟨_, _, Computer.execute_update hi he, rfl⟩

theorem Calculation.IsNext.execute_ok {calculation : Calculation} {c : Computer β}
    (h : calculation.IsNext c) : ∃ cycles, c.execute.1 = .ok cycles := by
  obtain ⟨cycles, d, he, -⟩ := h.execute
  exact ⟨cycles, congrArg Prod.fst he⟩

/-- The calculation is executed, from the accumulator and the flags of the first computer. -/
def Calculation.Leads (calculation : Calculation) (c d : Computer β) : Prop :=
  ∃ e, e.accumulator = c.accumulator ∧ calculation.IsNext e ∧ e.execute.2 = d

theorem Calculation.Leads.accumulator {calculation : Calculation} {c d : Computer β}
    (h : calculation.Leads c d) : d.accumulator = calculation.apply c.accumulator := by
  obtain ⟨e, hc, hn, rfl⟩ := h
  obtain ⟨cycles, d, he, hd⟩ := hn.execute
  rw [he, ← hc]
  exact hd

/-! ## One column -/

/-- A routine that finds the carry of the first computer ends in the second, with this byte. -/
def Routine.Leads (routine : Routine) (result : UInt8) (c d : Computer β) : Prop :=
  ∃ e, e.processor.regs.a = routine.load ∧ e.carry = c.carry ∧
    History Calculation.Leads routine.calculations e d ∧ d.processor.regs.a = result

theorem Calculation.accumulator_of_history {calculations : List Calculation} {c d : Computer β}
    (h : History Calculation.Leads calculations c d) :
    d.accumulator =
      calculations.foldl (fun s calculation => calculation.apply s) c.accumulator := by
  induction h with
  | nil c => rfl
  | cons hl _ ih => rw [ih, hl.accumulator, List.foldl_cons]

theorem Routine.Leads.apply {routine : Routine} {result : UInt8} {c d : Computer β}
    (h : routine.Leads result c d) :
    ∃ f : Flags, f.carry = c.carry ∧ routine.apply f = (result, d.processor.flags) := by
  obtain ⟨e, hload, hcarry, hh, rfl⟩ := h
  refine ⟨e.processor.flags, hcarry, ?_⟩
  rw [Routine.apply, ← hload]
  exact (Calculation.accumulator_of_history hh).symm

/-! ## All columns -/

/-- The routine for the two bytes of a column is carried out, with the byte that comes out. -/
def Column.Leads (routine : UInt8 → UInt8 → Routine) (column : Column) (c d : Computer β) :
    Prop :=
  (routine column.left column.right).Leads column.result c d

variable {routine : UInt8 → UInt8 → Routine} {columns : List Column} {c d : Computer β}

theorem Column.result_of_history {P : UInt8 → Prop} (h : History (Column.Leads routine) columns c d)
    (hp : ∀ column ∈ columns, ∀ f, P ((routine column.left column.right).apply f).1) :
    ∀ column ∈ columns, P column.result := by
  induction h with
  | nil c => simp
  | cons hl _ ih =>
    intro column hm
    rcases List.mem_cons.mp hm with rfl | hm
    · obtain ⟨f, -, hf⟩ := hl.apply
      have hr := hp _ List.mem_cons_self f
      rwa [hf] at hr
    · exact ih (fun column hm => hp column (List.mem_cons_of_mem _ hm)) column hm

/-- Where every column balances its digits with the carry, the whole numbers balance with the
first carry and the last one. How a carry counts is up to the weight. -/
theorem Column.balance_of_history (base : Nat) (digit : UInt8 → Nat) (p q : Int)
    (weight : Bool → Int) (h : History (Column.Leads routine) columns c d)
    (hb : ∀ column ∈ columns, ∀ f : Flags,
      let r := (routine column.left column.right).apply f
      digit r.1 + base * weight r.2.carry =
        p * digit column.left + q * digit column.right + weight f.carry) :
    number base digit (columns.map Column.result) + base ^ columns.length * weight d.carry =
      p * number base digit (columns.map Column.left) +
        q * number base digit (columns.map Column.right) + weight c.carry := by
  induction h with
  | nil c => simp [number]
  | cons hl _ ih =>
    obtain ⟨f, hcarry, hf⟩ := hl.apply
    have hcolumn := hb _ List.mem_cons_self f
    rw [hf, hcarry] at hcolumn
    have hrest := ih fun column hm => hb column (List.mem_cons_of_mem _ hm)
    simp only [List.map_cons, number_cons, List.length_cons, pow_succ, Nat.cast_add, Nat.cast_mul]
    simp only [Computer.carry] at hcolumn hrest ⊢
    linear_combination hcolumn + base * hrest

/-! ## Programs on a bench -/

/-- A computer with this program, at an address of it, with these bytes in B and C. -/
def bench (program : List UInt8) (b c : UInt8) (pc : UInt16) (s : UInt8 × Flags) :
    Computer Ports :=
  { processor := { regs := { a := s.1, b := b, c := c }, flags := s.2, pc := pc }
    memory := (Computer.load ⟨.zero, .blank 0, Ports.idle {}⟩ program).2.memory
    bus := Ports.idle {} }

section

variable {program : List UInt8} {b c : UInt8} {pc : UInt16} {s : UInt8 × Flags}

theorem read_bench (hl : program.length ≤ 65536) (address : UInt16) :
    (bench program b c pc s).memory.read address = (program[address.toNat]?).getD 0 :=
  (Computer.read_load _ hl address).trans (congrArg (Option.getD _) (Memory.read_blank 0 address))

theorem instruction?_bench (hl : program.length ≤ 65536) : (bench program b c pc s).instruction? =
    Instruction.decode? ((program[pc.toNat]?).getD 0) :=
  congrArg Instruction.decode? (read_bench hl pc)

/-- A calculation changes the accumulator and the flags, and goes on to the next instruction. -/
theorem execute_bench {calculation : Calculation} {i : Instruction} {next : UInt16}
    (h : calculation.IsNext (bench program b c pc s))
    (hi : (bench program b c pc s).instruction? = some i) (hpc : pc + i.length = next) :
    (bench program b c pc s).execute.2 = bench program b c next (calculation.apply s) := by
  obtain ⟨j, hj, he⟩ := h.effect
  cases hi.symm.trans hj
  rw [Computer.execute_update hi he, ← hpc]
  rfl

theorem leads_bench {calculation : Calculation} {i : Instruction} {next : UInt16}
    (h : calculation.IsNext (bench program b c pc s))
    (hi : (bench program b c pc s).instruction? = some i) (hpc : pc + i.length = next) :
    calculation.Leads (bench program b c pc s)
      (bench program b c next (calculation.apply s)) :=
  ⟨_, rfl, h, execute_bench h hi hpc⟩

end

end Arcade8080
