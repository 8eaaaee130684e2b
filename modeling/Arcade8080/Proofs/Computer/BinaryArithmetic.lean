import Arcade8080.Proofs.Arithmetic.Equations
import Arcade8080.Proofs.Computer.Footprint
import Arcade8080.Proofs.Computer.WideArithmetic

/-!
# Binary arithmetic at any width

Numbers of several bytes are added, subtracted and shifted byte by byte, and all that goes
from one byte to the next is the carry. In between a program has to put the next byte into
the accumulator, and the last result where it belongs. It may use any instructions for this
that do not set the carry; those that move bytes and count pointers do not.

Shifting to the right begins with the highest byte, everything else with the lowest.
-/

namespace Arcade8080

variable {β : Type} [Bus β]

/-- The number of these bytes, the lowest one first. -/
def binaryNumber (bytes : List UInt8) : Nat := number 256 UInt8.toNat bytes

/-! ## Between two calculations -/

namespace Instruction

/-- The instructions that move a byte to or from the accumulator, or count a pointer. -/
def reloads : Instruction → Bool
  | .mov _ _ | .mvi _ | .ldax _ | .stax _ | .inx _ | .dcx _ => true
  | _ => false

/-- The instruction is executed, and is none that sets the carry. -/
def Passes (i : Instruction) (c d : Computer β) : Prop :=
  c.instruction? = some i ∧ Flag.carry ∉ i.flagsWritten ∧ c.execute.2 = d

theorem carry_not_mem_of_reloads {i : Instruction} (h : i.reloads = true) :
    Flag.carry ∉ i.flagsWritten := by
  cases i <;> first | exact List.not_mem_nil | cases h

/-- Whether it succeeds or not, the carry is what it was. -/
theorem Passes.carry {i : Instruction} {c d : Computer β} (h : i.Passes c d) :
    d.carry = c.carry := by
  obtain ⟨hi, hc, rfl⟩ := h
  rcases hx : c.execute with ⟨fault | cycles, d⟩
  · rcases Computer.execute_error hx with ⟨-, rfl⟩ | ⟨_, _, -, -, rfl⟩
    · rfl
    · rfl
  · obtain ⟨completion, hs, -⟩ := Computer.step_of_execute hx
    exact (Computer.step_footprint hi hs).2.processor.flags .carry hc

theorem carry_of_history {is : List Instruction} {c d : Computer β}
    (h : History Passes is c d) : d.carry = c.carry := by
  apply h.keeps (P := fun e => e.carry = c.carry) _ rfl
  intro _ _ s t hl hs
  rw [hl.carry, hs]

end Instruction

/-! ## One column -/

/-- The computer works off a column: it comes to have the left byte in the accumulator, then
executes the calculation, and the byte that comes out is left in the accumulator. -/
def Column.Works (calculation : UInt8 → Calculation) (column : Column) (c d : Computer β) :
    Prop :=
  ∃ is e, History Instruction.Passes is c e ∧ e.processor.regs.a = column.left ∧
    (calculation column.right).IsNext e ∧ e.execute.2 = d ∧ d.processor.regs.a = column.result

theorem Column.Works.leads {calculation : UInt8 → Calculation} {column : Column}
    {c d : Computer β} (h : column.Works calculation c d) :
    column.Leads (fun x y => ⟨x, [calculation y]⟩) c d := by
  obtain ⟨is, e, his, hload, hn, hx, hresult⟩ := h
  exact ⟨e, hload, Instruction.carry_of_history his, .cons ⟨e, rfl, hn, hx⟩ (.nil d), hresult⟩

/-! ## All columns -/

variable {columns : List Column} {c d : Computer β}

theorem binary_sum_of_history (h : History (Column.Works (.operate .addCarry)) columns c d) :
    binaryNumber (columns.map Column.result) + 256 ^ columns.length * d.carry.toNat =
      binaryNumber (columns.map Column.left) + binaryNumber (columns.map Column.right) +
        c.carry.toNat := by
  have hb := Column.balance_of_history 256 UInt8.toNat 1 1 (fun carry => (carry.toNat : Int))
    (h.mono fun _ _ _ => Column.Works.leads) (by
      intro column _ f r
      rw [one_mul, one_mul]
      exact_mod_cast Arithmetic.add_balance column.left column.right f.carry)
  rw [one_mul, one_mul] at hb
  exact_mod_cast hb

theorem binary_difference_of_history
    (h : History (Column.Works (.operate .subtractBorrow)) columns c d) :
    (binaryNumber (columns.map Column.result) : Int) - 256 ^ columns.length * d.carry.toNat =
      binaryNumber (columns.map Column.left) - binaryNumber (columns.map Column.right) -
        c.carry.toNat := by
  have hb := Column.balance_of_history 256 UInt8.toNat 1 (-1) (fun carry => -(carry.toNat : Int))
    (h.mono fun _ _ _ => Column.Works.leads) (by
      intro column _ f r
      have hv := Arithmetic.subtract_balance column.left column.right f.carry
      have hr : r = Arithmetic.subtract column.left column.right f.carry := rfl
      rw [hr]
      linear_combination hv)
  push_cast at hb
  simp only [binaryNumber]
  linear_combination hb

theorem binary_double_of_history
    (h : History (Column.Works fun _ => .rotate .leftThroughCarry) columns c d) :
    binaryNumber (columns.map Column.result) + 256 ^ columns.length * d.carry.toNat =
      2 * binaryNumber (columns.map Column.left) + c.carry.toNat := by
  have hb := Column.balance_of_history 256 UInt8.toNat 2 0 (fun carry => (carry.toNat : Int))
    (h.mono fun _ _ _ => Column.Works.leads) (by
      intro column _ f r
      rw [zero_mul, add_zero]
      exact_mod_cast Rotation.leftThroughCarry_balance f.carry column.left)
  rw [zero_mul, add_zero] at hb
  exact_mod_cast hb

/-- The highest byte counts most. -/
theorem number_reverse_cons (base : Nat) (digit : UInt8 → Nat) (v : UInt8) (bytes : List UInt8) :
    number base digit (v :: bytes).reverse =
      number base digit bytes.reverse + base ^ bytes.length * digit v := by
  simp only [number, List.reverse_cons, List.map_append, List.map_cons, List.map_nil,
    Nat.ofDigits_append, Nat.ofDigits_singleton, List.length_map, List.length_reverse]

/-- Halving begins with the highest byte. What is left of one byte counts in the next. -/
theorem binary_halves_of_history
    (h : History (Column.Works fun _ => .rotate .rightThroughCarry) columns c d) :
    2 * binaryNumber (columns.map Column.result).reverse + d.carry.toNat =
      binaryNumber (columns.map Column.left).reverse +
        256 ^ columns.length * c.carry.toNat := by
  induction h with
  | nil c => simp [binaryNumber, number]
  | @cons column rest s t u hl _ ih =>
    obtain ⟨f, hcarry, hf⟩ := hl.leads.apply
    have hresult : (Rotation.rightThroughCarry.apply f.carry column.left).1 = column.result :=
      congrArg Prod.fst hf
    have hlast : (Rotation.rightThroughCarry.apply f.carry column.left).2 = t.carry :=
      congrArg (fun r => r.2.carry) hf
    have hcolumn := Rotation.rightThroughCarry_balance f.carry column.left
    rw [hresult, hlast, hcarry] at hcolumn
    simp only [binaryNumber, List.map_cons, number_reverse_cons, List.length_map,
      List.length_cons, pow_succ] at ih ⊢
    linear_combination ih + 256 ^ rest.length * hcolumn

theorem binaryNumber_lt (bytes : List UInt8) : binaryNumber bytes < 256 ^ bytes.length := by
  induction bytes with
  | nil => exact Nat.zero_lt_one
  | cons v rest ih =>
    have hv := v.toNat_lt
    simp only [binaryNumber, number_cons, List.length_cons, pow_succ] at ih ⊢
    omega

/-- A borrow past the highest byte tells that too much was taken. -/
theorem borrow_iff {x y z n : Nat} {borrow carry : Bool} (hz : z < 256 ^ n)
    (h : (z : Int) - 256 ^ n * carry.toNat = x - y - borrow.toNat) :
    carry = true ↔ x < y + borrow.toNat := by
  zify at hz
  cases carry with
  | true =>
    rw [Bool.toNat_true, Nat.cast_one, mul_one] at h
    exact iff_of_true rfl (by omega)
  | false =>
    rw [Bool.toNat_false, Nat.cast_zero, mul_zero] at h
    exact iff_of_false Bool.false_ne_true (by omega)

/-- A bit shifted into the top of `n` bytes counts half as much as `n` bytes can tell apart. -/
theorem half_of_balance {x z n : Nat} {first last : Bool} (hn : 0 < n)
    (h : 2 * z + last.toNat = x + 256 ^ n * first.toNat) :
    last.toNat = x % 2 ∧ z = x / 2 + first.toNat * 2 ^ (8 * n - 1) := by
  have hl := last.toNat_le
  have hpow : 256 ^ n = 2 * 2 ^ (8 * n - 1) := by
    rw [← pow_succ', Nat.sub_add_cancel (by omega), pow_mul]
    rfl
  rw [hpow] at h
  cases first with
  | true =>
    rw [Bool.toNat_true, mul_one] at h
    rw [Bool.toNat_true, one_mul]
    omega
  | false =>
    rw [Bool.toNat_false, mul_zero] at h
    rw [Bool.toNat_false, zero_mul]
    omega

/-- **Binary arithmetic at any width.** Columns are listed with the lowest first, and all
computers here are those of one program. With the last carry before the highest byte, `ADC`
makes the sum of the two numbers and the first carry, `SBB` their difference less the first
carry, and `RAL` the double of a number and the first carry; a last carry after `SBB` tells
that the number was too small. `RAR`, which begins with the highest byte, halves a number below
the first carry and leaves its remainder. What reloads the accumulator in between keeps the
carry, and no calculation can fail. -/
theorem binary_arithmetic (columns : List Column) (c d : Computer β) :
    let x := binaryNumber (columns.map Column.left)
    let y := binaryNumber (columns.map Column.right)
    let z := binaryNumber (columns.map Column.result)
    let n := columns.length
    (History (Column.Works (.operate .addCarry)) columns c d →
      z + 256 ^ n * d.carry.toNat = x + y + c.carry.toNat) ∧
    (History (Column.Works (.operate .subtractBorrow)) columns c d →
      (z : Int) - 256 ^ n * d.carry.toNat = x - y - c.carry.toNat ∧
        (d.carry = true ↔ x < y + c.carry.toNat)) ∧
    (History (Column.Works fun _ => .rotate .leftThroughCarry) columns c d →
      z + 256 ^ n * d.carry.toNat = 2 * x + c.carry.toNat) ∧
    (History (Column.Works fun _ => .rotate .rightThroughCarry) columns.reverse c d → 0 < n →
      d.carry.toNat = x % 2 ∧ z = x / 2 + c.carry.toNat * 2 ^ (8 * n - 1)) ∧
    (∀ (i : Instruction) (e : Computer β), i.reloads = true → e.instruction? = some i →
      i.Passes e e.execute.2 ∧ e.execute.2.carry = e.carry) ∧
    ∀ (calculation : Calculation) (e : Computer β), calculation.IsNext e →
      ∃ cycles, e.execute.1 = .ok cycles := by
  intro x y z n
  have hz : z < 256 ^ n := by
    have h := binaryNumber_lt (columns.map Column.result)
    rwa [List.length_map] at h
  refine ⟨binary_sum_of_history, fun h => ?_, binary_double_of_history, fun h hn => ?_,
    fun i e hr hi => ?_, fun _ _ hn => hn.execute_ok⟩
  · have hd := binary_difference_of_history h
    exact ⟨hd, borrow_iff hz hd⟩
  · have hh := binary_halves_of_history h
    rw [← List.map_reverse, ← List.map_reverse, List.reverse_reverse, List.length_reverse] at hh
    exact half_of_balance hn hh
  · have hp : i.Passes e e.execute.2 := ⟨hi, Instruction.carry_not_mem_of_reloads hr, rfl⟩
    exact ⟨hp, hp.carry⟩

/-! ## Two columns -/

/-- `MVI A` and a calculation work off a column. -/
theorem works_bench {program : List UInt8} {b c x : UInt8} {pc : UInt16} {s : UInt8 × Flags}
    {i : Instruction} (calculation : UInt8 → Calculation) (y : UInt8) (next : UInt16)
    (hl : program.length ≤ 65536)
    (hload : (program[pc.toNat]?).getD 0 = 0x3E) (hx : (program[(pc + 1).toNat]?).getD 0 = x)
    (hi : (bench program b c (pc + 2) (x, s.2)).instruction? = some i)
    (hn : (calculation y).IsNext (bench program b c (pc + 2) (x, s.2)))
    (hpc : pc + 2 + i.length = next) :
    (⟨x, y, ((calculation y).apply (x, s.2)).1⟩ : Column).Works calculation
      (bench program b c pc s) (bench program b c next ((calculation y).apply (x, s.2))) := by
  have hm : (bench program b c pc s).instruction? = some (.mvi .a) := by
    rw [instruction?_bench hl, hload]
    decide
  have hmvi : (bench program b c pc s).execute.2 = bench program b c (pc + 2) (x, s.2) := by
    rw [Computer.execute_update hm rfl, ← hx, ← read_bench hl (pc + 1)]
    rfl
  exact ⟨[.mvi .a], _, .cons ⟨hm, by decide, hmvi⟩ (.nil _), rfl, hn, execute_bench hn hi hpc, rfl⟩

/-- A program that works off two columns with an immediate operation. -/
theorem history_immediate (operation : ByteOperation) (x y x' y' : UInt8) (f : Flags) :
    let r := operation.apply f x y
    ∃ c d : Computer Ports, c.processor.flags = f ∧
      History (Column.Works (.operate operation))
        [⟨x, y, r.1⟩, ⟨x', y', (operation.apply r.2 x' y').1⟩] c d := by
  let op := (Instruction.operateImmediate operation).encode
  let program := [0x3E, x, op, y, 0x3E, x', op, y']
  have hl : program.length ≤ 65536 := show 8 ≤ 65536 by decide
  have hop : Instruction.decode? op = some (.operateImmediate operation) :=
    Instruction.decode?_encode nofun
  have hi (s : UInt8 × Flags) : (bench program 0 0 2 s).instruction? = some _ :=
    (instruction?_bench hl).trans hop
  have hi' (s : UInt8 × Flags) : (bench program 0 0 6 s).instruction? = some _ :=
    (instruction?_bench hl).trans hop
  exact ⟨bench program 0 0 0 (0, f), _, rfl,
    .cons (works_bench _ y 4 hl rfl rfl (hi _) (.inr ⟨hi _, read_bench hl 3⟩) rfl)
      (.cons (works_bench _ y' 8 hl rfl rfl (hi' _) (.inr ⟨hi' _, read_bench hl 7⟩) rfl)
        (.nil _))⟩

/-- A program that works off two columns with a rotation. -/
theorem history_rotate (rotation : Rotation) (x x' : UInt8) (f : Flags) :
    let r := rotation.apply f.carry x
    ∃ c d : Computer Ports, c.processor.flags = f ∧
      History (Column.Works fun _ => .rotate rotation)
        [⟨x, 0, r.1⟩, ⟨x', 0, (rotation.apply r.2 x').1⟩] c d := by
  let op := (Instruction.rotate rotation).encode
  let program := [0x3E, x, op, 0x3E, x', op]
  have hl : program.length ≤ 65536 := show 6 ≤ 65536 by decide
  have hop : Instruction.decode? op = some (.rotate rotation) := Instruction.decode?_encode nofun
  have hn (s : UInt8 × Flags) : (Calculation.rotate rotation).IsNext (bench program 0 0 2 s) :=
    (instruction?_bench hl).trans hop
  have hn' (s : UInt8 × Flags) : (Calculation.rotate rotation).IsNext (bench program 0 0 5 s) :=
    (instruction?_bench hl).trans hop
  have hfirst : Column.Works (fun _ => .rotate rotation) ⟨x, 0, _⟩
      (bench program 0 0 0 (0, f)) (bench program 0 0 3 _) :=
    works_bench (fun _ => .rotate rotation) 0 3 hl rfl rfl (hn _) (hn _) rfl
  have hsecond (s : UInt8 × Flags) : Column.Works (fun _ => .rotate rotation) ⟨x', 0, _⟩
      (bench program 0 0 3 s) (bench program 0 0 6 _) :=
    works_bench (fun _ => .rotate rotation) 0 6 hl rfl rfl (hn' _) (hn' _) rfl
  exact ⟨bench program 0 0 0 (0, f), _, rfl, .cons hfirst (.cons (hsecond _) (.nil _))⟩

/-- 255 and 1 make 256; 256 less 1 is 255; twice 32896 carries; half of 257 leaves 1. -/
theorem two_byte_routines :
    (∃ c d : Computer Ports,
      History (Column.Works (.operate .addCarry)) [⟨0xFF, 0x01, 0x00⟩, ⟨0x00, 0x00, 0x01⟩] c d ∧
        binaryNumber [0x00, 0x01] + 256 ^ 2 * d.carry.toNat =
          binaryNumber [0xFF, 0x00] + binaryNumber [0x01, 0x00] + c.carry.toNat) ∧
    (∃ c d : Computer Ports,
      History (Column.Works (.operate .subtractBorrow))
        [⟨0x00, 0x01, 0xFF⟩, ⟨0x01, 0x00, 0x00⟩] c d ∧
        (d.carry = true ↔
          binaryNumber [0x00, 0x01] < binaryNumber [0x01, 0x00] + c.carry.toNat)) ∧
    (∃ c d : Computer Ports,
      History (Column.Works fun _ => .rotate .leftThroughCarry)
        [⟨0x80, 0x00, 0x00⟩, ⟨0x80, 0x00, 0x01⟩] c d ∧
        binaryNumber [0x00, 0x01] + 256 ^ 2 * d.carry.toNat =
          2 * binaryNumber [0x80, 0x80] + c.carry.toNat) ∧
    ∃ c d : Computer Ports,
      History (Column.Works fun _ => .rotate .rightThroughCarry)
        [⟨0x01, 0x00, 0x00⟩, ⟨0x01, 0x00, 0x80⟩] c d ∧
        d.carry.toNat = binaryNumber [0x01, 0x01] % 2 ∧
          binaryNumber [0x80, 0x00] =
            binaryNumber [0x01, 0x01] / 2 + c.carry.toNat * 2 ^ (8 * 2 - 1) := by
  obtain ⟨c, d, -, hsum⟩ := history_immediate .addCarry 0xFF 0x01 0x00 0x00 {}
  obtain ⟨c', d', -, hdifference⟩ := history_immediate .subtractBorrow 0x00 0x01 0x01 0x00 {}
  obtain ⟨e, g, -, hdouble⟩ := history_rotate .leftThroughCarry 0x80 0x80 {}
  obtain ⟨e', g', -, hhalf⟩ := history_rotate .rightThroughCarry 0x01 0x01 {}
  exact ⟨⟨c, d, hsum, (binary_arithmetic _ c d).1 hsum⟩,
    ⟨c', d', hdifference, ((binary_arithmetic _ c' d').2.1 hdifference).2⟩,
    ⟨e, g, hdouble, (binary_arithmetic _ e g).2.2.1 hdouble⟩,
    ⟨e', g', hhalf,
      (binary_arithmetic [⟨0x01, 0x00, 0x80⟩, ⟨0x01, 0x00, 0x00⟩] e' g').2.2.2.1 hhalf (by decide)⟩⟩

end Arcade8080
