import Arcade8080.Proofs.Arithmetic.PackedDecimal
import Arcade8080.Proofs.Computer.WideArithmetic

/-!
# Packed decimal arithmetic

Decimal numbers of any width are added with `ADC` and `DAA`. There is no adjustment after a
difference. So the subtrahend is taken from 99, or from 100 if nothing is borrowed, where no
digit can borrow from another, and the rest is an addition. The carry then stands for no
borrow.
-/

namespace Arcade8080

/-- The number of these packed bytes, the lowest one first. -/
def decimalNumber (bytes : List UInt8) : Nat := number 100 decimalValue bytes

/-- `ADC` and `DAA`. -/
def decimalSum (x y : UInt8) : Routine := ⟨x, [.operate .addCarry y, .adjust]⟩

/-- `ACI 0`, `SUB`, `ADD` and `DAA`, beginning with 99. -/
def decimalDifference (x y : UInt8) : Routine :=
  ⟨0x99, [.operate .addCarry 0, .operate .subtract y, .operate .add x, .adjust]⟩

/-! ## One column -/

theorem decimalSum_apply {x y : UInt8} (hx : PackedDecimal x) (hy : PackedDecimal y) (f : Flags) :
    let r := (decimalSum x y).apply f
    PackedDecimal r.1 ∧
      decimalValue r.1 + 100 * r.2.carry.toNat =
        decimalValue x + decimalValue y + f.carry.toNat := by
  obtain ⟨hxu, hxl⟩ := hx
  obtain ⟨hyu, hyl⟩ := hy
  have hcarry := f.carry.toNat_le
  obtain ⟨hp, hv⟩ := Arithmetic.decimalAdjust_sums (Arithmetic.add_showsSums x y f.carry)
    (by omega) (by omega)
  refine ⟨hp, hv.trans ?_⟩
  rw [decimalValue, decimalValue]
  omega

/-- 99 and the carry, less a packed byte: neither digit borrows. -/
theorem complement_halves {y : UInt8} (hy : PackedDecimal y) (carry : Bool) :
    let r := Arithmetic.subtract (Arithmetic.add 0x99 0 carry).1 y false
    r.1.toNat / 16 = 9 - y.toNat / 16 ∧ r.1.toNat % 16 = 9 + carry.toNat - y.toNat % 16 := by
  obtain ⟨hyu, hyl⟩ := hy
  have ha : (Arithmetic.add 0x99 0 carry).1.toNat = 0x99 + carry.toNat := by
    cases carry <;> rfl
  have hcarry := carry.toNat_le
  have h := Arithmetic.subtract_halves (a := (Arithmetic.add 0x99 0 carry).1) (v := y)
    (by omega) (by omega)
  rw [ha] at h
  omega

theorem decimalDifference_apply {x y : UInt8} (hx : PackedDecimal x) (hy : PackedDecimal y)
    (f : Flags) :
    let r := (decimalDifference x y).apply f
    PackedDecimal r.1 ∧
      decimalValue r.1 + 100 * r.2.carry.toNat + decimalValue y =
        99 + decimalValue x + f.carry.toNat := by
  obtain ⟨hu, hl⟩ := complement_halves hy f.carry
  obtain ⟨hxu, hxl⟩ := hx
  obtain ⟨hyu, hyl⟩ := hy
  have hcarry := f.carry.toNat_le
  have hs := Arithmetic.add_showsSums
    (Arithmetic.subtract (Arithmetic.add 0x99 0 f.carry).1 y false).1 x false
  rw [hu, hl, Bool.toNat_false] at hs
  obtain ⟨hp, hv⟩ := Arithmetic.decimalAdjust_sums hs (by omega) (by omega)
  refine ⟨hp, (congrArg (· + decimalValue y) hv).trans ?_⟩
  simp only [decimalValue]
  omega

/-! ## All columns -/

section

variable {β : Type} [Bus β] {columns : List Column} {c d : Computer β}

/-- **Decimal addition at any width.** The bytes that come out are packed decimals again. With
the carry before the highest byte they make the sum of the two numbers and the first carry,
whatever the other flags were, and none of the instructions can fail. -/
theorem decimal_sum (h : History (Column.Leads decimalSum) columns c d)
    (hp : ∀ column ∈ columns, PackedDecimal column.left ∧ PackedDecimal column.right) :
    (∀ column ∈ columns, PackedDecimal column.result) ∧
      decimalNumber (columns.map Column.result) + 100 ^ columns.length * d.carry.toNat =
        decimalNumber (columns.map Column.left) + decimalNumber (columns.map Column.right) +
          c.carry.toNat ∧
      ∀ (calculation : Calculation) (e : Computer β), calculation.IsNext e →
        ∃ cycles, e.execute.1 = .ok cycles := by
  refine ⟨Column.result_of_history h fun column hm f => ?_, ?_, fun _ _ hn => hn.execute_ok⟩
  · exact (decimalSum_apply (hp column hm).1 (hp column hm).2 f).1
  · have hb := Column.balance_of_history 100 decimalValue 1 1
      (fun carry => (carry.toNat : Int)) h (by
        intro column hm f r
        have hv := (decimalSum_apply (hp column hm).1 (hp column hm).2 f).2
        rw [one_mul, one_mul]
        exact_mod_cast hv)
    rw [one_mul, one_mul] at hb
    exact_mod_cast hb

/-- **Decimal subtraction at any width.** The bytes that come out are packed decimals again. A
last carry that is clear stands for a borrow past the highest byte, as a first one stands for a
borrow to begin with, and with both of them the difference of the two numbers comes out,
whatever the other flags were. None of the instructions can fail. -/
theorem decimal_difference (h : History (Column.Leads decimalDifference) columns c d)
    (hp : ∀ column ∈ columns, PackedDecimal column.left ∧ PackedDecimal column.right) :
    (∀ column ∈ columns, PackedDecimal column.result) ∧
      (decimalNumber (columns.map Column.result) : Int) -
          100 ^ columns.length * (1 - d.carry.toNat) =
        decimalNumber (columns.map Column.left) - decimalNumber (columns.map Column.right) -
          (1 - c.carry.toNat) ∧
      ∀ (calculation : Calculation) (e : Computer β), calculation.IsNext e →
        ∃ cycles, e.execute.1 = .ok cycles := by
  refine ⟨Column.result_of_history h fun column hm f => ?_, ?_, fun _ _ hn => hn.execute_ok⟩
  · exact (decimalDifference_apply (hp column hm).1 (hp column hm).2 f).1
  · have hb := Column.balance_of_history 100 decimalValue 1 (-1)
      (fun carry => (carry.toNat : Int) - 1) h (by
        intro column hm f
        have hv := (decimalDifference_apply (hp column hm).1 (hp column hm).2 f).2
        zify at hv
        linear_combination hv)
    push_cast at hb
    simp only [decimalNumber]
    linear_combination hb

end

/-! ## Two columns -/

/-- `ADC B` and `DAA`. -/
def addingCode : List UInt8 := [0x88, 0x27]

/-- Whatever computer there is, the code can be put in its place with the bytes of a column. -/
theorem leads_adding (x y : UInt8) (c : Computer Ports) :
    let r := (decimalSum x y).apply c.processor.flags
    (decimalSum x y).Leads r.1 c (bench addingCode y 0 2 r) := by
  have hl : addingCode.length ≤ 65536 := by decide
  have h0 (s : UInt8 × Flags) : (bench addingCode y 0 0 s).instruction? =
      some (.operate .addCarry .b) := (instruction?_bench hl).trans (by decide)
  have h1 (s : UInt8 × Flags) : (bench addingCode y 0 1 s).instruction? = some .daa :=
    (instruction?_bench hl).trans (by decide)
  refine ⟨bench addingCode y 0 0 (x, c.processor.flags), rfl, rfl, ?_, rfl⟩
  exact .cons (leads_bench (.inl ⟨.b, h0 _, rfl⟩) (h0 _) rfl)
    (.cons (leads_bench (h1 _) (h1 _) rfl) (.nil _))

/-- 599 and 9401 make 10000. -/
theorem sum_carries_out :
    let columns : List Column := [⟨0x99, 0x01, 0x00⟩, ⟨0x05, 0x94, 0x00⟩]
    ∃ c d : Computer Ports, History (Column.Leads decimalSum) columns c d ∧
      c.carry = false ∧ d.carry = true ∧
      decimalNumber [0x00, 0x00] + 100 ^ 2 * 1 =
        decimalNumber [0x99, 0x05] + decimalNumber [0x01, 0x94] + 0 := by
  intro columns
  have h : History (Column.Leads decimalSum) columns (bench [] 0 0 0 (0, { auxCarry := true })) _ :=
    .cons (leads_adding 0x99 0x01 _) (.cons (leads_adding 0x05 0x94 _) (.nil _))
  exact ⟨_, _, h, rfl, by decide, (decimal_sum h (by decide)).2.1⟩

/-- `ACI 0`, `SUB B`, `ADD C` and `DAA`. -/
def subtractingCode : List UInt8 := [0xCE, 0x00, 0x90, 0x81, 0x27]

theorem leads_subtracting (x y : UInt8) (c : Computer Ports) :
    let r := (decimalDifference x y).apply c.processor.flags
    (decimalDifference x y).Leads r.1 c (bench subtractingCode y x 5 r) := by
  have hl : subtractingCode.length ≤ 65536 := by decide
  have h0 (s : UInt8 × Flags) : (bench subtractingCode y x 0 s).instruction? =
      some (.operateImmediate .addCarry) := (instruction?_bench hl).trans (by decide)
  have h2 (s : UInt8 × Flags) : (bench subtractingCode y x 2 s).instruction? =
      some (.operate .subtract .b) := (instruction?_bench hl).trans (by decide)
  have h3 (s : UInt8 × Flags) : (bench subtractingCode y x 3 s).instruction? =
      some (.operate .add .c) := (instruction?_bench hl).trans (by decide)
  have h4 (s : UInt8 × Flags) : (bench subtractingCode y x 4 s).instruction? = some .daa :=
    (instruction?_bench hl).trans (by decide)
  refine ⟨bench subtractingCode y x 0 (0x99, c.processor.flags), rfl, rfl, ?_, rfl⟩
  exact .cons (leads_bench (.inr ⟨h0 _, read_bench hl 1⟩) (h0 _) rfl)
    (.cons (leads_bench (.inl ⟨.b, h2 _, rfl⟩) (h2 _) rfl)
      (.cons (leads_bench (.inl ⟨.c, h3 _, rfl⟩) (h3 _) rfl)
        (.cons (leads_bench (h4 _) (h4 _) rfl) (.nil _))))

/-- 100 less 201 leaves 9899, with a borrow. -/
theorem difference_borrows :
    let columns : List Column := [⟨0x00, 0x01, 0x99⟩, ⟨0x01, 0x02, 0x98⟩]
    ∃ c d : Computer Ports, History (Column.Leads decimalDifference) columns c d ∧
      c.carry = true ∧ d.carry = false ∧
      (decimalNumber [0x99, 0x98] : Int) - 100 ^ 2 * (1 - 0) =
        decimalNumber [0x00, 0x01] - decimalNumber [0x01, 0x02] - (1 - 1) := by
  intro columns
  have h : History (Column.Leads decimalDifference) columns
      (bench [] 0 0 0 (0, { carry := true })) _ :=
    .cons (leads_subtracting 0x00 0x01 _) (.cons (leads_subtracting 0x01 0x02 _) (.nil _))
  exact ⟨_, _, h, rfl, by decide, (decimal_difference h (by decide)).2.1⟩

end Arcade8080
