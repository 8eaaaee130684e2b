import Arcade8080.Proofs.Computer.Subroutine
import Arcade8080.Proofs.Pacing.Tick

/-!
# Slices one after the other

How time is cut into slices does not show in what is executed. A slice that succeeds and a slice
after it come to what one slice comes to whose budget is the cycles of the first and the budget of
the second: the first may have overshot its own budget, but it is its cycles that count. The two
run over the same instructions, because a slice looks at nothing but the cycles spent so far.
Counting from another number only adds that number, as long as the count does not saturate.
-/

namespace Arcade8080

namespace Computer

variable {β : Type} [Bus β] {budget spent cycles : UInt32} {c d : Computer β}

/-! ## One loop over two budgets -/

theorem budget_le_of_slice (h : c.slice budget spent = (.ok cycles, d)) : budget ≤ cycles := by
  fun_induction slice budget spent c with
  | case1 spent c hlt cost next he ih => exact ih h
  | case2 spent c hlt fault next he => cases h
  | case3 spent c hge =>
    cases h
    exact UInt32.not_lt.mp hge

/-- A slice of a larger budget gets to where the smaller one ends, and goes on from there. -/
theorem slice_of_slice {larger : UInt32} (h : c.slice budget spent = (.ok cycles, d))
    (hle : budget ≤ larger) : c.slice larger spent = d.slice larger cycles := by
  fun_induction slice budget spent c with
  | case1 spent c hlt cost next he ih =>
    rw [slice_eq, if_pos (UInt32.lt_of_lt_of_le hlt hle), he]
    exact ih h
  | case2 spent c hlt fault next he => cases h
  | case3 spent c hge =>
    cases h
    rfl

/-- With `base` cycles more on the count and on the budget, a slice executes the same. Below the
budget a slice has no more on the count than the slowest instruction above it. -/
theorem slice_shift {base : UInt32} (hroom : base.toNat + budget.toNat + 18 ≤ 4294967295)
    (hs : spent.toNat ≤ budget.toNat + 18) :
    c.slice (base + budget) (base + spent) =
      ((c.slice budget spent).1.map (base + ·), (c.slice budget spent).2) := by
  have hbudget : (base + budget).toNat = base.toNat + budget.toNat := by
    rw [UInt32.toNat_add]
    omega
  have hcount {n : UInt32} (hn : n.toNat ≤ budget.toNat + 18) :
      (base + n).toNat = base.toNat + n.toNat := by
    rw [UInt32.toNat_add]
    omega
  fun_induction slice budget spent c with
  | case1 spent c hlt cost next he ih =>
    have hcost := execute_cycles he
    have hbelow := UInt32.lt_iff_toNat_lt.mp hlt
    have hnext : (saturatingAdd spent cost).toNat ≤ budget.toNat + 18 := by
      rw [toNat_saturatingAdd]
      omega
    have hadd : saturatingAdd (base + spent) cost = base + saturatingAdd spent cost := by
      apply UInt32.toNat_inj.mp
      rw [hcount hnext, toNat_saturatingAdd, toNat_saturatingAdd, hcount hs]
      omega
    have hlt' : base + spent < base + budget := by
      rw [UInt32.lt_iff_toNat_lt, hbudget, hcount hs]
      omega
    rw [slice_eq, if_pos hlt', he]
    simp only [hadd]
    exact ih hnext
  | case2 spent c hlt fault next he =>
    have hbelow := UInt32.lt_iff_toNat_lt.mp hlt
    have hlt' : base + spent < base + budget := by
      rw [UInt32.lt_iff_toNat_lt, hbudget, hcount hs]
      omega
    rw [slice_eq, if_pos hlt', he]
    rfl
  | case3 spent c hge =>
    have hge' : ¬ base + spent < base + budget := by
      rw [UInt32.lt_iff_toNat_lt] at hge ⊢
      rw [hbudget, hcount hs]
      omega
    exact slice_spent hge' c

/-- A larger budget executes more instructions after the same ones. -/
theorem sliceVisits_prefix {larger : UInt32} (hle : budget ≤ larger) (spent : UInt32)
    (c : Computer β) : c.sliceVisits budget spent <+: c.sliceVisits larger spent := by
  fun_induction slice budget spent c with
  | case1 spent c hlt cost next he ih =>
    rw [sliceVisits_eq budget, sliceVisits_eq larger, if_pos hlt,
      if_pos (UInt32.lt_of_lt_of_le hlt hle), he]
    exact List.prefix_cons_inj c |>.mpr ih
  | case2 spent c hlt fault next he =>
    have hsame : c.sliceVisits budget spent = c.sliceVisits larger spent := by
      rw [sliceVisits_eq budget, sliceVisits_eq larger, if_pos hlt,
        if_pos (UInt32.lt_of_lt_of_le hlt hle), he]
    exact hsame ▸ List.prefix_rfl
  | case3 spent c hge =>
    rw [sliceVisits_eq budget, if_neg hge]
    exact List.nil_prefix

end Computer

/-! ## The budgets of ticks -/

namespace Pacer

/-- A pacer at this cap, with a reading behind it. -/
def capped (cap : UInt32) (h : cap ≤ maxCap) : Pacer :=
  { lastReading := some 0, cap := cap, rate := 1, cap_le := h }

/-- After long enough, the cap is the budget. So every budget that leaves room on the count is
that of some tick. -/
theorem budget_capped {cap : UInt32} (h : cap ≤ maxCap) :
    (capped cap h).budget ((capped cap h).elapsed 1e10) = cap := by
  have hwanted : ((capped cap h).wanted ((capped cap h).elapsed 1e10)).toUInt32 = 4294967295 := by
    show ((if (0 : Float) < 1e10 - 0 then 1e10 - 0 else 0) * UInt32.toFloat 1).toUInt32 = _
    decide +kernel
  rw [budget, hwanted]
  exact if_pos (UInt32.le_iff_toNat_le.mpr (Nat.le_of_lt_succ cap.toNat_lt))

end Pacer

namespace Computer

variable {β : Type} [Bus β] {first second cycles : UInt32} {c d : Computer β}

/-- A slice after another one is the rest of a single slice. -/
theorem slice_compose (h : c.slice first 0 = (.ok cycles, d))
    (hroom : cycles.toNat + second.toNat ≤ 4294967295 - 18) :
    c.slice (cycles + second) 0 = ((d.slice second 0).1.map (cycles + ·), (d.slice second 0).2) := by
  have hle : first ≤ cycles + second := by
    have hreached := UInt32.le_iff_toNat_le.mp (budget_le_of_slice h)
    rw [UInt32.le_iff_toNat_le, UInt32.toNat_add]
    omega
  have hshift : d.slice (cycles + second) (cycles + 0) =
      ((d.slice second 0).1.map (cycles + ·), (d.slice second 0).2) :=
    slice_shift (by omega) (Nat.zero_le _)
  rw [UInt32.add_zero] at hshift
  rw [slice_of_slice h hle, hshift]

theorem toNat_add_of_slice {more : UInt32} {e : Computer β}
    (h : d.slice second 0 = (.ok more, e))
    (hroom : cycles.toNat + second.toNat ≤ 4294967295 - 18) :
    (cycles + more).toNat = cycles.toNat + more.toNat := by
  have hends : d.SliceEnds second (d.slice second 0) := sliceEnds_slice (by omega) d
  rw [h] at hends
  obtain ⟨-, -, -, -, -, -, hmore⟩ := hends
  rw [UInt32.toNat_add]
  omega

/-- **Time slicing does not change the execution.** After a slice that succeeds, one more slice
comes to what a single slice would have come to, from the start, on the cycles of the first and
the budget of the second: the same computer, the cycles of both, and the same fault if there is
one. The count does not overflow. A smaller budget executes the first of the instructions that a
larger one executes. All of this is about ticks, since a tick without a request is a slice of its
budget, and every budget up to the largest cap is that of a tick. -/
theorem slices_compose (c : Computer β) :
    (∀ (first second cycles : UInt32) (d : Computer β), c.slice first 0 = (.ok cycles, d) →
      cycles.toNat + second.toNat ≤ 4294967295 - 18 →
      (∀ more e, d.slice second 0 = (.ok more, e) →
        c.slice (cycles + second) 0 = (.ok (cycles + more), e) ∧
          (cycles + more).toNat = cycles.toNat + more.toNat) ∧
        ∀ fault e, d.slice second 0 = (.error fault, e) →
          c.slice (cycles + second) 0 = (.error fault, e)) ∧
      (∀ budget larger, budget ≤ larger → c.sliceVisits budget 0 <+: c.sliceVisits larger 0) ∧
      (∀ budget, c.sliceVisits budget 0 =
          (List.range (c.sliceVisits budget 0).length).map c.after ∧
        (c.slice budget 0).2 = c.after (c.sliceVisits budget 0).length) ∧
      (∀ (p : Pacer) now, ((p.tick now none c).1, (p.tick now none c).2.2) =
        c.slice (p.budget (p.elapsed now)) 0) ∧
      ∀ budget ≤ maxCap, ∃ (p : Pacer) (now : Float), p.budget (p.elapsed now) = budget := by
  refine ⟨fun first second cycles d h hroom => ⟨fun more e hd => ?_, fun fault e hd => ?_⟩,
    fun budget larger hb => sliceVisits_prefix hb 0 c,
    fun budget => sliceVisits_eq_map_after budget 0 c, fun p now => p.tick_none now c,
    fun budget hb => ⟨_, _, Pacer.budget_capped hb⟩⟩
  · refine ⟨?_, toNat_add_of_slice hd hroom⟩
    rw [slice_compose h hroom, hd]
    rfl
  · rw [slice_compose h hroom, hd]
    rfl

/-! ## A slice that is cut in three -/

/-- A computer about to execute a `NOP` and an `HLT`. -/
def pausing : Computer Ports :=
  { processor := { pc := 0x2400 }
    memory := (Memory.blank 0x2000).put ⟨0x2401, 0x76⟩
    bus := Ports.idle {} }

theorem execute_pausing : ∃ d, pausing.execute = (.ok 4, d) ∧
    d.execute = (.error (.unsupported .hlt), d) := by
  have hread (address : UInt16) : pausing.memory.read address =
      if 0x2401 = address then 0x76 else 0 := by
    simp only [pausing, Memory.read_put, Memory.read_blank]
  have hi : pausing.instruction? = some .nop := by
    rw [instruction?_eq_some_iff _ (by decide)]
    exact hread 0x2400
  obtain ⟨d, hx, hd⟩ := execute_nop hi
  have hid : d.instruction? = some .hlt := by
    rw [instruction?_eq_some_iff _ (by decide), opcode, hd.programCounter rfl,
      hd.memory _ List.not_mem_nil]
    exact hread 0x2401
  exact ⟨d, hx, execute_hlt hid⟩

/-- The `NOP` overshoots a budget of one. Whether nothing or something is to be spent after it, a
budget that begins with its four cycles comes to the same, also where that is a fault. -/
theorem pausing_composes : ∃ d,
    pausing.slice 1 0 = (.ok 4, d) ∧ d.slice 0 0 = (.ok 0, d) ∧ pausing.slice 4 0 = (.ok 4, d) ∧
      d.slice 1 0 = (.error (.unsupported .hlt), d) ∧
      pausing.slice 5 0 = (.error (.unsupported .hlt), d) := by
  obtain ⟨d, hnop, hhlt⟩ := execute_pausing
  have hfirst : pausing.slice 1 0 = (.ok 4, d) := by
    rw [slice_eq, if_pos (by decide), hnop]
    exact slice_spent (by decide) d
  have hnothing : d.slice 0 0 = (.ok 0, d) := slice_spent (by decide) d
  have hfails : d.slice 1 0 = (.error (.unsupported .hlt), d) := by
    rw [slice_eq, if_pos (by decide), hhlt]
  obtain ⟨hcompose, -⟩ := slices_compose pausing
  obtain ⟨hzero, -⟩ := hcompose 1 0 4 d hfirst (by decide)
  obtain ⟨-, hone⟩ := hcompose 1 1 4 d hfirst (by decide)
  exact ⟨d, hfirst, hnothing, (hzero 0 d hnothing).1, hfails, hone _ d hfails⟩

end Computer

end Arcade8080
