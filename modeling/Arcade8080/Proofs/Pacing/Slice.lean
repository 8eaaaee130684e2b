import Arcade8080.Pacing.Slice
import Arcade8080.Proofs.Computer.Run
import Arcade8080.Proofs.Operation

/-!
# What a slice executes

A slice is a run of consecutive instructions. It goes on while the costs so far
are below the budget, so the last instruction is the one that reaches it. As an
instruction costs four cycles at least and eighteen at most, the budget bounds
the number of instructions, and the overshoot is less than one instruction. A
slice therefore always ends, and it is defined by recursion on what is left of
its budget. The count of cycles is exact as long as a slowest instruction fits
between the budget and the largest count.
-/

namespace Arcade8080

/-! ## Costs -/

/-- The sum of costs, however large. -/
def totalCycles : List UInt32 → Nat
  | [] => 0
  | cost :: costs => cost.toNat + totalCycles costs

theorem totalCycles_append (costs costs' : List UInt32) :
    totalCycles (costs ++ costs') = totalCycles costs + totalCycles costs' := by
  induction costs with
  | nil => exact (Nat.zero_add _).symm
  | cons cost rest ih => rw [List.cons_append, totalCycles, totalCycles, ih, Nat.add_assoc]

theorem totalCycles_replicate (n : Nat) (cost : UInt32) :
    totalCycles (List.replicate n cost) = n * cost.toNat := by
  induction n with
  | zero => exact (Nat.zero_mul _).symm
  | succ n ih => rw [List.replicate_succ, totalCycles, ih, Nat.succ_mul, Nat.add_comm]

theorem four_mul_length_le {costs : List UInt32} (h : ∀ cost ∈ costs, 4 ≤ cost.toNat) :
    4 * costs.length ≤ totalCycles costs := by
  induction costs with
  | nil => exact Nat.le_refl 0
  | cons cost rest ih =>
    have hc := h cost List.mem_cons_self
    have hr := ih fun other ho => h other (List.mem_cons_of_mem cost ho)
    rw [totalCycles, List.length_cons]
    omega

/-- Costs that reach a budget with the last of them and not before. -/
structure JustEnough (budget : Nat) (costs : List UInt32) : Prop where
  reached : budget ≤ totalCycles costs
  notBefore : costs ≠ [] → totalCycles costs.dropLast < budget

theorem justEnough_nil : JustEnough 0 [] where
  reached := Nat.zero_le _
  notBefore hn := absurd rfl hn

theorem JustEnough.cons {budget : Nat} {cost : UInt32} {costs : List UInt32} (hb : 0 < budget)
    (h : JustEnough (budget - cost.toNat) costs) : JustEnough budget (cost :: costs) := by
  constructor
  · have hr := h.reached
    rw [totalCycles]
    omega
  · intro _
    cases costs with
    | nil => exact hb
    | cons next rest =>
      have hn := h.notBefore (List.cons_ne_nil next rest)
      rw [List.dropLast_cons_cons, totalCycles]
      omega

/-- The budget bounds how many instructions just reach it, and by how much they overshoot. -/
theorem JustEnough.bounds {budget : Nat} {costs : List UInt32} (h : JustEnough budget costs)
    (hc : ∀ cost ∈ costs, 4 ≤ cost.toNat ∧ cost.toNat ≤ 18) :
    costs.length ≤ (budget + 3) / 4 ∧ totalCycles costs ≤ budget + 17 := by
  rcases List.eq_nil_or_concat costs with rfl | ⟨before, last, rfl⟩
  · exact ⟨Nat.zero_le _, Nat.zero_le _⟩
  · rw [List.concat_eq_append] at h hc ⊢
    have hn := h.notBefore (List.concat_ne_nil last before)
    rw [List.dropLast_concat] at hn
    have hl := hc last (List.mem_append_right before List.mem_cons_self)
    have hs := four_mul_length_le fun cost hm => (hc cost (List.mem_append_left [last] hm)).1
    have ht : totalCycles [last] = last.toNat := rfl
    rw [List.length_append, List.length_singleton, totalCycles_append]
    omega

namespace Computer

variable {β : Type} [Bus β]

/-! ## Runs of instructions -/

/-- An instruction is carried out at this cost. -/
def Spends (cycles : UInt32) (c d : Computer β) : Prop := c.execute = (.ok cycles, d)

theorem cost_bounds {costs : List UInt32} {c d : Computer β} (h : History Spends costs c d) :
    ∀ cost ∈ costs, 4 ≤ cost.toNat ∧ cost.toNat ≤ 18 := by
  induction h with
  | nil c =>
    intro cost hm
    cases hm
  | cons hs _ ih =>
    intro cost hm
    rcases List.mem_cons.mp hm with rfl | hm
    · exact execute_cycles hs
    · exact ih cost hm

/-- With `spent` cycles on the count, a slice executes what just reaches the rest of the
budget, or fails before that. -/
theorem slice_spends {budget : UInt32} (hb : budget.toNat + 18 ≤ 4294967295) (spent : UInt32)
    (c : Computer β) :
    ∃ costs d, History Spends costs c d ∧
      ((JustEnough (budget.toNat - spent.toNat) costs ∧
          ∃ cycles, c.slice budget spent = (.ok cycles, d) ∧
            cycles.toNat = spent.toNat + totalCycles costs) ∨
        (totalCycles costs < budget.toNat - spent.toNat ∧
          ∃ fault d', d.execute = (.error fault, d') ∧
            c.slice budget spent = (.error fault, d'))) := by
  fun_induction slice budget spent c with
  | case1 spent c hlt cycles next he ih =>
    have hc := execute_cycles he
    have hs := UInt32.lt_iff_toNat_lt.mp hlt
    -- Below the budget there is room on the count for any instruction.
    have hadd : (saturatingAdd spent cycles).toNat = spent.toNat + cycles.toNat := by
      rw [toNat_saturatingAdd]
      omega
    have hsub : budget.toNat - (spent.toNat + cycles.toNat) =
        budget.toNat - spent.toNat - cycles.toNat := by omega
    obtain ⟨costs, d, hh, h⟩ := ih
    rw [hadd, hsub] at h
    refine ⟨cycles :: costs, d, .cons he hh, ?_⟩
    rcases h with ⟨hj, total, hr, ht⟩ | ⟨hl, fault, d', hf, hr⟩
    · left
      refine ⟨hj.cons (by omega), total, hr, ?_⟩
      rw [ht, totalCycles, Nat.add_assoc]
    · right
      refine ⟨?_, fault, d', hf, hr⟩
      rw [totalCycles]
      omega
  | case2 spent c hlt fault next he =>
    have hs := UInt32.lt_iff_toNat_lt.mp hlt
    refine ⟨[], c, .nil c, Or.inr ⟨?_, fault, next, he, rfl⟩⟩
    show 0 < budget.toNat - spent.toNat
    omega
  | case3 spent c hge =>
    have hz : budget.toNat - spent.toNat = 0 := by
      rw [UInt32.lt_iff_toNat_lt] at hge
      omega
    rw [hz]
    exact ⟨[], c, .nil c, Or.inl ⟨justEnough_nil, spent, rfl, rfl⟩⟩

/-- How a slice can end. If it succeeds, its instructions reach the budget with the last of
them and not before, and the cycles reported are the sum of their costs. If it fails,
instructions were carried out below the budget and the next one failed. -/
def SliceEnds (c : Computer β) (budget : UInt32) : Except Fault UInt32 × Computer β → Prop
  | (.ok cycles, d) => ∃ costs, History Spends costs c d ∧
      costs.length ≤ (budget.toNat + 3) / 4 ∧
      cycles.toNat = totalCycles costs ∧
      (costs ≠ [] → totalCycles costs.dropLast < budget.toNat) ∧
      budget.toNat ≤ cycles.toNat ∧ cycles.toNat ≤ budget.toNat + 17
  | (.error fault, d') => ∃ costs d, History Spends costs c d ∧
      costs.length < (budget.toNat + 3) / 4 ∧
      totalCycles costs < budget.toNat ∧ d.execute = (.error fault, d')

theorem sliceEnds_slice {budget : UInt32} (hb : budget.toNat + 18 ≤ 4294967295)
    (c : Computer β) : c.SliceEnds budget (c.slice budget 0) := by
  obtain ⟨costs, d, hh, h⟩ := slice_spends hb 0 c
  have hc := cost_bounds hh
  have hz : budget.toNat - (0 : UInt32).toNat = budget.toNat := Nat.sub_zero _
  rw [hz] at h
  rcases h with ⟨hj, cycles, hr, ht⟩ | ⟨hl, fault, d', hf, hr⟩
  · replace ht : cycles.toNat = totalCycles costs := ht.trans (Nat.zero_add _)
    obtain ⟨hn, hm⟩ := hj.bounds hc
    rw [hr]
    refine ⟨costs, hh, hn, ht, hj.notBefore, ?_, ?_⟩
    · rw [ht]
      exact hj.reached
    · rw [ht]
      exact hm
  · have hn := four_mul_length_le fun cost hm => (hc cost hm).1
    rw [hr]
    exact ⟨costs, d, hh, by omega, hl, hf⟩

theorem slice_eq (budget spent : UInt32) (c : Computer β) :
    c.slice budget spent = if spent < budget then
      match c.execute with
      | (.ok cycles, next) => next.slice budget (saturatingAdd spent cycles)
      | (.error fault, next) => (.error fault, next)
    else (.ok spent, c) := by
  rw [slice]
  split
  · split
    next he => rw [he]
    next he => rw [he]
  · rfl

/-- A slice whose budget is spent executes nothing. -/
theorem slice_spent {budget spent : UInt32} (h : ¬ spent < budget) (c : Computer β) :
    c.slice budget spent = (.ok spent, c) := by
  rw [slice_eq, if_neg h]

/-! ## The instructions executed -/

/-- The computers at which a slice executes an instruction, the first one first. -/
def sliceVisits (budget spent : UInt32) (c : Computer β) : List (Computer β) :=
  if spent < budget then
    match _h : c.execute with
    | (.ok cycles, next) => c :: sliceVisits budget (saturatingAdd spent cycles) next
    | (.error _, _) => [c]
  else []
termination_by budget.toNat - spent.toNat
decreasing_by
  have hc := execute_cycles _h
  have hb := budget.toNat_lt
  have hs : spent.toNat < budget.toNat := UInt32.lt_iff_toNat_lt.mp (by assumption)
  rw [toNat_saturatingAdd]
  omega

theorem sliceVisits_eq (budget spent : UInt32) (c : Computer β) :
    c.sliceVisits budget spent = if spent < budget then
      match c.execute with
      | (.ok cycles, next) => c :: next.sliceVisits budget (saturatingAdd spent cycles)
      | (.error _, _) => [c]
    else [] := by
  rw [sliceVisits]
  split
  · split
    next he => rw [he]
    next he => rw [he]
  · rfl

/-- What a slice writes to the log is what its instructions write, with fuel for as many of
them as there are cycles left. -/
theorem sliceLog_sliceVisits [Bus.Noted β] (kept : Level) (budget : UInt32) {fuel : Nat}
    (spent : UInt32) (c : Computer β) (log : Log) (hf : budget.toNat - spent.toNat ≤ fuel) :
    c.sliceLog kept budget fuel spent log =
      log ++ (c.sliceVisits budget spent).flatMap fun d => d.stepLog kept := by
  induction fuel generalizing spent c log with
  | zero =>
    have hge : ¬ spent < budget := by
      rw [UInt32.lt_iff_toNat_lt]
      omega
    rw [sliceVisits_eq, if_neg hge]
    simp [sliceLog]
  | succ fuel ih =>
    rw [sliceLog, sliceVisits_eq]
    split
    next hlt =>
      rcases he : c.execute with ⟨fault | cycles, next⟩
      · simp
      · have hc := execute_cycles he
        have hb := budget.toNat_lt
        have hs := UInt32.lt_iff_toNat_lt.mp hlt
        have hleft : budget.toNat - (saturatingAdd spent cycles).toNat ≤ fuel := by
          rw [toNat_saturatingAdd]
          omega
        simp only [ih _ _ _ hleft]
        apply Array.ext'
        simp
    · simp

/-- A slice executes computers one after the other, and ends with the one after them. -/
theorem sliceVisits_eq_map_after (budget spent : UInt32) (c : Computer β) :
    c.sliceVisits budget spent =
        (List.range (c.sliceVisits budget spent).length).map c.after ∧
      (c.slice budget spent).2 = c.after (c.sliceVisits budget spent).length := by
  fun_induction slice budget spent c with
  | case1 spent c hlt cycles next he ih =>
    have hnext : c.execute.2 = next := by rw [he]
    subst hnext
    obtain ⟨hv, hs⟩ := ih
    have hc : c.sliceVisits budget spent =
        c :: c.execute.2.sliceVisits budget (saturatingAdd spent cycles) := by
      rw [sliceVisits_eq, if_pos hlt, he]
    rw [hc, List.length_cons]
    constructor
    · rw [List.range_succ_eq_map, List.map_cons, List.map_map]
      exact congrArg (c :: ·) hv
    · exact hs
  | case2 spent c hlt fault next he =>
    have hnext : c.execute.2 = next := by rw [he]
    rw [sliceVisits_eq, if_pos hlt, he, ← hnext]
    exact ⟨rfl, rfl⟩
  | case3 spent c hge =>
    rw [sliceVisits_eq, if_neg hge]
    exact ⟨rfl, rfl⟩

end Computer

end Arcade8080
