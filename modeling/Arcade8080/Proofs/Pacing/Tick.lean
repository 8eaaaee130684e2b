import Arcade8080.Board.Ports
import Arcade8080.Pacing.Pacer
import Arcade8080.Proofs.Computer.Faults
import Arcade8080.Proofs.Pacing.Slice

/-!
# What a tick does

A tick with a request is that request and nothing else. A tick without one is a
slice of its budget. The budget is never above the cap of the pacer, and no cap
is so high that a slice could run out of its count.
-/

namespace Arcade8080

namespace Pacer

theorem toNat_cap_start (cap rate : UInt32) :
    (start cap rate).cap.toNat = min cap.toNat (4294967295 - 18) := by
  show (if cap ≤ maxCap then cap else maxCap).toNat = min cap.toNat maxCap.toNat
  split
  next h => exact (Nat.min_eq_left (UInt32.le_iff_toNat_le.mp h)).symm
  next h =>
    rw [UInt32.le_iff_toNat_le] at h
    exact (Nat.min_eq_right (Nat.le_of_not_le h)).symm

/-- A budget up to the cap leaves room for the slowest instruction. -/
theorem room_above_budget (p : Pacer) {budget : UInt32} (h : budget ≤ p.cap) :
    budget.toNat + 18 ≤ 4294967295 := by
  have hb := UInt32.le_iff_toNat_le.mp h
  have hc := UInt32.le_iff_toNat_le.mp p.cap_le
  have hm : maxCap.toNat = 4294967277 := rfl
  omega

variable {β : Type} [Bus β]

theorem tick_none (p : Pacer) (now : Float) (c : Computer β) :
    ((p.tick now none c).1, (p.tick now none c).2.2) =
      c.slice (p.budget (p.elapsed now)) 0 := by
  simp only [tick, work]
  split
  next h => exact h.symm
  next h => exact h.symm

theorem tick_none_result (p : Pacer) (now : Float) (c : Computer β) :
    (p.tick now none c).1 = (c.slice (p.budget (p.elapsed now)) 0).1 :=
  congrArg Prod.fst (p.tick_none now c)

theorem tick_none_computer (p : Pacer) (now : Float) (c : Computer β) :
    (p.tick now none c).2.2 = (c.slice (p.budget (p.elapsed now)) 0).2 :=
  congrArg Prod.snd (p.tick_none now c)

/-- A tick with a request does to the computer what the request does, and reports no cycles. -/
theorem tick_some (p : Pacer) (now : Float) (vector : UInt8) (c : Computer β) :
    (p.tick now (some vector) c).1 = (c.interrupt vector).1.map (fun _ => 0) ∧
      (p.tick now (some vector) c).2.2 = (c.interrupt vector).2 := by
  simp only [tick, work]
  rcases c.interrupt vector with ⟨_ | taken, d⟩
  · exact ⟨rfl, rfl⟩
  · exact ⟨rfl, rfl⟩

end Pacer

/-! ## A jump to itself -/

namespace Computer

/-- A computer that jumps to address zero forever. -/
def spinning : Computer Ports :=
  { memory := (Memory.blank 0x2000).put ⟨0, 0xc3⟩, bus := Ports.idle {} }

theorem execute_spinning : spinning.execute = (.ok 10, spinning) := by
  have hi : spinning.instruction? = some .jmp := by
    rw [instruction?_eq_some_iff _ (by decide)]
    show ((Memory.blank 0x2000).put ⟨0, 0xc3⟩).read 0 = 0xc3
    rw [Memory.read_put]
    rfl
  have ht : spinning.processor.immediateWord spinning.memory.read = 0 := by
    show wordOf (((Memory.blank 0x2000).put ⟨0, 0xc3⟩).read 2)
      (((Memory.blank 0x2000).put ⟨0, 0xc3⟩).read 1) = 0
    rw [Memory.read_put, Memory.read_put, if_neg (by decide), if_neg (by decide),
      Memory.read_blank, Memory.read_blank]
    rfl
  have he : Instruction.jmp.effect spinning.processor spinning.memory.read =
      .change [] spinning.processor (.jump 0) := by
    rw [← ht]
    rfl
  have hs := step_of_instruction? hi
  rw [he, commit_change (n := spinning.memory) rfl] at hs
  exact execute_of_step hs

theorem spends_spinning {costs : List UInt32} {d : Computer Ports}
    (h : History Spends costs spinning d) :
    d = spinning ∧ costs = List.replicate costs.length 10 := by
  induction costs with
  | nil =>
    cases h
    exact ⟨rfl, rfl⟩
  | cons cost rest ih =>
    cases h with
    | cons hs hh =>
      cases hs.symm.trans execute_spinning
      obtain ⟨hd, hr⟩ := ih hh
      refine ⟨hd, ?_⟩
      rw [List.length_cons, List.replicate_succ, ← hr]

end Computer

/-! ## Ticks -/

namespace Pacer

variable {β : Type} [Bus β]

/-- **A tick is a bounded run of instructions or one request.** Caps are clamped, budgets
stay under the cap, and a slice of any budget under the cap ends as `SliceEnds` says. So
does a tick without a request; a tick with one does what the request does. -/
theorem tick_spends_or_requests (p : Pacer) (c : Computer β) :
    (∀ cap rate, (start cap rate).cap.toNat = min cap.toNat (4294967295 - 18)) ∧
      (∀ elapsed, p.budget elapsed ≤ p.cap) ∧
      (∀ budget ≤ p.cap, c.SliceEnds budget (c.slice budget 0)) ∧
      (∀ now, c.SliceEnds (p.budget (p.elapsed now))
        ((p.tick now none c).1, (p.tick now none c).2.2)) ∧
      ∀ now vector, (p.tick now (some vector) c).1 = (c.interrupt vector).1.map (fun _ => 0) ∧
        (p.tick now (some vector) c).2.2 = (c.interrupt vector).2 := by
  refine ⟨toNat_cap_start, p.budget_le_cap, ?_, ?_, fun now vector => p.tick_some now vector c⟩
  · intro budget h
    exact Computer.sliceEnds_slice (p.room_above_budget h) c
  · intro now
    rw [tick_none]
    exact Computer.sliceEnds_slice (p.room_above_budget (p.budget_le_cap _)) c

/-- Under the largest cap there is, a budget of 95 cycles is spent on ten jumps. -/
theorem spinning_spends_hundred :
    let p := start 4294967295 1
    95 ≤ p.cap ∧ Computer.spinning.slice 95 0 = (.ok 100, Computer.spinning) := by
  intro p
  have hcap : 95 ≤ p.cap := by decide
  refine ⟨hcap, ?_⟩
  have h := (p.tick_spends_or_requests Computer.spinning).2.2.1 95 hcap
  rcases hr : Computer.spinning.slice 95 0 with ⟨fault | cycles, d⟩
  · rw [hr] at h
    obtain ⟨costs, e, hh, -, -, he⟩ := h
    obtain ⟨rfl, -⟩ := Computer.spends_spinning hh
    cases he.symm.trans Computer.execute_spinning
  · rw [hr] at h
    obtain ⟨costs, hh, -, hc, hn, hlow, -⟩ := h
    obtain ⟨rfl, hten⟩ := Computer.spends_spinning hh
    rw [hten, List.dropLast_replicate, totalCycles_replicate] at hn
    rw [hten, totalCycles_replicate] at hc
    have hne : costs ≠ [] := by
      rintro rfl
      replace hlow : 95 ≤ cycles.toNat := hlow
      replace hc : cycles.toNat = 0 := hc
      omega
    replace hn : (costs.length - 1) * 10 < 95 := hn (hten ▸ hne)
    replace hc : cycles.toNat = costs.length * 10 := hc
    replace hlow : 95 ≤ cycles.toNat := hlow
    have hcycles : cycles = 100 := by
      apply UInt32.toNat_inj.mp
      show cycles.toNat = 100
      omega
    rw [hcycles]

end Pacer

end Arcade8080
