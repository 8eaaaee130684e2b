import Arcade8080.Proofs.Numeric.Cancellation
import Arcade8080.Proofs.Operation
import Arcade8080.Proofs.Pacing.Readings
import Arcade8080.Proofs.Pacing.Tick

/-!
# The time that a tick accounts for

A pacer counts time from the last reading at which a tick succeeded. Before any tick has, it counts
from the first reading, although the tick at it failed. A tick that fails therefore leaves the time
it was given to the next one.
-/

namespace Arcade8080.Pacer

/-- The reading of a tick, with its result. -/
abbrev TickReading := ClockReading (Except Fault UInt32)

/-- The reading that time is counted from at `now`, after ticks at these readings. -/
def reference (rs : List TickReading) (now : Float) : Float :=
  (ClockReading.counted Except.isOk rs).getLast?.getD (ClockReading.first rs now)

theorem reference_append_ok (rs : List TickReading) (now later : Float) (cycles : UInt32) :
    reference (rs ++ [⟨now, .ok cycles⟩]) later = now := by
  rw [reference, ClockReading.counted_append_of_counts rs rfl, List.getLast?_concat]
  rfl

/-- A failed tick leaves the reference where it was, if it had one. -/
theorem reference_append_error (rs : List TickReading) (now later : Float) (fault : Fault) :
    reference (rs ++ [⟨now, .error fault⟩]) later = reference rs now := by
  rw [reference, ClockReading.counted_append_of_not_counts rs rfl, ClockReading.first_append]
  rfl

variable {β : Type} [Bus β]

/-- A tick at this reading, which had this result, leads from the first pacer to the second. It may
be with or without a request, and may be that of any computer. -/
def Ticks (β : Type) [Bus β] (r : TickReading) (p p' : Pacer) : Prop :=
  ∃ request, ∃ c : Computer β,
    (p.tick r.now request c).1 = r.result ∧ (p.tick r.now request c).2.1 = p'

/-- Started with this cap and this rate, a pacer counts time from the reference of its ticks. -/
structure Counts (p : Pacer) (cap rate : UInt32) (rs : List TickReading) : Prop where
  cap_eq : p.cap = (start cap rate).cap
  rate_eq : p.rate = rate
  counted (now : Float) : p.lastReading.getD now = reference rs now

theorem counts_start (cap rate : UInt32) : (start cap rate).Counts cap rate [] :=
  ⟨rfl, rfl, fun _ => rfl⟩

variable {p p' : Pacer} {cap rate : UInt32} {rs : List TickReading}

theorem Counts.elapsed (h : p.Counts cap rate rs) (now : Float) :
    p.elapsed now = now - reference rs now := by
  rw [Pacer.elapsed, h.counted]

theorem Counts.budget (h : p.Counts cap rate rs) (now : Float) :
    p.budget (p.elapsed now) = (start cap rate).budget (now - reference rs now) := by
  rw [h.elapsed, Pacer.budget, Pacer.budget, wanted, wanted, h.cap_eq, h.rate_eq]
  rfl

/-- A tick remembers its reading if it succeeds, and the one it counted from if not. -/
theorem tick_pacer (p : Pacer) (now : Float) (request : Option UInt8) (c : Computer β) :
    (p.tick now request c).2.1 =
      match (p.tick now request c).1 with
      | .ok _ => { p with lastReading := some now }
      | .error _ => { p with lastReading := some (p.lastReading.getD now) } := by
  simp only [tick]
  rcases p.work now request c with ⟨fault | cycles, d⟩
  · rfl
  · rfl

theorem Counts.tick {r : TickReading} (h : p.Counts cap rate rs)
    (ht : Ticks β r p p') : p'.Counts cap rate (rs ++ [r]) := by
  obtain ⟨now, result⟩ := r
  obtain ⟨request, c, hr, rfl⟩ := ht
  replace hr : (p.tick now request c).1 = result := hr
  rw [tick_pacer, hr]
  cases result with
  | ok cycles =>
    refine ⟨h.cap_eq, h.rate_eq, fun later => ?_⟩
    rw [reference_append_ok]
    rfl
  | error fault =>
    refine ⟨h.cap_eq, h.rate_eq, fun later => ?_⟩
    rw [reference_append_error, ← h.counted]
    rfl

theorem Counts.ticks {rs' : List TickReading} (h : p.Counts cap rate rs)
    (hh : History (Ticks β) rs' p p') : p'.Counts cap rate (rs ++ rs') := by
  induction hh generalizing rs with
  | nil p => rwa [List.append_nil]
  | @cons r rs' p q p' ht _ ih =>
    rw [List.append_cons]
    exact ih (h.tick ht)

/-- However a pacer has ticked, it counts from the reference of its ticks. -/
theorem counts_of_history (hh : History (Ticks β) rs (start cap rate) p) : p.Counts cap rate rs :=
  (counts_start cap rate).ticks hh

/-! ## The first tick -/

/-- At the very time it counts from, a pacer has nothing to spend. -/
theorem budget_sub_self (p : Pacer) (now : Float) : p.budget (now - now) = 0 := by
  rw [budget, wanted, if_neg (not_pos_sub_self now), toUInt32_zero_mul]
  show (if p.cap ≤ 0 then p.cap else 0) = 0
  split
  next h => exact UInt32.le_zero_iff.mp h
  next => rfl

/-- A pacer that has not seen a clock yet counts from where it is. -/
theorem budget_start (cap rate : UInt32) (now : Float) :
    (start cap rate).budget ((start cap rate).elapsed now) = 0 :=
  budget_sub_self (start cap rate) now

/-- The first tick of a pacer executes nothing. Should it fail, its request was refused. -/
theorem first_tick (cap rate : UInt32) (now : Float) (c : Computer β) :
    ((start cap rate).tick now none c).1 = .ok 0 ∧
      ((start cap rate).tick now none c).2.2 = c ∧
      ∀ request fault, ((start cap rate).tick now request c).1 = .error fault →
        ∃ vector, request = some vector ∧ (c.interrupt vector).1 = .error fault := by
  have hnone := (start cap rate).tick_none now c
  rw [budget_start, Computer.slice_spent (by decide)] at hnone
  obtain ⟨hresult, hcomputer⟩ := Prod.mk.inj hnone
  refine ⟨hresult, hcomputer, fun request fault hf => ?_⟩
  cases request with
  | none => cases hf.symm.trans hresult
  | some vector =>
    rw [((start cap rate).tick_some now vector c).1] at hf
    rcases hi : (c.interrupt vector).1 with refused | taken
    · rw [hi] at hf
      cases hf
      exact ⟨vector, rfl, hi⟩
    · rw [hi] at hf
      cases hf

end Arcade8080.Pacer
