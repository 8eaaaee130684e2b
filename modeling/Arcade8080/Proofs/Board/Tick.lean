import Arcade8080.Board.Basic
import Arcade8080.Proofs.Pacing.Tick

/-!
# A tick of the board, taken apart

What the tick of the pacer comes to decides what the board does after it: on success it takes
down the sounds, on a fault it saves itself and leaves them alone.
-/

namespace Arcade8080.Board

variable {b b' : Board} {now : Float} {crash : Crash}

/-- A tick is one of the pacer, with what the timer requests. -/
theorem tick_pacer (b : Board) (now : Float) :
    ((b.tick now).1.mapError Crash.fault, (b.tick now).2.pacer, (b.tick now).2.computer) =
      b.pacer.tick now (b.timer.poll now).1 b.computer := by
  rcases b with ⟨computer, pacer, timer, latch, pending, settings⟩
  simp only [tick]
  rcases pacer.tick now (timer.poll now).1 computer with ⟨fault | cycles, pacer', computer'⟩
  · rfl
  · rfl

/-- The timer is polled once, whatever becomes of the tick. -/
theorem tick_timer (b : Board) (now : Float) :
    (b.tick now).2.timer = (b.timer.poll now).2 ∧ (b.tick now).2.settings = b.settings := by
  rcases b with ⟨computer, pacer, timer, latch, pending, settings⟩
  simp only [tick]
  rcases pacer.tick now (timer.poll now).1 computer with ⟨fault | cycles, pacer', computer'⟩
  · exact ⟨rfl, rfl⟩
  · exact ⟨rfl, rfl⟩

/-- A tick that succeeds brings the latch up to date and keeps the events. -/
theorem tick_ok {cycles : UInt32} (h : b.tick now = (.ok cycles, b')) :
    b'.latch = ⟨b'.computer.bus.out3, b'.computer.bus.out5⟩ ∧
      b'.pending = b.pending ++ b.latch.events b'.computer.bus.out3 b'.computer.bus.out5 := by
  rcases b with ⟨computer, pacer, timer, latch, pending, settings⟩
  simp only [tick] at h
  generalize pacer.tick now (timer.poll now).1 computer = r at h
  rcases r with ⟨fault | cycles', pacer', computer'⟩
  · cases h
  · cases h
    exact ⟨rfl, rfl⟩

/-- A tick that crashes has a pacer's tick that fails, and leaves the sounds alone. -/
theorem tick_error (h : b.tick now = (.error crash, b')) :
    (b.pacer.tick now (b.timer.poll now).1 b.computer).1 = .error crash.fault ∧
      (b.pacer.tick now (b.timer.poll now).1 b.computer).2.2 = b'.computer ∧
      crash.saved = b'.save ∧ b'.latch = b.latch ∧ b'.pending = b.pending := by
  rcases b with ⟨computer, pacer, timer, latch, pending, settings⟩
  simp only [tick] at h
  generalize pacer.tick now (timer.poll now).1 computer = r at h ⊢
  rcases r with ⟨fault | cycles, pacer', computer'⟩
  · cases h
    exact ⟨rfl, rfl, rfl, rfl, rfl⟩
  · cases h

/-- The computers at which a tick executes an instruction. -/
def executed (b : Board) (now : Float) : List (Computer Ports) :=
  match (b.timer.poll now).1 with
  | some _ => []
  | none => b.computer.sliceVisits (b.pacer.budget (b.pacer.elapsed now)) 0

theorem tick_of_error {fault : Fault}
    (h : (b.pacer.tick now (b.timer.poll now).1 b.computer).1 = .error fault) :
    ∃ crash b', b.tick now = (.error crash, b') ∧ crash.fault = fault := by
  rcases b with ⟨computer, pacer, timer, latch, pending, settings⟩
  simp only [tick]
  generalize pacer.tick now (timer.poll now).1 computer = r at h ⊢
  rcases r with ⟨fault | cycles, pacer', computer'⟩
  · cases h
    exact ⟨_, _, rfl, rfl⟩
  · cases h

/-- A tick without a request and without a budget only takes down the time and the sounds. -/
theorem tick_unspent (hv : (b.timer.poll now).1 = none)
    (hz : b.pacer.budget (b.pacer.elapsed now) = 0) :
    b.tick now = (.ok 0, latchSounds { b with
      pacer := { b.pacer with lastReading := some now }, timer := (b.timer.poll now).2 }) := by
  rcases b with ⟨computer, pacer, timer, latch, pending, settings⟩
  replace hv : (timer.poll now).1 = none := hv
  replace hz : pacer.budget (pacer.elapsed now) = 0 := hz
  have hslice := Computer.slice_spent (show ¬ (0 : UInt32) < 0 by decide) computer
  simp only [tick, hv, Pacer.tick, Pacer.work, hz, hslice]

end Arcade8080.Board
