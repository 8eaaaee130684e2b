import Arcade8080.Proofs.Board.Crash
import Arcade8080.Proofs.Board.SaveState
import Arcade8080.Proofs.Board.Transcript
import Arcade8080.Proofs.Computer.Recurrence
import Arcade8080.Proofs.RomIntegrity

/-!
# Crashes can be reproduced

The save that a crash carries is enough to see the crash again. Any board with the same
boundary that it is restored into, after its way through bytes, comes to the same fault at the
first instruction it executes, and saves the same as before, so that the fault comes up as often
as one likes. This is about crashes in an instruction; a request that was refused has cleared
the latch and is not made again by executing. It also takes that the failing instruction has not
torn a byte into itself.
-/

namespace Arcade8080.Board

/-- Some instructions lead from the computer of `b` to `d`, where the next one fails and leaves
`c'`. -/
def FailsAt (b : Board) (fault : Fault) (c' d : Computer Ports) : Prop :=
  (∃ costs, History Computer.Spends costs b.computer d) ∧ d.execute = (.error fault, c')

variable {b b' : Board} {now : Float} {crash : Crash}

/-- A board that comes to a fault and is not changed by it comes to that fault forever. -/
theorem transcript_of_stuck {fault : Fault}
    (h : b.computer.execute = (.error fault, b.computer)) (n : Nat) :
    transcript (List.replicate n .execute) b =
      List.replicate n (.executed (.error fault), b.save) := by
  have ho : b.obey .execute = (.executed (.error fault), b) := by
    simp only [obey, h]
  induction n with
  | zero => rfl
  | succ n ih =>
    rw [List.replicate_succ, List.replicate_succ, transcript, ho, ← ih]

theorem obtainable_tick (hb : b.Reachable) (now : Float) :
    (b.tick now).2.computer.bus.Obtainable :=
  Operation.obtainable (.tick now) rfl trivial hb.obtainable

/-- **A crash can be reproduced from its save.** There is a computer at which an instruction of
the tick failed. If that instruction spares itself, the bytes of the save are read back, and a
board with the same boundary into which they are restored answers with the fault of the crash
whenever it executes an instruction, and saves what the crash saved each time. -/
theorem crash_recurs (hb : b.Reachable) (h : b.tick now = (.error crash, b'))
    (hv : (b.timer.poll now).1 = none) :
    (∃ d, b.FailsAt crash.fault b'.computer d) ∧
      ∀ d, b.FailsAt crash.fault b'.computer d → d.SparesItself →
        ∃ s, SavedBoard.decode crash.saved.encode = .ok s ∧
          ∀ other : Board, other.computer.memory.romBoundary = b.computer.memory.romBoundary →
            ∀ n, transcript (List.replicate n .execute) (other.restore s) =
              List.replicate n (.executed (.error crash.fault), crash.saved) := by
  constructor
  · obtain ⟨costs, d, hh, hx, -⟩ := (instructionFailed_of_tick h hv).failed
    exact ⟨d, ⟨costs, hh⟩, hx⟩
  · rintro d ⟨-, hx⟩ hd
    have hs : crash.saved = b'.save := (tick_error h).2.2.1
    have ht : (b.tick now).2 = b' := by rw [h]
    refine ⟨crash.saved, SavedBoard.decode_encode _, fun other hr n => ?_⟩
    have hwired : b'.save.in1 ||| Ports.wired = b'.save.in1 := by
      rw [← ht]
      exact (obtainable_tick hb now).wired
    have hboundary : b'.computer.memory.romBoundary = b.computer.memory.romBoundary :=
      Operation.romBoundary (.tick now) ht
    have halike : Alike (other.restore crash.saved) b' := by
      rw [hs]
      exact alike_of_save (hr.trans hboundary.symm) (save_restore hwired other)
    rw [halike.transcript, hs, transcript_of_stuck (Computer.execute_again hx hd)]

/-! ## A torn byte under a stack in the ROM -/

/-- A save of a board at a `PUSH D`, with the stack pointer just above the boundary. -/
def brink : SavedBoard where
  computer :=
    { bytes := ((Memory.blank 0x2000).put ⟨0x2400, 0xD5⟩).bytes
      processor := { regs := { d := 0x56, e := 0x78 }, sp := 0x2001, pc := 0x2400 } }
  shifter := {}
  in1 := Ports.wired
  in2 := 0

/-- A new board restored from that save, after a first tick that had nothing to spend. -/
def tearing : Board :=
  { (build {}).restore brink with
    pacer := { Pacer.start 10000 1 with lastReading := some 0 }
    timer := (FrameTimer.poll {} 0).2 }

theorem reachable_tearing : tearing.Reachable := by
  have ht : (((build {}).restore brink).tick 0).2 = tearing := by
    have hv : (((build {}).restore brink).timer.poll 0).1 = none := by decide +kernel
    have hz : ((build {}).restore brink).pacer.budget
        (((build {}).restore brink).pacer.elapsed 0) = 0 := by decide +kernel
    rw [tick_unspent hv hz]
    rfl
  refine ⟨{}, [.restore brink, .tick 0], ?_, .cons rfl (.cons ht (.nil _))⟩
  simp [Operation.Genuine]

theorem stores_tearing : tearing.computer.stores = [⟨0x2000, 0x56⟩, ⟨0x1FFF, 0x78⟩] ∧
    tearing.computer.instruction? = some (.push .de) := by
  have hi : tearing.computer.instruction? = some (.push .de) := by
    rw [Computer.instruction?_eq_some_iff _ (by decide)]
    show ((Memory.blank 0x2000).put ⟨0x2400, 0xD5⟩).read 0x2400 = _
    rw [Memory.read_put]
    rfl
  have hword : (Instruction.push .de).pushedWord? tearing.computer.processor = some 0x5678 := rfl
  exact ⟨(Computer.stores_of_instruction? hi).trans (Instruction.stores_of_pushedWord? hword _), hi⟩

/-- The first byte is stored, the second one is refused. -/
theorem execute_tearing : tearing.computer.execute.1 = .error (.romWrite 0x1FFF) := by
  have hs : tearing.computer.memory.storeAll tearing.computer.stores =
      (tearing.computer.memory.put ⟨0x2000, 0x56⟩, some 0x1FFF) := by
    rw [stores_tearing.1, Memory.storeAll_cons_accepted _ (by decide),
      Memory.storeAll_cons_refused _ (by decide)]
  rw [Computer.execute_of_stores_refused hs]

theorem sparesItself_tearing : tearing.computer.SparesItself := by
  intro i hi a ha
  cases stores_tearing.2.symm.trans hi
  have hm : a ∈ [(0x2000 : UInt16), 0x1FFF] := by
    have hm := List.takeWhile_subset _ ha
    rwa [← Computer.address_stores, stores_tearing.1] at hm
  rw [show (Instruction.push .de).fetchAddresses tearing.computer.processor = [0x2400] by decide]
  rintro hf
  cases List.mem_singleton.mp hf
  exact absurd hm (by decide)

theorem poll_tearing : (tearing.timer.poll 100).1 = none := by decide +kernel

theorem tick_tearing : ∃ crash b', tearing.tick 100 = (.error crash, b') ∧
    crash.fault = .romWrite 0x1FFF := by
  have hb : tearing.pacer.budget (tearing.pacer.elapsed 100) = 100 := by decide +kernel
  apply tick_of_error
  rw [poll_tearing, Pacer.tick_none_result, hb, Computer.slice_eq, if_pos (by decide)]
  rcases he : tearing.computer.execute with ⟨fault | cycles, c⟩
  · exact (congrArg Prod.fst he).symm.trans execute_tearing
  · cases (congrArg Prod.fst he).symm.trans execute_tearing

/-- The `PUSH D` fails on a board with other settings as it has failed here, two times more. -/
theorem tearing_recurs :
    tearing.Reachable ∧ (tearing.timer.poll 100).1 = none ∧
      ∃ crash b', tearing.tick 100 = (.error crash, b') ∧ crash.fault = .romWrite 0x1FFF ∧
        ∃ s, SavedBoard.decode crash.saved.encode = .ok s ∧
          transcript (List.replicate 2 .execute) ((build { rate := 2, interval := 0 }).restore s) =
            List.replicate 2 (.executed (.error (.romWrite 0x1FFF)), crash.saved) := by
  obtain ⟨crash, b', h, hf⟩ := tick_tearing
  obtain ⟨⟨d, hd⟩, hrecurs⟩ := crash_recurs reachable_tearing h poll_tearing
  have hspares : d.SparesItself := by
    obtain ⟨⟨costs, hh⟩, -⟩ := hd
    cases hh with
    | nil => exact sparesItself_tearing
    | cons hs _ => cases (congrArg Prod.fst hs).symm.trans execute_tearing
  obtain ⟨s, hs, ht⟩ := hrecurs d hd hspares
  rw [hf] at ht
  have hother : (build { rate := 2, interval := 0 }).computer.memory.romBoundary = 0x2000 := rfl
  have hboundary : tearing.computer.memory.romBoundary = 0x2000 := rfl
  exact ⟨reachable_tearing, poll_tearing, crash, b', h, hf, s, hs,
    ht _ (hother.trans hboundary.symm) 2⟩

end Arcade8080.Board
