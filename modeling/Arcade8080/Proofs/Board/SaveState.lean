import Arcade8080.Proofs.Board.Reachable
import Arcade8080.Proofs.Saved.RoundTrip

/-!
# Save states

Restoring into any board what was saved of a board makes the two indistinguishable
to a further save. It needs bit 3 of the saved port 1 to be one, as restoring
forces it, and that is so for every board that a host can come by. What a save
file leaves out is not touched.
-/

namespace Arcade8080.Board

/-- Two boards that agree in all that a save file leaves out, but for the end of the image. -/
structure SameUnsaved (b b' : Board) : Prop where
  romBoundary : b'.computer.memory.romBoundary = b.computer.memory.romBoundary
  dip : b'.computer.bus.dip = b.computer.bus.dip
  out3 : b'.computer.bus.out3 = b.computer.bus.out3
  out5 : b'.computer.bus.out5 = b.computer.bus.out5
  latch : b'.latch = b.latch
  pending : b'.pending = b.pending
  timer : b'.timer = b.timer
  pacer : b'.pacer = b.pacer
  settings : b'.settings = b.settings

theorem sameUnsaved_restore (b : Board) (s : SavedBoard) : SameUnsaved b (b.restore s) where
  romBoundary := rfl
  dip := rfl
  out3 := rfl
  out5 := rfl
  latch := rfl
  pending := rfl
  timer := rfl
  pacer := rfl
  settings := rfl

/-- A save with the wired bit set is what a board saves after restoring it. -/
theorem save_restore {s : SavedBoard} (h : s.in1 ||| Ports.wired = s.in1) (b : Board) :
    (b.restore s).save = s := by
  rcases s with ⟨⟨bytes, processor⟩, shifter, in1, in2⟩
  replace h : in1 ||| Ports.wired = in1 := h
  show SavedBoard.mk ⟨bytes, processor⟩ shifter (in1 ||| Ports.wired) in2 = _
  rw [h]

/-- **A save state survives its way through bytes into another board.** The bytes of
what a reachable board saves are read back, and the board they are restored into,
whatever it was before, saves the same from then on. The image ends at the top of
memory, and all else that is not in the file stays. -/
theorem saved_bytes_restore {b : Board} (hb : b.Reachable) (other : Board) :
    ∃ s, SavedBoard.decode b.save.encode = .ok s ∧
      (other.restore s).save = b.save ∧
      (other.restore s).computer.memory.programEnd = 65536 ∧
      SameUnsaved other (other.restore s) := by
  have hd : SavedBoard.decode b.save.encode = .ok b.save := by
    have h := SavedBoard.decode_encode_append b.save []
    rwa [List.append_nil] at h
  have hw : b.save.in1 ||| Ports.wired = b.save.in1 := hb.obtainable.wired
  exact ⟨b.save, hd, save_restore hw other, rfl, sameUnsaved_restore other b.save⟩

/-- A coin inserted on one board arrives on a board with other switches and more ROM. -/
theorem saved_coin_restores :
    let b := (build {}).press .coin true
    let other := build { romBoundary := 0x4000, dip := { shipsPerCredit := 6 } }
    b.Reachable ∧ ∃ s, SavedBoard.decode b.save.encode = .ok s ∧
      (other.restore s).save = b.save ∧
      (other.restore s).computer.bus.in1 = 0x09 ∧
      (other.restore s).computer.bus.dip.shipsPerCredit = 6 ∧
      (other.restore s).computer.memory.romBoundary = 0x4000 := by
  intro b other
  have hb : b.Reachable := by
    refine ⟨{}, [.reset, .press .coin true], ?_, .cons rfl (.cons rfl (.nil _))⟩
    simp [Operation.Genuine]
  obtain ⟨s, hd, hs, -, hu⟩ := saved_bytes_restore hb other
  refine ⟨hb, s, hd, hs, ?_, congrArg DipSwitches.shipsPerCredit hu.dip, hu.romBoundary⟩
  exact congrArg SavedBoard.in1 hs

end Arcade8080.Board
