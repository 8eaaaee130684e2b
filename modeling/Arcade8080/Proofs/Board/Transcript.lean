import Arcade8080.Board.Basic
import Arcade8080.Proofs.Computer.Alike

/-!
# A save file determines what follows

Everything on a board that instructions, interrupts and controls can look at is
in its save file, the boundary of the ROM excepted. Two boards with the same
boundary and the same save therefore answer alike whatever they are told, and
save the same after each command, also after one that fails. They may differ in
the outputs, the switches behind the inputs, the end of the image and all that
surrounds the computer.
-/

namespace Arcade8080

/-- Ports that agree in what is saved of them. -/
structure Ports.Alike (p q : Ports) : Prop where
  shifter : p.shifter = q.shifter
  in1 : p.in1 = q.in1
  in2 : p.in2 = q.in2

namespace Ports

variable {p q : Ports}

theorem Alike.read (h : Alike p q) (port : UInt8) : p.read port = q.read port := by
  unfold Ports.read
  rw [h.shifter, h.in1, h.in2]

/-- Ports 3 and 5 are not saved, and nothing else is written to them. -/
theorem Alike.write (h : Alike p q) (port value : UInt8) :
    Alike (p.write port value) (q.write port value) := by
  unfold Ports.write
  split
  · exact ⟨congrArg (·.setOffset value) h.shifter, h.in1, h.in2⟩
  · exact ⟨h.shifter, h.in1, h.in2⟩
  · exact ⟨congrArg (·.push value) h.shifter, h.in1, h.in2⟩
  · exact ⟨h.shifter, h.in1, h.in2⟩
  · exact h

theorem Alike.press (h : Alike p q) (control : Control) (on : Bool) :
    Alike (p.press control on) (q.press control on) := by
  unfold Ports.press
  split
  · exact ⟨h.shifter, congrArg (setBit · control.line on) h.in1, h.in2⟩
  · exact ⟨h.shifter, h.in1, congrArg (setBit · control.line on) h.in2⟩

theorem indistinct_alike : Bus.Indistinct Alike where
  attached _ := rfl
  input h port := ⟨h.read port, h⟩
  output h port value := h.write port value

end Ports

namespace Board

/-- What a board can be told to do. -/
inductive Command
  | execute
  | interrupt (vector : UInt8)
  | press (control : Control) (on : Bool)

/-- What comes back of a command. -/
inductive Answer
  | executed (result : Except Fault UInt32)
  | interrupted (result : Except Fault Bool)
  | pressed

/-- Carries out a command, which may fail, and answers it. -/
def obey (b : Board) : Command → Answer × Board
  | .execute =>
    let (result, computer) := b.computer.execute
    (.executed result, { b with computer := computer })
  | .interrupt vector =>
    let (result, computer) := b.computer.interrupt vector
    (.interrupted result, { b with computer := computer })
  | .press control on => (.pressed, b.press control on)

/-- The answers to commands given one after the other, each with a save taken after it. -/
def transcript : List Command → Board → List (Answer × SavedBoard)
  | [], _ => []
  | command :: rest, b =>
    let (answer, b) := b.obey command
    (answer, b.save) :: transcript rest b

/-- Boards that agree in what their computers can look at. -/
def Alike (b c : Board) : Prop := Computer.Alike Ports.Alike b.computer c.computer

variable {b c : Board}

theorem alike_of_save (hr : b.computer.memory.romBoundary = c.computer.memory.romBoundary)
    (hs : b.save = c.save) : Alike b c := by
  have hc : b.computer.save = c.computer.save := congrArg SavedBoard.computer hs
  exact {
    processor := congrArg SavedComputer.processor hc
    memory := ⟨congrArg SavedComputer.bytes hc, hr⟩
    bus := ⟨congrArg SavedBoard.shifter hs, congrArg SavedBoard.in1 hs,
      congrArg SavedBoard.in2 hs⟩ }

theorem Alike.save (h : Alike b c) : b.save = c.save := by
  have hc : b.computer.save = c.computer.save := by
    unfold Computer.save
    rw [h.memory.bytes, h.processor]
  show SavedBoard.mk b.computer.save _ _ _ = SavedBoard.mk c.computer.save _ _ _
  rw [hc, h.bus.shifter, h.bus.in1, h.bus.in2]

/-- Alike boards answer a command alike and stay alike. -/
theorem Alike.obey (h : Alike b c) (command : Command) :
    (b.obey command).1 = (c.obey command).1 ∧ Alike (b.obey command).2 (c.obey command).2 := by
  cases command with
  | execute =>
    obtain ⟨ha, hb⟩ := h.execute Ports.indistinct_alike
    exact ⟨congrArg Answer.executed ha, hb⟩
  | interrupt vector =>
    obtain ⟨ha, hb⟩ := h.interrupt vector
    exact ⟨congrArg Answer.interrupted ha, hb⟩
  | press control on => exact ⟨rfl, h.processor, h.memory, h.bus.press control on⟩

theorem Alike.transcript (h : Alike b c) (commands : List Command) :
    transcript commands b = transcript commands c := by
  induction commands generalizing b c with
  | nil => rfl
  | cons command rest ih =>
    obtain ⟨ha, hb⟩ := h.obey command
    simp only [Board.transcript, ha, hb.save, ih hb]

/-- **A save file is complete.** Two boards with the same boundary and the same save
give the same answers to any sequence of commands, and have the same save after
each of them. -/
theorem transcript_of_save
    (hr : b.computer.memory.romBoundary = c.computer.memory.romBoundary)
    (hs : b.save = c.save) (commands : List Command) :
    transcript commands b = transcript commands c :=
  (alike_of_save hr hs).transcript commands

/-- A board differs from a new one in everything that is not saved, and is not found out. -/
theorem transcript_of_disguised_board :
    let b := build {}
    let c : Board :=
      { build { cap := 7, rate := 3, interval := 0 } with
        computer :=
          { memory := (Memory.blank Memory.defaultBoundary).restore b.computer.memory.bytes
            bus := { in1 := Ports.wired, in2 := 0, out3 := 5, out5 := 9,
                     dip := { shipsPerCredit := 6 } } }
        latch := ⟨1, 2⟩
        pending := [⟨.ufo, true⟩] }
    b.computer.memory.programEnd ≠ c.computer.memory.programEnd ∧
      b.computer.bus.dip ≠ c.computer.bus.dip ∧ b.latch ≠ c.latch ∧
      transcript [.press .coin true, .execute, .interrupt 1] b =
        transcript [.press .coin true, .execute, .interrupt 1] c := by
  intro b c
  have hr : b.computer.memory.romBoundary = c.computer.memory.romBoundary := rfl
  have hs : b.save = c.save := rfl
  exact ⟨by decide, by decide, by decide, transcript_of_save hr hs _⟩

end Board

end Arcade8080
