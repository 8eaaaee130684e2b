import Arcade8080.Board.Basic
import Arcade8080.Log.Execution

/-!
# The log of the board
-/

namespace Arcade8080

namespace Ports

/-- A read of a port that is not there. -/
def readNotes (port : UInt8) : List Message :=
  if readable port then [] else [⟨.warn, s!"read from unmapped port {port}"⟩]

/-- A write to a port that is not there. -/
def writeNotes (port value : UInt8) : List Message :=
  if writable port then []
  else [⟨.warn, s!"write of {Hex.byte value} to unmapped port {port}"⟩]

end Ports

instance : Bus.Noted Ports where
  inputNotes _ := Ports.readNotes
  outputNotes _ := Ports.writeNotes

def SoundEvent.message (e : SoundEvent) : Message :=
  ⟨.debug, "sound " ++ e.sound.name ++ (if e.on then " on" else " off")⟩

namespace Board

/-- What loading a program writes. -/
def loadLog (b : Board) (image : List UInt8) : List Message :=
  match b.computer.load image with
  | (.ok (), _) => [⟨.info, s!"loaded {image.length} byte ROM"⟩]
  | (.error _, _) => []

/-- What restoring a save file writes. -/
def restoreLog (s : SavedBoard) : List Message :=
  [⟨.info, s!"restored snapshot at pc=0x{Hex.upperWord s.computer.processor.pc}"⟩]

/-- What a tick writes: the log of the computer, then either the new sound events
or the fault and the processor it left. -/
def tickLog (kept : Level) (b : Board) (now : Float) : Log :=
  let request := (b.timer.poll now).1
  let log := Pacer.tickLog kept b.pacer now request b.computer
  match b.pacer.tick now request b.computer with
  | (.ok _, _, computer) =>
    log ++ (newEvents { b with computer := computer }).map SoundEvent.message
  | (.error fault, _, computer) =>
    log.push ⟨.error, s!"cpu failed: {fault.message} [{computer.processor.text}]"⟩

end Board

end Arcade8080
