import Arcade8080.Board.Ports
import Arcade8080.Board.Settings
import Arcade8080.Board.Sound
import Arcade8080.Computer.Saved

/-!
# The arcade board

A computer with the board's ports on its bus, paced by a clock and interrupted
by the video circuit. A host calls `tick` over and over, and looks at the video
memory and at the sound events in between.

A save file of the board is that of its computer, followed by the shifter and the
two input ports, a byte each.
-/

namespace Arcade8080

structure SavedBoard where
  computer : SavedComputer
  shifter : Shifter
  in1 : UInt8
  in2 : UInt8
deriving DecidableEq

namespace SavedBoard

def size : Nat := SavedComputer.size + 5

def encode (s : SavedBoard) : List UInt8 :=
  s.computer.encode ++ s.shifter.toList ++ [s.in1, s.in2]

/-- Reads a save file of a board. What follows it is not looked at. -/
def decode (data : List UInt8) : Except Truncated SavedBoard :=
  match SavedComputer.decode data with
  | .ok (computer, x :: y :: offset :: in1 :: in2 :: _) =>
    .ok ⟨computer, Shifter.ofBytes x y offset, in1, in2⟩
  | _ => .error ⟨size, data.length⟩

end SavedBoard

/-- A fault of the computer, with the board at that moment. -/
structure Crash where
  fault : Fault
  saved : SavedBoard

def Crash.message (c : Crash) : String :=
  c.fault.message ++ s!" (pc=0x{Hex.upperWord c.saved.computer.processor.pc})"

structure Board where
  computer : Computer Ports
  pacer : Pacer
  timer : FrameTimer
  latch : SoundLatch := {}
  /-- Sound events not fetched yet, the oldest one first. -/
  pending : List SoundEvent := []
  settings : Settings

namespace Board

def videoStart : Nat := 0x2400
def videoEnd : Nat := 0x4000

/-- The screen in pixels, as the player sees it. -/
def screenWidth : Nat := 224
def screenHeight : Nat := 256

def build (settings : Settings) : Board :=
  { computer := { memory := Memory.blank settings.romBoundary, bus := Ports.idle settings.dip }
    pacer := settings.pacer
    timer := settings.timer
    settings := settings }

/-- Copies a program to address zero and goes on there. -/
def loadRom (b : Board) (image : List UInt8) : Except Fault Unit × Board :=
  match b.computer.load image with
  | (.ok (), computer) =>
    (.ok (), { b with computer := { computer with processor.pc := 0 } })
  | (.error fault, computer) => (.error fault, { b with computer := computer })

/-- Resets everything but memory and the pacer. -/
def reset (b : Board) : Board :=
  { b with
    computer := { b.computer.reset with bus := b.computer.bus.reset }
    timer := b.settings.timer
    latch := {}
    pending := [] }

def press (b : Board) (control : Control) (on : Bool) : Board :=
  { b with computer.bus := b.computer.bus.press control on }

def save (b : Board) : SavedBoard :=
  let ports := b.computer.bus
  ⟨b.computer.save, ports.shifter, ports.in1, ports.in2⟩

def restore (b : Board) (s : SavedBoard) : Board :=
  let computer := b.computer.restore s.computer
  { b with computer := { computer with bus := computer.bus.restore s.shifter s.in1 s.in2 } }

/-- The sound events that the outputs would give rise to now. -/
def newEvents (b : Board) : List SoundEvent :=
  b.latch.events b.computer.bus.out3 b.computer.bus.out5

/-- Brings the latch up to date and keeps the events. -/
def latchSounds (b : Board) : Board :=
  let ports := b.computer.bus
  let (events, latch) := b.latch.update ports.out3 ports.out5
  { b with latch := latch, pending := b.pending ++ events }

/-- Fetches the pending sound events. -/
def drain (b : Board) : List SoundEvent × Board := (b.pending, { b with pending := [] })

/-- The bytes of the screen, one bit for each pixel. -/
def video (b : Board) : List UInt8 := b.computer.memory.segment videoStart videoEnd

/-- One tick at `now`: the video interrupt if it is due, or a slice of execution.
Sounds are latched when the tick succeeds. -/
def tick (b : Board) (now : Float) : Except Crash UInt32 × Board :=
  match b with
  | ⟨computer, pacer, timer, latch, pending, settings⟩ =>
    let (request, timer) := timer.poll now
    match pacer.tick now request computer with
    | (.ok cycles, pacer, computer) =>
      (.ok cycles, latchSounds ⟨computer, pacer, timer, latch, pending, settings⟩)
    | (.error fault, pacer, computer) =>
      let b : Board := ⟨computer, pacer, timer, latch, pending, settings⟩
      (.error ⟨fault, b.save⟩, b)

end Board

end Arcade8080
