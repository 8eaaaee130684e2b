import Arcade8080.Board.Cabinet
import Arcade8080.Memory
import Arcade8080.Pacing.FrameTimer
import Arcade8080.Pacing.Pacer

/-!
# Settings of a board

The defaults are those of the arcade board, run at half its speed.
-/

namespace Arcade8080

structure Settings where
  romBoundary : UInt16 := Memory.defaultBoundary
  /-- The most cycles that one tick sets out to spend. -/
  cap : UInt32 := 10000
  /-- Cycles for each microsecond. The arcade machine had two. -/
  rate : UInt32 := 1
  firstDelay : Float := FrameTimer.usualDelay
  interval : Float := FrameTimer.usualInterval
  dip : DipSwitches := {}

namespace Settings

def timer (s : Settings) : FrameTimer := { firstDelay := s.firstDelay, interval := s.interval }

def pacer (s : Settings) : Pacer := Pacer.start s.cap s.rate

end Settings

end Arcade8080
