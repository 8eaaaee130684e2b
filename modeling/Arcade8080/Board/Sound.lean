import Arcade8080.Word

/-!
# Sounds

The board has no sound chip. Each sound is an analog circuit that a bit of one
of two output ports switches on and off. The latch reports which switches have
moved since it was looked at last, in a fixed order, so that a host can play
samples.
-/

namespace Arcade8080

inductive Sound
  | ufo
  | fire
  | playerDies
  | invaderDies
  | invader1
  | invader2
  | invader3
  | invader4
  | ufoHit
deriving DecidableEq

namespace Sound

/-- All sounds, in the order of reports. -/
def all : List Sound :=
  [.ufo, .fire, .playerDies, .invaderDies, .invader1, .invader2, .invader3, .invader4, .ufoHit]

/-- Whether a sound is switched on by these outputs. -/
def isOn (s : Sound) (out3 out5 : UInt8) : Bool :=
  match s with
  | .ufo => bit out3 0
  | .fire => bit out3 1
  | .playerDies => bit out3 2
  | .invaderDies => bit out3 3
  | .invader1 => bit out5 0
  | .invader2 => bit out5 1
  | .invader3 => bit out5 2
  | .invader4 => bit out5 3
  | .ufoHit => bit out5 4

def name : Sound → String
  | .ufo => "Ufo"
  | .fire => "Fire"
  | .playerDies => "PlayerDies"
  | .invaderDies => "InvaderDies"
  | .invader1 => "Invader1"
  | .invader2 => "Invader2"
  | .invader3 => "Invader3"
  | .invader4 => "Invader4"
  | .ufoHit => "UfoHit"

end Sound

/-- A sound switched on or off. -/
structure SoundEvent where
  sound : Sound
  on : Bool
deriving DecidableEq

/-- The outputs as they were when the latch was looked at last. -/
structure SoundLatch where
  out3 : UInt8 := 0
  out5 : UInt8 := 0
deriving DecidableEq

namespace SoundLatch

/-- The switches that differ between the latch and the outputs. -/
def events (latch : SoundLatch) (out3 out5 : UInt8) : List SoundEvent :=
  Sound.all.filterMap fun s =>
    if s.isOn out3 out5 = s.isOn latch.out3 latch.out5 then none
    else some ⟨s, s.isOn out3 out5⟩

def update (latch : SoundLatch) (out3 out5 : UInt8) : List SoundEvent × SoundLatch :=
  (latch.events out3 out5, ⟨out3, out5⟩)

end SoundLatch

end Arcade8080
