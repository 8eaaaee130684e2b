/-!
# The video interrupt

The arcade board asks for an interrupt twice in each frame: in the middle of the
screen and at its end. The timer is polled. Its first request comes after a
delay counted from the first poll; each further one is due an interval after the
poll that made the request before it, so a late poll makes one request and not
several.

Times are microseconds. A poll makes a request unless its time is at most the
time due, as floating point compares them.
-/

namespace Arcade8080

/-- The place on the screen that asks next. -/
inductive Phase
  | middle
  | bottom
deriving DecidableEq

def Phase.vector : Phase → UInt8
  | .middle => 1
  | .bottom => 2

def Phase.next : Phase → Phase
  | .middle => .bottom
  | .bottom => .middle

/-- The delay before the first request of the arcade board. -/
def FrameTimer.usualDelay : Float := 16000

/-- The interval between later ones, half a frame. -/
def FrameTimer.usualInterval : Float := 8000

structure FrameTimer where
  firstDelay : Float := FrameTimer.usualDelay
  interval : Float := FrameTimer.usualInterval
  due : Option Float := none
  phase : Phase := .middle

namespace FrameTimer

/-- The time due, as a poll at `now` sees it. -/
def dueAt (t : FrameTimer) (now : Float) : Float := t.due.getD (now + t.firstDelay)

/-- The vector requested at `now`, if any. -/
def poll (t : FrameTimer) (now : Float) : Option UInt8 × FrameTimer :=
  if now ≤ t.dueAt now then (none, { t with due := some (t.dueAt now) })
  else
    (some t.phase.vector, { t with due := some (now + t.interval), phase := t.phase.next })

end FrameTimer

end Arcade8080
