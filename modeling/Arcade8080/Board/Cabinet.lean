/-!
# Switches and controls of the cabinet

The operator sets the DIP switches, the players use the controls. The program
sees both as bits of two input ports.
-/

namespace Arcade8080

structure DipSwitches where
  /-- Three to six; any other number counts as the nearest of these. -/
  shipsPerCredit : UInt8 := 3
  /-- A bonus ship at 1000 points rather than at 1500. -/
  bonusShipEarly : Bool := false
  showCoinInfo : Bool := true
deriving DecidableEq

/-- The bits of the switches in input port 2. -/
def DipSwitches.bits (d : DipSwitches) : UInt8 :=
  UInt8.ofNat (min (max d.shipsPerCredit.toNat 3) 6 - 3 + 8 * d.bonusShipEarly.toNat +
    128 * (!d.showCoinInfo).toNat)

inductive Control
  | coin
  | p1Start
  | p2Start
  | p1Fire
  | p1Left
  | p1Right
  | p2Fire
  | p2Left
  | p2Right
  | tilt
deriving DecidableEq

/-- The two input ports that controls are wired to. -/
inductive InputPort
  | one
  | two
deriving DecidableEq

def Control.port : Control → InputPort
  | .coin | .p2Start | .p1Start | .p1Fire | .p1Left | .p1Right => .one
  | .tilt | .p2Fire | .p2Left | .p2Right => .two

/-- The bit of a control in its port. -/
def Control.line : Control → Nat
  | .coin => 0
  | .p2Start => 1
  | .p1Start => 2
  | .p1Fire => 4
  | .p1Left => 5
  | .p1Right => 6
  | .tilt => 2
  | .p2Fire => 4
  | .p2Left => 5
  | .p2Right => 6

end Arcade8080
