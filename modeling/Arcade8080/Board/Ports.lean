import Arcade8080.Board.Cabinet
import Arcade8080.Board.Shifter
import Arcade8080.Bus.Basic

/-!
# The ports of the board

Reading: port 0 is fixed, ports 1 and 2 are the controls and switches, port 3 is
the shifter. Writing: ports 2 and 4 go to the shifter, ports 3 and 5 hold the
sound outputs, port 6 is the watchdog, which is taken no notice of. Any other
port reads as zero and ignores what is written.

Bit 3 of port 1 is wired to one.
-/

namespace Arcade8080

structure Ports where
  shifter : Shifter := {}
  in1 : UInt8
  in2 : UInt8
  out3 : UInt8 := 0
  out5 : UInt8 := 0
  dip : DipSwitches

namespace Ports

/-- The bit of port 1 that is always one. -/
def wired : UInt8 := 0x08

/-- What port 0 reads as. -/
def fixedInput : UInt8 := 0x0e

/-- Ports with no control in use and nothing written yet. -/
def idle (dip : DipSwitches) : Ports := { in1 := wired, in2 := dip.bits, dip := dip }

/-- Releases the controls and clears what was written. The switches stay. -/
def reset (p : Ports) : Ports := idle p.dip

def press (p : Ports) (control : Control) (on : Bool) : Ports :=
  match control.port with
  | .one => { p with in1 := setBit p.in1 control.line on }
  | .two => { p with in2 := setBit p.in2 control.line on }

/-- Puts back saved inputs and a saved shifter. -/
def restore (p : Ports) (shifter : Shifter) (in1 in2 : UInt8) : Ports :=
  { p with shifter := shifter, in1 := in1 ||| wired, in2 := in2 }

def read (p : Ports) (port : UInt8) : UInt8 :=
  match port.toNat with
  | 0 => fixedInput
  | 1 => p.in1
  | 2 => p.in2
  | 3 => p.shifter.result
  | _ => 0

def write (p : Ports) (port value : UInt8) : Ports :=
  match port.toNat with
  | 2 => { p with shifter := p.shifter.setOffset value }
  | 3 => { p with out3 := value }
  | 4 => { p with shifter := p.shifter.push value }
  | 5 => { p with out5 := value }
  | _ => p

/-- Whether a port can be read, and whether it can be written. -/
def readable (port : UInt8) : Bool := port.toNat ≤ 3

def writable (port : UInt8) : Bool := 2 ≤ port.toNat && port.toNat ≤ 6

end Ports

instance : Bus Ports where
  input p port := (p.read port, p)
  output p port value := p.write port value

end Arcade8080
