/-!
# The bus

What a computer needs from its devices: an answer for each port that is read,
and a reaction to each byte written to a port. Either may change the devices.

A bus can also be empty. Then nothing is attached, and the computer does not ask
it for anything.
-/

namespace Arcade8080

class Bus (β : Type) where
  attached : β → Bool := fun _ => true
  input : β → UInt8 → UInt8 × β
  output : β → UInt8 → UInt8 → β

variable {α β : Type}

/-- `none` is the empty bus. -/
instance [Bus β] : Bus (Option β) where
  attached bus := bus.any Bus.attached
  input
    | none, _ => (0, none)
    | some device, port =>
      let (value, device) := Bus.input device port
      (value, some device)
  output bus port value := bus.map fun device => Bus.output device port value

/-- One of two kinds of devices. -/
instance [Bus α] [Bus β] : Bus (α ⊕ β) where
  attached
    | .inl device => Bus.attached device
    | .inr device => Bus.attached device
  input
    | .inl device, port =>
      let (value, device) := Bus.input device port
      (value, .inl device)
    | .inr device, port =>
      let (value, device) := Bus.input device port
      (value, .inr device)
  output
    | .inl device, port, value => .inl (Bus.output device port value)
    | .inr device, port, value => .inr (Bus.output device port value)

/-- A transfer over the bus and the byte that was transferred. -/
inductive Access
  | input (port value : UInt8)
  | output (port value : UInt8)
deriving DecidableEq

/-- A bus that remembers every access, the oldest one first. -/
structure Monitored (β : Type) where
  device : β
  accesses : List Access := []

instance [Bus β] : Bus (Monitored β) where
  attached bus := Bus.attached bus.device
  input bus port :=
    let (value, device) := Bus.input bus.device port
    (value, { device := device, accesses := bus.accesses ++ [.input port value] })
  output bus port value :=
    { device := Bus.output bus.device port value
      accesses := bus.accesses ++ [.output port value] }

/-- A bus without devices that answers every read, whatever the port, with the
next byte of a loop of bytes. -/
structure Tape where
  loop : List UInt8
  position : Nat := 0

instance : Bus Tape where
  input tape _ :=
    ((tape.loop[tape.position % tape.loop.length]?).getD 0,
      { tape with position := tape.position + 1 })
  output tape _ _ := tape

end Arcade8080
