import Arcade8080.Bus.Basic
import Arcade8080.Fault
import Arcade8080.Memory
import Arcade8080.Processor.Basic

/-!
# Computer

A processor, its memory and its bus.
-/

namespace Arcade8080

structure Computer (β : Type) where
  processor : Processor := .zero
  memory : Memory
  bus : β

namespace Computer

variable {β : Type}

/-- Copies an image to address zero. The processor is not touched. -/
def load (c : Computer β) (image : List UInt8) : Except Fault Unit × Computer β :=
  match c.memory.load? image with
  | some memory => (.ok (), { c with memory := memory })
  | none => (.error (.oversized image.length), c)

/-- Clears the processor and keeps everything else. -/
def reset (c : Computer β) : Computer β := { c with processor := .zero }

/-- Hangs other devices on the bus. -/
def attach (c : Computer β) (bus : β) : Computer β := { c with bus := bus }

/-- Stores bytes as a program would, each under the protection of the ROM. -/
def store (c : Computer β) (stores : List Store) : Except Fault Unit × Computer β :=
  match c with
  | ⟨processor, memory, bus⟩ =>
    match memory.storeAll stores with
    | (memory, none) => (.ok (), ⟨processor, memory, bus⟩)
    | (memory, some address) => (.error (.romWrite address), ⟨processor, memory, bus⟩)

/-! ## What loading does -/

theorem load_accepted (c : Computer β) {image : List UInt8} (h : image.length ≤ 65536) :
    ∃ memory, c.memory.load? image = some memory ∧ memory.programEnd = image.length ∧
      c.load image = (.ok (), { c with memory := memory }) := by
  have hl : c.memory.load? image = some _ := if_pos h
  refine ⟨_, hl, rfl, ?_⟩
  simp only [load, hl]

/-- A refused image leaves no trace. -/
theorem load_refused (c : Computer β) {image : List UInt8} (h : 65536 < image.length) :
    c.load image = (.error (.oversized image.length), c) := by
  have hl : c.memory.load? image = none := if_neg (Nat.not_le.mpr h)
  simp only [load, hl]

theorem read_load (c : Computer β) {image : List UInt8} (h : image.length ≤ 65536)
    (address : UInt16) : (c.load image).2.memory.read address =
      (image[address.toNat]?).getD (c.memory.read address) := by
  obtain ⟨memory, hm, -, hr⟩ := c.load_accepted h
  rw [hr]
  exact Memory.read_load? hm address

theorem programEnd_load (c : Computer β) {image : List UInt8} (h : image.length ≤ 65536) :
    (c.load image).2.memory.programEnd = image.length := by
  obtain ⟨memory, -, hend, hr⟩ := c.load_accepted h
  rw [hr, hend]

theorem romBoundary_load (image : List UInt8) (c : Computer β) :
    (c.load image).2.memory.romBoundary = c.memory.romBoundary := by
  by_cases hl : image.length ≤ 65536
  · simp only [load, Memory.load?, if_pos hl]
  · simp only [load, Memory.load?, if_neg hl]

theorem processor_load (image : List UInt8) (c : Computer β) :
    (c.load image).2.processor = c.processor := by
  unfold load
  split <;> rfl

theorem bus_load (image : List UInt8) (c : Computer β) : (c.load image).2.bus = c.bus := by
  unfold load
  split <;> rfl

/-- Storing does not reach the bus. -/
theorem bus_store (stores : List Store) (c : Computer β) : (c.store stores).2.bus = c.bus := by
  rcases c with ⟨p, memory, bus⟩
  simp only [store]
  split <;> rfl

end Computer

end Arcade8080
