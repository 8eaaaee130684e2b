import Arcade8080.Word
import Arcade8080.Text.Hex

/-!
# Memory

64 KiB of bytes, of which those below `romBoundary` refuse to be written by a
program. Loading an image and restoring a saved one are not bound by that.

`programEnd` is the length of the image loaded last. It plays no part in reading
and writing.
-/

namespace Arcade8080

def memorySize : Nat := 65536

structure Memory where
  bytes : Vector UInt8 65536
  romBoundary : UInt16
  programEnd : Nat

/-- A byte on its way to an address. -/
structure Store where
  address : UInt16
  value : UInt8
deriving DecidableEq

/-- Memory as an instruction sees it. -/
abbrev View := UInt16 → UInt8

/-- The word at an address, low byte first. The address after the last is zero. -/
def View.word (view : View) (address : UInt16) : UInt16 :=
  wordOf (view (address + 1)) (view address)

namespace Memory

/-- The boundary of the arcade board. -/
def defaultBoundary : UInt16 := 0x2000

def blank (romBoundary : UInt16) : Memory :=
  { bytes := Vector.replicate 65536 0, romBoundary := romBoundary, programEnd := 0 }

def read (m : Memory) (address : UInt16) : UInt8 :=
  m.bytes.get ⟨address.toNat, address.toNat_lt⟩

theorem read_eq_getElem (m : Memory) (address : UInt16) (h : address.toNat < 65536) :
    m.read address = m.bytes[address.toNat] := rfl

/-- Places a byte without asking. -/
def put (m : Memory) (s : Store) : Memory :=
  { m with bytes := m.bytes.set s.address.toNat s.value s.address.toNat_lt }

/-- Carries out stores in order up to the first refused one, whose address it reports. -/
def storeAll : Memory → List Store → Memory × Option UInt16
  | m, [] => (m, none)
  | m, s :: rest =>
    if s.address < m.romBoundary then (m, some s.address) else storeAll (m.put s) rest

/-- Copies an image to address zero, or answers `none` if it is too long. -/
def load? (m : Memory) (image : List UInt8) : Option Memory :=
  if image.length ≤ 65536 then
    let source := image.toArray
    some { m with
      bytes := Vector.ofFn fun i => (source[i.val]?).getD m.bytes[i]
      programEnd := image.length }
  else none

/-- Replaces all bytes and takes the whole of them for the image. -/
def restore (m : Memory) (bytes : Vector UInt8 65536) : Memory :=
  { m with bytes := bytes, programEnd := 65536 }

/-- The bytes from one address up to, but without, another. -/
def segment (m : Memory) (start stop : Nat) : List UInt8 :=
  (m.bytes.toArray.extract start stop).toList

/-- What there is to say about a memory without listing its bytes. -/
def summary (m : Memory) : String :=
  "Memory \x7b " ++
  s!"rom_boundary: 0x{Hex.upperWord m.romBoundary}, program_end: {m.programEnd}, .." ++ " \x7d"

theorem read_put (m : Memory) (s : Store) (address : UInt16) :
    (m.put s).read address = if s.address = address then s.value else m.read address := by
  simp only [read_eq_getElem _ _ address.toNat_lt, put, Vector.getElem_set]
  by_cases h : s.address = address
  · simp [h]
  · simp [h, UInt16.toNat_inj]

theorem read_blank (boundary address : UInt16) : (blank boundary).read address = 0 := by
  simp [read_eq_getElem _ _ address.toNat_lt, blank]

/-- An image covers what was there from address zero on. -/
theorem read_load? {m n : Memory} {image : List UInt8} (h : m.load? image = some n)
    (address : UInt16) : n.read address = (image[address.toNat]?).getD (m.read address) := by
  unfold load? at h
  split at h
  · rw [Option.some.injEq] at h
    subst h
    simp only [read_eq_getElem _ _ address.toNat_lt, Vector.getElem_ofFn, List.getElem?_toArray]
    rfl
  · cases h

theorem romBoundary_put (m : Memory) (s : Store) : (m.put s).romBoundary = m.romBoundary := rfl

theorem programEnd_put (m : Memory) (s : Store) : (m.put s).programEnd = m.programEnd := rfl

/-- Memories with the same bytes, boundary and end are the same. -/
theorem ext {m n : Memory} (hr : ∀ address, m.read address = n.read address)
    (hb : m.romBoundary = n.romBoundary) (he : m.programEnd = n.programEnd) : m = n := by
  rcases m with ⟨mb, _, _⟩
  rcases n with ⟨nb, _, _⟩
  simp only at hb he
  subst hb he
  suffices mb = nb by rw [this]
  apply Vector.ext
  intro i hi
  have h := hr (UInt16.ofNat i)
  simpa [read_eq_getElem _ _ (UInt16.ofNat i).toNat_lt, Nat.mod_eq_of_lt hi] using h

end Memory

end Arcade8080
