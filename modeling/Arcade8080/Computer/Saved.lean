import Arcade8080.Computer.Basic

/-!
# Saved computers

A save file holds all of memory, the seven registers, the packed flags, the
program counter and the stack pointer with their low bytes first, and the
interrupt latch as one byte. It has a fixed size and no header, so what follows
it can be read on from where it ends.

Bytes that the format does not use are not kept: decoding and encoding again
normalises the flags and the latch. The bus is not saved.
-/

namespace Arcade8080

structure SavedComputer where
  bytes : Vector UInt8 65536
  processor : Processor
deriving DecidableEq

/-- A save file that ended too early. -/
structure Truncated where
  expected : Nat
  actual : Nat
deriving DecidableEq

def Truncated.message (t : Truncated) : String :=
  s!"snapshot truncated: expected {t.expected} bytes, got {t.actual}"

namespace SavedComputer

/-- The length of a save file. -/
def size : Nat := 65536 + 7 + 1 + 2 + 2 + 1

/-- The bytes of a processor in a save file. -/
def encodeProcessor (p : Processor) : List UInt8 :=
  p.regs.toList ++
    [p.flags.pack, lowByte p.pc, highByte p.pc, lowByte p.sp, highByte p.sp,
      UInt8.ofNat p.interruptEnable.toNat]

def encode (s : SavedComputer) : List UInt8 := s.bytes.toList ++ encodeProcessor s.processor

/-- Reads the bytes of a processor, and hands back what follows them. -/
def decodeProcessor? : List UInt8 → Option (Processor × List UInt8)
  | a :: b :: c :: d :: e :: h :: l :: flags :: pcLow :: pcHigh :: spLow :: spHigh :: latch ::
      rest =>
    some ({ regs := { a, b, c, d, e, h, l }
            sp := wordOf spHigh spLow
            pc := wordOf pcHigh pcLow
            flags := Flags.unpack flags
            interruptEnable := latch != 0 }, rest)
  | _ => none

/-- Reads a save file from the front of `data`, and hands back what follows it. -/
def decode (data : List UInt8) : Except Truncated (SavedComputer × List UInt8) :=
  if h : 65536 ≤ data.length then
    match decodeProcessor? (data.drop 65536) with
    | some (processor, rest) =>
      .ok (⟨⟨(data.take 65536).toArray, by simp [h]⟩, processor⟩, rest)
    | none => .error ⟨size, data.length⟩
  else .error ⟨size, data.length⟩

/-- The fields of a save file without its memory. -/
def summary (s : SavedComputer) : String :=
  let r := s.processor.regs
  let f := s.processor.flags
  "CpuSnapshot \x7b regs: Registers \x7b " ++
  s!"a: {r.a}, b: {r.b}, c: {r.c}, d: {r.d}, e: {r.e}, h: {r.h}, l: {r.l}" ++
  " \x7d, flags: ConditionBits \x7b " ++
  s!"zero: {f.zero}, sign: {f.sign}, parity: {f.parity}, carry: {f.carry}, " ++
  s!"aux_carry: {f.auxCarry}" ++ " \x7d, " ++
  s!"pc: 0x{Hex.upperWord s.processor.pc}, sp: 0x{Hex.upperWord s.processor.sp}, " ++
  s!"inte: {s.processor.interruptEnable}, .." ++ " \x7d"

end SavedComputer

namespace Computer

variable {β : Type}

def save (c : Computer β) : SavedComputer := ⟨c.memory.bytes, c.processor⟩

/-- Puts back processor and memory, the ROM included. The bus stays. -/
def restore (c : Computer β) (s : SavedComputer) : Computer β :=
  { c with processor := s.processor, memory := c.memory.restore s.bytes }

end Computer

end Arcade8080
