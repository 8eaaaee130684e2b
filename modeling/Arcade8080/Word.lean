/-!
# Bytes and words

A word is two bytes, the high one worth 256 times the low one. Joining and
splitting are inverse to each other; the lemmas speak about natural numbers, so
that arithmetic on addresses can be settled there.
-/

namespace Arcade8080

/-- The word whose upper half is `high` and whose lower half is `low`. -/
def wordOf (high low : UInt8) : UInt16 := high.toUInt16 * 256 + low.toUInt16

/-- The upper half of a word. -/
def highByte (w : UInt16) : UInt8 := (w / 256).toUInt8

/-- The lower half of a word. -/
def lowByte (w : UInt16) : UInt8 := w.toUInt8

/-- Bit `k` of a byte, counted from the least significant one. -/
def bit (v : UInt8) (k : Nat) : Bool := v.toNat.testBit k

/-- The byte with bit `k` set or cleared. -/
def setBit (v : UInt8) (k : Nat) (on : Bool) : UInt8 :=
  if on then v ||| UInt8.ofNat (1 <<< k) else v &&& ~~~UInt8.ofNat (1 <<< k)

/-- The number that the lower three bits of `n` write. -/
def threeBits (n : Nat) : Fin 8 := ⟨n % 8, Nat.mod_lt n (by decide)⟩

/-- A property of all bytes, checked byte by byte. -/
theorem forall_byte {P : UInt8 → Prop} (h : ∀ n : Fin 256, P (UInt8.ofNat n)) (byte : UInt8) :
    P byte := by
  have hb := h ⟨byte.toNat, byte.toNat_lt⟩
  rwa [UInt8.ofNat_toNat] at hb

theorem toNat_wordOf (high low : UInt8) :
    (wordOf high low).toNat = 256 * high.toNat + low.toNat := by
  have hh := high.toNat_lt
  have hl := low.toNat_lt
  simp only [wordOf, UInt16.toNat_add, UInt16.toNat_mul, UInt8.toNat_toUInt16,
    show (256 : UInt16).toNat = 256 from rfl]
  omega

theorem toNat_highByte (w : UInt16) : (highByte w).toNat = w.toNat / 256 := by
  have hw := w.toNat_lt
  simp only [highByte, UInt16.toNat_toUInt8, UInt16.toNat_div,
    show (256 : UInt16).toNat = 256 from rfl]
  omega

theorem toNat_lowByte (w : UInt16) : (lowByte w).toNat = w.toNat % 256 := by
  simp [lowByte]

theorem highByte_wordOf (high low : UInt8) : highByte (wordOf high low) = high := by
  have hl := low.toNat_lt
  apply UInt8.toNat_inj.mp
  rw [toNat_highByte, toNat_wordOf]
  omega

theorem lowByte_wordOf (high low : UInt8) : lowByte (wordOf high low) = low := by
  have hl := low.toNat_lt
  apply UInt8.toNat_inj.mp
  rw [toNat_lowByte, toNat_wordOf]
  omega

theorem wordOf_bytes (w : UInt16) : wordOf (highByte w) (lowByte w) = w := by
  apply UInt16.toNat_inj.mp
  rw [toNat_wordOf, toNat_highByte, toNat_lowByte]
  omega

end Arcade8080
