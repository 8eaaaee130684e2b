import Arcade8080.Board.Basic

/-!
# Decoding a save file

Decoding undoes encoding, whatever follows the file. The memory of a save file
has a fixed length, so it is found again by counting. Each of the other fields
is a byte that its reader undoes: the flags, the halves of a word, the latch,
and the offset of the shifter, which is below eight.
-/

namespace Arcade8080

namespace SavedComputer

theorem decodeProcessor?_encodeProcessor (p : Processor) (rest : List UInt8) :
    decodeProcessor? (encodeProcessor p ++ rest) = some (p, rest) := by
  rcases p with ⟨⟨a, b, c, d, e, h, l⟩, sp, pc, flags, latch⟩
  have hl : (UInt8.ofNat latch.toNat != 0) = latch := by
    cases latch <;> rfl
  show some (_, rest) = some (_, rest)
  rw [wordOf_bytes, wordOf_bytes, Flags.unpack_pack, hl]

/-- The memory of a save file is what it begins with. -/
theorem decode_append (bytes : Vector UInt8 65536) (tail : List UInt8) :
    decode (bytes.toList ++ tail) =
      match decodeProcessor? tail with
      | some (processor, rest) => .ok (⟨bytes, processor⟩, rest)
      | none => .error ⟨size, (bytes.toList ++ tail).length⟩ := by
  have hb : bytes.toList.length = 65536 := Vector.length_toList
  have hl : 65536 ≤ (bytes.toList ++ tail).length := by
    rw [List.length_append, hb]
    exact Nat.le_add_right 65536 tail.length
  have hd : (bytes.toList ++ tail).drop 65536 = tail := List.drop_left' hb
  have ht : (bytes.toList ++ tail).take 65536 = bytes.toList := List.take_left' hb
  unfold decode
  rw [dif_pos hl]
  simp only [hd, ht]
  rfl

theorem decode_encode_append (s : SavedComputer) (rest : List UInt8) :
    decode (s.encode ++ rest) = .ok (s, rest) := by
  rw [encode, List.append_assoc, decode_append, decodeProcessor?_encodeProcessor]

theorem decode_encode (s : SavedComputer) : decode s.encode = .ok (s, []) := by
  have h := s.decode_encode_append []
  rwa [List.append_nil] at h

theorem length_encode (s : SavedComputer) : s.encode.length = 65549 := by
  rw [encode, List.length_append, Vector.length_toList]
  rfl

end SavedComputer

theorem Shifter.ofBytes_toList (s : Shifter) :
    ofBytes s.x s.y (UInt8.ofNat s.offset.val) = s := by
  have ho : threeBits (UInt8.ofNat s.offset.val).toNat = s.offset := by
    apply Fin.ext
    have := s.offset.isLt
    show (UInt8.ofNat s.offset.val).toNat % 8 = s.offset.val
    rw [UInt8.toNat_ofNat']
    omega
  rw [ofBytes, ho]

namespace SavedBoard

theorem decode_encode_append (s : SavedBoard) (rest : List UInt8) :
    decode (s.encode ++ rest) = .ok s := by
  rw [encode, List.append_assoc, List.append_assoc, decode, SavedComputer.decode_encode_append]
  show Except.ok (SavedBoard.mk s.computer _ s.in1 s.in2) = .ok s
  rw [Shifter.ofBytes_toList]

theorem decode_encode (s : SavedBoard) : decode s.encode = .ok s := by
  have h := s.decode_encode_append []
  rwa [List.append_nil] at h

theorem length_encode (s : SavedBoard) : s.encode.length = 65554 := by
  rw [encode, List.append_assoc, List.length_append, SavedComputer.length_encode]
  rfl

/-- The save file of a board begins with that of its computer. -/
theorem encode_computer_prefix (s : SavedBoard) : s.computer.encode <+: s.encode := by
  rw [encode, List.append_assoc]
  exact List.prefix_append s.computer.encode _

end SavedBoard

/-- **Decoding undoes encoding, whatever follows the file.** Save files have a fixed size. A
computer is read from the front of the bytes and the rest is handed back; a board is read
whatever stands behind it, and its computer can be read from the same bytes. -/
theorem decode_of_encode (s : SavedComputer) (b : SavedBoard) (rest : List UInt8) :
    s.encode.length = 65549 ∧
      SavedComputer.decode (s.encode ++ rest) = .ok (s, rest) ∧
      (SavedComputer.decode s.encode).map Prod.fst = .ok s ∧
      b.encode.length = 65554 ∧
      b.computer.encode <+: b.encode ∧
      SavedBoard.decode (b.encode ++ rest) = .ok b := by
  have hs : (SavedComputer.decode s.encode).map Prod.fst = .ok s := by
    rw [s.decode_encode]
    rfl
  exact ⟨s.length_encode, s.decode_encode_append rest, hs, b.length_encode,
    b.encode_computer_prefix, b.decode_encode_append rest⟩

end Arcade8080
