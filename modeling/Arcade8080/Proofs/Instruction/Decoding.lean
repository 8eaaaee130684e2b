import Arcade8080.Instruction.Encoding

/-!
# Which bytes are instructions

Twelve bytes are undefined. Every other byte is the encoding of one instruction,
so that it can be said of a byte in memory which instruction it is.
-/

namespace Arcade8080.Instruction

/-- The bytes that are no instruction. -/
def undefinedBytes : List UInt8 :=
  [0x08, 0x10, 0x18, 0x20, 0x28, 0x30, 0x38, 0xcb, 0xd9, 0xdd, 0xed, 0xfd]

theorem decode?_eq_none_iff (byte : UInt8) :
    decode? byte = none ↔ byte ∈ undefinedBytes := by
  revert byte
  exact forall_byte (by decide +kernel)

/-- Decoding undoes encoding, but for the one instruction that has no byte of its own. -/
theorem decode?_encode {i : Instruction} (h : i ≠ .mov .m .m) : decode? i.encode = some i := by
  cases i with
  | lxi pair => cases pair <;> rfl
  | stax pair => cases pair <;> rfl
  | ldax pair => cases pair <;> rfl
  | inx pair => cases pair <;> rfl
  | dcx pair => cases pair <;> rfl
  | dad pair => cases pair <;> rfl
  | inr operand => cases operand <;> rfl
  | dcr operand => cases operand <;> rfl
  | mvi target => cases target <;> rfl
  | rotate rotation => cases rotation <;> rfl
  | mov target source =>
    cases target <;> cases source <;> first | rfl | exact absurd rfl h
  | operate operation operand => cases operation <;> cases operand <;> rfl
  | operateImmediate operation => cases operation <;> rfl
  | retIf condition => cases condition <;> rfl
  | jmpIf condition => cases condition <;> rfl
  | callIf condition => cases condition <;> rfl
  | pop pair => cases pair <;> rfl
  | push pair => cases pair <;> rfl
  | rst n => revert n; decide
  | _ => rfl

theorem decode?_eq_some_iff {byte : UInt8} {i : Instruction} (h : i ≠ .mov .m .m) :
    decode? byte = some i ↔ byte = i.encode := by
  constructor
  · intro hd
    exact (encode_of_decode? hd).symm
  · rintro rfl
    exact decode?_encode h

end Arcade8080.Instruction
