/-!
# Differences that cancel

A number less itself is zero, or no number if it was infinite or none to begin with. Neither is
above zero. Zero times anything is a zero or no number, and both are zero as a count.
-/

namespace Arcade8080

open Float.Model UnpackedFloat

theorem unpacked_sub_self (format : Format) (u : UnpackedFloat) :
    UnpackedFloat.sub format u u = .notANumber ∨
      UnpackedFloat.sub format u u = .zero .positive := by
  cases u with
  | notANumber => exact Or.inl rfl
  | infinity sign => cases sign <;> exact Or.inl rfl
  | zero sign => cases sign <;> exact Or.inr rfl
  | finite sign mantissa exponent positive =>
    refine Or.inr ?_
    let aligned : Int := sign.apply (decreaseExponent mantissa exponent (min exponent exponent)).1
    show normalize format (aligned - aligned) _ .positive = _
    rw [Int.sub_self]
    rfl

theorem unpacked_zero_mul (format : Format) (u : UnpackedFloat) :
    UnpackedFloat.mul format (.zero .positive) u = .notANumber ∨
      ∃ sign, UnpackedFloat.mul format (.zero .positive) u = .zero sign := by
  cases u with
  | notANumber => exact Or.inl rfl
  | infinity sign => exact Or.inl rfl
  | zero sign => exact Or.inr ⟨_, rfl⟩
  | finite sign mantissa exponent positive => exact Or.inr ⟨_, rfl⟩

theorem not_pos_sub_self (x : Float) : ¬ 0 < x - x := by
  have hx : x - x =
      Float.ofModel (Float.Model.pack (UnpackedFloat.sub Format.binary64 x.toModel.unpack
        x.toModel.unpack)) := rfl
  rcases unpacked_sub_self Format.binary64 x.toModel.unpack with h | h
  · rw [hx, h]
    decide
  · rw [hx, h]
    decide

theorem toUInt32_zero_mul (x : Float) : (0 * x).toUInt32 = 0 := by
  have hx : (0 * x : Float) =
      Float.ofModel (Float.Model.pack (UnpackedFloat.mul Format.binary64 (.zero .positive)
        x.toModel.unpack)) := rfl
  rcases unpacked_zero_mul Format.binary64 x.toModel.unpack with h | ⟨sign, h⟩
  · rw [hx, h]
    decide
  · rw [hx, h]
    cases sign <;> decide

end Arcade8080
