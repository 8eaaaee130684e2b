import Arcade8080.Proofs.Numeric.Cancellation
import Arcade8080.Proofs.Numeric.WholePart

/-!
# Numbers that are at least one

A number that is at least one counts for something when its fraction is dropped. A product of that
size has two factors of one sign, so if one of them was a count, the other one is above zero. Signs
outlive packing.
-/

namespace Arcade8080

open Float.Model UnpackedFloat

theorem unpacked_zero : (0 : Float).toModel.unpack = .zero .positive := rfl

theorem unpacked_one :
    (1 : Float).toModel.unpack = .finite .positive (2 ^ 52) (-52) (by decide) := rfl

/-! ## Signs -/

/-- The number has this sign, if it is a number. -/
def HasSign (sign : Sign) : UnpackedFloat → Prop
  | .notANumber => True
  | .infinity s => s = sign
  | .zero s => s = sign
  | .finite s _ _ _ => s = sign

theorem hasSign_unpack (bits : BitVec Format.binary64.numBits) :
    HasSign (Sign.ofBitVec (unpackSign bits)) (UnpackedFloat.unpack Format.binary64 bits) := by
  unfold UnpackedFloat.unpack
  extract_lets
  split
  · split
    · rfl
    · trivial
  · split
    · split <;> rfl
    · rfl

theorem hasSign_packComponents (sign : Sign) (exponent : BitVec 11) (mantissa : BitVec 52) :
    HasSign sign (UnpackedFloat.unpack Format.binary64
      (packComponents Format.binary64 sign exponent mantissa)) := by
  have h := hasSign_unpack (packComponents Format.binary64 sign exponent mantissa)
  rwa [unpackSign_packComponents, Sign.ofBitVec_toBitVec] at h

/-- Packing keeps the sign, also where it makes a number infinite. -/
theorem HasSign.unpack_pack {sign : Sign} {u : UnpackedFloat} (h : HasSign sign u) :
    HasSign sign (Float.Model.pack u).unpack := by
  show HasSign sign (UnpackedFloat.unpack _ (UnpackedFloat.pack Format.binary64 u))
  cases u with
  | notANumber => trivial
  | infinity s => exact h ▸ hasSign_packComponents s _ _
  | zero s => exact h ▸ hasSign_packComponents s _ _
  | finite s mantissa exponent positive =>
    obtain rfl : s = sign := h
    unfold UnpackedFloat.pack
    extract_lets
    split
    · exact hasSign_packComponents s _ _
    · split <;> exact hasSign_packComponents s _ _

theorem hasSign_roundWithAccuracy (format : Format) (sign : Sign) (mantissa : Nat)
    (exponent : Int) (accuracy : Accuracy) :
    HasSign sign (roundWithAccuracy format sign mantissa exponent accuracy) := by
  unfold roundWithAccuracy
  split
  extract_lets
  split
  extract_lets
  split <;> rfl

theorem HasSign.mul {format : Format} {s t : Sign} {u v : UnpackedFloat} (hu : HasSign s u)
    (hv : HasSign t v) : HasSign (s * t) (UnpackedFloat.mul format u v) := by
  cases u <;> cases v <;> cases hu <;> cases hv <;>
    first
    | trivial
    | exact hasSign_roundWithAccuracy format _ _ _ .exact

theorem hasSign_toFloat (n : UInt32) : HasSign .positive n.toFloat.toModel.unpack := by
  by_cases hn : n = 0
  · rw [hn]
    rfl
  · obtain ⟨k, positive, -, -, -, hunpacked⟩ := unpacked_toFloat hn
    rw [hunpacked]
    rfl

theorem not_one_le_of_negative {x : Float} (h : HasSign .negative x.toModel.unpack) :
    ¬ 1 ≤ x := by
  rw [le_iff_unpacked, unpacked_one]
  cases hx : x.toModel.unpack <;> rw [hx] at h <;> cases h <;> exact Bool.false_ne_true

/-- A number that is neither above zero nor negative is a zero, if it is a number. -/
theorem unpacked_of_not_pos {x : Float} (h : ¬ 0 < x) :
    HasSign .negative x.toModel.unpack ∨ x.toModel.unpack = .zero .positive := by
  rw [lt_iff_unpacked, unpacked_zero] at h
  cases hx : x.toModel.unpack with
  | notANumber => exact Or.inl trivial
  | zero s =>
    cases s with
    | negative => exact Or.inl rfl
    | positive => exact Or.inr rfl
  | infinity s =>
    cases s with
    | negative => exact Or.inl rfl
    | positive => rw [hx] at h; exact absurd rfl h
  | finite s =>
    cases s with
    | negative => exact Or.inl rfl
    | positive => rw [hx] at h; exact absurd rfl h

theorem pos_of_one_le_mul {x : Float} {n : UInt32} (h : 1 ≤ x * n.toFloat) : 0 < x := by
  by_contra hx
  have hproduct : x * n.toFloat = Float.ofModel (Float.Model.pack
      (UnpackedFloat.mul Format.binary64 x.toModel.unpack n.toFloat.toModel.unpack)) := rfl
  rcases unpacked_of_not_pos hx with hsign | hzero
  · refine not_one_le_of_negative ?_ h
    rw [hproduct]
    exact (hsign.mul (hasSign_toFloat n)).unpack_pack
  · rw [hproduct, hzero] at h
    rcases unpacked_zero_mul Format.binary64 n.toFloat.toModel.unpack with hm | ⟨sign, hm⟩
    · rw [hm] at h
      exact absurd h (by decide)
    · rw [hm] at h
      cases sign <;> exact absurd h (by decide)

theorem toUInt32_pos {x : Float} (h : 1 ≤ x) : 0 < x.toUInt32 := by
  have hone : (1 : UInt32).toFloat = 1 := rfl
  exact UInt32.lt_of_lt_of_le (by decide) (le_toUInt32 (hone ▸ h))

end Arcade8080
