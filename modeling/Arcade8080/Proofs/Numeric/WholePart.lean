import Mathlib

/-!
# Whole parts of numbers

A count below `2 ^ 53` is a number itself: shifted until its mantissa has 53 bits, it is not rounded.
Numbers of that form are compared by their exponents first. Whether a count is below a number or
above it is thus decided by the whole part of the number, which is what is left of it when it is
taken for a count again.

What is no number counts for nothing, and so does what is negative. What is too large counts for the
largest count.
-/

namespace Arcade8080

open Float.Model UnpackedFloat

theorem le_iff_unpacked (x y : Float) :
    x ≤ y ↔ x.toModel.unpack.le y.toModel.unpack = true := by
  show decide (x.toModel ≤ y.toModel) = true ↔ _
  exact decide_eq_true_iff

theorem lt_iff_unpacked (x y : Float) :
    x < y ↔ x.toModel.unpack.lt y.toModel.unpack = true := by
  show decide (x.toModel < y.toModel) = true ↔ _
  exact decide_eq_true_iff

theorem float_le_of_lt {x y : Float} (h : x < y) : x ≤ y := by
  rw [lt_iff_unpacked, UnpackedFloat.lt, beq_iff_eq] at h
  rw [le_iff_unpacked, UnpackedFloat.le, h]
  rfl

/-! ## Mantissas of 53 bits -/

/-- A mantissa that has all of its bits, at an exponent that leaves it so. -/
structure Normal (mantissa : Nat) (exponent : Int) : Prop where
  le_mantissa : 2 ^ 52 ≤ mantissa
  mantissa_lt : mantissa < 2 ^ 53
  le_exponent : -1074 ≤ exponent
  exponent_le : exponent ≤ 971

variable {m k : Nat} {e : Int} {sign : Sign}

theorem Normal.log2_eq (h : Normal m e) : m.log2 = 52 :=
  (Nat.log2_eq_iff (Nat.ne_of_gt (Nat.lt_of_lt_of_le (by decide) h.le_mantissa))).mpr
    ⟨h.le_mantissa, h.mantissa_lt⟩

theorem Normal.shiftToTargetExponent_eq (h : Normal m e) :
    shiftToTargetExponent Format.binary64 m e .exact = (⟨m, false, false⟩, e) := by
  have htarget : Format.binary64.targetExponent (totalExponent m e) = e := by
    have hlog := h.log2_eq
    have hlow := h.le_exponent
    show max ((m.log2 : Int) + 1 + e - 53) (3 - 1024 - 53) = e
    omega
  rw [shiftToTargetExponent, htarget, shiftToExponent, Int.sub_self]
  exact congrArg _ (Int.add_zero e)

/-- Rounding has nothing to do. -/
theorem Normal.roundWithAccuracy_eq (h : Normal m e) (positive : 0 < m) :
    roundWithAccuracy Format.binary64 sign m e .exact =
      .finite sign m e positive := by
  have hrounded : (ExtendedMantissa.mk m false false).roundedMantissa = m := rfl
  simp only [roundWithAccuracy, h.shiftToTargetExponent_eq, hrounded, dif_neg positive.ne']

/-- The leading bit of a mantissa, which is not stored, counts `2 ^ 52`. -/
theorem toNat_leading_append (stored : BitVec 52) :
    (1#1 ++ stored).toNat = 2 ^ 52 + stored.toNat := by
  rw [BitVec.toNat_append, ← Nat.shiftLeft_add_eq_or_of_lt stored.isLt]
  rfl

theorem Normal.pack_eq (h : Normal m e) (positive : 0 < m) :
    UnpackedFloat.pack Format.binary64 (.finite sign m e positive) =
      packComponents Format.binary64 sign (BitVec.ofNat 11 (e + 1023 + 52).toNat)
        (BitVec.ofNat 52 m) := by
  have hfinite : ¬ 2048 ≤ (e + 1023 + 52).toNat + 1 := by
    have := h.exponent_le
    omega
  have hbits : m.log2 + 1 = 53 := congrArg (· + 1) h.log2_eq
  exact (if_neg hfinite).trans (if_pos hbits)

/-- Packing leaves out the leading bit, and unpacking puts it back. -/
theorem Normal.unpack_pack (h : Normal m e) (positive : 0 < m) :
    UnpackedFloat.unpack Format.binary64
      (UnpackedFloat.pack Format.binary64 (.finite sign m e positive)) =
        .finite sign m e positive := by
  have hstored : (1#1 ++ BitVec.ofNat 52 m).toNat = m := by
    rw [toNat_leading_append, BitVec.toNat_ofNat]
    have := h.le_mantissa
    have := h.mantissa_lt
    omega
  rw [h.pack_eq]
  obtain ⟨-, -, hlow, hhigh⟩ := h
  generalize hfield : (e + 1023 + 52).toNat = field
  have hvalue : (BitVec.ofNat 11 field).toNat = field := by
    rw [BitVec.toNat_ofNat]
    omega
  -- The largest exponent is that of infinity, the smallest that of zero.
  have hfinite : BitVec.ofNat 11 field ≠ -1#11 := fun he => by
    have : field = 2047 := hvalue.symm.trans (congrArg BitVec.toNat he)
    omega
  have hnonzero : BitVec.ofNat 11 field ≠ 0#11 := fun he => by
    have : field = 0 := hvalue.symm.trans (congrArg BitVec.toNat he)
    omega
  have hexponent : (field : Int) - (1023 + 52) = e := by omega
  simp only [UnpackedFloat.unpack, unpackMantissa_packComponents, unpackExponent_packComponents,
    unpackSign_packComponents, Sign.ofBitVec_toBitVec, if_neg hfinite, if_neg hnonzero, hstored,
    hvalue]
  congr 1

/-- A mantissa comes with all of its bits, or with the smallest exponent. -/
theorem canonical_of_unpack {bits : BitVec Format.binary64.numBits} {positive : 0 < m}
    (h : UnpackedFloat.unpack Format.binary64 bits = .finite sign m e positive) :
    m < 2 ^ 53 ∧ (2 ^ 52 ≤ m ∨ e = -1074) := by
  unfold UnpackedFloat.unpack at h
  extract_lets stored field shifted signBit sign' at h
  have hstored := stored.isLt
  split at h
  · split at h <;> cases h
  · split at h
    next hzero =>
      split at h
      · cases h
      · have hexponent : (field.toNat : Int) - (1023 + 52) + 1 = e :=
          (UnpackedFloat.finite.inj h).2.2
        have hmantissa : stored.toNat = m := (UnpackedFloat.finite.inj h).2.1
        rw [← hmantissa, ← hexponent, hzero]
        exact ⟨Nat.lt_trans hstored (by decide), Or.inr rfl⟩
    next =>
      have hmantissa : (1#1 ++ stored).toNat = m := (UnpackedFloat.finite.inj h).2.1
      rw [← hmantissa, toNat_leading_append]
      exact ⟨Nat.add_lt_add_left hstored (2 ^ 52), Or.inl (Nat.le_add_right _ _)⟩

/-! ## Counts -/

/-- Shifted to 53 bits, a count that is not zero is a normal mantissa. -/
theorem normal_shiftLeft {n : Nat} (hn : n ≠ 0) (hk : n.log2 + k = 52) :
    Normal (n <<< k) (-k) where
  le_mantissa := by
    rw [← hk, Nat.shiftLeft_eq, Nat.pow_add]
    exact Nat.mul_le_mul_right _ (Nat.log2_self_le hn)
  mantissa_lt := by
    rw [show 53 = n.log2 + 1 + k by omega, Nat.shiftLeft_eq, Nat.pow_add]
    exact Nat.mul_lt_mul_of_pos_right Nat.lt_log2_self (Nat.two_pow_pos k)
  le_exponent := by omega
  exponent_le := by omega

theorem round_count {n : Nat} (hn : n ≠ 0) (hk : n.log2 + k = 52) (positive : 0 < n <<< k) :
    UnpackedFloat.round Format.binary64 .positive n 0 =
      .finite .positive (n <<< k) (-k) positive := by
  have htarget : Format.binary64.targetExponent (totalExponent n 0) = -k := by
    show max ((n.log2 : Int) + 1 + 0 - 53) (3 - 1024 - 53) = -k
    omega
  have hshift : decreaseExponent n 0 (-k) = (n <<< k, -(k : Int)) := by
    have hamount : (0 - -(k : Int)).toNat = k := by omega
    rw [decreaseExponent, hamount, Int.zero_sub]
  simp only [UnpackedFloat.round, htarget, hshift]
  exact (normal_shiftLeft hn hk).roundWithAccuracy_eq positive

theorem unpacked_toFloat {n : UInt32} (hn : n ≠ 0) :
    ∃ (k : Nat) (positive : 0 < n.toNat <<< k), Normal (n.toNat <<< k) (-k) ∧ 0 < k ∧ k ≤ 52 ∧
      n.toFloat.toModel.unpack = .finite .positive (n.toNat <<< k) (-k) positive := by
  have hne : n.toNat ≠ 0 := fun h => hn (UInt32.toNat_inj.mp h)
  have hlog : n.toNat.log2 < 32 := (Nat.log2_lt hne).mpr n.toNat_lt
  have hk : n.toNat.log2 + (52 - n.toNat.log2) = 52 := by omega
  have hnormal := normal_shiftLeft hne hk
  have positive : 0 < n.toNat <<< (52 - n.toNat.log2) :=
    Nat.lt_of_lt_of_le (by decide) hnormal.le_mantissa
  refine ⟨52 - n.toNat.log2, positive, hnormal, by omega, Nat.sub_le _ _, ?_⟩
  show UnpackedFloat.unpack Format.binary64 (UnpackedFloat.pack Format.binary64
    (UnpackedFloat.normalize Format.binary64 n.toNat 0 .positive)) = _
  have hround : UnpackedFloat.normalize Format.binary64 n.toNat 0 .positive =
      UnpackedFloat.round Format.binary64 .positive n.toNat 0 := by
    rw [UnpackedFloat.normalize, Int.compare_eq_gt.mpr (by omega), Int.toNat_natCast]
  rw [hround, round_count hne hk positive, hnormal.unpack_pack]

/-! ## Whole parts -/

theorem mantissa_shiftRight (em : ExtendedMantissa) (n : Nat) :
    (em >>> n).mantissa = em.mantissa / 2 ^ n := by
  show (n.repeat ExtendedMantissa.shiftRightOne em).mantissa = _
  induction n with
  | zero => exact (Nat.div_one _).symm
  | succ n ih =>
    rw [Nat.repeat, Nat.pow_succ, ← Nat.div_div_eq_div_mul, ← ih]
    rfl

/-- The fraction is dropped, whatever the sign. -/
theorem roundToInt_eq (sign : Sign) (m : Nat) (e : Int) :
    roundToInt sign m e = sign.apply ((m <<< e.toNat) / 2 ^ (-e).toNat : Nat) := by
  have hrest : (0 - (e - ((e - 0).toNat : Nat))).toNat = (-e).toNat := by omega
  show sign.apply (ExtendedMantissa.mk (m <<< (e - 0).toNat) false false >>>
    (0 - (e - ((e - 0).toNat : Nat))).toNat).mantissa = _
  rw [mantissa_shiftRight, hrest, Int.sub_zero]

theorem toNat_toUInt32 (x : Float) :
    x.toUInt32.toNat = min (x.toModel.unpack.toInt 0 (2 ^ 32 - 1)).toNat (2 ^ 32 - 1) := by
  show (UInt32.ofNatClamp (x.toModel.unpack.toInt 0 (2 ^ 32 - 1)).toNat).toNat = _
  unfold UInt32.ofNatClamp
  split
  next h => exact (Nat.min_eq_left (Nat.le_of_lt_succ h)).symm
  next h => exact (Nat.min_eq_right (Nat.le_of_succ_le (Nat.not_lt.mp h))).symm

theorem double_le_of_lt {a b : Nat} (n : Nat) (h : a < b) : n * 2 ^ a * 2 ≤ n * 2 ^ b := by
  rw [Nat.mul_assoc, ← Nat.pow_succ]
  exact Nat.mul_le_mul_left n (Nat.pow_le_pow_right (by decide) h)

/-- A larger exponent doubles a number at least, and no mantissa of 53 bits makes up for that. -/
theorem le_whole_part {n : Nat} (hn : n <<< k < 2 ^ 53) (hk : 0 < k) (hk' : k ≤ 52)
    (hm : 2 ^ 52 ≤ m ∨ e = -1074) (h : -(k : Int) < e ∨ (-(k : Int) = e ∧ n <<< k ≤ m)) :
    n ≤ (m <<< e.toNat) / 2 ^ (-e).toNat := by
  replace hm : 2 ^ 52 ≤ m := hm.resolve_right (by omega)
  rw [Nat.le_div_iff_mul_le (Nat.two_pow_pos _), Nat.shiftLeft_eq]
  rw [Nat.shiftLeft_eq] at hn h
  refine Nat.le_trans ?_ (Nat.le_mul_of_pos_right m (Nat.two_pow_pos e.toNat))
  rcases h with hlt | ⟨rfl, hle⟩
  · have hdouble := double_le_of_lt n (show (-e).toNat < k by omega)
    omega
  · rwa [Int.neg_neg, Int.toNat_natCast]

theorem whole_part_le {n : Nat} (hn : 2 ^ 52 ≤ n <<< k) (hm : m < 2 ^ 53)
    (h : ¬ (-(k : Int) < e ∨ (-(k : Int) = e ∧ n <<< k < m))) :
    (m <<< e.toNat) / 2 ^ (-e).toNat ≤ n := by
  have hnegative : e.toNat = 0 := by omega
  rw [hnegative, Nat.shiftLeft_zero]
  rw [Nat.shiftLeft_eq] at hn h
  refine Nat.div_le_of_le_mul ?_
  rw [Nat.mul_comm]
  by_cases heq : -(k : Int) = e
  · rw [← heq, Int.neg_neg, Int.toNat_natCast]
    omega
  · have hdouble := double_le_of_lt n (show k < (-e).toNat by omega)
    omega

theorem le_finite_iff {m' : Nat} {e' : Int} {positive : 0 < m} {positive' : 0 < m'} :
    UnpackedFloat.le (.finite .positive m e positive) (.finite .positive m' e' positive') = true ↔
      e < e' ∨ (e = e' ∧ m ≤ m') := by
  show ((compare e e').then (compare m m')).isLE = true ↔ _
  rw [Ordering.isLE_then_iff_or, Int.compare_eq_lt, Int.compare_eq_eq, Nat.isLE_compare]

theorem lt_finite_iff {m' : Nat} {e' : Int} {positive : 0 < m} {positive' : 0 < m'} :
    UnpackedFloat.lt (.finite .positive m e positive) (.finite .positive m' e' positive') = true ↔
      e < e' ∨ (e = e' ∧ m < m') := by
  show (some ((compare e e').then (compare m m')) == some Ordering.lt) = true ↔ _
  rw [beq_iff_eq, Option.some.injEq, Ordering.then_eq_lt, Int.compare_eq_lt, Int.compare_eq_eq,
    Nat.compare_eq_lt]

/-- A count up to a number is a count up to its whole part. -/
theorem le_toUInt32 {n : UInt32} {x : Float} (h : n.toFloat ≤ x) : n ≤ x.toUInt32 := by
  by_cases hn : n = 0
  · rw [hn]
    exact UInt32.zero_le
  obtain ⟨k, positive, hnormal, hk, hk', hunpacked⟩ := unpacked_toFloat hn
  rw [le_iff_unpacked, hunpacked] at h
  have hlt := n.toNat_lt
  rw [UInt32.le_iff_toNat_le, toNat_toUInt32]
  refine Nat.le_min.mpr ⟨?_, Nat.le_of_lt_succ hlt⟩
  cases hx : x.toModel.unpack with
  | notANumber => rw [hx] at h; cases h
  | zero s => rw [hx] at h; cases h
  | infinity s =>
    rw [hx] at h
    cases s with
    | negative => cases h
    | positive => exact Nat.le_of_lt_succ hlt
  | finite s m e positive' =>
    rw [hx] at h
    cases s with
    | negative => cases h
    | positive =>
      show _ ≤ (roundToInt .positive m e).toNat
      rw [roundToInt_eq]
      exact le_whole_part hnormal.mantissa_lt hk hk' (canonical_of_unpack hx).2
        (le_finite_iff.mp h)

/-- What is not above a count has no larger whole part. -/
theorem toUInt32_le {n : UInt32} {x : Float} (h : ¬ n.toFloat < x) : x.toUInt32 ≤ n := by
  rw [UInt32.le_iff_toNat_le, toNat_toUInt32]
  refine Nat.le_trans (Nat.min_le_left _ _) ?_
  rw [lt_iff_unpacked] at h
  cases hx : x.toModel.unpack with
  | notANumber => exact Nat.zero_le _
  | zero s => exact Nat.zero_le _
  | infinity s =>
    cases s with
    | negative => exact Nat.zero_le _
    | positive =>
      rw [hx] at h
      by_cases hn : n = 0
      · rw [hn] at h
        exact absurd rfl h
      · obtain ⟨k, positive, -, -, -, hunpacked⟩ := unpacked_toFloat hn
        rw [hunpacked] at h
        exact absurd rfl h
  | finite s m e positive' =>
    cases s with
    | negative =>
      show (roundToInt .negative m e).toNat ≤ _
      rw [roundToInt_eq]
      exact Nat.le_trans (Nat.le_of_eq (Int.toNat_neg_natCast _)) (Nat.zero_le _)
    | positive =>
      rw [hx] at h
      by_cases hn : n = 0
      · rw [hn] at h
        exact absurd rfl h
      · obtain ⟨k, positive, hnormal, -, -, hunpacked⟩ := unpacked_toFloat hn
        rw [hunpacked, lt_finite_iff] at h
        show (roundToInt .positive m e).toNat ≤ _
        rw [roundToInt_eq]
        exact whole_part_le hnormal.le_mantissa (canonical_of_unpack hx).1 h

end Arcade8080
