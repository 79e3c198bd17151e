import Mathlib

/-!
# Integers as binary64 numbers

Lean models a double by its bits and computes with it unpacked, as a sign, a
mantissa and an exponent.  `number` is the rational number such a double stands
for.  An integer of at most 53 bits has a normal representation without a
remainder, which rounding finds and packing keeps, however the integer was
scaled before.
-/

namespace Basis.Binary64

open Float.Model Float.Model.UnpackedFloat

/-- The number that an unpacked float stands for. -/
def value : UnpackedFloat → Option ℚ
  | .zero _ => some 0
  | .finite sign mantissa exponent _ =>
      some ((sign.apply mantissa : ℤ) * (2 : ℚ) ^ exponent)
  | _ => none

/-- The number that a double stands for, if it is finite. -/
def number (double : Float.Model) : Option ℚ := value double.unpack

theorem log2_mul_two_pow {natural : Nat} (positive : 0 < natural)
    (shift : Nat) : (natural * 2 ^ shift).log2 = natural.log2 + shift := by
  have bounds := (Nat.log2_eq_iff positive.ne').mp rfl
  rw [Nat.log2_eq_iff (Nat.mul_ne_zero positive.ne' (by positivity))]
  constructor
  · rw [Nat.pow_add]
    exact Nat.mul_le_mul_right _ bounds.1
  · rw [Nat.add_right_comm, Nat.pow_add]
    exact Nat.mul_lt_mul_of_pos_right bounds.2 (by positivity)

/-- A mantissa of 53 bits and an exponent that a double can have. -/
structure Normal (mantissa : Nat) (exponent : Int) : Prop where
  lower : 2 ^ 52 ≤ mantissa
  upper : mantissa < 2 ^ 53
  least : -1074 ≤ exponent
  greatest : exponent ≤ 971

namespace Normal

variable {mantissa : Nat} {exponent : Int}

theorem pos (normal : Normal mantissa exponent) : 0 < mantissa :=
  lt_of_lt_of_le (by norm_num) normal.lower

theorem log2 (normal : Normal mantissa exponent) : mantissa.log2 = 52 :=
  (Nat.log2_eq_iff normal.pos.ne').mpr ⟨normal.lower, normal.upper⟩

theorem targetExponent (normal : Normal mantissa exponent) (shift : Nat) :
    Format.binary64.targetExponent
      (totalExponent (mantissa * 2 ^ shift) (exponent - shift)) = exponent := by
  have least := normal.least
  simp only [Format.targetExponent, totalExponent,
    log2_mul_two_pow normal.pos, normal.log2, Format.mantissaBits,
    Format.minExponent]
  norm_num
  omega

end Normal

theorem shiftRight_mul (mantissa shift : Nat) :
    (ExtendedMantissa.mk (mantissa * 2 ^ shift) false false) >>> shift =
      ⟨mantissa, false, false⟩ := by
  change Nat.repeat ExtendedMantissa.shiftRightOne shift _ = _
  induction shift generalizing mantissa with
  | zero => simp [Nat.repeat]
  | succ shift induction =>
      have double := induction (mantissa * 2)
      rw [Nat.mul_assoc, ← Nat.pow_succ'] at double
      rw [Nat.repeat, double]
      simp [ExtendedMantissa.shiftRightOne]

theorem shiftToTargetExponent_normal {mantissa : Nat} {exponent : Int}
    (normal : Normal mantissa exponent) (shift : Nat) :
    shiftToTargetExponent Format.binary64 (mantissa * 2 ^ shift)
        (exponent - shift) .exact =
      (⟨mantissa, false, false⟩, exponent) := by
  have amount : (exponent - (exponent - shift)).toNat = shift := by omega
  simp only [shiftToTargetExponent, normal.targetExponent, shiftToExponent,
    amount, ExtendedMantissa.ofMantissaAndAccuracy, shiftRight_mul]
  congr 1
  omega

/-- Rounding finds the normal representation of a scaled number. -/
theorem roundWithAccuracy_normal {mantissa : Nat} {exponent : Int}
    (normal : Normal mantissa exponent) (sign : Sign) (shift : Nat) :
    roundWithAccuracy Format.binary64 sign (mantissa * 2 ^ shift)
        (exponent - shift) .exact =
      .finite sign mantissa exponent normal.pos := by
  have first := shiftToTargetExponent_normal normal shift
  have second := shiftToTargetExponent_normal normal 0
  simp only [Nat.pow_zero, Nat.mul_one, Nat.cast_zero, sub_zero] at second
  simp only [roundWithAccuracy, first, ExtendedMantissa.roundedMantissa,
    ExtendedMantissa.accuracy, Accuracy.roundToNearestEven, second,
    normal.pos.ne', dite_false]

theorem unpack_packComponents {sign : Sign}
    {exponent : BitVec Format.binary64.exponentBits}
    {mantissa : BitVec Format.binary64.mantissaBitsWithoutImplicit}
    (finite : exponent ≠ -1#_) (notZero : exponent ≠ 0#_)
    (positive : 0 < (1#1 ++ mantissa).toNat) :
    UnpackedFloat.unpack Format.binary64
        (packComponents Format.binary64 sign exponent mantissa) =
      .finite sign (1#1 ++ mantissa).toNat
        (exponent.toNat - (Format.binary64.exponentBias +
          Format.binary64.mantissaBitsWithoutImplicit)) positive := by
  rw [UnpackedFloat.unpack]
  simp only [unpackMantissa_packComponents, unpackExponent_packComponents,
    unpackSign_packComponents, Sign.ofBitVec_toBitVec, if_neg finite,
    if_neg notZero]

/-- The leading bit of a normal mantissa is not stored. -/
theorem implicitBit {mantissa : Nat} (lower : 2 ^ 52 ≤ mantissa)
    (upper : mantissa < 2 ^ 53) :
    (1#1 ++ BitVec.ofNat 52 mantissa).toNat = mantissa := by
  rw [BitVec.toNat_append, ← Nat.shiftLeft_add_eq_or_of_lt (BitVec.isLt _)]
  simp only [BitVec.toNat_ofNat, Nat.shiftLeft_eq]
  omega

theorem Normal.exists_biased {mantissa : Nat} {exponent : Int}
    (normal : Normal mantissa exponent) :
    ∃ biased : Nat, (biased : Int) = exponent + 1075 ∧ 0 < biased ∧
      biased < 2047 := by
  have least := normal.least
  have greatest := normal.greatest
  exact ⟨(exponent + 1075).toNat, by omega, by omega, by omega⟩

theorem pack_normal {mantissa biased : Nat} {exponent : Int}
    (normal : Normal mantissa exponent) (sign : Sign)
    (isBiased : (biased : Int) = exponent + 1075) :
    UnpackedFloat.pack Format.binary64
        (.finite sign mantissa exponent normal.pos) =
      packComponents Format.binary64 sign
        (BitVec.ofNat Format.binary64.exponentBits biased)
        (BitVec.ofNat Format.binary64.mantissaBitsWithoutImplicit
          mantissa) := by
  have greatest := normal.greatest
  have stored : (exponent + Format.binary64.exponentBias +
      Format.binary64.mantissaBitsWithoutImplicit).toNat = biased := by
    change (exponent + (1023 : Nat) + (52 : Nat)).toNat = biased
    omega
  have finite : ¬2 ^ Format.binary64.exponentBits ≤ biased + 1 := by
    change ¬2 ^ 11 ≤ biased + 1
    omega
  have full : mantissa.log2 + 1 = Format.binary64.mantissaBits := by
    rw [normal.log2]
    rfl
  rw [UnpackedFloat.pack, stored, if_neg finite, if_pos full]

theorem unpack_pack_normal {mantissa : Nat} {exponent : Int}
    (normal : Normal mantissa exponent) (sign : Sign) :
    UnpackedFloat.unpack Format.binary64
        (UnpackedFloat.pack Format.binary64
          (.finite sign mantissa exponent normal.pos)) =
      .finite sign mantissa exponent normal.pos := by
  obtain ⟨biased, isBiased, notZero, finite⟩ := normal.exists_biased
  have kept : (BitVec.ofNat Format.binary64.exponentBits biased).toNat =
      biased := by
    change biased % 2 ^ 11 = biased
    omega
  have bits : (1#1 ++ BitVec.ofNat
      Format.binary64.mantissaBitsWithoutImplicit mantissa).toNat =
        mantissa := implicitBit normal.lower normal.upper
  have unbiased : ((BitVec.ofNat Format.binary64.exponentBits biased).toNat :
      Int) - (Format.binary64.exponentBias +
        Format.binary64.mantissaBitsWithoutImplicit) = exponent := by
    rw [kept]
    change (biased : Int) - ((1023 : Nat) + (52 : Nat)) = exponent
    omega
  rw [pack_normal normal sign isBiased,
    unpack_packComponents _ _ (bits.symm ▸ normal.pos)]
  · simp only [bits, unbiased]
  · intro same
    have numbers := congrArg BitVec.toNat same
    rw [kept] at numbers
    change biased = 2047 at numbers
    omega
  · intro same
    have numbers := congrArg BitVec.toNat same
    rw [kept] at numbers
    change biased = 0 at numbers
    omega

/-- A double that is packed from a normal representation. -/
def packed {mantissa : Nat} {exponent : Int} (sign : Sign)
    (normal : Normal mantissa exponent) : Float.Model :=
  Float.Model.pack (.finite sign mantissa exponent normal.pos)

theorem unpack_packed {mantissa : Nat} {exponent : Int} (sign : Sign)
    (normal : Normal mantissa exponent) :
    (packed sign normal).unpack =
      .finite sign mantissa exponent normal.pos :=
  unpack_pack_normal normal sign

/-- The natural number has a normal representation without a remainder. -/
structure Normalizes (natural mantissa shift : Nat) : Prop where
  normal : Normal mantissa (shift - 53)
  scaled : natural * 2 ^ 53 = mantissa * 2 ^ shift

theorem exists_normalizes {natural : Nat} (positive : 0 < natural)
    (short : natural ≤ 2 ^ 53) :
    ∃ mantissa shift, Normalizes natural mantissa shift := by
  rcases short.lt_or_eq with shorter | rfl
  · have bounds := (Nat.log2_eq_iff positive.ne').mp rfl
    have small : natural.log2 < 53 := (Nat.log2_lt positive.ne').mpr shorter
    refine ⟨natural * 2 ^ (52 - natural.log2), natural.log2 + 1, ?_, ?_⟩
    · constructor
      · calc
          2 ^ 52 = 2 ^ natural.log2 * 2 ^ (52 - natural.log2) := by
            rw [← Nat.pow_add]
            congr 1
            omega
          _ ≤ natural * 2 ^ (52 - natural.log2) :=
            Nat.mul_le_mul_right _ bounds.1
      · calc
          natural * 2 ^ (52 - natural.log2) <
              2 ^ (natural.log2 + 1) * 2 ^ (52 - natural.log2) :=
            Nat.mul_lt_mul_of_pos_right bounds.2 (by positivity)
          _ = 2 ^ 53 := by
            rw [← Nat.pow_add]
            congr 1
            omega
      · omega
      · omega
    · rw [Nat.mul_assoc, ← Nat.pow_add]
      congr 2
      omega
  · exact ⟨2 ^ 52, 54, ⟨by norm_num, by norm_num, by norm_num, by norm_num⟩,
      by norm_num⟩

namespace Normalizes

variable {natural mantissa shift : Nat}

theorem pos (normalizes : Normalizes natural mantissa shift) :
    0 < natural := by
  have scaled := normalizes.scaled
  have positive := normalizes.normal.pos
  by_contra none
  obtain rfl : natural = 0 := by omega
  have : 0 < mantissa * 2 ^ shift := by positivity
  omega

theorem round_eq (normalizes : Normalizes natural mantissa shift)
    (sign : Sign) :
    UnpackedFloat.round Format.binary64 sign natural 0 =
      .finite sign mantissa (shift - 53) normalizes.normal.pos := by
  have total : totalExponent natural 0 =
      totalExponent (mantissa * 2 ^ shift) ((shift - 53 : Int) - shift) := by
    rw [← normalizes.scaled, totalExponent, totalExponent,
      log2_mul_two_pow normalizes.pos]
    omega
  have target : Format.binary64.targetExponent (totalExponent natural 0) =
      shift - 53 := by
    rw [total, normalizes.normal.targetExponent]
  have amount : ((0 : Int) - (shift - 53)).toNat = 53 - shift := by omega
  have shifted : natural <<< (53 - shift) = mantissa * 2 ^ (shift - 53) := by
    rw [Nat.shiftLeft_eq]
    apply Nat.eq_of_mul_eq_mul_right (show 0 < 2 ^ 53 by norm_num)
    calc
      natural * 2 ^ (53 - shift) * 2 ^ 53 =
          mantissa * (2 ^ shift * 2 ^ (53 - shift)) := by
        rw [Nat.mul_right_comm, normalizes.scaled, Nat.mul_assoc]
      _ = mantissa * (2 ^ (shift - 53) * 2 ^ 53) := by
        rw [← Nat.pow_add, ← Nat.pow_add]
        congr 2
        omega
      _ = mantissa * 2 ^ (shift - 53) * 2 ^ 53 := by rw [Nat.mul_assoc]
  have lowered : (0 : Int) - (53 - shift : Nat) =
      (shift - 53 : Int) - (shift - 53 : Nat) := by
    omega
  simp only [UnpackedFloat.round, target, decreaseExponent, amount, shifted,
    lowered]
  exact roundWithAccuracy_normal normalizes.normal sign (shift - 53)

theorem ofInt_eq (normalizes : Normalizes natural mantissa shift) :
    Float.Model.ofInt natural = packed .positive normalizes.normal := by
  have positive : compare (natural : Int) 0 = .gt :=
    Int.compare_eq_gt.mpr (by have := normalizes.pos; omega)
  simp only [Float.Model.ofInt, UnpackedFloat.ofInt, UnpackedFloat.normalize,
    positive, Int.toNat_natCast, normalizes.round_eq]
  rfl

theorem ofInt_neg_eq (normalizes : Normalizes natural mantissa shift) :
    Float.Model.ofInt (-natural) = packed .negative normalizes.normal := by
  have negative : compare (-natural : Int) 0 = .lt :=
    Int.compare_eq_lt.mpr (by have := normalizes.pos; omega)
  simp only [Float.Model.ofInt, UnpackedFloat.ofInt, UnpackedFloat.normalize,
    negative, Int.neg_neg, Int.toNat_natCast, normalizes.round_eq]
  rfl

/-- A decimal without an exponent, which is scaled before it is rounded. -/
theorem ofScientific_eq (normalizes : Normalizes natural mantissa shift) :
    Float.Model.ofScientific natural 0 =
      packed .positive normalizes.normal := by
  have scaled : natural <<< Format.binary64.mantissaBits =
      mantissa * 2 ^ shift := by
    rw [Nat.shiftLeft_eq]
    exact normalizes.scaled
  have lowered : -(Format.binary64.mantissaBits : Int) =
      (shift - 53 : Int) - shift := by
    change -((53 : Nat) : Int) = _
    omega
  have rounded :=
    roundWithAccuracy_normal normalizes.normal .positive shift
  have notHuge : ¬(0 : Int) > 2 ^ Format.binary64.exponentBits := by
    simp
  have notTiny : ¬(0 : Int) <
      -(2 ^ Format.binary64.exponentBits + natural.log2) := by
    have : (0 : Int) ≤ 2 ^ Format.binary64.exponentBits := by positivity
    omega
  rw [Float.Model.ofScientific, UnpackedFloat.ofScientific,
    dif_neg normalizes.pos.ne', if_neg notHuge, if_neg notTiny,
    if_pos (le_refl 0)]
  simp only [UnpackedFloat.mul, scaled, lowered, Int.toNat_zero, Nat.pow_zero,
    Nat.mul_one, Int.add_zero]
  exact congrArg Float.Model.pack rounded

theorem number_packed (normalizes : Normalizes natural mantissa shift)
    (sign : Sign) :
    number (packed sign normalizes.normal) =
      some ((sign.apply natural : ℤ) : ℚ) := by
  have scaled : (natural : ℚ) * 2 ^ 53 = mantissa * 2 ^ shift := by
    exact_mod_cast normalizes.scaled
  have power : (2 : ℚ) ^ ((shift : ℤ) - 53) = 2 ^ shift / 2 ^ 53 := by
    rw [zpow_sub₀ (by norm_num), zpow_natCast]
    norm_num
  have magnitude : (mantissa : ℚ) * 2 ^ ((shift : ℤ) - 53) = natural := by
    rw [power, ← mul_div_assoc, ← scaled]
    exact mul_div_cancel_right₀ _ (by norm_num)
  rw [number, unpack_packed, value]
  cases sign with
  | positive => simpa [Sign.apply] using magnitude
  | negative => simpa [Sign.apply] using magnitude

theorem neg_packed (normalizes : Normalizes natural mantissa shift) :
    (packed .positive normalizes.normal).neg =
      packed .negative normalizes.normal := by
  rw [Float.Model.neg, unpack_packed]
  rfl

end Normalizes

theorem natural_cases {natural : Nat} (short : natural ≤ 2 ^ 53) :
    natural = 0 ∨ ∃ mantissa shift, Normalizes natural mantissa shift := by
  rcases Nat.eq_zero_or_pos natural with zero | positive
  · exact Or.inl zero
  · exact Or.inr (exists_normalizes positive short)

/-- An integer of at most 53 bits is a double. -/
theorem number_ofInt {integer : Int} (short : integer.natAbs ≤ 2 ^ 53) :
    number (Float.Model.ofInt integer) = some (integer : ℚ) := by
  rcases natural_cases short with zero | ⟨mantissa, shift, normalizes⟩
  · obtain rfl : integer = 0 := by omega
    rfl
  · rcases Int.natAbs_eq integer with positive | negative
    · rw [positive, normalizes.ofInt_eq, normalizes.number_packed]
      rfl
    · rw [negative, normalizes.ofInt_neg_eq, normalizes.number_packed]
      rfl

theorem ofScientific_eq_ofInt {natural : Nat} (short : natural ≤ 2 ^ 53) :
    Float.Model.ofScientific natural 0 = Float.Model.ofInt natural := by
  rcases natural_cases short with rfl | ⟨mantissa, shift, normalizes⟩
  · rfl
  · rw [normalizes.ofScientific_eq, normalizes.ofInt_eq]

theorem neg_ofInt {natural : Nat} (positive : 0 < natural)
    (short : natural ≤ 2 ^ 53) :
    (Float.Model.ofInt natural).neg = Float.Model.ofInt (-natural) := by
  obtain ⟨mantissa, shift, normalizes⟩ := exists_normalizes positive short
  rw [normalizes.ofInt_eq, normalizes.ofInt_neg_eq, normalizes.neg_packed]

end Basis.Binary64
