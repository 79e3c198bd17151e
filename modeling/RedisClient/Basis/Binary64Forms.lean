import RedisClient.Basis.Binary64

/-!
# The forms of a double

A double is infinite, not a number, zero, subnormal or normal, and is packed
from what is unpacked of it.  A normal number has only one representation.
-/

namespace Basis.Binary64

open Float.Model Float.Model.UnpackedFloat

theorem Normal.exponent_le {mantissa mantissa' : Nat} {exponent exponent' : Int}
    (normal : Normal mantissa exponent) (normal' : Normal mantissa' exponent')
    (notAbove : (mantissa : ℚ) * 2 ^ exponent ≤ mantissa' * 2 ^ exponent') :
    exponent ≤ exponent' := by
  have two : (0 : ℚ) < 2 := by norm_num
  have lower : ((2 ^ 52 : Nat) : ℚ) ≤ mantissa := by
    exact_mod_cast normal.lower
  have upper : (mantissa' : ℚ) < (2 ^ 53 : Nat) := by
    exact_mod_cast normal'.upper
  push_cast at lower upper
  have powers : (2 : ℚ) ^ ((52 : Int) + exponent) <
      2 ^ ((53 : Int) + exponent') := by
    rw [zpow_add₀ two.ne', zpow_add₀ two.ne']
    calc
      (2 : ℚ) ^ (52 : Int) * 2 ^ exponent ≤ mantissa * 2 ^ exponent :=
        mul_le_mul_of_nonneg_right lower (zpow_pos two _).le
      _ ≤ mantissa' * 2 ^ exponent' := notAbove
      _ < 2 ^ (53 : Int) * 2 ^ exponent' :=
        mul_lt_mul_of_pos_right upper (zpow_pos two _)
  have exponents := (zpow_lt_zpow_iff_right₀ (by norm_num)).mp powers
  omega

theorem Normal.unique {mantissa mantissa' : Nat} {exponent exponent' : Int}
    (normal : Normal mantissa exponent) (normal' : Normal mantissa' exponent')
    (same : (mantissa : ℚ) * 2 ^ exponent = mantissa' * 2 ^ exponent') :
    mantissa = mantissa' ∧ exponent = exponent' := by
  have exponents := le_antisymm (normal.exponent_le normal' same.le)
    (normal'.exponent_le normal same.ge)
  subst exponents
  have positive : (0 : ℚ) < 2 ^ exponent := by positivity
  exact ⟨Nat.cast_injective (mul_right_cancel₀ positive.ne' same), rfl⟩

theorem Normal.two_zpow_le {mantissa : Nat} {exponent : Int}
    (normal : Normal mantissa exponent) :
    (2 : ℚ) ^ (-1022 : Int) ≤ mantissa * 2 ^ exponent := by
  have two : (0 : ℚ) < 2 := by norm_num
  have lower : ((2 ^ 52 : Nat) : ℚ) ≤ mantissa := by
    exact_mod_cast normal.lower
  have split : (-1022 : Int) = (52 : Nat) + -1074 := by norm_num
  push_cast at lower
  rw [split, zpow_add₀ two.ne', zpow_natCast]
  exact mul_le_mul lower
    (zpow_le_zpow_right₀ (by norm_num) normal.least)
    (zpow_pos two _).le (Nat.cast_nonneg _)

theorem neg_packed {mantissa : Nat} {exponent : Int}
    (normal : Normal mantissa exponent) :
    (packed .positive normal).neg = packed .negative normal := by
  rw [Float.Model.neg, unpack_packed]
  rfl

/-- Every double is packed from a sign, an exponent and a mantissa. -/
theorem exists_packComponents (bits : BitVec Format.binary64.numBits) :
    ∃ sign exponent mantissa,
      bits = packComponents Format.binary64 sign exponent mantissa := by
  refine ⟨.ofBitVec (unpackSign bits), unpackExponent bits,
    unpackMantissa bits, ?_⟩
  have signs : ∀ bit : BitVec 1, (Sign.ofBitVec bit).toBitVec = bit := by decide
  rw [packComponents, signs]
  ext index inside
  simp only [unpackSign, unpackExponent, unpackMantissa,
    BitVec.getElem_append, BitVec.getElem_cast, BitVec.extractLsb,
    BitVec.getElem_extractLsb']
  split
  · rw [Nat.zero_add, BitVec.getLsbD_eq_getElem]
  · split
    · have place : 52 + (index - 52) = index := by omega
      rw [place, BitVec.getLsbD_eq_getElem]
    · have place : 52 + 11 + (index - 52 - 11) = index := by omega
      rw [place, BitVec.getLsbD_eq_getElem]

theorem eq_pack {double : Float.Model} {unpacked : UnpackedFloat}
    (bits : double.toBits.toBitVec =
      UnpackedFloat.pack Format.binary64 unpacked) :
    double = Float.Model.pack unpacked := by
  obtain ⟨⟨stored⟩, valid⟩ := double
  cases bits
  rfl

theorem pack_subnormal {mantissa : Nat} (positive : 0 < mantissa)
    (small : mantissa < 2 ^ 52) (sign : Sign) :
    UnpackedFloat.pack Format.binary64
        (.finite sign mantissa (-1074) positive) =
      packComponents Format.binary64 sign 0#_ (BitVec.ofNat _ mantissa) := by
  have bits : mantissa.log2 + 1 ≠ Format.binary64.mantissaBits := by
    have := (Nat.log2_lt positive.ne').mpr small
    change mantissa.log2 + 1 ≠ 53
    omega
  rw [UnpackedFloat.pack, if_neg (by decide), if_neg bits]

/-- The forms that a double can have. -/
inductive Form : Float.Model → Prop where
  | infinity {sign : Sign} : Form (Float.Model.pack (.infinity sign))
  | notANumber : Form (Float.Model.pack .notANumber)
  | zero {sign : Sign} : Form (Float.Model.pack (.zero sign))
  | subnormal {sign : Sign} {mantissa : Nat} (positive : 0 < mantissa)
      (small : mantissa < 2 ^ 52) :
      Form (Float.Model.pack (.finite sign mantissa (-1074) positive))
  | normal {sign : Sign} {mantissa : Nat} {exponent : Int}
      (normal : Normal mantissa exponent) : Form (packed sign normal)

theorem packComponents_normal
    {exponent : BitVec Format.binary64.exponentBits}
    {mantissa : BitVec Format.binary64.mantissaBitsWithoutImplicit}
    (notLast : exponent ≠ -1#_) (notFirst : exponent ≠ 0#_) (sign : Sign) :
    ∃ natural place, ∃ normal : Normal natural place,
      packComponents Format.binary64 sign exponent mantissa =
        UnpackedFloat.pack Format.binary64
          (.finite sign natural place normal.pos) := by
  have mantissaBound : mantissa.toNat < 2 ^ 52 := mantissa.isLt
  have exponentBound : exponent.toNat < 2 ^ 11 := exponent.isLt
  have positive : exponent.toNat ≠ 0 := fun zero =>
    notFirst (BitVec.eq_of_toNat_eq zero)
  have finite : exponent.toNat ≠ 2047 := fun last =>
    notLast (BitVec.eq_of_toNat_eq last)
  have normal : Normal (2 ^ 52 + mantissa.toNat)
      ((exponent.toNat : Int) - 1075) := by
    constructor <;> omega
  refine ⟨_, _, normal, ?_⟩
  rw [pack_normal normal sign (by omega : (exponent.toNat : Int) = _)]
  congr 1
  · rw [BitVec.ofNat_toNat, BitVec.setWidth_eq]
  · apply BitVec.eq_of_toNat_eq
    rw [BitVec.toNat_ofNat]
    change mantissa.toNat = (2 ^ 52 + mantissa.toNat) % 2 ^ 52
    rw [Nat.add_mod_left, Nat.mod_eq_of_lt mantissaBound]

theorem form (double : Float.Model) : Form double := by
  obtain ⟨sign, exponent, mantissa, bits⟩ :=
    exists_packComponents double.toBits.toBitVec
  by_cases last : exponent = -1#_
  · by_cases zero : mantissa = 0#_
    · rw [last, zero] at bits
      have same : double = Float.Model.pack (.infinity sign) := eq_pack bits
      rw [same]
      exact .infinity
    · have canonical := double.valid.eq_packedNaN
        (by rw [bits, unpackExponent_packComponents, last])
        (by rw [bits, unpackMantissa_packComponents]; exact zero)
      have same : double = Float.Model.pack .notANumber := eq_pack canonical
      rw [same]
      exact .notANumber
  · by_cases first : exponent = 0#_
    · by_cases zero : mantissa = 0#_
      · rw [first, zero] at bits
        have same : double = Float.Model.pack (.zero sign) := eq_pack bits
        rw [same]
        exact .zero
      · have positive : 0 < mantissa.toNat :=
          Nat.pos_of_ne_zero fun none => zero (BitVec.eq_of_toNat_eq none)
        have packed := pack_subnormal positive mantissa.isLt sign
        rw [BitVec.ofNat_toNat, BitVec.setWidth_eq, ← first, ← bits] at packed
        have same := eq_pack packed.symm
        rw [same]
        exact .subnormal positive mantissa.isLt
    · obtain ⟨natural, place, normal, packs⟩ :=
        @packComponents_normal exponent mantissa last first sign
      have same : double = packed sign normal := eq_pack (bits.trans packs)
      rw [same]
      exact .normal normal

theorem unpack_infinity (sign : Sign) :
    (Float.Model.pack (.infinity sign)).unpack = .infinity sign := by
  cases sign <;> rfl

theorem unpack_notANumber :
    (Float.Model.pack .notANumber).unpack = .notANumber := rfl

theorem unpack_zero (sign : Sign) :
    (Float.Model.pack (.zero sign)).unpack = .zero sign := by
  cases sign <;> rfl

theorem unpack_subnormal {mantissa : Nat} (positive : 0 < mantissa)
    (small : mantissa < 2 ^ 52) (sign : Sign) :
    (Float.Model.pack (.finite sign mantissa (-1074) positive)).unpack =
      .finite sign mantissa (-1074) positive := by
  have kept : (BitVec.ofNat 52 mantissa).toNat = mantissa := by
    rw [BitVec.toNat_ofNat, Nat.mod_eq_of_lt small]
  have notZero :
      BitVec.ofNat Format.binary64.mantissaBitsWithoutImplicit mantissa ≠
        0#_ := by
    intro same
    have numbers := congrArg BitVec.toNat same
    change (BitVec.ofNat 52 mantissa).toNat = 0 at numbers
    omega
  have finite : (0#_ : BitVec Format.binary64.exponentBits) ≠ -1#_ := by
    decide
  change UnpackedFloat.unpack Format.binary64
    (UnpackedFloat.pack Format.binary64 _) = _
  rw [pack_subnormal positive small, UnpackedFloat.unpack]
  simp only [unpackMantissa_packComponents, unpackExponent_packComponents,
    unpackSign_packComponents, Sign.ofBitVec_toBitVec, if_neg finite,
    dif_neg notZero, if_true, kept]
  rfl

end Basis.Binary64
