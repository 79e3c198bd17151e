import RedisClient.Basis.Binary64
import RedisClient.Basis.FixedPoint

/-!
# Rounding to binary64 numbers

While the model rounds, it keeps a mantissa of what it has and how the part
behind the mantissa compares with half a unit.  `Describes` gives this
information its meaning, shifting keeps the meaning, and so rounding finds the
nearest number with 53 bits, and the even one of two.  A decimal with places is
a quotient, which is divided as far as rounding needs.
-/

namespace Basis.Binary64

open Float.Model Float.Model.UnpackedFloat FixedPoint

/-- What the model knows of the part of a number behind its mantissa, in units
of the last place. -/
def Describes : Accuracy → ℚ → Prop
  | .exact, part => part = 0
  | .inexact .lt, part => 0 < part ∧ part < 1 / 2
  | .inexact .eq, part => part = 1 / 2
  | .inexact .gt, part => 1 / 2 < part ∧ part < 1

/-- A mantissa stands for a number with its two bits. -/
def Represents (extended : ExtendedMantissa) (exact : ℚ) : Prop :=
  Describes extended.accuracy (exact - extended.mantissa)

theorem Describes.bounds {accuracy : Accuracy} {part : ℚ}
    (describes : Describes accuracy part) : 0 ≤ part ∧ part < 1 := by
  cases accuracy with
  | exact =>
      cases describes
      norm_num
  | inexact relative =>
      cases relative with
      | lt => exact ⟨describes.1.le, describes.2.trans (by norm_num)⟩
      | eq =>
          cases describes
          norm_num
      | gt => exact ⟨le_trans (by norm_num) describes.1.le, describes.2⟩

theorem describes_accuracyOfFraction {remainder divisor : Nat}
    (below : remainder < divisor) :
    Describes (accuracyOfFraction remainder divisor)
      (remainder / divisor) := by
  have positive : (0 : ℚ) < divisor := by
    exact_mod_cast Nat.zero_lt_of_lt below
  have less : (remainder : ℚ) < divisor := by exact_mod_cast below
  unfold accuracyOfFraction
  split <;> rename_i zero
  · rw [zero, Nat.cast_zero, zero_div]
    rfl
  · have notZero : (0 : ℚ) < remainder := by
      exact_mod_cast Nat.pos_of_ne_zero zero
    rcases lt_trichotomy (2 * remainder) divisor with smaller | same | larger
    · have doubled : (2 : ℚ) * remainder < divisor := by exact_mod_cast smaller
      rw [Nat.compare_eq_lt.mpr smaller]
      refine ⟨div_pos notZero positive, ?_⟩
      rw [div_lt_iff₀ positive]
      linarith
    · have doubled : (2 : ℚ) * remainder = divisor := by exact_mod_cast same
      rw [Nat.compare_eq_eq.mpr same]
      change (remainder : ℚ) / divisor = 1 / 2
      rw [div_eq_iff positive.ne']
      linarith
    · have doubled : (divisor : ℚ) < 2 * remainder := by exact_mod_cast larger
      rw [Nat.compare_eq_gt.mpr larger]
      refine ⟨?_, ?_⟩
      · rw [lt_div_iff₀ positive]
        linarith
      · rw [div_lt_one positive]
        exact less

theorem represents_ofMantissaAndAccuracy {accuracy : Accuracy} {part : ℚ}
    (describes : Describes accuracy part) (mantissa : Nat) :
    Represents (.ofMantissaAndAccuracy mantissa accuracy)
      (mantissa + part) := by
  have kept : (ExtendedMantissa.ofMantissaAndAccuracy mantissa
      accuracy).accuracy = accuracy := by
    cases accuracy with
    | exact => rfl
    | inexact relative => cases relative <;> rfl
  have number : (ExtendedMantissa.ofMantissaAndAccuracy mantissa
      accuracy).mantissa = mantissa := by
    cases accuracy with
    | exact => rfl
    | inexact relative => cases relative <;> rfl
  rw [Represents, kept, number, add_sub_cancel_left]
  exact describes

namespace Represents

variable {extended : ExtendedMantissa} {exact : ℚ}

/-- The bit that is shifted out becomes the round bit, and the bits behind it
are merged. -/
theorem shiftRightOne (represents : Represents extended exact) :
    Represents extended.shiftRightOne (exact / 2) := by
  obtain ⟨mantissa, roundBit, stickyBit⟩ := extended
  have halves : ((mantissa % 2 : Nat) : ℚ) + 2 * ((mantissa / 2 : Nat) : ℚ) =
      mantissa := by
    exact_mod_cast Nat.mod_add_div mantissa 2
  rcases Nat.mod_two_eq_zero_or_one mantissa with even | odd
  · have round : (mantissa % 2 != 0) = false := by simp [even]
    rw [even, Nat.cast_zero, zero_add] at halves
    cases roundBit <;> cases stickyBit <;>
      simp only [Represents, ExtendedMantissa.shiftRightOne, round,
        ExtendedMantissa.accuracy, Describes, Bool.or_false, Bool.or_true]
        at represents ⊢
    · linarith
    · constructor <;> linarith
    · constructor <;> linarith
    · constructor <;> linarith
  · have round : (mantissa % 2 != 0) = true := by simp [odd]
    rw [odd, Nat.cast_one] at halves
    cases roundBit <;> cases stickyBit <;>
      simp only [Represents, ExtendedMantissa.shiftRightOne, round,
        ExtendedMantissa.accuracy, Describes, Bool.or_false, Bool.or_true]
        at represents ⊢
    · linarith
    · constructor <;> linarith
    · constructor <;> linarith
    · constructor <;> linarith

theorem shiftRight (represents : Represents extended exact) (shift : Nat) :
    Represents (extended >>> shift) (exact / 2 ^ shift) := by
  change Represents (Nat.repeat ExtendedMantissa.shiftRightOne shift _) _
  induction shift with
  | zero => simpa [Nat.repeat] using represents
  | succ shift induction =>
      rw [pow_succ, ← div_div]
      exact induction.shiftRightOne

/-- The mantissa and its bits are all that rounding needs. -/
theorem roundedMantissa_eq (represents : Represents extended exact) :
    extended.roundedMantissa = roundEven exact := by
  have bounds := Describes.bounds represents
  have natural : (0 : ℚ) ≤ extended.mantissa := Nat.cast_nonneg _
  have floor : ⌊exact⌋₊ = extended.mantissa := by
    rw [Nat.floor_eq_iff (by linarith)]
    constructor <;> linarith
  unfold Represents at represents
  unfold ExtendedMantissa.roundedMantissa roundEven
  dsimp only
  rw [floor]
  generalize extended.accuracy = accuracy at represents
  cases accuracy with
  | exact =>
      have below : exact - extended.mantissa < 1 / 2 := by
        rw [represents]
        norm_num
      rw [if_pos below]
      rfl
  | inexact relative =>
      cases relative with
      | lt =>
          rw [if_pos represents.2]
          rfl
      | eq =>
          have half : exact - extended.mantissa = 1 / 2 := represents
          rw [half, if_neg (lt_irrefl _), if_neg (lt_irrefl _)]
          rfl
      | gt =>
          rw [if_neg represents.1.not_gt, if_pos represents.1]
          rfl

end Represents

/-- A number has 53 bits before the place of the exponent. -/
structure Scales (exact : ℚ) (exponent : Int) : Prop where
  lower : 2 ^ 52 ≤ exact / 2 ^ exponent
  upper : exact / 2 ^ exponent < 2 ^ 53

theorem exists_scales {exact : ℚ} (positive : 0 < exact) :
    ∃ exponent, Scales exact exponent := by
  have lower := Int.zpow_log_le_self (by norm_num : 1 < 2) positive
  have upper := Int.lt_zpow_succ_log_self (by norm_num : 1 < 2) exact
  have two : (0 : ℚ) < 2 := by norm_num
  rw [Nat.cast_ofNat] at lower upper
  refine ⟨Int.log 2 exact - 52, ?_, ?_⟩
  · rw [le_div_iff₀ (zpow_pos two _), ← zpow_natCast, ← zpow_add₀ two.ne']
    have whole : ((52 : Nat) : Int) + (Int.log 2 exact - 52) =
        Int.log 2 exact := by
      omega
    rwa [whole]
  · rw [div_lt_iff₀ (zpow_pos two _), ← zpow_natCast, ← zpow_add₀ two.ne']
    have whole : ((53 : Nat) : Int) + (Int.log 2 exact - 52) =
        Int.log 2 exact + 1 := by
      omega
    rwa [whole]

section Shift

variable {mantissa shift : Nat} {exponent : Int} {accuracy : Accuracy}
  {part : ℚ}

theorem log2_eq_of_scales (describes : Describes accuracy part)
    (lower : 2 ^ 52 ≤ (mantissa + part) / 2 ^ shift)
    (upper : (mantissa + part) / 2 ^ shift < 2 ^ 53) :
    mantissa.log2 = 52 + shift := by
  have power : (0 : ℚ) < 2 ^ shift := by positivity
  obtain ⟨nonnegative, small⟩ := describes.bounds
  rw [le_div_iff₀ power, ← pow_add] at lower
  rw [div_lt_iff₀ power, ← pow_add] at upper
  have below : 2 ^ (52 + shift) < mantissa + 1 := by
    have : ((2 ^ (52 + shift) : Nat) : ℚ) < (mantissa + 1 : Nat) := by
      push_cast
      linarith
    exact_mod_cast this
  have above : mantissa < 2 ^ (53 + shift) := by
    have : (mantissa : ℚ) < (2 ^ (53 + shift) : Nat) := by
      push_cast
      linarith
    exact_mod_cast this
  have notZero : mantissa ≠ 0 := by
    have : 0 < 2 ^ (52 + shift) := by positivity
    omega
  rw [Nat.log2_eq_iff notZero]
  constructor
  · omega
  · have next : 52 + shift + 1 = 53 + shift := by omega
    rwa [next]

theorem shiftToTargetExponent_of_log2 (least : -1074 ≤ exponent + shift)
    (bits : mantissa.log2 = 52 + shift) :
    shiftToTargetExponent Format.binary64 mantissa exponent accuracy =
      (ExtendedMantissa.ofMantissaAndAccuracy mantissa accuracy >>> shift,
        exponent + shift) := by
  have target : Format.binary64.targetExponent
      (totalExponent mantissa exponent) = exponent + shift := by
    simp only [Format.targetExponent, totalExponent, bits,
      Format.mantissaBits, Format.minExponent]
    norm_num
    omega
  have amount : (exponent + shift - exponent).toNat = shift := by omega
  simp only [shiftToTargetExponent, target, shiftToExponent, amount]

/-- A number with more than 53 bits is rounded to the nearest with 53, which
may have one bit more in front. -/
theorem roundWithAccuracy_scales (describes : Describes accuracy part)
    (lower : 2 ^ 52 ≤ (mantissa + part) / 2 ^ shift)
    (upper : (mantissa + part) / 2 ^ shift < 2 ^ 53)
    (least : -1074 ≤ exponent + shift)
    (greatest : exponent + shift ≤ 971)
    (fits : roundEven ((mantissa + part) / 2 ^ shift) < 2 ^ 53 ∨
      exponent + shift ≤ 970) :
    ∃ rounded place, ∃ normal : Normal rounded place,
      (rounded : ℚ) * 2 ^ place =
        roundEven ((mantissa + part) / 2 ^ shift) *
          2 ^ (exponent + shift) ∧
      ∀ sign, roundWithAccuracy Format.binary64 sign mantissa exponent
        accuracy = .finite sign rounded place normal.pos := by
  have bits := log2_eq_of_scales describes lower upper
  have first :=
    @shiftToTargetExponent_of_log2 _ _ _ accuracy least bits
  have rounds := ((represents_ofMantissaAndAccuracy describes
    mantissa).shiftRight shift).roundedMantissa_eq
  have nonnegative : 0 ≤ (mantissa + part) / 2 ^ shift :=
    le_trans (by norm_num) lower
  have atLeast : 2 ^ 52 ≤ roundEven ((mantissa + part) / 2 ^ shift) :=
    le_roundEven (by exact_mod_cast lower)
  have atMost : roundEven ((mantissa + part) / 2 ^ shift) ≤ 2 ^ 53 :=
    roundEven_le nonnegative (by exact_mod_cast upper.le)
  generalize roundEven ((mantissa + part) / 2 ^ shift) = rounded
    at rounds atLeast atMost fits
  rcases atMost.lt_or_eq with shorter | rfl
  · have normal : Normal rounded (exponent + shift) :=
      ⟨atLeast, shorter, least, greatest⟩
    have second := shiftToTargetExponent_normal normal 0
    simp only [Nat.pow_zero, Nat.mul_one, Nat.cast_zero, sub_zero] at second
    refine ⟨rounded, exponent + shift, normal, rfl, fun sign => ?_⟩
    simp only [roundWithAccuracy, first, rounds, second, normal.pos.ne',
      dite_false]
  · have normal : Normal (2 ^ 52) (exponent + shift + 1) := by
      refine ⟨le_refl _, by norm_num, by omega, ?_⟩
      rcases fits with smaller | room
      · omega
      · omega
    have second := shiftToTargetExponent_normal normal 1
    have doubled : 2 ^ 52 * 2 ^ 1 = 2 ^ 53 := by norm_num
    have place : exponent + shift + 1 - (1 : Nat) = exponent + shift := by
      omega
    rw [doubled, place] at second
    refine ⟨2 ^ 52, exponent + shift + 1, normal, ?_, fun sign => ?_⟩
    · rw [zpow_add_one₀ (by norm_num)]
      norm_num
      ring
    · simp only [roundWithAccuracy, first, rounds, second, normal.pos.ne',
        dite_false]

end Shift

section Quotient

variable {units divisor : Nat} {place : Int}

/-- The exponent that a division aims at leaves no bit in front. -/
theorem log2_sub_le_of_scales (positive : 0 < units) (divides : 0 < divisor)
    (scales : Scales (units / divisor) place) :
    (units.log2 : Int) - divisor.log2 - 53 ≤ place := by
  have two : (0 : ℚ) < 2 := by norm_num
  have below : ((2 ^ units.log2 : Nat) : ℚ) ≤ units := by
    exact_mod_cast Nat.log2_self_le positive.ne'
  have above : (divisor : ℚ) < (2 ^ (divisor.log2 + 1) : Nat) := by
    exact_mod_cast Nat.lt_log2_self
  have upper := scales.upper
  have isPositive : (0 : ℚ) < divisor := by exact_mod_cast divides
  push_cast at below above
  rw [div_lt_iff₀ (zpow_pos two _), div_lt_iff₀ isPositive] at upper
  have powers : (2 : ℚ) ^ (units.log2 : Int) <
      2 ^ ((53 : Int) + place + (divisor.log2 + 1 : Nat)) := by
    rw [zpow_add₀ two.ne', zpow_add₀ two.ne', zpow_natCast, zpow_natCast]
    calc
      (2 : ℚ) ^ units.log2 ≤ units := below
      _ < 2 ^ 53 * 2 ^ place * divisor := upper
      _ < 2 ^ 53 * 2 ^ place * 2 ^ (divisor.log2 + 1) := by
        apply mul_lt_mul_of_pos_left above
        positivity
  have exponents := (zpow_lt_zpow_iff_right₀ (by norm_num)).mp powers
  push_cast at exponents
  omega

/-- A division leaves as many bits as rounding needs, and says what is left
behind them. -/
theorem divCore_scales (positive : 0 < units) (divides : 0 < divisor)
    (scales : Scales (units / divisor) place) (least : -1074 ≤ place) :
    ∃ mantissa exponent accuracy part, ∃ shift : Nat,
      divCore Format.binary64 units 0 divisor 0 =
        (mantissa, exponent, accuracy) ∧
      Describes accuracy part ∧ exponent + shift = place ∧
      (mantissa + part) / 2 ^ shift = (units / divisor : ℚ) / 2 ^ place := by
  have room := log2_sub_le_of_scales positive divides scales
  have aim : min ((0 : Int) - 0) (Format.binary64.targetExponent
      (totalExponent units 0 - totalExponent divisor 0)) ≤ min 0 place := by
    simp only [Format.targetExponent, totalExponent, Format.mantissaBits,
      Format.minExponent]
    norm_num
    omega
  obtain ⟨scale, aims⟩ := Int.exists_eq_neg_ofNat
    (aim.trans (min_le_left 0 place))
  rw [aims] at aim
  have enough := aim.trans (min_le_right 0 place)
  have amount : ((0 : Int) - 0 - -scale).toNat = scale := by omega
  have isPositive : (0 : ℚ) < divisor := by exact_mod_cast divides
  refine ⟨units <<< scale / divisor, -scale,
    accuracyOfFraction (units <<< scale % divisor) divisor,
    (units <<< scale % divisor : Nat) / divisor, (place + scale).toNat,
    ?_, describes_accuracyOfFraction (Nat.mod_lt _ divides), by omega, ?_⟩
  · simp only [divCore, aims, amount]
  · have whole : ((units <<< scale / divisor : Nat) : ℚ) +
        (units <<< scale % divisor : Nat) / divisor =
          units * 2 ^ scale / divisor := by
      rw [eq_div_iff isPositive.ne', add_mul, div_mul_cancel₀ _ isPositive.ne']
      have := Nat.div_add_mod' (units <<< scale) divisor
      rw [Nat.shiftLeft_eq] at this ⊢
      exact_mod_cast this
    have shift : ((place + scale).toNat : Int) = place + scale := by omega
    have power : (2 : ℚ) ^ (place + scale).toNat = 2 ^ place * 2 ^ scale := by
      rw [← zpow_natCast, shift, zpow_add₀ (by norm_num), zpow_natCast]
    rw [whole, power]
    field_simp

theorem ofScientific_scales {places : Nat} (positive : 0 < units)
    (somePlaces : 0 < places) (fewPlaces : places ≤ 2048)
    (scales : Scales (units / (10 ^ places : Nat)) place)
    (least : -1074 ≤ place) (greatest : place ≤ 971)
    (fits : roundEven ((units / (10 ^ places : Nat) : ℚ) / 2 ^ place) < 2 ^ 53 ∨
      place ≤ 970) :
    ∃ rounded exponent, ∃ normal : Normal rounded exponent,
      Float.Model.ofScientific units (-places) = packed .positive normal ∧
      (rounded : ℚ) * 2 ^ exponent =
        roundEven ((units / (10 ^ places : Nat) : ℚ) / 2 ^ place) *
          2 ^ place := by
  have power : 0 < 10 ^ places := by positivity
  obtain ⟨mantissa, exponent, accuracy, part, shift, divided, describes, rfl,
    quotient⟩ := divCore_scales positive power scales least
  have lower := scales.lower
  have upper := scales.upper
  rw [← quotient] at lower upper fits ⊢
  obtain ⟨rounded, last, normal, value, rounds⟩ :=
    roundWithAccuracy_scales describes lower upper least greatest fits
  refine ⟨rounded, last, normal, ?_, value⟩
  have notHuge : ¬(-places : Int) > 2 ^ Format.binary64.exponentBits := by
    have : (0 : Int) ≤ 2 ^ Format.binary64.exponentBits := by positivity
    omega
  have notTiny : ¬(-places : Int) <
      -(2 ^ Format.binary64.exponentBits + units.log2) := by
    norm_num
    omega
  have negative : ¬(0 : Int) ≤ -places := by omega
  have natural : (-(-places : Int)).toNat = places := by omega
  rw [Float.Model.ofScientific, UnpackedFloat.ofScientific,
    dif_neg positive.ne', if_neg notHuge, if_neg notTiny, if_neg negative]
  simp only [UnpackedFloat.div, natural, divided, rounds]
  rfl

end Quotient

end Basis.Binary64
