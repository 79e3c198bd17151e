import RedisClient.Basis.Binary64Forms
import RedisClient.Basis.Binary64Rounding
import RedisClient.DoublePrinting
import RedisClient.ValueIntegers
import RedisClient.ValueNarrowing

/-!
# Doubles that are sent and read

`incrbyfloat` and `hincrbyfloat` write a double with six places, and a bulk
string with such a text is read by `as<double>`.  Nothing in this is exact in
general: a number is rounded to a millionth, and the millionth to the nearest
double.  But what was read once is written the same again, so that a number is
changed at most once.
-/

namespace RedisClient

open Basis

open Float.Model.UnpackedFloat (Sign)

/-- The double is infinite, not a number, a number of millionths, or so large
that doubles are further apart than millionths. -/
def KeptBySixPlaces (number : Float.Model) : Prop :=
  ∀ exact, Binary64.number number = some exact →
    (∃ units : ℤ, exact * 10 ^ 6 = units) ∨ 2 ^ 33 ≤ |exact|

/-- What is read of the text of a double: it is written the same, and is not
far from the double. -/
structure SurvivesText (number back : Float.Model) : Prop where
  again : toStringDouble back = toStringDouble number
  near : ∀ exact, Binary64.number number = some exact →
    ∃ read, Binary64.number back = some read ∧ |read - exact| < (10 ^ 6)⁻¹
  kept : KeptBySixPlaces number → back = number

theorem SurvivesText.refl (number : Float.Model) :
    SurvivesText number number := by
  refine ⟨rfl, fun exact isNumber => ⟨exact, isNumber, ?_⟩, fun _ => rfl⟩
  rw [sub_self, abs_zero]
  norm_num

/-! ## What is read -/

/-- What `stod` does with a sign. -/
def withSign : Sign → Float.Model → Float.Model
  | .positive, double => double
  | .negative, double => double.neg

theorem stod_printFixed {units : Nat}
    (inRange : (Magnitude.decimal units (-6)).isRangeError = false)
    (sign : Sign) :
    stod (signText sign ++ FixedPoint.printFixed 6 units) =
      .ok (withSign sign (Magnitude.decimal units (-6)).toDouble) := by
  rw [stod, strtod_printFixed]
  simp only [inRange, Bool.false_eq_true, if_false]
  cases sign <;> rfl

theorem stod_infinity (sign : Sign) :
    stod (signText sign ++ ascii "inf") =
      .ok (Float.Model.pack (.infinity sign)) := by
  cases sign <;> decide

theorem stod_nan :
    stod (ascii "nan") = .ok (Float.Model.pack .notANumber) := by
  decide

/-- The nearest number of millionths, as `to_string` writes it. -/
def millionths (magnitude : ℚ) : Nat :=
  FixedPoint.roundEven (magnitude * 10 ^ 6)

theorem millionths_near {magnitude : ℚ} (nonnegative : 0 ≤ magnitude) :
    |(millionths magnitude : ℚ) / 10 ^ 6 - magnitude| ≤ 1 / 2 / 10 ^ 6 := by
  have million : (0 : ℚ) < 10 ^ 6 := by norm_num
  have near := FixedPoint.roundEven_near
    (mul_nonneg nonnegative million.le)
  have scaled : (millionths magnitude : ℚ) / 10 ^ 6 - magnitude =
      (millionths magnitude - magnitude * 10 ^ 6) / 10 ^ 6 := by
    field_simp
  rw [scaled, abs_div, abs_of_pos million]
  exact div_le_div_of_nonneg_right near million.le

theorem millionths_le {magnitude : ℚ} {limit : Nat}
    (nonnegative : 0 ≤ magnitude) (below : magnitude ≤ limit) :
    millionths magnitude ≤ limit * 10 ^ 6 := by
  apply FixedPoint.roundEven_le (by positivity)
  push_cast
  exact mul_le_mul_of_nonneg_right below (by norm_num)

theorem millionths_of_multiple {magnitude : ℚ} {units : Nat}
    (multiple : magnitude * 10 ^ 6 = units) :
    (millionths magnitude : ℚ) / 10 ^ 6 = magnitude := by
  rw [millionths, multiple, FixedPoint.roundEven_natCast, ← multiple]
  field_simp

theorem toDouble_scales {units : Nat} {place : Int} (positive : 0 < units)
    (scales : Binary64.Scales (units / 10 ^ 6) place) (greatest : place ≤ 971)
    (fits : FixedPoint.roundEven ((units / 10 ^ 6 : ℚ) / 2 ^ place) < 2 ^ 53 ∨
      place ≤ 970) :
    ∃ rounded exponent, ∃ normal : Binary64.Normal rounded exponent,
      (Magnitude.decimal units (-6)).toDouble =
        Binary64.packed .positive normal ∧
      (rounded : ℚ) * 2 ^ exponent =
        FixedPoint.roundEven ((units / 10 ^ 6 : ℚ) / 2 ^ place) *
          2 ^ place := by
  have least : -1074 ≤ place := by
    have one : (1 : ℚ) ≤ units := by exact_mod_cast positive
    have two : (0 : ℚ) < 2 := by norm_num
    have upper := scales.upper
    rw [div_lt_iff₀ (zpow_pos two _), div_lt_iff₀ (by norm_num)] at upper
    have powers : (2 : ℚ) ^ (-20 : Int) < 2 ^ ((53 : Int) + place) := by
      have tiny : (2 : ℚ) ^ (-20 : Int) * 10 ^ 6 < 1 := by norm_num
      rw [zpow_add₀ two.ne']
      change _ < (2 : ℚ) ^ 53 * 2 ^ place
      linarith
    have exponents := (zpow_lt_zpow_iff_right₀ (by norm_num)).mp powers
    omega
  have million : ((10 ^ 6 : Nat) : ℚ) = 10 ^ 6 := by norm_num
  rw [← million] at scales fits ⊢
  exact Binary64.ofScientific_scales positive (by norm_num) (by norm_num)
    scales least greatest fits

section Finite

variable {number : Float.Model} {sign : Sign} {mantissa : Nat} {exponent : Int}
  {positive : 0 < mantissa}

theorem toStringDouble_of_finite
    (unpacked : number.unpack = .finite sign mantissa exponent positive) :
    toStringDouble number = signText sign ++
      FixedPoint.printFixed 6 (millionths (mantissa * 2 ^ exponent)) := by
  rw [toStringDouble, unpacked]
  rfl

theorem number_of_finite
    (unpacked : number.unpack = .finite sign mantissa exponent positive) :
    Binary64.number number = some (signed sign (mantissa * 2 ^ exponent)) := by
  rw [Binary64.number, unpacked, Binary64.value]
  cases sign with
  | positive => rfl
  | negative => simp [signed, Sign.apply]

end Finite

theorem isRangeError_of_packed {units mantissa : Nat} {exponent : Int}
    {normal : Binary64.Normal mantissa exponent}
    (reads : (Magnitude.decimal units (-6)).toDouble =
      Binary64.packed .positive normal) :
    (Magnitude.decimal units (-6)).isRangeError = false := by
  have number := number_of_finite (Binary64.unpack_packed .positive normal)
  rw [← reads, signed] at number
  have some : units ≠ 0 := by
    rintro rfl
    have zero : Binary64.number (Magnitude.decimal 0 (-6)).toDouble = some 0 :=
      rfl
    have least := normal.two_zpow_le
    rw [← Option.some.inj (zero.symm.trans number)] at least
    exact absurd least (not_le.mpr (by positivity))
  have least : (1 : ℚ) ≤ units := by
    exact_mod_cast Nat.one_le_iff_ne_zero.mpr some
  have below : (2 : ℚ) ^ (-1022 : Int) ≤ 2 ^ (-20 : Int) :=
    zpow_le_zpow_right₀ (by norm_num) (by norm_num)
  have half : (0 : ℚ) < 2 ^ (-1076 : Int) := by positivity
  have enough : (2 : ℚ) ^ (-20 : Int) ≤ units * 10 ^ (-6 : Int) :=
    calc
      (2 : ℚ) ^ (-20 : Int) ≤ 1 * 10 ^ (-6 : Int) := by norm_num
      _ ≤ units * 10 ^ (-6 : Int) :=
        mul_le_mul_of_nonneg_right least (by positivity)
  have notTiny : ¬(units : ℚ) * 10 ^ (-6 : Int) <
      2 ^ (-1022 : Int) - 2 ^ (-1076 : Int) := by
    rw [not_lt]
    linarith only [below, half, enough]
  simp only [Magnitude.isRangeError, Magnitude.exact, number,
    Magnitude.isTiny, notTiny, decide_false, Bool.false_and]

section Normal

variable {mantissa : Nat} {exponent : Int}

/-- A power of two, below which doubles are closer, is an integer here. -/
theorem exact_or_apart (normal : Binary64.Normal mantissa exponent)
    (kept : (millionths (mantissa * 2 ^ exponent) : ℚ) / 10 ^ 6 =
      mantissa * 2 ^ exponent ∨ -19 ≤ exponent) :
    (millionths (mantissa * 2 ^ exponent) : ℚ) / 10 ^ 6 =
      mantissa * 2 ^ exponent ∨
    (-19 ≤ exponent ∧ (2 : ℚ) ^ 52 + 1 ≤ mantissa) := by
  rcases kept with exact | large
  · exact Or.inl exact
  · rcases normal.lower.lt_or_eq with more | rfl
    · exact Or.inr ⟨large, by exact_mod_cast more⟩
    · have whole : ((52 + exponent).toNat : Int) = (52 : Nat) + exponent := by
        omega
      have power : ((2 ^ 52 : Nat) : ℚ) * 2 ^ exponent =
          (2 : ℚ) ^ (52 + exponent).toNat := by
        rw [← zpow_natCast, whole, zpow_add₀ (by norm_num), zpow_natCast]
        norm_num
      have multiple : ((2 ^ 52 : Nat) : ℚ) * 2 ^ exponent * 10 ^ 6 =
          (2 ^ (52 + exponent).toNat * 10 ^ 6 : Nat) := by
        rw [power]
        push_cast
        rfl
      exact Or.inl (millionths_of_multiple multiple)

/-- Doubles this large are further apart than millionths. -/
theorem toDouble_kept (normal : Binary64.Normal mantissa exponent)
    (kept : (millionths (mantissa * 2 ^ exponent) : ℚ) / 10 ^ 6 =
      mantissa * 2 ^ exponent ∨ -19 ≤ exponent)
    (positive : 0 < millionths (mantissa * 2 ^ exponent)) :
    (Magnitude.decimal (millionths (mantissa * 2 ^ exponent)) (-6)).toDouble =
      Binary64.packed .positive normal := by
  have power : (0 : ℚ) < 2 ^ exponent := by positivity
  have near := millionths_near
    (mul_nonneg (Nat.cast_nonneg mantissa) power.le)
  have lower : ((2 ^ 52 : Nat) : ℚ) ≤ mantissa := by
    exact_mod_cast normal.lower
  have upper : ((mantissa + 1 : Nat) : ℚ) ≤ (2 ^ 53 : Nat) := by
    exact_mod_cast normal.upper
  push_cast at lower upper
  obtain ⟨close, above⟩ :
      |(millionths (mantissa * 2 ^ exponent) / 10 ^ 6 : ℚ) / 2 ^ exponent -
        mantissa| < 1 / 2 ∧
      2 ^ 52 ≤ (millionths (mantissa * 2 ^ exponent) / 10 ^ 6 : ℚ) /
        2 ^ exponent := by
    rcases exact_or_apart normal kept with exact | ⟨large, more⟩
    · rw [exact, mul_div_cancel_right₀ _ power.ne', sub_self, abs_zero]
      exact ⟨by norm_num, lower⟩
    · have apart : (2 : ℚ) ^ (-19 : Int) ≤ 2 ^ exponent :=
        zpow_le_zpow_right₀ (by norm_num) large
      have wide : (1 / 2 / 10 ^ 6 : ℚ) < 1 / 2 * 2 ^ exponent :=
        calc
          (1 / 2 / 10 ^ 6 : ℚ) < 1 / 2 * 2 ^ (-19 : Int) := by norm_num
          _ ≤ 1 / 2 * 2 ^ exponent :=
            mul_le_mul_of_nonneg_left apart (by norm_num)
      have scaled :
          |(millionths (mantissa * 2 ^ exponent) / 10 ^ 6 : ℚ) /
            2 ^ exponent - mantissa| < 1 / 2 := by
        rw [div_sub' power.ne', abs_div, abs_of_pos power,
          div_lt_iff₀ power, mul_comm (2 ^ exponent) (mantissa : ℚ)]
        exact lt_of_le_of_lt near wide
      exact ⟨scaled, by linarith [(abs_lt.mp scaled).1]⟩
  generalize millionths (mantissa * 2 ^ exponent) = units at *
  have scales : Binary64.Scales (units / 10 ^ 6) exponent := by
    refine ⟨above, ?_⟩
    linarith [(abs_lt.mp close).2]
  have rounds := FixedPoint.roundEven_eq_of_near
    (le_trans (by norm_num) above) close
  obtain ⟨rounded, place, packs, reads, value⟩ :=
    toDouble_scales positive scales normal.greatest
      (Or.inl (rounds ▸ normal.upper))
  rw [rounds] at value
  obtain ⟨rfl, rfl⟩ := packs.unique normal value
  exact reads

theorem le_of_exponent (normal : Binary64.Normal mantissa exponent)
    (small : exponent ≤ -20) :
    (mantissa : ℚ) * 2 ^ exponent ≤ (2 ^ 53 - 1) * 2 ^ (-20 : Int) := by
  have upper : ((mantissa + 1 : Nat) : ℚ) ≤ (2 ^ 53 : Nat) := by
    exact_mod_cast normal.upper
  push_cast at upper
  exact mul_le_mul (by linarith) (zpow_le_zpow_right₀ (by norm_num) small)
    (by positivity) (by norm_num)

/-- Among the others the next double is nearer than half a millionth. -/
theorem toDouble_near (normal : Binary64.Normal mantissa exponent)
    (small : exponent ≤ -20)
    (positive : 0 < millionths (mantissa * 2 ^ exponent)) :
    ∃ rounded place, ∃ packs : Binary64.Normal rounded place,
      (Magnitude.decimal (millionths (mantissa * 2 ^ exponent))
        (-6)).toDouble = Binary64.packed .positive packs ∧
      |(rounded : ℚ) * 2 ^ place -
        millionths (mantissa * 2 ^ exponent) / 10 ^ 6| ≤ 2 ^ (-21 : Int) := by
  have power : (0 : ℚ) < 2 ^ exponent := by positivity
  have near := millionths_near
    (mul_nonneg (Nat.cast_nonneg mantissa) power.le)
  have below := le_of_exponent normal small
  generalize millionths (mantissa * 2 ^ exponent) = units at *
  have isPositive : (0 : ℚ) < units / 10 ^ 6 := by
    have : (0 : ℚ) < units := by exact_mod_cast positive
    positivity
  obtain ⟨last, scales⟩ := Binary64.exists_scales isPositive
  have lastPower : (0 : ℚ) < 2 ^ last := by positivity
  have room : last ≤ -20 := by
    by_contra large
    have lower := scales.lower
    rw [le_div_iff₀ lastPower] at lower
    have apart : (2 : ℚ) ^ (-19 : Int) ≤ 2 ^ last :=
      zpow_le_zpow_right₀ (by norm_num) (by omega)
    have most := (abs_le.mp near).2
    have less : (2 : ℚ) ^ 52 * 2 ^ last < 2 ^ 52 * 2 ^ last :=
      calc
        (2 : ℚ) ^ 52 * 2 ^ last ≤ units / 10 ^ 6 := lower
        _ ≤ 1 / 2 / 10 ^ 6 + mantissa * 2 ^ exponent :=
          sub_le_iff_le_add.mp most
        _ ≤ 1 / 2 / 10 ^ 6 + (2 ^ 53 - 1) * 2 ^ (-20 : Int) :=
          add_le_add_right below _
        _ < 2 ^ 52 * 2 ^ (-19 : Int) := by norm_num
        _ ≤ 2 ^ 52 * 2 ^ last := mul_le_mul_of_nonneg_left apart (by norm_num)
    exact lt_irrefl _ less
  obtain ⟨rounded, place, packs, reads, value⟩ :=
    toDouble_scales positive scales (by omega) (Or.inr (by omega))
  refine ⟨rounded, place, packs, reads, ?_⟩
  have rounds := FixedPoint.roundEven_near
    (div_pos isPositive lastPower).le
  have scaled : (FixedPoint.roundEven ((units / 10 ^ 6 : ℚ) / 2 ^ last) : ℚ) *
        2 ^ last - units / 10 ^ 6 =
      (FixedPoint.roundEven ((units / 10 ^ 6 : ℚ) / 2 ^ last) -
        units / 10 ^ 6 / 2 ^ last) * 2 ^ last := by
    rw [sub_mul, div_mul_cancel₀ _ lastPower.ne']
  rw [value, scaled, abs_mul, abs_of_pos lastPower]
  calc
    |(FixedPoint.roundEven ((units / 10 ^ 6 : ℚ) / 2 ^ last) : ℚ) -
        units / 10 ^ 6 / 2 ^ last| * 2 ^ last ≤ 1 / 2 * 2 ^ (-20 : Int) :=
      mul_le_mul rounds (zpow_le_zpow_right₀ (by norm_num) room)
        lastPower.le (by norm_num)
    _ = 2 ^ (-21 : Int) := by norm_num

theorem millionths_of_near {units : Nat}
    (close : |(mantissa : ℚ) * 2 ^ exponent - units / 10 ^ 6| ≤
      2 ^ (-21 : Int)) :
    millionths (mantissa * 2 ^ exponent) = units := by
  have power : (0 : ℚ) < 2 ^ exponent := by positivity
  have million : (0 : ℚ) < 10 ^ 6 := by norm_num
  have scaled : (mantissa : ℚ) * 2 ^ exponent * 10 ^ 6 - units =
      (mantissa * 2 ^ exponent - units / 10 ^ 6) * 10 ^ 6 := by
    field_simp
  apply FixedPoint.roundEven_eq_of_near (by positivity)
  rw [scaled, abs_mul, abs_of_pos million]
  calc
    |(mantissa : ℚ) * 2 ^ exponent - units / 10 ^ 6| * 10 ^ 6 ≤
        2 ^ (-21 : Int) * 10 ^ 6 := mul_le_mul_of_nonneg_right close million.le
    _ < 1 / 2 := by norm_num

theorem withSign_packed (normal : Binary64.Normal mantissa exponent)
    (sign : Sign) :
    withSign sign (Binary64.packed .positive normal) =
      Binary64.packed sign normal := by
  cases sign with
  | positive => rfl
  | negative => exact Binary64.neg_packed normal

end Normal

/-! ## What is read back -/

section Magnitude

variable {number : Float.Model} {sign : Sign} {magnitude : ℚ}

/-- What six places keep is a number of millionths, or large. -/
theorem KeptBySixPlaces.cases (kept : KeptBySixPlaces number)
    (nonnegative : 0 ≤ magnitude)
    (isNumber : Binary64.number number = some (signed sign magnitude)) :
    (millionths magnitude : ℚ) / 10 ^ 6 = magnitude ∨ 2 ^ 33 ≤ magnitude := by
  rcases kept _ isNumber with multiple | large
  · obtain ⟨units, natural⟩ := (exists_units_signed nonnegative).mp multiple
    exact Or.inl (millionths_of_multiple natural)
  · rw [abs_signed, abs_of_nonneg nonnegative] at large
    exact Or.inr large

theorem survivesText_zero (positive : 0 < magnitude)
    (none : millionths magnitude = 0)
    (isNumber : Binary64.number number = some (signed sign magnitude))
    (text : toStringDouble number =
      signText sign ++ FixedPoint.printFixed 6 0) :
    SurvivesText number (Float.Model.pack (.zero sign)) := by
  have near := millionths_near positive.le
  rw [none, Nat.cast_zero, zero_div, zero_sub, abs_neg, abs_of_pos positive]
    at near
  refine ⟨?_, fun exact isExact => ⟨0, ?_, ?_⟩, fun kept => ?_⟩
  · rw [text, toStringDouble, Binary64.unpack_zero]
  · rw [Binary64.number, Binary64.unpack_zero]
    rfl
  · obtain rfl : signed sign magnitude = exact :=
      Option.some.inj (isNumber.symm.trans isExact)
    rw [zero_sub, abs_neg, abs_signed, abs_of_pos positive]
    exact lt_of_le_of_lt near (by norm_num)
  · exfalso
    rcases kept.cases positive.le isNumber with same | large
    · rw [none, Nat.cast_zero, zero_div] at same
      exact positive.ne same
    · linarith

end Magnitude

theorem stod_printFixed_zero (sign : Sign) :
    stod (signText sign ++ FixedPoint.printFixed 6 0) =
      .ok (Float.Model.pack (.zero sign)) := by
  have zero : Binary64.number (Magnitude.decimal 0 (-6)).toDouble = some 0 :=
    rfl
  have inRange : (Magnitude.decimal 0 (-6)).isRangeError = false := by
    simp only [Magnitude.isRangeError, Magnitude.exact, zero, Nat.cast_zero,
      zero_mul, ne_eq, not_true_eq_false, decide_false, Bool.and_false]
  rw [stod_printFixed inRange]
  cases sign <;> rfl

theorem survivesText_subnormal {mantissa : Nat} (positive : 0 < mantissa)
    (small : mantissa < 2 ^ 52) (sign : Sign) :
    ∃ back,
      stod (toStringDouble
        (Float.Model.pack (.finite sign mantissa (-1074) positive))) =
          .ok back ∧
      SurvivesText (Float.Model.pack (.finite sign mantissa (-1074) positive))
        back := by
  have unpacked := Binary64.unpack_subnormal positive small sign
  have natural : (0 : ℚ) < mantissa := by exact_mod_cast positive
  have bound : (mantissa : ℚ) ≤ (2 ^ 52 : Nat) := by exact_mod_cast small.le
  have power : (0 : ℚ) < 2 ^ (-1074 : Int) := by positivity
  have tiny : (2 : ℚ) ^ (-1074 : Int) ≤ 2 ^ (-80 : Int) :=
    zpow_le_zpow_right₀ (by norm_num) (by norm_num)
  have none : millionths (mantissa * 2 ^ (-1074 : Int)) = 0 := by
    apply FixedPoint.roundEven_eq_zero
    calc
      (mantissa : ℚ) * 2 ^ (-1074 : Int) * 10 ^ 6 ≤
          (2 ^ 52 : Nat) * 2 ^ (-80 : Int) * 10 ^ 6 :=
        mul_le_mul_of_nonneg_right
          (mul_le_mul bound tiny power.le (Nat.cast_nonneg _)) (by norm_num)
      _ < 1 / 2 := by norm_num
  have text := toStringDouble_of_finite unpacked
  rw [none] at text
  rw [text, stod_printFixed_zero]
  exact ⟨_, rfl, survivesText_zero (mul_pos natural power) none
    (number_of_finite unpacked) text⟩

theorem survivesText_packed {mantissa : Nat} {exponent : Int}
    (normal : Binary64.Normal mantissa exponent) (sign : Sign) :
    ∃ back,
      stod (toStringDouble (Binary64.packed sign normal)) = .ok back ∧
      SurvivesText (Binary64.packed sign normal) back := by
  have power : (0 : ℚ) < 2 ^ exponent := by positivity
  have natural : (0 : ℚ) < mantissa := by exact_mod_cast normal.pos
  have text := toStringDouble_of_finite (Binary64.unpack_packed sign normal)
  have isNumber := number_of_finite (Binary64.unpack_packed sign normal)
  rcases Nat.eq_zero_or_pos (millionths (mantissa * 2 ^ exponent)) with
    none | positive
  · rw [none] at text
    rw [text, stod_printFixed_zero]
    exact ⟨_, rfl, survivesText_zero (mul_pos natural power) none isNumber text⟩
  · by_cases kept : (millionths (mantissa * 2 ^ exponent) : ℚ) / 10 ^ 6 =
      mantissa * 2 ^ exponent ∨ -19 ≤ exponent
    · have reads := toDouble_kept normal kept positive
      rw [text, stod_printFixed (isRangeError_of_packed reads), reads,
        withSign_packed]
      exact ⟨_, rfl, SurvivesText.refl _⟩
    · obtain ⟨notExact, small⟩ := not_or.mp kept
      obtain ⟨rounded, place, packs, reads, close⟩ :=
        toDouble_near normal (by omega) positive
      rw [text, stod_printFixed (isRangeError_of_packed reads), reads,
        withSign_packed]
      have readNumber := number_of_finite (Binary64.unpack_packed sign packs)
      refine ⟨_, rfl, ?_, fun exact isExact => ⟨_, readNumber, ?_⟩,
        fun keeps => ?_⟩
      · rw [text, toStringDouble_of_finite (Binary64.unpack_packed sign packs),
          millionths_of_near close]
      · obtain rfl : signed sign (mantissa * 2 ^ exponent) = exact :=
          Option.some.inj (isNumber.symm.trans isExact)
        have near := millionths_near (mul_pos natural power).le
        rw [signed_sub, abs_signed]
        calc
          |(rounded : ℚ) * 2 ^ place - mantissa * 2 ^ exponent| ≤
              |(rounded : ℚ) * 2 ^ place -
                millionths (mantissa * 2 ^ exponent) / 10 ^ 6| +
              |(millionths (mantissa * 2 ^ exponent) : ℚ) / 10 ^ 6 -
                mantissa * 2 ^ exponent| := abs_sub_le _ _ _
          _ ≤ 2 ^ (-21 : Int) + 1 / 2 / 10 ^ 6 := add_le_add close near
          _ < (10 ^ 6)⁻¹ := by norm_num
      · exfalso
        rcases keeps.cases (mul_pos natural power).le isNumber with
          same | large
        · exact notExact same
        · have below := large.trans (le_of_exponent normal (by omega))
          norm_num at below

/-- Every double is read back from its text. -/
theorem stod_toStringDouble (number : Float.Model) :
    ∃ back, stod (toStringDouble number) = .ok back ∧
      SurvivesText number back := by
  cases Binary64.form number with
  | @infinity sign =>
      rw [toStringDouble, Binary64.unpack_infinity]
      exact ⟨_, stod_infinity sign, SurvivesText.refl _⟩
  | notANumber =>
      rw [toStringDouble, Binary64.unpack_notANumber]
      exact ⟨_, stod_nan, SurvivesText.refl _⟩
  | @zero sign =>
      rw [toStringDouble, Binary64.unpack_zero]
      exact ⟨_, stod_printFixed_zero sign, SurvivesText.refl _⟩
  | subnormal positive small => exact survivesText_subnormal positive small _
  | normal normal => exact survivesText_packed normal _

/-! ## Over the wire -/

theorem two_pow_lt_ten_pow {left right count : Nat}
    (bits : left + right < 3 * count) : 2 ^ left * 2 ^ right < 10 ^ count :=
  calc
    2 ^ left * 2 ^ right = 2 ^ (left + right) := (Nat.pow_add 2 left right).symm
    _ < 2 ^ (3 * count) := Nat.pow_lt_pow_right (by norm_num) bits
    _ = (2 ^ 3) ^ count := Nat.pow_mul 2 3 count
    _ ≤ 10 ^ count := Nat.pow_le_pow_left (by norm_num) count

theorem length_printFixed_le {mantissa : Nat} {exponent : Int}
    (bits : mantissa ≤ 2 ^ 53) (greatest : exponent ≤ 971) :
    (FixedPoint.printFixed 6
      (millionths (mantissa * 2 ^ exponent))).length ≤ 349 := by
  have power : (0 : ℚ) < 2 ^ exponent := by positivity
  have bound : (mantissa : ℚ) ≤ (2 ^ 53 : Nat) := by exact_mod_cast bits
  have last : (2 : ℚ) ^ exponent ≤ (2 ^ 971 : Nat) := by
    rw [Nat.cast_pow, ← zpow_natCast]
    exact zpow_le_zpow_right₀ (by norm_num) greatest
  have below : (mantissa : ℚ) * 2 ^ exponent ≤ (2 ^ 53 * 2 ^ 971 : Nat) := by
    rw [Nat.cast_mul]
    exact mul_le_mul bound last power.le (Nat.cast_nonneg _)
  have most :=
    millionths_le (mul_nonneg (Nat.cast_nonneg _) power.le) below
  have whole : millionths (mantissa * 2 ^ exponent) / 10 ^ 6 < 10 ^ 342 :=
    calc
      millionths (mantissa * 2 ^ exponent) / 10 ^ 6 ≤ 2 ^ 53 * 2 ^ 971 :=
        Nat.div_le_of_le_mul (Nat.mul_comm _ _ ▸ most)
      _ < 10 ^ 342 := two_pow_lt_ten_pow (by norm_num)
  have digits := Decimal.length_print_le (by norm_num) whole
  have places := @FixedPoint.length_printPadded 6
    (millionths (mantissa * 2 ^ exponent) % 10 ^ 6) (by norm_num)
    (Nat.mod_lt _ (by norm_num))
  rw [FixedPoint.printFixed, List.length_append, List.length_cons, places]
  omega

theorem length_signText_le (sign : Sign) : (signText sign).length ≤ 1 := by
  cases sign <;> decide

theorem length_toStringDouble_le (number : Float.Model) :
    (toStringDouble number).length ≤ 350 := by
  cases Binary64.form number with
  | @infinity sign =>
      have short := length_signText_le sign
      rw [toStringDouble, Binary64.unpack_infinity, List.length_append]
      change _ + 3 ≤ 350
      omega
  | notANumber =>
      rw [toStringDouble, Binary64.unpack_notANumber]
      decide
  | @zero sign =>
      have short := length_signText_le sign
      rw [toStringDouble, Binary64.unpack_zero, List.length_append]
      change _ + 8 ≤ 350
      omega
  | @subnormal sign mantissa positive small =>
      have short := length_signText_le sign
      have digits := @length_printFixed_le mantissa (-1074) (by omega)
        (by norm_num)
      rw [toStringDouble_of_finite
        (Binary64.unpack_subnormal positive small sign), List.length_append]
      omega
  | @normal sign mantissa exponent normal =>
      have short := length_signText_le sign
      have digits := length_printFixed_le normal.upper.le normal.greatest
      rw [toStringDouble_of_finite (Binary64.unpack_packed sign normal),
        List.length_append]
      omega

theorem length_bulkForm_toStringDouble_le (number : Float.Model) :
    (bulkForm (toStringDouble number)).length ≤ maxSize := by
  have digits := length_toStringDouble_le number
  have header :
      (Decimal.print (toStringDouble number).length).length ≤ 3 :=
    Decimal.length_print_le (by omega) (by omega)
  simp only [bulkForm, Resp.encode, length_line, length_payload,
    List.length_nil, maxSize]
  omega

/-- What the two commands send of a double is loaded from a bulk string and
read by `as<double>`, changed by less than a millionth, and is then sent the
same again.  The one NaN here is the one whose sign bit is clear. -/
theorem sentDouble_survives (num : Float.Model) (key field following : Bytes) :
    ∃ text back,
      (incrbyfloat key num).commands = [ascii "INCRBYFLOAT", key, text] ∧
      (hincrbyfloat key field num).commands =
        [ascii "HINCRBYFLOAT", key, field, text] ∧
      Loads (bulkForm text) following ⟨.bulkString text, .success⟩ ∧
      (Value.bulkString text).asDouble = some back ∧ SurvivesText num back := by
  obtain ⟨back, reads, survives⟩ := stod_toStringDouble num
  refine ⟨toStringDouble num, back, rfl, rfl,
    loads_bulkForm (length_bulkForm_toStringDouble_le num) following, ?_,
    survives⟩
  rw [Value.asDouble, reads]
  rfl

end RedisClient
