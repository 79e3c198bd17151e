import RedisClient.Basis.FixedPoint
import RedisClient.CommandBuilders
import RedisClient.DoubleReading

/-!
# How the standard library writes a double

`std::to_string` writes a double with six decimal places, whatever its size.
The two commands that add a double send it in this form, so that what they add
is the nearest millionth.
-/

namespace RedisClient

open Basis

open Float.Model.UnpackedFloat (Sign)

def signText : Sign → Bytes
  | .positive => []
  | .negative => [Decimal.minusSign]

/-- The number of a sign and a magnitude. -/
def signed : Sign → ℚ → ℚ
  | .positive, magnitude => magnitude
  | .negative, magnitude => -magnitude

/-- `std::to_string(double)`, which is `"%f"`.  The one NaN of `Float.Model`
stands for those whose sign bit is clear; the others are written as `-nan`. -/
def toStringDouble (number : Float.Model) : Bytes :=
  match number.unpack with
  | .infinity sign => signText sign ++ ascii "inf"
  | .notANumber => ascii "nan"
  | .zero sign => signText sign ++ FixedPoint.printFixed 6 0
  | .finite sign mantissa exponent _ =>
      signText sign ++ FixedPoint.printFixed 6
        (FixedPoint.roundEven (mantissa * 2 ^ exponent * 10 ^ 6))

def incrbyfloat (key : Bytes) (num : Float.Model) : Command :=
  ⟨[ascii "INCRBYFLOAT", key, toStringDouble num]⟩

def hincrbyfloat (key field : Bytes) (num : Float.Model) : Command :=
  ⟨[ascii "HINCRBYFLOAT", key, field, toStringDouble num]⟩

/-- The number that `strtod` finds in a text, before it is rounded to a
double. -/
def writtenNumber (text : Bytes) : Option ℚ := do
  let (negative, magnitude) ← strtod text
  let exact ← magnitude.exact
  some (if negative then -exact else exact)

/-- The text is that of the nearest millionth.  It is the number itself only if
that is a number of millionths, and zero if the number is small. -/
structure NearestMillionth (text : Bytes) (exact : ℚ) : Prop where
  written : ∃ sent, writtenNumber text = some sent ∧
    |sent - exact| ≤ 1 / 2 * (10 ^ 6)⁻¹ ∧
    (sent = exact ↔ ∃ units : ℤ, exact * 10 ^ 6 = units) ∧
    (|exact| < 1 / 2 * (10 ^ 6)⁻¹ → sent = 0)

/-! ## What is read -/

section PrintFixed

variable (units : Nat)

private theorem whole_allDigits :
    AllDigits (Decimal.print (units / 10 ^ 6)) :=
  Decimal.print_isDigit _

private theorem fraction_allDigits :
    AllDigits (FixedPoint.printPadded 6 (units % 10 ^ 6)) :=
  FixedPoint.printPadded_isDigit _ _

theorem significand_printFixed :
    decimalRadix.significand (FixedPoint.printFixed 6 units) =
      some (units, -6) := by
  have whole := whole_allDigits units
  have fraction := fraction_allDigits units
  have length : (FixedPoint.printPadded 6 (units % 10 ^ 6)).length = 6 :=
    FixedPoint.length_printPadded (by norm_num)
      (Nat.mod_lt _ (by norm_num))
  have read := FixedPoint.read_printFixed (by norm_num : 0 < 6) units
  have nonempty := Decimal.print_ne_nil (units / 10 ^ 6)
  have point : Decimal.isDigit 46 = false := by decide
  have front := List.takeWhile_eq_self_iff.mpr fraction
  have behind := List.dropWhile_eq_nil_iff.mpr fraction
  simp only [Radix.significand, decimalRadix, FixedPoint.printFixed,
    List.takeWhile_append_of_pos whole, List.dropWhile_append_of_pos whole,
    List.takeWhile_cons, List.dropWhile_cons, point, Bool.false_eq_true,
    if_false, List.append_nil, front, behind, List.append_eq_nil_iff, nonempty,
    false_and, read, length, Radix.exponent]
  rfl

theorem mem_printFixed {byte : UInt8}
    (member : byte ∈ FixedPoint.printFixed 6 units) :
    Decimal.isDigit byte = true ∨ byte = 46 := by
  rcases List.mem_append.mp member with digit | behind
  · exact Or.inl (whole_allDigits units byte digit)
  · rcases List.mem_cons.mp behind with point | digit
    · exact Or.inr point
    · exact Or.inl (fraction_allDigits units byte digit)

private theorem not_isPrefixOf_printFixed {letters : Bytes} {letter : UInt8}
    (member : letter ∈ letters) (notDigit : Decimal.isDigit letter = false)
    (notPoint : letter ≠ 46) :
    letters.isPrefixOf (FixedPoint.printFixed 6 units) = false := by
  rw [Bool.eq_false_iff]
  intro isPrefix
  have inside := (List.isPrefixOf_iff_prefix.mp isPrefix).subset member
  rcases mem_printFixed units inside with digit | point
  · rw [notDigit] at digit
    cases digit
  · exact notPoint point

/-- The text is a decimal number, and neither a word nor hexadecimal. -/
theorem find_printFixed :
    Magnitude.find (FixedPoint.printFixed 6 units) =
      some (.decimal units (-6)) := by
  have lower : (FixedPoint.printFixed 6 units).map toLower =
      FixedPoint.printFixed 6 units := by
    rw [FixedPoint.printFixed, List.map_append, List.map_cons,
      map_toLower_digits (whole_allDigits units),
      map_toLower_digits (fraction_allDigits units)]
    rfl
  have notInf : (ascii "inf").isPrefixOf (FixedPoint.printFixed 6 units) =
      false :=
    @not_isPrefixOf_printFixed units _ 105 (by decide) (by decide) (by decide)
  have notNan : (ascii "nan").isPrefixOf (FixedPoint.printFixed 6 units) =
      false :=
    @not_isPrefixOf_printFixed units _ 110 (by decide) (by decide) (by decide)
  have notHexadecimal :
      (ascii "0x").isPrefixOf (FixedPoint.printFixed 6 units) = false :=
    @not_isPrefixOf_printFixed units _ 120 (by decide) (by decide) (by decide)
  rw [Magnitude.find, lower, notInf, notNan, notHexadecimal,
    significand_printFixed]
  rfl

theorem strtod_printFixed (sign : Sign) :
    strtod (signText sign ++ FixedPoint.printFixed 6 units) =
      some (sign == .negative, .decimal units (-6)) := by
  have found := find_printFixed units
  obtain ⟨first, rest, text⟩ := List.exists_cons_of_ne_nil
    (Decimal.print_ne_nil (units / 10 ^ 6))
  have firstDigit := whole_allDigits units first
    (text ▸ List.mem_cons_self)
  obtain ⟨notMinus, notPlus⟩ := not_sign_of_isDigit firstDigit
  have firstNotSpace := not_isSpace_of_isDigit firstDigit
  have notSpace : isSpace Decimal.minusSign = false := by decide
  rw [FixedPoint.printFixed, text, List.cons_append] at found ⊢
  cases sign with
  | positive =>
      simp only [signText, List.nil_append, strtod, List.dropWhile_cons,
        firstNotSpace, Bool.false_eq_true, if_false, skipSign, notMinus,
        notPlus, found]
      rfl
  | negative =>
      simp only [signText, List.cons_append, List.nil_append, strtod,
        List.dropWhile_cons, notSpace, Bool.false_eq_true, if_false, skipSign,
        if_true, found]
      rfl

theorem writtenNumber_printFixed (sign : Sign) :
    writtenNumber (signText sign ++ FixedPoint.printFixed 6 units) =
      some (signed sign (units * 10 ^ (-6 : ℤ))) := by
  rw [writtenNumber, strtod_printFixed]
  cases sign <;> rfl

end PrintFixed

/-! ## What is written -/

theorem toStringDouble_of_number {number : Float.Model} {exact : ℚ}
    (isNumber : Binary64.number number = some exact) :
    ∃ sign magnitude, 0 ≤ magnitude ∧ exact = signed sign magnitude ∧
      toStringDouble number = signText sign ++
        FixedPoint.printFixed 6
          (FixedPoint.roundEven (magnitude * 10 ^ 6)) := by
  unfold Binary64.number at isNumber
  unfold toStringDouble
  cases unpacked : number.unpack with
  | infinity sign => rw [unpacked] at isNumber; cases isNumber
  | notANumber => rw [unpacked] at isNumber; cases isNumber
  | zero sign =>
      rw [unpacked] at isNumber
      cases isNumber
      refine ⟨sign, 0, le_refl 0, ?_, ?_⟩
      · cases sign with
        | positive => rfl
        | negative => exact neg_zero.symm
      · have zero : FixedPoint.roundEven (0 * 10 ^ 6) = 0 :=
          FixedPoint.roundEven_eq_zero (by norm_num)
        rw [zero]
  | finite sign mantissa exponent positive =>
      rw [unpacked] at isNumber
      cases isNumber
      refine ⟨sign, mantissa * 2 ^ exponent, by positivity, ?_, rfl⟩
      cases sign with
      | positive => rfl
      | negative => simp [signed, Sign.apply]

theorem abs_signed (sign : Sign) (magnitude : ℚ) :
    |signed sign magnitude| = |magnitude| := by
  cases sign with
  | positive => rfl
  | negative => exact abs_neg magnitude

theorem signed_sub (sign : Sign) (left right : ℚ) :
    signed sign left - signed sign right = signed sign (left - right) := by
  cases sign with
  | positive => rfl
  | negative => simp only [signed]; ring

theorem signed_inj {sign : Sign} {left right : ℚ} :
    signed sign left = signed sign right ↔ left = right := by
  cases sign with
  | positive => rfl
  | negative => exact neg_inj

theorem exists_units_signed {sign : Sign} {magnitude : ℚ}
    (nonnegative : 0 ≤ magnitude) :
    (∃ units : ℤ, signed sign magnitude * 10 ^ 6 = units) ↔
      ∃ units : Nat, magnitude * 10 ^ 6 = units := by
  have scaled : 0 ≤ magnitude * 10 ^ 6 := by positivity
  constructor
  · rintro ⟨units, multiple⟩
    have absolute := congrArg (fun number : ℚ => |number|) multiple
    rw [abs_mul, abs_signed, ← abs_mul, abs_of_nonneg scaled] at absolute
    refine ⟨units.natAbs, absolute.trans ?_⟩
    rw [← Int.cast_abs, Int.abs_eq_natAbs, Int.cast_natCast]
  · rintro ⟨units, multiple⟩
    cases sign with
    | positive => exact ⟨units, by simpa [signed] using multiple⟩
    | negative => exact ⟨-units, by simp [signed, neg_mul, multiple]⟩

/-- The text of a double is that of the nearest millionth. -/
theorem nearestMillionth_toStringDouble {number : Float.Model} {exact : ℚ}
    (isNumber : Binary64.number number = some exact) :
    NearestMillionth (toStringDouble number) exact := by
  obtain ⟨sign, magnitude, nonnegative, rfl, text⟩ :=
    toStringDouble_of_number isNumber
  have million : (0 : ℚ) < 10 ^ 6 := by norm_num
  have scaled : 0 ≤ magnitude * 10 ^ 6 := mul_nonneg nonnegative million.le
  have near := FixedPoint.roundEven_near scaled
  have units := @FixedPoint.roundEven_eq_iff (magnitude * 10 ^ 6)
  have small := @FixedPoint.roundEven_eq_zero (magnitude * 10 ^ 6)
  have written := writtenNumber_printFixed
    (FixedPoint.roundEven (magnitude * 10 ^ 6)) sign
  rw [← text, zpow_neg] at written
  generalize FixedPoint.roundEven (magnitude * 10 ^ 6) = rounded
    at near units small written
  refine ⟨_, written, ?_, ?_, ?_⟩
  · have unscaled : (rounded : ℚ) * (10 ^ 6)⁻¹ - magnitude =
        (rounded - magnitude * 10 ^ 6) * (10 ^ 6)⁻¹ := by
      ring
    have millionth : |((10 ^ 6)⁻¹ : ℚ)| = (10 ^ 6)⁻¹ :=
      abs_of_pos (inv_pos.mpr million)
    have step := mul_le_mul_of_nonneg_right near (inv_pos.mpr million).le
    rw [signed_sub, abs_signed]
    calc
      |(rounded : ℚ) * (10 ^ 6)⁻¹ - magnitude| =
          |(rounded : ℚ) - magnitude * 10 ^ 6| * (10 ^ 6)⁻¹ := by
        rw [unscaled, abs_mul, millionth]
      _ ≤ 1 / 2 * (10 ^ 6)⁻¹ := step
  · rw [signed_inj, exists_units_signed nonnegative, ← units]
    exact mul_inv_eq_iff_eq_mul₀ million.ne'
  · intro below
    rw [abs_signed, abs_of_nonneg nonnegative, ← div_eq_mul_inv,
      lt_div_iff₀ million] at below
    rw [small below, Nat.cast_zero, zero_mul]
    cases sign with
    | positive => rfl
    | negative => exact neg_zero

/-- Both commands send the nearest millionth behind what is fixed. -/
theorem incrbyfloat_nearestMillionth {num : Float.Model} {exact : ℚ}
    (isNumber : Binary64.number num = some exact) (key field : Bytes) :
    ∃ text, NearestMillionth text exact ∧
      (incrbyfloat key num).commands = [ascii "INCRBYFLOAT", key, text] ∧
      (hincrbyfloat key field num).commands =
        [ascii "HINCRBYFLOAT", key, field, text] :=
  ⟨toStringDouble num, nearestMillionth_toStringDouble isNumber, rfl, rfl⟩

private theorem normal_tiny : Binary64.Normal (2 ^ 52) (-82) :=
  ⟨by norm_num, by norm_num, by norm_num, by norm_num⟩

/-- A double of about a billionth is sent as zero. -/
theorem incrbyfloat_nearestMillionth_tiny :
    ∃ text, writtenNumber text = some 0 ∧
      (incrbyfloat [107] (Binary64.packed .positive normal_tiny)).commands =
        [ascii "INCRBYFLOAT", [107], text] := by
  have isNumber :
      Binary64.number (Binary64.packed .positive normal_tiny) =
        some ((2 : ℚ) ^ 52 * 2 ^ (-82 : ℤ)) := by
    rw [Binary64.number, Binary64.unpack_packed]
    norm_num [Binary64.value, Sign.apply]
  obtain ⟨text, ⟨sent, written, near, exact, small⟩, commands, _⟩ :=
    incrbyfloat_nearestMillionth isNumber [107] [102]
  have tiny : |(2 : ℚ) ^ 52 * 2 ^ (-82 : ℤ)| < 1 / 2 * (10 ^ 6)⁻¹ := by
    norm_num
  rw [small tiny] at written
  exact ⟨text, written, commands⟩

end RedisClient
