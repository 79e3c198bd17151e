import RedisClient.Basis.Binary64
import RedisClient.StandardLibrary

/-!
# How the standard library reads a double

`std::stod` leaves the work to `strtod`, which knows decimal and hexadecimal
numbers, infinity and NaN, and rounds to the nearest double.  A number that is
too large, and one that is too small to be kept exactly, is a range error.
Every integer of at most 53 bits is read from its digits without a loss.
-/

namespace RedisClient

open Basis Float.Model

/-- `std::tolower` in the "C" locale. -/
def toLower (byte : UInt8) : UInt8 :=
  if 65 ≤ byte ∧ byte ≤ 90 then byte + 32 else byte

/-- `std::isxdigit` -/
def isXDigit (byte : UInt8) : Bool :=
  Decimal.isDigit byte || (decide (97 ≤ toLower byte) &&
    decide (toLower byte ≤ 102))

/-- The value of a hexadecimal digit. -/
def xDigitValue (byte : UInt8) : Nat :=
  if Decimal.isDigit byte then Decimal.digitValue byte
  else (toLower byte).toNat - 87

def readHexadecimal (digits : Bytes) : Nat :=
  digits.foldl (fun number byte => 16 * number + xDigitValue byte) 0

/-- An optional sign, and whether it is a minus. -/
def skipSign : Bytes → Bool × Bytes
  | [] => (false, [])
  | first :: rest =>
      if first = Decimal.minusSign then (true, rest)
      else if first = Decimal.plusSign then (false, rest)
      else (false, first :: rest)

/-- How a number is written in one of the two bases.  A digit behind the point
lowers the exponent by `step`. -/
structure Radix where
  isDigit : UInt8 → Bool
  read : Bytes → Nat
  exponentMarks : Bytes
  step : Nat

def decimalRadix : Radix := ⟨Decimal.isDigit, Decimal.read, ascii "eE", 1⟩

/-- The exponent of a hexadecimal number is one of two. -/
def hexadecimalRadix : Radix := ⟨isXDigit, readHexadecimal, ascii "pP", 4⟩

/-- An exponent without digits is not part of the number. -/
def Radix.exponent (radix : Radix) : Bytes → Int
  | [] => 0
  | mark :: rest =>
      if mark ∈ radix.exponentMarks then
        let (negative, digits) := skipSign rest
        match leadingNumber digits with
        | none => 0
        | some number => if negative then -number else number
      else 0

/-- The digits before and behind a point, of which there is at least one, and
an exponent. -/
def Radix.significand (radix : Radix) (text : Bytes) : Option (Nat × Int) :=
  let whole := text.takeWhile radix.isDigit
  let (fraction, rest) :=
    match text.dropWhile radix.isDigit with
    | 46 :: rest => (rest.takeWhile radix.isDigit, rest.dropWhile radix.isDigit)
    | rest => ([], rest)
  if whole ++ fraction = [] then none
  else some (radix.read (whole ++ fraction),
    radix.exponent rest - radix.step * fraction.length)

/-- What `strtod` finds behind the sign. -/
inductive Magnitude where
  | infinity
  | nan
  | decimal (significand : Nat) (exponent : Int)
  | binary (significand : Nat) (exponent : Int)

namespace Magnitude

/-- Infinity and NaN are found by their first letters.  A "0x" without digits
is a zero and what follows it. -/
def find (text : Bytes) : Option Magnitude :=
  if (ascii "inf").isPrefixOf (text.map toLower) then some .infinity
  else if (ascii "nan").isPrefixOf (text.map toLower) then some .nan
  else if (ascii "0x").isPrefixOf (text.map toLower) then
    match hexadecimalRadix.significand (text.drop 2) with
    | some (significand, exponent) => some (.binary significand exponent)
    | none => some (.decimal 0 0)
  else
    (decimalRadix.significand text).map fun (significand, exponent) =>
      .decimal significand exponent

/-- The number that is written. -/
def exact : Magnitude → Option ℚ
  | .decimal significand exponent => some (significand * 10 ^ exponent)
  | .binary significand exponent => some (significand * 2 ^ exponent)
  | .infinity | .nan => none

/-- The nearest double; a NaN is kept without its sign. -/
def toDouble : Magnitude → Float.Model
  | .infinity => Float.Model.pack (.infinity .positive)
  | .nan => Float.Model.pack .notANumber
  | .decimal significand exponent =>
      Float.Model.ofScientific significand exponent
  | .binary significand exponent =>
      Float.Model.pack (UnpackedFloat.normalize Format.binary64 significand
        exponent .positive)

/-- A number is below the normal doubles if it would be after a rounding to
their precision without their least exponent.  The last number that would not is
half way between the least of them and its predecessor. -/
def isTiny (exact : ℚ) : Bool :=
  decide (exact < 2 ^ (-1022 : Int) - 2 ^ (-1076 : Int))

/-- `errno == ERANGE`: the number becomes infinite, or it is below the normal
doubles and not kept exactly. -/
def isRangeError (magnitude : Magnitude) : Bool :=
  match magnitude.exact with
  | none => false
  | some exact =>
      match Binary64.number magnitude.toDouble with
      | none => true
      | some rounded => isTiny exact && decide (rounded ≠ exact)

end Magnitude

/-- `strtod`: leading white space, an optional sign, a number, anything after
it. -/
def strtod (text : Bytes) : Option (Bool × Magnitude) :=
  let (negative, rest) := skipSign (text.dropWhile isSpace)
  (Magnitude.find rest).map fun magnitude => (negative, magnitude)

/-- `std::stod` -/
def stod (text : Bytes) : Except Exception Float.Model :=
  match strtod text with
  | none => .error .invalidArgument
  | some (negative, magnitude) =>
      if magnitude.isRangeError then .error .outOfRange
      else if negative then .ok magnitude.toDouble.neg
      else .ok magnitude.toDouble

/-- Digits. -/
def AllDigits (text : Bytes) : Prop :=
  ∀ byte ∈ text, Decimal.isDigit byte = true

theorem map_toLower_digits {digits : Bytes} (allDigits : AllDigits digits) :
    digits.map toLower = digits := by
  have same : ∀ byte ∈ digits, toLower byte = id byte := by
    intro byte member
    have digit := allDigits byte member
    simp only [Decimal.isDigit, Bool.and_eq_true, decide_eq_true_eq] at digit
    have notUpper : ¬(65 ≤ byte ∧ byte ≤ 90) := by
      rw [UInt8.le_iff_toNat_le]
      change ¬(65 ≤ byte.toNat ∧ _)
      omega
    simp [toLower, notUpper]
  rw [List.map_congr_left same, List.map_id]

theorem not_isPrefixOf_digits {letters digits : Bytes}
    (word : ∃ letter ∈ letters, Decimal.isDigit letter = false)
    (allDigits : AllDigits digits) : letters.isPrefixOf digits = false := by
  obtain ⟨letter, member, notDigit⟩ := word
  rw [Bool.eq_false_iff]
  intro isPrefix
  have inside := (List.isPrefixOf_iff_prefix.mp isPrefix).subset member
  rw [allDigits letter inside] at notDigit
  cases notDigit

theorem significand_digits {digits : Bytes} (nonempty : digits ≠ [])
    (allDigits : AllDigits digits) :
    decimalRadix.significand digits = some (Decimal.read digits, 0) := by
  have whole : digits.takeWhile Decimal.isDigit = digits :=
    List.takeWhile_eq_self_iff.mpr allDigits
  have rest : digits.dropWhile Decimal.isDigit = [] :=
    List.dropWhile_eq_nil_iff.mpr allDigits
  simp only [Radix.significand, decimalRadix, whole, rest, List.append_nil,
    nonempty, if_false, Radix.exponent, List.length_nil]
  rfl

theorem find_digits {digits : Bytes} (nonempty : digits ≠ [])
    (allDigits : AllDigits digits) :
    Magnitude.find digits = some (.decimal (Decimal.read digits) 0) := by
  have notInf : (ascii "inf").isPrefixOf digits = false :=
    not_isPrefixOf_digits ⟨105, by decide, by decide⟩ allDigits
  have notNan : (ascii "nan").isPrefixOf digits = false :=
    not_isPrefixOf_digits ⟨110, by decide, by decide⟩ allDigits
  have notHexadecimal : (ascii "0x").isPrefixOf digits = false :=
    not_isPrefixOf_digits ⟨120, by decide, by decide⟩ allDigits
  simp [Magnitude.find, map_toLower_digits allDigits, notInf, notNan,
    notHexadecimal, significand_digits nonempty allDigits]

theorem toDouble_decimal {natural : Nat} (short : natural ≤ 2 ^ 53) :
    (Magnitude.decimal natural 0).toDouble = Float.Model.ofInt natural :=
  Binary64.ofScientific_eq_ofInt short

theorem isRangeError_decimal {natural : Nat} (short : natural ≤ 2 ^ 53) :
    (Magnitude.decimal natural 0).isRangeError = false := by
  have kept : Binary64.number (Magnitude.decimal natural 0).toDouble =
      some (natural : ℚ) := by
    rw [toDouble_decimal short]
    exact Binary64.number_ofInt short
  simp [Magnitude.isRangeError, Magnitude.exact, kept]

/-- `std::stod` reads the canonical text of an integer of at most 53 bits. -/
theorem stod_printInt {integer : Int} (short : integer.natAbs ≤ 2 ^ 53) :
    stod (Decimal.printInt integer) = .ok (Float.Model.ofInt integer) := by
  have found := find_digits (Decimal.print_ne_nil integer.natAbs)
    (Decimal.print_isDigit integer.natAbs)
  rw [Decimal.read_print] at found
  have double := toDouble_decimal short
  have noError := isRangeError_decimal short
  rw [Decimal.printInt]
  split <;> rename_i sign
  · have notSpace : isSpace Decimal.minusSign = false := by decide
    have value : -(integer.natAbs : Int) = integer := by omega
    have negated : (Magnitude.decimal integer.natAbs 0).toDouble.neg =
        Float.Model.ofInt integer := by
      rw [double, Binary64.neg_ofInt (by omega) short, value]
    simp [stod, strtod, notSpace, skipSign, found, noError, negated]
  · obtain ⟨first, rest, text⟩ :=
      List.exists_cons_of_ne_nil (Decimal.print_ne_nil integer.natAbs)
    have firstDigit :=
      Decimal.print_isDigit integer.natAbs first (by simp [text])
    obtain ⟨notMinus, notPlus⟩ := not_sign_of_isDigit firstDigit
    have value : (integer.natAbs : Int) = integer := by omega
    rw [text] at found ⊢
    rw [value] at double
    simp [stod, strtod, not_isSpace_of_isDigit firstDigit, skipSign, notMinus,
      notPlus, found, noError, double]

end RedisClient
