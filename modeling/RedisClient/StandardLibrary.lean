import Mathlib.Data.List.TakeWhile
import RedisClient.Basis.Decimal
import RedisClient.Basis.Outcome

/-!
# The parts of the C++ standard library the client relies on

Strings and vectors of bytes are lists.  Iterators are positions in a memory,
and a memory is the whole vector an iterator points into.  Allocation is taken
to succeed for every size a vector can have, so `resize` throws only
`std::length_error`.
-/

namespace RedisClient

open Basis

abbrev Bytes := List UInt8

/-- The standard exceptions thrown by the functions below. -/
inductive Exception where
  | invalidArgument
  | outOfRange
  | lengthError
  deriving DecidableEq

abbrev Execution := Outcome Exception

/-- `std::vector<std::uint8_t>::max_size()` -/
def maxSize : Nat := 2 ^ 63 - 1

def carriageReturn : UInt8 := 13

def lineFeed : UInt8 := 10

/-- `"\\r\\n"` -/
def crlf : Bytes := [carriageReturn, lineFeed]

/-- A string literal of ASCII characters. -/
def ascii (text : String) : Bytes :=
  text.toList.map fun character => UInt8.ofNat character.toNat

/-- `std::isspace` in the "C" locale. -/
def isSpace (byte : UInt8) : Bool :=
  byte == 32 || (decide (9 ≤ byte.toNat) && decide (byte.toNat ≤ 13))

/-- The digits `strtol` consumes, if there are any. -/
def leadingNumber (text : Bytes) : Option Nat :=
  let digits := text.takeWhile Decimal.isDigit
  if digits = [] then none else some (Decimal.read digits)

/-- `strtol` in base ten, before the result is cut to a machine type: leading
white space, an optional sign, digits, anything after them. -/
def strtol (text : Bytes) : Option Int :=
  match text.dropWhile isSpace with
  | [] => none
  | first :: rest =>
      if first = Decimal.minusSign then
        (leadingNumber rest).map fun number => -(number : Int)
      else if first = Decimal.plusSign then
        (leadingNumber rest).map fun number => (number : Int)
      else
        (leadingNumber (first :: rest)).map fun number => (number : Int)

/-- `std::stol` for a 64-bit `long`. -/
def stol (text : Bytes) : Except Exception Int64 :=
  match strtol text with
  | none => .error .invalidArgument
  | some number =>
      if -2 ^ 63 ≤ number ∧ number < 2 ^ 63 then .ok (Int64.ofInt number)
      else .error .outOfRange

/-- `std::stoll`: `long long` has 64 bits as well. -/
def stoll (text : Bytes) : Except Exception Int64 := stol text

/-- `std::stoi` for a 32-bit `int`: the number is read as a `long`, and has to
fit into both types. -/
def stoi (text : Bytes) : Except Exception Int32 :=
  match stol text with
  | .error failure => .error failure
  | .ok number =>
      if -2 ^ 31 ≤ number.toInt ∧ number.toInt < 2 ^ 31 then
        .ok number.toInt32
      else .error .outOfRange

/-- `*it` -/
def dereference (memory : Bytes) (it : Nat) : Execution UInt8 :=
  match memory[it]? with
  | some byte => .returns byte
  | none => .faults it

/-- `value.resize(size)`: the argument is converted to `size_t`. -/
def resize (size : Int64) : Execution Nat :=
  let count := (size.toInt % 2 ^ 64).toNat
  if count ≤ maxSize then .returns count else .throws .lengthError

/-- `std::copy(it, it + count, ...)`, which dereferences every position of the
range in order. -/
def copy (memory : Bytes) (it count : Nat) : Execution Bytes :=
  if count = 0 then .returns []
  else if it + count ≤ memory.length then
    .returns ((memory.drop it).take count)
  else .faults (max it memory.length)

/-- `std::equal(first1, last1, first2)` on bytes is one `memcmp`, to which the
second range has to be as long as the first, wherever they differ. -/
def equalBytes (left right : Bytes) : Execution Bool :=
  if left.length ≤ right.length then
    .returns (left == right.take left.length)
  else .faults right.length

/-- On other elements it is a loop that ends at the first difference, without a
test for the end of the second range.  `it` is the place in it. -/
def equal {α : Type} (compare : α → α → Execution Bool) (it : Nat) :
    List α → List α → Execution Bool
  | [], _ => .returns true
  | _ :: _, [] => .faults it
  | left :: lefts, right :: rights => do
      if ← compare left right then equal compare (it + 1) lefts rights
      else .returns false

private theorem leadingNumber_of_digits
    {digits : Bytes} (nonempty : digits ≠ [])
    (allDigits : ∀ byte ∈ digits, Decimal.isDigit byte = true) :
    leadingNumber digits = some (Decimal.read digits) := by
  have kept : digits.takeWhile Decimal.isDigit = digits :=
    List.takeWhile_eq_self_iff.mpr allDigits
  simp [leadingNumber, kept, nonempty]

theorem not_isSpace_of_isDigit {byte : UInt8}
    (digit : Decimal.isDigit byte = true) : isSpace byte = false := by
  simp only [Decimal.isDigit, Bool.and_eq_true, decide_eq_true_eq] at digit
  have notBlank : byte ≠ 32 := by
    rintro rfl
    simp at digit
  simp only [isSpace, Bool.or_eq_false_iff, beq_eq_false_iff_ne, ne_eq,
    notBlank, not_false_eq_true, true_and, Bool.and_eq_false_iff,
    decide_eq_false_iff_not]
  omega

theorem not_sign_of_isDigit {byte : UInt8}
    (digit : Decimal.isDigit byte = true) :
    byte ≠ Decimal.minusSign ∧ byte ≠ Decimal.plusSign := by
  constructor <;> rintro rfl <;> exact absurd digit (by decide)

theorem strtol_of_isNumeral {text : Bytes} {number : Int}
    (numeral : Decimal.IsNumeral text number) :
    strtol text = some number := by
  cases numeral with
  | unsigned nonempty digits =>
      obtain ⟨first, rest, rfl⟩ := List.exists_cons_of_ne_nil nonempty
      have firstDigit := digits first (by simp)
      obtain ⟨notMinus, notPlus⟩ := not_sign_of_isDigit firstDigit
      simp [strtol, not_isSpace_of_isDigit firstDigit, notMinus, notPlus,
        leadingNumber_of_digits nonempty digits]
  | plus nonempty digits =>
      have notSpace : isSpace Decimal.plusSign = false := by decide
      have notMinus : Decimal.plusSign ≠ Decimal.minusSign := by decide
      simp [strtol, notSpace, notMinus, leadingNumber_of_digits nonempty digits]
  | minus nonempty digits =>
      have notSpace : isSpace Decimal.minusSign = false := by decide
      simp [strtol, notSpace, leadingNumber_of_digits nonempty digits]

theorem stol_of_isNumeral {text : Bytes} {number : Int64}
    (numeral : Decimal.IsNumeral text number.toInt) :
    stol text = .ok number := by
  have lower := Int64.le_toInt number
  have upper := Int64.toInt_lt number
  simp only [stol, strtol_of_isNumeral numeral, lower, upper, and_self,
    if_true, Int64.ofInt_toInt]

/-- `std::stol` reads every size a vector can have. -/
theorem stol_of_isNatural {text : Bytes} {count : Nat}
    (natural : Decimal.IsNatural text count) (fits : count ≤ maxSize) :
    ∃ size, stol text = .ok size ∧ size.toInt = count := by
  have value : (Int64.ofInt count).toInt = count := by
    apply Int64.toInt_ofInt_of_le <;> unfold maxSize at fits <;> omega
  have numeral := natural.isNumeral
  rw [← value] at numeral
  exact ⟨_, stol_of_isNumeral numeral, value⟩

theorem stol_printInt (number : Int64) :
    stol (Decimal.printInt number.toInt) = .ok number :=
  stol_of_isNumeral (Decimal.isNumeral_printInt number.toInt)

theorem stol_of_isNumeral_outside {text : Bytes} {number : Int}
    (numeral : Decimal.IsNumeral text number)
    (outside : ¬(-2 ^ 63 ≤ number ∧ number < 2 ^ 63)) :
    stol text = .error .outOfRange := by
  simp only [stol, strtol_of_isNumeral numeral, outside, if_false]

theorem resize_of_nonneg {size : Int64} {count : Nat}
    (value : size.toInt = count) : resize size = .returns count := by
  have upper := Int64.toInt_lt size
  have count_eq : (size.toInt % 2 ^ 64).toNat = count := by omega
  have fits : count ≤ maxSize := by
    unfold maxSize
    omega
  simp only [resize, count_eq, fits, if_true]

theorem resize_of_neg {size : Int64} (negative : size.toInt < 0) :
    resize size = .throws .lengthError := by
  have lower := Int64.le_toInt size
  have tooLong : ¬(size.toInt % 2 ^ 64).toNat ≤ maxSize := by
    unfold maxSize
    omega
  simp only [resize, tooLong, if_false]

end RedisClient
