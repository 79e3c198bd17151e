import RedisClient.DoubleReading
import RedisClient.ValueConversion

/-!
# Integers in narrow types

The accessors for `int` and `double` meet a number in two forms.  They cast the
number of an integer to `int`, which drops its upper half, and read the digits
of a bulk string with a check of the range.  The forms agree on the numbers
that fit into an `int`, and only on those.
-/

namespace RedisClient

open Basis

/-- `value::as<double>`: the number of an integer is cast to `int` on the
way. -/
def Value.asDouble : Value → Option Float.Model
  | .integer number => some (Float.Model.ofInt32 number.toInt32)
  | .bulkString bytes => (stod bytes).toOption
  | _ => none

/-- The limits of a 32-bit number. -/
def FitsInt32 (number : Int) : Prop := -2 ^ 31 ≤ number ∧ number < 2 ^ 31

/-- The result is the number if it fits into an `int`, and nothing
otherwise. -/
def IsInt (result : Option Int32) (number : Int) : Prop :=
  (FitsInt32 number → result.map Int32.toInt = some number) ∧
    (¬FitsInt32 number → result = none)

/-- The result is a double that stands for the number. -/
def IsDouble (result : Option Float.Model) (number : Int) : Prop :=
  ∃ double, result = some double ∧ Binary64.number double = some (number : ℚ)

/-- Both forms of the number give it as an `int` and as a `double`, as far as
these types can hold it. -/
structure KeepsNumber (number : Int64) (digits : Bytes) : Prop where
  agree : (Value.integer number).asInt = (Value.bulkString digits).asInt
  isInt : IsInt (Value.integer number).asInt number.toInt
  isDouble : number.toInt.natAbs ≤ 2 ^ 53 →
    IsDouble (Value.integer number).asDouble number.toInt ∧
      IsDouble (Value.bulkString digits).asDouble number.toInt

theorem toInt_toInt32 {number : Int64} (fits : FitsInt32 number.toInt) :
    number.toInt32.toInt = number.toInt := by
  rw [Int64.toInt_toInt32, Int.bmod_eq_of_le]
  · exact fits.1
  · exact fits.2

theorem asInt_bulkString {number : Int64} (fits : FitsInt32 number.toInt) :
    (Value.bulkString (Decimal.printInt number.toInt)).asInt =
      some number.toInt32 := by
  rw [Value.asInt, stoi, stol_printInt]
  exact congrArg Except.toOption (if_pos fits)

theorem asInt_bulkString_outside {number : Int64}
    (outside : ¬FitsInt32 number.toInt) :
    (Value.bulkString (Decimal.printInt number.toInt)).asInt = none := by
  rw [Value.asInt, stoi, stol_printInt]
  exact congrArg Except.toOption (if_neg outside)

theorem isInt_bulkString (number : Int64) :
    IsInt (Value.bulkString (Decimal.printInt number.toInt)).asInt
      number.toInt := by
  constructor
  · intro fits
    rw [asInt_bulkString fits, Option.map_some, toInt_toInt32 fits]
  · exact asInt_bulkString_outside

theorem isDouble_bulkString {number : Int} (short : number.natAbs ≤ 2 ^ 53) :
    IsDouble (Value.bulkString (Decimal.printInt number)).asDouble number := by
  refine ⟨Float.Model.ofInt number, ?_, Binary64.number_ofInt short⟩
  rw [Value.asDouble, stod_printInt short]
  rfl

/-- The integer gives the right `double` only if an `int` can hold it. -/
theorem isDouble_integer_iff (number : Int64) :
    IsDouble (Value.integer number).asDouble number.toInt ↔
      FitsInt32 number.toInt := by
  have lower := Int32.le_toInt number.toInt32
  have upper := Int32.toInt_lt number.toInt32
  have kept :
      Binary64.number (Float.Model.ofInt32 number.toInt32) =
        some (number.toInt32.toInt : ℚ) :=
    Binary64.number_ofInt (by omega)
  constructor
  · rintro ⟨double, result, isNumber⟩
    cases result
    rw [kept, Option.some.injEq, Int.cast_inj] at isNumber
    rw [← isNumber]
    exact ⟨lower, upper⟩
  · intro fits
    rw [toInt_toInt32 fits] at kept
    exact ⟨_, rfl, kept⟩

/-- The forms of a number agree exactly when it fits into an `int`. -/
theorem keepsNumber_iff (number : Int64) :
    KeepsNumber number (Decimal.printInt number.toInt) ↔
      FitsInt32 number.toInt := by
  constructor
  · intro keeps
    by_contra outside
    cases keeps.isInt.2 outside
  · intro fits
    have agree : (Value.integer number).asInt =
        (Value.bulkString (Decimal.printInt number.toInt)).asInt :=
      (asInt_bulkString fits).symm
    refine ⟨agree, agree ▸ isInt_bulkString number, fun short => ?_⟩
    exact ⟨(isDouble_integer_iff number).mpr fits, isDouble_bulkString short⟩

/-- The number behind the last `int` becomes the first one. -/
theorem not_keepsNumber_wrapped :
    ¬KeepsNumber 2147483648 (Decimal.printInt 2147483648) := by
  intro keeps
  have outside : ¬FitsInt32 (2147483648 : Int64).toInt := by
    unfold FitsInt32
    decide
  cases keeps.isInt.2 outside

end RedisClient
