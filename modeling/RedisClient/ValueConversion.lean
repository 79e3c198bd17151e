import RedisClient.Value

/-!
# Conversions of values

`value::as<T>` gives nothing where a value has no reading of type `T`, and the
conversion operator of the class throws there.  Numbers are also read from bulk
strings, whose text the standard library then converts; what it throws is
caught, so that such a text has no reading.
-/

namespace RedisClient

open Basis

/-- `std::bad_cast` -/
inductive BadCast where
  | badCast
  deriving DecidableEq

/-- `value::operator T` -/
def Value.convert {α : Type} (as : Value → Option α) (value : Value) :
    Outcome BadCast α :=
  match as value with
  | some result => .returns result
  | none => .throws .badCast

/-- `value::as<string>` -/
def Value.asString : Value → Option Bytes
  | .simpleString text => some text
  | .bulkString bytes => some bytes
  | .integer number => some (Decimal.printInt number.toInt)
  | .error failure => some failure.what
  | _ => none

/-- `value::as<int64_t>` -/
def Value.asInt64 : Value → Option Int64
  | .integer number => some number
  | .bulkString bytes => (stol bytes).toOption
  | _ => none

/-- `value::as<long long>` -/
def Value.asLongLong : Value → Option Int64
  | .integer number => some number
  | .bulkString bytes => (stoll bytes).toOption
  | _ => none

/-- `value::as<int>`: the number of an integer is cast. -/
def Value.asInt : Value → Option Int32
  | .integer number => some number.toInt32
  | .bulkString bytes => (stoi bytes).toOption
  | _ => none

/-- The kinds that have a text. -/
def RedisType.hasText : RedisType → Bool
  | .simpleString | .error | .integer | .bulkString => true
  | .nil | .array => false

theorem Value.exists_asString {value : Value}
    (hasText : value.type.hasText = true) :
    ∃ text, value.asString = some text := by
  cases value <;> first | exact ⟨_, rfl⟩ | cases hasText

theorem Value.asString_eq_none {value : Value}
    (noText : value.type.hasText = false) : value.asString = none := by
  cases value <;> first | rfl | cases noText

end RedisClient
