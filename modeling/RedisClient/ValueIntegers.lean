import RedisClient.ReplyDecoding
import RedisClient.ValueConversion

/-!
# Integers and their texts

A server sends a number as an integer or as a bulk string of its digits.  The
parser converts the one and the accessors of a value convert the other, and
both refuse what does not fit into 64 bits.
-/

namespace RedisClient

open Basis

/-- `:d` and CR LF. -/
def integerForm (digits : Bytes) : Bytes := line .integer digits []

/-- The digits as a bulk string. -/
def bulkForm (digits : Bytes) : Bytes := (Resp.bulk digits).encode

/-- `load_data` makes the reply of the form and stops at the first byte behind
it. -/
def Loads (form following : Bytes) (reply : Reply) : Prop :=
  loadData (form ++ following) (form ++ following).length 0 =
    .returns (reply, form.length)

/-- The accessors of the value give the number and its text. -/
structure HoldsInteger (value : Value) (number : Int64) (digits : Bytes) :
    Prop where
  asInt64 : value.asInt64 = some number
  asLongLong : value.asLongLong = some number
  asString : value.asString = some digits

/-- The limits of a 64-bit number. -/
def FitsInt64 (number : Int) : Prop := -2 ^ 63 ≤ number ∧ number < 2 ^ 63

theorem loads_bulkForm {digits : Bytes}
    (fits : (bulkForm digits).length ≤ maxSize) (following : Bytes) :
    Loads (bulkForm digits) following ⟨.bulkString digits, .success⟩ :=
  Resp.loadData_reading (Or.inl rfl) fits following

theorem length_digits_le (number : Int64) :
    (Decimal.printInt number.toInt).length ≤ 20 := by
  have lower := Int64.le_toInt number
  have upper := Int64.toInt_lt number
  have short : (Decimal.print number.toInt.natAbs).length ≤ 19 :=
    Decimal.length_print_le (by omega) (by omega)
  unfold Decimal.printInt
  split
  · rw [List.length_cons]
    omega
  · omega

theorem length_integerForm_le (number : Int64) :
    (integerForm (Decimal.printInt number.toInt)).length ≤ maxSize := by
  have digits := length_digits_le number
  simp only [integerForm, length_line, List.length_nil, maxSize]
  omega

theorem length_bulkForm_le (number : Int64) :
    (bulkForm (Decimal.printInt number.toInt)).length ≤ maxSize := by
  have digits := length_digits_le number
  have header :
      (Decimal.print (Decimal.printInt number.toInt).length).length ≤ 2 :=
    Decimal.length_print_le (by omega) (by omega)
  simp only [bulkForm, Resp.encode, length_line, length_payload,
    List.length_nil, maxSize]
  omega

theorem loads_integerForm (number : Int64) (following : Bytes) :
    Loads (integerForm (Decimal.printInt number.toInt)) following
      ⟨.integer number, .success⟩ := by
  have readToEnd : (Resp.integer number).ReadToEnd := Or.inl rfl
  exact Resp.loadData_reading readToEnd (length_integerForm_le number)
    following

/-- An integer that does not fit is an error, behind its line. -/
theorem loads_integerForm_outside {number : Int} (outside : ¬FitsInt64 number)
    (following : Bytes) :
    Loads (integerForm (Decimal.printInt number)) following
      ⟨.nil, ParseErrorCode.outOfRange.toErrorCode⟩ := by
  have numeral := Decimal.isNumeral_printInt number
  have found : (integerForm (Decimal.printInt number) ++ following).drop 0 =
      line .integer (Decimal.printInt number) [] ++ following := rfl
  have inside : 0 + (integerForm (Decimal.printInt number)).length ≤
      (integerForm (Decimal.printInt number) ++ following).length := by
    simp
  obtain ⟨-, run⟩ :=
    parseReply_line found (noReturn_of_isNumeral numeral) inside
  rw [Loads, loadData, run, finishLine,
    stol_of_isNumeral_outside numeral outside]
  simp [integerForm, Response.failed]

theorem holdsInteger_integer (number : Int64) :
    HoldsInteger (.integer number) number
      (Decimal.printInt number.toInt) :=
  ⟨rfl, rfl, rfl⟩

theorem holdsInteger_bulkString (number : Int64) :
    HoldsInteger (.bulkString (Decimal.printInt number.toInt)) number
      (Decimal.printInt number.toInt) := by
  refine ⟨?_, ?_, rfl⟩
  · rw [Value.asInt64, stol_printInt]
    rfl
  · rw [Value.asLongLong, stoll, stol_printInt]
    rfl

/-- A number and its text are read alike from an integer and from a bulk
string.  What does not fit is an error as an integer, and has no number as a
bulk string, of which a buffer holds at most `max_size()` bytes. -/
theorem integers_readAlike :
    (∀ (number : Int64) (following : Bytes),
      ∃ integer bulk,
        Loads (integerForm (Decimal.printInt number.toInt)) following
          ⟨integer, .success⟩ ∧
        HoldsInteger integer number (Decimal.printInt number.toInt) ∧
        Loads (bulkForm (Decimal.printInt number.toInt)) following
          ⟨bulk, .success⟩ ∧
        HoldsInteger bulk number (Decimal.printInt number.toInt)) ∧
    ∀ (number : Int) (following : Bytes), ¬FitsInt64 number →
      Loads (integerForm (Decimal.printInt number)) following
          ⟨.nil, ParseErrorCode.outOfRange.toErrorCode⟩ ∧
      ((bulkForm (Decimal.printInt number)).length ≤ maxSize →
        ∃ bulk,
          Loads (bulkForm (Decimal.printInt number)) following
            ⟨bulk, .success⟩ ∧
          bulk.asInt64 = none ∧ bulk.asLongLong = none) := by
  constructor
  · intro number following
    exact ⟨.integer number, _, loads_integerForm number following,
      holdsInteger_integer number,
      loads_bulkForm (length_bulkForm_le number) following,
      holdsInteger_bulkString number⟩
  · intro number following outside
    refine ⟨loads_integerForm_outside outside following, fun fits => ?_⟩
    have refused := stol_of_isNumeral_outside
      (Decimal.isNumeral_printInt number) outside
    refine ⟨_, loads_bulkForm fits following, ?_, ?_⟩
    · rw [Value.asInt64, refused]
      rfl
    · rw [Value.asLongLong, stoll, refused]
      rfl

/-- The number behind the last one that fits. -/
theorem integers_readAlike_beyond :
    Loads (integerForm (Decimal.printInt 9223372036854775808)) [43]
      ⟨.nil, ParseErrorCode.outOfRange.toErrorCode⟩ := by
  have outside : ¬FitsInt64 9223372036854775808 := by
    unfold FitsInt64
    omega
  exact (integers_readAlike.2 9223372036854775808 [43] outside).1

end RedisClient
