import RedisClient.StandardLibrary

/-!
# Values

`redis::value` pairs a variant with a tag, and each of its constructors sets
the two consistently, so one inductive type holds exactly the values the class
can hold.
-/

namespace RedisClient

/-- `redis::error`, an exception that carries a text. -/
structure RedisError where
  whatArg : Bytes
  deriving DecidableEq

/-- `what()` returns a C string, which ends before the first NUL. -/
def RedisError.what (error : RedisError) : Bytes :=
  error.whatArg.takeWhile (· != 0)

/-- `redis::value` -/
inductive Value where
  | nil
  | simpleString (text : Bytes)
  | error (error : RedisError)
  | integer (number : Int64)
  | bulkString (bytes : Bytes)
  | array (elements : List Value)

/-- Induction over values with one hypothesis for all elements of an array. -/
@[elab_as_elim, induction_eliminator]
theorem Value.induction {motive : Value → Prop}
    (nil : motive .nil)
    (simpleString : ∀ text, motive (.simpleString text))
    (error : ∀ error, motive (.error error))
    (integer : ∀ number, motive (.integer number))
    (bulkString : ∀ bytes, motive (.bulkString bytes))
    (array : ∀ elements, (∀ element ∈ elements, motive element) →
      motive (.array elements)) :
    ∀ value, motive value := by
  refine @Value.rec motive
    (fun elements => ∀ element ∈ elements, motive element)
    nil simpleString error integer bulkString array ?_ ?_
  · intro element member
    cases member
  · intro head tail headHolds tailHolds element member
    rcases List.mem_cons.mp member with rfl | later
    · exact headHolds
    · exact tailHolds element later

/-- `redis_type` -/
inductive RedisType where
  | nil
  | simpleString
  | error
  | integer
  | bulkString
  | array
  deriving DecidableEq

/-- `value::type` -/
def Value.type : Value → RedisType
  | .nil => .nil
  | .simpleString _ => .simpleString
  | .error _ => .error
  | .integer _ => .integer
  | .bulkString _ => .bulkString
  | .array _ => .array

theorem RedisError.what_of_noNul {text : Bytes} (noNul : 0 ∉ text) :
    RedisError.what ⟨text⟩ = text := by
  apply List.takeWhile_eq_self_iff.mpr
  intro byte member
  simp only [bne_iff_ne, ne_eq]
  rintro rfl
  exact noNul member

end RedisClient
