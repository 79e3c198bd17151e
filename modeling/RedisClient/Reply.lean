import RedisClient.Errors
import RedisClient.Value

/-!
# The reply parser

The parsers of `reply.cpp`.  `memory` is the vector the two iterators point
into, `stop` is `end` and `it` the cursor; `end` need not be the end of the
vector.  An iterator may be moved past `stop` and past the vector, and only a
dereference outside the vector faults.
-/

namespace RedisClient

open Basis

/-- `parse_response` -/
structure Response where
  value : Value
  error : ErrorCode
  it : Nat

/-- The bytes `parse_reply` distinguishes at the start of a reply. -/
inductive Marker where
  | simpleString
  | error
  | bulkString
  | array
  | integer
  deriving DecidableEq

def Marker.byte : Marker → UInt8
  | .simpleString => 43
  | .error => 45
  | .bulkString => 36
  | .array => 42
  | .integer => 58

/-- The `case` of the `switch` in `parse_reply` a byte selects, if any. -/
def marker? (byte : UInt8) : Option Marker :=
  if byte = Marker.simpleString.byte then some .simpleString
  else if byte = Marker.error.byte then some .error
  else if byte = Marker.bulkString.byte then some .bulkString
  else if byte = Marker.array.byte then some .array
  else if byte = Marker.integer.byte then some .integer
  else none

/-- `return parse_response(redis::value(), code, it)` -/
def Response.failed (code : ParseErrorCode) (it : Nat) : Response :=
  ⟨.nil, code.toErrorCode, it⟩

/-- `readLine` on the part of the memory that starts at `it`. -/
def readLineFrom (stop : Nat) : Bytes → Nat → Execution (Bytes × Nat)
  | rest, it =>
      if it = stop then .returns ([], it)
      else
        match rest with
        | [] => .faults it
        | byte :: rest =>
            if byte = carriageReturn then .returns ([], it)
            else do
              let (text, it) ← readLineFrom stop rest (it + 1)
              .returns (byte :: text, it)

/-- `while (it != end && *it != '\r') { text.push_back(*it++); }` -/
def readLine (memory : Bytes) (stop it : Nat) : Execution (Bytes × Nat) :=
  readLineFrom stop (memory.drop it) it

/-- `reply::parse_simple_string` -/
def parseSimpleString (memory : Bytes) (stop it : Nat) :
    Execution Response :=
  if it = stop then .returns (.failed .eof it)
  else do
    let (value, it) ← readLine memory stop it
    -- there is no test for the end here
    .returns ⟨.simpleString value, .success, it + 2⟩

/-- `reply::parse_error` -/
def parseError (memory : Bytes) (stop it : Nat) : Execution Response :=
  if it = stop then .returns (.failed .eof it)
  else do
    let (value, it) ← readLine memory stop it
    if it = stop then .returns (.failed .eof it)
    else
      .returns
        ⟨.error ⟨value⟩, ClientErrorCode.error.toErrorCode, it + 2⟩

/-- `reply::parse_bulk_string` -/
def parseBulkString (memory : Bytes) (stop it : Nat) :
    Execution Response :=
  if it = stop then .returns (.failed .eof it)
  else do
    let (header, it) ← readLine memory stop it
    if it = stop then .returns (.failed .eof it)
    else
      let it := it + 2
      match stol header with
      | .error .invalidArgument => .returns (.failed .malformedMessage it)
      | .error .outOfRange => .returns (.failed .malformedMessage it)
      | .error exception => .throws exception
      | .ok stringSize =>
          if stringSize = -1 then .returns ⟨.nil, .success, it⟩
          else do
            let size ← resize stringSize
            -- `std::copy` throws nothing, so its handler is never entered
            let value ← copy memory it size
            .returns ⟨.bulkString value, .success, it + (size + 2)⟩

/-- `reply::parse_integer` -/
def parseInteger (memory : Bytes) (stop it : Nat) : Execution Response :=
  if it = stop then .returns (.failed .eof it)
  else do
    let (message, it) ← readLine memory stop it
    if it = stop then .returns (.failed .eof it)
    else
      let it := it + 2
      match stol message with
      | .ok value => .returns ⟨.integer value, .success, it⟩
      | .error _ => .returns (.failed .outOfRange it)

/-- The element loop of `parse_array`; `parse it` is `parse_reply(it, end)`
and `remaining` is `arraySize - i`. -/
def parseElements (parse : Nat → Execution Response) (stop : Nat) :
    Nat → Nat → List Value → ErrorCode → Execution Response
  | 0, it, array, error => .returns ⟨.array array, error, it⟩
  | remaining + 1, it, array, _ =>
      if it = stop then .returns (.failed .eof it)
      else do
        let response ← parse it
        if response.error.isError then
          .returns ⟨.nil, response.error, response.it⟩
        else
          parseElements parse stop remaining response.it
            (array ++ [response.value]) response.error

/-- `reply::parse_array`; a negative size leaves the loop unentered. -/
def parseArray (parse : Nat → Execution Response)
    (memory : Bytes) (stop it : Nat) : Execution Response :=
  if it = stop then .returns (.failed .eof it)
  else do
    let (header, it) ← readLine memory stop it
    if it = stop then .returns (.failed .eof it)
    else do
      let it := it + 2
      -- `stol` is outside any `try` block here
      let arraySize ← Outcome.ofExcept (stol header)
      parseElements parse stop arraySize.toInt.toNat it [] .success

/-- The body of `reply::parse_reply`; `parse` stands for its recursive
calls. -/
def parseReplyBody (parse : Nat → Execution Response)
    (memory : Bytes) (stop it : Nat) : Execution Response :=
  if it = stop then .returns (.failed .eof stop)
  else do
    let type ← dereference memory it
    let it := it + 1
    match marker? type with
    | some .simpleString => parseSimpleString memory stop it
    | some .error => parseError memory stop it
    | some .bulkString => parseBulkString memory stop it
    | some .array => parseArray parse memory stop it
    | some .integer => parseInteger memory stop it
    | none => .returns ⟨.nil, .success, stop⟩

/-- `reply::parse_reply` with a bound on the depth of its recursion. -/
def parseReplyFuel (memory : Bytes) (stop : Nat) :
    Nat → Nat → Execution Response
  | 0, _ => .exhausted
  | fuel + 1, it =>
      parseReplyBody (parseReplyFuel memory stop fuel) memory stop it

/-- `reply::parse_reply`.  Every level of recursion reads at least one byte of
the memory, so the bound is never met; `parseReply_eq` is the recursive
definition without it. -/
def parseReply (memory : Bytes) (stop it : Nat) : Execution Response :=
  parseReplyFuel memory stop (memory.length + 1) it

/-- The members of `redis::reply`. -/
structure Reply where
  value : Value
  error : ErrorCode

/-- `reply::load_data`, which also returns the iterator. -/
def loadData (memory : Bytes) (stop it : Nat) : Execution (Reply × Nat) := do
  let response ← parseReply memory stop it
  .returns (⟨response.value, response.error⟩, response.it)

/-- `reply::reply(buffer)` -/
def Reply.ofBuffer (buffer : Bytes) : Execution Reply := do
  let response ← parseReply buffer buffer.length 0
  .returns ⟨response.value, response.error⟩

/-- `reply::reply(error)` -/
def Reply.ofError (error : ErrorCode) : Reply := ⟨.nil, error⟩

section LoadData

variable {memory : Bytes} {stop it : Nat}

theorem loadData_of_returns {response : Response}
    (run : parseReply memory stop it = .returns response) :
    loadData memory stop it =
      .returns (⟨response.value, response.error⟩, response.it) := by
  simp [loadData, run]

theorem loadData_of_throws {exception : Exception}
    (run : parseReply memory stop it = .throws exception) :
    loadData memory stop it = .throws exception := by
  simp [loadData, run]

theorem loadData_of_faults {position : Nat}
    (run : parseReply memory stop it = .faults position) :
    loadData memory stop it = .faults position := by
  simp [loadData, run]

theorem parseReply_of_loadData {reply : Reply} {next : Nat}
    (run : loadData memory stop it = .returns (reply, next)) :
    parseReply memory stop it =
      .returns ⟨reply.value, reply.error, next⟩ := by
  obtain ⟨response, responseRun, equality⟩ :=
    Outcome.bind_eq_returns_iff.mp run
  cases equality
  exact responseRun

end LoadData

@[simp] theorem marker?_byte (marker : Marker) :
    marker? marker.byte = some marker := by
  cases marker <;> rfl

theorem Marker.byte_injective : Function.Injective Marker.byte := by
  intro left right equality
  have selected := congrArg marker? equality
  simpa using selected

theorem eq_byte_of_marker? {byte : UInt8} {marker : Marker}
    (selected : marker? byte = some marker) : byte = marker.byte := by
  unfold marker? at selected
  split_ifs at selected <;> simp_all

end RedisClient
