import RedisClient.ReplyDecoding
import RedisClient.ValueConversion

/-!
# Published messages

A server pushes a published message as an array of bulk strings, and
`value::as<redis_message>` recovers it from the decoded value by the number of
elements and the text of the first one.  The contents take part in neither, so
they may be any bytes.
-/

namespace RedisClient

open Basis

/-- `redis_message` -/
structure RedisMessage where
  channel : Bytes
  pattern : Bytes
  contents : Bytes
  deriving DecidableEq

/-- `redis_message()` -/
def RedisMessage.default : RedisMessage := ⟨[], [], []⟩

/-- `arr[index].as<string>().value_or("")`, for an index the array has. -/
def elementText (arr : List Value) (index : Nat) : Bytes :=
  ((arr[index]?).bind Value.asString).getD []

/-- `"message"` -/
def messageKind : Bytes := [109, 101, 115, 115, 97, 103, 101]

/-- `"pmessage"` -/
def pmessageKind : Bytes := 112 :: messageKind

/-- `value::as<redis_message>` -/
def Value.asRedisMessage : Value → Option RedisMessage
  | .array arr =>
      if arr.length < 3 then none
      else
        let messageType := elementText arr 0
        if messageType ≠ messageKind ∧ messageType ≠ pmessageKind then none
        else if arr.length = 3 then
          if elementText arr 0 ≠ messageKind then none
          else some { RedisMessage.default with
            channel := elementText arr 1
            contents := elementText arr 2 }
        else if arr.length = 4 then
          if elementText arr 0 ≠ pmessageKind then none
          else some { RedisMessage.default with
            pattern := elementText arr 1
            channel := elementText arr 2
            contents := elementText arr 3 }
        else
          -- longer arrays of either kind give a message without contents
          some RedisMessage.default
  | _ => none

/-- What a server pushes to a subscriber. -/
inductive Push where
  | message (channel contents : Bytes)
  | pmessage (pattern channel contents : Bytes)
  /-- The answer to a subscription command, whose kind is its name. -/
  | acknowledgement (kind name : Bytes) (count : Int64)
      (notMessage : kind ≠ messageKind) (notPmessage : kind ≠ pmessageKind)

/-- The array that is pushed. -/
def Push.toResp : Push → Resp
  | .message channel contents =>
      .array [.bulk messageKind, .bulk channel, .bulk contents]
  | .pmessage pattern channel contents =>
      .array [.bulk pmessageKind, .bulk pattern, .bulk channel, .bulk contents]
  | .acknowledgement kind name count _ _ =>
      .array [.bulk kind, .bulk name, .integer count]

/-- The message an application is to see, if any. -/
def Push.message? : Push → Option RedisMessage
  | .message channel contents =>
      some { channel := channel, pattern := [], contents := contents }
  | .pmessage pattern channel contents =>
      some { channel := channel, pattern := pattern, contents := contents }
  | .acknowledgement .. => none

theorem Push.plain (push : Push) : push.toResp.Plain := by
  cases push <;> exact ⟨rfl, rfl⟩

/-- The value of a pushed array is classified as what was pushed. -/
theorem Push.asRedisMessage_value (push : Push) :
    push.toResp.value.asRedisMessage = push.message? := by
  cases push with
  | message channel contents =>
      simp [Push.toResp, Resp.value, Resp.valueAll, Value.asRedisMessage,
        elementText, Value.asString, Push.message?, RedisMessage.default]
  | pmessage pattern channel contents =>
      simp [Push.toResp, Resp.value, Resp.valueAll, Value.asRedisMessage,
        elementText, Value.asString, Push.message?]
  | acknowledgement kind name count notMessage notPmessage =>
      simp [Push.toResp, Resp.value, Resp.valueAll, Value.asRedisMessage,
        elementText, Value.asString, Push.message?, notMessage, notPmessage]

/-- Every push reaches the application intact: `load_data` ends at the first
byte behind it, and its value gives the message that was pushed, or none for an
acknowledgement. -/
theorem Push.asRedisMessage_encode (push : Push)
    (fits : push.toResp.encode.length ≤ maxSize) (following : Bytes) :
    ∃ reply,
      loadData (push.toResp.encode ++ following)
          (push.toResp.encode ++ following).length 0 =
        .returns (reply, push.toResp.encode.length) ∧
      reply.error = .success ∧
      reply.value.asRedisMessage = push.message? := by
  have run := Resp.loadData_reading push.plain.readToEnd fits following
  rw [push.plain.reading_eq] at run
  exact ⟨_, run, rfl, push.asRedisMessage_value⟩

/-- A payload of CR LF and a type byte, followed by the start of another
push. -/
theorem Push.asRedisMessage_encode_binary :
    ∃ reply,
      loadData ((Push.pmessage [42] [0] [13, 10, 36]).toResp.encode ++ [42])
          ((Push.pmessage [42] [0] [13, 10, 36]).toResp.encode ++
            [42]).length 0 =
        .returns (reply,
          (Push.pmessage [42] [0] [13, 10, 36]).toResp.encode.length) ∧
      reply.error = .success ∧
      reply.value.asRedisMessage =
        some { channel := [0], pattern := [42], contents := [13, 10, 36] } :=
  Push.asRedisMessage_encode (.pmessage [42] [0] [13, 10, 36]) (by decide) [42]

end RedisClient
