import RedisClient.Message

/-!
# Deciding what is a message

The constructor of `redis_message` takes the parts of a message as strings, and
`value::as<redis_message>` takes them from an array.  The two classify alike,
but the constructor cannot refuse: where it leaves the message empty, the
conversion is to give none.
-/

namespace RedisClient

/-- `redis_message(std::vector<string>)` -/
def RedisMessage.ofStrings (message : List Bytes) : RedisMessage :=
  match message with
  | [kind, channel, contents] =>
      if kind ≠ messageKind then .default
      else
        { RedisMessage.default with
          channel := channel
          contents := contents }
  | [kind, pattern, channel, contents] =>
      if kind ≠ pmessageKind then .default
      else
        { RedisMessage.default with
          pattern := pattern
          channel := channel
          contents := contents }
  | _ => .default

/-- The value holds the text as a string of either kind. -/
inductive Holds : Bytes → Value → Prop where
  | simpleString (text : Bytes) : Holds text (.simpleString text)
  | bulkString (text : Bytes) : Holds text (.bulkString text)

theorem Holds.asString {text : Bytes} {value : Value}
    (holds : Holds text value) : value.asString = some text := by
  cases holds <;> rfl

private theorem getD_eq_iff {text : Option Bytes} {kind : Bytes}
    (nonempty : kind ≠ []) : text.getD [] = kind ↔ text = some kind := by
  cases text with
  | none => simp [nonempty.symm]
  | some text => simp

theorem asRedisMessage_three (kind channel contents : Value) :
    (Value.array [kind, channel, contents]).asRedisMessage =
      if kind.asString = some messageKind then
        some {
          channel := channel.asString.getD []
          pattern := []
          contents := contents.asString.getD [] }
      else none := by
  have isMessage : kind.asString.getD [] = messageKind ↔
      kind.asString = some messageKind := getD_eq_iff (by decide)
  simp only [Value.asRedisMessage, elementText, RedisMessage.default]
  by_cases message : kind.asString = some messageKind
  · simp [message]
  · simp [message, isMessage]

theorem asRedisMessage_four (kind pattern channel contents : Value) :
    (Value.array [kind, pattern, channel, contents]).asRedisMessage =
      if kind.asString = some pmessageKind then
        some {
          channel := channel.asString.getD []
          pattern := pattern.asString.getD []
          contents := contents.asString.getD [] }
      else none := by
  have isPmessage : kind.asString.getD [] = pmessageKind ↔
      kind.asString = some pmessageKind := getD_eq_iff (by decide)
  simp only [Value.asRedisMessage, elementText, RedisMessage.default]
  by_cases pmessage : kind.asString = some pmessageKind
  · simp [pmessage]
  · simp [pmessage, isPmessage]

/-- A longer array of either kind gives a message without contents. -/
theorem asRedisMessage_more (kind second third fourth fifth : Value)
    (rest : List Value) :
    (Value.array
        (kind :: second :: third :: fourth :: fifth :: rest)).asRedisMessage =
      if kind.asString = some messageKind ∨
          kind.asString = some pmessageKind then
        some .default
      else none := by
  have isMessage : kind.asString.getD [] = messageKind ↔
      kind.asString = some messageKind := getD_eq_iff (by decide)
  have isPmessage : kind.asString.getD [] = pmessageKind ↔
      kind.asString = some pmessageKind := getD_eq_iff (by decide)
  simp only [Value.asRedisMessage, elementText]
  by_cases message : kind.asString = some messageKind
  · simp [message]
  · by_cases pmessage : kind.asString = some pmessageKind
    · simp [pmessage]
    · simp [message, pmessage, isMessage, isPmessage]

/-- However its strings are held, an array is read as the message that the
constructor makes of them. -/
theorem asRedisMessage_ofStrings {message : List Bytes} {arr : List Value}
    (held : List.Forall₂ Holds message arr) :
    (Value.array arr).asRedisMessage.getD .default =
      RedisMessage.ofStrings message := by
  match message, held with
  | [], .nil => rfl
  | [_], .cons _ .nil => rfl
  | [_, _], .cons _ (.cons _ .nil) => rfl
  | [kind, _, _],
    .cons heldKind (.cons channel (.cons contents .nil)) =>
      rw [asRedisMessage_three, heldKind.asString, channel.asString,
        contents.asString]
      by_cases isMessage : kind = messageKind
      · simp [RedisMessage.ofStrings, RedisMessage.default, isMessage]
      · simp [RedisMessage.ofStrings, isMessage]
  | [kind, _, _, _],
    .cons heldKind (.cons pattern (.cons channel (.cons contents .nil))) =>
      rw [asRedisMessage_four, heldKind.asString, pattern.asString,
        channel.asString, contents.asString]
      by_cases isPmessage : kind = pmessageKind
      · simp [RedisMessage.ofStrings, isPmessage]
      · simp [RedisMessage.ofStrings, isPmessage]
  | _ :: _ :: _ :: _ :: _ :: _,
    .cons _ (.cons _ (.cons _ (.cons _ (.cons _ _)))) =>
      rw [asRedisMessage_more]
      simp only [RedisMessage.ofStrings]
      split <;> rfl

/-- A message of a pattern, the pattern held as a simple string. -/
theorem asRedisMessage_ofStrings_mixed :
    (Value.array [.bulkString pmessageKind, .simpleString [42],
        .bulkString [99], .bulkString [0, 13]]).asRedisMessage.getD .default =
      RedisMessage.ofStrings [pmessageKind, [42], [99], [0, 13]] :=
  asRedisMessage_ofStrings
    (.cons (.bulkString _) (.cons (.simpleString _)
      (.cons (.bulkString _) (.cons (.bulkString _) .nil))))

/-- The arrays that hold a message. -/
inductive IsMessage : Value → Prop where
  | message {kind : Value} (channel contents : Value) :
      kind.asString = some messageKind →
      IsMessage (.array [kind, channel, contents])
  | pmessage {kind : Value} (pattern channel contents : Value) :
      kind.asString = some pmessageKind →
      IsMessage (.array [kind, pattern, channel, contents])

/-- An array of more elements than a message has, that begins like one. -/
inductive OutgrowsMessage : Value → Prop where
  | intro {kind : Value} {rest : List Value} : 4 ≤ rest.length →
      kind.asString = some messageKind ∨ kind.asString = some pmessageKind →
      OutgrowsMessage (.array (kind :: rest))

theorem asRedisMessage_isSome_iff {value : Value} :
    value.asRedisMessage.isSome = true ↔
      IsMessage value ∨ OutgrowsMessage value := by
  constructor
  · intro isSome
    match value with
    | .array [] => cases isSome
    | .array [_] => cases isSome
    | .array [_, _] => cases isSome
    | .array [kind, channel, contents] =>
        rw [asRedisMessage_three] at isSome
        split at isSome <;> rename_i isMessage
        · exact Or.inl (.message channel contents isMessage)
        · cases isSome
    | .array [kind, pattern, channel, contents] =>
        rw [asRedisMessage_four] at isSome
        split at isSome <;> rename_i isPmessage
        · exact Or.inl (.pmessage pattern channel contents isPmessage)
        · cases isSome
    | .array (kind :: second :: third :: fourth :: fifth :: rest) =>
        rw [asRedisMessage_more] at isSome
        split at isSome <;> rename_i either
        · exact Or.inr (.intro (by simp) either)
        · cases isSome
    | .nil => cases isSome
    | .simpleString _ => cases isSome
    | .error _ => cases isSome
    | .integer _ => cases isSome
    | .bulkString _ => cases isSome
  · rintro (isMessage | outgrows)
    · cases isMessage with
      | message channel contents isMessage =>
          rw [asRedisMessage_three, if_pos isMessage]
          rfl
      | pmessage pattern channel contents isPmessage =>
          rw [asRedisMessage_four, if_pos isPmessage]
          rfl
    · cases outgrows with
      | @intro kind rest long either =>
          match rest, long with
          | second :: third :: fourth :: fifth :: rest, long =>
              rw [asRedisMessage_more, if_pos either]
              rfl

theorem IsMessage.not_outgrows {value : Value} (isMessage : IsMessage value) :
    ¬OutgrowsMessage value := by
  intro outgrows
  cases isMessage with
  | message channel contents kind =>
      cases outgrows with
      | intro long either => simp at long
  | pmessage pattern channel contents kind =>
      cases outgrows with
      | intro long either => simp at long

/-- A value converts exactly when it is a message, unless it outgrows one. -/
theorem asRedisMessage_exact_iff (value : Value) :
    (value.asRedisMessage.isSome = true ↔ IsMessage value) ↔
      ¬OutgrowsMessage value := by
  rw [asRedisMessage_isSome_iff]
  constructor
  · intro exactly outgrows
    exact (exactly.mp (Or.inr outgrows)).not_outgrows outgrows
  · intro fits
    exact ⟨fun either => either.resolve_right fits, Or.inl⟩

/-- A message with two more elements is converted to an empty one. -/
theorem not_asRedisMessage_exact_longer :
    ¬∀ value : Value,
      value.asRedisMessage.isSome = true ↔ IsMessage value := by
  intro exactly
  have isMessage := (exactly (.array [.bulkString messageKind,
    .bulkString [99], .bulkString [100], .bulkString [101],
    .bulkString [102]])).mp rfl
  cases isMessage

end RedisClient
