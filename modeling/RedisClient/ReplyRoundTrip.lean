import RedisClient.ReplyDecoding

/-!
# Round trips through the reply parser

What `load_data` makes of the encoding of a reply when anything may follow it
in the buffer: plain replies and top-level errors come back as they were
written, and an array comes back if and only if no error reply stands in it.
-/

namespace RedisClient

open Basis

/-- Decoding undoes encoding, and the iterator ends at the first byte behind
the reply. -/
theorem loadData_encode :
    (∀ (reply : Resp) (suffix : Bytes),
      reply.Plain → reply.encode.length ≤ maxSize →
        loadData (reply.encode ++ suffix) (reply.encode ++ suffix).length 0 =
          .returns (⟨reply.value, .success⟩, reply.encode.length)) ∧
    (∀ (text : LineText) (suffix : Bytes),
      0 ∉ text.bytes → (Resp.error text).encode.length ≤ maxSize →
        ∃ error : RedisError, error.what = text.bytes ∧
          loadData ((Resp.error text).encode ++ suffix)
              ((Resp.error text).encode ++ suffix).length 0 =
            .returns (⟨.error error, ClientErrorCode.error.toErrorCode⟩,
              (Resp.error text).encode.length)) := by
  constructor
  · intro reply suffix plain fits
    rw [Resp.loadData_reading plain.readToEnd fits, plain.reading_eq]
  · intro text suffix noNul fits
    refine ⟨⟨text.bytes⟩, RedisError.what_of_noNul noNul, ?_⟩
    exact Resp.loadData_reading (Resp.readToEnd_error text) fits suffix

private def nestedReply : Resp :=
  .array [.bulk [13, 10, 0], .array [.nullBulk, .integer (-7)], .array []]

theorem loadData_encode_nested :
    loadData (nestedReply.encode ++ [43]) (nestedReply.encode ++ [43]).length
        0 =
      .returns (⟨nestedReply.value, .success⟩, nestedReply.encode.length) :=
  loadData_encode.1 nestedReply [43] ⟨rfl, rfl⟩ (by decide)

/-! ## Arrays with error replies in them -/

mutual

/-- `Presents reply value`: the value still shows the reply.  A null array may
appear as nil or as an empty array. -/
inductive Presents : Resp → Value → Prop where
  | simple (text : LineText) :
      Presents (.simple text) (.simpleString text.bytes)
  | integer (number : Int64) : Presents (.integer number) (.integer number)
  | bulk (bytes : Bytes) : Presents (.bulk bytes) (.bulkString bytes)
  | nullBulk : Presents .nullBulk .nil
  | array {items : List Resp} {values : List Value} :
      PresentsAll items values → Presents (.array items) (.array values)
  | nullArray : Presents .nullArray .nil
  | emptyArray : Presents .nullArray (.array [])

/-- Every element that is not an error reply is shown, in order.  An error
reply may be shown by anything or be left out. -/
inductive PresentsAll : List Resp → List Value → Prop where
  | nil : PresentsAll [] []
  | cons {item : Resp} {items : List Resp} {value : Value}
      {values : List Value} :
      Presents item value → PresentsAll items values →
      PresentsAll (item :: items) (value :: values)
  | error (text : LineText) (value : Value) {items : List Resp}
      {values : List Value} :
      PresentsAll items values →
      PresentsAll (.error text :: items) (value :: values)
  | omitted (text : LineText) {items : List Resp} {values : List Value} :
      PresentsAll items values →
      PresentsAll (.error text :: items) values

end

/-- A reader that goes on behind an array reply finds what follows it: the
iterator is behind the whole encoding, the next call decodes the suffix from
its own first byte, and the elements that are not errors are in the value. -/
def KeepsInStep (items : List Resp) (suffix : Bytes) : Prop :=
  let encoding := (Resp.array items).encode
  let memory := encoding ++ suffix
  ∃ reply next, loadData memory memory.length 0 = .returns (reply, next) ∧
    next = encoding.length ∧
    loadData memory memory.length next =
      (loadData suffix suffix.length 0).translate encoding.length
        (fun (reply, it) => (reply, encoding.length + it)) ∧
    ∃ values, reply.value = .array values ∧ PresentsAll items values

private theorem presentsAll_readingAll {items : List Resp}
    (presents : ∀ item ∈ items, Presents item item.reading.1)
    (noError : Resp.anyError items = false) (values : List Value) :
    ∃ elements, PresentsAll items elements ∧
      (Resp.readingAll items values).1 = .array (values ++ elements) := by
  induction items generalizing values with
  | nil => exact ⟨[], .nil, by simp [Resp.readingAll]⟩
  | cons item items induction =>
      rw [Resp.anyError, Bool.or_eq_false_iff] at noError
      obtain ⟨headNoError, tailNoError⟩ := noError
      obtain ⟨elements, presented, reading⟩ := induction
        (fun later member => presents later (by simp [member])) tailNoError
        (values ++ [item.reading.1])
      refine ⟨item.reading.1 :: elements,
        .cons (presents item (by simp)) presented, ?_⟩
      simp [Resp.readingAll, Resp.isError_reading, headNoError, reading]

theorem Resp.presents_reading {reply : Resp}
    (noError : reply.hasError = false) :
    Presents reply reply.reading.1 := by
  induction reply with
  | simple text => exact .simple text
  | error text => cases noError
  | integer number => exact .integer number
  | bulk bytes => exact .bulk bytes
  | nullBulk => exact .nullBulk
  | array items induction =>
      have itemsNoError := Resp.anyError_eq_false_iff.mp noError
      obtain ⟨elements, presented, reading⟩ := presentsAll_readingAll
        (fun item member => induction item member (itemsNoError item member))
        noError []
      rw [Resp.reading, reading]
      exact .array presented
  | nullArray => exact .emptyArray

/-- An array reply is read in step with the stream exactly when no error reply
stands in it, at any depth. -/
theorem keepsInStep_iff {items : List Resp}
    (fits : (Resp.array items).encode.length ≤ maxSize) (suffix : Bytes) :
    KeepsInStep items suffix ↔ Resp.anyError items = false := by
  constructor
  · rintro ⟨reply, next, run, exact, following, values, value, presented⟩
    by_contra failing
    rw [Bool.not_eq_false] at failing
    have found : ((Resp.array items).encode ++ suffix).drop 0 =
      (Resp.array items).encode ++ suffix := rfl
    have inside : 0 + (Resp.array items).encode.length ≤
        ((Resp.array items).encode ++ suffix).length := by
      simp
    obtain ⟨consumed, consumedLe, failingRun⟩ :=
      (Resp.spells_encode fits).loadData_of_anyError failing found inside
    rw [failingRun] at run
    cases run
    cases value
  · intro noError
    have readToEnd : (Resp.array items).ReadToEnd := Or.inl noError
    have run := Resp.loadData_reading readToEnd fits suffix
    have presented : Presents (.array items) (Resp.array items).reading.1 :=
      Resp.presents_reading noError
    refine ⟨_, _, run, rfl, loadData_append_left _ _, ?_⟩
    cases reading : (Resp.array items).reading.1 with
    | array values =>
        rw [reading] at presented
        cases presented with
        | array elements => exact ⟨values, rfl, elements⟩
    | _ =>
        rw [reading] at presented
        cases presented

theorem keepsInStep_integer : KeepsInStep [.integer 7] [43] :=
  (keepsInStep_iff (by decide) [43]).mpr rfl

/-- `*2\r\n-E\r\n:1\r\n` -/
private def errorThenInteger : List Resp :=
  [.error ⟨[69], by decide⟩, .integer 1]

/-- The call returns before the second element, whose four bytes would be
decoded as a reply of its own. -/
theorem not_keepsInStep_errorThenInteger :
    (Resp.array errorThenInteger).encode.length = 12 ∧
    loadData (Resp.array errorThenInteger).encode 12 0 =
      .returns (⟨.nil, ClientErrorCode.error.toErrorCode⟩, 8) ∧
    ¬KeepsInStep errorThenInteger [] := by
  have length : (Resp.array errorThenInteger).encode.length = 12 := rfl
  have run : loadData (Resp.array errorThenInteger).encode 12 0 =
      .returns (⟨.nil, ClientErrorCode.error.toErrorCode⟩, 8) := rfl
  refine ⟨length, run, ?_⟩
  rintro ⟨reply, next, keptRun, exact, following⟩
  rw [List.append_nil, length, run] at keptRun
  cases keptRun
  rw [length] at exact
  cases exact

end RedisClient
