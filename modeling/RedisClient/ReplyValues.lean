import RedisClient.ReplyDecoding

/-!
# What the parser returns on any bytes

The parser accepts bytes that no server may send.  What it makes of them is
nevertheless one of four things: the value of a plain reply, an error that
stands for itself, the empty value of an array with an error in it, or an empty
value with a code of the parser.
-/

namespace RedisClient

open Basis

/-- The value and the code that a caller is given. -/
inductive Presented : Value → ErrorCode → Prop where
  | plain {reply : Resp} : reply.Plain → Presented reply.value .success
  | error (text : LineText) :
      Presented (.error ⟨text.bytes⟩) ClientErrorCode.error.toErrorCode
  | inside : Presented .nil ClientErrorCode.error.toErrorCode
  | failed {code : ParseErrorCode} :
      code ≠ .noError → Presented .nil code.toErrorCode

def Response.Presented (response : Response) : Prop :=
  RedisClient.Presented response.value response.error

theorem Presented.exists_plain {value : Value} {code : ErrorCode}
    (presented : Presented value code) (success : code.isError = false) :
    code = .success ∧ ∃ reply : Resp, reply.Plain ∧ value = reply.value := by
  cases presented with
  | plain isPlain => exact ⟨rfl, _, isPlain, rfl⟩
  | error text => cases success
  | inside => cases success
  | failed isFailure =>
      rw [ParseErrorCode.isError_toErrorCode] at success
      exact absurd (bne_eq_false_iff_eq.mp success) isFailure

/-- An error leaves no value, unless the server has sent it in place of the
value. -/
theorem Presented.of_isError {value : Value} {code : ErrorCode}
    (presented : Presented value code) (failure : code.isError = true) :
    Presented .nil code := by
  cases presented with
  | plain isPlain => cases failure
  | error text => exact .inside
  | inside => exact .inside
  | failed isFailure => exact .failed isFailure

theorem Resp.plain_array {items : List Resp}
    (plain : ∀ item ∈ items, item.Plain) : (Resp.array items).Plain where
  noError := Resp.anyError_eq_false_iff.mpr fun item member =>
    (plain item member).noError
  noNullArray := Resp.anyNullArray_eq_false_iff.mpr fun item member =>
    (plain item member).noNullArray

/-- The elements are the values of plain replies. -/
def PlainElements (elements : List Value) : Prop :=
  ∃ items : List Resp, (∀ item ∈ items, item.Plain) ∧
    elements = items.map Resp.value

theorem PlainElements.nil : PlainElements [] :=
  ⟨[], fun _ member => absurd member List.not_mem_nil, rfl⟩

theorem PlainElements.append {elements : List Value} {value : Value}
    {code : ErrorCode} (plain : PlainElements elements)
    (presented : Presented value code) (success : code.isError = false) :
    code = .success ∧ PlainElements (elements ++ [value]) := by
  obtain ⟨rfl, reply, replyPlain, rfl⟩ := presented.exists_plain success
  obtain ⟨items, itemsPlain, rfl⟩ := plain
  refine ⟨rfl, items ++ [reply], ?_, by simp⟩
  intro item member
  rcases List.mem_append.mp member with earlier | last
  · exact itemsPlain item earlier
  · rw [List.mem_singleton.mp last]
    exact replyPlain

theorem PlainElements.presented {elements : List Value}
    (plain : PlainElements elements) :
    Presented (.array elements) .success := by
  obtain ⟨items, itemsPlain, rfl⟩ := plain
  rw [← Resp.valueAll_eq_map]
  exact Presented.plain (Resp.plain_array itemsPlain)

section Parsers

variable {memory : Bytes} {stop it : Nat}

theorem readLine_noReturn :
    (readLine memory stop it).Meets True fun line =>
      carriageReturn ∉ line.1 :=
  Outcome.Meets.of_forall fun _ run => (readLine_returns run).1

theorem Response.presented_failed {code : ParseErrorCode}
    (isFailure : code ≠ .noError) (it : Nat) :
    (Response.failed code it).Presented :=
  .failed isFailure

theorem parseSimpleString_presented :
    (parseSimpleString memory stop it).Meets True Response.Presented := by
  unfold parseSimpleString
  split
  · exact Response.presented_failed (by decide) it
  · apply readLine_noReturn.bind
    intro ⟨text, next⟩ noReturn
    exact @Presented.plain (.simple ⟨text, noReturn⟩) ⟨rfl, rfl⟩

theorem parseError_presented :
    (parseError memory stop it).Meets True Response.Presented := by
  unfold parseError
  split
  · exact Response.presented_failed (by decide) it
  · apply readLine_noReturn.bind
    intro ⟨text, next⟩ noReturn
    simp only
    split
    · exact Response.presented_failed (by decide) next
    · exact Presented.error ⟨text, noReturn⟩

theorem parseBulkString_presented :
    (parseBulkString memory stop it).Meets True Response.Presented := by
  unfold parseBulkString
  split
  · exact Response.presented_failed (by decide) it
  · apply readLine_meets.bind
    intro ⟨header, next⟩ _
    simp only
    split
    · exact Response.presented_failed (by decide) next
    · split
      · exact Response.presented_failed (by decide) _
      · exact Response.presented_failed (by decide) _
      · trivial
      · split
        · exact @Presented.plain .nullBulk ⟨rfl, rfl⟩
        · apply (resize_meets _).bind
          intro size _
          apply (copy_meets size).bind
          intro bytes _
          exact @Presented.plain (.bulk bytes) ⟨rfl, rfl⟩

theorem parseInteger_presented :
    (parseInteger memory stop it).Meets True Response.Presented := by
  unfold parseInteger
  split
  · exact Response.presented_failed (by decide) it
  · apply readLine_meets.bind
    intro ⟨message, next⟩ _
    simp only
    split
    · exact Response.presented_failed (by decide) next
    · split
      · exact @Presented.plain (.integer _) ⟨rfl, rfl⟩
      · exact Response.presented_failed (by decide) _

variable {parse : Nat → Execution Response}

/-- The loop collects values of plain replies, or ends with the first error. -/
theorem parseElements_presented
    (presents : ∀ later, (parse later).Meets True Response.Presented)
    (remaining : Nat) {array : List Value} (plain : PlainElements array) :
    (parseElements parse stop remaining it array .success).Meets True
      Response.Presented := by
  induction remaining generalizing it array with
  | zero => exact plain.presented
  | succ remaining induction =>
      unfold parseElements
      split
      · exact Response.presented_failed (by decide) it
      · apply (presents it).bind
        intro element presented
        split <;> rename_i failure
        · exact presented.of_isError failure
        · obtain ⟨success, elements⟩ :=
            plain.append presented (Bool.eq_false_iff.mpr failure)
          rw [success]
          exact induction elements

theorem parseArray_presented
    (presents : ∀ later, (parse later).Meets True Response.Presented) :
    (parseArray parse memory stop it).Meets True Response.Presented := by
  unfold parseArray
  split
  · exact Response.presented_failed (by decide) it
  · apply readLine_meets.bind
    intro ⟨header, next⟩ _
    simp only
    split
    · exact Response.presented_failed (by decide) next
    · cases stol header with
      | error exception => trivial
      | ok size => exact parseElements_presented presents _ .nil

theorem parseReplyBody_presented
    (presents : ∀ later, (parse later).Meets True Response.Presented) :
    (parseReplyBody parse memory stop it).Meets True Response.Presented := by
  unfold parseReplyBody
  split
  · exact Response.presented_failed (by decide) stop
  · apply dereference_meets.bind
    intro type _
    simp only
    split
    · exact parseSimpleString_presented
    · exact parseError_presented
    · exact parseBulkString_presented
    · exact parseArray_presented presents
    · exact parseInteger_presented
    · exact @Presented.plain .nullBulk ⟨rfl, rfl⟩

end Parsers

theorem parseReplyFuel_presented (memory : Bytes) (stop fuel it : Nat) :
    (parseReplyFuel memory stop fuel it).Meets True Response.Presented := by
  induction fuel generalizing it with
  | zero => trivial
  | succ fuel induction => exact parseReplyBody_presented induction

/-- Whatever the bytes are, wherever `end` is and wherever the cursor starts,
what `load_data` returns is presented; and a reply without an error has the
value of a plain reply, whose encoding, if it is not too long, is read as the
same value again. -/
theorem replies_presented (memory : Bytes) (stop it : Nat) {reply : Reply}
    {next : Nat} (run : loadData memory stop it = .returns (reply, next)) :
    Presented reply.value reply.error ∧
      (reply.error.isError = false →
        ∃ plain : Resp, plain.Plain ∧ reply.value = plain.value ∧
          (plain.encode.length ≤ maxSize → ∀ following,
            loadData (plain.encode ++ following)
                (plain.encode ++ following).length 0 =
              .returns (reply, plain.encode.length))) := by
  have presented : Presented reply.value reply.error :=
    (parseReplyFuel_presented memory stop (memory.length + 1) it).of_returns
      (parseReply_of_loadData run)
  refine ⟨presented, fun success => ?_⟩
  obtain ⟨isSuccess, plain, isPlain, isValue⟩ := presented.exists_plain success
  refine ⟨plain, isPlain, isValue, fun fits following => ?_⟩
  rw [Resp.loadData_reading isPlain.readToEnd fits, isPlain.reading_eq,
    ← isValue, ← isSuccess]

/-- `*-5`, which no server may send, is read as an empty array. -/
theorem replies_presented_negativeCount :
    Presented (.array []) .success ∧
      ∃ plain : Resp, plain.Plain ∧ Value.array [] = plain.value := by
  have run : loadData [42, 45, 53, 13, 10] 5 0 =
      .returns (⟨.array [], .success⟩, 5) := rfl
  obtain ⟨presented, success⟩ := replies_presented _ 5 0 run
  obtain ⟨plain, isPlain, isValue, _⟩ := success rfl
  exact ⟨presented, plain, isPlain, isValue⟩

end RedisClient
