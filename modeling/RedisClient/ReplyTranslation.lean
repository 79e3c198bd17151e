import RedisClient.ReplyStep

/-!
# Moving the memory of the reply parser

The parsers only look at what follows the cursor.  Bytes put in front of the
memory move every position of a run by their number and change nothing else, so
a call in the middle of a buffer is the call on the rest of the buffer.
-/

namespace RedisClient

open Basis

/-- A response whose iterator is moved. -/
def Response.translate (offset : Nat) (response : Response) : Response :=
  { response with it := offset + response.it }

variable (front memory : Bytes) (stop it : Nat)

private theorem readLineFrom_translate (offset : Nat) (rest : Bytes) :
    readLineFrom (offset + stop) rest (offset + it) =
      (readLineFrom stop rest it).translate offset
        fun (text, next) => (text, offset + next) := by
  induction rest generalizing it with
  | nil =>
      simp only [readLineFrom, Nat.add_left_cancel_iff]
      split <;> rfl
  | cons byte rest induction =>
      simp only [readLineFrom, Nat.add_left_cancel_iff]
      split
      · rfl
      · split
        · rfl
        · rw [Nat.add_assoc, induction]
          apply Outcome.translate_bind
          intro middle run
          rfl

theorem readLine_translate :
    readLine (front ++ memory) (front.length + stop) (front.length + it) =
      (readLine memory stop it).translate front.length
        fun (text, next) => (text, front.length + next) := by
  rw [readLine, List.drop_length_add_append, readLineFrom_translate]
  rfl

theorem dereference_translate :
    dereference (front ++ memory) (front.length + it) =
      (dereference memory it).translate front.length id := by
  simp only [dereference, List.getElem?_append_right (Nat.le_add_right _ _),
    Nat.add_sub_cancel_left]
  cases memory[it]? <;> rfl

theorem copy_translate (count : Nat) :
    copy (front ++ memory) (front.length + it) count =
      (copy memory it count).translate front.length id := by
  simp only [copy, List.drop_length_add_append, List.length_append,
    Nat.add_assoc, Nat.add_le_add_iff_left, Nat.add_max_add_left]
  split
  · rfl
  · split <;> rfl

theorem parseSimpleString_translate :
    parseSimpleString (front ++ memory) (front.length + stop)
        (front.length + it) =
      (parseSimpleString memory stop it).translate front.length
        (Response.translate front.length) := by
  simp only [parseSimpleString, Nat.add_left_cancel_iff]
  split
  · rfl
  · rw [readLine_translate]
    apply Outcome.translate_bind
    intro middle run
    rfl

theorem parseError_translate :
    parseError (front ++ memory) (front.length + stop) (front.length + it) =
      (parseError memory stop it).translate front.length
        (Response.translate front.length) := by
  simp only [parseError, Nat.add_left_cancel_iff]
  split
  · rfl
  · rw [readLine_translate]
    apply Outcome.translate_bind
    intro middle run
    simp only [Nat.add_left_cancel_iff]
    split <;> rfl

theorem parseBulkString_translate :
    parseBulkString (front ++ memory) (front.length + stop)
        (front.length + it) =
      (parseBulkString memory stop it).translate front.length
        (Response.translate front.length) := by
  simp only [parseBulkString, Nat.add_left_cancel_iff]
  split
  · rfl
  · rw [readLine_translate]
    apply Outcome.translate_bind
    intro middle run
    simp only [Nat.add_left_cancel_iff]
    split
    · rfl
    · split
      · rfl
      · rfl
      · rfl
      · split
        · rfl
        · rename_i size header notNull
          by_cases negative : size.toInt < 0
          · rw [resize_of_neg negative]
            rfl
          · have value : size.toInt = size.toInt.toNat := by omega
            rw [resize_of_nonneg value, Outcome.returns_bind,
              Outcome.returns_bind, Nat.add_assoc, copy_translate]
            apply Outcome.translate_bind
            intro bytes copyRun
            simp only [id_eq, Outcome.translate_returns, Response.translate,
              Nat.add_assoc]

theorem parseInteger_translate :
    parseInteger (front ++ memory) (front.length + stop) (front.length + it) =
      (parseInteger memory stop it).translate front.length
        (Response.translate front.length) := by
  simp only [parseInteger, Nat.add_left_cancel_iff]
  split
  · rfl
  · rw [readLine_translate]
    apply Outcome.translate_bind
    intro middle run
    simp only [Nat.add_left_cancel_iff]
    split
    · rfl
    · split <;> rfl

private theorem parseElements_translate
    {parse moved : Nat → Execution Response} {offset start : Nat}
    (advances : Advances parse stop)
    (agree : ∀ it, start ≤ it → it ≠ stop →
      moved (offset + it) =
        (parse it).translate offset (Response.translate offset))
    {remaining it : Nat} (later : start ≤ it)
    (array : List Value) (error : ErrorCode) :
    parseElements moved (offset + stop) remaining (offset + it) array error =
      (parseElements parse stop remaining it array error).translate offset
        (Response.translate offset) := by
  induction remaining generalizing it array error with
  | zero => rfl
  | succ remaining induction =>
      simp only [parseElements, Nat.add_left_cancel_iff]
      split <;> rename_i atStop
      · rfl
      · rw [agree it later atStop]
        apply Outcome.translate_bind
        intro element elementRun
        by_cases failed : element.error.isError = true
        · simp only [Response.translate, failed, if_true]
          rfl
        · simp only [Response.translate, failed]
          rcases advances it element elementRun with finished | forward
          · rw [finished, parseElements_stop, parseElements_stop]
            cases remaining <;> rfl
          · exact induction (by omega) _ _

private theorem parseReplyBody_translate
    {parse moved : Nat → Execution Response} (advances : Advances parse stop)
    (agree : ∀ later, it < later → later ≠ stop →
      moved (front.length + later) =
        (parse later).translate front.length
          (Response.translate front.length)) :
    parseReplyBody moved (front ++ memory) (front.length + stop)
        (front.length + it) =
      (parseReplyBody parse memory stop it).translate front.length
        (Response.translate front.length) := by
  simp only [parseReplyBody, Nat.add_left_cancel_iff]
  split
  · rfl
  · rw [dereference_translate]
    apply Outcome.translate_bind
    intro type typeRun
    rw [Nat.add_assoc]
    simp only [id_eq]
    split
    · exact parseSimpleString_translate front memory stop (it + 1)
    · exact parseError_translate front memory stop (it + 1)
    · exact parseBulkString_translate front memory stop (it + 1)
    · simp only [parseArray, Nat.add_left_cancel_iff]
      split
      · rfl
      · rw [readLine_translate]
        apply Outcome.translate_bind
        rintro ⟨header, next⟩ lineRun
        have lineLe := readLine_le lineRun
        simp only [Nat.add_left_cancel_iff]
        split
        · rfl
        · cases stol header with
          | error exception => rfl
          | ok size =>
              simp only [Outcome.ofExcept_ok, Outcome.returns_bind,
                Nat.add_assoc]
              exact parseElements_translate stop advances
                (fun later above => agree later (by omega))
                (Nat.le_refl (next + 2)) _ _
    · exact parseInteger_translate front memory stop (it + 1)
    · rfl

/-- `parse_reply` does not see what stands before the cursor. -/
theorem parseReply_translate (front memory : Bytes) (stop it : Nat) :
    parseReply (front ++ memory) (front.length + stop) (front.length + it) =
      (parseReply memory stop it).translate front.length
        (Response.translate front.length) := by
  rw [parseReply_eq, parseReply_eq memory]
  apply parseReplyBody_translate _ _ _ _ (parseReply_advances memory stop)
  intro later above notStop
  by_cases outside : memory.length ≤ later
  · have outsideAll :
        (front ++ memory).length ≤ front.length + later := by
      rw [List.length_append]
      omega
    have notStopAll : front.length + later ≠ front.length + stop := by
      omega
    rw [parseReply_of_le outside notStop,
      parseReply_of_le outsideAll notStopAll]
    rfl
  · exact parseReply_translate front memory stop later
termination_by memory.length - it

/-- `load_data` at the start of `rest` decodes `rest`, whatever stands in front
of it in the same buffer. -/
theorem loadData_append_left (front rest : Bytes) :
    loadData (front ++ rest) (front ++ rest).length front.length =
      (loadData rest rest.length 0).translate front.length
        fun (reply, next) => (reply, front.length + next) := by
  have run := parseReply_translate front rest rest.length 0
  rw [Nat.add_zero] at run
  rw [loadData, List.length_append, run]
  apply Outcome.translate_bind
  intro response responseRun
  rfl

end RedisClient
