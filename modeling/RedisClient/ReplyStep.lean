import RedisClient.ReplyRecursion

/-!
# One step of each parser

What a parser does at a position of which the following bytes are known.
`memory.drop it` is everything from the cursor to the end of the vector, and a
line is finished when a CR stands before `end`.
-/

namespace RedisClient

open Basis

theorem drop_add_of_append {memory head rest : Bytes} {it : Nat}
    (found : memory.drop it = head ++ rest) :
    memory.drop (it + head.length) = rest := by
  rw [← List.drop_drop, found, List.drop_left]

theorem drop_succ_of_cons {memory rest : Bytes} {byte : UInt8} {it : Nat}
    (found : memory.drop it = byte :: rest) :
    memory.drop (it + 1) = rest := by
  rw [← List.drop_drop, found]
  rfl

theorem length_of_drop {memory rest : Bytes} {it : Nat}
    (found : memory.drop it = rest) (nonempty : rest ≠ []) :
    memory.length = it + rest.length := by
  have lengths := congrArg List.length found
  rw [List.length_drop] at lengths
  have positive := List.length_pos_iff.mpr nonempty
  omega

theorem dereference_of_drop {memory rest : Bytes} {byte : UInt8} {it : Nat}
    (found : memory.drop it = byte :: rest) :
    dereference memory it = .returns byte := by
  have head : memory[it]? = some byte := by
    rw [← Nat.add_zero it, ← List.getElem?_drop, found]
    rfl
  simp [dereference, head]

theorem dereference_of_le {memory : Bytes} {it : Nat}
    (outside : memory.length ≤ it) : dereference memory it = .faults it := by
  simp [dereference, List.getElem?_eq_none outside]

theorem readLine_of_return
    {memory text tail : Bytes} {stop it : Nat}
    (found : memory.drop it = text ++ carriageReturn :: tail)
    (noReturn : carriageReturn ∉ text) (before : it + text.length < stop) :
    readLine memory stop it = .returns (text, it + text.length) := by
  rw [readLine, found]
  clear found
  induction text generalizing it with
  | nil =>
      have notStop : it ≠ stop := by
        simp only [List.length_nil] at before
        omega
      simp [readLineFrom, notStop]
  | cons byte text induction =>
      simp only [List.length_cons] at before
      have notStop : it ≠ stop := by omega
      have notReturn : byte ≠ carriageReturn := by
        rintro rfl
        simp at noReturn
      have tailBefore : it + 1 + text.length < stop := by omega
      have tailRun :=
        induction (fun member => noReturn (by simp [member])) tailBefore
      simp only [List.cons_append, readLineFrom, notStop, notReturn, if_false,
        tailRun, Outcome.returns_bind, List.length_cons]
      congr 2
      omega

theorem readLine_of_stop
    {memory text rest : Bytes} {stop it : Nat}
    (found : memory.drop it = text ++ rest) (noReturn : carriageReturn ∉ text)
    (atStop : it + text.length = stop) :
    readLine memory stop it = .returns (text, stop) := by
  rw [readLine, found]
  clear found
  subst stop
  induction text generalizing it with
  | nil =>
      cases rest <;> simp [readLineFrom]
  | cons byte text induction =>
      have notStop : it ≠ it + (byte :: text).length := by simp
      have notReturn : byte ≠ carriageReturn := by
        rintro rfl
        simp at noReturn
      have tailRun : readLineFrom (it + 1 + text.length) (text ++ rest)
          (it + 1) = .returns (text, it + 1 + text.length) :=
        induction fun member => noReturn (by simp [member])
      have sameStop : it + 1 + text.length = it + (byte :: text).length := by
        simp only [List.length_cons]
        omega
      rw [sameStop] at tailRun
      simp only [List.cons_append, readLineFrom, notStop, notReturn, if_false,
        tailRun, Outcome.returns_bind]

theorem readLine_of_noReturn
    {memory text : Bytes} {it : Nat}
    (found : memory.drop it = text) (nonempty : text ≠ [])
    (noReturn : carriageReturn ∉ text) :
    readLine memory memory.length it = .returns (text, memory.length) := by
  have length := length_of_drop found nonempty
  rw [← List.append_nil text] at found
  exact readLine_of_stop found noReturn length.symm

private theorem readLineFrom_returns
    {rest text : Bytes} {stop it next : Nat}
    (run : readLineFrom stop rest it = .returns (text, next)) :
    carriageReturn ∉ text ∧ next = it + text.length ∧
      (next = stop ∨ text.length < rest.length) := by
  induction rest generalizing it text with
  | nil =>
      unfold readLineFrom at run
      split at run <;> rename_i atStop
      · cases run
        exact ⟨List.not_mem_nil, rfl, .inl atStop⟩
      · cases run
  | cons byte rest induction =>
      unfold readLineFrom at run
      simp only at run
      split at run <;> rename_i atStop
      · cases run
        exact ⟨List.not_mem_nil, rfl, .inl atStop⟩
      · split at run <;> rename_i notReturn
        · cases run
          exact ⟨List.not_mem_nil, rfl, .inr (Nat.zero_lt_succ _)⟩
        · obtain ⟨⟨tail, last⟩, tailRun, same⟩ :=
            Outcome.bind_eq_returns_iff.mp run
          cases same
          obtain ⟨noReturn, counted, ends⟩ := induction tailRun
          refine ⟨?_, ?_, ?_⟩
          · rw [List.mem_cons, not_or]
            exact ⟨Ne.symm notReturn, noReturn⟩
          · simp only [List.length_cons]
            omega
          · simp only [List.length_cons]
            exact ends.imp_right Nat.succ_lt_succ

/-- A line is the text in front of a CR or of `end`, whichever is first. -/
theorem readLine_returns {memory text : Bytes} {stop it next : Nat}
    (run : readLine memory stop it = .returns (text, next)) :
    carriageReturn ∉ text ∧ next = it + text.length ∧
      (next = stop ∨ next < memory.length) := by
  obtain ⟨noReturn, counted, ends⟩ := readLineFrom_returns run
  refine ⟨noReturn, counted, ends.imp_right fun inside => ?_⟩
  rw [List.length_drop] at inside
  omega

theorem copy_of_drop {memory bytes rest : Bytes} {it : Nat}
    (found : memory.drop it = bytes ++ rest) :
    copy memory it bytes.length = .returns bytes := by
  by_cases isEmpty : bytes = []
  · subst bytes
    rfl
  · have length := length_of_drop found (by simp [isEmpty])
    simp only [List.length_append] at length
    have inside : it + bytes.length ≤ memory.length := by omega
    simp [copy, isEmpty, inside, found]

theorem copy_of_le {memory : Bytes} {it count : Nat}
    (inside : it + count ≤ memory.length) :
    copy memory it count = .returns ((memory.drop it).take count) := by
  unfold copy
  split <;> rename_i isEmpty
  · simp [isEmpty]
  · rfl

theorem parseReply_stop (memory : Bytes) (stop : Nat) :
    parseReply memory stop stop = .returns (.failed .eof stop) := by
  rw [parseReply_eq]
  simp [parseReplyBody]

theorem parseReply_of_marker
    {memory rest : Bytes} {marker : Marker} {stop it : Nat}
    (found : memory.drop it = marker.byte :: rest) (notStop : it ≠ stop) :
    parseReply memory stop it =
      match marker with
      | .simpleString => parseSimpleString memory stop (it + 1)
      | .error => parseError memory stop (it + 1)
      | .bulkString => parseBulkString memory stop (it + 1)
      | .array => parseArray (parseReply memory stop) memory stop (it + 1)
      | .integer => parseInteger memory stop (it + 1) := by
  rw [parseReply_eq]
  simp only [parseReplyBody, notStop, if_false, dereference_of_drop found,
    Outcome.returns_bind, marker?_byte]
  cases marker <;> rfl

/-- At any other byte `parse_reply` skips to `end` without an error. -/
theorem parseReply_of_unknown
    {memory rest : Bytes} {byte : UInt8} {stop it : Nat}
    (found : memory.drop it = byte :: rest) (unknown : marker? byte = none)
    (notStop : it ≠ stop) :
    parseReply memory stop it = .returns ⟨.nil, .success, stop⟩ := by
  rw [parseReply_eq]
  simp only [parseReplyBody, notStop, if_false, dereference_of_drop found,
    Outcome.returns_bind, unknown]

/-- A cursor past the memory faults unless it is at `end`. -/
theorem parseReply_of_le
    {memory : Bytes} {stop it : Nat} (outside : memory.length ≤ it)
    (notStop : it ≠ stop) : parseReply memory stop it = .faults it := by
  rw [parseReply_eq]
  simp [parseReplyBody, notStop, dereference_of_le outside]

theorem stol_error_cases {text : Bytes} {exception : Exception}
    (failure : stol text = .error exception) :
    exception = .invalidArgument ∨ exception = .outOfRange := by
  unfold stol at failure
  split at failure
  · cases failure
    exact Or.inl rfl
  · split at failure <;> cases failure
    exact Or.inr rfl

/-! ## Lines -/

/-- How `parse_reply` goes on at `it` behind a line with the given text. -/
def finishLine (memory : Bytes) (stop : Nat) (text : Bytes) (it : Nat) :
    Marker → Execution Response
  | .simpleString => .returns ⟨.simpleString text, .success, it⟩
  | .error =>
      .returns ⟨.error ⟨text⟩, ClientErrorCode.error.toErrorCode, it⟩
  | .bulkString =>
      match stol text with
      | .error _ => .returns (.failed .malformedMessage it)
      | .ok size =>
          if size = -1 then .returns ⟨.nil, .success, it⟩
          else
            resize size >>= fun count =>
              copy memory it count >>= fun value =>
                .returns ⟨.bulkString value, .success, it + (count + 2)⟩
  | .array =>
      match stol text with
      | .error exception => .throws exception
      | .ok size =>
          parseElements (parseReply memory stop) stop size.toInt.toNat it []
            .success
  | .integer =>
      match stol text with
      | .ok number => .returns ⟨.integer number, .success, it⟩
      | .error _ => .returns (.failed .outOfRange it)

theorem parseReply_of_line
    {memory text tail : Bytes} {marker : Marker} {stop it : Nat}
    (found : memory.drop it = marker.byte :: (text ++ carriageReturn :: tail))
    (noReturn : carriageReturn ∉ text)
    (before : it + 1 + text.length < stop) :
    parseReply memory stop it =
      finishLine memory stop text (it + 1 + text.length + 2) marker := by
  have atByte : it ≠ stop := by omega
  have atText : it + 1 ≠ stop := by omega
  have atReturn : it + 1 + text.length ≠ stop := by omega
  have lineRun :=
    readLine_of_return (drop_succ_of_cons found) noReturn before
  rw [parseReply_of_marker found atByte]
  cases marker with
  | simpleString =>
      simp only [parseSimpleString, atText, if_false, lineRun,
        Outcome.returns_bind, finishLine]
  | error =>
      simp only [parseError, atText, atReturn, if_false, lineRun,
        Outcome.returns_bind, finishLine]
  | bulkString =>
      cases header : stol text with
      | ok size =>
          simp only [parseBulkString, atText, atReturn, if_false, lineRun,
            Outcome.returns_bind, finishLine, header]
      | error exception =>
          rcases stol_error_cases header with rfl | rfl <;>
            simp only [parseBulkString, atText, atReturn, if_false, lineRun,
              Outcome.returns_bind, finishLine, header]
  | array =>
      cases header : stol text with
      | ok size =>
          simp only [parseArray, atText, atReturn, if_false, lineRun,
            Outcome.returns_bind, Outcome.ofExcept_ok, finishLine, header]
      | error exception =>
          simp only [parseArray, atText, atReturn, if_false, lineRun,
            Outcome.returns_bind, Outcome.ofExcept_error, Outcome.throws_bind,
            finishLine, header]
  | integer =>
      cases header : stol text <;>
        simp only [parseInteger, atText, atReturn, if_false, lineRun,
          Outcome.returns_bind, finishLine, header]

end RedisClient
