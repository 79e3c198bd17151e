import RedisClient.ReplyLocality
import RedisClient.ReplyLoop
import RedisClient.ReplyTranslation

/-!
# Bytes that are read as one reply

Bytes behind which the parser stops although something follows are read the
same way anywhere: behind other bytes, in front of other bytes, and in a vector
that does not end at `end`.  A buffer of such pieces is cut into just these.
-/

namespace RedisClient

open Basis

/-! ## A longer vector -/

section Longer

variable (memory more : Bytes) (stop : Nat)

private theorem readLineFrom_append (rest more : Bytes) (it : Nat) :
    (readLineFrom stop rest it).KeptBy
      (readLineFrom stop (rest ++ more) it) := by
  induction rest generalizing it with
  | nil =>
      rw [List.nil_append]
      unfold readLineFrom
      split
      · exact .refl _
      · exact .of_faults it _
  | cons byte rest induction =>
      simp only [readLineFrom, List.cons_append]
      split
      · exact .refl _
      · split
        · exact .refl _
        · exact (induction (it + 1)).bind fun _ => .refl _

theorem readLine_append (it : Nat) :
    (readLine memory stop it).KeptBy (readLine (memory ++ more) stop it) := by
  rw [readLine, readLine, List.drop_append]
  exact readLineFrom_append stop _ _ it

theorem dereference_append (it : Nat) :
    (dereference memory it).KeptBy (dereference (memory ++ more) it) := by
  intro byte run
  by_cases inside : it < memory.length
  · rw [dereference, List.getElem?_append_left inside]
    exact run
  · rw [dereference_of_le (Nat.le_of_not_lt inside)] at run
    cases run

theorem copy_append (it count : Nat) :
    (copy memory it count).KeptBy (copy (memory ++ more) it count) := by
  by_cases nothing : count = 0
  · rw [copy, copy, if_pos nothing, if_pos nothing]
    exact .refl _
  · by_cases inside : it + count ≤ memory.length
    · have insideMore : it + count ≤ (memory ++ more).length := by
        rw [List.length_append]
        omega
      have bound : count ≤ (memory.drop it).length := by
        rw [List.length_drop]
        omega
      rw [copy_of_le inside, copy_of_le insideMore,
        List.drop_append_of_le_length (by omega),
        List.take_append_of_le_length bound]
      exact .refl _
    · rw [copy, if_neg nothing, if_neg inside]
      exact .of_faults _ _

theorem parseBulkString_append (it : Nat) :
    (parseBulkString memory stop it).KeptBy
      (parseBulkString (memory ++ more) stop it) := by
  unfold parseBulkString
  split
  · exact .refl _
  · apply (readLine_append memory more stop it).bind
    rintro ⟨header, next⟩
    simp only
    split
    · exact .refl _
    · split
      · exact .refl _
      · exact .refl _
      · exact .refl _
      · split
        · exact .refl _
        · apply Outcome.KeptBy.bind (.refl _)
          intro size
          exact (copy_append memory more _ size).bind fun _ => .refl _

theorem parseElements_keptBy {parse other : Nat → Execution Response}
    (kept : ∀ it, (parse it).KeptBy (other it)) (remaining it : Nat)
    (array : List Value) (error : ErrorCode) :
    (parseElements parse stop remaining it array error).KeptBy
      (parseElements other stop remaining it array error) := by
  induction remaining generalizing it array error with
  | zero => exact .refl _
  | succ remaining induction =>
      unfold parseElements
      split
      · exact .refl _
      · apply (kept it).bind
        intro element
        split
        · exact .refl _
        · exact induction _ _ _

theorem parseArray_append {parse other : Nat → Execution Response}
    (kept : ∀ it, (parse it).KeptBy (other it)) (it : Nat) :
    (parseArray parse memory stop it).KeptBy
      (parseArray other (memory ++ more) stop it) := by
  unfold parseArray
  split
  · exact .refl _
  · apply (readLine_append memory more stop it).bind
    rintro ⟨header, next⟩
    simp only
    split
    · exact .refl _
    · apply Outcome.KeptBy.bind (.refl _)
      intro size
      exact parseElements_keptBy stop kept _ _ _ _

theorem parseReplyBody_append {parse other : Nat → Execution Response}
    (kept : ∀ it, (parse it).KeptBy (other it)) (it : Nat) :
    (parseReplyBody parse memory stop it).KeptBy
      (parseReplyBody other (memory ++ more) stop it) := by
  unfold parseReplyBody
  split
  · exact .refl _
  · apply (dereference_append memory more it).bind
    intro type
    simp only
    split
    · unfold parseSimpleString
      split
      · exact .refl _
      · exact (readLine_append memory more stop _).bind fun _ => .refl _
    · unfold parseError
      split
      · exact .refl _
      · exact (readLine_append memory more stop _).bind fun _ => .refl _
    · exact parseBulkString_append memory more stop _
    · exact parseArray_append memory more stop kept _
    · unfold parseInteger
      split
      · exact .refl _
      · exact (readLine_append memory more stop _).bind fun _ => .refl _
    · exact .refl _

/-- `parse_reply` returns the same where the vector goes on behind its end. -/
theorem parseReply_append (it : Nat) :
    (parseReply memory stop it).KeptBy
      (parseReply (memory ++ more) stop it) := by
  have bounded (fuel : Nat) : ∀ it,
      (parseReplyFuel memory stop fuel it).KeptBy
        (parseReply (memory ++ more) stop it) := by
    induction fuel with
    | zero => exact fun _ => .of_exhausted _
    | succ fuel induction =>
        intro it
        rw [parseReplyFuel, parseReply_eq]
        exact parseReplyBody_append memory more stop induction it
  exact bounded _ it

end Longer

/-! ## One reply -/

/-- The bytes are read as this reply, and the parser stops behind them although
a byte follows. -/
def ReadAs (bytes : Bytes) (reply : Reply) : Prop :=
  loadData (bytes ++ [0]) (bytes ++ [0]).length 0 =
    .returns (reply, bytes.length)

namespace ReadAs

variable {bytes : Bytes} {reply : Reply}

theorem ne_nil (read : ReadAs bytes reply) : bytes ≠ [] := by
  rintro rfl
  have progress := loadData_progress (by decide) read
  simp at progress

theorem unique (read : ReadAs bytes reply) {other : Reply}
    (otherRead : ReadAs bytes other) : reply = other := by
  have same := read.symm.trans otherRead
  simpa using same

theorem loadData_eq (read : ReadAs bytes reply) (front rest beyond : Bytes) :
    loadData (front ++ (bytes ++ rest) ++ beyond)
        (front ++ (bytes ++ rest)).length front.length =
      .returns (reply, front.length + bytes.length) := by
  have alone := parseReply_of_front bytes rest (by simp) 0 _
    (parseReply_of_loadData read) (Nat.le_refl _)
  have behind := parseReply_translate front (bytes ++ rest)
    (bytes ++ rest).length 0
  rw [Nat.add_zero, alone, Outcome.translate_returns] at behind
  have longer := parseReply_append (front ++ (bytes ++ rest)) beyond
    (front.length + (bytes ++ rest).length) front.length _ behind
  rw [List.length_append]
  exact loadData_of_returns longer

end ReadAs

theorem Resp.Ordinary.readAs {item : Resp} (ordinary : item.Ordinary)
    (fits : item.encode.length ≤ maxSize) :
    ReadAs item.encode item.toReply := by
  have run := Resp.loadData_reading ordinary.readToEnd fits [0]
  rw [ordinary.reading_eq] at run
  exact run

/-! ## A buffer of replies -/

theorem turns_of_readAs {pieces : List Bytes} {replies : List Reply}
    (reads : List.Forall₂ ReadAs pieces replies) {front beyond : Bytes}
    {memory : Bytes} {stop : Nat}
    (buffer : memory = front ++ pieces.flatten ++ beyond)
    (ends : stop = (front ++ pieces.flatten).length) (before : List Reply) :
    Outcome.Turns (replyTurn pushBack memory stop) replies.length
      (before, front.length) (before ++ replies, stop) := by
  induction reads generalizing front before with
  | nil =>
      rw [List.flatten_nil, List.append_nil] at ends
      rw [List.append_nil, ends]
      exact .refl _
  | @cons piece reply pieces replies read reads induction =>
      have nonempty := List.length_pos_iff.mpr read.ne_nil
      have run := read.loadData_eq front pieces.flatten beyond
      rw [List.flatten_cons] at buffer ends
      rw [← buffer, ← ends] at run
      have notStop : front.length ≠ stop := by
        simp only [List.length_append] at ends
        omega
      have taken : replyTurn pushBack memory stop (before, front.length) =
          .returns (.again (before ++ [reply],
            front.length + piece.length)) := by
        simp [replyTurn, notStop, run, pushBack]
      have bufferBehind :
          memory = front ++ piece ++ pieces.flatten ++ beyond := by
        rw [buffer, List.append_assoc front piece]
      have endsBehind : stop = (front ++ piece ++ pieces.flatten).length := by
        rw [ends, List.append_assoc front piece]
      have later := induction bufferBehind endsBehind (before ++ [reply])
      rw [List.append_assoc, List.singleton_append, List.length_append]
        at later
      exact .step taken later

theorem readReplies_of_readAs {pieces : List Bytes} {replies : List Reply}
    (reads : List.Forall₂ ReadAs pieces replies) (beyond : Bytes) :
    readReplies (pieces.flatten ++ beyond) pieces.flatten.length 0 =
      .returns (replies, pieces.flatten.length) := by
  have turns := @turns_of_readAs _ _ reads [] beyond
    (pieces.flatten ++ beyond) pieces.flatten.length rfl rfl []
  rw [List.nil_append, List.length_nil] at turns
  rw [readReplies, replyLoop_of_turns turns]
  rfl

end RedisClient
