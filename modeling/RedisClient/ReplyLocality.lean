import RedisClient.Frame
import RedisClient.ReplyStep

/-!
# The reply parser is local

A call that ends before the end of its memory has closed every line it opened,
and it has looked at nothing behind the position it comes back with.  What
follows there may be replaced or removed.
-/

namespace RedisClient

open Basis

private theorem stop_le_of_openLine {memory text : Bytes} {marker : Marker}
    {it : Nat} (found : memory.drop it = marker.byte :: text)
    (noReturn : carriageReturn ∉ text) {response : Response}
    (run : parseReply memory memory.length it = .returns response) :
    memory.length ≤ response.it := by
  have length := length_of_drop found (by simp)
  rw [List.length_cons] at length
  rw [parseReply_of_marker found (by omega)] at run
  have behindByte := drop_succ_of_cons found
  cases text with
  | nil =>
      rw [List.length_nil] at length
      cases marker <;>
        · simp only [parseSimpleString, parseError, parseBulkString,
            parseArray, parseInteger, length, Nat.zero_add, if_true] at run
          cases run
          simp only [Response.failed]
          omega
  | cons byte text =>
      rw [List.length_cons] at length
      have notStop : it + 1 ≠ memory.length := by omega
      have lineRun := readLine_of_noReturn behindByte (by simp) noReturn
      cases marker <;>
        · simp only [parseSimpleString, parseError, parseBulkString,
            parseArray, parseInteger, notStop, if_false, lineRun,
            Outcome.returns_bind, if_true] at run
          cases run
          simp only [Response.failed]
          omega

private theorem parseElements_advances {memory : Bytes}
    {stop it remaining : Nat} {array : List Value} {error : ErrorCode}
    {response : Response}
    (run : parseElements (parseReply memory stop) stop remaining it array
      error = .returns response) :
    response.it = stop ∨ (it ≠ stop ∧ it ≤ response.it) := by
  by_cases atStop : it = stop
  · rw [atStop, parseElements_stop] at run
    left
    split at run <;> cases run <;> rfl
  · have elements := @parseElements_meets stop it False
      (parseReply memory stop)
      (fun later above notStop => parseReply_meets memory stop later)
      remaining array error
    exact (elements.of_returns run).imp_right fun behind => ⟨atStop, behind⟩

private theorem finishLine_advances {memory text : Bytes} {stop it : Nat}
    {marker : Marker} {response : Response}
    (run : finishLine memory stop text it marker = .returns response) :
    response.it = stop ∨ it ≤ response.it := by
  cases marker with
  | simpleString =>
      cases run
      exact Or.inr (Nat.le_refl it)
  | error =>
      cases run
      exact Or.inr (Nat.le_refl it)
  | bulkString =>
      simp only [finishLine] at run
      cases header : stol text with
      | error exception =>
          rw [header] at run
          cases run
          exact Or.inr (Nat.le_refl it)
      | ok size =>
          rw [header] at run
          simp only at run
          split at run
          · cases run
            exact Or.inr (Nat.le_refl it)
          · obtain ⟨count, countRun, rest⟩ :=
              Outcome.bind_eq_returns_iff.mp run
            obtain ⟨value, valueRun, rest⟩ :=
              Outcome.bind_eq_returns_iff.mp rest
            cases rest
            exact Or.inr (Nat.le_add_right it _)
  | array =>
      simp only [finishLine] at run
      cases header : stol text with
      | error exception =>
          rw [header] at run
          cases run
      | ok size =>
          rw [header] at run
          exact (parseElements_advances run).imp_right And.right
  | integer =>
      simp only [finishLine] at run
      cases header : stol text <;>
        · rw [header] at run
          cases run
          exact Or.inr (Nat.le_refl it)

/-- A call that ends inside the memory starts with a closed line, and behind
the line it does not go back. -/
private theorem closedLine_of_inside {memory : Bytes} {it : Nat}
    {response : Response}
    (run : parseReply memory memory.length it = .returns response)
    (inside : response.it < memory.length) :
    ∃ marker text after, carriageReturn ∉ text ∧
      memory.drop it =
        Marker.byte marker :: (text ++ carriageReturn :: after) ∧
      finishLine memory memory.length text (it + 1 + text.length + 2) marker =
        .returns response ∧
      it + 1 + text.length + 2 ≤ response.it := by
  rcases frame_cases (memory.drop it) with isEmpty |
    ⟨byte, rest, found, unknown⟩ | ⟨marker, text, found, noReturn⟩ |
    ⟨marker, text, after, noReturn, found⟩
  · have outside : memory.length ≤ it := List.drop_eq_nil_iff.mp isEmpty
    by_cases atStop : it = memory.length
    · rw [atStop, parseReply_stop] at run
      cases run
      exact absurd inside (Nat.lt_irrefl _)
    · rw [parseReply_of_le outside atStop] at run
      cases run
  · have length := length_of_drop found (by simp)
    rw [List.length_cons] at length
    rw [parseReply_of_unknown found unknown (by omega)] at run
    cases run
    exact absurd inside (Nat.lt_irrefl _)
  · have outside := stop_le_of_openLine found noReturn run
    omega
  · have length := length_of_drop found (by simp)
    simp only [List.length_cons, List.length_append] at length
    rw [parseReply_of_line found noReturn (by omega)] at run
    refine ⟨marker, text, after, noReturn, found, run, ?_⟩
    rcases finishLine_advances run with atStop | behind
    · omega
    · exact behind

section Front

variable {front rest other : Bytes} {it : Nat} {response : Response}

private theorem drop_of_front (other : Bytes) {head after : Bytes}
    (found : (front ++ rest).drop it = head ++ after)
    (inside : it + head.length ≤ front.length) :
    ∃ behind, (front ++ other).drop it = head ++ behind := by
  rw [List.drop_append_of_le_length (by omega)] at found
  have fits : head.length ≤ (front.drop it).length := by
    rw [List.length_drop]
    omega
  have isPrefix : head <+: front.drop it :=
    List.prefix_of_prefix_length_le ⟨after, rfl⟩ (found ▸ ⟨rest, rfl⟩) fits
  obtain ⟨middle, split⟩ := isPrefix
  refine ⟨middle ++ other, ?_⟩
  rw [List.drop_append_of_le_length (by omega), ← split, List.append_assoc]

private theorem copy_of_front {count : Nat}
    (inside : it + count ≤ front.length) :
    copy (front ++ rest) it count =
      .returns ((front.drop it).take count) := by
  have fits : it + count ≤ (front ++ rest).length := by
    rw [List.length_append]
    omega
  have dropped : count ≤ (front.drop it).length := by
    rw [List.length_drop]
    omega
  rw [copy_of_le fits, List.drop_append_of_le_length (by omega),
    List.take_append_of_le_length dropped]

private theorem parseElements_of_front {start : Nat}
    (parses : ∀ it response, start ≤ it →
      parseReply (front ++ rest) (front ++ rest).length it =
        .returns response → response.it ≤ front.length →
      parseReply (front ++ other) (front ++ other).length it =
        .returns response)
    (nonempty : rest ≠ []) {remaining : Nat} (later : start ≤ it)
    {array : List Value} {error : ErrorCode}
    (run : parseElements (parseReply (front ++ rest) (front ++ rest).length)
      (front ++ rest).length remaining it array error = .returns response)
    (inside : response.it ≤ front.length) :
    parseElements (parseReply (front ++ other) (front ++ other).length)
      (front ++ other).length remaining it array error =
        .returns response := by
  have restPos := List.length_pos_iff.mpr nonempty
  have before : response.it ≠ (front ++ rest).length := by
    rw [List.length_append]
    omega
  induction remaining generalizing it array error with
  | zero => exact run
  | succ remaining induction =>
      have notStop : it ≠ (front ++ rest).length := by
        intro atStop
        rw [atStop, parseElements_stop, if_neg (Nat.succ_ne_zero _)] at run
        cases run
        exact before rfl
      rw [parseElements, if_neg notStop] at run
      obtain ⟨element, elementRun, tail⟩ := Outcome.bind_eq_returns_iff.mp run
      have elementInside : element.it ≠ (front ++ rest).length ∧
          element.it ≤ front.length := by
        split at tail
        · cases tail
          exact ⟨before, inside⟩
        · have behind := (parseElements_advances tail).resolve_left before
          exact ⟨behind.1, behind.2.trans inside⟩
      have forward := ((parseReply_meets _ _ _).of_returns
        elementRun).resolve_left elementInside.1
      have otherRun := parses it element later elementRun elementInside.2
      have otherNotStop : it ≠ (front ++ other).length := by
        rw [List.length_append]
        omega
      rw [parseElements, if_neg otherNotStop, otherRun]
      simp only [Outcome.returns_bind]
      split at tail <;> rename_i failed
      · rw [if_pos failed]
        exact tail
      · rw [if_neg failed]
        exact induction (by omega) tail

/-- What `parse_reply` does at `it` depends on the front alone, if it ends
there and not at `end`. -/
theorem parseReply_of_front (front : Bytes) {rest : Bytes} (other : Bytes)
    (nonempty : rest ≠ []) (it : Nat) (response : Response)
    (run : parseReply (front ++ rest) (front ++ rest).length it =
      .returns response) (inside : response.it ≤ front.length) :
    parseReply (front ++ other) (front ++ other).length it =
      .returns response := by
  have restPos := List.length_pos_iff.mpr nonempty
  have before : response.it < (front ++ rest).length := by
    rw [List.length_append]
    omega
  obtain ⟨marker, text, after, noReturn, found, lineRun, behind⟩ :=
    closedLine_of_inside run before
  -- the line, its CR and the byte skipped behind it are inside the front
  have foundLine : (front ++ rest).drop it =
      (Marker.byte marker :: (text ++ [carriageReturn])) ++ after := by
    simp [found]
  have lineInside :
      it + (Marker.byte marker :: (text ++ [carriageReturn])).length ≤
        front.length := by
    simp only [List.length_cons, List.length_append, List.length_nil]
    omega
  obtain ⟨otherAfter, otherLine⟩ :=
    drop_of_front other foundLine lineInside
  have otherFound : (front ++ other).drop it =
      Marker.byte marker :: (text ++ carriageReturn :: otherAfter) := by
    simp [otherLine]
  have otherBefore : it + 1 + text.length < (front ++ other).length := by
    rw [List.length_append]
    omega
  rw [parseReply_of_line otherFound noReturn otherBefore]
  cases marker with
  | simpleString => exact lineRun
  | error => exact lineRun
  | bulkString =>
      simp only [finishLine] at lineRun ⊢
      cases header : stol text with
      | error exception =>
          rw [header] at lineRun
          exact lineRun
      | ok size =>
          rw [header] at lineRun
          simp only at lineRun ⊢
          split at lineRun <;> rename_i null
          · rw [if_pos null]
            exact lineRun
          · rw [if_neg null]
            obtain ⟨count, countRun, copied⟩ :=
              Outcome.bind_eq_returns_iff.mp lineRun
            obtain ⟨value, valueRun, ended⟩ :=
              Outcome.bind_eq_returns_iff.mp copied
            have payloadInside :
                it + 1 + text.length + 2 + count ≤ front.length := by
              cases ended
              simp only at inside
              omega
            rw [copy_of_front payloadInside] at valueRun
            rw [countRun, Outcome.returns_bind, copy_of_front payloadInside,
              valueRun, Outcome.returns_bind, ended]
  | array =>
      simp only [finishLine] at lineRun ⊢
      cases header : stol text with
      | error exception =>
          rw [header] at lineRun
          cases lineRun
      | ok size =>
          rw [header] at lineRun
          have parses : ∀ later response, it + 1 + text.length + 2 ≤ later →
              parseReply (front ++ rest) (front ++ rest).length later =
                .returns response → response.it ≤ front.length →
              parseReply (front ++ other) (front ++ other).length later =
                .returns response :=
            fun later response above laterRun laterInside =>
              parseReply_of_front front other nonempty later response laterRun
                laterInside
          exact parseElements_of_front parses nonempty (Nat.le_refl _) lineRun
            inside
  | integer => exact lineRun
termination_by front.length - it
decreasing_by omega

end Front

/-- A call that ends before the end of the buffer depends only on the bytes it
consumed: whatever follows them, it returns the same value, the same code and
the same position. -/
theorem parseReply_take_append {bytes : Bytes} {response : Response}
    (run : parseReply bytes bytes.length 0 = .returns response)
    (inside : response.it < bytes.length) (other : Bytes) :
    parseReply (bytes.take response.it ++ other)
        (bytes.take response.it ++ other).length 0 = .returns response := by
  have split : bytes.take response.it ++ bytes.drop response.it = bytes :=
    List.take_append_drop response.it bytes
  have nonempty : bytes.drop response.it ≠ [] := by
    rw [Ne, List.drop_eq_nil_iff]
    omega
  have frontLength : response.it ≤ (bytes.take response.it).length := by
    rw [List.length_take]
    omega
  rw [← split] at run
  exact parseReply_of_front _ other nonempty 0 response run frontLength

/-- An array with an out-of-range integer in it, followed by part of another
reply. -/
theorem parseReply_take_append_badInteger :
    parseReply ([42, 50, 13, 10, 58, 120, 13, 10] ++ [36])
        ([42, 50, 13, 10, 58, 120, 13, 10] ++ [36] : Bytes).length 0 =
      .returns (.failed .outOfRange 8) :=
  @parseReply_take_append [42, 50, 13, 10, 58, 120, 13, 10, 43]
    (.failed .outOfRange 8) rfl (by decide) [36]

end RedisClient
