import RedisClient.Frame
import RedisClient.ReplyEnding
import RedisClient.Socket

/-!
# Where the parsers land

A read buffer is larger than the bytes a read puts into it, and zeros follow
them.  The frame at the cursor tells what a call of `parse_reply` does there and
where the iterator is behind it: at a byte that was read, at `end`, or among the
zeros.
-/

namespace RedisClient

open Basis

/-! ## On the bytes alone -/

/-- How the parsers leave a buffer without an error code. -/
structure Overrun where
  /-- The distance of the iterator from the end of the buffer. -/
  distance : Nat
  /-- The bytes behind the end that are copied. -/
  copied : Nat
  /-- The elements of an array that are wanted there. -/
  wanted : Nat
  deriving DecidableEq

/-- The overrun of a line whose CR is followed by `after`, if it has one. -/
def lineOverrun (marker : Marker) (text after : Bytes) : Overrun :=
  match marker, stol text with
  | .bulkString, .ok size =>
      if size = -1 then ⟨1, 0, 0⟩
      else
        ⟨size.toInt.toNat + 3 - after.length,
          if size.toInt.toNat = 0 then 0
          else size.toInt.toNat + 1 - after.length, 0⟩
  | .array, .ok size => ⟨1, 0, size.toInt.toNat⟩
  | _, _ => ⟨1, 0, 0⟩

/-- The overrun of the frame at the start of a buffer, if it has one. -/
def overrun : Bytes → Overrun
  | [] => ⟨0, 0, 0⟩
  | byte :: rest =>
      match marker? byte with
      | none => ⟨0, 0, 0⟩
      | some marker =>
          match rest.dropWhile (· != carriageReturn) with
          -- only a simple string goes on from here
          | [] => ⟨2, 0, 0⟩
          | _ :: after =>
              lineOverrun marker (rest.takeWhile (· != carriageReturn)) after

theorem overrun_copied_le (bytes : Bytes) :
    (overrun bytes).copied ≤ (overrun bytes).distance := by
  have line (marker : Marker) (text after : Bytes) :
      (lineOverrun marker text after).copied ≤
        (lineOverrun marker text after).distance := by
    unfold lineOverrun
    split
    · split
      · exact Nat.zero_le _
      · simp only
        split <;> omega
    · exact Nat.zero_le _
    · exact Nat.zero_le _
  unfold overrun
  split
  · exact Nat.le_refl _
  · split
    · exact Nat.le_refl _
    · split
      · exact Nat.zero_le _
      · exact line _ _ _

/-- What follows the first line and the byte behind its CR. -/
def behindLine (bytes : Bytes) : Bytes :=
  ((bytes.drop 1).dropWhile (· != carriageReturn)).drop 2

section Lines

variable {marker : Marker} {text after : Bytes}

private theorem overrun_of_line (noReturn : carriageReturn ∉ text) :
    overrun (marker.byte :: (text ++ carriageReturn :: after)) =
      lineOverrun marker text after := by
  have allKept := ne_of_noReturn noReturn
  simp [overrun, List.takeWhile_append_of_pos allKept,
    List.dropWhile_append_of_pos allKept]

private theorem overrun_of_noReturn (noReturn : carriageReturn ∉ text) :
    overrun (marker.byte :: text) = ⟨2, 0, 0⟩ := by
  have allDropped : text.dropWhile (· != carriageReturn) = [] :=
    List.dropWhile_eq_nil_iff.mpr (ne_of_noReturn noReturn)
  simp [overrun, allDropped]

private theorem behindLine_of_line (noReturn : carriageReturn ∉ text) :
    behindLine (marker.byte :: (text ++ carriageReturn :: after)) =
      after.drop 1 := by
  have allKept := ne_of_noReturn noReturn
  simp [behindLine, List.dropWhile_append_of_pos allKept]

private theorem behindLine_of_noReturn (noReturn : carriageReturn ∉ text) :
    behindLine (marker.byte :: text) = [] := by
  have allDropped : text.dropWhile (· != carriageReturn) = [] :=
    List.dropWhile_eq_nil_iff.mpr (ne_of_noReturn noReturn)
  simp [behindLine, allDropped]

end Lines

/-! ## Cursors -/

/-- The cursor is inside the memory or at its end, and these bytes follow. -/
structure At (memory : Bytes) (it : Nat) (bytes : Bytes) : Prop where
  rest : memory.drop it = bytes
  inside : it ≤ memory.length

theorem At.start (memory : Bytes) : At memory 0 memory :=
  ⟨rfl, Nat.zero_le _⟩

theorem At.length {memory bytes : Bytes} {it : Nat}
    (cursor : At memory it bytes) : memory.length = it + bytes.length := by
  have lengths := congrArg List.length cursor.rest
  have inside := cursor.inside
  rw [List.length_drop] at lengths
  omega

theorem At.notStop {memory bytes : Bytes} {it : Nat}
    (cursor : At memory it bytes) (nonempty : bytes ≠ []) :
    it ≠ memory.length := by
  have length := cursor.length
  have positive := List.length_pos_iff.mpr nonempty
  omega

/-! ## In a read buffer -/

/-- A buffer of which the front was read. -/
def padded (front : Bytes) (room : Nat) : Bytes :=
  front ++ List.replicate room 0

/-- The bytes of the read buffer behind those that were read. -/
def ReadResult.room (read : ReadResult) : Nat :=
  bufferSize - read.chunk.bytes.length

theorem ReadResult.fill_eq (read : ReadResult) :
    (ReadBuffer.zeros.fill read.chunk).bytes =
      padded read.chunk.bytes read.room := by
  simp [ReadBuffer.fill, ReadBuffer.zeros, padded, ReadResult.room]

/-- Where a call of `parse_reply` at `it` ends. -/
def landing (front : Bytes) (room it : Nat) : Ending :=
  ending (parseReply (padded front room) front.length it)

/-- Where so many turns of the element loop end. -/
def landingAll (front : Bytes) (room wanted it : Nat) : Ending :=
  endingAll (parseReply (padded front room) front.length) front.length wanted
    it

/-- The element loop behind the end of the bytes that were read: the first
element takes a zero for an unknown type byte and goes back to `end`. -/
def strayed (room stop distance : Nat) : Nat → Ending
  | 0 => .succeeds (stop + distance)
  | 1 => if distance < room then .succeeds stop else .faults
  | _ + 2 => if distance < room then .fails stop else .faults

/-- Where an overrun ends when so many items are left. -/
def Overrun.landing (overrun : Overrun) (room stop left : Nat) : Ending :=
  if room < overrun.copied then .faults
  else strayed room stop overrun.distance (overrun.wanted + left)

section Padded

variable {front bytes : Bytes} {room it : Nat}

theorem length_padded (front : Bytes) (room : Nat) :
    (padded front room).length = front.length + room := by
  simp [padded]

theorem At.padded (cursor : At front it bytes) (room : Nat) :
    (RedisClient.padded front room).drop it =
      bytes ++ List.replicate room 0 := by
  rw [RedisClient.padded, List.drop_append_of_le_length cursor.inside,
    cursor.rest]

/-- Behind `end` the parsers find zeros, and nothing behind these. -/
theorem landing_behind {distance : Nat} (positive : 0 < distance) :
    landing front room (front.length + distance) =
      if distance < room then .succeeds front.length else .faults := by
  have notStop : front.length + distance ≠ front.length := by omega
  split <;> rename_i among
  · have found : (padded front room).drop (front.length + distance) =
        0 :: List.replicate (room - distance - 1) 0 := by
      have zeros : room - distance = room - distance - 1 + 1 := by omega
      rw [padded, List.drop_append, List.drop_eq_nil_of_le (by omega),
        Nat.add_sub_cancel_left, List.drop_replicate, List.nil_append, zeros]
      rfl
    rw [landing, parseReply_of_unknown found rfl notStop]
    rfl
  · have outside : (padded front room).length ≤ front.length + distance := by
      rw [length_padded]
      omega
    rw [landing, parseReply_of_le outside notStop]
    rfl

theorem landing_stop (front : Bytes) (room : Nat) :
    landing front room front.length = .fails front.length := by
  rw [landing, parseReply_stop]
  rfl

theorem landingAll_succ (wanted it : Nat) :
    landingAll front room (wanted + 1) it =
      (landing front room it).andThen (landingAll front room wanted) :=
  endingAll_succ (landing_stop front room) wanted it

theorem landingAll_add (first second it : Nat) :
    landingAll front room (first + second) it =
      (landingAll front room first it).andThen
        (landingAll front room second) :=
  endingAll_add (landing_stop front room) first second it

theorem landingAll_one (it : Nat) :
    landingAll front room 1 it = landing front room it := by
  rw [landingAll_succ]
  exact Ending.andThen_succeeds _

theorem landingAll_behind {distance : Nat} (positive : 0 < distance)
    (wanted : Nat) :
    landingAll front room wanted (front.length + distance) =
      strayed room front.length distance wanted := by
  match wanted with
  | 0 => rfl
  | 1 => rw [landingAll_one, landing_behind positive, strayed]
  | wanted + 2 =>
      rw [landingAll_succ, landing_behind positive, strayed]
      split
      · exact endingAll_stop (landing_stop front room) wanted
      · rfl

theorem Overrun.landing_andThen {overrun : Overrun}
    (positive : 0 < overrun.distance) (left more : Nat) :
    (overrun.landing room front.length left).andThen
        (landingAll front room more) =
      overrun.landing room front.length (left + more) := by
  unfold Overrun.landing
  split
  · rfl
  · rw [← landingAll_behind positive, ← landingAll_behind positive,
      ← Nat.add_assoc, landingAll_add _ more]

end Padded

/-! ## The frame at the cursor -/

/-- `parse_reply` at `it`, with the front for what was read. -/
def parsePadded (front : Bytes) (room it : Nat) : Execution Response :=
  parseReply (padded front room) front.length it

/-- What the frame of `bytes` tells about the call at `it`. -/
def Tells (front : Bytes) (room it : Nat) (bytes : Bytes) : Frame → Prop
  | .item rest =>
      ∃ response, parsePadded front room it = .returns response ∧
        response.error.isError = false ∧ At front response.it rest
  | .announces count elements =>
      ∃ next, At front next elements ∧
        parsePadded front room it =
          parseElements (parsePadded front room) front.length count next []
            .success
  | .halts (.stops code inside) =>
      ∃ response, parsePadded front room it = .returns response ∧
        response.error = code ∧ code.isError = true ∧
        (response.value = .nil ∨ code = ClientErrorCode.error.toErrorCode) ∧
        if inside then At front response.it (behindLine bytes)
        else response.it = front.length + 1
  | .halts (.throws exception) => parsePadded front room it = .throws exception
  | .halts .overruns =>
      0 < (overrun bytes).distance ∧
        landing front room it = (overrun bytes).landing room front.length 0

section Frames

variable {front bytes text after : Bytes} {marker : Marker} {room it : Nat}

private theorem At.behindLine
    (cursor : At front it (marker.byte :: (text ++ carriageReturn :: after))) :
    (after = [] ∧ it + 1 + text.length + 2 = front.length + 1) ∨
      after ≠ [] ∧ At front (it + 1 + text.length + 2) (after.drop 1) := by
  have length := cursor.length
  simp only [List.length_cons, List.length_append] at length
  have behindText := drop_add_of_append (drop_succ_of_cons cursor.rest)
  cases after with
  | nil =>
      simp only [List.length_nil] at length
      exact Or.inl ⟨rfl, by omega⟩
  | cons byte after =>
      simp only [List.length_cons] at length
      exact Or.inr ⟨by simp,
        drop_succ_of_cons (drop_succ_of_cons behindText), by omega⟩

private theorem tells_passedLine
    (cursor : At front it (marker.byte :: (text ++ carriageReturn :: after)))
    {value : Value}
    (call : parsePadded front room it =
      .returns ⟨value, .success, it + 1 + text.length + 2⟩)
    (ownOverrun : after = [] → overrun bytes = ⟨1, 0, 0⟩) :
    Tells front room it bytes (passedLine after) := by
  rcases cursor.behindLine with ⟨rfl, behind⟩ | ⟨nonempty, behind⟩
  · rw [behind] at call
    simp only [passedLine, Tells, ownOverrun rfl]
    exact ⟨Nat.one_pos, congrArg ending call⟩
  · obtain ⟨byte, rest, rfl⟩ := List.exists_cons_of_ne_nil nonempty
    exact ⟨_, call, rfl, behind⟩

private theorem tells_stops
    (cursor : At front it (marker.byte :: (text ++ carriageReturn :: after)))
    (noReturn : carriageReturn ∉ text) {value : Value} {code : ErrorCode}
    (call : parsePadded front room it =
      .returns ⟨value, code, it + 1 + text.length + 2⟩)
    (failing : code.isError = true)
    (shown : value = .nil ∨ code = ClientErrorCode.error.toErrorCode) :
    Tells front room it (marker.byte :: (text ++ carriageReturn :: after))
      (.halts (.stops code (decide (after ≠ [])))) := by
  refine ⟨_, call, rfl, failing, shown, ?_⟩
  rw [behindLine_of_line noReturn]
  rcases cursor.behindLine with ⟨rfl, behind⟩ | ⟨nonempty, behind⟩
  · exact behind
  · rw [decide_eq_true nonempty]
    exact behind

private theorem tells_payload
    (cursor : At front it (marker.byte :: (text ++ carriageReturn :: after)))
    {size : Nat}
    (call : parsePadded front room it =
      copy (padded front room) (it + 1 + text.length + 2) size >>=
        fun value => .returns ⟨.bulkString value, .success,
          it + 1 + text.length + 2 + (size + 2)⟩)
    (ownOverrun : overrun bytes = ⟨size + 3 - after.length,
      if size = 0 then 0 else size + 1 - after.length, 0⟩) :
    Tells front room it bytes
      (if size + 3 ≤ after.length then .item (after.drop (size + 3))
        else .halts .overruns) := by
  have length := cursor.length
  simp only [List.length_cons, List.length_append] at length
  have memoryLength := length_padded front room
  split <;> rename_i complete
  · have inside : it + 1 + text.length + 2 + size ≤
        (padded front room).length := by
      omega
    rw [copy_of_le inside] at call
    have behindText := drop_add_of_append (drop_succ_of_cons cursor.rest)
    refine ⟨_, call, rfl, ?_, ?_⟩
    · have behindReturn := drop_succ_of_cons behindText
      rw [← behindReturn, List.drop_drop]
      congr 1
      simp only
      omega
    · simp only
      omega
  · have landed : landing front room it = _ := congrArg ending call
    simp only [Tells, ownOverrun, Overrun.landing]
    refine ⟨by omega, ?_⟩
    rw [landed]
    by_cases isEmpty : size = 0
    · subst size
      have sameEnd : it + 1 + text.length + 2 + (0 + 2) =
          front.length + (0 + 3 - after.length) := by
        omega
      rw [sameEnd]
      rfl
    · rw [if_neg isEmpty]
      split <;> rename_i missing
      · have outside : ¬it + 1 + text.length + 2 + size ≤
            (padded front room).length := by
          omega
        rw [copy, if_neg isEmpty, if_neg outside]
        rfl
      · have inside : it + 1 + text.length + 2 + size ≤
            (padded front room).length := by
          omega
        have sameEnd : it + 1 + text.length + 2 + (size + 2) =
            front.length + (size + 3 - after.length) := by
          omega
        rw [copy_of_le inside, sameEnd]
        rfl

private theorem tells_line
    (cursor : At front it (marker.byte :: (text ++ carriageReturn :: after)))
    (noReturn : carriageReturn ∉ text) :
    Tells front room it (marker.byte :: (text ++ carriageReturn :: after))
      (lineFrame marker text after) := by
  have length := cursor.length
  simp only [List.length_cons, List.length_append] at length
  have found : (padded front room).drop it = marker.byte ::
      (text ++ carriageReturn :: (after ++ List.replicate room 0)) := by
    rw [cursor.padded]
    simp
  have call : parsePadded front room it =
      finishLine (padded front room) front.length text
        (it + 1 + text.length + 2) marker :=
    parseReply_of_line found noReturn (by omega)
  have ownOverrun := @overrun_of_line marker text after noReturn
  cases marker with
  | simpleString => exact tells_passedLine cursor call fun _ => ownOverrun
  | error => exact tells_stops cursor noReturn call rfl (Or.inr rfl)
  | integer =>
      simp only [finishLine] at call
      simp only [lineFrame]
      cases header : stol text with
      | ok number =>
          rw [header] at call
          exact tells_passedLine cursor call fun _ => ownOverrun
      | error exception =>
          rw [header] at call
          exact tells_stops cursor noReturn call rfl (Or.inl rfl)
  | bulkString =>
      simp only [finishLine] at call
      simp only [lineOverrun] at ownOverrun
      simp only [lineFrame]
      cases header : stol text with
      | error exception =>
          rw [header] at call
          exact tells_stops cursor noReturn call rfl (Or.inl rfl)
      | ok size =>
          simp only [header] at call ownOverrun ⊢
          split <;> rename_i null
          · rw [if_pos null] at call ownOverrun
            exact tells_passedLine cursor call fun _ => ownOverrun
          · rw [if_neg null] at call ownOverrun
            split <;> rename_i negative
            · rw [resize_of_neg negative] at call
              exact call
            · have value : size.toInt = size.toInt.toNat := by omega
              rw [resize_of_nonneg value, Outcome.returns_bind] at call
              exact tells_payload cursor call ownOverrun
  | array =>
      simp only [finishLine] at call
      simp only [lineOverrun] at ownOverrun
      simp only [lineFrame]
      cases header : stol text with
      | error exception =>
          rw [header] at call
          exact call
      | ok size =>
          simp only [header] at call ownOverrun ⊢
          rcases cursor.behindLine with ⟨rfl, behind⟩ | ⟨nonempty, behind⟩
          · rw [behind] at call
            simp only [Tells, ownOverrun]
            refine ⟨Nat.one_pos, (congrArg ending call).trans ?_⟩
            exact landingAll_behind Nat.one_pos _
          · obtain ⟨byte, rest, rfl⟩ := List.exists_cons_of_ne_nil nonempty
            exact ⟨_, behind, call⟩

private theorem tells_eof
    (call : parsePadded front room it =
      .returns (.failed .eof front.length)) (nothing : behindLine bytes = []) :
    Tells front room it bytes
      (.halts (.stops ParseErrorCode.eof.toErrorCode true)) := by
  refine ⟨_, call, rfl, rfl, Or.inl rfl, ?_⟩
  rw [nothing]
  exact ⟨List.drop_length, Nat.le_refl _⟩

private theorem tells_open (cursor : At front it (marker.byte :: text))
    (noReturn : carriageReturn ∉ text) :
    Tells front room it (marker.byte :: text) (openFrame marker text) := by
  have length := cursor.length
  rw [List.length_cons] at length
  have notStop : it ≠ front.length := by omega
  have found : (padded front room).drop it =
      marker.byte :: (text ++ List.replicate room 0) := cursor.padded room
  have call : parsePadded front room it = _ :=
    parseReply_of_marker found notStop
  have nothing := @behindLine_of_noReturn marker text noReturn
  cases text with
  | nil =>
      have atStop : it + 1 = front.length := by
        rw [List.length_nil] at length
        omega
      have fails : parsePadded front room it =
          .returns (.failed .eof front.length) := by
        rw [call]
        cases marker <;>
          simp [parseSimpleString, parseError, parseBulkString, parseArray,
            parseInteger, atStop]
      cases marker <;> exact tells_eof fails nothing
  | cons byte text =>
      have notAtStop : it + 1 ≠ front.length := by
        rw [List.length_cons] at length
        omega
      have toStop : it + 1 + (byte :: text).length = front.length := by omega
      have lineRun :=
        readLine_of_stop (drop_succ_of_cons found) noReturn toStop
      cases marker with
      | simpleString =>
          simp only [parseSimpleString, notAtStop, if_false, lineRun,
            Outcome.returns_bind] at call
          simp only [openFrame, Tells, overrun_of_noReturn noReturn]
          exact ⟨Nat.two_pos, congrArg ending call⟩
      | _ =>
          simp only [parseError, parseBulkString, parseArray, parseInteger,
            notAtStop, if_false, lineRun, Outcome.returns_bind, if_true] at call
          exact tells_eof call nothing

/-- The frame at the cursor tells what the call there does. -/
theorem parsePadded_frame (cursor : At front it bytes) (room : Nat) :
    Tells front room it bytes (frame bytes) := by
  rcases frame_cases bytes with rfl | ⟨byte, rest, rfl, unknown⟩ |
    ⟨marker, text, rfl, noReturn⟩ | ⟨marker, text, after, noReturn, rfl⟩
  · have atStop : it = front.length := by
      have length := cursor.length
      rw [List.length_nil] at length
      omega
    subst it
    exact tells_eof (parseReply_stop _ _) rfl
  · have notStop := cursor.notStop (List.cons_ne_nil _ _)
    rw [frame_of_unknown unknown]
    exact ⟨_, parseReply_of_unknown (cursor.padded room) unknown notStop, rfl,
      List.drop_length, Nat.le_refl _⟩
  · rw [frame_of_noReturn noReturn]
    exact tells_open cursor noReturn
  · rw [frame_of_line noReturn]
    exact tells_line cursor noReturn

end Frames

end RedisClient
