import RedisClient.Reply

/-!
# Frames

How far the reply parsers get in a buffer, described on the bytes alone.
`frame` looks at one line (and the payload of a bulk string) and says whether
an item is complete, an array is announced, or the parsers cannot go on.
`Passes` and `Arrives` follow the frames of a buffer through nested arrays; for
every buffer exactly one of them tells the end of the story.
-/

namespace RedisClient

open Basis

/-- How the parsers can come to a halt before the items they want are read. -/
inductive Halt where
  /-- An error code, with the iterator inside the buffer or behind it. -/
  | stops (code : ErrorCode) (inside : Bool)
  | throws (exception : Exception)
  /-- No error code, but the cursor has left the buffer. -/
  | overruns
  deriving DecidableEq

/-- What a buffer starts with. -/
inductive Frame where
  /-- An item other than a nonempty array; `rest` is what follows it. -/
  | item (rest : Bytes)
  | announces (count : Nat) (rest : Bytes)
  | halts (halt : Halt)

/-- Two bytes are skipped behind the text of a line, the CR and one more. -/
def passedLine : Bytes → Frame
  | [] => .halts .overruns
  | _ :: rest => .item rest

/-- The frame of a line whose text is followed by a CR and then by `after`. -/
def lineFrame (marker : Marker) (text after : Bytes) : Frame :=
  match marker with
  | .simpleString => passedLine after
  | .error =>
      .halts (.stops ClientErrorCode.error.toErrorCode (decide (after ≠ [])))
  | .integer =>
      match stol text with
      | .ok _ => passedLine after
      | .error _ =>
          .halts (.stops ParseErrorCode.outOfRange.toErrorCode
            (decide (after ≠ [])))
  | .bulkString =>
      match stol text with
      | .ok size =>
          if size = -1 then passedLine after
          else if size.toInt < 0 then .halts (.throws .lengthError)
          else if size.toInt.toNat + 3 ≤ after.length then
            .item (after.drop (size.toInt.toNat + 3))
          else .halts .overruns
      | .error _ =>
          .halts (.stops ParseErrorCode.malformedMessage.toErrorCode
            (decide (after ≠ [])))
  | .array =>
      match stol text with
      | .ok size =>
          match after with
          | [] => .halts .overruns
          | _ :: rest => .announces size.toInt.toNat rest
      | .error exception => .halts (.throws exception)

/-- The frame of a line that runs to the end of the buffer.  The parser of
simple strings does not test for the end. -/
def openFrame : Marker → Bytes → Frame
  | _, [] => .halts (.stops ParseErrorCode.eof.toErrorCode true)
  | .simpleString, _ => .halts .overruns
  | _, _ => .halts (.stops ParseErrorCode.eof.toErrorCode true)

/-- What the parsers find at the start of a buffer.  An unknown type byte is an
item that takes everything. -/
def frame : Bytes → Frame
  | [] => .halts (.stops ParseErrorCode.eof.toErrorCode true)
  | byte :: rest =>
      match marker? byte with
      | none => .item []
      | some marker =>
          match rest.dropWhile (· != carriageReturn) with
          | [] => openFrame marker rest
          | _ :: after =>
              lineFrame marker (rest.takeWhile (· != carriageReturn)) after

/-- `Passes wanted bytes last`: so many items are read without an error, and
`last` is left of the buffer. -/
inductive Passes : Nat → Bytes → Bytes → Prop where
  | done (bytes : Bytes) : Passes 0 bytes bytes
  | item {wanted : Nat} {bytes rest last : Bytes} :
      frame bytes = .item rest → Passes wanted rest last →
      Passes (wanted + 1) bytes last
  | array {wanted count : Nat} {bytes elements rest last : Bytes} :
      frame bytes = .announces count elements → Passes count elements rest →
      Passes wanted rest last → Passes (wanted + 1) bytes last

/-- `Arrives wanted bytes halt`: before so many items are read, the parsers
come to a halt. -/
inductive Arrives : Nat → Bytes → Halt → Prop where
  | here {wanted : Nat} {bytes : Bytes} {halt : Halt} :
      frame bytes = .halts halt → Arrives (wanted + 1) bytes halt
  | item {wanted : Nat} {bytes rest : Bytes} {halt : Halt} :
      frame bytes = .item rest → Arrives wanted rest halt →
      Arrives (wanted + 1) bytes halt
  | inside {wanted count : Nat} {bytes elements : Bytes} {halt : Halt} :
      frame bytes = .announces count elements → Arrives count elements halt →
      Arrives (wanted + 1) bytes halt
  | behind {wanted count : Nat} {bytes elements rest : Bytes} {halt : Halt} :
      frame bytes = .announces count elements → Passes count elements rest →
      Arrives wanted rest halt → Arrives (wanted + 1) bytes halt

/-! ## The frames of lines -/

section Lines

variable {marker : Marker} {text tail after : Bytes}

theorem ne_of_noReturn (noReturn : carriageReturn ∉ text) :
    ∀ byte ∈ text, (byte != carriageReturn) = true := by
  intro byte member
  simp only [bne_iff_ne, ne_eq]
  rintro rfl
  exact noReturn member

theorem frame_of_line (noReturn : carriageReturn ∉ text) :
    frame (marker.byte :: (text ++ carriageReturn :: after)) =
      lineFrame marker text after := by
  have allKept := ne_of_noReturn noReturn
  simp [frame, List.takeWhile_append_of_pos allKept,
    List.dropWhile_append_of_pos allKept]

theorem frame_of_noReturn (noReturn : carriageReturn ∉ text) :
    frame (marker.byte :: text) = openFrame marker text := by
  have allDropped : text.dropWhile (· != carriageReturn) = [] :=
    List.dropWhile_eq_nil_iff.mpr (ne_of_noReturn noReturn)
  simp [frame, allDropped]

theorem frame_of_unknown {byte : UInt8} (unknown : marker? byte = none) :
    frame (byte :: tail) = .item [] := by
  simp [frame, unknown]

theorem line_cases (rest : Bytes) :
    carriageReturn ∉ rest ∨
      ∃ text after, carriageReturn ∉ text ∧
        rest = text ++ carriageReturn :: after := by
  by_cases hasReturn : carriageReturn ∈ rest
  · obtain ⟨text, after, split, noReturn⟩ :=
      List.eq_append_cons_of_mem hasReturn
    exact Or.inr ⟨text, after, noReturn, split⟩
  · exact Or.inl hasReturn

theorem frame_cases (bytes : Bytes) :
    bytes = [] ∨
      (∃ byte rest, bytes = byte :: rest ∧ marker? byte = none) ∨
      (∃ marker text, bytes = Marker.byte marker :: text ∧
        carriageReturn ∉ text) ∨
      ∃ marker text after, carriageReturn ∉ text ∧
        bytes = Marker.byte marker :: (text ++ carriageReturn :: after) := by
  cases bytes with
  | nil => exact Or.inl rfl
  | cons byte rest =>
      cases selected : marker? byte with
      | none => exact Or.inr (Or.inl ⟨byte, rest, rfl, selected⟩)
      | some marker =>
          obtain rfl := eq_byte_of_marker? selected
          rcases line_cases rest with noReturn | ⟨text, after, noReturn, rfl⟩
          · exact Or.inr (Or.inr (Or.inl ⟨marker, rest, rfl, noReturn⟩))
          · exact Or.inr (Or.inr (Or.inr
              ⟨marker, text, after, noReturn, rfl⟩))

end Lines

/-! ## Items one after another -/

theorem Passes.append {first second : Nat} {bytes middle rest : Bytes}
    (firstPass : Passes first bytes middle)
    (secondPass : Passes second middle rest) :
    Passes (first + second) bytes rest := by
  induction firstPass with
  | done bytes => rwa [Nat.zero_add]
  | item found passes induction =>
      rw [Nat.add_right_comm]
      exact .item found (induction secondPass)
  | array found elementsPass passes elementsInduction induction =>
      rw [Nat.add_right_comm]
      exact .array found elementsPass (induction secondPass)

/-- The items that pass before a halt are to be added to those wanted there. -/
theorem Passes.arrives {passed wanted : Nat} {bytes rest : Bytes}
    {halt : Halt} (passes : Passes passed bytes rest)
    (arrives : Arrives wanted rest halt) :
    Arrives (passed + wanted) bytes halt := by
  induction passes with
  | done bytes => rwa [Nat.zero_add]
  | item found passes induction =>
      rw [Nat.add_right_comm]
      exact .item found (induction arrives)
  | array found elementsPass passes elementsInduction induction =>
      rw [Nat.add_right_comm]
      exact .behind found elementsPass (induction arrives)

theorem Arrives.more {wanted : Nat} {bytes : Bytes} {halt : Halt}
    (arrives : Arrives wanted bytes halt) (extra : Nat) :
    Arrives (wanted + extra) bytes halt := by
  induction arrives with
  | here found =>
      rw [Nat.add_right_comm]
      exact .here found
  | item found arrives induction =>
      rw [Nat.add_right_comm]
      exact .item found induction
  | inside found arrives induction =>
      rw [Nat.add_right_comm]
      exact .inside found arrives
  | behind found elementsPass arrives induction =>
      rw [Nat.add_right_comm]
      exact .behind found elementsPass induction

/-! ## Every buffer has an end -/

/-- What is left behind an item or the header of an array. -/
def Frame.rest? : Frame → Option Bytes
  | .item rest => some rest
  | .announces _ rest => some rest
  | .halts _ => none

private theorem length_of_passedLine {after rest : Bytes}
    (found : (passedLine after).rest? = some rest) :
    rest.length < after.length := by
  cases after with
  | nil => cases found
  | cons byte after =>
      cases found
      simp

private theorem length_of_lineFrame {marker : Marker}
    {text after rest : Bytes}
    (found : (lineFrame marker text after).rest? = some rest) :
    rest.length < after.length := by
  cases marker with
  | simpleString => exact length_of_passedLine found
  | error => cases found
  | bulkString =>
      simp only [lineFrame] at found
      split at found
      · split at found
        · exact length_of_passedLine found
        · split at found
          · cases found
          · split at found
            · cases found
              simp only [List.length_drop]
              omega
            · cases found
      · cases found
  | array =>
      simp only [lineFrame] at found
      split at found
      · cases after with
        | nil => cases found
        | cons byte after =>
            cases found
            simp
      · cases found
  | integer =>
      simp only [lineFrame] at found
      split at found
      · exact length_of_passedLine found
      · cases found

private theorem openFrame_rest (marker : Marker) (text : Bytes) :
    (openFrame marker text).rest? = none := by
  cases text <;> cases marker <;> rfl

theorem length_of_frame {bytes rest : Bytes}
    (found : (frame bytes).rest? = some rest) :
    rest.length < bytes.length := by
  rcases frame_cases bytes with rfl | ⟨byte, tail, rfl, unknown⟩ |
    ⟨marker, text, rfl, noReturn⟩ | ⟨marker, text, after, noReturn, rfl⟩
  · cases found
  · rw [frame_of_unknown unknown] at found
    cases found
    simp
  · rw [frame_of_noReturn noReturn, openFrame_rest] at found
    cases found
  · rw [frame_of_line noReturn] at found
    have shorter := length_of_lineFrame found
    simp only [List.length_cons, List.length_append]
    omega

/-- From every buffer so many items are read, or the parsers come to a
halt. -/
theorem passes_or_arrives (wanted : Nat) (bytes : Bytes) :
    (∃ last, last.length ≤ bytes.length ∧ Passes wanted bytes last) ∨
      ∃ halt, Arrives wanted bytes halt := by
  cases wanted with
  | zero => exact Or.inl ⟨bytes, Nat.le_refl _, .done bytes⟩
  | succ wanted =>
      cases found : frame bytes with
      | item rest =>
          have shorter := length_of_frame (congrArg Frame.rest? found)
          rcases passes_or_arrives wanted rest with
            ⟨last, lastLe, passes⟩ | ⟨halt, arrives⟩
          · exact Or.inl ⟨last, by omega, .item found passes⟩
          · exact Or.inr ⟨halt, .item found arrives⟩
      | announces count elements =>
          have shorter := length_of_frame (congrArg Frame.rest? found)
          rcases passes_or_arrives count elements with
            ⟨rest, restLe, elementsPass⟩ | ⟨halt, arrives⟩
          · rcases passes_or_arrives wanted rest with
              ⟨last, lastLe, passes⟩ | ⟨halt, arrives⟩
            · exact Or.inl ⟨last, by omega, .array found elementsPass passes⟩
            · exact Or.inr ⟨halt, .behind found elementsPass arrives⟩
          · exact Or.inr ⟨halt, .inside found arrives⟩
      | halts halt => exact Or.inr ⟨halt, .here found⟩
termination_by bytes.length

end RedisClient
