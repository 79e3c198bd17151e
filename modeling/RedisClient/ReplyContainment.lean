import RedisClient.FrameAdequacy
import RedisClient.ReplyLoop

/-!
# Staying inside the buffer

When `load_data` reads only inside its range and returns an iterator inside it.
The vector ends at `end` here, so every read behind `end` is a fault.  The
parsers leave the range exactly at frames whose line or payload is cut off
behind the text of the line.
-/

namespace RedisClient

open Basis

/-- The halts at which the cursor is moved out of the buffer. -/
def Halt.Spills : Halt → Prop
  | .stops _ inside => inside = false
  | .throws _ => False
  | .overruns => True

/-- A call of `load_data` on the range `bytes` at the end of a vector reads
inside the range, moves the iterator forward and leaves it inside; and the loops
over `load_data` end after at most one call for each byte. -/
structure StaysInside (front bytes : Bytes) : Prop where
  reads : ∀ position,
    loadData (front ++ bytes) (front ++ bytes).length front.length ≠
      .faults position
  progress : ∀ reply next,
    loadData (front ++ bytes) (front ++ bytes).length front.length =
        .returns (reply, next) →
      front.length < next ∧ next ≤ (front ++ bytes).length
  loops : ∀ {σ : Type} (accept : σ → Reply → σ × ErrorCode) (state : σ),
    Outcome.loop
        (replyTurn accept (front ++ bytes) (front ++ bytes).length)
        (bytes.length + 1) (state, front.length) ≠ .exhausted

theorem At.append (front bytes : Bytes) :
    At (front ++ bytes) front.length bytes :=
  ⟨List.drop_left, by simp⟩

/-- The loops end and the iterator moves forward on every range, so it is left
to show that the range is not exceeded. -/
private theorem staysInside_of {front bytes : Bytes} (nonempty : bytes ≠ [])
    (reads : ∀ position,
      loadData (front ++ bytes) (front ++ bytes).length front.length ≠
        .faults position)
    (inside : ∀ reply next,
      loadData (front ++ bytes) (front ++ bytes).length front.length =
          .returns (reply, next) →
        next ≤ (front ++ bytes).length) :
    StaysInside front bytes where
  reads := reads
  progress reply next run := by
    refine ⟨?_, inside reply next run⟩
    have positive := List.length_pos_iff.mpr nonempty
    rcases parseReply_advances _ _ _ _ (parseReply_of_loadData run) with
      finished | forward
    · simp only [List.length_append] at finished
      omega
    · exact forward
  loops accept state := by
    apply replyLoop_ne_exhausted
    simp only [List.length_append]
    omega

/-- `load_data` stays inside a nonempty range exactly when reading the range
does not come to a frame that spills. -/
theorem staysInside_iff {bytes : Bytes} (nonempty : bytes ≠ [])
    (front : Bytes) :
    StaysInside front bytes ↔
      ∀ halt, Arrives 1 bytes halt → ¬halt.Spills := by
  have cursor := At.append front bytes
  constructor
  · intro stays halt arrives spills
    have ends := arrives.parseReply cursor
    generalize run : parseReply (front ++ bytes) (front ++ bytes).length
      front.length = outcome at ends
    cases ends with
    | @stops inside response failing shown within =>
        have bounds := stays.progress _ _ (loadData_of_returns run)
        have outside : inside = false := spills
        rw [outside] at within
        exact absurd (within.mpr bounds.2) (by decide)
    | throws exception => exact spills
    | faults position => exact stays.reads position (loadData_of_faults run)
    | @runsOver response success outside =>
        have bounds := stays.progress _ _ (loadData_of_returns run)
        omega
  · intro contained
    rcases passes_or_arrives 1 bytes with
      ⟨last, lastLe, passes⟩ | ⟨halt, arrives⟩
    · obtain ⟨response, run, success, behind⟩ := passes.parseReply cursor
      apply staysInside_of nonempty <;> rw [loadData_of_returns run]
      · nofun
      · intro reply next returns
        cases returns
        exact behind.inside
    · have ends := arrives.parseReply cursor
      have contains := contained halt arrives
      generalize run : parseReply (front ++ bytes) (front ++ bytes).length
        front.length = outcome at ends
      cases ends with
      | @stops inside response failing shown within =>
          apply staysInside_of nonempty <;> rw [loadData_of_returns run]
          · nofun
          · intro reply next returns
            cases returns
            cases inside with
            | true => exact within.mp rfl
            | false => exact absurd rfl contains
      | throws exception =>
          apply staysInside_of nonempty <;> rw [loadData_of_throws run]
          · nofun
          · nofun
      | faults position => exact absurd trivial contains
      | runsOver success outside => exact absurd trivial contains

theorem staysInside_truncatedInteger : StaysInside [43] [58, 49] := by
  apply (staysInside_iff (by decide) [43]).mpr
  intro halt arrives
  have found : frame [58, 49] =
      .halts (.stops ParseErrorCode.eof.toErrorCode true) := rfl
  cases arrives with
  | here here =>
      rw [found] at here
      cases here
      exact Bool.noConfusion
  | item item _ => rw [found] at item; cases item
  | inside inside _ => rw [found] at inside; cases inside
  | behind behind _ _ => rw [found] at behind; cases behind

/-- `+OK` without CR LF: the iterator is moved two positions behind the end. -/
theorem not_staysInside_openSimpleString :
    loadData [43, 79, 75] 3 0 =
      .returns (⟨.simpleString [79, 75], .success⟩, 5) ∧
    ¬StaysInside [] [43, 79, 75] := by
  have run : loadData [43, 79, 75] 3 0 =
      .returns (⟨.simpleString [79, 75], .success⟩, 5) := rfl
  refine ⟨run, ?_⟩
  intro stays
  have bounds := stays.progress _ _ run
  simp at bounds

end RedisClient
