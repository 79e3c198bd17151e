import RedisClient.FrameAdequacy
import RedisClient.ReplyDecoding

/-!
# Reporting malformed input

A buffer is malformed when it does not start with a reply of the protocol.
`load_data` and the constructor from a buffer report it with an error code only
where the parsers stop at a frame that says so; a length or count they cannot
use makes them throw, and damage behind a line goes unnoticed.
-/

namespace RedisClient

open Basis

mutual

/-- Whether the text of a simple string or an error has an LF, which the
protocol does not allow. -/
def Resp.hasLineFeed : Resp → Bool
  | .simple text => decide (lineFeed ∈ text.bytes)
  | .error text => decide (lineFeed ∈ text.bytes)
  | .array items => Resp.anyLineFeed items
  | _ => false

def Resp.anyLineFeed : List Resp → Bool
  | [] => false
  | item :: items => item.hasLineFeed || Resp.anyLineFeed items

end

/-- A reply of the protocol stands at the start of the buffer. -/
def WellFormedStart (bytes : Bytes) : Prop :=
  ∃ reply front rest,
    Spells reply front ∧ reply.hasLineFeed = false ∧ bytes = front ++ rest

/-- Both entry points return, and they return an error code where the buffer is
malformed. -/
def Reported (bytes : Bytes) : Prop :=
  ∃ reply next, loadData bytes bytes.length 0 = .returns (reply, next) ∧
    Reply.ofBuffer bytes = .returns reply ∧
    (¬WellFormedStart bytes → reply.error.isError = true)

private theorem ofBuffer_of_returns {bytes : Bytes} {response : Response}
    (run : parseReply bytes bytes.length 0 = .returns response) :
    Reply.ofBuffer bytes = .returns ⟨response.value, response.error⟩ := by
  simp [Reply.ofBuffer, run]

private theorem reported_of_returns {bytes : Bytes} {response : Response}
    (run : parseReply bytes bytes.length 0 = .returns response)
    (reports : ¬WellFormedStart bytes → response.error.isError = true) :
    Reported bytes :=
  ⟨_, _, loadData_of_returns run, ofBuffer_of_returns run, reports⟩

private theorem Reported.returns {bytes : Bytes} (reported : Reported bytes) :
    ∃ response, parseReply bytes bytes.length 0 = .returns response ∧
      (¬WellFormedStart bytes → response.error.isError = true) := by
  obtain ⟨reply, next, run, constructed, reports⟩ := reported
  exact ⟨_, parseReply_of_loadData run, reports⟩

/-- Malformed input is reported exactly where the parsers stop with an error
code. -/
theorem reported_iff (bytes : Bytes) :
    Reported bytes ↔
      WellFormedStart bytes ∨
        ∃ code inside, Arrives 1 bytes (.stops code inside) := by
  constructor
  · intro reported
    obtain ⟨response, run, reports⟩ := reported.returns
    by_cases wellFormed : WellFormedStart bytes
    · exact Or.inl wellFormed
    · right
      have failing := reports wellFormed
      rcases passes_or_arrives 1 bytes with
        ⟨last, lastLe, passes⟩ | ⟨halt, arrives⟩
      · obtain ⟨passed, passedRun, success, behind⟩ :=
          passes.parseReply (At.start bytes)
        rw [run] at passedRun
        cases passedRun
        rw [failing] at success
        cases success
      · have ends := arrives.parseReply (At.start bytes)
        rw [run] at ends
        cases ends with
        | stops isError shown within => exact ⟨_, _, arrives⟩
        | runsOver success outside =>
            rw [failing] at success
            cases success
  · rintro (⟨reply, front, rest, spelled, oneLine, rfl⟩ |
      ⟨code, inside, arrives⟩)
    · have found : (front ++ rest).drop 0 = front ++ rest := rfl
      have within : 0 + front.length ≤ (front ++ rest).length := by simp
      obtain ⟨consumed, consumedLe, consumedAll, run⟩ :=
        spelled.parseReply_eq found within
      apply reported_of_returns run
      intro malformed
      exact absurd ⟨reply, front, rest, spelled, oneLine, rfl⟩ malformed
    · have ends := arrives.parseReply (At.start bytes)
      generalize run : parseReply bytes bytes.length 0 = outcome at ends
      cases ends with
      | stops failing shown within =>
          exact reported_of_returns run fun _ => failing

/-- `*x\r\n`: the count is given to `stol` outside any `try` block. -/
theorem not_reported_badCount :
    loadData [42, 120, 13, 10] 4 0 = .throws .invalidArgument ∧
      ¬Reported [42, 120, 13, 10] := by
  have run : loadData [42, 120, 13, 10] 4 0 = .throws .invalidArgument := rfl
  refine ⟨run, ?_⟩
  rintro ⟨reply, next, reportedRun, rest⟩
  have impossible := run.symm.trans reportedRun
  cases impossible

end RedisClient
