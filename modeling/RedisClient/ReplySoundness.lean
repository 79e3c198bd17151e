import RedisClient.ReplyReporting

/-!
# What the parser accepts

`load_data` without an error code should mean that a reply of the protocol was
read to its last byte.  The parsers skip two bytes where they expect CR LF, read
numbers as `stol` does and let unknown type bytes pass, so this holds exactly
for buffers that start with a plain reply and for those in which a frame stops
the parsers with a code.
-/

namespace RedisClient

open Basis

/-- `load_data` returns, and where it reports no error it has read a reply of
the protocol, ended behind its last byte and given the value it denotes. -/
def AcceptsOnlyReplies (bytes : Bytes) : Prop :=
  ∃ reply next, loadData bytes bytes.length 0 = .returns (reply, next) ∧
    (reply.error.isError = false →
      ∃ spelledReply front rest,
        Spells spelledReply front ∧ spelledReply.hasLineFeed = false ∧
          bytes = front ++ rest ∧ next = front.length ∧
            reply.value = spelledReply.value)

/-- A plain reply of the protocol stands at the start of the buffer. -/
def PlainStart (bytes : Bytes) : Prop :=
  ∃ reply front rest,
    Spells reply front ∧ reply.hasLineFeed = false ∧ reply.Plain ∧
      bytes = front ++ rest

theorem Resp.noNullArray_of_reading {reply : Resp}
    (noError : reply.hasError = false) (same : reply.reading.1 = reply.value) :
    reply.hasNullArray = false := by
  induction reply with
  | array items induction =>
      simp only [Resp.hasError, Resp.anyError_eq_false_iff] at noError
      rw [Resp.reading_array_of_noError noError, Resp.value,
        Resp.valueAll_eq_map] at same
      have pointwise := List.map_inj_left.mp (Value.array.inj same)
      simp only [Resp.hasNullArray, Resp.anyNullArray_eq_false_iff]
      intro item member
      exact induction item member (noError item member)
        (pointwise item member)
  | nullArray => cases same
  | _ => rfl

/-- A success that has read a reply exactly has read a plain one. -/
private theorem plain_of_exact {reply : Resp} {front rest : Bytes}
    {response : Response} (spelled : Spells reply front)
    (run : parseReply (front ++ rest) (front ++ rest).length 0 =
      .returns response)
    (success : response.error.isError = false)
    (same : response.value = reply.value) : reply.Plain := by
  have found : (front ++ rest).drop 0 = front ++ rest := rfl
  have within : 0 + front.length ≤ (front ++ rest).length := by simp
  obtain ⟨consumed, consumedLe, consumedAll, spelledRun⟩ :=
    spelled.parseReply_eq found within
  rw [run] at spelledRun
  cases spelledRun
  simp only at success same
  rw [Resp.isError_reading] at success
  exact ⟨success, Resp.noNullArray_of_reading success same⟩

private theorem PlainStart.acceptsOnlyReplies {bytes : Bytes}
    (start : PlainStart bytes) : AcceptsOnlyReplies bytes := by
  obtain ⟨reply, front, rest, spelled, oneLine, plain, rfl⟩ := start
  have found : (front ++ rest).drop 0 = front ++ rest := rfl
  have within : 0 + front.length ≤ (front ++ rest).length := by simp
  have run := spelled.loadData_eq plain.readToEnd found within
  rw [plain.reading_eq, Nat.zero_add] at run
  exact ⟨_, _, run, fun _ =>
    ⟨reply, front, rest, spelled, oneLine, rfl, rfl, rfl⟩⟩

/-- The parser accepts nothing but replies exactly where the buffer starts with
a plain one, or where a frame stops the parsers with an error code. -/
theorem acceptsOnlyReplies_iff (bytes : Bytes) :
    AcceptsOnlyReplies bytes ↔
      PlainStart bytes ∨
        ∃ code inside, Arrives 1 bytes (.stops code inside) := by
  constructor
  · rintro ⟨reply, next, run, readExactly⟩
    have parsed := parseReply_of_loadData run
    rcases passes_or_arrives 1 bytes with
      ⟨last, lastLe, passes⟩ | ⟨halt, arrives⟩
    · obtain ⟨response, passedRun, success, behind⟩ :=
        passes.parseReply (At.start bytes)
      rw [parsed] at passedRun
      cases passedRun
      obtain ⟨spelledReply, front, rest, spelled, oneLine, rfl, ended, same⟩ :=
        readExactly success
      have plain := plain_of_exact spelled parsed success same
      exact Or.inl ⟨_, _, _, spelled, oneLine, plain, rfl⟩
    · have ends := arrives.parseReply (At.start bytes)
      rw [parsed] at ends
      cases ends with
      | stops failing shown within => exact Or.inr ⟨_, _, arrives⟩
      | runsOver success outside =>
          obtain ⟨spelledReply, front, rest, spelled, oneLine, rfl, ended,
            same⟩ := readExactly success
          simp only [ended, List.length_append] at outside
          omega
  · rintro (start | ⟨code, inside, arrives⟩)
    · exact start.acceptsOnlyReplies
    · have ends := arrives.parseReply (At.start bytes)
      generalize run : parseReply bytes bytes.length 0 = outcome at ends
      cases ends with
      | stops failing shown within =>
          refine ⟨_, _, loadData_of_returns run, fun success => ?_⟩
          simp only [failing] at success
          cases success

/-- `+OK\rX`: the byte behind the CR is skipped as if it were the LF. -/
theorem not_acceptsOnlyReplies_missingLineFeed :
    loadData [43, 79, 75, 13, 88] 5 0 =
        .returns (⟨.simpleString [79, 75], .success⟩, 5) ∧
      ¬AcceptsOnlyReplies [43, 79, 75, 13, 88] := by
  have run : loadData [43, 79, 75, 13, 88] 5 0 =
      .returns (⟨.simpleString [79, 75], .success⟩, 5) := rfl
  refine ⟨run, ?_⟩
  rintro ⟨reply, next, accepted, readExactly⟩
  have same := run.symm.trans accepted
  cases same
  obtain ⟨spelledReply, front, rest, spelled, oneLine, split, ended, value⟩ :=
    readExactly rfl
  have whole : front = [43, 79, 75, 13, 88] := by
    have lengths := congrArg List.length split
    rw [List.length_append, ← ended] at lengths
    have restEmpty : rest = [] :=
      List.length_eq_zero_iff.mp (by simpa using lengths)
    rw [restEmpty, List.append_nil] at split
    exact split.symm
  cases spelled with
  | simple text =>
      have sameText : [79, 75] = text.bytes := Value.simpleString.inj value
      rw [← sameText] at whole
      exact absurd whole (by decide)
  | _ => simp [line, Marker.byte] at whole

end RedisClient
