import RedisClient.Client
import RedisClient.FrameReach
import RedisClient.FrameResp
import RedisClient.ReplyReporting

/-!
# The replies a pipeline is given

`client::send(connection, commands)` takes replies from its one read until the
iterator meets `end`, and compares nothing with the commands.  `Answers` counts
the replies in the bytes of that read, frame by frame, and says which of them
are read without an error.  Only where there are as many as commands, and none
of them succeeds behind the complete replies the bytes start with, does every
command have its reply.
-/

namespace RedisClient

open Basis

/-- `Answers room bytes outcomes`: these are the replies the bytes hold, if they
are read into a buffer with `room` bytes behind them; an outcome is true where
the reply is read without an error. -/
inductive Answers (room : Nat) : Bytes → List Bool → Prop where
  | done : Answers room [] []
  | item {bytes rest : Bytes} {outcomes : List Bool} :
      Passes 1 bytes rest → Answers room rest outcomes →
      Answers room bytes (true :: outcomes)
  | stopped {bytes site : Bytes} {left : Nat} {code : ErrorCode}
      {outcomes : List Bool} :
      bytes ≠ [] → Reaches 1 bytes left site →
      frame site = .halts (.stops code true) →
      Answers room (behindLine site) outcomes →
      Answers room bytes (false :: outcomes)
  -- behind the end of the bytes a zero makes one more reply
  | stoppedBehind {bytes site : Bytes} {left : Nat} {code : ErrorCode} :
      Reaches 1 bytes left site → frame site = .halts (.stops code false) →
      1 < room → Answers room bytes [false, true]
  | ranOver {bytes site : Bytes} {left : Nat} :
      Reaches 1 bytes left site → frame site = .halts .overruns →
      (overrun site).distance < room → (overrun site).wanted + left = 0 →
      Answers room bytes [true, true]
  -- an array takes the zero for its next element, and has then all it wants
  | ranInto {bytes site : Bytes} {left : Nat} :
      Reaches 1 bytes left site → frame site = .halts .overruns →
      (overrun site).distance < room → (overrun site).wanted + left ≠ 0 →
      Answers room bytes [decide ((overrun site).wanted + left = 1)]

/-- The bytes start with so many complete replies. -/
def Received (bytes : Bytes) (count : Nat) : Prop :=
  ∃ items front rest,
    SpellsAll items front ∧ Resp.anyLineFeed items = false ∧
      items.length = count ∧ bytes = front ++ rest

/-- The bytes hold a reply for each of so many commands, and behind the complete
replies they start with only errors are read. -/
def Accounted (room : Nat) (bytes : Bytes) (commands : Nat) : Prop :=
  ∀ outcomes, Answers room bytes outcomes →
    outcomes.length = commands ∧
      ∃ received, Received bytes received ∧ true ∉ outcomes.drop received

def Reply.succeeded (reply : Reply) : Bool := !reply.error.isError

/-- There is one reply for each command; an answer that was not received is
reported as an error, and an error reports that one too many was. -/
structure MatchesCommands (commands : Nat) (bytes : Bytes)
    (replies : List Reply) : Prop where
  length : replies.length = commands
  missing : ∀ (index : Nat) reply, replies[index]? = some reply →
    reply.succeeded = true → Received bytes (index + 1)
  surplus : Received bytes (commands + 1) →
    ∃ reply ∈ replies, reply.succeeded = false

/-- Every command has its reply in the result, and there is no other. -/
def OneReplyEach (commands : List Command) (write : WriteResult)
    (read : ReadResult) : Prop :=
  ∀ replies, sendAll commands write read = .returns replies →
    MatchesCommands commands.length read.chunk.bytes replies

/-! ## The turns of the loop -/

section Turns

variable {front bytes : Bytes} {room it next : Nat} {success : Bool}
  {outcomes : List Bool}

/-- A call that returns, with an error or without one. -/
def Ending.returned : Bool → Nat → Ending
  | true, next => .succeeds next
  | false, next => .fails next

/-- The call at `it` returns with the iterator at `next`. -/
def ReturnsAt (front : Bytes) (room it next : Nat) (success : Bool) : Prop :=
  landing front room it = .returned success next

/-- Turns with these outcomes lead to `end`, and each adds a reply. -/
def Collects (front : Bytes) (room it : Nat) (outcomes : List Bool) : Prop :=
  ∃ more : List Reply, more.map Reply.succeeded = outcomes ∧ ∀ replies,
    Outcome.Turns (replyTurn pushBack (padded front room) front.length)
      outcomes.length (replies, it) (replies ++ more, front.length)

theorem returnsAt_of_returns {response : Response}
    (run : parseReply (padded front room) front.length it =
      .returns response) :
    ReturnsAt front room it response.it (!response.error.isError) := by
  simp only [ReturnsAt, landing, run, ending]
  cases response.error.isError <;> rfl

theorem ReturnsAt.unique {other : Nat} {otherSuccess : Bool}
    (call : ReturnsAt front room it next success)
    (otherCall : ReturnsAt front room it other otherSuccess) :
    next = other ∧ success = otherSuccess := by
  have same : Ending.returned success next =
      .returned otherSuccess other := call.symm.trans otherCall
  cases success <;> cases otherSuccess <;> cases same <;> exact ⟨rfl, rfl⟩

theorem ReturnsAt.replyTurn (notStop : it ≠ front.length)
    (call : ReturnsAt front room it next success) :
    ∃ reply : Reply, reply.succeeded = success ∧ ∀ replies,
      RedisClient.replyTurn pushBack (padded front room) front.length
        (replies, it) = .returns (.again (replies ++ [reply], next)) := by
  cases run : parseReply (padded front room) front.length it with
  | returns response =>
      obtain ⟨rfl, rfl⟩ := (returnsAt_of_returns run).unique call
      refine ⟨⟨response.value, response.error⟩, rfl, fun replies => ?_⟩
      simp [RedisClient.replyTurn, notStop, loadData_of_returns run, pushBack]
  | _ => cases success <;>
      simp [ReturnsAt, Ending.returned, landing, run, ending] at call

theorem ReturnsAt.collects (notStop : it ≠ front.length)
    (call : ReturnsAt front room it next success)
    (later : Collects front room next outcomes) :
    Collects front room it (success :: outcomes) := by
  obtain ⟨reply, same, turn⟩ := call.replyTurn notStop
  obtain ⟨more, shown, turns⟩ := later
  refine ⟨reply :: more, by simp [same, shown], fun replies => ?_⟩
  have first := turns (replies ++ [reply])
  rw [List.append_assoc] at first
  exact .step (turn replies) first

theorem Collects.done (front : Bytes) (room : Nat) :
    Collects front room front.length [] :=
  ⟨[], rfl, fun replies => by
    rw [List.append_nil]
    exact .refl _⟩

/-- Where the iterator is among the zeros, one more reply leads to `end`. -/
theorem Collects.behind {distance : Nat} (positive : 0 < distance)
    (among : distance < room) :
    Collects front room (front.length + distance) [true] := by
  have call : ReturnsAt front room (front.length + distance) front.length
      true := by
    rw [ReturnsAt, landing_behind positive, if_pos among]
    rfl
  exact call.collects (by omega) (.done front room)

private theorem landing_of_lt {overrun : Overrun}
    (copied : overrun.copied ≤ overrun.distance)
    (among : overrun.distance < room) (stop left : Nat) :
    overrun.landing room stop left =
      strayed room stop overrun.distance (overrun.wanted + left) := by
  rw [Overrun.landing, if_neg (by omega)]

private theorem strayed_of_wanted {wanted stop distance : Nat}
    (some : wanted ≠ 0) (among : distance < room) :
    strayed room stop distance wanted =
      .returned (decide (wanted = 1)) stop := by
  match wanted, some with
  | 1, some => exact if_pos among
  | wanted + 2, some =>
      have notOne : decide (wanted + 2 = 1) = false := by simp
      rw [notOne]
      exact if_pos among

/-- The loop takes the replies that the bytes hold. -/
theorem Answers.collects (answers : Answers room bytes outcomes)
    (cursor : At front it bytes) : Collects front room it outcomes := by
  induction answers generalizing it with
  | done =>
      have atStop : it = front.length := by
        have length := cursor.length
        rw [List.length_nil] at length
        omega
      subst it
      exact .done front room
  | item passes answers induction =>
      obtain ⟨next, behind, call⟩ := passes.landing cursor room
      have returns : ReturnsAt front room it next true := call
      exact returns.collects (cursor.notStop passes.ne_nil) (induction behind)
  | stopped nonempty reaches found answers induction =>
      obtain ⟨next, behind, call⟩ := reaches.lands cursor room found
      have returns : ReturnsAt front room it next false := call
      exact returns.collects (cursor.notStop nonempty) (induction behind)
  | stoppedBehind reaches found among =>
      have call := reaches.lands cursor room found
      have returns : ReturnsAt front room it (front.length + 1) false := call
      have nonempty := reaches.ne_nil (by simp [found])
      exact returns.collects (cursor.notStop nonempty)
        (.behind Nat.one_pos among)
  | @ranOver bytes site left reaches found among nothing =>
      obtain ⟨positive, call⟩ := reaches.lands cursor room found
      rw [landing_of_lt (overrun_copied_le site) among, nothing] at call
      have returns : ReturnsAt front room it
          (front.length + (overrun site).distance) true := call
      have nonempty := reaches.ne_nil (by simp [found])
      exact returns.collects (cursor.notStop nonempty)
        (.behind positive among)
  | @ranInto bytes site left reaches found among some =>
      obtain ⟨positive, call⟩ := reaches.lands cursor room found
      rw [landing_of_lt (overrun_copied_le site) among,
        strayed_of_wanted some among] at call
      have nonempty := reaches.ne_nil (by simp [found])
      exact ReturnsAt.collects (cursor.notStop nonempty) call
        (.done front room)

/-- The first call of a loop that returns has returned, and the loop goes on
where that call ended. -/
private theorem returnsAt_of_loop {fuel : Nat} {replies : List Reply}
    {ended : List Reply × ErrorCode × Nat} (notStop : it ≠ front.length)
    (run : Outcome.loop
      (replyTurn pushBack (padded front room) front.length) (fuel + 1)
      (replies, it) = .returns ended) :
    ∃ next success, ReturnsAt front room it next success ∧
      ∃ more, Outcome.loop
        (replyTurn pushBack (padded front room) front.length) fuel
        (more, next) = .returns ended := by
  cases call : parseReply (padded front room) front.length it with
  | returns response =>
      have returns := returnsAt_of_returns call
      obtain ⟨reply, _, turn⟩ := returns.replyTurn notStop
      rw [Outcome.loop_succ_of_again (turn replies)] at run
      exact ⟨_, _, returns, _, run⟩
  | _ =>
      rw [Outcome.loop, replyTurn, if_neg notStop, loadData, call] at run
      cases run

private theorem among_of_loop {fuel distance : Nat} {replies : List Reply}
    {ended : List Reply × ErrorCode × Nat} (positive : 0 < distance)
    (run : Outcome.loop
      (replyTurn pushBack (padded front room) front.length) fuel
      (replies, front.length + distance) = .returns ended) :
    distance < room := by
  cases fuel with
  | zero => cases run
  | succ fuel =>
      obtain ⟨next, success, returns, _⟩ := returnsAt_of_loop (by omega) run
      by_contra outside
      rw [ReturnsAt, landing_behind positive, if_neg outside] at returns
      cases success <;> cases returns

private theorem among_of_overrun {fuel left : Nat} {overrun : Overrun}
    {replies : List Reply} {ended : List Reply × ErrorCode × Nat}
    (positive : 0 < overrun.distance)
    (call : landing front room it = overrun.landing room front.length left)
    (returns : ReturnsAt front room it next success)
    (later : Outcome.loop
      (replyTurn pushBack (padded front room) front.length) fuel
      (replies, next) = .returns ended) : overrun.distance < room := by
  by_contra outside
  rw [ReturnsAt, call, Overrun.landing] at returns
  split at returns
  · cases success <;> cases returns
  · cases wanted : overrun.wanted + left with
    | zero =>
        rw [wanted, strayed] at returns
        cases success <;> cases returns
        exact outside (among_of_loop positive later)
    | succ missing =>
        rw [wanted] at returns
        cases success <;> cases missing <;>
          simp [strayed, Ending.returned, outside] at returns

/-- Where the loop returns, the bytes hold some replies. -/
theorem exists_answers {fuel : Nat} {replies : List Reply}
    {ended : List Reply × ErrorCode × Nat} (cursor : At front it bytes)
    (run : Outcome.loop
      (replyTurn pushBack (padded front room) front.length) fuel
      (replies, it) = .returns ended) :
    ∃ outcomes, Answers room bytes outcomes := by
  induction fuel generalizing bytes it replies with
  | zero => cases run
  | succ fuel induction =>
      by_cases isEmpty : bytes = []
      · subst bytes
        exact ⟨[], .done⟩
      obtain ⟨next, success, returns, more, later⟩ :=
        returnsAt_of_loop (cursor.notStop isEmpty) run
      rcases passes_or_arrives 1 bytes with
        ⟨last, lastLe, passes⟩ | ⟨halt, arrives⟩
      · obtain ⟨there, behind, call⟩ := passes.landing cursor room
        have passed : ReturnsAt front room it there true := call
        obtain ⟨rfl, rfl⟩ := returns.unique passed
        obtain ⟨outcomes, answers⟩ := induction behind later
        exact ⟨true :: outcomes, .item passes answers⟩
      · obtain ⟨left, site, reaches, found⟩ := arrives.reaches
        have lands := reaches.lands cursor room found
        cases halt with
        | stops code inside =>
            cases inside with
            | true =>
                obtain ⟨there, behind, call⟩ := lands
                have stopped : ReturnsAt front room it there false := call
                obtain ⟨rfl, rfl⟩ := returns.unique stopped
                obtain ⟨outcomes, answers⟩ := induction behind later
                exact ⟨false :: outcomes,
                  .stopped isEmpty reaches found answers⟩
            | false =>
                have stopped : ReturnsAt front room it (front.length + 1)
                    false := lands
                obtain ⟨rfl, rfl⟩ := returns.unique stopped
                exact ⟨[false, true], .stoppedBehind reaches found
                  (among_of_loop Nat.one_pos later)⟩
        | throws exception =>
            rw [HaltLands] at lands
            rw [ReturnsAt, lands] at returns
            cases success <;> cases returns
        | overruns =>
            obtain ⟨positive, call⟩ := lands
            have among := among_of_overrun positive call returns later
            by_cases nothing : (overrun site).wanted + left = 0
            · exact ⟨[true, true], .ranOver reaches found among nothing⟩
            · exact ⟨_, .ranInto reaches found among nothing⟩

end Turns

/-! ## Complete replies -/

section Received

variable {room count : Nat} {bytes rest : Bytes} {outcomes : List Bool}

theorem received_zero (bytes : Bytes) : Received bytes 0 :=
  ⟨[], [], bytes, .nil, rfl, rfl, rfl⟩

theorem Received.of_le (received : Received bytes count) {fewer : Nat}
    (less : fewer ≤ count) : Received bytes fewer := by
  obtain ⟨items, front, rest, spelled, oneLine, rfl, rfl⟩ := received
  induction fewer generalizing items front rest with
  | zero => exact received_zero _
  | succ fewer induction =>
      cases spelled with
      | nil => cases less
      | @cons item items head tail spelledHead spelledTail =>
          rw [Resp.anyLineFeed, Bool.or_eq_false_iff] at oneLine
          obtain ⟨others, front, behind, spelledOthers, othersOneLine, length,
            split⟩ := induction items tail rest spelledTail oneLine.2
              (Nat.le_of_succ_le_succ less)
          refine ⟨item :: others, head ++ front, behind,
            .cons spelledHead spelledOthers, ?_, congrArg (· + 1) length, ?_⟩
          · rw [Resp.anyLineFeed, oneLine.1, othersOneLine]
            rfl
          · rw [List.append_assoc, split, List.append_assoc]

theorem Answers.of_passes (answers : Answers room bytes outcomes)
    (passes : Passes 1 bytes rest) :
    ∃ later, outcomes = true :: later ∧ Answers room rest later := by
  cases answers with
  | done => exact absurd rfl passes.ne_nil
  | item otherPasses later =>
      cases passes.unique otherPasses
      exact ⟨_, rfl, later⟩
  | stopped nonempty reaches found =>
      exact absurd found (passes.not_reaches reaches)
  | stoppedBehind reaches found =>
      exact absurd found (passes.not_reaches reaches)
  | ranOver reaches found => exact absurd found (passes.not_reaches reaches)
  | ranInto reaches found => exact absurd found (passes.not_reaches reaches)

theorem Answers.of_nil (answers : Answers room [] outcomes) :
    outcomes = [] := by
  cases answers with
  | done => rfl
  | item passes => exact absurd rfl passes.ne_nil
  | stopped nonempty => exact absurd rfl nonempty
  | stoppedBehind reaches found =>
      exact absurd rfl (reaches.ne_nil (by simp [found]))
  | ranOver reaches found =>
      exact absurd rfl (reaches.ne_nil (by simp [found]))
  | ranInto reaches found =>
      exact absurd rfl (reaches.ne_nil (by simp [found]))

theorem Answers.of_stops (answers : Answers room bytes outcomes)
    (nonempty : bytes ≠ []) {code : ErrorCode} {inside : Bool}
    (arrives : Arrives 1 bytes (.stops code inside)) : false ∈ outcomes := by
  obtain ⟨left, site, reaches, found⟩ := arrives.reaches
  cases answers with
  | done => exact absurd rfl nonempty
  | item passes => exact absurd found (passes.not_reaches reaches)
  | stopped => exact List.mem_cons_self
  | stoppedBehind => exact List.mem_cons_self
  | ranOver otherReaches otherFound =>
      cases reaches.unique found otherReaches otherFound
      cases found.symm.trans otherFound
  | ranInto otherReaches otherFound =>
      cases reaches.unique found otherReaches otherFound
      cases found.symm.trans otherFound

/-- There is an outcome for every complete reply, unless one is an error. -/
theorem Answers.length_of_spelled {items : List Resp} {front : Bytes}
    (spelled : SpellsAll items front)
    (answers : Answers room (front ++ rest) outcomes)
    (allSucceed : false ∉ outcomes) : items.length ≤ outcomes.length := by
  induction items generalizing front outcomes with
  | nil => exact Nat.zero_le _
  | cons item items induction =>
      cases spelled with
      | @cons _ _ head tail spelledHead spelledTail =>
          rw [List.append_assoc] at answers
          cases failing : item.hasError with
          | true =>
              have nonempty : head ++ (tail ++ rest) ≠ [] :=
                List.append_ne_nil_of_left_ne_nil spelledHead.ne_nil _
              exact absurd (answers.of_stops nonempty
                (spelledHead.arrives failing _)) allSucceed
          | false =>
              obtain ⟨later, rfl, laterAnswers⟩ :=
                answers.of_passes (spelledHead.passes failing _)
              exact Nat.succ_le_succ (induction spelledTail laterAnswers
                fun member => allSucceed (List.mem_cons_of_mem _ member))

end Received

/-! ## The result of `send` -/

section Result

variable {room : Nat} {bytes : Bytes}

theorem Answers.readReplies {outcomes : List Bool}
    (answers : Answers room bytes outcomes) :
    ∃ replies, RedisClient.readReplies (padded bytes room) bytes.length 0 =
        .returns (replies, bytes.length) ∧
      replies.map Reply.succeeded = outcomes := by
  obtain ⟨more, shown, turns⟩ := answers.collects (At.start bytes)
  refine ⟨more, ?_, shown⟩
  have fromStart := turns []
  rw [List.nil_append] at fromStart
  rw [RedisClient.readReplies, replyLoop_of_turns fromStart]
  rfl

theorem answers_of_readReplies {next : Nat} {replies : List Reply}
    (run : readReplies (padded bytes room) bytes.length 0 =
      .returns (replies, next)) :
    Answers room bytes (replies.map Reply.succeeded) := by
  obtain ⟨ended, loopRun, _⟩ := Outcome.bind_eq_returns_iff.mp run
  obtain ⟨outcomes, answers⟩ := exists_answers (At.start bytes) loopRun
  obtain ⟨others, otherRun, shown⟩ := answers.readReplies
  rw [run] at otherRun
  cases otherRun
  rw [shown]
  exact answers

/-- Where every success has its answer, there is a number of answers behind
which nothing succeeds. -/
private theorem exists_received {outcomes : List Bool}
    (answered : ∀ index : Nat, outcomes[index]? = some true →
      Received bytes (index + 1)) :
    ∃ received, Received bytes received ∧ true ∉ outcomes.drop received := by
  induction outcomes using List.reverseRecOn with
  | nil => exact ⟨0, received_zero bytes, nofun⟩
  | append_singleton outcomes last induction =>
      cases last with
      | true =>
          have received := answered outcomes.length
            List.getElem?_concat_length
          exact ⟨outcomes.length + 1, received, by simp⟩
      | false =>
          obtain ⟨count, received, behind⟩ := induction fun index found => by
            have inside := (List.getElem?_eq_some_iff.mp found).1
            rw [← List.getElem?_append_left inside] at found
            exact answered index found
          refine ⟨count, received, fun member => ?_⟩
          rw [List.drop_append] at member
          rcases List.mem_append.mp member with before | after
          · exact behind before
          · have last := List.mem_of_mem_drop after
            simp at last

theorem matchesCommands_iff {commands : Nat} {replies : List Reply}
    (answers : Answers room bytes (replies.map Reply.succeeded)) :
    MatchesCommands commands bytes replies ↔
      replies.length = commands ∧
        ∃ received, Received bytes received ∧
          true ∉ (replies.map Reply.succeeded).drop received := by
  constructor
  · intro matched
    refine ⟨matched.length, exists_received fun index found => ?_⟩
    rw [List.getElem?_map, Option.map_eq_some_iff] at found
    obtain ⟨reply, replyFound, success⟩ := found
    exact matched.missing index reply replyFound success
  · rintro ⟨length, count, received, behind⟩
    refine ⟨length, fun index reply found success => ?_, fun surplus => ?_⟩
    · have before : index < count := by
        by_contra after
        apply behind
        rw [List.mem_iff_getElem?]
        refine ⟨index - count, ?_⟩
        rw [List.getElem?_drop, List.getElem?_map,
          Nat.add_sub_cancel' (Nat.le_of_not_lt after), found]
        exact congrArg some success
      exact received.of_le before
    · by_contra noError
      have allSucceed : false ∉ replies.map Reply.succeeded := by
        intro member
        obtain ⟨reply, replyMember, failed⟩ := List.mem_map.mp member
        exact noError ⟨reply, replyMember, failed⟩
      obtain ⟨items, front, rest, spelled, _, count, rfl⟩ := surplus
      have enough := answers.length_of_spelled spelled allSucceed
      rw [List.length_map] at enough
      omega

end Result

private theorem matchesCommands_replicate {commands : Nat} (bytes : Bytes)
    (positive : 0 < commands) {code : ErrorCode}
    (failing : code.isError = true) :
    MatchesCommands commands bytes
      (List.replicate commands (.ofError code)) where
  length := List.length_replicate
  missing index reply found success := by
    have member := List.mem_of_getElem? found
    rw [List.eq_of_mem_replicate member, Reply.succeeded, Reply.ofError,
      failing] at success
    cases success
  surplus _ :=
    ⟨_, List.mem_replicate.mpr ⟨Nat.pos_iff_ne_zero.mp positive, rfl⟩,
      congrArg not failing⟩

theorem oneReplyEach_iff_accounted {commands : List Command}
    {write : WriteResult} {read : ReadResult}
    (written : write.failed (serializedCommands commands) = false)
    (success : read.failed = false) :
    OneReplyEach commands write read ↔
      Accounted read.room read.chunk.bytes commands.length := by
  simp only [OneReplyEach, sendAll, written, success, Bool.false_eq_true,
    if_false, read.fill_eq]
  constructor
  · intro oneEach outcomes answers
    obtain ⟨replies, run, rfl⟩ := answers.readReplies
    rw [List.length_map]
    exact (matchesCommands_iff answers).mp
      (oneEach replies (by rw [run, Outcome.returns_bind]))
  · intro accounted replies run
    obtain ⟨⟨collected, next⟩, readRun, same⟩ :=
      Outcome.bind_eq_returns_iff.mp run
    cases same
    have answers := answers_of_readReplies readRun
    have counted := accounted _ answers
    rw [List.length_map] at counted
    exact (matchesCommands_iff answers).mpr counted

/-- A pipeline is given one reply for each command, and an error for each answer
that is missing, exactly where the write or the read fails, or the bytes that
were read hold as many replies as there are commands and behind the complete
ones they start with only errors. -/
theorem oneReplyEach_iff {commands : List Command} (nonempty : commands ≠ [])
    (write : WriteResult) (read : ReadResult) :
    OneReplyEach commands write read ↔
      write.failed (serializedCommands commands) = true ∨
        read.failed = true ∨
          Accounted read.room read.chunk.bytes commands.length := by
  have positive := List.length_pos_iff.mpr nonempty
  cases written : write.failed (serializedCommands commands) with
  | true =>
      simp only [OneReplyEach, sendAll, written, if_true, true_or, iff_true,
        Outcome.returns.injEq]
      rintro replies rfl
      exact matchesCommands_replicate _ positive rfl
  | false =>
      cases failed : read.failed with
      | true =>
          simp only [OneReplyEach, sendAll, written, failed,
            Bool.false_eq_true, if_false, if_true, true_or, or_true, iff_true,
            Outcome.returns.injEq]
          rintro replies rfl
          exact matchesCommands_replicate _ positive rfl
      | false =>
          simp only [Bool.false_eq_true, false_or]
          exact oneReplyEach_iff_accounted written failed

private def ping : Command := ⟨[[80, 73, 78, 71]]⟩

private def pong : Resp := .simple ⟨[80, 79, 78, 71], by decide⟩

private theorem spells_pong : SpellsAll [pong] (Resp.encodeAll [pong]) :=
  Resp.spellsAll_encodeAll (by decide)

/-- A pipeline of one command that is answered. -/
theorem oneReplyEach_answered :
    OneReplyEach [ping] ⟨.success, 6⟩
      ⟨.success, ⟨Resp.encodeAll [pong], by decide⟩⟩ := by
  refine (oneReplyEach_iff (by decide) _ _).mpr (Or.inr (Or.inr ?_))
  intro outcomes answers
  have passes := spells_pong.passes rfl []
  rw [List.append_nil] at passes
  obtain ⟨later, rfl, laterAnswers⟩ := answers.of_passes passes
  obtain rfl := laterAnswers.of_nil
  exact ⟨rfl, 1, ⟨[pong], _, [], spells_pong, rfl, rfl,
    (List.append_nil _).symm⟩, nofun⟩

/-- The read gives the answer to the first of two commands, or the beginning of
it, for which the second one is given a success. -/
theorem not_oneReplyEach_secondAnswerLater :
    sendAll [ping, ping] ⟨.success, 12⟩
        ⟨.success, ⟨Resp.encodeAll [pong], by decide⟩⟩ =
      .returns [pong.toReply] ∧
    ¬OneReplyEach [ping, ping] ⟨.success, 12⟩
      ⟨.success, ⟨Resp.encodeAll [pong], by decide⟩⟩ ∧
    ¬OneReplyEach [ping, ping] ⟨.success, 12⟩
      ⟨.success, ⟨[43, 79, 75], by decide⟩⟩ := by
  have ordinary : ∀ item ∈ [pong], item.Ordinary := by
    intro item member
    cases List.mem_singleton.mp member
    exact Or.inl ⟨rfl, rfl⟩
  have sent : sendAll [ping, ping] ⟨.success, 12⟩
      ⟨.success, ⟨Resp.encodeAll [pong], by decide⟩⟩ =
        .returns [pong.toReply] :=
    sendAll_of_spelled rfl rfl spells_pong ordinary
  refine ⟨sent, fun oneEach => ?_, fun oneEach => ?_⟩
  · have lengths := (oneEach _ sent).length
    cases lengths
  · have spoken : Answers 4093 [43, 79, 75] [true, true] :=
      .ranOver (.here 0 _) rfl (by decide) rfl
    obtain ⟨_, received, enough, behind⟩ :=
      (oneReplyEach_iff_accounted rfl rfl).mp oneEach _ spoken
    have two : 2 ≤ received := by
      by_contra less
      apply behind
      interval_cases received <;> decide
    obtain ⟨items, front, rest, spelled, _, length, split⟩ :=
      enough.of_le two
    have longer := spelled.three_mul_length_le
    have lengths := congrArg List.length split
    rw [List.length_append] at lengths
    simp only [List.length_cons, List.length_nil] at lengths
    omega

end RedisClient
