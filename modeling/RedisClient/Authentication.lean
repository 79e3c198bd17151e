import RedisClient.Client
import RedisClient.FrameReach
import RedisClient.FrameResp
import RedisClient.ReplyReporting

/-!
# Authentication

Both clients send `AUTH` on a new connection and judge it by one read.  The
subscriber parses its whole buffer, whatever was read into it, and does not test
for an empty read.  `Refused` says on the bytes alone where a parser does not
come to a success; the clients agree and accept nothing but replies exactly
where the answer is one without errors or where both buffers are refused.
-/

namespace RedisClient

open Basis

/-- `cpool::client_connection_state` -/
inductive ClientConnectionState where
  | disconnected
  | resolving
  | connecting
  | connected
  | disconnecting
  deriving DecidableEq

/-- `on_connection_state_change`, which only logs. -/
def onConnectionStateChange (_ : ClientConnectionState) : ErrorCode := .success

/-- `command(std::vector<std::string>{"AUTH", username, password})` -/
def loginCmd (username password : Bytes) : Command :=
  ⟨[[65, 85, 84, 72], username, password]⟩

/-- `client::auth_client` -/
def Client.authClient (state : ClientConnectionState)
    (username password : Bytes) (write : WriteResult) (read : ReadResult) :
    Execution ErrorCode :=
  if state = .connected then do
    let reply ← send (loginCmd username password) write read
    .returns reply.error
  else .returns (onConnectionStateChange state)

/-- `redis_subscriber::send` once it has a connection. -/
def RedisSubscriber.send (command : Command) (write : WriteResult) :
    ErrorCode :=
  if write.error.isError then write.error
  else if write.bytesWritten != command.serializedCommand.length then
    ClientErrorCode.writeError.toErrorCode
  else .success

/-- `redis_subscriber::auth_client` -/
def RedisSubscriber.authClient (state : ClientConnectionState)
    (username password : Bytes) (write : WriteResult) (read : ReadResult) :
    Execution ErrorCode :=
  if state = .connected then
    let err := send (loginCmd username password) write
    if err.isError then .returns err
    else
      let readBuffer := ReadBuffer.zeros.fill read.chunk
      if read.error.isError then .returns read.error
      else do
        let (authReply, _) ←
          loadData readBuffer.bytes readBuffer.bytes.length 0
        if authReply.error.isError then .returns authReply.error
        else .returns (onConnectionStateChange state)
  else .returns (onConnectionStateChange state)

/-- `auth_client` reports success. -/
def Authenticates (run : Execution ErrorCode) : Prop :=
  ∃ code, run = .returns code ∧ code.isError = false

/-- A complete reply without errors stands at the start of the buffer. -/
def AcceptableStart (bytes : Bytes) : Prop :=
  ∃ reply front rest,
    Spells reply front ∧ reply.hasLineFeed = false ∧ reply.hasError = false ∧
      bytes = front ++ rest

/-- The clients agree, and neither reports success unless it was given a
complete reply without errors. -/
structure FailsClosed (username password : Bytes) (write : WriteResult)
    (read : ReadResult) : Prop where
  agree :
    Authenticates
        (RedisSubscriber.authClient .connected username password write read) ↔
      Authenticates
        (Client.authClient .connected username password write read)
  closed :
    Authenticates
        (Client.authClient .connected username password write read) →
      AcceptableStart read.chunk.bytes

/-! ## Where the parsers do not succeed -/

/-- An overrun with so many items left does not end in a success: it copies from
behind the zeros, it wants more than the one item a zero is taken for, or it
wants one and is behind the zeros. -/
def Overrun.Refused (overrun : Overrun) (room left : Nat) : Prop :=
  room < overrun.copied ∨ 2 ≤ overrun.wanted + left ∨
    overrun.wanted + left = 1 ∧ room ≤ overrun.distance

/-- The parsers come to a halt that is not a success. -/
inductive Refused (room : Nat) (bytes : Bytes) : Prop where
  | stops {code : ErrorCode} {inside : Bool} :
      Arrives 1 bytes (.stops code inside) → Refused room bytes
  | throws {exception : Exception} :
      Arrives 1 bytes (.throws exception) → Refused room bytes
  | runsOver {left : Nat} {site : Bytes} :
      Reaches 1 bytes left site → frame site = .halts .overruns →
      (overrun site).Refused room left → Refused room bytes

/-- The call at the start of the buffer is a success. -/
def Succeeds (front : Bytes) (room : Nat) : Prop :=
  ∃ next, landing front room 0 = .succeeds next

theorem Overrun.succeeds_iff (overrun : Overrun) (room stop left : Nat) :
    (∃ next, overrun.landing room stop left = .succeeds next) ↔
      ¬overrun.Refused room left := by
  unfold Overrun.landing Overrun.Refused
  split <;> rename_i copied
  · simp [copied]
  · match wanted : overrun.wanted + left with
    | 0 => simp [strayed, copied]
    | 1 =>
        simp only [strayed]
        split <;> simp <;> omega
    | _ + 2 =>
        simp only [strayed]
        split <;> simp

theorem succeeds_iff (bytes : Bytes) (room : Nat) :
    Succeeds bytes room ↔ ¬Refused room bytes := by
  have start := At.start bytes
  constructor
  · rintro ⟨next, call⟩ refused
    cases refused with
    | @stops code inside arrives =>
        obtain ⟨left, site, reaches, found⟩ := arrives.reaches
        have lands := reaches.lands start room found
        cases inside with
        | true =>
            obtain ⟨_, _, fails⟩ := lands
            cases call.symm.trans fails
        | false => cases call.symm.trans lands
    | throws arrives =>
        obtain ⟨left, site, reaches, found⟩ := arrives.reaches
        cases call.symm.trans (reaches.lands start room found)
    | runsOver reaches found refused =>
        obtain ⟨_, ends⟩ := reaches.lands start room found
        exact (Overrun.succeeds_iff _ _ _ _).mp
          ⟨next, ends.symm.trans call⟩ refused
  · intro accepted
    rcases passes_or_arrives 1 bytes with
      ⟨last, lastLe, passes⟩ | ⟨halt, arrives⟩
    · obtain ⟨next, behind, call⟩ := passes.landing start room
      exact ⟨next, call⟩
    · cases halt with
      | stops code inside => exact absurd (.stops arrives) accepted
      | throws exception => exact absurd (.throws arrives) accepted
      | overruns =>
          obtain ⟨left, site, reaches, found⟩ := arrives.reaches
          obtain ⟨_, ends⟩ := reaches.lands start room found
          obtain ⟨next, call⟩ := (Overrun.succeeds_iff _ room bytes.length
            left).mpr fun refused =>
              accepted (.runsOver reaches found refused)
          exact ⟨next, ends.trans call⟩

theorem AcceptableStart.succeeds {bytes : Bytes}
    (start : AcceptableStart bytes) (room : Nat) : Succeeds bytes room := by
  obtain ⟨reply, front, rest, spelled, oneLine, noError, rfl⟩ := start
  obtain ⟨next, behind, call⟩ :=
    (spelled.passes noError rest).landing (At.start _) room
  exact ⟨next, call⟩

theorem AcceptableStart.append {bytes : Bytes}
    (start : AcceptableStart bytes) (more : Bytes) :
    AcceptableStart (bytes ++ more) := by
  obtain ⟨reply, front, rest, spelled, oneLine, noError, rfl⟩ := start
  exact ⟨reply, front, rest ++ more, spelled, oneLine, noError,
    List.append_assoc _ _ _⟩

/-! ## The two clients -/

section Clients

variable {username password : Bytes} {write : WriteResult} {read : ReadResult}

private theorem succeeds_iff_response (front : Bytes) (room : Nat) :
    Succeeds front room ↔
      ∃ response, parseReply (padded front room) front.length 0 =
        .returns response ∧ response.error.isError = false := by
  constructor
  · rintro ⟨next, call⟩
    obtain ⟨response, run, success, _⟩ := ending_succeeds_iff.mp call
    exact ⟨response, run, success⟩
  · rintro ⟨response, run, success⟩
    exact ⟨_, ending_succeeds_iff.mpr ⟨response, run, success, rfl⟩⟩

private theorem not_succeeds_nil (room : Nat) : ¬Succeeds [] room := by
  rw [succeeds_iff, not_not]
  exact .stops (.here rfl)

theorem authenticates_client_iff
    (written : write.failed (loginCmd username password).serializedCommand =
      false)
    (noError : read.error.isError = false) :
    Authenticates
        (Client.authClient .connected username password write read) ↔
      Succeeds read.chunk.bytes read.room := by
  by_cases nothing : read.chunk.bytes = []
  · have failed : read.failed = true := by
      simp [ReadResult.failed, nothing]
    rw [nothing]
    simp [Authenticates, Client.authClient, send, written, failed,
      Reply.ofError, not_succeeds_nil]
  · have success : read.failed = false := by
      simp [ReadResult.failed, noError, nothing]
    rw [succeeds_iff_response]
    simp only [Authenticates, Client.authClient, send, written, success,
      read.fill_eq, loadData, if_true, Bool.false_eq_true, if_false]
    cases parseReply (padded read.chunk.bytes read.room)
      read.chunk.bytes.length 0 <;> simp

private theorem send_of_written {command : Command}
    (written : write.failed command.serializedCommand = false) :
    RedisSubscriber.send command write = .success := by
  simp only [WriteResult.failed, Bool.or_eq_false_iff] at written
  simp [RedisSubscriber.send, written]

theorem authenticates_subscriber_iff
    (written : write.failed (loginCmd username password).serializedCommand =
      false)
    (noError : read.error.isError = false) :
    Authenticates
        (RedisSubscriber.authClient .connected username password write read) ↔
      Succeeds (padded read.chunk.bytes read.room) 0 := by
  have sent := send_of_written written
  have wholeBuffer : padded (padded read.chunk.bytes read.room) 0 =
      padded read.chunk.bytes read.room := List.append_nil _
  rw [succeeds_iff_response, wholeBuffer]
  simp only [Authenticates, RedisSubscriber.authClient, sent, read.fill_eq,
    noError, loadData, if_true, ErrorCode.isError_success, Bool.false_eq_true,
    if_false]
  cases parseReply (padded read.chunk.bytes read.room)
      (padded read.chunk.bytes read.room).length 0 with
  | returns response =>
      cases failing : response.error.isError <;>
        simp [failing, onConnectionStateChange]
  | _ => simp

private theorem not_authenticates_of_readError
    (written : write.failed (loginCmd username password).serializedCommand =
      false)
    (failing : read.error.isError = true) :
    ¬Authenticates
        (Client.authClient .connected username password write read) ∧
      ¬Authenticates
        (RedisSubscriber.authClient .connected username password write
          read) := by
  have sent := send_of_written written
  constructor
  · simp [Authenticates, Client.authClient, send, written, ReadResult.failed,
      failing, Reply.ofError]
  · simp [Authenticates, RedisSubscriber.authClient, sent, failing]

end Clients

/-- Behind an `AUTH` that was written, authentication fails closed and the
clients agree exactly where the read gives an error, where what was read starts
with a complete reply without errors, or where neither the bytes that were read
nor the whole buffer take the parsers to a success. -/
theorem failsClosed_iff {username password : Bytes} {write : WriteResult}
    (written : write.failed (loginCmd username password).serializedCommand =
      false)
    (read : ReadResult) :
    FailsClosed username password write read ↔
      read.error.isError = true ∨ AcceptableStart read.chunk.bytes ∨
        (Refused read.room read.chunk.bytes ∧
          Refused 0 (padded read.chunk.bytes read.room)) := by
  cases failing : read.error.isError with
  | true =>
      obtain ⟨client, subscriber⟩ :=
        not_authenticates_of_readError written failing
      simp only [true_or, iff_true]
      exact ⟨by simp [client, subscriber], fun success => absurd success client⟩
  | false =>
      have client := authenticates_client_iff written failing
      have subscriber := authenticates_subscriber_iff written failing
      rw [succeeds_iff] at client subscriber
      simp only [Bool.false_eq_true, false_or]
      constructor
      · rintro ⟨agree, closed⟩
        by_cases refused : Refused read.room read.chunk.bytes
        · have clientRefuses := client.not.mpr (not_not.mpr refused)
          exact Or.inr ⟨refused,
            not_not.mp (subscriber.not.mp (agree.not.mpr clientRefuses))⟩
        · exact Or.inl (closed (client.mpr refused))
      · rintro (start | ⟨refused, refusedBuffer⟩)
        · have clientSucceeds := client.mpr
            ((succeeds_iff _ _).mp (start.succeeds read.room))
          have subscriberSucceeds := subscriber.mpr
            ((succeeds_iff _ _).mp ((start.append _).succeeds 0))
          exact ⟨iff_of_true subscriberSucceeds clientSucceeds, fun _ => start⟩
        · have clientRefuses := client.not.mpr (not_not.mpr refused)
          have subscriberRefuses :=
            subscriber.not.mpr (not_not.mpr refusedBuffer)
          exact ⟨iff_of_false subscriberRefuses clientRefuses,
            fun success => absurd success clientRefuses⟩

/-- `W`, the text of an error. -/
private def wrongPassword : LineText := ⟨[87], by decide⟩

theorem failsClosed_wrongPassword :
    FailsClosed [117] [112] ⟨.success, 28⟩
      ⟨.success, ⟨line .error wrongPassword.bytes [], by decide⟩⟩ := by
  have spelled : Spells (.error wrongPassword) _ := .error wrongPassword
  have alone := spelled.arrives rfl []
  rw [List.append_nil] at alone
  exact (failsClosed_iff rfl _).mpr
    (Or.inr (Or.inr ⟨.stops alone, .stops (spelled.arrives rfl _)⟩))

/-- The subscriber takes a zero of its empty buffer for the answer. -/
theorem not_failsClosed_nothingReceived :
    Authenticates (RedisSubscriber.authClient .connected [117] [112]
        ⟨.success, 28⟩ ⟨.success, .empty⟩) ∧
      ¬FailsClosed [117] [112] ⟨.success, 28⟩ ⟨.success, .empty⟩ := by
  have zeros : padded [] bufferSize =
      0 :: List.replicate (bufferSize - 1) 0 := List.replicate_succ
  have passes : Passes 1 (padded [] bufferSize) [] := by
    rw [zeros]
    exact .item (frame_of_unknown rfl) (.done [])
  obtain ⟨next, behind, call⟩ := passes.landing (At.start _) 0
  have succeeds : Authenticates (RedisSubscriber.authClient .connected [117]
      [112] ⟨.success, 28⟩ ⟨.success, .empty⟩) :=
    (authenticates_subscriber_iff rfl rfl).mpr ⟨next, call⟩
  refine ⟨succeeds, fun failsClosed => ?_⟩
  obtain ⟨reply, front, rest, spelled, oneLine, noError, split⟩ :=
    failsClosed.closed (failsClosed.agree.mp succeeds)
  exact spelled.ne_nil (List.append_eq_nil_iff.mp split.symm).1

end RedisClient
