import RedisClient.Basis.Run
import RedisClient.Client

/-!
# Calls on a pooled connection

Any number of callers send commands one after another on the same connection.
The server answers every request it receives with one complete reply, and the
bytes it has sent form a stream of which each call reads a part at the front.
Every byte remembers the call whose answer it belongs to.

A call that reads its answer whole leaves nothing behind.  A call that does not
leaves bytes that the next caller takes for the answer to its own command.
-/

namespace RedisClient

open Basis

/-- One call of `client::send(command)`, with everything its surroundings
decide: whether the request reaches the server, how the server answers then,
and what the write and the read give. -/
structure Call where
  command : Command
  received : Bool
  answer : Resp
  write : WriteResult
  readError : ErrorCode
  bytesRead : Nat

/-- What is known of a finished call: the answer of the server to its command,
the calls whose answers the bytes it read belong to, and what it returned. -/
structure Served where
  answer : Option Resp
  sources : List Nat
  outcome : Execution Reply

/-- A connection: the bytes sent by the server and not yet read, and the calls
served so far. -/
structure Connection where
  unread : List (Nat × UInt8)
  served : List Served

def Connection.fresh : Connection := ⟨[], []⟩

/-- The reply bytes of the call with the given number. -/
def labelled (number : Nat) (bytes : Bytes) : List (Nat × UInt8) :=
  bytes.map fun byte => (number, byte)

/-- The stream when the call starts to read. -/
def Connection.arrived (connection : Connection) (call : Call) :
    List (Nat × UInt8) :=
  if call.received then
    connection.unread ++
      labelled connection.served.length call.answer.encode
  else connection.unread

/-- The call comes to its read, and the read succeeds. -/
def Call.reads (call : Call) : Bool :=
  !call.write.failed call.command.serializedCommand &&
    !call.readError.isError

/-- The bytes the call reads: at most as many as it asks for. -/
def Connection.taken (connection : Connection) (call : Call) :
    List (Nat × UInt8) :=
  if call.reads then
    (connection.arrived call).take (min call.bytesRead bufferSize)
  else []

theorem Connection.length_taken_le (connection : Connection) (call : Call) :
    (connection.taken call).length ≤ bufferSize := by
  unfold Connection.taken
  split
  · rw [List.length_take]
    omega
  · simp

def Connection.readResult (connection : Connection) (call : Call) :
    ReadResult :=
  ⟨call.readError, ⟨(connection.taken call).map Prod.snd, by
    rw [List.length_map]
    exact connection.length_taken_le call⟩⟩

/-- The connection after the call, when it is released to the pool. -/
def Connection.serve (connection : Connection) (call : Call) : Connection where
  unread := (connection.arrived call).drop (connection.taken call).length
  served := connection.served ++
    [{  answer := if call.received then some call.answer else none
        sources := (connection.taken call).map Prod.fst
        outcome :=
          send call.command call.write (connection.readResult call) }]

/-- What can happen on a connection: a request that was written reaches the
server, an empty one is none, and a read gives bytes that were sent. -/
structure Connection.Permits (connection : Connection) (call : Call) :
    Prop where
  delivered : call.write.failed call.command.serializedCommand = false →
    call.command.serializedCommand ≠ [] → call.received = true
  nothing : call.command.serializedCommand = [] → call.received = false
  available : call.bytesRead ≤ (connection.arrived call).length

def serveStep (connection : Connection) (call : Call) (next : Connection) :
    Prop :=
  connection.Permits call ∧ next = connection.serve call

/-- The call with this number was given the decoding of the answer to its own
command, or an error, and read bytes of no other answer. -/
def Served.Faithful (served : Served) (number : Nat) : Prop :=
  (∀ source ∈ served.sources, source = number) ∧
    ∃ reply, served.outcome = .returns reply ∧
      (reply.error.isError = true ∨
        ∃ answer next, served.answer = some answer ∧
          loadData answer.encode answer.encode.length 0 =
            .returns (reply, next))

def Connection.Faithful (connection : Connection) : Prop :=
  ∀ number (served : Served), connection.served[number]? = some served →
    served.Faithful number

/-- If the server receives the request, the call reads the answer to its last
byte: the write and the read succeed, and the one read gives the whole of
it. -/
def Call.Whole (call : Call) : Prop :=
  call.received = true →
    call.reads = true ∧ call.bytesRead = call.answer.encode.length ∧
      call.answer.encode.length ≤ bufferSize

theorem send_of_whole {command : Command} {answer : Resp}
    {write : WriteResult} {read : ReadResult}
    (written : write.failed command.serializedCommand = false)
    (success : read.error.isError = false)
    (whole : read.chunk.bytes = answer.encode) :
    ∃ reply next, send command write read = .returns reply ∧
      loadData answer.encode answer.encode.length 0 =
        .returns (reply, next) := by
  have nonempty := List.length_pos_iff.mpr answer.encode_ne_nil
  have notFailed : read.failed = false := by
    have notZero : answer.encode.length ≠ 0 := by omega
    simp [ReadResult.failed, success, whole, notZero]
  have fits : answer.encode.length ≤ maxSize := by
    have inBuffer := read.chunk.fits
    rw [whole] at inBuffer
    exact inBuffer.trans (by decide)
  have spelled := Resp.spells_encode fits
  have found : (ReadBuffer.zeros.fill read.chunk).bytes.drop 0 =
      answer.encode ++ ReadBuffer.zeros.bytes.drop answer.encode.length := by
    simp [ReadBuffer.fill, whole]
  have foundAlone : answer.encode.drop 0 = answer.encode ++ [] := by simp
  have inside : 0 + answer.encode.length ≤ answer.encode.length := by omega
  obtain ⟨consumed, consumedLe, consumedAll, run⟩ :=
    spelled.parseReply_eq found inside
  obtain ⟨consumedAlone, aloneLe, aloneAll, runAlone⟩ :=
    spelled.parseReply_eq foundAlone inside
  refine ⟨_, _, ?_, loadData_of_returns runAlone⟩
  simp only [send, written, notFailed, Bool.false_eq_true, if_false, whole,
    loadData_of_returns run, Outcome.returns_bind]

theorem send_of_spelled {command : Command} {answer : Resp}
    {write : WriteResult} {read : ReadResult} {front rest : Bytes}
    (written : write.failed command.serializedCommand = false)
    (success : read.error.isError = false) (spelled : Spells answer front)
    (readToEnd : answer.ReadToEnd) (chunk : read.chunk.bytes = front ++ rest) :
    send command write read =
      .returns ⟨answer.reading.1, answer.reading.2⟩ := by
  have nonempty := spelled.ne_nil
  have notFailed : read.failed = false := by
    simp [ReadResult.failed, success, chunk, nonempty]
  have found : (ReadBuffer.zeros.fill read.chunk).bytes.drop 0 =
      front ++ (rest ++
        ReadBuffer.zeros.bytes.drop (front ++ rest).length) := by
    simp [ReadBuffer.fill, chunk]
  have inside : 0 + front.length ≤ (front ++ rest).length := by simp
  have run := spelled.loadData_eq readToEnd found inside
  simp only [send, written, notFailed, Bool.false_eq_true, if_false, chunk,
    run, Outcome.returns_bind]

theorem send_of_empty {command : Command} {write : WriteResult}
    {read : ReadResult} (empty : read.chunk.bytes = []) :
    ∃ reply, send command write read = .returns reply ∧
      reply.error.isError = true := by
  have failed : read.failed = true := by simp [ReadResult.failed, empty]
  by_cases written : write.failed command.serializedCommand = true
  · exact ⟨.ofError ClientErrorCode.writeError.toErrorCode,
      by simp [send, written], rfl⟩
  · exact ⟨.ofError ClientErrorCode.readError.toErrorCode,
      by simp [send, written, failed], rfl⟩

/-- Nothing is left of earlier answers, and every call so far was served
faithfully. -/
structure Connection.Clean (connection : Connection) : Prop where
  nothingUnread : connection.unread = []
  faithful : connection.Faithful

private theorem reads_iff {call : Call} :
    call.reads = true ↔
      call.write.failed call.command.serializedCommand = false ∧
        call.readError.isError = false := by
  simp [Call.reads]

private theorem taken_of_nothing {connection : Connection} {call : Call}
    (nothing : connection.arrived call = []) :
    connection.taken call = [] := by
  simp [Connection.taken, nothing]

private theorem taken_of_whole {connection : Connection} {call : Call}
    (nothingUnread : connection.unread = []) (received : call.received = true)
    (whole : call.Whole) :
    connection.taken call = connection.arrived call := by
  obtain ⟨reads, count, inBuffer⟩ := whole received
  rw [Connection.taken, if_pos reads]
  apply List.take_of_length_le
  simp only [Connection.arrived, received, if_true, nothingUnread,
    List.nil_append, labelled, List.length_map]
  omega

theorem Connection.serve_clean {connection : Connection} {call : Call}
    (clean : connection.Clean) (whole : call.Whole) :
    (connection.serve call).Clean := by
  obtain ⟨nothingUnread, faithful⟩ := clean
  have served : ∀ last : Served,
      (connection.serve call).served = connection.served ++ [last] →
        last.Faithful connection.served.length →
          (connection.serve call).Faithful := by
    intro last appended lastFaithful number other found
    rw [appended] at found
    by_cases earlier : number < connection.served.length
    · rw [List.getElem?_append_left earlier] at found
      exact faithful number other found
    · rw [List.getElem?_append_right (by omega),
        List.getElem?_singleton] at found
      split at found <;> rename_i isLast
      · cases found
        have same : number = connection.served.length := by omega
        rwa [same]
      · cases found
  cases received : call.received with
  | true =>
      obtain ⟨reads, count, inBuffer⟩ := whole received
      obtain ⟨written, success⟩ := reads_iff.mp reads
      have arrived : connection.arrived call =
          labelled connection.served.length call.answer.encode := by
        simp [Connection.arrived, received, nothingUnread]
      have taken := taken_of_whole nothingUnread received whole
      have chunk : (connection.readResult call).chunk.bytes =
          call.answer.encode := by
        simp [Connection.readResult, taken, arrived, labelled]
      obtain ⟨reply, next, sent, alone⟩ :=
        send_of_whole written success chunk
      refine ⟨by simp [Connection.serve, taken], served _ rfl ⟨?_, ?_⟩⟩
      · rw [taken, arrived]
        simp [labelled]
      · exact ⟨reply, sent, Or.inr
          ⟨call.answer, next, if_pos received, alone⟩⟩
  | false =>
      have arrived : connection.arrived call = [] := by
        simp [Connection.arrived, received, nothingUnread]
      have taken := taken_of_nothing arrived
      have chunk : (connection.readResult call).chunk.bytes = [] := by
        simp [Connection.readResult, taken]
      obtain ⟨reply, sent, failing⟩ := send_of_empty chunk
      refine ⟨by simp [Connection.serve, arrived], served _ rfl ⟨?_, ?_⟩⟩
      · simp [taken]
      · exact ⟨reply, sent, Or.inl failing⟩

theorem Connection.fresh_clean : Connection.fresh.Clean :=
  ⟨rfl, fun number served found => by simp [Connection.fresh] at found⟩

theorem Connection.clean_of_run {calls : List Call} {connection : Connection}
    (run : Run (Restricted serveStep fun _ call => call.Whole)
      Connection.fresh calls connection) : connection.Clean := by
  apply run.restricted_invariant Connection.fresh_clean
  rintro connection call next whole ⟨permitted, rfl⟩ clean
  exact connection.serve_clean clean whole

/-! ## Calls that do not read their answer whole -/

/-- A call whose request is received and which does not read its answer whole
leaves bytes of it unread. -/
theorem Connection.unread_of_not_whole {connection : Connection} {call : Call}
    (nothingUnread : connection.unread = [])
    (permitted : connection.Permits call) (partly : ¬call.Whole) :
    ∃ byte rest, (connection.serve call).unread =
      (connection.served.length, byte) :: rest := by
  simp only [Call.Whole, Classical.not_imp] at partly
  obtain ⟨received, partly⟩ := partly
  have arrived : connection.arrived call =
      labelled connection.served.length call.answer.encode := by
    simp [Connection.arrived, received, nothingUnread]
  have nonempty := List.length_pos_iff.mpr call.answer.encode_ne_nil
  have available := permitted.available
  rw [arrived, labelled, List.length_map] at available
  have shorter : (connection.taken call).length <
      call.answer.encode.length := by
    unfold Connection.taken
    split <;> rename_i reads
    · simp only [reads, true_and, not_and, not_le] at partly
      rw [arrived, labelled, List.length_take, List.length_map]
      omega
    · exact nonempty
  have split := List.drop_eq_getElem_cons shorter
  refine ⟨call.answer.encode[(connection.taken call).length],
    labelled connection.served.length
      (call.answer.encode.drop ((connection.taken call).length + 1)), ?_⟩
  simp only [Connection.serve, arrived, labelled, ← List.map_drop]
  rw [split, List.map_cons]

/-- `PING`, answered and given one byte of what there is to read. -/
private def pingOneByte : Call where
  command := ⟨[[80, 73, 78, 71]]⟩
  received := true
  answer := .nullBulk
  write := ⟨.success, 6⟩
  readError := .success
  bytesRead := 1

theorem Connection.exists_unfaithful {connection : Connection}
    {number : Nat} {byte : UInt8} {rest : List (Nat × UInt8)}
    (left : connection.unread = (number, byte) :: rest)
    (earlier : number < connection.served.length) :
    ∃ call, connection.Permits call ∧ ¬(connection.serve call).Faithful := by
  have taken : connection.taken pingOneByte = [(number, byte)] := by
    have reads : pingOneByte.reads = true := rfl
    rw [Connection.taken, if_pos reads, Connection.arrived, left]
    rfl
  refine ⟨pingOneByte, ⟨fun _ _ => rfl, by decide, ?_⟩, ?_⟩
  · rw [Connection.arrived, left]
    simp [pingOneByte]
  · intro faithful
    obtain ⟨sources, outcome⟩ :=
      faithful connection.served.length _ List.getElem?_concat_length
    simp only [taken, List.map_cons, List.map_nil, List.mem_singleton,
      forall_eq] at sources
    omega

/-- In every run whose calls read their answers whole, every call is given the
decoding of its own answer or an error, and reads no byte of another.  After
such a run, a call that does not read its answer whole can be followed by one
that reads bytes of that answer. -/
theorem served_faithful {calls : List Call} {connection : Connection}
    (run : Run (Restricted serveStep fun _ call => call.Whole)
      Connection.fresh calls connection) :
    connection.Faithful ∧
      ∀ call, connection.Permits call → ¬call.Whole →
        ∃ next, (connection.serve call).Permits next ∧
          ¬((connection.serve call).serve next).Faithful := by
  have clean := Connection.clean_of_run run
  refine ⟨clean.faithful, ?_⟩
  intro call permitted partly
  obtain ⟨byte, rest, left⟩ :=
    Connection.unread_of_not_whole clean.nothingUnread permitted partly
  apply Connection.exists_unfaithful left
  simp [Connection.serve]

/-- `GET a`, answered with the bulk string `b`, which one read gives whole. -/
private def getWhole : Call where
  command := ⟨[[71, 69, 84], [97]]⟩
  received := true
  answer := .bulk [98]
  write := ⟨.success, 20⟩
  readError := .success
  bytesRead := 7

theorem served_faithful_getWhole :
    (Connection.fresh.serve getWhole).Faithful := by
  have whole : getWhole.Whole := fun _ => by decide
  have permitted : Connection.fresh.Permits getWhole :=
    ⟨fun _ _ => rfl, by decide, by decide⟩
  exact (served_faithful (.step ⟨whole, permitted, rfl⟩ (.refl _))).1

/-- `LRANGE l 0 -1`, answered with an array of `A` and `B` of which one read
gives the first eight bytes. -/
private def lrangePart : Call where
  command := ⟨[[76, 82, 65, 78, 71, 69], [108], [48], [45, 49]]⟩
  received := true
  answer := .array [.simple ⟨[65], by decide⟩, .simple ⟨[66], by decide⟩]
  write := ⟨.success, 38⟩
  readError := .success
  bytesRead := 8

/-- `PING`, answered with `OK`; its read gives all there is to read. -/
private def pingAfterPart : Call where
  command := ⟨[[80, 73, 78, 71]]⟩
  received := true
  answer := .simple ⟨[79, 75], by decide⟩
  write := ⟨.success, 6⟩
  readError := .success
  bytesRead := 9

/-- The second caller is given `B`, an element of the answer to the first
command, without an error. -/
theorem not_faithful_pingAfterPart :
    Run serveStep Connection.fresh [lrangePart, pingAfterPart]
        ((Connection.fresh.serve lrangePart).serve pingAfterPart) ∧
      (∃ served, ((Connection.fresh.serve lrangePart).serve
          pingAfterPart).served[1]? = some served ∧
        served.sources = [0, 0, 0, 0, 1, 1, 1, 1, 1] ∧
        served.outcome = .returns ⟨.simpleString [66], .success⟩) ∧
      ¬((Connection.fresh.serve lrangePart).serve pingAfterPart).Faithful := by
  have misled : ∃ served, ((Connection.fresh.serve lrangePart).serve
      pingAfterPart).served[1]? = some served ∧
      served.sources = [0, 0, 0, 0, 1, 1, 1, 1, 1] ∧
      served.outcome = .returns ⟨.simpleString [66], .success⟩ := by
    have chunk : ((Connection.fresh.serve lrangePart).readResult
        pingAfterPart).chunk.bytes =
          [43, 66, 13, 10] ++ [43, 79, 75, 13, 10] := rfl
    have spelled : Spells (.simple ⟨[66], by decide⟩) [43, 66, 13, 10] :=
      .simple _
    have written : pingAfterPart.write.failed
        pingAfterPart.command.serializedCommand = false := rfl
    have sent := send_of_spelled written rfl spelled (Or.inl rfl) chunk
    exact ⟨⟨some pingAfterPart.answer, [0, 0, 0, 0, 1, 1, 1, 1, 1], _⟩, rfl,
      rfl, sent⟩
  refine ⟨?_, misled, ?_⟩
  · exact .step ⟨⟨fun _ _ => rfl, by decide, by decide⟩, rfl⟩
      (.step ⟨⟨fun _ _ => rfl, by decide, by decide⟩, rfl⟩ (.refl _))
  · intro faithful
    obtain ⟨served, found, sources, outcome⟩ := misled
    have ownSources := (faithful 1 served found).1 0 (by simp [sources])
    cases ownSources

end RedisClient
