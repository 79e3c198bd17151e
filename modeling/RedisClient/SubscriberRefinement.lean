import RedisClient.SubscriberStream

/-!
# The reader and its turns

`Reader.turn` is a turn of `read_messages` that nothing interrupts, with a queue
that has room for every reply.  The machine takes such a turn in many steps,
waits for room in its queue and gives replies away while it does.  What it has
delivered and queued is nevertheless what the turns put into the queue: at
every read the machine stands where the turns before it end.
-/

namespace RedisClient

open Basis

/-- The turns for these reads, one after the other. -/
def Reader.turns : Reader → List ReadResult → Execution Reader
  | reader, [] => .returns reader
  | reader, read :: reads => do
      let next ← reader.turn read
      next.turns reads

theorem Reader.turns_append_singleton {reader last : Reader}
    {reads : List ReadResult} (run : reader.turns reads = .returns last)
    (read : ReadResult) : reader.turns (reads ++ [read]) = last.turn read := by
  induction reads generalizing reader with
  | nil =>
      cases run
      rw [List.nil_append, turns]
      cases last.turn read <;> rfl
  | cons first reads induction =>
      obtain ⟨next, taken, rest⟩ := Outcome.bind_eq_returns_iff.mp run
      rw [List.cons_append, turns, taken, Outcome.returns_bind]
      exact induction rest

/-- What a read gave, if the event is the end of one. -/
def SubscriberEvent.result? : SubscriberEvent → Option ReadResult
  | .readDone _ result => some result
  | _ => none

/-- What the reads gave, in order. -/
def resultsOf (events : List SubscriberEvent) : List ReadResult :=
  events.filterMap SubscriberEvent.result?

/-- `stop` is not called, and `start` only for the first reader or while it
runs. -/
def Subscriber.KeepsReading (state : Subscriber) : SubscriberEvent → Prop
  | .start => state.running = true ∨ state.readers = []
  | .stop => False
  | _ => True

/-- The state between two turns, with these replies in the queue. -/
def ReadBuffer.asReader (buffer : ReadBuffer) (messages : List Reply)
    (running : Bool) : Reader :=
  ⟨buffer, ⟨messages, false⟩, running⟩

/-- The loop of `parse_buffer` has come to `it` in the turn for the last of the
reads, with these replies in the queue. -/
inductive InTurn (buffer : ReadBuffer) (messages : List Reply)
    (reads : List ReadResult) (stop it : Nat) : Prop where
  | intro {past : List ReadResult} {result : ReadResult} {before : ReadBuffer}
      {earlier : List Reply} {count : Nat} :
      reads = past ++ [result] →
      Reader.start.turns past = .returns (before.asReader earlier true) →
      result.error.value ≠ operationAborted.value →
      (result.error.isError || result.chunk.bytes.length == 0) = false →
      buffer = before.fill result.chunk →
      stop = result.chunk.bytes.length →
      Outcome.Turns (replyTurn MessageQueue.asyncSend buffer.bytes stop) count
        (⟨earlier, false⟩, 0) (⟨messages, false⟩, it) →
      InTurn buffer messages reads stop it

/-- Where a reader stands in the turns for the reads. -/
def ReaderTask.Follows (task : ReaderTask) (messages : List Reply)
    (reads : List ReadResult) : Prop :=
  match task.point with
  | .spawned | .connecting | .reading =>
      Reader.start.turns reads =
        .returns (task.readBuffer.asReader messages true)
  | .read result =>
      ∃ past before, reads = past ++ [result] ∧
        Reader.start.turns past =
          .returns (ReadBuffer.asReader before messages true) ∧
        task.readBuffer = before.fill result.chunk
  | .sending reply stop it =>
      ∃ here, InTurn task.readBuffer messages reads stop here ∧ here ≠ stop ∧
        loadData task.readBuffer.bytes stop here = .returns (reply, it)
  | .sent stop it code =>
      code = .success ∧ InTurn task.readBuffer messages reads stop it
  | .finished =>
      Reader.start.turns reads =
        .returns (task.readBuffer.asReader messages false)
  | .failed => ∀ reader, Reader.start.turns reads ≠ .returns reader

/-! ## One turn -/

section Turn

variable {buffer : ReadBuffer} {messages : List Reply}
  {reads : List ReadResult} {stop it : Nat}

private theorem Reader.turn_of_parsed {before : ReadBuffer}
    {earlier : List Reply} {result : ReadResult}
    (notAborted : result.error.value ≠ operationAborted.value)
    (something :
      (result.error.isError || result.chunk.bytes.length == 0) = false) :
    (before.asReader earlier true).turn result =
      (parseBuffer ⟨earlier, false⟩ (before.fill result.chunk).bytes 0
        result.chunk.bytes.length >>= fun (queue, err) =>
          .returns ⟨before.fill result.chunk, queue, !err.isError⟩) := by
  rw [Reader.turn]
  simp only [ReadBuffer.asReader, notAborted, something, if_false,
    Bool.false_eq_true]

theorem InTurn.turns_stop (inTurn : InTurn buffer messages reads stop stop) :
    Reader.start.turns reads = .returns (buffer.asReader messages true) := by
  obtain ⟨rfl, past, notAborted, something, rfl, rfl, turns⟩ := inTurn
  rw [Reader.turns_append_singleton past,
    Reader.turn_of_parsed notAborted something, parseBuffer,
    replyLoop_of_turns turns]
  rfl

/-- A turn in which `load_data` does not return does not end. -/
theorem InTurn.not_returns (inTurn : InTurn buffer messages reads stop it)
    (notStop : it ≠ stop)
    (broken : ∀ loaded, loadData buffer.bytes stop it ≠ .returns loaded)
    (reader : Reader) : Reader.start.turns reads ≠ .returns reader := by
  obtain ⟨rfl, past, notAborted, something, rfl, rfl, turns⟩ := inTurn
  rw [Reader.turns_append_singleton past,
    Reader.turn_of_parsed notAborted something]
  intro run
  obtain ⟨parsed, parsing, _⟩ := Outcome.bind_eq_returns_iff.mp run
  obtain ⟨ended, looping, _⟩ := Outcome.bind_eq_returns_iff.mp parsing
  obtain ⟨fuel, here⟩ := turns.loop_of_returns looping
  cases fuel with
  | zero => cases here
  | succ fuel =>
      obtain ⟨turned, taken, _⟩ := Outcome.bind_eq_returns_iff.mp here
      rw [replyTurn, if_neg notStop] at taken
      obtain ⟨loaded, loading, _⟩ := Outcome.bind_eq_returns_iff.mp taken
      exact broken loaded loading

/-- A reply that is sent takes the loop to the next one. -/
theorem InTurn.send (inTurn : InTurn buffer messages reads stop it)
    (notStop : it ≠ stop) {reply : Reply} {next : Nat}
    (loaded : loadData buffer.bytes stop it = .returns (reply, next)) :
    InTurn buffer (messages ++ [reply]) reads stop next := by
  obtain ⟨last, past, notAborted, something, filled, ends, turns⟩ := inTurn
  have taken : replyTurn MessageQueue.asyncSend buffer.bytes stop
      (⟨messages, false⟩, it) =
        .returns (.again (⟨messages ++ [reply], false⟩, next)) := by
    simp [replyTurn, notStop, loaded, MessageQueue.asyncSend]
  exact ⟨last, past, notAborted, something, filled, ends, turns.snoc taken⟩

end Turn

/-! ## One step of the reader -/

namespace ReaderTask.Follows

variable {task next : ReaderTask} {messages : List Reply}
  {reads : List ReadResult} {stop it : Nat}

private theorem parse (inTurn : InTurn task.readBuffer messages reads stop it) :
    (task.parse true stop it).Follows messages reads := by
  unfold ReaderTask.parse
  split <;> rename_i atStop
  · subst atStop
    exact inTurn.turns_stop
  · split <;> rename_i run
    · exact ⟨it, inTurn, atStop, run⟩
    · exact inTurn.not_returns atStop fun loaded loading =>
        run loaded.1 loaded.2 loading

theorem resume (follows : task.Follows messages reads)
    (moves : task.resume true = some next) :
    next.Follows messages reads := by
  obtain ⟨point, buffer⟩ := task
  cases point with
  | spawned =>
      cases moves
      exact follows
  | connecting =>
      cases moves
      exact follows
  | read result =>
      obtain ⟨past, before, rfl, run, filled⟩ := follows
      simp only at filled
      subst filled
      have turned := Reader.turns_append_singleton run result
      simp only [ReaderTask.resume] at moves
      split at moves <;> rename_i aborted
      · cases moves
        rw [Reader.turn, if_pos aborted] at turned
        exact turned
      · split at moves <;> rename_i nothing
        · cases moves
          rw [Reader.turn, if_neg aborted, if_pos nothing] at turned
          exact turned
        · cases moves
          have something := Bool.eq_false_of_not_eq_true nothing
          exact parse ⟨rfl, run, aborted, something, rfl, rfl, .refl _⟩
  | sent stop it code =>
      obtain ⟨rfl, inTurn⟩ := follows
      cases moves
      exact parse inTurn
  | _ => cases moves

theorem readDone (follows : task.Follows messages reads)
    (reading : task.point = .reading) (result : ReadResult) :
    (task.readDone result).Follows messages (reads ++ [result]) := by
  rw [Follows, reading] at follows
  exact ⟨reads, task.readBuffer, rfl, follows, rfl⟩

theorem sendDone (follows : task.Follows messages reads) {reply : Reply}
    (sending : task.point = .sending reply stop it) :
    (task.moveTo (.sent stop it .success)).Follows (messages ++ [reply])
      reads := by
  rw [Follows, sending] at follows
  obtain ⟨here, inTurn, notStop, loaded⟩ := follows
  exact ⟨rfl, inTurn.send notStop loaded⟩

end ReaderTask.Follows

/-! ## Every step -/

/-- The machine and the turns for the reads so far. -/
structure Subscriber.Refines (state : Subscriber) (reads : List ReadResult) :
    Prop where
  opened : state.queue.closed = false
  idle : 0 < state.queue.receivers → state.queue.buffer = []
  reader :
    (state.readers = [] ∧ state.readMessages = false ∧
      reads = [] ∧ state.conveyed = []) ∨
    ∃ task, state.readers = [task] ∧ state.readMessages = true ∧
      task.Follows state.conveyed reads

theorem Subscriber.initial_refines : Subscriber.initial.Refines [] where
  opened := rfl
  idle := fun _ => rfl
  reader := Or.inl ⟨rfl, rfl, rfl, rfl⟩

namespace Subscriber.Refines

variable {state : Subscriber} {reads : List ReadResult}

private theorem same (refines : state.Refines reads) {next : Subscriber}
    (queue : next.queue = state.queue)
    (readMessages : next.readMessages = state.readMessages)
    (readers : next.readers = state.readers)
    (delivered : next.delivered = state.delivered) :
    next.Refines reads := by
  have conveyed : next.conveyed = state.conveyed := by
    rw [conveyed, conveyed, queue, delivered]
  constructor
  · rw [queue]
    exact refines.opened
  · rw [queue]
    exact refines.idle
  · rw [readers, readMessages, conveyed]
    exact refines.reader

private theorem found (refines : state.Refines reads) {reader : Nat}
    {task : ReaderTask} (found : state.readers[reader]? = some task) :
    state.readMessages = true ∧ task.Follows state.conveyed reads ∧
      ∀ next, state.readers.set reader next = [next] := by
  rcases refines.reader with ⟨nobody, _⟩ | ⟨only, readers, reading, follows⟩
  · rw [nobody] at found
    cases found
  · rw [readers] at found ⊢
    cases reader with
    | zero =>
        cases found
        exact ⟨reading, follows, fun _ => rfl⟩
    | succ reader => cases found

private theorem start (refines : state.Refines reads)
    (allowed : state.running = true ∨ state.readers = []) :
    state.start.Refines reads := by
  cases running : state.running with
  | true =>
      have unchanged : state.start =
          { state with stops := state.stops.map StopCall.overtaken } := by
        rw [Subscriber.start, if_pos running]
      rw [unchanged]
      exact refines.same rfl rfl rfl rfl
  | false =>
      rw [running] at allowed
      have nobody := allowed.resolve_left Bool.false_ne_true
      rcases refines.reader with ⟨_, _, rfl, nothing⟩ | ⟨task, readers, _⟩
      · have spawned : state.start =
            { state with
              readMessages := true
              readers := [.spawned]
              stops := state.stops.map StopCall.overtaken } := by
          rw [Subscriber.start, if_neg (by simp [running]), nobody]
          rfl
        rw [spawned]
        refine ⟨refines.opened, refines.idle, Or.inr ⟨_, rfl, rfl, ?_⟩⟩
        have conveyed : state.delivered ++ state.queue.buffer = [] := nothing
        simp only [Subscriber.conveyed, conveyed]
        rfl
      · rw [nobody] at readers
        cases readers

end Subscriber.Refines

theorem SubscriberStep.refines {state next : Subscriber}
    {event : SubscriberEvent} (step : SubscriberStep state event next)
    (allowed : state.KeepsReading event) {reads : List ReadResult}
    (refines : state.Refines reads) :
    next.Refines (reads ++ event.result?.toList) := by
  cases step with
  | start =>
      simp only [SubscriberEvent.result?, Option.toList_none, List.append_nil]
      exact refines.start allowed
  | stop => exact absurd allowed id
  | latched found opened =>
      simp only [SubscriberEvent.result?, Option.toList_none, List.append_nil]
      exact refines.same rfl rfl rfl rfl
  | disconnected found =>
      simp only [SubscriberEvent.result?, Option.toList_none, List.append_nil]
      exact refines.same rfl rfl rfl rfl
  | resume found moves =>
      simp only [SubscriberEvent.result?, Option.toList_none, List.append_nil]
      obtain ⟨reading, follows, alone⟩ := refines.found found
      rw [reading] at moves
      exact ⟨refines.opened, refines.idle,
        Or.inr ⟨_, alone _, reading, follows.resume moves⟩⟩
  | readDone found reading =>
      obtain ⟨readMessages, follows, alone⟩ := refines.found found
      exact ⟨refines.opened, refines.idle,
        Or.inr ⟨_, alone _, readMessages, follows.readDone reading _⟩⟩
  | sendDone found sending sent =>
      simp only [SubscriberEvent.result?, Option.toList_none, List.append_nil]
      obtain ⟨reading, follows, alone⟩ := refines.found found
      obtain ⟨rfl, stillOpen, moved, _, idle⟩ :=
        Channel.asyncSend_of_open sent refines.opened refines.idle
      refine ⟨stillOpen, idle, Or.inr ⟨_, alone _, reading, ?_⟩⟩
      simp only [Subscriber.conveyed, List.append_assoc, moved]
      rw [← List.append_assoc]
      exact follows.sendDone sending
  | receive =>
      simp only [SubscriberEvent.result?, Option.toList_none, List.append_nil]
      obtain ⟨moved, sameClosed, idle⟩ := state.queue.asyncReceive_buffer
      refine ⟨sameClosed.trans refines.opened, idle refines.idle, ?_⟩
      simp only [Subscriber.conveyed, List.append_assoc, moved]
      exact refines.reader

/-- As long as `stop` is not called, whatever the reads give and however the
steps interleave: a reader that is about to read or has left its loop stands
where the turns for its reads end, with the replies they put into the queue
delivered or queued, and a reader that has failed has come to a turn that does
not end. -/
theorem reader_refines {events : List SubscriberEvent} {state : Subscriber}
    (run : Run (Restricted SubscriberStep Subscriber.KeepsReading) .initial
      events state) :
    ∀ task ∈ state.readers,
      (task.point = .reading →
        Reader.start.turns (resultsOf events) = .returns
          ⟨task.readBuffer, ⟨state.delivered ++ state.queue.buffer, false⟩,
            true⟩) ∧
      (task.point = .finished →
        Reader.start.turns (resultsOf events) = .returns
          ⟨task.readBuffer, ⟨state.delivered ++ state.queue.buffer, false⟩,
            false⟩) ∧
      (task.point = .failed → ∀ reader,
        Reader.start.turns (resultsOf events) ≠ .returns reader) := by
  have refines : state.Refines (resultsOf events) := by
    refine @Run.history _ _ _ _ _ _
      (fun past later => later.Refines (resultsOf past)) ?_ run [] ?_
    · intro past later event next held ⟨allowed, step⟩
      have moved := step.refines allowed held
      rw [resultsOf, List.filterMap_append]
      cases event <;> exact moved
    · exact Subscriber.initial_refines
  intro task member
  obtain ⟨reader, found⟩ := List.mem_iff_getElem?.mp member
  have follows := (refines.found found).2.1
  rw [ReaderTask.Follows] at follows
  refine ⟨fun point => ?_, fun point => ?_, fun point => ?_⟩
  · rw [point] at follows
    exact follows
  · rw [point] at follows
    exact follows
  · rw [point] at follows
    exact follows

/-- A read that gives a whole message. -/
private def messageRead : ReadResult :=
  ⟨.success, ⟨onePush.toResp.encode, by decide⟩⟩

/-- The machine sends the message, a caller of `read` takes it, and the reader
comes to its next read. -/
theorem reader_refines_onePush :
    Reader.start.turns [messageRead] = .returns
      ⟨ReadBuffer.zeros.fill messageRead.chunk,
        ⟨[onePush.toResp.toReply], false⟩, true⟩ := by
  have run : ∃ state,
      Run (Restricted SubscriberStep Subscriber.KeepsReading) .initial
        [.start, .resume 0, .resume 0, .readDone 0 messageRead, .resume 0,
          .sendDone 0, .receive, .resume 0, .resume 0] state ∧
      state.readers =
        [⟨.reading, ReadBuffer.zeros.fill messageRead.chunk⟩] ∧
      state.delivered = [onePush.toResp.toReply] ∧
      state.queue.buffer = [] :=
    ⟨_, .step ⟨Or.inr rfl, .start⟩ (.step ⟨trivial, .resume rfl rfl⟩
      (.step ⟨trivial, .resume rfl rfl⟩ (.step ⟨trivial, .readDone rfl rfl⟩
      (.step ⟨trivial, .resume rfl (resume_onePush rfl)⟩
      (.step ⟨trivial, .sendDone rfl rfl rfl⟩ (.step ⟨trivial, .receive⟩
      (.step ⟨trivial, .resume rfl rfl⟩
      (.step ⟨trivial, .resume rfl rfl⟩ (.refl _))))))))),
      rfl, rfl, rfl⟩
  obtain ⟨state, run, readers, delivered, buffer⟩ := run
  have member : ⟨.reading, ReadBuffer.zeros.fill messageRead.chunk⟩ ∈
      state.readers := by
    rw [readers]
    exact List.mem_singleton.mpr rfl
  have turns := (reader_refines run _ member).1 rfl
  rw [delivered, buffer] at turns
  exact turns

end RedisClient
