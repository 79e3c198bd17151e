import RedisClient.Basis.Run
import RedisClient.Basis.Tasks
import RedisClient.Subscriber

/-!
# The subscriber as a machine

`redis_subscriber` with its coroutines: the readers that `start` spawns, the
calls of `stop` and the calls of `read` that wait for a message.  A coroutine
runs from one suspension point to the next without interruption, and what it
waits for ends in a step of its own.  `delivered`, `chunks` and `startedSince`
are only recorded; no coroutine reads them.
-/

namespace RedisClient

open Basis

/-- The capacity in `message_queue_(exec_, 8)`. -/
def queueCapacity : Nat := 8

/-- `message_queue_`, with the number of receive operations that wait.  Behind
its closing the channel is taken to do what Boost documents: the sends that are
pending and the later ones fail, the replies it has buffered can still be
received, and the receivers that wait, or find nothing buffered, fail. -/
structure Channel where
  buffer : List Reply
  receivers : Nat
  closed : Bool

/-- What `async_send` comes to, if it does not wait: the reply is handed to a
waiting receiver, buffered or refused.  The replies handed over are the second
component. -/
def Channel.asyncSend (queue : Channel) (reply : Reply) :
    Option (Channel × List Reply × ErrorCode) :=
  if queue.closed then some (queue, [], channelClosed)
  else if 0 < queue.receivers then
    some ({ queue with receivers := queue.receivers - 1 }, [reply], .success)
  else if queue.buffer.length < queueCapacity then
    some ({ queue with buffer := queue.buffer ++ [reply] }, [], .success)
  else none

/-- What `async_receive` does: it takes a reply, fails or waits. -/
def Channel.asyncReceive (queue : Channel) : Channel × List Reply :=
  match queue.buffer with
  | reply :: rest => ({ queue with buffer := rest }, [reply])
  | [] =>
      if queue.closed then (queue, [])
      else ({ queue with receivers := queue.receivers + 1 }, [])

/-- `message_queue_.close()`; the receivers that wait fail. -/
def Channel.close (queue : Channel) : Channel :=
  { queue with receivers := 0, closed := true }

/-- Where a call of `read_messages` stands.  A comment names what it waits for
or has been told. -/
inductive ReaderPoint where
  -- `co_spawn` has posted it
  | spawned
  -- `co_await connection_.get()`
  | connecting
  -- `co_await conn->async_read_some(asio::buffer(read_buffer))`
  | reading
  -- the end of the read
  | read (result : ReadResult)
  -- `co_await message_queue_.async_send(ec, reply, tok)`
  | sending (reply : Reply) (stop it : Nat)
  -- the end of the send
  | sent (stop it : Nat) (code : ErrorCode)
  -- it has left its loop and called `latch_.count_down()`
  | finished
  -- an exception or a read outside its buffer has ended it
  | failed

def ReaderPoint.alive : ReaderPoint → Bool
  | .finished => false
  | .failed => false
  | _ => true

/-- A call of `read_messages` with its buffer. -/
structure ReaderTask where
  point : ReaderPoint
  readBuffer : ReadBuffer

namespace ReaderTask

def alive (task : ReaderTask) : Bool := task.point.alive

def spawned : ReaderTask := ⟨.spawned, .zeros⟩

def moveTo (task : ReaderTask) (point : ReaderPoint) : ReaderTask :=
  { task with point := point }

/-- `while (read_messages_)` -/
def test (task : ReaderTask) (readMessages : Bool) : ReaderTask :=
  task.moveTo (if readMessages then .connecting else .finished)

/-- `while (it != end)` in `parse_buffer`, up to the send or to the test of the
outer loop. -/
def parse (task : ReaderTask) (readMessages : Bool) (stop it : Nat) :
    ReaderTask :=
  if it = stop then task.test readMessages
  else
    match loadData task.readBuffer.bytes stop it with
    | .returns (reply, next) => task.moveTo (.sending reply stop next)
    | _ => task.moveTo .failed

/-- What a reader that is told the end of what it waits for, or that has not
begun, does until it waits again. -/
def resume (task : ReaderTask) (readMessages : Bool) : Option ReaderTask :=
  match task.point with
  | .spawned => some (task.test readMessages)
  | .connecting => some (task.moveTo .reading)
  | .read result =>
      if result.error.value = operationAborted.value then
        some (task.moveTo .finished)
      else if result.error.isError || result.chunk.bytes.length == 0 then
        some (task.test readMessages)
      else some (task.parse readMessages result.chunk.bytes.length 0)
  | .sent stop it code =>
      if code.isError then some (task.moveTo .finished)
      else some (task.parse readMessages stop it)
  | _ => none

/-- Where a reader that goes on calls `load_data`, if it does: `end` and the
iterator. -/
def parsesAt (task : ReaderTask) : Option (Nat × Nat) :=
  match task.point with
  | .read result =>
      if result.error.value = operationAborted.value then none
      else if result.error.isError || result.chunk.bytes.length == 0 then none
      else some (result.chunk.bytes.length, 0)
  | .sent stop it code => if code.isError then none else some (stop, it)
  | _ => none

/-- The chunk a reader is about to hand to `parse_buffer`. -/
def chunk (task : ReaderTask) : List (ReadBuffer × Nat) :=
  match task.point with
  | .read result =>
      if result.error.value = operationAborted.value then []
      else if result.error.isError || result.chunk.bytes.length == 0 then []
      else [(task.readBuffer, result.chunk.bytes.length)]
  | _ => []

/-- The end of a read. -/
def readDone (task : ReaderTask) (result : ReadResult) : ReaderTask :=
  ⟨.read result, task.readBuffer.fill result.chunk⟩

/-- What `connection_.cancel()` does to a read that is pending. -/
def cancel (task : ReaderTask) : ReaderTask :=
  match task.point with
  | .reading => task.moveTo (.read ⟨operationAborted, .empty⟩)
  | _ => task

end ReaderTask

inductive StopPoint where
  -- `co_await latch_.wait()`
  | waiting
  -- `co_await connection_.async_disconnect()`
  | disconnecting
  | returned
  deriving DecidableEq

/-- A call of `stop`; `startedSince` records whether `start` was called after
it began. -/
structure StopCall where
  point : StopPoint
  startedSince : Bool
  deriving DecidableEq

/-- `start` has been called. -/
def StopCall.overtaken (call : StopCall) : StopCall :=
  { call with startedSince := true }

structure Subscriber where
  latch : Nat
  readMessages : Bool
  queue : Channel
  readers : List ReaderTask
  stops : List StopCall
  /-- The replies returned by successful calls of `read`. -/
  delivered : List Reply
  /-- The buffers handed to `parse_buffer`, with the number of bytes read. -/
  chunks : List (ReadBuffer × Nat)

namespace Subscriber

/-- `redis_subscriber::redis_subscriber` -/
def initial : Subscriber where
  latch := 1
  readMessages := false
  queue := ⟨[], 0, false⟩
  readers := []
  stops := []
  delivered := []
  chunks := []

/-- `redis_subscriber::running` -/
def running (state : Subscriber) : Bool :=
  state.latch != 0 && state.readMessages

/-- `redis_subscriber::start` -/
def start (state : Subscriber) : Subscriber :=
  if state.running then
    { state with stops := state.stops.map StopCall.overtaken }
  else
    { state with
      readMessages := true
      readers := state.readers ++ [.spawned]
      stops := state.stops.map StopCall.overtaken }

/-- `redis_subscriber::stop` up to its wait for the latch. -/
def stop (state : Subscriber) : Subscriber :=
  { state with
    readMessages := false
    queue := state.queue.close
    readers := state.readers.map ReaderTask.cancel
    stops := state.stops ++ [⟨.waiting, false⟩] }

/-- A reader goes on, and counts the latch down where it leaves its loop. -/
def resumed (state : Subscriber) (reader : Nat) (task next : ReaderTask) :
    Subscriber :=
  { state with
    latch :=
      match next.point with
      | .finished => state.latch - 1
      | _ => state.latch
    readers := state.readers.set reader next
    chunks := state.chunks ++ task.chunk }

/-- The readers that have not ended. -/
def alive (state : Subscriber) : Nat := state.readers.countP ReaderTask.alive

end Subscriber

inductive SubscriberEvent where
  | start
  | stop
  | latched (call : Nat)
  | disconnected (call : Nat)
  | resume (reader : Nat)
  | readDone (reader : Nat) (result : ReadResult)
  | sendDone (reader : Nat)
  | receive

inductive SubscriberStep :
    Subscriber → SubscriberEvent → Subscriber → Prop where
  | start {state : Subscriber} : SubscriberStep state .start state.start
  | stop {state : Subscriber} : SubscriberStep state .stop state.stop
  | latched {state : Subscriber} {call : Nat} {since : Bool} :
      state.stops[call]? = some ⟨.waiting, since⟩ → state.latch = 0 →
      SubscriberStep state (.latched call)
        { state with stops := state.stops.set call ⟨.disconnecting, since⟩ }
  | disconnected {state : Subscriber} {call : Nat} {since : Bool} :
      state.stops[call]? = some ⟨.disconnecting, since⟩ →
      SubscriberStep state (.disconnected call)
        { state with stops := state.stops.set call ⟨.returned, since⟩ }
  | resume {state : Subscriber} {reader : Nat} {task next : ReaderTask} :
      state.readers[reader]? = some task →
      task.resume state.readMessages = some next →
      SubscriberStep state (.resume reader) (state.resumed reader task next)
  | readDone {state : Subscriber} {reader : Nat} {task : ReaderTask}
      {result : ReadResult} :
      state.readers[reader]? = some task → task.point = .reading →
      SubscriberStep state (.readDone reader result)
        { state with
          readers := state.readers.set reader (task.readDone result) }
  | sendDone {state : Subscriber} {reader stop it : Nat} {task : ReaderTask}
      {reply : Reply} {queue : Channel} {given : List Reply}
      {code : ErrorCode} :
      state.readers[reader]? = some task →
      task.point = .sending reply stop it →
      state.queue.asyncSend reply = some (queue, given, code) →
      SubscriberStep state (.sendDone reader)
        { state with
          queue := queue
          delivered := state.delivered ++ given
          readers := state.readers.set reader
            (task.moveTo (.sent stop it code)) }
  | receive {state : Subscriber} :
      SubscriberStep state .receive
        { state with
          queue := state.queue.asyncReceive.1
          delivered := state.delivered ++ state.queue.asyncReceive.2 }

namespace ReaderTask

variable {task next : ReaderTask} {readMessages : Bool}

/-- All a reader can do when it goes on. -/
theorem resume_cases (moves : task.resume readMessages = some next) :
    next = task.moveTo .finished ∨
      (task.point = .connecting ∧ next = task.moveTo .reading) ∨
      next = task.test readMessages ∨
      ∃ stop it, task.parsesAt = some (stop, it) ∧
        next = task.parse readMessages stop it := by
  obtain ⟨point, readBuffer⟩ := task
  cases point with
  | spawned =>
      cases moves
      exact Or.inr (Or.inr (Or.inl rfl))
  | connecting =>
      cases moves
      exact Or.inr (Or.inl ⟨rfl, rfl⟩)
  | read result =>
      simp only [resume] at moves
      split at moves <;> rename_i aborted
      · cases moves
        exact Or.inl rfl
      · split at moves <;> rename_i nothing
        · cases moves
          exact Or.inr (Or.inr (Or.inl rfl))
        · cases moves
          refine Or.inr (Or.inr (Or.inr ⟨_, _, ?_, rfl⟩))
          simp only [parsesAt, if_neg aborted, if_neg nothing]
  | sent stop it code =>
      simp only [resume] at moves
      split at moves <;> rename_i refused
      · cases moves
        exact Or.inl rfl
      · cases moves
        refine Or.inr (Or.inr (Or.inr ⟨_, _, ?_, rfl⟩))
        simp only [parsesAt, if_neg refused]
  | _ => cases moves

theorem resume_of_parsesAt {stop it : Nat}
    (parses : task.parsesAt = some (stop, it)) :
    task.resume readMessages = some (task.parse readMessages stop it) := by
  obtain ⟨point, readBuffer⟩ := task
  cases point with
  | read result =>
      simp only [parsesAt] at parses
      split at parses <;> rename_i aborted
      · cases parses
      · split at parses <;> rename_i nothing
        · cases parses
        · cases parses
          simp only [resume, if_neg aborted, if_neg nothing]
  | sent last here code =>
      simp only [parsesAt] at parses
      split at parses <;> rename_i refused
      · cases parses
      · cases parses
        simp only [resume, if_neg refused]
  | _ => cases parses

end ReaderTask

end RedisClient
