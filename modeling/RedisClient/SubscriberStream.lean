import RedisClient.Message
import RedisClient.SubscriberDelivery
import RedisClient.SubscriberQueue

/-!
# From the server to the callers of `read`

The whole way of a pushed reply: from the stream of the server through the
buffer of the reader and the queue to the callers of `read`, while `start`,
`stop`, the reader and the callers take their steps in any order.  What the
callers are given are the pushed replies in order, as long as every chunk ends
where a reply ends.
-/

namespace RedisClient

open Basis

/-- A subscriber and what the server pushes to it: the replies that are not
lost with a connection, and the number of their bytes that were read. -/
structure Feed where
  pushed : List Resp
  position : Nat
  subscriber : Subscriber

namespace Feed

def start : Feed := ⟨[], 0, .initial⟩

/-- The bytes that were sent and not yet read. -/
def unread (feed : Feed) : Bytes :=
  (Resp.encodeAll feed.pushed).drop feed.position

/-- The chunk a read of the given size gives. -/
def chunk (feed : Feed) (count : Nat) : Chunk :=
  ⟨feed.unread.take (min count bufferSize), by
    rw [List.length_take]
    omega⟩

/-- The replies that were read whole. -/
def whole (feed : Feed) : List Resp := readWhole feed.pushed feed.position

/-- A connection is lost, and everything on it that was not read whole. -/
def lost (feed : Feed) : Feed :=
  ⟨feed.whole, (Resp.encodeAll feed.whole).length, feed.subscriber⟩

end Feed

inductive FeedEvent where
  | push (reply : Resp)
  | lost
  | read (reader count : Nat)
  | readFailed (reader : Nat) (error : ErrorCode)
  -- any step of the subscriber but the end of a read
  | other (event : SubscriberEvent)

/-- The end of a read of a subscriber. -/
def SubscriberEvent.endsRead : SubscriberEvent → Bool
  | .readDone _ _ => true
  | _ => false

/-- A read that succeeds gives at least one byte, and no more than there are
and than were asked for. -/
inductive FeedStep : Feed → FeedEvent → Feed → Prop where
  | push {feed : Feed} {reply : Resp} :
      FeedStep feed (.push reply)
        { feed with pushed := feed.pushed ++ [reply] }
  | lost {feed : Feed} : FeedStep feed .lost feed.lost
  | read {feed : Feed} {reader count : Nat} {next : Subscriber} :
      0 < count → count ≤ bufferSize → count ≤ feed.unread.length →
      SubscriberStep feed.subscriber
        (.readDone reader ⟨.success, feed.chunk count⟩) next →
      FeedStep feed (.read reader count)
        ⟨feed.pushed, feed.position + count, next⟩
  | readFailed {feed : Feed} {reader : Nat} {error : ErrorCode}
      {next : Subscriber} :
      SubscriberStep feed.subscriber (.readDone reader ⟨error, .empty⟩)
        next →
      FeedStep feed (.readFailed reader error) { feed with subscriber := next }
  | other {feed : Feed} {event : SubscriberEvent} {next : Subscriber} :
      event.endsRead = false →
      SubscriberStep feed.subscriber event next →
      FeedStep feed (.other event) { feed with subscriber := next }

/-- The server pushes replies that are read as they were sent, every chunk ends
where a reply ends, and there is one reader at a time. -/
def Feed.Aligned (feed : Feed) : FeedEvent → Prop
  | .push reply => reply.Ordinary
  | .read _ count => AtBoundary feed.pushed (feed.position + count)
  | .other event => feed.subscriber.StartsAlone event
  | _ => True

/-! ## Chunks that are not parsed yet -/

namespace ReaderTask

/-- The replies in the chunk that a reader has not handed to `parse_buffer`
yet. -/
def unparsed (task : ReaderTask) : List Reply :=
  task.chunk.flatMap fun (buffer, stop) => decodedFrom buffer.bytes stop 0

theorem unparsed_of_not_alive (task : ReaderTask)
    (ended : task.alive = false) : task.unparsed = [] := by
  obtain ⟨point, readBuffer⟩ := task
  cases point with
  | finished => rfl
  | failed => rfl
  | _ => cases ended

theorem unparsed_cancel (task : ReaderTask) :
    task.cancel.unparsed = task.unparsed := by
  obtain ⟨point, readBuffer⟩ := task
  cases point with
  | reading => rfl
  | _ => rfl

theorem unparsed_of_resume {task next : ReaderTask} {readMessages : Bool}
    (moves : task.resume readMessages = some next) : next.unparsed = [] := by
  have test : (task.test readMessages).unparsed = [] := by
    cases readMessages with
    | true => rfl
    | false => rfl
  rcases resume_cases moves with rfl | ⟨connecting, rfl⟩ | rfl |
    ⟨stop, it, parses, rfl⟩
  · rfl
  · rfl
  · exact test
  · unfold parse
    split
    · exact test
    · split
      · rfl
      · rfl

theorem unparsed_readDone_empty (task : ReaderTask) (error : ErrorCode) :
    (task.readDone ⟨error, .empty⟩).unparsed = [] := by
  have nothing : (task.readDone ⟨error, .empty⟩).chunk = [] := by
    simp [readDone, chunk, Chunk.empty]
  rw [unparsed, nothing]
  rfl

/-- A chunk of whole replies is going to be parsed as these. -/
theorem unparsed_readDone {items : List Resp} {chunk : Chunk}
    (task : ReaderTask) (spelled : SpellsAll items chunk.bytes)
    (nonempty : chunk.bytes ≠ [])
    (ordinary : ∀ item ∈ items, item.Ordinary) :
    (task.readDone ⟨.success, chunk⟩).unparsed =
      items.map Resp.toReply := by
  have parsed : (task.readDone ⟨.success, chunk⟩).chunk =
      [(task.readBuffer.fill chunk, chunk.bytes.length)] := by
    have notAborted : ErrorCode.success.value ≠ operationAborted.value := by
      decide
    simp [readDone, ReaderTask.chunk, notAborted, nonempty]
  have run := spelled.readReplies_eq ordinary
    (task.readBuffer.bytes.drop chunk.bytes.length)
  rw [unparsed, parsed, List.flatMap_singleton]
  exact (readReplies_decoded run).symm

end ReaderTask

/-- The replies in chunks that no reader has parsed yet. -/
def Subscriber.unparsed (state : Subscriber) : List Reply :=
  state.readers.flatMap ReaderTask.unparsed

/-! ## What every step keeps -/

/-- What was parsed, and what is in the hands of the reader, are the replies
that were read whole. -/
structure Feed.InStep (feed : Feed) : Prop where
  conveys : feed.subscriber.Conveys
  ordinary : ∀ reply ∈ feed.pushed, reply.Ordinary
  boundary : AtBoundary feed.pushed feed.position
  decoded : feed.subscriber.decoded ++ feed.subscriber.unparsed =
    feed.whole.map Resp.toReply

theorem Feed.start_inStep : Feed.start.InStep where
  conveys := Subscriber.initial_conveys
  ordinary := nofun
  boundary := ⟨[], [], rfl, rfl⟩
  decoded := rfl

theorem readWhole_of_boundary (done behind : List Resp) :
    readWhole (done ++ behind) (Resp.encodeAll done).length = done := by
  have whole := readWhole_append done behind 0
  rw [Nat.add_zero, readWhole_zero, List.append_nil] at whole
  exact whole

/-- No step but the end of a read changes what was parsed together with what is
yet to be parsed. -/
theorem SubscriberStep.unparsed_kept {state next : Subscriber}
    {event : SubscriberEvent} (step : SubscriberStep state event next)
    (other : event.endsRead = false) (single : state.alive ≤ 1) :
    next.decoded ++ next.unparsed = state.decoded ++ state.unparsed := by
  cases step with
  | start =>
      unfold Subscriber.start
      split
      · rfl
      · have nothing : [ReaderTask.spawned].flatMap ReaderTask.unparsed = [] :=
          rfl
        simp only [Subscriber.unparsed, List.flatMap_append, nothing,
          List.append_nil]
        rfl
  | stop =>
      have same : state.stop.unparsed = state.unparsed := by
        simp only [Subscriber.unparsed, Subscriber.stop, List.flatMap_map,
          ReaderTask.unparsed_cancel]
      rw [same]
      rfl
  | latched found opened => rfl
  | disconnected found => rfl
  | @resume reader task later found moves =>
      have alive := ReaderTask.alive_of_resume moves
      have before : state.unparsed = task.unparsed :=
        Tasks.flatMap_of_single ReaderTask.unparsed_of_not_alive single found
          alive
      have after : (state.resumed reader task later).unparsed = [] :=
        (Tasks.flatMap_set_of_single ReaderTask.unparsed_of_not_alive single
          found alive later).trans (ReaderTask.unparsed_of_resume moves)
      rw [before, after, List.append_nil]
      exact List.flatMap_append
  | readDone found reading => cases other
  | @sendDone reader stop it task reply queue given code found sending sent =>
      have before : task.unparsed = [] := by
        rw [ReaderTask.unparsed, ReaderTask.chunk, sending]
        rfl
      have same : (state.readers.set reader
          (task.moveTo (.sent stop it code))).flatMap ReaderTask.unparsed =
          state.readers.flatMap ReaderTask.unparsed := by
        apply Tasks.flatMap_set_of_eq found
        rw [before]
        rfl
      exact congrArg (state.decoded ++ ·) same
  | receive => rfl

namespace Feed.InStep

variable {feed : Feed} {next : Subscriber} {reader : Nat}

theorem split (inStep : feed.InStep) :
    ∃ behind, feed.pushed = feed.whole ++ behind ∧
      feed.position = (Resp.encodeAll feed.whole).length := by
  obtain ⟨done, behind, pushed, position⟩ := inStep.boundary
  have whole : feed.whole = done := by
    rw [Feed.whole, pushed, position, readWhole_of_boundary]
  exact ⟨behind, by rw [whole, pushed], by rw [whole, position]⟩

theorem push (inStep : feed.InStep) {reply : Resp}
    (ordinary : reply.Ordinary) :
    Feed.InStep { feed with pushed := feed.pushed ++ [reply] } := by
  obtain ⟨behind, pushed, position⟩ := inStep.split
  have appended : feed.pushed ++ [reply] =
      feed.whole ++ (behind ++ [reply]) := by
    rw [← List.append_assoc, ← pushed]
  refine ⟨inStep.conveys, ?_, ⟨feed.whole, _, appended, position⟩, ?_⟩
  · intro other member
    rcases List.mem_append.mp member with before | last
    · exact inStep.ordinary other before
    · rw [List.mem_singleton.mp last]
      exact ordinary
  · have same : readWhole (feed.pushed ++ [reply]) feed.position =
        feed.whole := by
      rw [appended, position, readWhole_of_boundary]
    exact inStep.decoded.trans (congrArg (List.map Resp.toReply) same.symm)

theorem lost (inStep : feed.InStep) : feed.lost.InStep := by
  obtain ⟨behind, pushed, position⟩ := inStep.split
  have boundary : feed.whole = feed.whole ++ [] := (List.append_nil _).symm
  refine ⟨inStep.conveys, ?_, ⟨feed.whole, [], boundary, rfl⟩, ?_⟩
  · intro reply member
    apply inStep.ordinary
    rw [pushed]
    exact List.mem_append_left _ member
  · exact inStep.decoded.trans
      (congrArg (List.map Resp.toReply) (readWhole_all feed.whole).symm)

theorem other (inStep : feed.InStep) {event : SubscriberEvent}
    (step : SubscriberStep feed.subscriber event next)
    (others : event.endsRead = false)
    (allowed : feed.subscriber.StartsAlone event) :
    Feed.InStep { feed with subscriber := next } where
  conveys := step.conveys_kept allowed inStep.conveys
  ordinary := inStep.ordinary
  boundary := inStep.boundary
  decoded := by
    rw [step.unparsed_kept others inStep.conveys.single, inStep.decoded]
    rfl

private theorem unparsed_reading (inStep : feed.InStep) {task : ReaderTask}
    (found : feed.subscriber.readers[reader]? = some task)
    (reading : task.point = .reading) (result : ReadResult) :
    feed.subscriber.unparsed = [] ∧
      (feed.subscriber.readers.set reader
        (task.readDone result)).flatMap ReaderTask.unparsed =
          (task.readDone result).unparsed := by
  have alive : task.alive = true := by
    rw [ReaderTask.alive, reading]
    rfl
  have nothing : task.unparsed = [] := by
    rw [ReaderTask.unparsed, ReaderTask.chunk, reading]
    rfl
  have single := inStep.conveys.single
  constructor
  · rw [← nothing]
    exact Tasks.flatMap_of_single ReaderTask.unparsed_of_not_alive single found
      alive
  · exact Tasks.flatMap_set_of_single ReaderTask.unparsed_of_not_alive single
      found alive _

theorem readFailed (inStep : feed.InStep) {error : ErrorCode}
    (step : SubscriberStep feed.subscriber (.readDone reader ⟨error, .empty⟩)
      next) : Feed.InStep { feed with subscriber := next } := by
  refine ⟨step.conveys_kept trivial inStep.conveys, inStep.ordinary,
    inStep.boundary, ?_⟩
  cases step with
  | @readDone _ task _ found reading =>
      obtain ⟨before, after⟩ :=
        inStep.unparsed_reading found reading ⟨error, .empty⟩
      have decoded := inStep.decoded
      rw [before] at decoded
      rw [ReaderTask.unparsed_readDone_empty] at after
      exact (congrArg (feed.subscriber.decoded ++ ·) after).trans decoded

theorem read (inStep : feed.InStep) {count : Nat} (positive : 0 < count)
    (small : count ≤ bufferSize)
    (ends : AtBoundary feed.pushed (feed.position + count))
    (step : SubscriberStep feed.subscriber
      (.readDone reader ⟨.success, feed.chunk count⟩) next) :
    Feed.InStep ⟨feed.pushed, feed.position + count, next⟩ := by
  obtain ⟨behind, pushed, position⟩ := inStep.split
  have boundary := ends
  rw [pushed, position] at boundary
  obtain ⟨group, rest, rfl, length⟩ := group_of_boundary positive boundary
  have chunk : (feed.chunk count).bytes = Resp.encodeAll group := by
    simp only [Feed.chunk, Feed.unread]
    rw [pushed, position, Resp.encodeAll_append, List.drop_left,
      Nat.min_eq_left small, Resp.encodeAll_append, length, List.take_left]
  have spelled : SpellsAll group (feed.chunk count).bytes := by
    rw [chunk]
    apply Resp.spellsAll_encodeAll
    exact (length ▸ small).trans (by decide)
  have nonempty : (feed.chunk count).bytes ≠ [] := by
    rw [chunk, ← List.length_pos_iff]
    omega
  have ordinary : ∀ item ∈ group, item.Ordinary := by
    intro item member
    apply inStep.ordinary
    rw [pushed]
    exact List.mem_append_right _ (List.mem_append_left _ member)
  have whole : readWhole feed.pushed (feed.position + count) =
      feed.whole ++ group := by
    have last := readWhole_of_boundary (feed.whole ++ group) rest
    rw [List.append_assoc, ← pushed, Resp.encodeAll_append, List.length_append,
      ← position, ← length] at last
    exact last
  refine ⟨step.conveys_kept trivial inStep.conveys, inStep.ordinary, ends, ?_⟩
  cases step with
  | @readDone _ task _ found reading =>
      obtain ⟨before, after⟩ :=
        inStep.unparsed_reading found reading ⟨.success, feed.chunk count⟩
      have decoded := inStep.decoded
      rw [before, List.append_nil] at decoded
      rw [task.unparsed_readDone spelled nonempty ordinary] at after
      rw [Feed.whole, whole, List.map_append, ← decoded]
      exact congrArg (feed.subscriber.decoded ++ ·) after

end Feed.InStep

theorem FeedStep.inStep {feed next : Feed} {event : FeedEvent}
    (step : FeedStep feed event next) (allowed : feed.Aligned event)
    (inStep : feed.InStep) : next.InStep := by
  cases step with
  | push => exact inStep.push allowed
  | lost => exact inStep.lost
  | read positive small available step =>
      exact inStep.read positive small allowed step
  | readFailed step => exact inStep.readFailed step
  | other others step => exact inStep.other step others allowed

theorem Feed.inStep_of_run {events : List FeedEvent} {feed : Feed}
    (run : Run (Restricted FeedStep Feed.Aligned) .start events feed) :
    feed.InStep :=
  run.restricted_invariant Feed.start_inStep
    fun _ _ _ allowed step inStep => step.inStep allowed inStep

/-- In every run with one reader at a time whose chunks end where replies end,
the callers of `read` are given the pushed replies from the first on, in order
and each once, and so the messages in them.  While the queue is open, every
reply that was read whole is delivered, in the queue or in the hands of the
reader. -/
theorem pushes_delivered {events : List FeedEvent} {feed : Feed}
    (run : Run (Restricted FeedStep Feed.Aligned) .start events feed) :
    feed.subscriber.delivered ++ feed.subscriber.queue.buffer <+:
        feed.whole.map Resp.toReply ∧
      (feed.subscriber.queue.closed = false →
        feed.subscriber.delivered ++ feed.subscriber.queue.buffer ++
            feed.subscriber.readers.flatMap ReaderTask.pending ++
              feed.subscriber.readers.flatMap ReaderTask.unparsed =
          feed.whole.map Resp.toReply) ∧
      ∀ pushes : List Push, feed.pushed = pushes.map Push.toResp →
        feed.subscriber.delivered.filterMap
            (fun reply => reply.value.asRedisMessage) <+:
          pushes.filterMap Push.message? := by
  have inStep := Feed.inStep_of_run run
  have conveys := inStep.conveys
  have decoded := inStep.decoded
  have conveyed : feed.subscriber.conveyed <+: feed.whole.map Resp.toReply := by
    rw [← decoded]
    exact conveys.conveyed.trans (List.prefix_append _ _)
  refine ⟨conveyed, ?_, ?_⟩
  · intro opened
    rw [← conveys.complete opened] at decoded
    exact decoded
  · intro pushes pushed
    obtain ⟨behind, split, _⟩ := inStep.split
    have whole : feed.whole.map Resp.toReply <+:
        pushes.map fun push => push.toResp.toReply := by
      have mapped := congrArg (List.map Resp.toReply) (split.symm.trans pushed)
      rw [List.map_append, List.map_map] at mapped
      exact ⟨_, mapped⟩
    have delivered : feed.subscriber.delivered <+:
        pushes.map fun push => push.toResp.toReply :=
      ((List.prefix_append _ _).trans conveyed).trans whole
    have messages :=
      delivered.filterMap fun reply => reply.value.asRedisMessage
    rw [List.filterMap_map] at messages
    have same : (fun reply : Reply => reply.value.asRedisMessage) ∘
        (fun push : Push => push.toResp.toReply) = Push.message? :=
      funext Push.asRedisMessage_value
    rw [same] at messages
    exact messages

/-- The message `x` on the channel `c`. -/
def onePush : Push := .message [99] [120]

theorem resume_onePush {chunk : Chunk}
    (bytes : chunk.bytes = onePush.toResp.encode) :
    (ReaderTask.readDone ⟨.reading, .zeros⟩ ⟨.success, chunk⟩).resume true =
      some ⟨.sending onePush.toResp.toReply 31 31,
        ReadBuffer.zeros.fill chunk⟩ := by
  have spelled : Spells onePush.toResp onePush.toResp.encode :=
    Resp.spells_encode (by decide)
  have found : (ReadBuffer.zeros.fill chunk).bytes.drop 0 =
      onePush.toResp.encode ++ ReadBuffer.zeros.bytes.drop 31 := by
    simp only [ReadBuffer.fill, bytes]
    rfl
  have inside : 0 + onePush.toResp.encode.length ≤ 31 := by decide
  have loaded :=
    spelled.loadData_eq onePush.plain.readToEnd found inside
  rw [onePush.plain.reading_eq] at loaded
  have parses : (ReaderTask.readDone ⟨.reading, .zeros⟩
      ⟨.success, chunk⟩).parsesAt = some (31, 0) := by
    have length : chunk.bytes.length = 31 := by
      rw [bytes]
      rfl
    have notAborted : ErrorCode.success.value ≠ operationAborted.value := by
      decide
    simp [ReaderTask.readDone, ReaderTask.parsesAt, notAborted, length]
  rw [ReaderTask.resume_of_parsesAt parses, ReaderTask.parse,
    if_neg (by decide), ReaderTask.readDone, loaded]
  rfl

/-- A call of `read` waits while the reader is given the message. -/
theorem pushes_delivered_onePush :
    ∃ feed, Run (Restricted FeedStep Feed.Aligned) .start
        [.push onePush.toResp, .other .start, .other (.resume 0),
          .other (.resume 0), .other .receive, .read 0 31, .other (.resume 0),
          .other (.sendDone 0)] feed ∧
      feed.subscriber.delivered = [onePush.toResp.toReply] ∧
      feed.subscriber.delivered.filterMap
          (fun reply => reply.value.asRedisMessage) <+:
        [⟨[99], [], [120]⟩] := by
  have bytes : (Feed.chunk ⟨[onePush.toResp], 0, .initial⟩ 31).bytes =
      onePush.toResp.encode := rfl
  have ends : AtBoundary [onePush.toResp] (0 + 31) :=
    ⟨[onePush.toResp], [], rfl, rfl⟩
  have run : ∃ feed, Run (Restricted FeedStep Feed.Aligned) .start
        [.push onePush.toResp, .other .start, .other (.resume 0),
          .other (.resume 0), .other .receive, .read 0 31, .other (.resume 0),
          .other (.sendDone 0)] feed ∧
      feed.subscriber.delivered = [onePush.toResp.toReply] ∧
      feed.pushed = [onePush].map Push.toResp :=
    ⟨_, .step ⟨Or.inl onePush.plain, .push⟩
      (.step ⟨Or.inr rfl, .other rfl .start⟩
      (.step ⟨trivial, .other rfl (.resume rfl rfl)⟩
      (.step ⟨trivial, .other rfl (.resume rfl rfl)⟩
      (.step ⟨trivial, .other rfl .receive⟩
      (.step ⟨ends, .read (by decide) (by decide) (by decide)
        (.readDone rfl rfl)⟩
      (.step ⟨trivial, .other rfl (.resume rfl (resume_onePush bytes))⟩
      (.step ⟨trivial, .other rfl (.sendDone rfl rfl rfl)⟩ (.refl _)))))))),
      rfl, rfl⟩
  obtain ⟨feed, run, delivered, pushed⟩ := run
  exact ⟨feed, run, delivered, (pushes_delivered run).2.2 [onePush] pushed⟩

end RedisClient
