import RedisClient.DecodedReplies
import RedisClient.SubscriberLifecycle

/-!
# The queue of a subscriber

While there is one reader, the replies it decodes reach the callers of `read`
in order: what was delivered, what is buffered and what the reader still has in
hand make up what it decoded.  Closing the queue cuts this off, and nothing is
added behind the cut.
-/

namespace RedisClient

open Basis

/-- The replies a reader still has to send of the chunk it is working on. -/
def ReaderTask.pending (task : ReaderTask) : List Reply :=
  match task.point with
  | .sending reply stop it =>
      reply :: decodedFrom task.readBuffer.bytes stop it
  | .sent stop it code =>
      if code.isError then []
      else decodedFrom task.readBuffer.bytes stop it
  | _ => []

namespace Subscriber

/-- Everything `parse_buffer` decodes from the chunks it was given. -/
def decoded (state : Subscriber) : List Reply :=
  state.chunks.flatMap fun (buffer, stop) => decodedFrom buffer.bytes stop 0

/-- The replies that were delivered, followed by those in the queue. -/
def conveyed (state : Subscriber) : List Reply :=
  state.delivered ++ state.queue.buffer

end Subscriber

namespace ReaderTask

variable {task next : ReaderTask} {readMessages : Bool}

theorem pending_of_not_alive (task : ReaderTask) (ended : task.alive = false) :
    task.pending = [] := by
  obtain ⟨point, readBuffer⟩ := task
  cases point <;> first | rfl | cases ended

private theorem pending_test (task : ReaderTask) (readMessages : Bool) :
    (task.test readMessages).pending = [] := by
  cases readMessages <;> rfl

private theorem pending_parse (task : ReaderTask) (readMessages : Bool)
    (stop it : Nat) :
    (task.parse readMessages stop it).pending =
      decodedFrom task.readBuffer.bytes stop it := by
  by_cases atStop : it = stop
  · rw [parse, if_pos atStop, pending_test, atStop, decodedFrom_stop]
  · rw [parse, if_neg atStop]
    cases run : loadData task.readBuffer.bytes stop it with
    | returns loaded =>
        rw [decodedFrom_of_returns atStop run]
        rfl
    | throws exception =>
        rw [decodedFrom_of_not_returns atStop (by simp [run])]
        rfl
    | faults position =>
        rw [decodedFrom_of_not_returns atStop (by simp [run])]
        rfl
    | exhausted =>
        rw [decodedFrom_of_not_returns atStop (by simp [run])]
        rfl

/-- A reader that goes on has in hand what it had, and what the chunk holds that
it begins with. -/
theorem pending_resume (moves : task.resume readMessages = some next) :
    next.pending = task.pending ++
      task.chunk.flatMap fun (buffer, stop) =>
        decodedFrom buffer.bytes stop 0 := by
  obtain ⟨point, readBuffer⟩ := task
  cases point with
  | spawned =>
      cases moves
      exact pending_test _ _
  | connecting =>
      cases moves
      rfl
  | read result =>
      simp only [resume] at moves
      split at moves <;> rename_i aborted
      · cases moves
        simp [pending, chunk, aborted, moveTo]
      · split at moves <;> rename_i nothing
        · cases moves
          rw [pending_test]
          simp [pending, chunk, aborted, nothing]
        · cases moves
          rw [pending_parse]
          simp [pending, chunk, aborted, nothing]
  | sent stop it code =>
      simp only [resume] at moves
      split at moves <;> rename_i refused
      · cases moves
        simp [pending, chunk, refused, moveTo]
      · cases moves
        rw [pending_parse]
        simp [pending, chunk, refused]
  | _ => cases moves

theorem not_sent_of_resume (moves : task.resume readMessages = some next)
    (stop it : Nat) (code : ErrorCode) : next.point ≠ .sent stop it code := by
  have notTest : (task.test readMessages).point ≠ .sent stop it code := by
    cases readMessages <;> nofun
  rcases resume_cases moves with rfl | ⟨connecting, rfl⟩ | rfl |
    ⟨last, here, parses, rfl⟩
  · nofun
  · nofun
  · exact notTest
  · unfold parse
    split
    · exact notTest
    · split <;> nofun

end ReaderTask

/-! ## The queue alone -/

theorem Channel.asyncSend_of_open {queue next : Channel}
    {reply : Reply} {given : List Reply} {code : ErrorCode}
    (sent : queue.asyncSend reply = some (next, given, code))
    (opened : queue.closed = false)
    (idle : 0 < queue.receivers → queue.buffer = []) :
    code = .success ∧ next.closed = false ∧
      given ++ next.buffer = queue.buffer ++ [reply] ∧
      (next.buffer.length ≤ queue.buffer.length ∨
        next.buffer.length ≤ queueCapacity) ∧
      (0 < next.receivers → next.buffer = []) := by
  simp only [Channel.asyncSend, opened, Bool.false_eq_true, if_false] at sent
  split at sent <;> rename_i waiting
  · cases sent
    have isEmpty := idle waiting
    exact ⟨rfl, rfl, by simp [isEmpty], Or.inl (Nat.le_refl _),
      fun _ => isEmpty⟩
  · split at sent <;> cases sent
    rename_i room
    refine ⟨rfl, rfl, rfl, Or.inr ?_, fun waits => absurd waits waiting⟩
    rw [List.length_append, List.length_singleton]
    exact room

theorem Channel.asyncSend_of_closed {queue next : Channel}
    {reply : Reply} {given : List Reply} {code : ErrorCode}
    (sent : queue.asyncSend reply = some (next, given, code))
    (closed : queue.closed = true) :
    next = queue ∧ given = [] ∧ code = channelClosed := by
  rw [Channel.asyncSend, if_pos closed] at sent
  cases sent
  exact ⟨rfl, rfl, rfl⟩

theorem Channel.asyncReceive_buffer (queue : Channel) :
    queue.asyncReceive.2 ++ queue.asyncReceive.1.buffer = queue.buffer ∧
      queue.asyncReceive.1.closed = queue.closed ∧
      ((0 < queue.receivers → queue.buffer = []) →
        0 < queue.asyncReceive.1.receivers →
        queue.asyncReceive.1.buffer = []) := by
  obtain ⟨buffer, receivers, closed⟩ := queue
  cases buffer with
  | nil =>
      cases closed <;> exact ⟨rfl, rfl, fun _ _ => rfl⟩
  | cons reply rest =>
      refine ⟨rfl, rfl, fun idle waiting => ?_⟩
      cases idle waiting

/-! ## From the reader to the callers of `read` -/

/-- What holds of the queue while there is one reader. -/
structure Subscriber.Conveys (state : Subscriber) : Prop where
  single : state.alive ≤ 1
  conveyed : state.conveyed <+: state.decoded
  complete : state.queue.closed = false →
    state.conveyed ++ state.readers.flatMap ReaderTask.pending = state.decoded
  bounded : state.queue.buffer.length ≤ queueCapacity
  idle : 0 < state.queue.receivers → state.queue.buffer = []
  refused : ∀ task ∈ state.readers, ∀ stop it code,
    task.point = .sent stop it code → code.isError = true →
      state.queue.closed = true

theorem Subscriber.initial_conveys : Subscriber.initial.Conveys where
  single := Nat.zero_le 1
  conveyed := List.nil_prefix
  complete := fun _ => rfl
  bounded := Nat.zero_le _
  idle := fun _ => rfl
  refused := nofun

namespace Subscriber.Conveys

variable {state : Subscriber} {reader : Nat} {task : ReaderTask}

private theorem pending_eq (conveys : state.Conveys)
    (found : state.readers[reader]? = some task) (alive : task.alive = true)
    (next : ReaderTask) :
    state.readers.flatMap ReaderTask.pending = task.pending ∧
      (state.readers.set reader next).flatMap ReaderTask.pending =
        next.pending :=
  ⟨Tasks.flatMap_of_single ReaderTask.pending_of_not_alive conveys.single found
      alive,
    Tasks.flatMap_set_of_single ReaderTask.pending_of_not_alive conveys.single
      found alive next⟩

theorem start (conveys : state.Conveys) (single : state.start.alive ≤ 1) :
    state.start.Conveys := by
  obtain ⟨_, conveyed, complete, bounded, idle, refused⟩ := conveys
  cases running : state.running with
  | true =>
      simp only [Subscriber.start, running, if_true] at single ⊢
      exact ⟨single, conveyed, complete, bounded, idle, refused⟩
  | false =>
      simp only [Subscriber.start, running, Bool.false_eq_true,
        if_false] at single ⊢
      refine ⟨single, conveyed, fun opened => ?_, bounded, idle, ?_⟩
      · have nothing : [ReaderTask.spawned].flatMap ReaderTask.pending = [] :=
          rfl
        rw [List.flatMap_append, nothing, List.append_nil]
        exact complete opened
      · intro task member
        rcases List.mem_append.mp member with before | new
        · exact refused task before
        · cases List.mem_singleton.mp new
          intro stop it code point
          cases point

theorem stop (conveys : state.Conveys) : state.stop.Conveys where
  single := by
    rw [alive_stop]
    exact conveys.single
  conveyed := conveys.conveyed
  complete := nofun
  bounded := conveys.bounded
  idle := nofun
  refused := fun _ _ _ _ _ _ _ => rfl

theorem resumed (conveys : state.Conveys) {next : ReaderTask}
    (found : state.readers[reader]? = some task)
    (moves : task.resume state.readMessages = some next) :
    (state.resumed reader task next).Conveys := by
  have alive := ReaderTask.alive_of_resume moves
  have counted := alive_resumed found moves
  have once := Bool.toNat_le next.alive
  obtain ⟨pending, pendingNext⟩ := conveys.pending_eq found alive next
  have decoded : (state.resumed reader task next).decoded =
      state.decoded ++ task.chunk.flatMap fun (buffer, stop) =>
        decodedFrom buffer.bytes stop 0 := List.flatMap_append
  have single := conveys.single
  refine ⟨by omega, ?_, fun opened => ?_, conveys.bounded, conveys.idle, ?_⟩
  · rw [decoded]
    exact conveys.conveyed.trans (List.prefix_append _ _)
  · have complete := conveys.complete opened
    rw [pending] at complete
    rw [decoded, ← complete, List.append_assoc,
      ← ReaderTask.pending_resume moves, ← pendingNext]
    rfl
  · intro other member stop it code point
    rcases List.mem_or_eq_of_mem_set member with before | rfl
    · exact conveys.refused other before stop it code point
    · exact absurd point (ReaderTask.not_sent_of_resume moves stop it code)

theorem readDone (conveys : state.Conveys) {result : ReadResult}
    (found : state.readers[reader]? = some task)
    (reading : task.point = .reading) :
    Subscriber.Conveys { state with
      readers := state.readers.set reader (task.readDone result) } := by
  have alive : task.alive = true := by
    rw [ReaderTask.alive, reading]
    rfl
  obtain ⟨pending, pendingNext⟩ :=
    conveys.pending_eq found alive (task.readDone result)
  have nothing : task.pending = [] := by rw [ReaderTask.pending, reading]
  obtain ⟨single, conveyed, complete, bounded, idle, refused⟩ := conveys
  refine ⟨?_, conveyed, fun opened => ?_, bounded, idle, ?_⟩
  · exact (countP_readDone found reading result).le.trans single
  · have before := complete opened
    rw [pending, nothing] at before
    rw [pendingNext]
    exact before
  · intro other member
    rcases List.mem_or_eq_of_mem_set member with before | rfl
    · exact refused other before
    · intro stop it code point
      cases point

theorem sendDone (conveys : state.Conveys) {stop it : Nat} {reply : Reply}
    {queue : Channel} {given : List Reply} {code : ErrorCode}
    (found : state.readers[reader]? = some task)
    (sending : task.point = .sending reply stop it)
    (sent : state.queue.asyncSend reply = some (queue, given, code)) :
    Subscriber.Conveys { state with
      queue := queue
      delivered := state.delivered ++ given
      readers := state.readers.set reader
        (task.moveTo (.sent stop it code)) } := by
  have alive : task.alive = true := by
    rw [ReaderTask.alive, sending]
    rfl
  obtain ⟨pending, pendingNext⟩ :=
    conveys.pending_eq found alive (task.moveTo (.sent stop it code))
  have single := (countP_sendDone found sending code).le.trans conveys.single
  obtain ⟨_, conveyed, complete, bounded, idle, refused⟩ := conveys
  cases closed : state.queue.closed with
  | true =>
      obtain ⟨rfl, rfl, rfl⟩ := Channel.asyncSend_of_closed sent closed
      refine ⟨single, ?_, fun opened => ?_, bounded, idle, ?_⟩
      · have same : state.delivered ++ [] ++ state.queue.buffer <+:
            state.decoded := by
          rw [List.append_nil]
          exact conveyed
        exact same
      · rw [closed] at opened
        cases opened
      · exact fun _ _ _ _ _ _ _ => closed
  | false =>
      obtain ⟨rfl, stillOpen, moved, room, idleNext⟩ :=
        Channel.asyncSend_of_open sent closed idle
      -- the reply leaves the hand of the reader for the end of the queue
      have conveyedNext : state.delivered ++ given ++ queue.buffer =
          state.conveyed ++ [reply] := by
        rw [List.append_assoc, moved, ← List.append_assoc]
        rfl
      have rest : state.conveyed ++ [reply] ++
          decodedFrom task.readBuffer.bytes stop it = state.decoded := by
        have before := complete closed
        rw [pending, ReaderTask.pending, sending] at before
        rw [← before]
        simp
      refine ⟨single, ?_, fun opened => ?_, ?_, idleNext, ?_⟩
      · exact ⟨_, (congrArg (· ++ _) conveyedNext).trans rest⟩
      · rw [pendingNext]
        exact (congrArg (· ++ _) conveyedNext).trans rest
      · exact room.elim (fun less => less.trans bounded) id
      · intro other member
        rcases List.mem_or_eq_of_mem_set member with before | rfl
        · intro last here failure point failing
          have wasClosed := refused other before last here failure point failing
          rw [closed] at wasClosed
          cases wasClosed
        · intro last here failure point failing
          cases point
          cases failing

theorem receive (conveys : state.Conveys) :
    Subscriber.Conveys { state with
      queue := state.queue.asyncReceive.1
      delivered := state.delivered ++ state.queue.asyncReceive.2 } := by
  obtain ⟨moved, sameClosed, idleNext⟩ := state.queue.asyncReceive_buffer
  have conveyedNext : state.delivered ++ state.queue.asyncReceive.2 ++
      state.queue.asyncReceive.1.buffer = state.conveyed := by
    rw [List.append_assoc, moved]
    rfl
  obtain ⟨single, conveyed, complete, bounded, idle, refused⟩ := conveys
  refine ⟨single, ?_, fun opened => ?_, ?_, idleNext idle, ?_⟩
  · rw [← conveyedNext] at conveyed
    exact conveyed
  · rw [sameClosed] at opened
    exact (congrArg (· ++ _) conveyedNext).trans (complete opened)
  · have lengths := congrArg List.length moved
    rw [List.length_append] at lengths
    simp only
    omega
  · rw [sameClosed]
    exact refused

end Subscriber.Conveys

theorem SubscriberStep.conveys_kept {state next : Subscriber}
    {event : SubscriberEvent} (step : SubscriberStep state event next)
    (allowed : state.StartsAlone event) (conveys : state.Conveys) :
    next.Conveys := by
  have single := step.single_kept allowed conveys.single
  cases step with
  | start => exact conveys.start single
  | stop => exact conveys.stop
  | latched found opened =>
      obtain ⟨single, conveyed, complete, bounded, idle, refused⟩ := conveys
      exact ⟨single, conveyed, complete, bounded, idle, refused⟩
  | disconnected found =>
      obtain ⟨single, conveyed, complete, bounded, idle, refused⟩ := conveys
      exact ⟨single, conveyed, complete, bounded, idle, refused⟩
  | resume found moves => exact conveys.resumed found moves
  | readDone found reading => exact conveys.readDone found reading
  | sendDone found sending sent => exact conveys.sendDone found sending sent
  | receive => exact conveys.receive

/-- Behind the closing of the queue nothing is added to it. -/
theorem SubscriberStep.conveyed_of_closed {state next : Subscriber}
    {event : SubscriberEvent} (step : SubscriberStep state event next)
    (closed : state.queue.closed = true) :
    next.queue.closed = true ∧ next.conveyed = state.conveyed := by
  cases step with
  | start =>
      unfold Subscriber.start
      split <;> exact ⟨closed, rfl⟩
  | stop => exact ⟨rfl, rfl⟩
  | latched found opened => exact ⟨closed, rfl⟩
  | disconnected found => exact ⟨closed, rfl⟩
  | resume found moves => exact ⟨closed, rfl⟩
  | readDone found reading => exact ⟨closed, rfl⟩
  | sendDone found sending sent =>
      obtain ⟨rfl, rfl, rfl⟩ := Channel.asyncSend_of_closed sent closed
      exact ⟨closed, by simp [Subscriber.conveyed]⟩
  | receive =>
      obtain ⟨moved, sameClosed, _⟩ := state.queue.asyncReceive_buffer
      refine ⟨sameClosed.trans closed, ?_⟩
      rw [Subscriber.conveyed, List.append_assoc, moved]
      rfl

/-- In every run with one reader at a time, the replies that were delivered and
those in the queue are the first ones that were decoded, in order; while the
queue is open, the reader still has the others in hand, and none is lost.  The
queue holds at most as many as it has room for.  A reader whose send is refused
leaves its loop, and nothing is added afterwards. -/
theorem queue_conveys {events : List SubscriberEvent} {state : Subscriber}
    (run : Run (Restricted SubscriberStep Subscriber.StartsAlone) .initial
      events state) :
    state.delivered ++ state.queue.buffer <+: state.decoded ∧
    (state.queue.closed = false →
      state.delivered ++ state.queue.buffer ++
        state.readers.flatMap ReaderTask.pending = state.decoded) ∧
    state.queue.buffer.length ≤ 8 ∧
    ∀ task ∈ state.readers, ∀ stop it code,
      task.point = .sent stop it code → code.isError = true →
        task.resume state.readMessages = some (task.moveTo .finished) ∧
        ∀ events later, Run SubscriberStep state events later →
          later.delivered ++ later.queue.buffer =
            state.delivered ++ state.queue.buffer := by
  have conveys : state.Conveys :=
    run.restricted_invariant Subscriber.initial_conveys
      fun _ _ _ allowed step => step.conveys_kept allowed
  refine ⟨conveys.conveyed, conveys.complete, conveys.bounded, ?_⟩
  intro task member stop it code point failing
  have closed := conveys.refused task member stop it code point failing
  constructor
  · rw [ReaderTask.resume, point]
    exact if_pos failing
  · intro laterEvents later laterRun
    have kept : later.queue.closed = true ∧
        later.conveyed = state.conveyed := by
      apply laterRun.invariant _ ⟨closed, rfl⟩
      rintro before event after ⟨stillClosed, same⟩ step
      obtain ⟨closedNext, sameNext⟩ := step.conveyed_of_closed stillClosed
      exact ⟨closedNext, sameNext.trans same⟩
    exact kept.2

/-- `+A\r\n` -/
private def letter : Chunk := ⟨[43, 65, 13, 10], by decide⟩

private theorem resume_letter :
    (ReaderTask.readDone ⟨.reading, .zeros⟩ ⟨.success, letter⟩).resume true =
      some ⟨.sending ⟨.simpleString [65], .success⟩ 4 4,
        ReadBuffer.zeros.fill letter⟩ := by
  have found : (ReadBuffer.zeros.fill letter).bytes.drop 0 =
      Marker.simpleString.byte :: ([65] ++ carriageReturn ::
        (10 :: ReadBuffer.zeros.bytes.drop 4)) := rfl
  have loaded := loadData_of_returns
    (@parseReply_of_line _ [65] _ .simpleString 4 0 found (by decide)
      (by decide))
  change some (ReaderTask.parse ⟨_, ReadBuffer.zeros.fill letter⟩ true 4 0) = _
  rw [ReaderTask.parse, if_neg (by decide), loaded]
  rfl

/-- `stop` closes the queue while the reader has a message in hand. -/
theorem queue_conveys_refused :
    ∃ state task, Run (Restricted SubscriberStep Subscriber.StartsAlone)
      .initial [.start, .resume 0, .resume 0, .readDone 0 ⟨.success, letter⟩,
        .resume 0, .stop, .sendDone 0] state ∧
      task ∈ state.readers ∧
      task.resume state.readMessages = some (task.moveTo .finished) := by
  have run : ∃ state, Run (Restricted SubscriberStep Subscriber.StartsAlone)
      .initial [.start, .resume 0, .resume 0, .readDone 0 ⟨.success, letter⟩,
        .resume 0, .stop, .sendDone 0] state ∧
      ∃ task ∈ state.readers, task.point = .sent 4 4 channelClosed :=
    ⟨_, .step ⟨Or.inr rfl, .start⟩ (.step ⟨trivial, .resume rfl rfl⟩
      (.step ⟨trivial, .resume rfl rfl⟩ (.step ⟨trivial, .readDone rfl rfl⟩
        (.step ⟨trivial, .resume rfl resume_letter⟩ (.step ⟨trivial, .stop⟩
          (.step ⟨trivial, .sendDone rfl rfl rfl⟩ (.refl _))))))),
      _, List.mem_singleton.mpr rfl, rfl⟩
  obtain ⟨state, run, task, member, point⟩ := run
  obtain ⟨leaves, _⟩ := (queue_conveys run).2.2.2 task member _ _ _ point rfl
  exact ⟨state, task, run, member, leaves⟩

end RedisClient
