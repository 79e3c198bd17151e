import RedisClient.SubscriberStream

/-!
# Progress of a subscriber

While nothing happens but steps of the reader and calls of `read` that find a
reply in the queue, the replies that were read reach the callers.  Every such
step makes `Subscriber.work` smaller, and where none is left, everything is
delivered: a full queue never keeps the reader waiting for good.
-/

namespace RedisClient

open Basis

/-- A step of a reader, or a call of `read` that does not wait. -/
def Subscriber.Proceeds (state : Subscriber) : SubscriberEvent → Prop
  | .resume _ => True
  | .sendDone _ => True
  | .receive => state.queue.buffer ≠ []
  | _ => False

/-- The number of times a reader goes on before it waits for a connection, for
bytes or for the queue. -/
def ReaderTask.phase (task : ReaderTask) : Nat :=
  match task.point with
  | .spawned => 2
  | .connecting => 1
  | .read _ => 2
  | .sent _ _ _ => 2
  | _ => 0

/-- The steps a reader can cause: a reply it has in hand is sent, and may be
received. -/
def ReaderTask.work (task : ReaderTask) : Nat :=
  5 * (task.pending.length + task.unparsed.length) + task.phase

def Subscriber.work (state : Subscriber) : Nat :=
  Tasks.total ReaderTask.work state.readers + 2 * state.queue.buffer.length

/-! ## Every step makes the work smaller -/

namespace ReaderTask

variable {task next : ReaderTask} {readMessages : Bool}

private theorem phase_test_le (task : ReaderTask) (readMessages : Bool) :
    (task.test readMessages).phase ≤ 1 := by
  cases readMessages with
  | true => exact Nat.le_refl 1
  | false => exact Nat.zero_le 1

private theorem phase_parse_le (task : ReaderTask) (readMessages : Bool)
    (stop it : Nat) : (task.parse readMessages stop it).phase ≤ 1 := by
  unfold parse
  split
  · exact task.phase_test_le readMessages
  · split
    · exact Nat.zero_le 1
    · exact Nat.zero_le 1

theorem phase_of_resume (moves : task.resume readMessages = some next) :
    next.phase < task.phase := by
  obtain ⟨point, readBuffer⟩ := task
  cases point with
  | spawned =>
      cases moves
      exact Nat.lt_succ_of_le (phase_test_le _ _)
  | connecting =>
      cases moves
      exact Nat.one_pos
  | read result =>
      simp only [resume] at moves
      split at moves
      · cases moves
        exact Nat.two_pos
      · split at moves
        · cases moves
          exact Nat.lt_succ_of_le (phase_test_le _ _)
        · cases moves
          exact Nat.lt_succ_of_le (phase_parse_le _ _ _ _)
  | sent stop it code =>
      simp only [resume] at moves
      split at moves
      · cases moves
        exact Nat.two_pos
      · cases moves
        exact Nat.lt_succ_of_le (phase_parse_le _ _ _ _)
  | _ => cases moves

theorem work_of_resume (moves : task.resume readMessages = some next) :
    next.work < task.work := by
  have phase := phase_of_resume moves
  have pending := congrArg List.length (pending_resume moves)
  rw [List.length_append] at pending
  have unparsed := unparsed_of_resume moves
  simp only [work, unparsed, List.length_nil]
  have hand : next.pending.length =
      task.pending.length + task.unparsed.length := pending
  omega

theorem work_of_sendDone {reply : Reply} {stop it : Nat}
    (sending : task.point = .sending reply stop it) (code : ErrorCode) :
    (task.moveTo (.sent stop it code)).work + 3 ≤ task.work := by
  obtain ⟨point, readBuffer⟩ := task
  subst sending
  have left : (ReaderTask.pending ⟨.sent stop it code, readBuffer⟩).length ≤
      (decodedFrom readBuffer.bytes stop it).length := by
    cases failing : code.isError with
    | true => simp [pending, failing]
    | false => simp [pending, failing]
  simp only [work, moveTo, unparsed, chunk, phase, List.flatMap_nil,
    List.length_nil]
  simp only [pending, List.length_cons] at left ⊢
  omega

end ReaderTask

private theorem Channel.length_asyncSend {queue next : Channel}
    {reply : Reply} {given : List Reply} {code : ErrorCode}
    (sent : queue.asyncSend reply = some (next, given, code)) :
    next.buffer.length ≤ queue.buffer.length + 1 := by
  unfold Channel.asyncSend at sent
  split at sent
  · cases sent
    exact Nat.le_succ _
  · split at sent
    · cases sent
      exact Nat.le_succ _
    · split at sent
      · cases sent
        exact (List.length_append ..).le
      · cases sent

theorem SubscriberStep.work_lt {state next : Subscriber}
    {event : SubscriberEvent} (step : SubscriberStep state event next)
    (proceeds : state.Proceeds event) : next.work < state.work := by
  cases step with
  | @resume reader task later found moves =>
      have less := ReaderTask.work_of_resume moves
      have sum := Tasks.total_set_add ReaderTask.work found later
      simp only [Subscriber.work, Subscriber.resumed]
      omega
  | @sendDone reader stop it task reply queue given code found sending sent =>
      have less := ReaderTask.work_of_sendDone sending code
      have sum := Tasks.total_set_add ReaderTask.work found
        (task.moveTo (.sent stop it code))
      have buffer := Channel.length_asyncSend sent
      simp only [Subscriber.work]
      omega
  | receive =>
      obtain ⟨reply, rest, buffer⟩ := List.exists_cons_of_ne_nil proceeds
      simp only [Subscriber.work, Channel.asyncReceive, buffer,
        List.length_cons]
      omega
  | _ => cases proceeds

/-! ## Where no step is left -/

/-- No reader goes on, and no call of `read` finds a reply. -/
def Subscriber.Rests (state : Subscriber) : Prop :=
  ∀ event next, ¬Restricted SubscriberStep Subscriber.Proceeds state event next

/-- The reader waits for nothing: it has not begun, takes a connection or has
been told the end of what it waited for. -/
def ReaderPoint.goesOn : ReaderPoint → Bool
  | .spawned => true
  | .connecting => true
  | .read _ => true
  | .sent _ _ _ => true
  | _ => false

theorem ReaderTask.exists_resume (task : ReaderTask) (readMessages : Bool)
    (goesOn : task.point.goesOn = true) :
    ∃ next, task.resume readMessages = some next := by
  obtain ⟨point, readBuffer⟩ := task
  cases point with
  | spawned => exact ⟨_, rfl⟩
  | connecting => exact ⟨_, rfl⟩
  | read result =>
      simp only [resume]
      split
      · exact ⟨_, rfl⟩
      · split
        · exact ⟨_, rfl⟩
        · exact ⟨_, rfl⟩
  | sent stop it code =>
      simp only [resume]
      split
      · exact ⟨_, rfl⟩
      · exact ⟨_, rfl⟩
  | _ => cases goesOn

theorem ReaderTask.resume_eq_none {task : ReaderTask} (readMessages : Bool)
    (halts : task.point.goesOn = false) :
    task.resume readMessages = none := by
  obtain ⟨point, readBuffer⟩ := task
  cases point with
  | reading => rfl
  | sending reply stop it => rfl
  | finished => rfl
  | failed => rfl
  | _ => cases halts

/-- A single reader that waits for a read or has ended takes no step. -/
theorem Subscriber.reader_still {state : Subscriber} {task : ReaderTask}
    (readers : state.readers = [task]) (halts : task.point.goesOn = false)
    (notSending : ∀ reply stop it, task.point ≠ .sending reply stop it)
    (reader : Nat) (next : Subscriber) :
    ¬SubscriberStep state (.resume reader) next ∧
      ¬SubscriberStep state (.sendDone reader) next := by
  have only {other : ReaderTask} (found : state.readers[reader]? = some other) :
      other = task := by
    rw [readers] at found
    exact List.mem_singleton.mp (List.mem_of_getElem? found)
  constructor
  · intro step
    cases step with
    | resume found moves =>
        rw [only found, ReaderTask.resume_eq_none _ halts] at moves
        cases moves
  · intro step
    cases step with
    | sendDone found sending sent =>
        rw [only found] at sending
        exact notSending _ _ _ sending

/-- A reader with replies in hand goes on, unless the queue is full. -/
private theorem ReaderTask.pending_of_rests {state : Subscriber}
    (rests : state.Rests) (room : state.queue.buffer = []) {reader : Nat}
    {task : ReaderTask} (found : state.readers[reader]? = some task) :
    task.pending = [] := by
  cases point : task.point with
  | sending reply stop it =>
      have sent : (state.queue.asyncSend reply).isSome = true := by
        unfold Channel.asyncSend
        split
        · rfl
        · split
          · rfl
          · rw [if_pos (by simp [room, queueCapacity])]
            rfl
      obtain ⟨⟨queue, given, code⟩, taken⟩ := Option.isSome_iff_exists.mp sent
      exact absurd ⟨trivial, .sendDone found point taken⟩
        (rests (.sendDone reader) _)
  | sent stop it code =>
      obtain ⟨next, goes⟩ := task.exists_resume state.readMessages
        (by rw [point]; rfl)
      exact absurd ⟨trivial, .resume found goes⟩ (rests (.resume reader) _)
  | _ => rw [ReaderTask.pending, point]

private theorem ReaderTask.unparsed_of_rests {state : Subscriber}
    (rests : state.Rests) {reader : Nat} {task : ReaderTask}
    (found : state.readers[reader]? = some task) : task.unparsed = [] := by
  cases point : task.point with
  | read result =>
      obtain ⟨next, goes⟩ := task.exists_resume state.readMessages
        (by rw [point]; rfl)
      exact absurd ⟨trivial, .resume found goes⟩ (rests (.resume reader) _)
  | _ =>
      rw [ReaderTask.unparsed, ReaderTask.chunk, point]
      rfl

private theorem Subscriber.buffer_of_rests {state : Subscriber}
    (rests : state.Rests) : state.queue.buffer = [] := by
  cases buffer : state.queue.buffer with
  | nil => rfl
  | cons reply rest =>
      have proceeds : state.Proceeds .receive := by
        rw [Subscriber.Proceeds, buffer]
        exact List.cons_ne_nil reply rest
      exact absurd ⟨proceeds, .receive⟩ (rests .receive _)

/-! ## Everything that was read is delivered -/

/-- The steps of a reader and the calls of `read` are steps of the feed, and
leave the queue open. -/
private theorem Feed.InStep.proceed {feed : Feed} (inStep : feed.InStep)
    (opened : feed.subscriber.queue.closed = false)
    {events : List SubscriberEvent} {later : Subscriber}
    (onward : Run (Restricted SubscriberStep Subscriber.Proceeds)
      feed.subscriber events later) :
    Feed.InStep { feed with subscriber := later } ∧
      later.queue.closed = false := by
  let holds (state : Subscriber) : Prop :=
    Feed.InStep { feed with subscriber := state } ∧ state.queue.closed = false
  have kept : ∀ state event next, state.Proceeds event →
      SubscriberStep state event next → holds state → holds next := by
    rintro state event next proceeds step ⟨stateInStep, stateOpen⟩
    cases step with
    | resume found moves =>
        exact ⟨stateInStep.other (.resume found moves) rfl trivial, stateOpen⟩
    | sendDone found sending sent =>
        have openNext := (Channel.asyncSend_of_open sent stateOpen
          stateInStep.conveys.idle).2.1
        exact ⟨stateInStep.other (.sendDone found sending sent) rfl trivial,
          openNext⟩
    | receive =>
        have same := state.queue.asyncReceive_buffer.2.1
        exact ⟨stateInStep.other .receive rfl trivial, same.trans stateOpen⟩
    | _ => cases proceeds
  exact onward.restricted_invariant ⟨inStep, opened⟩ kept

/-- While the queue is open, the reader and callers of `read` that do not wait
take no more steps than there is work, in whatever order; and where none of
them can take another, every reply that was read whole is delivered. -/
theorem whole_delivered {events : List FeedEvent} {feed : Feed}
    (run : Run (Restricted FeedStep Feed.Aligned) .start events feed)
    (opened : feed.subscriber.queue.closed = false)
    {steps : List SubscriberEvent} {later : Subscriber}
    (onward : Run (Restricted SubscriberStep Subscriber.Proceeds)
      feed.subscriber steps later) :
    steps.length ≤ feed.subscriber.work ∧
      (later.Rests → later.delivered = feed.whole.map Resp.toReply) := by
  constructor
  · exact onward.length_le fun _ _ _ ⟨proceeds, step⟩ => step.work_lt proceeds
  · intro rests
    obtain ⟨inStep, stillOpen⟩ :=
      (Feed.inStep_of_run run).proceed opened onward
    have buffer := Subscriber.buffer_of_rests rests
    have pending : later.readers.flatMap ReaderTask.pending = [] := by
      apply List.flatMap_eq_nil_iff.mpr
      intro task member
      obtain ⟨reader, found⟩ := List.mem_iff_getElem?.mp member
      exact ReaderTask.pending_of_rests rests buffer found
    have unparsed : later.unparsed = [] := by
      apply List.flatMap_eq_nil_iff.mpr
      intro task member
      obtain ⟨reader, found⟩ := List.mem_iff_getElem?.mp member
      exact ReaderTask.unparsed_of_rests rests found
    have complete := inStep.conveys.complete stillOpen
    have decoded := inStep.decoded
    simp only [pending, List.append_nil, Subscriber.conveyed,
      buffer] at complete
    simp only [unparsed, List.append_nil] at decoded
    exact complete.trans decoded

/-- A message that was read goes through the queue to a call of `read`. -/
theorem whole_delivered_onePush :
    ∃ feed later, Run (Restricted FeedStep Feed.Aligned) .start
        [.push onePush.toResp, .other .start, .other (.resume 0),
          .other (.resume 0), .read 0 31] feed ∧
      Run (Restricted SubscriberStep Subscriber.Proceeds) feed.subscriber
        [.resume 0, .sendDone 0, .receive, .resume 0, .resume 0] later ∧
      later.delivered = [onePush.toResp.toReply] := by
  have bytes : (Feed.chunk ⟨[onePush.toResp], 0, .initial⟩ 31).bytes =
      onePush.toResp.encode := rfl
  have ends : AtBoundary [onePush.toResp] (0 + 31) :=
    ⟨[onePush.toResp], [], rfl, rfl⟩
  have run : ∃ feed later, Run (Restricted FeedStep Feed.Aligned) .start
        [.push onePush.toResp, .other .start, .other (.resume 0),
          .other (.resume 0), .read 0 31] feed ∧
      Run (Restricted SubscriberStep Subscriber.Proceeds) feed.subscriber
        [.resume 0, .sendDone 0, .receive, .resume 0, .resume 0] later ∧
      feed.subscriber.queue.closed = false ∧ feed.pushed = [onePush.toResp] ∧
      feed.position = 31 ∧ later.queue.buffer = [] ∧
      ∃ buffer, later.readers = [⟨.reading, buffer⟩] :=
    ⟨_, _, .step ⟨Or.inl onePush.plain, .push⟩
      (.step ⟨Or.inr rfl, .other rfl .start⟩
      (.step ⟨trivial, .other rfl (.resume rfl rfl)⟩
      (.step ⟨trivial, .other rfl (.resume rfl rfl)⟩
      (.step ⟨ends, .read (by decide) (by decide) (by decide)
        (.readDone rfl rfl)⟩ (.refl _))))),
      .step ⟨trivial, .resume rfl (resume_onePush bytes)⟩
      (.step ⟨trivial, .sendDone rfl rfl rfl⟩
      (.step ⟨List.cons_ne_nil _ _, .receive⟩
      (.step ⟨trivial, .resume rfl rfl⟩
      (.step ⟨trivial, .resume rfl rfl⟩ (.refl _))))),
      rfl, rfl, rfl, rfl, _, rfl⟩
  obtain ⟨feed, later, run, onward, opened, pushed, position, empty, buffer,
    readers⟩ := run
  have rests : later.Rests := by
    rintro event next ⟨proceeds, step⟩
    have still (reader : Nat) :=
      Subscriber.reader_still readers rfl nofun reader next
    cases event with
    | resume reader => exact (still reader).1 step
    | sendDone reader => exact (still reader).2 step
    | receive => exact proceeds empty
    | _ => cases proceeds
  have delivered := (whole_delivered run opened onward).2 rests
  have whole : feed.whole = [onePush.toResp] := by
    rw [Feed.whole, pushed, position]
    exact readWhole_all [onePush.toResp]
  rw [whole] at delivered
  exact ⟨feed, later, run, onward, delivered⟩

end RedisClient
