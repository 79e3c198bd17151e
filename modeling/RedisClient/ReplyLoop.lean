import RedisClient.Basis.Loop
import RedisClient.ReplyDecoding

/-!
# The loops over `reply::load_data`

`client::send(connection, commands)` and `redis_subscriber::parse_buffer` cut a
buffer into replies with the same loop and differ in what they do with each
reply.  `replyTurn` is the loop with that difference as a parameter.
-/

namespace RedisClient

open Basis

variable {σ : Type}

/-- One turn of `while (it != end) { it = reply.load_data(it, end); ... }`;
`accept` takes the reply and leaves the loop by returning an error. -/
def replyTurn (accept : σ → Reply → σ × ErrorCode) (memory : Bytes)
    (stop : Nat) : σ × Nat → Execution (Turn (σ × Nat) (σ × ErrorCode × Nat))
  | (state, it) =>
      if it = stop then .returns (.leave (state, .success, it))
      else do
        let (reply, it) ← loadData memory stop it
        let (state, code) := accept state reply
        if code.isError then .returns (.leave (state, code, it))
        else .returns (.again (state, it))

/-- `replies.push_back(reply)` -/
def pushBack (replies : List Reply) (reply : Reply) :
    List Reply × ErrorCode :=
  (replies ++ [reply], .success)

/-- The loop of `client::send(connection, commands)`, with the iterator it
ends at. -/
def readReplies (memory : Bytes) (stop it : Nat) :
    Execution (List Reply × Nat) := do
  let (replies, _, it) ←
    Outcome.loop (replyTurn pushBack memory stop) (memory.length + 1) ([], it)
  .returns (replies, it)

/-- `message_queue_`, a channel seen from its sending side. -/
structure MessageQueue where
  messages : List Reply
  closed : Bool

/-- `boost::asio::experimental::error::channel_closed` -/
def channelClosed : ErrorCode := ⟨.channel, 1⟩

/-- `message_queue_.async_send(ec, reply, tok)` when it completes. -/
def MessageQueue.asyncSend (queue : MessageQueue) (reply : Reply) :
    MessageQueue × ErrorCode :=
  if queue.closed then (queue, channelClosed)
  else ({ queue with messages := queue.messages ++ [reply] }, .success)

/-- `redis_subscriber::parse_buffer` -/
def parseBuffer (queue : MessageQueue) (memory : Bytes) (begin stop : Nat) :
    Execution (MessageQueue × ErrorCode) := do
  let (queue, code, _) ←
    Outcome.loop (replyTurn MessageQueue.asyncSend memory stop)
      (memory.length + 1) (queue, begin)
  .returns (queue, code)

theorem replyTurn_meets (accept : σ → Reply → σ × ErrorCode) (memory : Bytes)
    (stop it : Nat) (state : σ) :
    (replyTurn accept memory stop (state, it)).Meets False fun ended =>
      (it = stop ∧ ended = .leave (state, .success, it)) ∨
        (it ≠ stop ∧ ∃ reply next,
          loadData memory stop it = .returns (reply, next) ∧
            ended =
              if (accept state reply).2.isError then
                .leave ((accept state reply).1, (accept state reply).2, next)
              else .again ((accept state reply).1, next)) := by
  unfold replyTurn
  simp only
  split <;> rename_i atStop
  · exact Or.inl ⟨atStop, rfl⟩
  · cases run : loadData memory stop it with
    | returns loaded =>
        obtain ⟨reply, next⟩ := loaded
        simp only [Outcome.returns_bind]
        split <;> rename_i refused
        · exact Or.inr ⟨atStop, reply, next, rfl, (if_pos refused).symm⟩
        · exact Or.inr ⟨atStop, reply, next, rfl, (if_neg refused).symm⟩
    | throws exception => trivial
    | faults position => trivial
    | exhausted => exact loadData_ne_exhausted memory stop it run

/-! ## Termination -/

/-- A call that returns has read a byte of the memory, and it goes forward or
to `end`. -/
theorem loadData_progress {memory : Bytes} {stop it : Nat}
    (notStop : it ≠ stop) {reply : Reply} {next : Nat}
    (run : loadData memory stop it = .returns (reply, next)) :
    it < memory.length ∧ (next = stop ∨ it < next) := by
  have parsed := parseReply_of_loadData run
  refine ⟨?_, parseReply_advances memory stop it _ parsed⟩
  by_contra outside
  rw [parseReply_of_le (by omega) notStop] at parsed
  cases parsed

/-- What is left of the memory, unless the loop is at its end. -/
private def left (memory : Bytes) (stop : Nat) (state : σ × Nat) : Nat :=
  if state.2 = stop then 0 else memory.length - state.2

/-- Whatever the buffer holds, the loops take at most one turn for each byte
behind the cursor, and one for the test that ends them. -/
theorem replyLoop_ne_exhausted
    (accept : σ → Reply → σ × ErrorCode) (memory : Bytes) (stop : Nat)
    (state : σ × Nat) {fuel : Nat} (enough : memory.length - state.2 < fuel) :
    Outcome.loop (replyTurn accept memory stop) fuel state ≠ .exhausted := by
  apply Outcome.loop_ne_exhausted (left memory stop)
  · intro ⟨state, it⟩
    apply (replyTurn_meets accept memory stop it state).weaken id
    rintro ended (⟨atStop, rfl⟩ | ⟨notStop, reply, next, run, rfl⟩)
    · trivial
    · split
      · trivial
      · have progress := loadData_progress notStop run
        simp only [Turn.Keeps, left, notStop, if_false]
        split <;> omega
  · simp only [left]
    split <;> omega

theorem replyLoop_of_turns {accept : σ → Reply → σ × ErrorCode}
    {memory : Bytes} {stop it count : Nat} {state final : σ}
    (turns : Outcome.Turns (replyTurn accept memory stop) count (state, it)
      (final, stop)) :
    Outcome.loop (replyTurn accept memory stop) (memory.length + 1)
      (state, it) = .returns (final, .success, stop) := by
  have left : replyTurn accept memory stop (final, stop) =
      .returns (.leave (final, .success, stop)) := by
    simp [replyTurn]
  have ends := turns.loop_eq left (memory.length + 1)
  have enough : memory.length - it < memory.length + 1 :=
    Nat.lt_succ_of_le (Nat.sub_le _ _)
  split at ends
  · exact absurd ends
      (replyLoop_ne_exhausted accept memory stop (state, it) enough)
  · exact ends

/-! ## Buffers of complete replies -/

/-- What becomes of a state that is handed the replies in turn, if it accepts
every one. -/
def acceptAll (accept : σ → Reply → σ × ErrorCode) :
    σ → List Reply → Option σ
  | state, [] => some state
  | state, reply :: replies =>
      if (accept state reply).2.isError then none
      else acceptAll accept (accept state reply).1 replies

theorem acceptAll_pushBack (replies more : List Reply) :
    acceptAll pushBack replies more = some (replies ++ more) := by
  induction more generalizing replies with
  | nil => simp [acceptAll]
  | cons reply more induction => simp [acceptAll, pushBack, induction]

theorem acceptAll_asyncSend {queue : MessageQueue}
    (opened : queue.closed = false) (more : List Reply) :
    acceptAll MessageQueue.asyncSend queue more =
      some { queue with messages := queue.messages ++ more } := by
  induction more generalizing queue with
  | nil => simp [acceptAll]
  | cons reply more induction =>
      simp [acceptAll, MessageQueue.asyncSend, opened, induction]

theorem SpellsAll.turns {accept : σ → Reply → σ × ErrorCode}
    {items : List Resp} {bytes : Bytes} (spelled : SpellsAll items bytes)
    (ordinary : ∀ item ∈ items, item.Ordinary)
    {memory rest : Bytes} {stop it : Nat}
    (found : memory.drop it = bytes ++ rest)
    (inside : it + bytes.length ≤ stop) {state final : σ}
    (accepted : acceptAll accept state (items.map Resp.toReply) =
      some final) :
    Outcome.Turns (replyTurn accept memory stop) items.length (state, it)
      (final, it + bytes.length) := by
  induction items generalizing bytes it state with
  | nil =>
      cases spelled
      cases accepted
      exact .refl _
  | cons item items induction =>
      cases spelled with
      | @cons _ _ headBytes tailBytes spelledHead spelledTail =>
          rw [List.append_assoc] at found
          rw [List.length_append] at inside
          simp only [List.map_cons, acceptAll] at accepted
          split at accepted
          · cases accepted
          · rename_i headAccepted
            have headPos := List.length_pos_iff.mpr spelledHead.ne_nil
            have notStop : it ≠ stop := by omega
            have headInside : it + headBytes.length ≤ stop := by omega
            have tailInside :
                it + headBytes.length + tailBytes.length ≤ stop := by
              omega
            have itemOrdinary := ordinary item (by simp)
            have headRun := spelledHead.loadData_eq itemOrdinary.readToEnd
              found headInside
            rw [itemOrdinary.reading_eq] at headRun
            have taken : replyTurn accept memory stop (state, it) =
                .returns (.again ((accept state item.toReply).1,
                  it + headBytes.length)) := by
              simp only [replyTurn, notStop, if_false, headRun,
                Outcome.returns_bind]
              exact if_neg headAccepted
            have tailTurns := induction spelledTail
              (fun later member => ordinary later (by simp [member]))
              (drop_add_of_append found) tailInside accepted
            rw [List.length_append, ← Nat.add_assoc]
            exact .step taken tailTurns

theorem SpellsAll.three_mul_length_le {items : List Resp} {bytes : Bytes}
    (spelled : SpellsAll items bytes) : 3 * items.length ≤ bytes.length := by
  induction items generalizing bytes with
  | nil => exact Nat.zero_le _
  | cons item items induction =>
      cases spelled with
      | cons spelledHead spelledTail =>
          have headLe := spelledHead.three_le_length
          have tailLe := induction spelledTail
          rw [List.length_append, List.length_cons]
          omega

/-- On a buffer of complete replies the loop leaves after one turn for each of
them, neither earlier nor later. -/
theorem SpellsAll.loop_eq {accept : σ → Reply → σ × ErrorCode}
    {items : List Resp} {bytes : Bytes} (spelled : SpellsAll items bytes)
    (ordinary : ∀ item ∈ items, item.Ordinary) (beyond : Bytes)
    {state final : σ}
    (accepted : acceptAll accept state (items.map Resp.toReply) = some final)
    (fuel : Nat) :
    Outcome.loop (replyTurn accept (bytes ++ beyond) bytes.length) fuel
        (state, 0) =
      if fuel ≤ items.length then .exhausted
      else .returns (final, .success, bytes.length) := by
  have found : (bytes ++ beyond).drop 0 = bytes ++ beyond := rfl
  have inside : 0 + bytes.length ≤ bytes.length := by omega
  have turns := spelled.turns ordinary found inside accepted
  rw [Nat.zero_add] at turns
  apply turns.loop_eq
  simp [replyTurn]

theorem SpellsAll.readReplies_eq {items : List Resp} {bytes : Bytes}
    (spelled : SpellsAll items bytes)
    (ordinary : ∀ item ∈ items, item.Ordinary) (beyond : Bytes) :
    readReplies (bytes ++ beyond) bytes.length 0 =
      .returns (items.map Resp.toReply, bytes.length) := by
  have accepted := acceptAll_pushBack [] (items.map Resp.toReply)
  have countLe := spelled.three_mul_length_le
  have enough : ¬(bytes ++ beyond).length + 1 ≤ items.length := by
    rw [List.length_append]
    omega
  rw [readReplies, spelled.loop_eq ordinary beyond accepted, if_neg enough]
  rfl

theorem SpellsAll.parseBuffer_eq {items : List Resp} {bytes : Bytes}
    (spelled : SpellsAll items bytes)
    (ordinary : ∀ item ∈ items, item.Ordinary) (beyond : Bytes)
    {queue : MessageQueue} (opened : queue.closed = false) :
    parseBuffer queue (bytes ++ beyond) 0 bytes.length =
      .returns ({ queue with
        messages := queue.messages ++ items.map Resp.toReply },
        .success) := by
  have accepted := acceptAll_asyncSend opened (items.map Resp.toReply)
  have countLe := spelled.three_mul_length_le
  have enough : ¬(bytes ++ beyond).length + 1 ≤ items.length := by
    rw [List.length_append]
    omega
  rw [parseBuffer, spelled.loop_eq ordinary beyond accepted, if_neg enough]
  rfl

/-- Bytes behind complete replies are not passed over: at least one more
message is sent before the end is reached. -/
theorem SpellsAll.lt_of_parseBuffer {items : List Resp} {bytes cut : Bytes}
    (spelled : SpellsAll items bytes)
    (ordinary : ∀ item ∈ items, item.Ordinary) (nonempty : cut ≠ [])
    (beyond : Bytes) {queue later : MessageQueue} {code : ErrorCode}
    (opened : queue.closed = false)
    (run : parseBuffer queue (bytes ++ cut ++ beyond) 0
      (bytes ++ cut).length = .returns (later, code)) :
    queue.messages.length + items.length < later.messages.length := by
  obtain ⟨⟨final, finalCode, next⟩, loopRun, same⟩ :=
    Outcome.bind_eq_returns_iff.mp run
  cases same
  have found : (bytes ++ cut ++ beyond).drop 0 = bytes ++ (cut ++ beyond) := by
    simp
  have inside : 0 + bytes.length ≤ (bytes ++ cut).length := by simp
  have turns := spelled.turns ordinary found inside
    (acceptAll_asyncSend opened (items.map Resp.toReply))
  have countLe := spelled.three_mul_length_le
  obtain ⟨fuel, enough⟩ : ∃ fuel, (bytes ++ cut ++ beyond).length + 1 =
      items.length + fuel :=
    ⟨(bytes ++ cut ++ beyond).length + 1 - items.length, by
      simp only [List.length_append]
      omega⟩
  rw [enough, turns.loop_add, Nat.zero_add] at loopRun
  -- a message more than the items is counted until the loop moves on
  let holds : MessageQueue × Nat → Prop := fun (current, it) =>
    current.closed = false ∧
      (queue.messages.length + items.length < current.messages.length ∨
        it ≠ (bytes ++ cut).length ∧
          queue.messages.length + items.length ≤ current.messages.length)
  let ends : MessageQueue × ErrorCode × Nat → Prop := fun (current, _) =>
    queue.messages.length + items.length < current.messages.length
  have initially : holds ({ queue with
      messages := queue.messages ++ items.map Resp.toReply },
      bytes.length) := by
    refine ⟨opened, Or.inr ⟨?_, by simp⟩⟩
    have cutPos := List.length_pos_iff.mpr nonempty
    rw [List.length_append]
    omega
  have kept : ∀ state, holds state →
      (replyTurn MessageQueue.asyncSend (bytes ++ cut ++ beyond)
        (bytes ++ cut).length state).Meets True (Turn.Keeps holds ends) := by
    intro ⟨current, it⟩ ⟨isOpen, counted⟩
    apply (replyTurn_meets _ _ _ it current).weaken False.elim
    rintro ended (⟨atStop, rfl⟩ | ⟨notStop, reply, next, loaded, rfl⟩)
    · rcases counted with more | ⟨notStop, -⟩
      · exact more
      · exact absurd atStop notStop
    · simp only [MessageQueue.asyncSend, isOpen, Bool.false_eq_true, if_false,
        ErrorCode.isError_success]
      refine ⟨rfl, Or.inl ?_⟩
      rw [List.length_append, List.length_singleton]
      rcases counted with more | ⟨-, enoughSent⟩ <;> omega
  exact (Outcome.loop_invariant kept _ initially).of_returns loopRun

/-- Both loops split the encodings of ordinary replies exactly: they end with
the iterator at `end` after one turn for each reply, and each reply is the one
that was encoded. -/
theorem replyLoop_encodeAll
    {items : List Resp} (ordinary : ∀ item ∈ items, item.Ordinary)
    (fits : (Resp.encodeAll items).length ≤ maxSize) (beyond : Bytes)
    {queue : MessageQueue} (opened : queue.closed = false) :
    let stop := (Resp.encodeAll items).length
    let memory := Resp.encodeAll items ++ beyond
    let delivered : MessageQueue := { queue with
      messages := queue.messages ++ items.map Resp.toReply }
    (∀ fuel, Outcome.loop (replyTurn pushBack memory stop) fuel ([], 0) =
      if fuel ≤ items.length then .exhausted
      else .returns (items.map Resp.toReply, .success, stop)) ∧
    (∀ fuel, Outcome.loop (replyTurn MessageQueue.asyncSend memory stop) fuel
        (queue, 0) =
      if fuel ≤ items.length then .exhausted
      else .returns (delivered, .success, stop)) ∧
    readReplies memory stop 0 = .returns (items.map Resp.toReply, stop) ∧
    parseBuffer queue memory 0 stop = .returns (delivered, .success) := by
  have spelled := Resp.spellsAll_encodeAll fits
  have pushed := acceptAll_pushBack [] (items.map Resp.toReply)
  have sent := acceptAll_asyncSend opened (items.map Resp.toReply)
  exact ⟨spelled.loop_eq ordinary beyond pushed,
    spelled.loop_eq ordinary beyond sent,
    spelled.readReplies_eq ordinary beyond,
    spelled.parseBuffer_eq ordinary beyond opened⟩

/-- `+P\r\n-N\r\n$-1\r\n` -/
private def errorBetween : List Resp :=
  [.simple ⟨[80], by decide⟩, .error ⟨[78], by decide⟩, .nullBulk]

private theorem errorBetween_ordinary :
    ∀ item ∈ errorBetween, item.Ordinary := by
  intro item member
  simp only [errorBetween, List.mem_cons, List.not_mem_nil, or_false]
    at member
  rcases member with rfl | rfl | rfl
  · exact Or.inl ⟨rfl, rfl⟩
  · exact Or.inr ⟨_, rfl⟩
  · exact Or.inl ⟨rfl, rfl⟩

theorem replyLoop_encodeAll_errorBetween :
    readReplies (Resp.encodeAll errorBetween ++ [0]) 13 0 =
      .returns (errorBetween.map Resp.toReply, 13) :=
  (replyLoop_encodeAll errorBetween_ordinary (by decide) [0]
    (rfl : (⟨[], false⟩ : MessageQueue).closed = false)).2.2.1

end RedisClient
