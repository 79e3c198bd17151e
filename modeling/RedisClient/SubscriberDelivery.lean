import RedisClient.Basis.Run
import RedisClient.RespPrefix
import RedisClient.Subscriber

/-!
# Delivery of pushed replies

The server pushes replies, and the reader of a subscriber reads the stream of
their encodings in chunks of any size.  The queue shows the pushed replies in
order as long as every chunk ends where a reply ends, and no longer: a chunk
that ends inside a reply puts something else into the queue or stops the
reader.
-/

namespace RedisClient

open Basis

/-- The replies pushed by the server, the number of bytes of their encodings
that were read, and the reader, whose turns may throw or fault. -/
structure Delivery where
  pushed : List Resp
  position : Nat
  reader : Execution Reader

def Delivery.start : Delivery := ⟨[], 0, .returns .start⟩

inductive DeliveryEvent where
  | push (reply : Resp)
  | read (count : Nat)

/-- The bytes that were sent and not yet read. -/
def Delivery.unread (delivery : Delivery) : Bytes :=
  (Resp.encodeAll delivery.pushed).drop delivery.position

/-- The chunk a read of the given size gives. -/
def Delivery.chunk (delivery : Delivery) (count : Nat) : Chunk :=
  ⟨delivery.unread.take (min count bufferSize), by
    rw [List.length_take]
    omega⟩

def Delivery.next (delivery : Delivery) : DeliveryEvent → Delivery
  | .push reply => { delivery with pushed := delivery.pushed ++ [reply] }
  | .read count =>
      { delivery with
        position := delivery.position + count
        reader := delivery.reader >>= fun reader =>
          reader.turn ⟨.success, delivery.chunk count⟩ }

/-- A read gives at least one byte, and no more than there are and than were
asked for; and the reader has to be in its loop. -/
def Delivery.Permits (delivery : Delivery) : DeliveryEvent → Prop
  | .push _ => True
  | .read count =>
      0 < count ∧ count ≤ bufferSize ∧ count ≤ delivery.unread.length ∧
        ∃ reader, delivery.reader = .returns reader ∧ reader.running = true

def deliveryStep (delivery : Delivery) (event : DeliveryEvent)
    (next : Delivery) : Prop :=
  delivery.Permits event ∧ next = delivery.next event

/-- The replies all of whose bytes are among the first `position` ones. -/
def readWhole : List Resp → Nat → List Resp
  | [], _ => []
  | reply :: replies, position =>
      if reply.encode.length ≤ position then
        reply :: readWhole replies (position - reply.encode.length)
      else []

/-- The queue holds exactly the replies that were read whole, in order. -/
def Delivery.InOrder (delivery : Delivery) : Prop :=
  ∃ reader, delivery.reader = .returns reader ∧
    reader.queue.messages =
      (readWhole delivery.pushed delivery.position).map Resp.toReply

/-- The position is where some reply ends, or at the start. -/
def AtBoundary (pushed : List Resp) (position : Nat) : Prop :=
  ∃ done behind, pushed = done ++ behind ∧
    position = (Resp.encodeAll done).length

/-- The server pushes replies that are read as they were sent, and every chunk
ends where a reply ends. -/
def Delivery.Aligned (delivery : Delivery) : DeliveryEvent → Prop
  | .push reply => reply.Ordinary
  | .read count => AtBoundary delivery.pushed (delivery.position + count)

theorem readWhole_append (done behind : List Resp) (extra : Nat) :
    readWhole (done ++ behind) ((Resp.encodeAll done).length + extra) =
      done ++ readWhole behind extra := by
  induction done with
  | nil => simp [Resp.encodeAll]
  | cons reply done induction =>
      have covered : reply.encode.length ≤
          (Resp.encodeAll (reply :: done)).length + extra := by
        rw [Resp.encodeAll, List.length_append]
        omega
      have rest : (Resp.encodeAll (reply :: done)).length + extra -
          reply.encode.length = (Resp.encodeAll done).length + extra := by
        rw [Resp.encodeAll, List.length_append]
        omega
      rw [List.cons_append, readWhole, if_pos covered, rest, induction,
        List.cons_append]

theorem readWhole_of_lt {reply : Resp} {extra : Nat}
    (inside : extra < reply.encode.length) (behind : List Resp) :
    readWhole (reply :: behind) extra = [] := by
  rw [readWhole, if_neg (by omega)]

theorem readWhole_zero (replies : List Resp) : readWhole replies 0 = [] := by
  cases replies with
  | nil => rfl
  | cons reply behind =>
      exact readWhole_of_lt (List.length_pos_iff.mpr reply.encode_ne_nil)
        behind

theorem readWhole_all (pushed : List Resp) :
    readWhole pushed (Resp.encodeAll pushed).length = pushed := by
  have all := readWhole_append pushed [] 0
  simpa [readWhole] using all

/-- The state of a delivery between chunks that end where replies end. -/
structure Delivery.Between (delivery : Delivery) (done behind : List Resp)
    (reader : Reader) : Prop where
  pushed : delivery.pushed = done ++ behind
  position : delivery.position = (Resp.encodeAll done).length
  ordinary : ∀ reply ∈ delivery.pushed, reply.Ordinary
  current : delivery.reader = .returns reader
  running : reader.running = true
  opened : reader.queue.closed = false
  messages : reader.queue.messages = done.map Resp.toReply

theorem Delivery.Between.unread {delivery : Delivery}
    {done behind : List Resp} {reader : Reader}
    (between : delivery.Between done behind reader) :
    delivery.unread = Resp.encodeAll behind := by
  rw [Delivery.unread, between.pushed, between.position,
    Resp.encodeAll_append, List.drop_left]

theorem Delivery.Between.inOrder {delivery : Delivery}
    {done behind : List Resp} {reader : Reader}
    (between : delivery.Between done behind reader) : delivery.InOrder := by
  refine ⟨reader, between.current, ?_⟩
  have whole := readWhole_append done behind 0
  rw [Nat.add_zero, readWhole_zero, List.append_nil] at whole
  rw [between.messages, between.pushed, between.position, whole]

theorem Delivery.start_between :
    Delivery.start.Between [] [] Reader.start where
  pushed := rfl
  position := rfl
  ordinary := by simp [Delivery.start]
  current := rfl
  running := rfl
  opened := rfl
  messages := rfl

theorem Delivery.Between.push {delivery : Delivery}
    {done behind : List Resp} {reader : Reader}
    (between : delivery.Between done behind reader) {reply : Resp}
    (ordinary : reply.Ordinary) :
    (delivery.next (.push reply)).Between done (behind ++ [reply]) reader where
  pushed := by simp [Delivery.next, between.pushed]
  position := between.position
  ordinary := by
    intro other member
    rcases List.mem_append.mp member with earlier | last
    · exact between.ordinary other earlier
    · rw [List.mem_singleton.mp last]
      exact ordinary
  current := between.current
  running := between.running
  opened := between.opened
  messages := between.messages

/-- A chunk that ends where a reply ends consists of complete replies. -/
theorem group_of_boundary {done behind : List Resp} {count : Nat}
    (positive : 0 < count)
    (boundary : AtBoundary (done ++ behind)
      ((Resp.encodeAll done).length + count)) :
    ∃ group rest, behind = group ++ rest ∧
      count = (Resp.encodeAll group).length := by
  obtain ⟨other, rest, split, position⟩ := boundary
  rcases List.append_eq_append_iff.mp split with
    ⟨group, rfl, behindSplit⟩ | ⟨group, doneSplit, restSplit⟩
  · rw [Resp.encodeAll_append, List.length_append] at position
    exact ⟨group, rest, behindSplit, by omega⟩
  · have lengths := congrArg (fun replies => (Resp.encodeAll replies).length)
      doneSplit
    simp only [Resp.encodeAll_append, List.length_append] at lengths
    omega

private theorem Delivery.Between.chunk_eq {delivery : Delivery}
    {done behind : List Resp} {reader : Reader}
    (between : delivery.Between done behind reader) {count : Nat}
    (small : count ≤ bufferSize) :
    (delivery.chunk count).bytes = (Resp.encodeAll behind).take count := by
  simp [Delivery.chunk, between.unread, Nat.min_eq_left small]

private theorem Delivery.reader_read {delivery : Delivery} {reader : Reader}
    (current : delivery.reader = .returns reader) {count : Nat} {bytes : Bytes}
    (chunk : (delivery.chunk count).bytes = bytes) (nonempty : bytes ≠ []) :
    (delivery.next (.read count)).reader =
      (parseBuffer reader.queue
        (bytes ++ reader.readBuffer.bytes.drop bytes.length) 0
        bytes.length >>= fun (queue, err) =>
          .returns ⟨reader.readBuffer.fill (delivery.chunk count), queue,
            !err.isError⟩) := by
  subst chunk
  simp only [Delivery.next, current, Outcome.returns_bind]
  exact reader.turn_of_chunk nonempty

private theorem Delivery.Between.group {delivery : Delivery}
    {done group behind : List Resp} {reader : Reader}
    (between : delivery.Between done (group ++ behind) reader)
    (inBuffer : (Resp.encodeAll group).length ≤ bufferSize) :
    SpellsAll group (Resp.encodeAll group) ∧
      ∀ reply ∈ group, reply.Ordinary := by
  constructor
  · exact Resp.spellsAll_encodeAll (inBuffer.trans (by decide))
  · intro reply member
    apply between.ordinary
    rw [between.pushed]
    simp [member]

theorem Delivery.Between.read {delivery : Delivery}
    {done group behind : List Resp} {reader : Reader}
    (between : delivery.Between done (group ++ behind) reader) {count : Nat}
    (positive : 0 < count) (small : count ≤ bufferSize)
    (whole : count = (Resp.encodeAll group).length) :
    ∃ next, (delivery.next (.read count)).Between (done ++ group) behind
      next := by
  have chunk : (delivery.chunk count).bytes = Resp.encodeAll group := by
    rw [between.chunk_eq small, Resp.encodeAll_append, whole, List.take_left]
  have nonempty : Resp.encodeAll group ≠ [] := by
    rw [← List.length_pos_iff]
    omega
  obtain ⟨spelled, groupOrdinary⟩ := between.group (whole ▸ small)
  have parsed := spelled.parseBuffer_eq groupOrdinary
    (reader.readBuffer.bytes.drop (Resp.encodeAll group).length)
    between.opened
  have turned := Delivery.reader_read between.current chunk nonempty
  rw [parsed, Outcome.returns_bind] at turned
  refine ⟨⟨reader.readBuffer.fill (delivery.chunk count),
    { reader.queue with
      messages := reader.queue.messages ++ group.map Resp.toReply }, true⟩, ?_⟩
  exact {
    pushed := by
      rw [List.append_assoc]
      exact between.pushed
    position := by
      rw [Resp.encodeAll_append, List.length_append, ← whole,
        ← between.position]
      rfl
    ordinary := between.ordinary
    current := turned
    running := rfl
    opened := between.opened
    messages := by simp [between.messages] }

/-- A chunk that ends inside a reply spoils the order. -/
theorem Delivery.Between.not_inOrder {delivery : Delivery}
    {done behind : List Resp} {reader : Reader}
    (between : delivery.Between done behind reader) {count : Nat}
    (permitted : delivery.Permits (.read count))
    (inside : ¬AtBoundary delivery.pushed (delivery.position + count)) :
    ¬(delivery.next (.read count)).InOrder := by
  obtain ⟨positive, small, available, -⟩ := permitted
  rw [between.unread] at available
  have chunkPrefix := List.take_prefix count (Resp.encodeAll behind)
  have length : ((Resp.encodeAll behind).take count).length = count := by
    rw [List.length_take, Nat.min_eq_left available]
  have proper : (Resp.encodeAll behind).take count ≠
      Resp.encodeAll behind := by
    intro whole
    apply inside
    refine ⟨done ++ behind, [], by simp [between.pushed], ?_⟩
    rw [whole] at length
    rw [between.position, Resp.encodeAll_append, List.length_append, length]
  obtain ⟨group, item, rest, cut, rfl, chunk, cutPrefix, cutProper⟩ :=
    prefix_encodeAll chunkPrefix proper
  have chunkLength := congrArg List.length chunk
  rw [length, List.length_append] at chunkLength
  have cutNonempty : cut ≠ [] := by
    rintro rfl
    apply inside
    refine ⟨done ++ group, item :: rest, by simp [between.pushed], ?_⟩
    rw [between.position, Resp.encodeAll_append, List.length_append]
    simpa using chunkLength
  rintro ⟨after, current, messages⟩
  -- the reader is left with the complete replies and something else
  have bytes := between.chunk_eq small
  rw [chunk] at bytes
  have nonempty : Resp.encodeAll group ++ cut ≠ [] := by simp [cutNonempty]
  rw [Delivery.reader_read between.current bytes nonempty] at current
  obtain ⟨⟨queue, code⟩, parsed, same⟩ :=
    Outcome.bind_eq_returns_iff.mp current
  cases same
  obtain ⟨spelled, groupOrdinary⟩ := between.group (by omega)
  have more :=
    spelled.lt_of_parseBuffer groupOrdinary cutNonempty _ between.opened parsed
  have whole : readWhole delivery.pushed (delivery.position + count) =
      done ++ group := by
    have cutShorter : cut.length < item.encode.length := by
      have lengthLe := cutPrefix.length_le
      have lengthNe : cut.length ≠ item.encode.length :=
        fun same => cutProper (cutPrefix.eq_of_length same)
      omega
    rw [between.pushed, between.position, chunkLength, readWhole_append,
      readWhole_append, readWhole_of_lt cutShorter, List.append_nil]
  simp only [Delivery.next, whole] at messages
  have lengths := congrArg List.length messages
  rw [between.messages] at more
  simp only [List.length_map, List.length_append] at lengths more
  omega

theorem Delivery.between_of_run {events : List DeliveryEvent}
    {delivery : Delivery}
    (run : Run (Restricted deliveryStep Delivery.Aligned) Delivery.start events
      delivery) :
    ∃ done behind reader, delivery.Between done behind reader := by
  apply run.restricted_invariant ⟨[], [], .start, Delivery.start_between⟩
  rintro delivery event next aligned ⟨permitted, rfl⟩
    ⟨done, behind, reader, between⟩
  cases event with
  | push reply => exact ⟨_, _, _, between.push aligned⟩
  | read count =>
      obtain ⟨positive, small, available, -⟩ := permitted
      have boundary : AtBoundary delivery.pushed
        (delivery.position + count) := aligned
      rw [between.pushed, between.position] at boundary
      obtain ⟨group, rest, rfl, whole⟩ :=
        group_of_boundary positive boundary
      obtain ⟨after, read⟩ := between.read positive small whole
      exact ⟨_, _, _, read⟩

/-- In every run in which each chunk ends where a reply ends, the queue holds
the pushed replies that were read, all of them once everything is read; and a
further read keeps this if and only if it ends where a reply ends. -/
theorem delivered_inOrder {events : List DeliveryEvent} {delivery : Delivery}
    (run : Run (Restricted deliveryStep Delivery.Aligned) Delivery.start events
      delivery) :
    delivery.InOrder ∧
      (delivery.position = (Resp.encodeAll delivery.pushed).length →
        ∃ reader, delivery.reader = .returns reader ∧
          reader.queue.messages = delivery.pushed.map Resp.toReply) ∧
      ∀ count, delivery.Permits (.read count) →
        ((delivery.next (.read count)).InOrder ↔
          delivery.Aligned (.read count)) := by
  obtain ⟨done, behind, reader, between⟩ := Delivery.between_of_run run
  refine ⟨between.inOrder, ?_, ?_⟩
  · intro everything
    obtain ⟨reader, current, messages⟩ := between.inOrder
    rw [everything, readWhole_all] at messages
    exact ⟨reader, current, messages⟩
  · intro count permitted
    constructor
    · intro inOrder
      by_contra inside
      exact between.not_inOrder permitted inside inOrder
    · intro boundary
      obtain ⟨positive, small, available, -⟩ := permitted
      have aligned : AtBoundary delivery.pushed
        (delivery.position + count) := boundary
      rw [between.pushed, between.position] at aligned
      obtain ⟨group, rest, rfl, whole⟩ := group_of_boundary positive aligned
      obtain ⟨after, read⟩ := between.read positive small whole
      exact read.inOrder

/-- The message `+AB\r\n`. -/
private def shortMessage : Resp := .simple ⟨[65, 66], by decide⟩

theorem delivered_inOrder_shortMessage :
    ((Delivery.start.next (.push shortMessage)).next (.read 5)).InOrder := by
  have pushed : (Delivery.start.next (.push shortMessage)).Aligned (.read 5) :=
    ⟨[shortMessage], [], rfl, rfl⟩
  have run : Run (Restricted deliveryStep Delivery.Aligned) Delivery.start
      [.push shortMessage, .read 5]
      ((Delivery.start.next (.push shortMessage)).next (.read 5)) :=
    .step ⟨Or.inl ⟨rfl, rfl⟩, trivial, rfl⟩
      (.step ⟨pushed, ⟨by decide, by decide, by decide, _, rfl, rfl⟩, rfl⟩
        (.refl _))
  exact (delivered_inOrder run).1

/-- Two bytes `+A` in front of zeros are taken for a complete reply, and the
zero two positions behind them for another. -/
private theorem parseBuffer_front (rest : Bytes) :
    parseBuffer ⟨[], false⟩ (43 :: 65 :: 0 :: 0 :: 0 :: rest) 0 2 =
      .returns (⟨[⟨.simpleString [65], .success⟩, ⟨.nil, .success⟩], false⟩,
        .success) := by
  rfl

/-- The remaining `B\r\n` is taken for a reply of unknown type. -/
private theorem parseBuffer_back (messages : List Reply) (rest : Bytes) :
    parseBuffer ⟨messages, false⟩ (66 :: 13 :: 10 :: rest) 0 3 =
      .returns (⟨messages ++ [⟨.nil, .success⟩], false⟩, .success) := rfl

private def pushedShort : Delivery :=
  Delivery.start.next (.push shortMessage)

/-- What stands in the queue behind the first two bytes. -/
private def queuedFront : List Reply :=
  [⟨.simpleString [65], .success⟩, ⟨.nil, .success⟩]

private theorem unread_pushedShort :
    pushedShort.unread = [43, 65, 66, 13, 10] := rfl

private theorem unread_pushedShort_back :
    (pushedShort.next (.read 2)).unread = [66, 13, 10] := rfl

private theorem reader_pushedShort_front :
    ∃ buffer, (pushedShort.next (.read 2)).reader =
      .returns ⟨buffer, ⟨queuedFront, false⟩, true⟩ := by
  have current : pushedShort.reader = .returns .start := rfl
  have chunk : (pushedShort.chunk 2).bytes = [43, 65] := by
    simp [Delivery.chunk, unread_pushedShort, bufferSize]
  have zeros : Reader.start.readBuffer.bytes.drop 2 =
      0 :: 0 :: 0 :: List.replicate 4091 0 := by
    simp only [Reader.start, ReadBuffer.zeros, bufferSize, List.drop_replicate]
    rfl
  have read := Delivery.reader_read current chunk (by decide)
  have parsed := parseBuffer_front (List.replicate 4091 0)
  rw [← zeros] at parsed
  exact ⟨_, read.trans (congrArg (· >>= _) parsed)⟩

private theorem reader_pushedShort_back :
    ∃ buffer, ((pushedShort.next (.read 2)).next (.read 3)).reader =
      .returns ⟨buffer, ⟨queuedFront ++ [⟨.nil, .success⟩], false⟩, true⟩ := by
  obtain ⟨buffer, current⟩ := reader_pushedShort_front
  have chunk : ((pushedShort.next (.read 2)).chunk 3).bytes = [66, 13, 10] := by
    simp [Delivery.chunk, unread_pushedShort_back, bufferSize]
  have read := Delivery.reader_read current chunk (by decide)
  have parsed := parseBuffer_back queuedFront (buffer.bytes.drop 3)
  exact ⟨_, read.trans (congrArg (· >>= _) parsed)⟩

/-- One message in two chunks, all of it read: the queue holds three replies
and none of them is the message. -/
theorem not_inOrder_shortMessage :
    ∃ delivery, Run deliveryStep Delivery.start
        [.push shortMessage, .read 2, .read 3] delivery ∧
      delivery.pushed = [shortMessage] ∧ delivery.unread = [] ∧
      shortMessage.Ordinary ∧ ¬delivery.InOrder ∧
      ∃ reader, delivery.reader = .returns reader ∧
        reader.queue.messages =
          [⟨.simpleString [65], .success⟩, ⟨.nil, .success⟩,
            ⟨.nil, .success⟩] := by
  obtain ⟨front, reader_front⟩ := reader_pushedShort_front
  obtain ⟨back, reader_back⟩ := reader_pushedShort_back
  refine ⟨(pushedShort.next (.read 2)).next (.read 3), ?_, rfl, rfl,
    Or.inl ⟨rfl, rfl⟩, ?_, _, reader_back, rfl⟩
  · refine .step ⟨trivial, rfl⟩ (.step ⟨?_, rfl⟩ (.step ⟨?_, rfl⟩ (.refl _)))
    · exact ⟨by decide, by decide, by decide, _, rfl, rfl⟩
    · exact ⟨by decide, by decide, by decide, _, reader_front, rfl⟩
  · rintro ⟨reader, current, messages⟩
    rw [reader_back] at current
    cases current
    have lengths : 3 = 1 := congrArg List.length messages
    exact absurd lengths (by decide)

end RedisClient
