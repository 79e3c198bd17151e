import RedisClient.ReplyLoop
import RedisClient.Socket

/-!
# The reader of a subscriber

`redis_subscriber::read_messages` fills one buffer again and again and hands
each chunk to `parse_buffer` on its own.  Nothing but the queue is carried from
one chunk to the next.
-/

namespace RedisClient

open Basis

/-- The state of `read_messages` between two reads; `running` is false behind
the loop. -/
structure Reader where
  readBuffer : ReadBuffer
  queue : MessageQueue
  running : Bool

def Reader.start : Reader := ⟨ReadBuffer.zeros, ⟨[], false⟩, true⟩

/-- One turn of the loop of `redis_subscriber::read_messages`, from its read to
its end. -/
def Reader.turn (reader : Reader) (read : ReadResult) : Execution Reader :=
  let readBuffer := reader.readBuffer.fill read.chunk
  if read.error.value = operationAborted.value then
    .returns { reader with readBuffer := readBuffer, running := false }
  else if read.error.isError || read.chunk.bytes.length == 0 then
    .returns { reader with readBuffer := readBuffer }
  else do
    let (queue, err) ←
      parseBuffer reader.queue readBuffer.bytes 0 read.chunk.bytes.length
    .returns ⟨readBuffer, queue, !err.isError⟩

/-- A successful read of some bytes is parsed and leaves the reader running
unless the queue refuses a message. -/
theorem Reader.turn_of_chunk (reader : Reader) {chunk : Chunk}
    (nonempty : chunk.bytes ≠ []) :
    reader.turn ⟨.success, chunk⟩ =
      (parseBuffer reader.queue
        (chunk.bytes ++ reader.readBuffer.bytes.drop chunk.bytes.length) 0
        chunk.bytes.length >>= fun (queue, err) =>
          .returns ⟨reader.readBuffer.fill chunk, queue, !err.isError⟩) := by
  have notAborted : ErrorCode.success.value ≠ operationAborted.value := by
    decide
  have notZero : (chunk.bytes.length == 0) = false := by simpa using nonempty
  simp only [Reader.turn, notAborted, if_false, ErrorCode.isError_success,
    notZero, Bool.or_false, Bool.false_eq_true, ReadBuffer.fill]

end RedisClient
