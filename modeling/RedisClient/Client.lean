import RedisClient.Command
import RedisClient.ReplyLoop
import RedisClient.Socket

/-!
# Sending commands

The two coroutines of `client.cpp` that send on a connection, as functions of
what the write and the single read on the connection give.
-/

namespace RedisClient

open Basis

/-- `write_error || bytes_written != buffer.size()` -/
def WriteResult.failed (write : WriteResult) (buffer : Bytes) : Bool :=
  write.error.isError || write.bytesWritten != buffer.length

/-- `read_error || bytes_read == 0` -/
def ReadResult.failed (read : ReadResult) : Bool :=
  read.error.isError || read.chunk.bytes.length == 0

/-- `client::send(connection, command)` -/
def send (command : Command) (write : WriteResult) (read : ReadResult) :
    Execution Reply :=
  let buffer := command.serializedCommand
  if write.failed buffer then
    .returns (.ofError ClientErrorCode.writeError.toErrorCode)
  else
    let readBuffer := ReadBuffer.zeros.fill read.chunk
    if read.failed then
      .returns (.ofError ClientErrorCode.readError.toErrorCode)
    else do
      let (reply, _) ← loadData readBuffer.bytes read.chunk.bytes.length 0
      .returns reply

/-- `client::send(connection, commands)` -/
def sendAll (commands : List Command) (write : WriteResult)
    (read : ReadResult) : Execution (List Reply) :=
  let buffer := serializedCommands commands
  if write.failed buffer then
    .returns (List.replicate commands.length
      (.ofError ClientErrorCode.writeError.toErrorCode))
  else
    let readBuffer := ReadBuffer.zeros.fill read.chunk
    if read.failed then
      .returns (List.replicate commands.length
        (.ofError ClientErrorCode.readError.toErrorCode))
    else do
      let (replies, _) ←
        readReplies readBuffer.bytes read.chunk.bytes.length 0
      .returns replies

theorem sendAll_of_spelled {commands : List Command} {items : List Resp}
    {write : WriteResult} {read : ReadResult}
    (written : write.failed (serializedCommands commands) = false)
    (success : read.failed = false)
    (spelled : SpellsAll items read.chunk.bytes)
    (ordinary : ∀ item ∈ items, item.Ordinary) :
    sendAll commands write read = .returns (items.map Resp.toReply) := by
  have run := spelled.readReplies_eq ordinary
    (ReadBuffer.zeros.bytes.drop read.chunk.bytes.length)
  simp only [sendAll, written, success, Bool.false_eq_true, if_false,
    ReadBuffer.fill, run, Outcome.returns_bind]

end RedisClient
