import RedisClient.Errors

/-!
# What the sockets deliver

The results of `async_write` and `async_read_some`, and the vector a read fills
from its front.
-/

namespace RedisClient

/-- The size of the read buffers. -/
def bufferSize : Nat := 4096

/-- `net::error::operation_aborted` -/
def operationAborted : ErrorCode := ⟨.system, 125⟩

/-- `auto [write_error, bytes_written]` -/
structure WriteResult where
  error : ErrorCode
  bytesWritten : Nat

/-- The bytes one read puts into a read buffer. -/
structure Chunk where
  bytes : Bytes
  fits : bytes.length ≤ bufferSize

/-- A read that gives nothing. -/
def Chunk.empty : Chunk := ⟨[], Nat.zero_le bufferSize⟩

/-- `auto [read_error, bytes_read]`, with the bytes themselves. -/
structure ReadResult where
  error : ErrorCode
  chunk : Chunk

/-- `std::vector<uint8_t> read_buffer(4096)` -/
structure ReadBuffer where
  bytes : Bytes
  size : bytes.length = bufferSize

def ReadBuffer.zeros : ReadBuffer :=
  ⟨List.replicate bufferSize 0, List.length_replicate⟩

/-- A read overwrites the front of the buffer and leaves the rest. -/
def ReadBuffer.fill (buffer : ReadBuffer) (chunk : Chunk) : ReadBuffer :=
  ⟨chunk.bytes ++ buffer.bytes.drop chunk.bytes.length, by
    have size := buffer.size
    have fits := chunk.fits
    rw [List.length_append, List.length_drop]
    omega⟩

end RedisClient
