import RedisClient.ClientPool
import RedisClient.ConnectionRuns

/-!
# Exchanges on one connection

An exchange is what one call of `client::send` does on a connection, from its
write to its only read, together with what the server sends in answer.  A
connection serves one exchange after another, and each of them starts with the
bytes that the ones before it have left unread.  Every byte remembers the call
it answers.
-/

namespace RedisClient

open Basis

/-- Bytes sent by the server, each with the call whose request it answers.  The
bytes that a login leaves unread belong to no call. -/
abbrev Stream := List (Option Nat × UInt8)

def owned (owner : Option Nat) (bytes : Bytes) : Stream :=
  bytes.map fun byte => (owner, byte)

def Stream.bytes (stream : Stream) : Bytes := stream.map Prod.snd

def Stream.owners (stream : Stream) : List (Option Nat) :=
  stream.map Prod.fst

@[simp] theorem bytes_owned (owner : Option Nat) (bytes : Bytes) :
    (owned owner bytes).bytes = bytes := by
  simp [owned, Stream.bytes]

theorem eq_of_mem_owners_owned {owner source : Option Nat} {bytes : Bytes}
    (member : source ∈ (owned owner bytes).owners) : source = owner := by
  simp only [owned, Stream.owners, List.map_map, List.mem_map] at member
  obtain ⟨byte, inside, rfl⟩ := member
  rfl

/-- What one read of so many bytes takes from the front of the stream. -/
def Stream.front (stream : Stream) (count : Nat) : Stream :=
  stream.take (min count bufferSize)

def Stream.chunk (stream : Stream) (count : Nat) : Chunk :=
  ⟨(stream.front count).bytes, by
    rw [Stream.bytes, List.length_map, Stream.front, List.length_take]
    omega⟩

/-- The commands of a call of `client::send`. -/
def Request.commands : Request → List Command
  | .single command => [command]
  | .pipeline commands => commands

structure Exchange where
  call : Nat
  request : Request
  answers : List Resp
  write : WriteResult
  readError : ErrorCode
  bytesRead : Nat

namespace Exchange

/-- Everything the server sends in answer to the request. -/
def sent (exchange : Exchange) : Bytes := Resp.encodeAll exchange.answers

def notWritten (exchange : Exchange) : Bool :=
  exchange.write.failed exchange.request.buffer

/-- The unread bytes once the server has answered. -/
def arrived (exchange : Exchange) (unread : Stream) : Stream :=
  unread ++ owned (some exchange.call) exchange.sent

/-- The bytes the read takes; there is no read after a write that failed. -/
def taken (exchange : Exchange) (unread : Stream) : Stream :=
  if exchange.notWritten then []
  else (exchange.arrived unread).front exchange.bytesRead

/-- What the exchange leaves for the next one. -/
def left (exchange : Exchange) (unread : Stream) : Stream :=
  (exchange.arrived unread).drop (exchange.taken unread).length

def readResult (exchange : Exchange) (unread : Stream) : ReadResult :=
  ⟨exchange.readError,
    (exchange.arrived unread).chunk exchange.bytesRead⟩

/-- `send(connection, ...)`, when the exchange starts with these bytes
unread. -/
def outcome (exchange : Exchange) (unread : Stream) :
    Execution (List Reply) :=
  exchange.request.send exchange.write (exchange.readResult unread)

/-- The read takes as many bytes as the server sends in answer; after a write
that failed the server sends none. -/
structure Whole (exchange : Exchange) : Prop where
  silent : exchange.notWritten = true → exchange.answers = []
  count : exchange.notWritten = false →
    exchange.bytesRead = exchange.sent.length
  fits : exchange.notWritten = false → exchange.sent.length ≤ bufferSize

/-- The server answers every command with one reply that is read as it is
sent, or nothing at all. -/
structure Answered (exchange : Exchange) : Prop where
  each : exchange.answers = [] ∨
    exchange.answers.length = exchange.request.commands.length
  ordinary : ∀ answer ∈ exchange.answers, answer.Ordinary

/-- What a call is to return that reads the answers to its own commands. -/
def ownReplies (exchange : Exchange) : List Reply :=
  if exchange.notWritten then exchange.request.failed .writeError
  else if exchange.readError.isError || exchange.answers.isEmpty then
    exchange.request.failed .readError
  else exchange.answers.map Resp.toReply

end Exchange

/-- What a series of exchanges leaves unread. -/
def leftBy (unread : Stream) (exchanges : List Exchange) : Stream :=
  exchanges.foldl (fun unread exchange => exchange.left unread) unread

@[simp] theorem leftBy_append_singleton (unread : Stream)
    (exchanges : List Exchange) (exchange : Exchange) :
    leftBy unread (exchanges ++ [exchange]) =
      exchange.left (leftBy unread exchanges) := by
  simp [leftBy]

/-! ## Whole exchanges -/

section Whole

variable {exchange : Exchange}

theorem Exchange.Whole.taken_eq (whole : exchange.Whole) :
    exchange.taken [] = owned (some exchange.call) exchange.sent := by
  rw [Exchange.taken]
  split <;> rename_i written
  · rw [Exchange.sent, whole.silent written]
    rfl
  · have wasWritten : exchange.notWritten = false := by simpa using written
    have count := whole.count wasWritten
    have fits := whole.fits wasWritten
    rw [Exchange.arrived, List.nil_append, Stream.front]
    apply List.take_of_length_le
    simp only [owned, List.length_map]
    omega

theorem Exchange.Whole.left_eq (whole : exchange.Whole) :
    exchange.left [] = [] := by
  simp [Exchange.left, whole.taken_eq, Exchange.arrived]

theorem leftBy_of_whole {exchanges : List Exchange}
    (whole : ∀ exchange ∈ exchanges, exchange.Whole) :
    leftBy [] exchanges = [] := by
  induction exchanges with
  | nil => rfl
  | cons exchange exchanges induction =>
      have first := (whole exchange List.mem_cons_self).left_eq
      rw [leftBy, List.foldl_cons, first]
      exact induction fun other member =>
        whole other (List.mem_cons_of_mem exchange member)

private theorem Exchange.Whole.chunk_eq (whole : exchange.Whole)
    (written : exchange.notWritten = false) :
    (exchange.readResult []).chunk.bytes = exchange.sent := by
  have taken := whole.taken_eq
  rw [Exchange.taken, if_neg (by simp [written])] at taken
  calc (exchange.readResult []).chunk.bytes
      = ((exchange.arrived []).front exchange.bytesRead).bytes := rfl
    _ = exchange.sent := by rw [taken, bytes_owned]

private theorem Request.send_of_notRead {request : Request}
    {write : WriteResult} {read : ReadResult}
    (written : write.failed request.buffer = false)
    (failed : read.failed = true) :
    request.send write read = .returns (request.failed .readError) := by
  cases request with
  | single command =>
      rw [Request.buffer] at written
      simp only [Request.send, RedisClient.send, written, failed,
        Bool.false_eq_true, if_false, if_true, Outcome.returns_bind,
        Request.failed]
  | pipeline commands =>
      rw [Request.buffer] at written
      simp only [Request.send, sendAll, written, failed, Bool.false_eq_true,
        if_false, if_true, Request.failed]

private theorem Request.send_of_answers {request : Request}
    {write : WriteResult} {read : ReadResult} {answers : List Resp}
    (written : write.failed request.buffer = false)
    (success : read.error.isError = false) (some : answers ≠ [])
    (each : answers.length = request.commands.length)
    (ordinary : ∀ answer ∈ answers, answer.Ordinary)
    (chunk : read.chunk.bytes = Resp.encodeAll answers) :
    request.send write read = .returns (answers.map Resp.toReply) := by
  have fits : (Resp.encodeAll answers).length ≤ maxSize := by
    have inBuffer := read.chunk.fits
    rw [chunk] at inBuffer
    exact inBuffer.trans (by decide)
  have spelled := Resp.spellsAll_encodeAll fits
  rw [← chunk] at spelled
  have nonempty : read.chunk.bytes ≠ [] := by
    obtain ⟨answer, rest, rfl⟩ := List.exists_cons_of_ne_nil some
    rw [chunk, Resp.encodeAll]
    exact fun empty =>
      answer.encode_ne_nil (List.append_eq_nil_iff.mp empty).1
  have wasRead : read.failed = false := by
    simp [ReadResult.failed, success, nonempty]
  cases request with
  | pipeline commands =>
      exact sendAll_of_spelled written wasRead spelled ordinary
  | single command =>
      obtain ⟨answer, rfl⟩ := List.length_eq_one_iff.mp each
      have alone := ordinary answer List.mem_cons_self
      rw [Resp.encodeAll] at chunk
      have first : Spells answer answer.encode := by
        apply Resp.spells_encode
        simp only [Resp.encodeAll, List.append_nil] at fits
        exact fits
      have sent := send_of_spelled written success first alone.readToEnd chunk
      rw [alone.reading_eq] at sent
      simp only [Request.send, sent, Outcome.returns_bind]
      rfl

/-- A whole exchange on a connection where nothing is unread gives the call the
answers to its own commands. -/
theorem Exchange.Whole.outcome_eq (whole : exchange.Whole)
    (answered : exchange.Answered) :
    exchange.outcome [] = .returns exchange.ownReplies := by
  rw [Exchange.outcome, Exchange.ownReplies]
  split <;> rename_i written
  · exact Request.send_of_failed written _
  · have wasWritten : exchange.notWritten = false := by simpa using written
    have chunk := whole.chunk_eq wasWritten
    split <;> rename_i read
    · apply Request.send_of_notRead wasWritten
      simp only [Bool.or_eq_true, List.isEmpty_iff] at read
      rcases read with error | none
      · simp [ReadResult.failed, Exchange.readResult, error]
      · rw [ReadResult.failed, chunk, Exchange.sent, none]
        simp [Resp.encodeAll]
    · simp only [Bool.or_eq_true, List.isEmpty_iff, not_or,
        Bool.not_eq_true] at read
      obtain ⟨success, some⟩ := read
      exact Request.send_of_answers wasWritten success some
        (answered.each.resolve_left some) answered.ordinary chunk

end Whole

/-! ## Whose bytes are read -/

theorem Exchange.owners_arrived {exchange : Exchange} {unread : Stream}
    {source : Option Nat}
    (member : source ∈ (exchange.arrived unread).owners) :
    source ∈ unread.owners ∨ source = some exchange.call := by
  rw [Stream.owners, Exchange.arrived, List.map_append,
    List.mem_append] at member
  exact member.imp_right eq_of_mem_owners_owned

theorem Exchange.owners_taken {exchange : Exchange} {unread : Stream}
    {source : Option Nat}
    (member : source ∈ (exchange.taken unread).owners) :
    source ∈ unread.owners ∨ source = some exchange.call := by
  rw [Exchange.taken] at member
  split at member
  · cases member
  · rw [Stream.owners, Stream.front, List.map_take] at member
    exact Exchange.owners_arrived (List.mem_of_mem_take member)

theorem owners_leftBy {unread : Stream} {exchanges : List Exchange}
    {source : Option Nat}
    (member : source ∈ (leftBy unread exchanges).owners) :
    source ∈ unread.owners ∨
      ∃ exchange ∈ exchanges, source = some exchange.call := by
  induction exchanges generalizing unread with
  | nil => exact Or.inl member
  | cons exchange exchanges induction =>
      rcases induction member with before | ⟨other, later, owner⟩
      · simp only [Stream.owners, Exchange.left, List.map_drop] at before
        rcases Exchange.owners_arrived (List.mem_of_mem_drop before) with
          earlier | own
        · exact Or.inl earlier
        · exact Or.inr ⟨exchange, List.mem_cons_self, own⟩
      · exact Or.inr ⟨other, List.mem_cons_of_mem exchange later, owner⟩

end RedisClient
